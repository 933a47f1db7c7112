import T3Claw.Data.KeyedStore
import T3Claw.Data.Text

/-!
# The tables of the pairing

Requests and channel identities, and the transactions on them, each a function on the tables. A
transaction that fails is rolled back: only the clock has gone on. The constraints of the schema
are fields of the tables, so rows that break them cannot be built; what the schema refuses is an
error of the transaction.
-/

namespace T3Claw.Pairing

/-! ### Rows -/

/-- The characters of a pairing code. -/
def ALPHABET : List Char := "ABCDEFGHJKLMNPQRSTUVWXYZ23456789".toList

/-- What `generate_pairing_code` can give. -/
structure PairingCode where
  value : List Char
  length : value.length = 8
  alphabet : ∀ c ∈ value, c ∈ ALPHABET
  deriving DecidableEq

/-- `normalize_channel_name`. -/
def normalizeChannelName (channel : List Char) : List Char := channel.map Char.toLower

/-- Who sends: the channel and the id there. -/
abbrev Sender : Type := List Char × String

/-- A row of `pairing_requests`. -/
structure PairingRequest where
  id : ℕ
  channel : List Char
  external_id : String
  code : PairingCode
  owner_id : Option String
  created_at : ℕ
  expires_at : ℕ
  approved_at : Option ℕ
  deriving DecidableEq

def PairingRequest.sender (r : PairingRequest) : Sender := (r.channel, r.external_id)

/-- A row of `channel_identities`. -/
structure ChannelIdentity where
  owner_id : String
  channel : List Char
  external_id : String

def ChannelIdentity.sender (i : ChannelIdentity) : Sender := (i.channel, i.external_id)

/-- What is read of a row of `users`. -/
structure User where
  id : String
  role : List Char
  status : String

inductive UserRole where
  | owner
  | admin
  | regular
  deriving DecidableEq

/-- `UserRole::from_db_role`. -/
def UserRole.fromDbRole (role : List Char) : UserRole :=
  let role := (Text.trim role).map Char.toLower
  if role = "owner".toList then owner
  else if role = "admin".toList then admin
  else regular

structure UserId where
  id : String
  role : UserRole
  deriving DecidableEq

/-- The tables, and the clock in milliseconds. -/
structure Db where
  users : List User
  pairing_requests : List PairingRequest
  channel_identities : KeyedStore Sender ChannelIdentity (·.sender)
  now : ℕ
  unique : pairing_requests.Pairwise fun a b => a.id ≠ b.id ∧ a.code ≠ b.code

theorem Db.unique_nil :
    ([] : List PairingRequest).Pairwise fun a b => a.id ≠ b.id ∧ a.code ≠ b.code := .nil

inductive DatabaseError where
  | notFound (entity id : List Char)
  | query (constraint : String)

/-- `PairingApprovalRecord`. -/
structure PairingApprovalRecord where
  request_id : ℕ
  channel : List Char
  external_id : String
  owner_id : String
  previous_owner_id : Option String
  deriving DecidableEq

def PairingApprovalRecord.sender (a : PairingApprovalRecord) : Sender :=
  (a.channel, a.external_id)

/-! ### Statements -/

/-- An assignment that leaves the unique columns as they are. -/
structure PairingRequest.KeepsKeys (f : PairingRequest → PairingRequest) : Prop where
  id : ∀ r, (f r).id = r.id
  code : ∀ r, (f r).code = r.code

namespace Db

variable (db : Db)

/-- The tables when the clock has gone on. -/
def after (elapsed : ℕ) : Db := { db with now := db.now + elapsed }

/-- `UPDATE pairing_requests SET … WHERE …`. -/
def updateRequests (p : PairingRequest → Bool) (f : PairingRequest → PairingRequest)
    (hf : PairingRequest.KeepsKeys f) : Db where
  users := db.users
  pairing_requests := db.pairing_requests.map fun r => if p r then f r else r
  channel_identities := db.channel_identities
  now := db.now
  unique := by
    have hkeys : ∀ r, (if p r then f r else r).id = r.id ∧
        (if p r then f r else r).code = r.code := by
      intro r
      split
      · exact ⟨hf.id r, hf.code r⟩
      · exact ⟨rfl, rfl⟩
    refine List.pairwise_map.mpr (db.unique.imp fun h => ?_)
    rw [(hkeys _).1, (hkeys _).2, (hkeys _).1, (hkeys _).2]
    exact h

/-- `INSERT INTO pairing_requests`, unless a unique column has the value already. -/
def insertRequest (r : PairingRequest) : Except DatabaseError Db :=
  if h : ∀ a ∈ db.pairing_requests, a.id ≠ r.id ∧ a.code ≠ r.code then
    .ok {
      users := db.users
      pairing_requests := db.pairing_requests ++ [r]
      channel_identities := db.channel_identities
      now := db.now
      unique := List.pairwise_append.mpr ⟨db.unique, List.pairwise_singleton _ _,
        fun a ha _ hb => List.mem_singleton.mp hb ▸ h a ha⟩ }
  else .error (.query "UNIQUE constraint failed")

/-- The owner of a channel identity. -/
def ownerOf (s : Sender) : Option String := (db.channel_identities.get? s).map (·.owner_id)

/-- The column references `users`. -/
def isUser (owner_id : String) : Bool := db.users.any (·.id = owner_id)

/-- `INSERT INTO channel_identities … ON CONFLICT (channel, external_id) DO UPDATE`. -/
def upsertIdentity (owner_id : String) (s : Sender) : Except DatabaseError Db :=
  if db.isUser owner_id then
    .ok { db with channel_identities := db.channel_identities.insert ⟨owner_id, s.1, s.2⟩ }
  else .error (.query "FOREIGN KEY constraint failed")

/-- `DELETE FROM channel_identities WHERE …`. -/
def deleteIdentities (p : ChannelIdentity → Bool) : Db :=
  { db with channel_identities := db.channel_identities.retain fun i => !p i }

end Db

/-! ### Transactions -/

/-- How long a request is good: 15 minutes. -/
def REQUEST_TTL : ℕ := 15 * 60 * 1000

/-- A pending request that is retired. -/
def PairingRequest.isPending (now : ℕ) (r : PairingRequest) : Bool :=
  r.approved_at.isNone && now < r.expires_at

/-- The assignments of the transactions. -/
def PairingRequest.expireAt (now : ℕ) (r : PairingRequest) : PairingRequest :=
  { r with expires_at := now }

def PairingRequest.approve (owner_id : String) (now : ℕ) (r : PairingRequest) : PairingRequest :=
  { r with owner_id := some owner_id, approved_at := some now }

def PairingRequest.reopen (r : PairingRequest) : PairingRequest :=
  { r with owner_id := none, approved_at := none }

theorem PairingRequest.keepsKeys_expireAt (now : ℕ) : KeepsKeys (expireAt now) :=
  ⟨fun _ => rfl, fun _ => rfl⟩

theorem PairingRequest.keepsKeys_approve (owner_id : String) (now : ℕ) :
    KeepsKeys (approve owner_id now) :=
  ⟨fun _ => rfl, fun _ => rfl⟩

theorem PairingRequest.keepsKeys_reopen : KeepsKeys reopen := ⟨fun _ => rfl, fun _ => rfl⟩

namespace Db

variable (db : Db)

/-- The insertion of a request, with `attempts` new codes at most. -/
def insertFresh (s : Sender) (draws : ℕ → ℕ × PairingCode) :
    ℕ → ℕ → Except DatabaseError (PairingRequest × Db)
  | _, 0 => .error (.query "failed to generate unique pairing code after 3 attempts")
  | attempt, attempts + 1 =>
    let r : PairingRequest := ⟨(draws attempt).1, s.1, s.2, (draws attempt).2, none, db.now,
      db.now + REQUEST_TTL, none⟩
    match db.insertRequest r with
    | .ok db' => .ok (r, db')
    | .error e => if attempt < 2 then insertFresh s draws (attempt + 1) attempts else .error e

/-- The pending requests of a sender expire. -/
def retire (s : Sender) : Db :=
  db.updateRequests (fun r => r.sender = s && r.isPending db.now) (.expireAt db.now)
    (PairingRequest.keepsKeys_expireAt _)

/-- `upsert_pairing_request`. It reads the clock twice. -/
def upsertPairingRequest (channel : List Char) (external_id : String)
    (draws : ℕ → ℕ × PairingCode) (elapsed : ℕ) : Except DatabaseError PairingRequest × Db :=
  let s : Sender := (normalizeChannelName channel, external_id)
  match ((db.retire s).after elapsed).insertFresh s draws 0 3 with
  | .ok (r, db') => (.ok r, db')
  | .error e => (.error e, db.after elapsed)

/-- The request a submitted code is of: the codes are compared by `UPPER`. -/
def findByCode (channel code : List Char) : Option PairingRequest :=
  db.pairing_requests.find? fun r => r.code.value.map Char.toUpper = code.map Char.toUpper &&
    decide (r.channel = channel) && r.isPending db.now

/-- `approve_pairing`. -/
def approvePairing (channel code : List Char) (owner_id : String) (elapsed : ℕ) :
    Except DatabaseError PairingApprovalRecord × Db :=
  match db.findByCode (normalizeChannelName channel) code with
  | none => (.error (.notFound "pairing_request".toList code), db.after elapsed)
  | some r =>
    let previous_owner_id := db.ownerOf r.sender
    let now := db.now + elapsed
    let approved := (db.after elapsed).updateRequests (·.id = r.id) (.approve owner_id now)
      (PairingRequest.keepsKeys_approve _ _)
    match approved.upsertIdentity owner_id r.sender with
    | .error e => (.error e, db.after elapsed)
    | .ok db' => (.ok ⟨r.id, r.channel, r.external_id, owner_id, previous_owner_id⟩, db')

/-- The row that `revert_pairing_approval` updates. -/
def isApprovedBy (a : PairingApprovalRecord) (r : PairingRequest) : Bool :=
  r.id = a.request_id && r.owner_id = some a.owner_id && r.approved_at.isSome

/-- `revert_pairing_approval`. -/
def revertPairingApproval (a : PairingApprovalRecord) : Except DatabaseError Unit × Db :=
  if db.pairing_requests.any (isApprovedBy a) then
    let reopened := db.updateRequests (isApprovedBy a) .reopen PairingRequest.keepsKeys_reopen
    match a.previous_owner_id with
    | some previous_owner_id =>
      match reopened.upsertIdentity previous_owner_id a.sender with
      | .error e => (.error e, db)
      | .ok db' => (.ok (), db')
    | none => (.ok (), reopened.deleteIdentities fun i =>
        i.sender = a.sender && i.owner_id = a.owner_id)
  else (.error (.notFound "pairing_approval".toList (Nat.toDigits 16 a.request_id)), db)

/-- `remove_channel_identity`. -/
def removeChannelIdentity (channel : List Char) (external_id : String) : Db :=
  db.deleteIdentities fun i => i.sender = (normalizeChannelName channel, external_id)

/-- A user id, if it is of an active user. -/
def activeUser (owner_id : String) : Option UserId :=
  (db.users.find? fun u => u.id = owner_id && u.status = "active").map fun u =>
    ⟨owner_id, .fromDbRole u.role⟩

/-- `resolve_channel_identity`: the owner, joined with the active users. -/
def resolveChannelIdentity (channel : List Char) (external_id : String) : Option UserId :=
  (db.ownerOf (normalizeChannelName channel, external_id)).bind db.activeUser

end Db

end T3Claw.Pairing
