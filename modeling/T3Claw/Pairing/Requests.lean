import Mathlib.Data.List.Chain
import T3Claw.Pairing.Database

/-!
# Requests and approvals over a run of transactions

What the transactions did is kept in a ledger. At any time one request of a sender can be approved
at most, the newest, and a code is approved once between two reversals (`Ledger.Sound`); a reversal
gives the identity back to who had it before the approval, unless it was decided on since
(`Step.Restores`). Both fail for reversals that come late, and `pairings_sound_iff` says which.
-/

namespace T3Claw.Pairing

/-! ### The ledger -/

/-- What a transaction has done. -/
inductive Event where
  | approved (code : PairingCode) (a : PairingApprovalRecord)
  | reverted (code : PairingCode) (a : PairingApprovalRecord)
  | removed (s : Sender)

/-- The tables, and what was done to them, newest first. -/
structure Ledger where
  db : Db
  events : List Event

/-- A transaction, or time that passes. -/
inductive Op where
  | upsert (channel : List Char) (external_id : String) (draws : ℕ → ℕ × PairingCode)
    (elapsed : ℕ)
  | approve (channel code : List Char) (owner_id : String) (elapsed : ℕ)
  | revert (a : PairingApprovalRecord)
  | remove (channel : List Char) (external_id : String)
  | wait (elapsed : ℕ)

namespace Ledger

/-- One transaction. -/
def step (l : Ledger) : Op → Ledger
  | .upsert channel external_id draws elapsed =>
    ⟨(l.db.upsertPairingRequest channel external_id draws elapsed).2, l.events⟩
  | .approve channel code owner_id elapsed =>
    match l.db.findByCode (normalizeChannelName channel) code,
        l.db.approvePairing channel code owner_id elapsed with
    | some r, (.ok a, db) => ⟨db, .approved r.code a :: l.events⟩
    | _, (_, db) => ⟨db, l.events⟩
  | .revert a =>
    match l.db.pairing_requests.find? (Db.isApprovedBy a), l.db.revertPairingApproval a with
    | some r, (.ok (), db) => ⟨db, .reverted r.code a :: l.events⟩
    | _, (_, db) => ⟨db, l.events⟩
  | .remove channel external_id =>
    ⟨l.db.removeChannelIdentity channel external_id,
      .removed (normalizeChannelName channel, external_id) :: l.events⟩
  | .wait elapsed => ⟨l.db.after elapsed, l.events⟩

/-- The tables before the first request. -/
def start (users : List User) (identities : KeyedStore Sender ChannelIdentity (·.sender))
    (now : ℕ) : Ledger :=
  ⟨⟨users, [], identities, now, Db.unique_nil⟩, []⟩

end Ledger

/-- A transaction and what it was run on. -/
structure Step where
  before : Ledger
  op : Op

def Step.after (s : Step) : Ledger := s.before.step s.op

/-- The steps of a run. -/
def trace (l : Ledger) : List Op → List Step
  | [] => []
  | op :: ops => ⟨l, op⟩ :: trace (l.step op) ops

/-! ### What is to hold -/

/-- The newest request of a sender. -/
def Db.latest (db : Db) (s : Sender) : Option PairingRequest :=
  (db.pairing_requests.filter (·.sender = s)).getLast?

/-- The approvals and reversals of a code. -/
def Event.onCode (code : PairingCode) : Event → Option Bool
  | approved c _ => if c = code then some true else none
  | reverted c _ => if c = code then some false else none
  | removed _ => none

/-- What can be approved is the newest request of its sender; between two approvals of a code
there is a reversal. -/
structure Ledger.Sound (l : Ledger) : Prop where
  active : ∀ r ∈ l.db.pairing_requests, r.isPending l.db.now = true →
    l.db.latest r.sender = some r
  codes : ∀ code, (l.events.filterMap (·.onCode code)).IsChain fun d d' => ¬ (d = true ∧ d' = true)

/-- Who decided on the owner of an identity. -/
inductive Decision where
  | approved (a : PairingApprovalRecord)
  | removed
  deriving DecidableEq

/-- The decisions on an identity that were not reverted, newest first. -/
def decisions (s : Sender) : List Event → List Decision
  | [] => []
  | .approved _ a :: events =>
    if a.sender = s then .approved a :: decisions s events else decisions s events
  | .reverted _ a :: events =>
    if a.sender = s then (decisions s events).erase (.approved a) else decisions s events
  | .removed s' :: events =>
    if s' = s then .removed :: decisions s events else decisions s events

/-- Nothing was decided on the identity since the approval. -/
def Ledger.standsLast (l : Ledger) (a : PairingApprovalRecord) : Prop :=
  (decisions a.sender l.events).head? = some (.approved a)

instance (l : Ledger) (a : PairingApprovalRecord) : Decidable (l.standsLast a) :=
  inferInstanceAs (Decidable (_ = _))

/-- An approval notes who had the identity; a reversal gives it back, or keeps what was decided
since. -/
def Step.Restores (s : Step) : Prop :=
  match s.op with
  | .approve channel code owner_id elapsed =>
    ∀ a, (s.before.db.approvePairing channel code owner_id elapsed).1 = .ok a →
      a.previous_owner_id = s.before.db.ownerOf a.sender ∧
        s.after.db.ownerOf a.sender = some owner_id
  | .revert a =>
    (s.before.db.revertPairingApproval a).1 = .ok () →
      s.after.db.ownerOf a.sender =
        if s.before.standsLast a then a.previous_owner_id else s.before.db.ownerOf a.sender
  | _ => True

/-! ### When it holds -/

/-- The reversal finds its approval, and the owner to go back to. -/
def Db.CanRevert (db : Db) (a : PairingApprovalRecord) : Prop :=
  db.pairing_requests.any (isApprovedBy a) = true ∧
    ∀ owner_id ∈ a.previous_owner_id, db.isUser owner_id = true

/-- What a reversal reopens is expired or the newest of its sender; and a decision since the
approval is not undone. -/
structure Ledger.Undoable (l : Ledger) (a : PairingApprovalRecord) : Prop where
  request : ∀ r ∈ l.db.pairing_requests, Db.isApprovedBy a r = true →
    r.expires_at ≤ l.db.now ∨ l.db.latest r.sender = some r
  back : ∀ p, a.previous_owner_id = some p →
    l.standsLast a ∨ l.db.ownerOf a.sender = some p
  gone : a.previous_owner_id = none → if l.standsLast a then
      l.db.ownerOf a.sender = some a.owner_id ∨ l.db.ownerOf a.sender = none
    else l.db.ownerOf a.sender ≠ some a.owner_id

/-- The step is no reversal that comes too late. -/
def Step.InTime (s : Step) : Prop :=
  ∀ a, s.op = .revert a → s.before.db.CanRevert a → s.before.Undoable a

/-! ### What the statements do -/

variable {db db' : Db} {s : Sender}

/-- Rows with one id are one row. -/
theorem Db.eq_of_id {a b : PairingRequest} (ha : a ∈ db.pairing_requests)
    (hb : b ∈ db.pairing_requests) (h : a.id = b.id) : a = b := by
  have hnodup : (db.pairing_requests.map (·.id)).Nodup :=
    List.pairwise_map.mpr (db.unique.imp And.left)
  exact List.inj_on_of_nodup_map hnodup ha hb h

theorem Db.eq_of_code {a b : PairingRequest} (ha : a ∈ db.pairing_requests)
    (hb : b ∈ db.pairing_requests) (h : a.code = b.code) : a = b := by
  have hnodup : (db.pairing_requests.map (·.code)).Nodup :=
    List.pairwise_map.mpr (db.unique.imp And.right)
  exact List.inj_on_of_nodup_map hnodup ha hb h

/-- An update that leaves the senders as they are. -/
theorem Db.latest_updateRequests {p : PairingRequest → Bool} {f : PairingRequest → PairingRequest}
    (hf : PairingRequest.KeepsKeys f) (hsender : ∀ r, (f r).sender = r.sender) (s : Sender) :
    (db.updateRequests p f hf).latest s =
      (db.latest s).map fun r => if p r then f r else r := by
  have hsame : ∀ r, (if p r then f r else r).sender = r.sender := by
    intro r
    split
    · exact hsender r
    · rfl
  have hfilter : (fun r => decide (r.sender = s)) ∘ (fun r => if p r then f r else r) =
      fun r => decide (r.sender = s) := by
    funext r
    rw [Function.comp_apply, hsame]
  rw [latest, latest, updateRequests, List.filter_map, hfilter, List.getLast?_map]

/-- What can be approved after an update. -/
theorem Db.active_updateRequests {p : PairingRequest → Bool}
    {f : PairingRequest → PairingRequest} (hf : PairingRequest.KeepsKeys f)
    (hsender : ∀ r, (f r).sender = r.sender) {now : ℕ}
    (h : ∀ r ∈ db.pairing_requests, (if p r then f r else r).isPending now = true →
      db.latest r.sender = some r) {r' : PairingRequest}
    (hr' : r' ∈ (db.updateRequests p f hf).pairing_requests) (hpending : r'.isPending now = true) :
    (db.updateRequests p f hf).latest r'.sender = some r' := by
  obtain ⟨r, hr, rfl⟩ := List.mem_map.mp hr'
  have hsame : (if p r then f r else r).sender = r.sender := by
    split
    · exact hsender r
    · rfl
  rw [hsame, latest_updateRequests hf hsender, h r hr hpending, Option.map_some]

theorem PairingRequest.isPending_iff {r : PairingRequest} {now : ℕ} :
    r.isPending now = true ↔ r.approved_at = none ∧ now < r.expires_at := by
  rw [isPending, Bool.and_eq_true, decide_eq_true_iff, Option.isNone_iff_eq_none]

/-- Later less can be approved. -/
theorem PairingRequest.isPending_of_le {r : PairingRequest} {now now' : ℕ} (hle : now ≤ now')
    (h : r.isPending now' = true) : r.isPending now = true := by
  rw [isPending_iff] at h ⊢
  exact ⟨h.1, Nat.lt_of_le_of_lt hle h.2⟩

/-- A request that was inserted. -/
theorem Db.insertRequest_eq_ok {r : PairingRequest} (h : db.insertRequest r = .ok db') :
    (∀ a ∈ db.pairing_requests, a.id ≠ r.id ∧ a.code ≠ r.code) ∧
      db'.pairing_requests = db.pairing_requests ++ [r] ∧
      db'.now = db.now ∧ db'.users = db.users ∧
      db'.channel_identities = db.channel_identities := by
  rw [insertRequest] at h
  split at h
  case isTrue hfresh =>
    obtain rfl := Except.ok.inj h
    exact ⟨hfresh, rfl, rfl, rfl, rfl⟩
  case isFalse => cases h

/-- The request that came in, whatever attempt it was. -/
theorem Db.insertFresh_eq_ok {draws : ℕ → ℕ × PairingCode} {attempt attempts : ℕ}
    {r : PairingRequest} (h : db.insertFresh s draws attempt attempts = .ok (r, db')) :
    r.sender = s ∧ r.approved_at = none ∧ db.insertRequest r = .ok db' := by
  induction attempts generalizing attempt with
  | zero => cases h
  | succ attempts ih =>
    rw [insertFresh] at h
    split at h
    case h_1 inserted hinsert =>
      obtain ⟨rfl, rfl⟩ := Prod.mk.inj (Except.ok.inj h)
      exact ⟨rfl, rfl, hinsert⟩
    case h_2 =>
      split at h
      · exact ih h
      · cases h

/-- What issuing a request does: the pending ones of the sender expire, and there may be a new one,
of a new code. -/
theorem Db.upsertPairingRequest_cases (db : Db) (channel : List Char) (external_id : String)
    (draws : ℕ → ℕ × PairingCode) (elapsed : ℕ) :
    (db.upsertPairingRequest channel external_id draws elapsed).2 = db.after elapsed ∨
      ∃ r db', (db.upsertPairingRequest channel external_id draws elapsed).2 = db' ∧
        r.approved_at = none ∧ r.sender = (normalizeChannelName channel, external_id) ∧
        ((db.retire r.sender).after elapsed).insertRequest r = .ok db' := by
  rw [upsertPairingRequest]
  split
  case h_1 r db' h =>
    obtain ⟨hsender, happroved, hinsert⟩ := insertFresh_eq_ok h
    exact .inr ⟨r, db', rfl, happroved, hsender, hsender ▸ hinsert⟩
  case h_2 => exact .inl rfl

/-- What an identity is set to. -/
theorem Db.upsertIdentity_eq_ok {owner_id : String} (h : db.upsertIdentity owner_id s = .ok db') :
    db.isUser owner_id = true ∧ db'.pairing_requests = db.pairing_requests ∧ db'.now = db.now ∧
      db'.users = db.users ∧
      ∀ s', db'.ownerOf s' = if s' = s then some owner_id else db.ownerOf s' := by
  rw [upsertIdentity] at h
  split at h
  case isTrue huser =>
    obtain rfl := Except.ok.inj h
    refine ⟨huser, rfl, rfl, rfl, fun s' => ?_⟩
    rw [ownerOf, ownerOf, KeyedStore.get?_insert]
    by_cases hs : s' = s
    · rw [if_pos hs, if_pos (show s' = ChannelIdentity.sender ⟨owner_id, s.1, s.2⟩ from hs)]
      rfl
    · rw [if_neg hs, if_neg (show ¬ s' = ChannelIdentity.sender ⟨owner_id, s.1, s.2⟩ from hs)]
  case isFalse => cases h

/-- Who is left after identities were deleted. -/
theorem Db.ownerOf_deleteIdentities (db : Db) (p : ChannelIdentity → Bool) (s : Sender) :
    (db.deleteIdentities p).ownerOf s =
      ((db.channel_identities.get? s).filter fun i => !p i).map (·.owner_id) := by
  rw [ownerOf, deleteIdentities, KeyedStore.get?_retain]

/-- What an approval does. -/
theorem Db.approvePairing_cases (db : Db) (channel code : List Char) (owner_id : String)
    (elapsed : ℕ) :
    (∃ e, db.approvePairing channel code owner_id elapsed = (.error e, db.after elapsed)) ∨
      ∃ r db', db.findByCode (normalizeChannelName channel) code = some r ∧
        db.approvePairing channel code owner_id elapsed =
          (.ok ⟨r.id, r.channel, r.external_id, owner_id, db.ownerOf r.sender⟩, db') ∧
        ((db.after elapsed).updateRequests (·.id = r.id) (.approve owner_id (db.now + elapsed))
          (PairingRequest.keepsKeys_approve _ _)).upsertIdentity owner_id r.sender = .ok db' := by
  rw [approvePairing]
  cases hfind : db.findByCode (normalizeChannelName channel) code with
  | none => exact .inl ⟨_, rfl⟩
  | some r =>
    dsimp only
    split
    case h_1 e h => exact .inl ⟨e, rfl⟩
    case h_2 db' h => exact .inr ⟨r, db', rfl, rfl, h⟩

/-- What a reversal does. -/
theorem Db.revertPairingApproval_cases (db : Db) (a : PairingApprovalRecord) :
    (¬ db.CanRevert a ∧ ∃ e, db.revertPairingApproval a = (.error e, db)) ∨
      (db.CanRevert a ∧ ∃ db', db.revertPairingApproval a = (.ok (), db') ∧
        db'.pairing_requests = (db.updateRequests (isApprovedBy a) .reopen
          PairingRequest.keepsKeys_reopen).pairing_requests ∧ db'.now = db.now ∧
        (db'.ownerOf a.sender = match a.previous_owner_id with
          | some p => some p
          | none => if db.ownerOf a.sender = some a.owner_id then none
            else db.ownerOf a.sender) ∧
        db'.users = db.users ∧ ∀ s, s ≠ a.sender → db'.ownerOf s = db.ownerOf s) := by
  rw [revertPairingApproval]
  by_cases hany : db.pairing_requests.any (isApprovedBy a) = true
  · rw [if_pos hany]
    dsimp only
    cases hprevious : a.previous_owner_id with
    | some p =>
      dsimp only
      split
      case h_1 e h =>
        refine .inl ⟨fun hcan => ?_, e, rfl⟩
        have huser : (db.updateRequests (isApprovedBy a) .reopen
            PairingRequest.keepsKeys_reopen).isUser p = true := hcan.2 p hprevious
        rw [upsertIdentity, if_pos huser] at h
        cases h
      case h_2 db' h =>
        obtain ⟨huser, hrequests, hnow, husers, howner⟩ := upsertIdentity_eq_ok h
        refine .inr ⟨⟨hany, fun q hq => ?_⟩, db', rfl, hrequests, hnow, ?_, husers, ?_⟩
        · obtain rfl := Option.some.inj (hprevious.symm.trans hq)
          exact huser
        · rw [howner, if_pos rfl]
        · intro s hs
          rw [howner, if_neg hs]
          rfl
    | none =>
      -- reopening a request leaves the identities alone
      have hget (s : Sender) : (db.updateRequests (isApprovedBy a) .reopen
          PairingRequest.keepsKeys_reopen).channel_identities.get? s =
            db.channel_identities.get? s := rfl
      refine .inr ⟨⟨hany, fun q hq => ?_⟩, _, rfl, rfl, rfl, ?_, rfl, fun s hs => ?_⟩
      · rw [hprevious] at hq
        cases hq
      · dsimp only
        rw [ownerOf_deleteIdentities, hget, ownerOf]
        cases hi : db.channel_identities.get? a.sender with
        | none => simp
        | some i =>
          have hsender : i.sender = a.sender := KeyedStore.key_of_get? hi
          by_cases howner : i.owner_id = a.owner_id <;> simp [hsender, howner]
      · rw [ownerOf_deleteIdentities, hget, ownerOf]
        cases hi : db.channel_identities.get? s with
        | none => rfl
        | some i =>
          have hsender : i.sender ≠ a.sender := (KeyedStore.key_of_get? hi).trans_ne hs
          simp [hsender]
  · rw [if_neg hany]
    exact .inl ⟨fun hcan => hany hcan.1, _, rfl⟩

/-! ### One step -/

/-- The request of a code is approved. -/
def Db.IsApproved (db : Db) (code : PairingCode) : Prop :=
  ∃ r ∈ db.pairing_requests, r.code = code ∧ r.approved_at ≠ none

/-- The last decision on a code is an approval if and only if its request is approved, and between
two approvals there is a reversal. -/
structure Ledger.Tracked (l : Ledger) : Prop where
  last : ∀ code, (l.events.filterMap (·.onCode code)).head? = some true ↔ l.db.IsApproved code
  codes : ∀ code, (l.events.filterMap (·.onCode code)).IsChain fun d d' => ¬ (d = true ∧ d' = true)

/-- The request that a submitted code is of. -/
theorem Db.findByCode_eq_some {channel code : List Char} {r : PairingRequest}
    (h : db.findByCode channel code = some r) :
    r ∈ db.pairing_requests ∧ r.approved_at = none := by
  refine ⟨List.mem_of_find?_eq_some h, ?_⟩
  have hfound := List.find?_some h
  rw [Bool.and_eq_true] at hfound
  exact (PairingRequest.isPending_iff.mp hfound.2).1

/-- The request that a reversal reopens is the only one it is of. -/
theorem Db.find?_isApprovedBy {a : PairingApprovalRecord} (h : db.CanRevert a) :
    ∃ r, db.pairing_requests.find? (isApprovedBy a) = some r ∧ r ∈ db.pairing_requests ∧
      isApprovedBy a r = true ∧
      ∀ b ∈ db.pairing_requests, isApprovedBy a b = true → b = r := by
  obtain ⟨c, hc, hca⟩ := List.any_eq_true.mp h.1
  obtain ⟨r, hr⟩ := Option.isSome_iff_exists.mp (List.find?_isSome.mpr ⟨c, hc, hca⟩)
  have hmem := List.mem_of_find?_eq_some hr
  have hra := List.find?_some hr
  refine ⟨r, hr, hmem, hra, fun b hb hba => eq_of_id hb hmem ?_⟩
  simp only [isApprovedBy, Bool.and_eq_true, decide_eq_true_eq] at hba hra
  exact hba.1.1.trans hra.1.1.symm

/-- Approvals go by the owner of the identity; reversals, if and only if they are in time. -/
theorem Step.restores_iff (s : Step) : s.Restores ↔ ∀ a, s.op = .revert a →
    s.before.db.CanRevert a →
      (∀ p, a.previous_owner_id = some p →
        s.before.standsLast a ∨ s.before.db.ownerOf a.sender = some p) ∧
      (a.previous_owner_id = none → if s.before.standsLast a then
          s.before.db.ownerOf a.sender = some a.owner_id ∨ s.before.db.ownerOf a.sender = none
        else s.before.db.ownerOf a.sender ≠ some a.owner_id) := by
  obtain ⟨l, op⟩ := s
  cases op with
  | upsert | remove | wait => exact iff_of_true trivial fun a ha => nomatch ha
  | approve channel code owner_id elapsed =>
    refine iff_of_true ?_ fun a ha => nomatch ha
    intro a ha
    obtain ⟨e, h⟩ | ⟨r, db', hfind, h, hidentity⟩ :=
      l.db.approvePairing_cases channel code owner_id elapsed
    · rw [h] at ha
      cases ha
    · rw [h] at ha
      obtain rfl := Except.ok.inj ha
      obtain ⟨-, -, -, -, howner⟩ := Db.upsertIdentity_eq_ok hidentity
      refine ⟨rfl, ?_⟩
      -- an approval that succeeds makes its owner the owner of the sender
      have hafter : (Step.mk l (.approve channel code owner_id elapsed)).after.db = db' := by
        rw [Step.after, Ledger.step, hfind, h]
      rw [hafter]
      exact (howner _).trans (if_pos rfl)
  | revert a =>
    obtain ⟨hcan, e, h⟩ | ⟨hcan, db', h, -, -, howner, -⟩ := l.db.revertPairingApproval_cases a
    · refine iff_of_true ?_ ?_
      · intro hok
        rw [h] at hok
        cases hok
      · rintro _ ⟨⟩ hcan'
        exact absurd hcan' hcan
    · obtain ⟨r, hr, -⟩ := Db.find?_isApprovedBy hcan
      have hafter : (Step.mk l (.revert a)).after.db = db' := by
        rw [Step.after, Ledger.step, hr, h]
      -- what the reversal leaves is decided by whether its approval stands last
      have hrestores : (Step.mk l (.revert a)).Restores ↔ db'.ownerOf a.sender =
          if l.standsLast a then a.previous_owner_id else l.db.ownerOf a.sender := by
        rw [← hafter]
        exact ⟨fun hall => hall (congrArg Prod.fst h), fun heq _ => heq⟩
      rw [hrestores, howner]
      constructor
      · rintro heq _ ⟨⟩ -
        refine ⟨fun p hp => ?_, fun hnone => ?_⟩
        · rw [hp] at heq
          by_cases hlast : l.standsLast a
          · exact .inl hlast
          · rw [if_neg hlast] at heq
            exact .inr heq.symm
        · rw [hnone] at heq
          dsimp only at heq ⊢
          split
          case isTrue hlast =>
            rw [if_pos hlast] at heq
            by_contra hne
            rw [not_or] at hne
            rw [if_neg hne.1] at heq
            exact hne.2 heq
          case isFalse hlast =>
            rw [if_neg hlast] at heq
            intro hown
            rw [if_pos hown, hown] at heq
            cases heq
      · intro hall
        obtain ⟨hback, hgone⟩ := hall a rfl hcan
        dsimp only at hback hgone
        cases hprevious : a.previous_owner_id with
        | some p =>
          dsimp only
          split
          · rfl
          · next hlast => exact ((hback p hprevious).resolve_left hlast).symm
        | none =>
          have hgone := hgone hprevious
          dsimp only
          by_cases hlast : l.standsLast a
          · rw [if_pos hlast] at hgone
            rw [if_pos hlast]
            obtain hown | hown := hgone
            · rw [if_pos hown]
            · rw [hown, if_neg (by simp)]
          · rw [if_neg hlast] at hgone
            rw [if_neg hlast, if_neg hgone]

/-- What can be approved after a reversal. -/
theorem Db.active_reopen_iff {a : PairingApprovalRecord} {r : PairingRequest}
    (hr : r ∈ db.pairing_requests) (hra : isApprovedBy a r = true)
    (honly : ∀ b ∈ db.pairing_requests, isApprovedBy a b = true → b = r)
    (hactive : ∀ b ∈ db.pairing_requests, b.isPending db.now = true →
      db.latest b.sender = some b) {now : ℕ} (hnow : now = db.now) :
    (∀ b ∈ (db.updateRequests (isApprovedBy a) .reopen
        PairingRequest.keepsKeys_reopen).pairing_requests, b.isPending now = true →
          (db.updateRequests (isApprovedBy a) .reopen
            PairingRequest.keepsKeys_reopen).latest b.sender = some b) ↔
      r.expires_at ≤ db.now ∨ db.latest r.sender = some r := by
  subst hnow
  have hpending : r.reopen.isPending db.now = true ↔ ¬ r.expires_at ≤ db.now := by
    rw [PairingRequest.isPending_iff, Nat.not_le]
    exact and_iff_right rfl
  constructor
  · intro hafter
    refine or_iff_not_imp_left.mpr fun hexpired => ?_
    have hmem : r.reopen ∈ (db.updateRequests (isApprovedBy a) .reopen
        PairingRequest.keepsKeys_reopen).pairing_requests :=
      List.mem_map.mpr ⟨r, hr, if_pos hra⟩
    have hlast := hafter _ hmem (hpending.mpr hexpired)
    rw [latest_updateRequests PairingRequest.keepsKeys_reopen (fun _ => rfl)] at hlast
    obtain ⟨b, hb, heq⟩ := Option.map_eq_some_iff.mp hlast
    have hbmem : b ∈ db.pairing_requests :=
      (List.mem_filter.mp (List.mem_of_getLast? hb)).1
    have hid : b.id = r.id := by
      have := congrArg PairingRequest.id heq
      rwa [apply_ite PairingRequest.id, PairingRequest.keepsKeys_reopen.id, ite_self] at this
    obtain rfl := eq_of_id hbmem hr hid
    exact hb
  · intro hinTime b hb hbp
    refine active_updateRequests PairingRequest.keepsKeys_reopen (fun _ => rfl)
      (fun c hc hcp => ?_) hb hbp
    by_cases hca : isApprovedBy a c = true
    · obtain rfl := honly c hc hca
      rw [if_pos hca, hpending] at hcp
      exact hinTime.resolve_left hcp
    · rw [if_neg hca] at hcp
      exact hactive c hc hcp

/-- A step but a reversal leaves no request that could be approved beside the newest. -/
theorem Ledger.active_step {l : Ledger} (h : ∀ r ∈ l.db.pairing_requests,
      r.isPending l.db.now = true → l.db.latest r.sender = some r) (op : Op)
    (hop : ∀ a, op ≠ .revert a) : ∀ r ∈ (l.step op).db.pairing_requests,
      r.isPending (l.step op).db.now = true → (l.step op).db.latest r.sender = some r := by
  have hlater {elapsed : ℕ} : ∀ r ∈ l.db.pairing_requests,
      r.isPending (l.db.now + elapsed) = true → l.db.latest r.sender = some r :=
    fun r hr hp => h r hr (PairingRequest.isPending_of_le (Nat.le_add_right _ _) hp)
  cases op with
  | wait elapsed => exact hlater
  | remove channel external_id => exact h
  | revert a => exact absurd rfl (hop a)
  | upsert channel external_id draws elapsed =>
    rw [step]
    obtain heq | ⟨r, db', heq, happroved, hsender, hinsert⟩ :=
      l.db.upsertPairingRequest_cases channel external_id draws elapsed
    · rw [heq]
      exact hlater
    · rw [heq]
      obtain ⟨-, hrequests, hnow, -⟩ := Db.insertRequest_eq_ok hinsert
      have hlatest : ∀ s', db'.latest s' =
          if r.sender = s' then some r else (l.db.retire r.sender).latest s' := by
        intro s'
        rw [Db.latest, hrequests, List.filter_append]
        by_cases hs : r.sender = s'
        · rw [if_pos hs, List.filter_singleton, decide_eq_true hs, cond_true,
            List.getLast?_concat]
        · rw [if_neg hs, List.filter_singleton, decide_eq_false hs, cond_false, List.append_nil]
          rfl
      intro b hb hbp
      rw [hrequests] at hb
      rw [hnow] at hbp
      rw [hlatest]
      obtain hb | hb := List.mem_append.mp hb
      · -- an older request that can still be approved is of another sender
        obtain ⟨c, hc, rfl⟩ := List.mem_map.mp hb
        by_cases hretired : (decide (c.sender = r.sender) && c.isPending l.db.now) = true
        · rw [if_pos hretired] at hbp
          have hlt : l.db.now + elapsed < l.db.now := (PairingRequest.isPending_iff.mp hbp).2
          omega
        · rw [if_neg hretired] at hbp hb ⊢
          have hcp : c.isPending l.db.now = true :=
            PairingRequest.isPending_of_le (Nat.le_add_right _ _) hbp
          have hother : ¬ r.sender = c.sender := by
            intro hs
            rw [decide_eq_true hs.symm, hcp] at hretired
            exact hretired rfl
          rw [if_neg hother, Db.retire,
            Db.latest_updateRequests (PairingRequest.keepsKeys_expireAt _) (fun _ => rfl),
            h c hc hcp, Option.map_some, if_neg hretired]
      · obtain rfl := List.mem_singleton.mp hb
        rw [if_pos rfl]
  | approve channel code owner_id elapsed =>
    obtain ⟨e, heq⟩ | ⟨r, db', hfind, heq, hidentity⟩ :=
      l.db.approvePairing_cases channel code owner_id elapsed
    · have hstep : (l.step (.approve channel code owner_id elapsed)).db = l.db.after elapsed := by
        rw [step, heq]
        cases l.db.findByCode (normalizeChannelName channel) code <;> rfl
      rw [hstep]
      exact hlater
    · obtain ⟨-, hrequests, hnow, -⟩ := Db.upsertIdentity_eq_ok hidentity
      rw [step, hfind, heq]
      intro b hb hbp
      dsimp only at hb hbp ⊢
      rw [hrequests] at hb
      rw [hnow] at hbp
      rw [Db.latest, hrequests]
      refine Db.active_updateRequests (PairingRequest.keepsKeys_approve _ _) (fun _ => rfl)
        (fun c hc hcp => ?_) hb hbp
      split at hcp
      · cases (PairingRequest.isPending_iff.mp hcp).1
      · exact hlater c hc hcp

/-- The approved codes after an update of some rows. -/
theorem Db.isApproved_updateRequests {p : PairingRequest → Bool}
    {f : PairingRequest → PairingRequest} (hf : PairingRequest.KeepsKeys f) (code : PairingCode) :
    (db.updateRequests p f hf).IsApproved code ↔ ∃ r ∈ db.pairing_requests, r.code = code ∧
      (if p r then (f r).approved_at else r.approved_at) ≠ none := by
  rw [IsApproved, updateRequests]
  simp only [List.mem_map, exists_exists_and_eq_and]
  refine exists_congr fun r => and_congr_right fun _ => ?_
  split
  · rw [hf.code]
  · rfl

/-- A code with one more decision. -/
theorem Event.filterMap_onCode (e : Event) (events : List Event) (code : PairingCode) :
    (e :: events).filterMap (·.onCode code) =
      (e.onCode code).toList ++ events.filterMap (·.onCode code) := by
  rw [List.filterMap_cons]
  cases e.onCode code <;> rfl

/-- The decisions stay, and so do the approved codes. -/
theorem Ledger.Tracked.of_same {l : Ledger} (h : l.Tracked) {db' : Db}
    (hsame : ∀ code, db'.IsApproved code ↔ l.db.IsApproved code) : Ledger.Tracked ⟨db', l.events⟩ :=
  ⟨fun code => (h.last code).trans (hsame code).symm, h.codes⟩

/-- A decision on one code, which was not approved if it is now. -/
theorem Ledger.Tracked.decided {l : Ledger} (h : l.Tracked) {db' : Db} {e : Event}
    {code : PairingCode} {decision : Bool}
    (he : ∀ c, e.onCode c = if code = c then some decision else none)
    (hcode : db'.IsApproved code ↔ decision = true)
    (hother : ∀ c, code ≠ c → (db'.IsApproved c ↔ l.db.IsApproved c))
    (hnot : decision = true → ¬ l.db.IsApproved code) : Ledger.Tracked ⟨db', e :: l.events⟩ := by
  refine ⟨fun c => ?_, fun c => ?_⟩
  all_goals
    rw [Event.filterMap_onCode, he]
    by_cases hc : code = c
  · subst hc
    rw [if_pos rfl, hcode, Option.toList_some, List.singleton_append, List.head?_cons,
      Option.some_inj]
  · rw [if_neg hc, Option.toList_none, List.nil_append, hother c hc]
    exact h.last c
  · subst hc
    rw [if_pos rfl, Option.toList_some, List.singleton_append, List.isChain_cons]
    refine ⟨fun d hd hboth => hnot hboth.1 ((h.last _).mp ?_), h.codes _⟩
    rw [Option.mem_def.mp hd, hboth.2]
  · rw [if_neg hc]
    exact h.codes c

theorem Ledger.Tracked.upsert {l : Ledger} (h : l.Tracked) (channel : List Char)
    (external_id : String) (draws : ℕ → ℕ × PairingCode) (elapsed : ℕ) :
    (l.step (.upsert channel external_id draws elapsed)).Tracked := by
  rw [Ledger.step]
  obtain heq | ⟨r, db', heq, happroved, hsender, hinsert⟩ :=
    l.db.upsertPairingRequest_cases channel external_id draws elapsed
  · rw [heq]
    exact h.of_same fun _ => Iff.rfl
  · rw [heq]
    obtain ⟨-, hrequests, -⟩ := Db.insertRequest_eq_ok hinsert
    have hretired : ∀ code, (l.db.retire r.sender).IsApproved code ↔ l.db.IsApproved code := by
      intro code
      rw [Db.retire, Db.isApproved_updateRequests]
      refine exists_congr fun c => and_congr_right fun _ => and_congr_right fun _ => ?_
      rw [PairingRequest.expireAt, ite_self]
    refine h.of_same fun code => Iff.trans ?_ (hretired code)
    -- the request that is inserted has not been approved
    constructor
    · rintro ⟨b, hb, hcode, hba⟩
      rw [hrequests] at hb
      obtain hb | hb := List.mem_append.mp hb
      · exact ⟨b, hb, hcode, hba⟩
      · rw [List.mem_singleton.mp hb] at hba
        exact absurd happroved hba
    · rintro ⟨b, hb, hcode, hba⟩
      exact ⟨b, hrequests ▸ List.mem_append_left _ hb, hcode, hba⟩

theorem Ledger.Tracked.approve {l : Ledger} (h : l.Tracked) (channel code : List Char)
    (owner_id : String) (elapsed : ℕ) : (l.step (.approve channel code owner_id elapsed)).Tracked := by
  obtain ⟨e, heq⟩ | ⟨r, db', hfind, heq, hidentity⟩ :=
    l.db.approvePairing_cases channel code owner_id elapsed
  · have hstep : l.step (.approve channel code owner_id elapsed) =
        ⟨l.db.after elapsed, l.events⟩ := by
      rw [Ledger.step, heq]
      cases l.db.findByCode (normalizeChannelName channel) code <;> rfl
    rw [hstep]
    exact h.of_same fun _ => Iff.rfl
  · obtain ⟨-, hrequests, -⟩ := Db.upsertIdentity_eq_ok hidentity
    obtain ⟨hr, hpending⟩ := Db.findByCode_eq_some hfind
    rw [Ledger.step, hfind, heq]
    refine h.decided (fun c => rfl) (iff_of_true ?_ rfl) (fun c hc => ?_) fun _ => ?_
    · rw [Db.IsApproved, hrequests, ← Db.IsApproved, Db.isApproved_updateRequests]
      exact ⟨r, hr, rfl, by simp [PairingRequest.approve]⟩
    · rw [Db.IsApproved, hrequests, ← Db.IsApproved, Db.isApproved_updateRequests]
      constructor
      · rintro ⟨b, hb, hcode, hba⟩
        by_cases hid : b.id = r.id
        · exact absurd (Db.eq_of_id hb hr hid ▸ hcode) hc
        · rw [if_neg (by simpa using hid)] at hba
          exact ⟨b, hb, hcode, hba⟩
      · rintro ⟨b, hb, hcode, hba⟩
        refine ⟨b, hb, hcode, ?_⟩
        split
        · exact Option.some_ne_none _
        · exact hba
    · rintro ⟨b, hb, hcode, hba⟩
      rw [Db.eq_of_code hb hr hcode] at hba
      exact hba hpending

theorem Ledger.Tracked.revert {l : Ledger} (h : l.Tracked) (a : PairingApprovalRecord) :
    (l.step (.revert a)).Tracked := by
  obtain ⟨hcan, e, heq⟩ | ⟨hcan, db', heq, hrequests, -⟩ :=
    l.db.revertPairingApproval_cases a
  · have hstep : l.step (.revert a) = ⟨l.db, l.events⟩ := by
      rw [Ledger.step, heq]
      cases l.db.pairing_requests.find? (Db.isApprovedBy a) <;> rfl
    rw [hstep]
    exact h.of_same fun _ => Iff.rfl
  · obtain ⟨r, hfind, hr, hra, honly⟩ := Db.find?_isApprovedBy hcan
    rw [Ledger.step, hfind, heq]
    refine h.decided (fun c => rfl) (iff_of_false ?_ Bool.false_ne_true) (fun c hc => ?_) nofun
    · rw [Db.IsApproved, hrequests, ← Db.IsApproved, Db.isApproved_updateRequests]
      rintro ⟨b, hb, hcode, hba⟩
      obtain rfl := Db.eq_of_code hb hr hcode
      rw [if_pos hra] at hba
      exact hba rfl
    · rw [Db.IsApproved, hrequests, ← Db.IsApproved, Db.isApproved_updateRequests]
      refine exists_congr fun b => and_congr_right fun hb => and_congr_right fun hcode => ?_
      rw [if_neg fun hb' => hc (honly b hb hb' ▸ hcode)]

/-- **One step** keeps track of the codes. -/
theorem Ledger.Tracked.step {l : Ledger} (h : l.Tracked) (op : Op) : (l.step op).Tracked := by
  cases op with
  | wait elapsed => exact h.of_same fun _ => Iff.rfl
  | remove channel external_id => exact ⟨h.last, h.codes⟩
  | upsert channel external_id draws elapsed => exact h.upsert channel external_id draws elapsed
  | approve channel code owner_id elapsed => exact h.approve channel code owner_id elapsed
  | revert a => exact h.revert a

/-! ### Runs -/

/-- A reversal is in time if and only if it leaves one request to approve and restores. -/
theorem Step.inTime_iff (s : Step) (h : s.before.Sound) (htracked : s.before.Tracked) :
    s.after.Sound ∧ s.Restores ↔ s.InTime := by
  have hcodes := (htracked.step s.op).codes
  rw [restores_iff]
  obtain ⟨l, op⟩ := s
  by_cases hop : ∃ a, op = .revert a
  · obtain ⟨a, rfl⟩ := hop
    obtain ⟨hcan, e, heq⟩ | ⟨hcan, db', heq, hrequests, hnow, -⟩ :=
      l.db.revertPairingApproval_cases a
    · have hafter : (Step.mk l (.revert a)).after = l := by
        rw [after, Ledger.step, heq]
        cases l.db.pairing_requests.find? (Db.isApprovedBy a) <;> rfl
      rw [hafter]
      refine iff_of_true ⟨h, ?_⟩ ?_
      · rintro _ ⟨⟩ hcan'
        exact absurd hcan' hcan
      · rintro _ ⟨⟩ hcan'
        exact absurd hcan' hcan
    · obtain ⟨r, hfind, hr, hra, honly⟩ := Db.find?_isApprovedBy hcan
      have hafter : (Step.mk l (.revert a)).after = ⟨db', .reverted r.code a :: l.events⟩ := by
        rw [after, Ledger.step, hfind, heq]
      -- the reopened request is the only one the approval had settled
      have hactive := Db.active_reopen_iff hr hra honly h.active hnow
      have hlatest : ∀ s', db'.latest s' = (l.db.updateRequests (Db.isApprovedBy a) .reopen
          PairingRequest.keepsKeys_reopen).latest s' := by
        intro s'
        rw [Db.latest, hrequests, Db.latest]
      rw [← hrequests] at hactive
      simp only [← hlatest] at hactive
      constructor
      · rintro ⟨hsound, hrestores⟩ _ ⟨⟩ -
        obtain ⟨hback, hgone⟩ := hrestores a rfl hcan
        rw [hafter] at hsound
        refine ⟨fun b hb hba => ?_, hback, hgone⟩
        rw [honly b hb hba]
        exact hactive.mp hsound.active
      · intro hinTime
        have hundoable := hinTime a rfl hcan
        refine ⟨⟨?_, hcodes⟩, ?_⟩
        · rw [hafter]
          exact hactive.mpr (hundoable.request r hr hra)
        · rintro _ ⟨⟩ -
          exact ⟨hundoable.back, hundoable.gone⟩
  · refine iff_of_true ⟨⟨?_, hcodes⟩, ?_⟩ ?_
    · exact Ledger.active_step h.active op fun a ha => hop ⟨a, ha⟩
    · exact fun a ha => absurd ⟨a, ha⟩ hop
    · exact fun a ha => absurd ⟨a, ha⟩ hop

/-- **Requests and approvals.** In any run of transactions from tables without requests, every
step leaves what can be approved and what was approved as it should be, and every reversal
restores, if and only if no reversal comes too late. -/
theorem pairings_sound_iff (users : List User)
    (identities : KeyedStore Sender ChannelIdentity (·.sender)) (now : ℕ) (ops : List Op) :
    (∀ s ∈ trace (.start users identities now) ops, s.after.Sound ∧ s.Restores) ↔
      ∀ s ∈ trace (.start users identities now) ops, s.InTime := by
  have hsound : (Ledger.start users identities now).Sound :=
    ⟨(fun r hr => nomatch hr), fun _ => List.isChain_nil⟩
  have htracked : (Ledger.start users identities now).Tracked := by
    refine ⟨fun _ => iff_of_false (fun h => nomatch h) ?_, fun _ => List.isChain_nil⟩
    rintro ⟨r, hr, -⟩
    cases hr
  generalize Ledger.start users identities now = l at hsound htracked
  induction ops generalizing l with
  | nil => exact iff_of_true (fun s hs => nomatch hs) fun s hs => nomatch hs
  | cons op ops ih =>
    rw [trace, List.forall_mem_cons, List.forall_mem_cons,
      Step.inTime_iff ⟨l, op⟩ hsound htracked]
    refine and_congr_right fun hinTime => ?_
    exact ih (l.step op) ((Step.inTime_iff ⟨l, op⟩ hsound htracked).mpr hinTime).1
      (htracked.step op)

theorem mem_alphabet_of_all {value : List Char}
    (h : (value.all fun c => ALPHABET.contains c) = true) : ∀ c ∈ value, c ∈ ALPHABET := by
  simpa using h

/-- Two codes. -/
def sampleCodes (n : ℕ) : PairingCode :=
  if n = 0 then ⟨"AAAAAAAA".toList, rfl, mem_alphabet_of_all (by decide)⟩
  else ⟨"BBBBBBBB".toList, rfl, mem_alphabet_of_all (by decide)⟩

/-- The approval of the first code below. -/
def sampleApproval : PairingApprovalRecord := ⟨0, "telegram".toList, "7", "alice", some "zoe"⟩

/-- Two codes of one sender are approved, and then the approval of the first is reverted. -/
def lateReversal : List Op :=
  [ .upsert "Telegram".toList "7" (fun _ => (0, sampleCodes 0)) 1,
    .approve "telegram".toList "aaaaaaaa".toList "alice" 1,
    .upsert "telegram".toList "7" (fun _ => (1, sampleCodes 1)) 1,
    .approve "telegram".toList "BBBBBBBB".toList "bob" 1,
    .revert sampleApproval ]

def sampleStart : Ledger :=
  .start [⟨"alice", "member".toList, "active"⟩, ⟨"bob", "member".toList, "active"⟩,
    ⟨"zoe", "admin".toList, "active"⟩]
    (KeyedStore.empty.insert ⟨"zoe", "telegram".toList, "7"⟩) 1000

/-- The first code can be approved again though it is not the newest, and the identity is not
the second approver's any more. -/
theorem late_reversal_unsound : ∃ s ∈ trace sampleStart lateReversal,
    ¬ s.after.Sound ∧ ¬ s.Restores := by
  refine ⟨_, List.mem_of_getElem? (rfl : (trace sampleStart lateReversal)[4]? = some _),
    fun hsound => ?_, fun hrestores => ?_⟩
  · exact absurd hsound.active (by decide +kernel)
  · exact absurd (hrestores rfl) (by decide +kernel)

end T3Claw.Pairing
