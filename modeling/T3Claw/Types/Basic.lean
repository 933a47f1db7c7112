import Mathlib.Tactic

/-!
# Identifiers, time, JSON values and owners

The scalar types every engine record is built from. Identifiers are the source's UUID
newtypes; only their equality is ever used, so a UUID is a natural number. An instant is
the number of nanoseconds since the epoch (`chrono::DateTime<Utc>`), a duration a
difference of two instants.

Owners follow `types/mod.rs`: the two reserved user ids are the shared owner, every other
id owns only itself — in particular a shared record is owned by *no* user, the reserved
ids included.
-/

namespace T3Claw

/-- An instant, in nanoseconds since the epoch. -/
abbrev Time := ℤ

/-- Nanoseconds in a second. -/
def SECOND : ℤ := 1000000000

/-- `DateTime::date_naive`: the number of the UTC day. -/
def day (t : Time) : ℤ := t / (86400 * SECOND)

theorem day_mono {s t : Time} (h : s ≤ t) : day s ≤ day t :=
  Int.ediv_le_ediv (by decide) h

/-- `types/thread.rs::ThreadId`. -/
structure ThreadId where
  uuid : ℕ
  deriving DecidableEq, Repr

/-- `types/project.rs::ProjectId`. -/
structure ProjectId where
  uuid : ℕ
  deriving DecidableEq, Repr

/-- `types/capability.rs::LeaseId`. -/
structure LeaseId where
  uuid : ℕ
  deriving DecidableEq, Repr

/-- `types/step.rs::StepId`. -/
structure StepId where
  uuid : ℕ
  deriving DecidableEq, Repr

/-- `types/mission.rs::MissionId`. -/
structure MissionId where
  uuid : ℕ
  deriving DecidableEq, Repr

/-- `types/conversation.rs::ConversationId`. -/
structure ConversationId where
  uuid : ℕ
  deriving DecidableEq, Repr

/-- The text a UUID newtype prints in an error message. -/
def uuidText (uuid : ℕ) : String := toString uuid

/-- `serde_json::Value`; the fields of an object stand in the order of its map. -/
inductive Json where
  | null
  | bool (b : Bool)
  | num (n : ℤ)
  | str (s : String)
  | arr (items : List Json)
  | obj (fields : List (String × Json))

namespace Json

/-- `Value::get` with a string key. -/
def get? : Json → String → Option Json
  | .obj fields, key => (fields.find? fun f => f.1 == key).map Prod.snd
  | _, _ => none

/-- `Value::as_str`. -/
def asStr? : Json → Option String
  | .str s => some s
  | _ => none

/-- `Value::as_bool`. -/
def asBool? : Json → Option Bool
  | .bool b => some b
  | _ => none

/-- `Value::as_u64`. -/
def asU64? : Json → Option ℕ
  | .num n => if 0 ≤ n then some n.toNat else none
  | _ => none

/-- `Value::as_array`. -/
def asArray? : Json → Option (List Json)
  | .arr items => some items
  | _ => none

mutual

/-- Equality of values; objects are compared in the order of their map. -/
def eqv : Json → Json → Bool
  | .null, .null => true
  | .bool a, .bool b => a == b
  | .num a, .num b => a == b
  | .str a, .str b => a == b
  | .arr xs, .arr ys => eqvItems xs ys
  | .obj fs, .obj gs => eqvFields fs gs
  | _, _ => false
  termination_by structural x => x

def eqvItems : List Json → List Json → Bool
  | [], [] => true
  | x :: xs, y :: ys => x.eqv y && eqvItems xs ys
  | _, _ => false
  termination_by structural xs => xs

def eqvField : String × Json → String × Json → Bool
  | (k, v), (l, u) => k == l && v.eqv u
  termination_by structural f => f

def eqvFields : List (String × Json) → List (String × Json) → Bool
  | [], [] => true
  | f :: fs, g :: gs => eqvField f g && eqvFields fs gs
  | _, _ => false
  termination_by structural fs => fs

end

end Json

/-! ### Owners -/

def LEGACY_SHARED_OWNER_ID : String := "system"

def SHARED_OWNER_ID : String := "__shared__"

/-- `types/mod.rs::is_shared_owner`. -/
def isSharedOwner (user_id : String) : Bool :=
  user_id == SHARED_OWNER_ID || user_id == LEGACY_SHARED_OWNER_ID

/-- `types/mod.rs::OwnerId`. -/
inductive OwnerId where
  | shared
  | user (id : String)
  deriving DecidableEq

namespace OwnerId

def fromUserId (user_id : String) : OwnerId :=
  if isSharedOwner user_id then .shared else .user user_id

def isShared : OwnerId → Bool
  | .shared => true
  | .user _ => false

def matchesUser : OwnerId → String → Bool
  | .shared, _ => false
  | .user owner, user_id => owner == user_id

end OwnerId

end T3Claw
