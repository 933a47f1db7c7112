import T3Claw.Capability.Lease

/-!
# Leases as JSON

`types/capability.rs`: how a lease is written and read back. The wildcard and an explicit list
share one encoding, an array of names, and the empty array reads as the wildcard. A grant keeps
its authority exactly when it is not the explicit list of no name (`roundTrip_covers_iff`).
-/

namespace T3Claw

/-- How `uuid` and `chrono` write and read their values: what is written reads back. -/
structure SerdeFormats where
  uuid : ℕ → Json
  readUuid : Json → Option ℕ
  datetime : Time → Json
  readDatetime : Json → Option Time
  readUuid_uuid : ∀ n, readUuid (uuid n) = some n
  readDatetime_datetime : ∀ t, readDatetime (datetime t) = some t
  readDatetime_null : readDatetime .null = none

/-! ### The scalar types -/

namespace Json

/-- `Option::deserialize`. -/
def readOption {α : Type} (read : Json → Option α) : Json → Option (Option α)
  | null => some none
  | value => (read value).map some

def readString : Json → Option String
  | str s => some s
  | _ => none

def readBool : Json → Option Bool
  | bool b => some b
  | _ => none

/-- A `u32`; its bound is left out, as the counters of a lease are numbers without one here. -/
def readUnsigned : Json → Option ℕ
  | num n => if 0 ≤ n then some n.toNat else none
  | _ => none

/-- `Option::serialize`. -/
def ofOption {α : Type} (write : α → Json) : Option α → Json
  | none => null
  | some value => write value

@[simp] theorem readOption_null {α : Type} (read : Json → Option α) :
    readOption read null = some none := rfl

@[simp] theorem readOption_str {α : Type} (read : Json → Option α) (s : String) :
    readOption read (str s) = (read (str s)).map some := rfl

/-- What is written and is not `null` reads back. -/
theorem readOption_ofOption {α : Type} {read : Json → Option α} {write : α → Json}
    (h : ∀ value, read (write value) = some value) (hnull : read null = none) (o : Option α) :
    readOption read (ofOption write o) = some o := by
  cases o with
  | none => rfl
  | some value =>
    have hne : write value ≠ null := fun heq => by
      have hread := h value
      rw [heq, hnull] at hread
      cases hread
    rw [ofOption, readOption]
    · rw [h, Option.map_some]
    · exact hne

end Json

/-! ### Grants -/

namespace GrantedActions

/-- `GrantedActions::serialize`. -/
def serialize : GrantedActions → Json
  | all => .arr []
  | specific v => .arr (v.map .str)

/-- `GrantedActions::deserialize`. -/
def deserialize : Json → Option GrantedActions
  | .arr items => do
    let v ← items.mapM Json.readString
    return if v.isEmpty then all else specific v
  | _ => none

/-- A grant reads back as it was, but for the list of no name, which reads as the wildcard. -/
theorem deserialize_serialize (g : GrantedActions) :
    deserialize g.serialize = some (if g = specific [] then all else g) := by
  cases g with
  | all => rfl
  | specific v =>
    have hread : (v.map Json.str).mapM Json.readString = some v := by
      induction v with
      | nil => rfl
      | cons a v ih => simp [List.mapM_cons, Json.readString, ih]
    simp only [serialize, deserialize, hread]
    cases v <;> rfl

end GrantedActions

/-! ### Leases -/

namespace CapabilityLease

variable (F : SerdeFormats)

/-- `CapabilityLease::serialize`. -/
def serialize (lease : CapabilityLease) : Json :=
  .obj ([("id", F.uuid lease.id.uuid), ("thread_id", F.uuid lease.thread_id.uuid),
    ("capability_name", .str lease.capability_name),
    ("granted_actions", lease.granted_actions.serialize),
    ("granted_at", F.datetime lease.granted_at),
    ("expires_at", .ofOption F.datetime lease.expires_at),
    ("max_uses", .ofOption (fun n : ℕ => .num n) lease.max_uses),
    ("uses_remaining", .ofOption (fun n : ℕ => .num n) lease.uses_remaining),
    ("revoked", .bool lease.revoked)] ++
    match lease.revoked_reason with
    | some reason => [("revoked_reason", .str reason)]
    | none => [])

/-- `CapabilityLease::deserialize`: an absent optional field is `None`. -/
def deserialize (value : Json) : Option CapabilityLease := do
  let id ← F.readUuid (← value.get? "id")
  let thread_id ← F.readUuid (← value.get? "thread_id")
  let capability_name ← (← value.get? "capability_name").readString
  let granted_actions ← GrantedActions.deserialize (← value.get? "granted_actions")
  let granted_at ← F.readDatetime (← value.get? "granted_at")
  let expires_at ← ((value.get? "expires_at").getD .null).readOption F.readDatetime
  let max_uses ← ((value.get? "max_uses").getD .null).readOption Json.readUnsigned
  let uses_remaining ← ((value.get? "uses_remaining").getD .null).readOption Json.readUnsigned
  let revoked ← (← value.get? "revoked").readBool
  let revoked_reason ← ((value.get? "revoked_reason").getD .null).readOption Json.readString
  return ⟨⟨id⟩, ⟨thread_id⟩, capability_name, granted_actions, granted_at, expires_at, max_uses,
    uses_remaining, revoked, revoked_reason⟩

/-- A lease reads back as it was, its grant aside. -/
theorem deserialize_serialize (lease : CapabilityLease) :
    deserialize F (lease.serialize F) = some { lease with
      granted_actions :=
        if lease.granted_actions = .specific [] then .all else lease.granted_actions } := by
  have hunsigned : ∀ n : ℕ, Json.readUnsigned (.num n) = some n := fun n => by
    simp [Json.readUnsigned]
  have hexpires :=
    Json.readOption_ofOption F.readDatetime_datetime F.readDatetime_null lease.expires_at
  have hmax := Json.readOption_ofOption hunsigned rfl lease.max_uses
  have huses := Json.readOption_ofOption hunsigned rfl lease.uses_remaining
  cases hreason : lease.revoked_reason <;>
    simp [deserialize, serialize, Json.get?, hreason, F.readUuid_uuid, F.readDatetime_datetime,
      GrantedActions.deserialize_serialize, hexpires, hmax, huses, Json.readString,
      Json.readBool]

/-- **When a lease keeps its authority.** A lease written and read back covers the same action
names exactly when its grant is not the explicit list of no name. -/
theorem roundTrip_covers_iff (lease : CapabilityLease) :
    (∃ lease', deserialize F (lease.serialize F) = some lease' ∧
      ∀ action_name, lease'.coversAction action_name = lease.coversAction action_name) ↔
      lease.granted_actions ≠ .specific [] := by
  rw [deserialize_serialize]
  constructor
  · rintro ⟨lease', hread, hcovers⟩ hgrant
    obtain rfl := Option.some.inj hread
    have hall := hcovers ""
    simp only [coversAction, hgrant, if_true] at hall
    cases hall
  · intro hgrant
    refine ⟨_, rfl, fun action_name => ?_⟩
    rw [if_neg hgrant]

end CapabilityLease

/-! ### An update to no action -/

/-- `uuid` and `chrono` as they write the lease below. -/
def sampleFormats : SerdeFormats where
  uuid n := if n = 1 then .str "00000000-0000-0000-0000-000000000001" else .num n
  readUuid
    | .str _ => some 1
    | .num n => some n.toNat
    | _ => none
  datetime t := if t = 0 then .str "1970-01-01T00:00:00Z" else .num t
  readDatetime
    | .str _ => some 0
    | .num n => some n
    | _ => none
  readUuid_uuid n := by
    by_cases h : n = 1 <;> simp [h]
  readDatetime_datetime t := by
    by_cases h : t = 0 <;> simp [h]
  readDatetime_null := rfl

/-- The actions of a lease are updated to none, and the lease read back covers them all. -/
theorem emptied_lease_widens : ∃ lease m lease' m' lease'',
    LeaseManager.new.grant ⟨1⟩ 0 ⟨1⟩ "tools" (.specific ["shell"]) none none = .ok (lease, m) ∧
    m.updateGrantedActions lease.id (.specific []) = .ok (lease', m') ∧
    lease' ∈ m'.active ∧
    CapabilityLease.deserialize sampleFormats (lease'.serialize sampleFormats) = some lease'' ∧
    lease'.coversAction "shell" = false ∧ lease''.coversAction "shell" = true :=
  ⟨_, _, _, _, _, rfl, rfl, List.mem_cons_self, rfl, rfl, rfl⟩

end T3Claw
