import T3Claw.Types.Basic

/-!
# Capabilities, leases and action names

`types/capability.rs`: the grant a lease carries, the definition of an action, the policy
rules and the lease record with its validity test, its use counter and its refund.

Action names come in several spellings: a lease that lists `create_issue` also covers
`create-issue`. `sameSpelling` is the equivalence a name is meant up to — hyphens and
underscores exchanged position by position — and it is what every statement about
aliases is phrased with. `GrantedActions.covers` is finer: it compares a listed action
with the requested name and with its two *uniform* respellings only, so a name that mixes
both characters is covered by its own spelling and by its uniform ones, never by a
different mixture.
-/

namespace T3Claw

/-- `str::replace` of one character by another. -/
def replaceChar (s : String) (c d : Char) : String :=
  String.ofList (s.toList.map fun x => if x = c then d else x)

/-- `name.replace('_', "-")`. -/
def hyphenated (name : String) : String := replaceChar name '_' '-'

/-- `name.replace('-', "_")`. -/
def underscored (name : String) : String := replaceChar name '-' '_'

/-- Two names are equal up to hyphen/underscore spelling. -/
def sameSpelling (a b : String) : Prop := underscored a = underscored b

instance (a b : String) : Decidable (sameSpelling a b) := inferInstanceAs (Decidable (_ = _))

/-- One replacement absorbs another when it does so character by character. -/
private theorem replaceChar_comp (s : String) {a b c d e f : Char}
    (h : ∀ x : Char, (if (if x = a then b else x) = c then d else if x = a then b else x) =
      if x = e then f else x) :
    replaceChar (replaceChar s a b) c d = replaceChar s e f := by
  simp only [replaceChar, String.toList_ofList, List.map_map]
  congr 1
  exact List.map_congr_left fun x _ => h x

@[simp] theorem underscored_hyphenated (s : String) :
    underscored (hyphenated s) = underscored s :=
  replaceChar_comp s fun x => by by_cases hx : x = '_' <;> simp [hx]

@[simp] theorem underscored_underscored (s : String) :
    underscored (underscored s) = underscored s :=
  replaceChar_comp s fun x => by by_cases hx : x = '-' <;> simp [hx]

@[simp] theorem hyphenated_hyphenated (s : String) :
    hyphenated (hyphenated s) = hyphenated s :=
  replaceChar_comp s fun x => by by_cases hx : x = '_' <;> simp [hx]

@[simp] theorem hyphenated_underscored (s : String) :
    hyphenated (underscored s) = hyphenated s :=
  replaceChar_comp s fun x => by by_cases hx : x = '-' <;> simp [hx]

/-! ### Granted actions -/

/-- Which actions a lease grants access to. -/
inductive GrantedActions where
  | all
  | specific (actions : List String)
  deriving DecidableEq, Repr

namespace GrantedActions

/-- `GrantedActions::covers`: the wildcard, or the name itself or one of its two uniform
respellings. -/
def covers (g : GrantedActions) (action_name : String) : Bool :=
  match g with
  | .all => true
  | .specific actions => actions.any fun action =>
      action == action_name || action == hyphenated action_name
        || action == underscored action_name

def isAll : GrantedActions → Bool
  | .all => true
  | .specific _ => false

/-- The specific actions, or nothing for the wildcard. -/
def actions : GrantedActions → List String
  | .all => []
  | .specific actions => actions

@[simp] theorem covers_all (name : String) : covers .all name = true := rfl

theorem covers_specific {as : List String} {name : String} :
    covers (.specific as) name = true ↔
      ∃ a ∈ as, a = name ∨ a = hyphenated name ∨ a = underscored name := by
  simp [covers, or_assoc]

/-- Granting more listed actions covers more. -/
theorem covers_mono {as bs : List String} (h : as ⊆ bs) {name : String}
    (hc : covers (.specific as) name = true) : covers (.specific bs) name = true := by
  obtain ⟨a, ha, hn⟩ := covers_specific.mp hc
  exact covers_specific.mpr ⟨a, h ha, hn⟩

end GrantedActions

/-! ### Effects, actions and policy rules -/

inductive EffectType where
  | readLocal
  | readExternal
  | writeLocal
  | writeExternal
  | credentialedNetwork
  | compute
  | financial
  deriving DecidableEq, Repr

/-- The `Debug` text of an effect type, as error messages print it. -/
def EffectType.debug : EffectType → String
  | .readLocal => "ReadLocal"
  | .readExternal => "ReadExternal"
  | .writeLocal => "WriteLocal"
  | .writeExternal => "WriteExternal"
  | .credentialedNetwork => "CredentialedNetwork"
  | .compute => "Compute"
  | .financial => "Financial"

/-- `ActionDef`, without its description and parameter schema, which no check reads. -/
structure ActionDef where
  name : String
  effects : List EffectType
  requires_approval : Bool
  deriving DecidableEq, Repr

inductive PolicyEffect where
  | allow
  | deny
  | requireApproval
  deriving DecidableEq, Repr

inductive PolicyCondition where
  | always
  | actionMatches (pattern : String)
  | effectTypeIs (effect : EffectType)
  deriving DecidableEq, Repr

structure PolicyRule where
  name : String
  condition : PolicyCondition
  effect : PolicyEffect
  deriving DecidableEq, Repr

/-- A capability: a named set of actions with its policy rules. -/
structure Capability where
  name : String
  actions : List ActionDef
  policies : List PolicyRule

/-! ### Leases -/

/-- A time- and use-limited grant of capability access to a thread. -/
structure CapabilityLease where
  id : LeaseId
  thread_id : ThreadId
  capability_name : String
  granted_actions : GrantedActions
  granted_at : Time
  /-- When the lease expires (`none`: never). -/
  expires_at : Option Time
  /-- Maximum number of invocations (`none`: unlimited). -/
  max_uses : Option ℕ
  /-- Remaining invocations (`none`: unlimited). -/
  uses_remaining : Option ℕ
  revoked : Bool
  revoked_reason : Option String
  deriving DecidableEq, Repr

namespace CapabilityLease

/-- `CapabilityLease::is_valid`, at the clock reading `now`. -/
def isValid (lease : CapabilityLease) (now : Time) : Bool :=
  if lease.revoked then false
  else if lease.expires_at.any fun expires_at => decide (expires_at ≤ now) then false
  else if lease.uses_remaining == some 0 then false
  else true

/-- `CapabilityLease::covers_action`. -/
def coversAction (lease : CapabilityLease) (action_name : String) : Bool :=
  lease.granted_actions.covers action_name

/-- `CapabilityLease::consume_use`: the lease after it, and whether a use was left. -/
def consumeUse (lease : CapabilityLease) : CapabilityLease × Bool :=
  match lease.uses_remaining with
  | none => (lease, true)
  | some 0 => (lease, false)
  | some (n + 1) => ({ lease with uses_remaining := some n }, true)

/-- `CapabilityLease::refund_use`: never above `max_uses`. -/
def refundUse (lease : CapabilityLease) : CapabilityLease :=
  match lease.max_uses, lease.uses_remaining with
  | some max_uses, some remaining =>
    if remaining < max_uses then { lease with uses_remaining := some (remaining + 1) } else lease
  | _, _ => lease

theorem isValid_iff {lease : CapabilityLease} {now : Time} :
    lease.isValid now = true ↔ lease.revoked = false ∧
      (∀ e, lease.expires_at = some e → now < e) ∧ lease.uses_remaining ≠ some 0 := by
  unfold isValid
  cases lease.revoked <;> cases lease.expires_at <;> simp

/-- Consuming never touches identity, grant or expiry. -/
theorem consumeUse_frame (lease : CapabilityLease) :
    (lease.consumeUse).1.id = lease.id ∧ (lease.consumeUse).1.thread_id = lease.thread_id ∧
      (lease.consumeUse).1.granted_actions = lease.granted_actions := by
  unfold consumeUse
  split <;> simp

/-- A valid lease always has a use to consume. -/
theorem consumeUse_of_isValid {lease : CapabilityLease} {now : Time}
    (h : lease.isValid now = true) : (lease.consumeUse).2 = true := by
  have hu := (isValid_iff.mp h).2.2
  unfold consumeUse
  split <;> simp_all

end CapabilityLease

end T3Claw
