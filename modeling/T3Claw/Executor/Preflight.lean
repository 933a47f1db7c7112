import T3Claw.Capability.Lease
import T3Claw.Capability.Policy
import T3Claw.Types.Step

/-!
# The preflight gate of a dispatch path

Four functions dispatch an action call — `structured.rs::execute_action_calls`,
`orchestrator.rs::handle_execute_action`, `handle_execute_actions_parallel` and
`scripting.rs::preflight_action` — and all of them ask the same questions in the same
order: is there a lease, what does the policy say about the action's definition, is there
a use to consume. They differ in three places, collected in `LookupStyle`: how the name of
a listed definition is compared with the requested one, whether an error of the listing or
of the consumption leaves through `?`, and which lease a use is taken from.

`gate` is the common body. What it answers is decided by two facts about its inputs, the
verdict of the definition the path's comparison selects (`lookupVerdict`; a lookup that
selects nothing skips the policy and counts as `allow`) and whether a use can be consumed
(`consumable`); `gate_verdict` says how.
-/

namespace T3Claw

/-- What an action is executed with besides its parameters. -/
structure ExecContext where
  thread_id : ThreadId
  step_id : StepId
  current_call_id : Option String

/-- `traits/effect.rs::EffectExecutor`. Executing also yields the elapsed milliseconds. -/
structure EffectExecutor where
  available_actions : List CapabilityLease → Except EngineError (List ActionDef)
  execute_action : String → Json → CapabilityLease → ExecContext →
    Except EngineError ActionResult × ℕ

/-- What a dispatch path works with: the thread, its step, the policy and the effects. -/
structure DispatchEnv where
  thread_id : ThreadId
  step_id : StepId
  policy : PolicyEngine
  effects : EffectExecutor

/-- The clock readings of one call's preflight. -/
structure Readings where
  find : Time
  evaluate : Time
  consume : Time

/-- Where the dispatch paths differ. -/
structure LookupStyle where
  /-- Does a definition's name match the requested one? -/
  nameMatches : String → String → Bool
  /-- Errors of the listing and of the consumption leave through `?`. -/
  propagates : Bool
  /-- A use is consumed from the very lease that was found. -/
  consumesFound : Bool

/-- `structured.rs::action_name_matches`. -/
def actionNameMatches (candidate requested : String) : Bool :=
  if candidate == requested then true
  else requested == hyphenated candidate || requested == underscored candidate

/-- The structured path. -/
def structuredStyle : LookupStyle := ⟨actionNameMatches, true, false⟩

/-- The two orchestrator paths. -/
def orchestratorStyle : LookupStyle := ⟨fun candidate name => candidate == name, false, false⟩

/-- The CodeAct path. -/
def codeactStyle : LookupStyle := ⟨fun candidate name => candidate == name, false, true⟩

/-- The preflight of a call that does not interrupt its batch. -/
inductive Settled where
  | noLease
  | denied (reason : String)
  | notConsumed (error : EngineError)
  | approved (lease : CapabilityLease)

/-- The answer of the gate to one call. -/
inductive Gate where
  | settled (outcome : Settled)
  | needsApproval
  | aborted (error : EngineError)

/-- The decision an answer amounts to. -/
def Gate.verdict : Gate → Verdict
  | .settled (.approved _) => .allow
  | .needsApproval => .requireApproval
  | _ => .deny

namespace LookupStyle

variable (style : LookupStyle) (env : DispatchEnv) (caps : List PolicyRule)

/-- The definitions a path looks through: an error is propagated or read as no definition. -/
def listing (lease : CapabilityLease) : Except EngineError (List ActionDef) :=
  if style.propagates then env.effects.available_actions [lease]
  else .ok ((env.effects.available_actions [lease]).toOption.getD [])

/-- Take one use. -/
def consume (now : Time) (m : LeaseManager) (lease : CapabilityLease) (action_name : String) :
    Except EngineError (CapabilityLease × LeaseManager) :=
  if style.consumesFound then (m.consumeUse now lease.id).map fun m => (lease, m)
  else m.findAndConsume now env.thread_id action_name

/-- The decision on the definition the path's comparison selects, if it selects one. -/
def decision? (r : Readings) (lease : CapabilityLease) (actions : List ActionDef)
    (action_name : String) : Option PolicyDecision :=
  (actions.find? fun a => style.nameMatches a.name action_name).map fun action_def =>
    env.policy.evaluate r.evaluate action_def lease caps

/-- The last step of a preflight: consume a use. -/
def takeUse (r : Readings) (m : LeaseManager) (lease : CapabilityLease) (action_name : String) :
    Gate × LeaseManager :=
  match style.consume env r.consume m lease action_name with
  | .ok (lease, m') => (.settled (.approved lease), m')
  | .error e => (if style.propagates then .aborted e else .settled (.notConsumed e), m)

/-- The preflight of one call: find the lease, check the policy, consume a use. -/
def gate (r : Readings) (m : LeaseManager) (action_name : String) : Gate × LeaseManager :=
  match m.findLeaseForAction r.find env.thread_id action_name with
  | none => (.settled .noLease, m)
  | some lease =>
    match style.listing env lease with
    | .error e => (.aborted e, m)
    | .ok actions =>
      match style.decision? env caps r lease actions action_name with
      | some (.deny reason) => (.settled (.denied reason), m)
      | some (.requireApproval _) => (.needsApproval, m)
      | some .allow => style.takeUse env r m lease action_name
      -- no definition selected: the policy is not asked
      | none => style.takeUse env r m lease action_name

/-! ### What decides the gate's answer -/

/-- The verdict of the path's own lookup: `allow` when it selects nothing. -/
def lookupVerdict (r : Readings) (lease : CapabilityLease) (actions : List ActionDef)
    (action_name : String) : Verdict :=
  ((style.decision? env caps r lease actions action_name).map PolicyDecision.verdict).getD .allow

/-- A use can be consumed the way the path does it. -/
def consumable (now : Time) (m : LeaseManager) (lease : CapabilityLease)
    (action_name : String) : Bool :=
  if style.consumesFound then lease.isValid now
  else m.active.values.any fun l => LeaseManager.Grants now env.thread_id action_name l

/-- A verdict after consumption: `allow` without a use to consume is a denial. -/
def settle (verdict : Verdict) (consumable : Bool) : Verdict :=
  if verdict = .allow ∧ consumable = false then .deny else verdict

variable {style env caps}

theorem consume_isSome {now : Time} {m : LeaseManager} {lease : CapabilityLease}
    {name : String} (hl : lease ∈ m.active) :
    (style.consume env now m lease name).toOption.isSome =
      style.consumable env now m lease name := by
  rw [Bool.eq_iff_iff]
  unfold consume consumable
  split
  · rw [← LeaseManager.consumeUse_isSome_iff hl]
    cases m.consumeUse now lease.id <;> simp [Except.map, Except.toOption]
  · rw [LeaseManager.findAndConsume_isSome_iff]
    simp [KeyedStore.mem_def]

theorem takeUse_verdict {r : Readings} {m : LeaseManager} {lease : CapabilityLease}
    {name : String} (hl : lease ∈ m.active) :
    (style.takeUse env r m lease name).1.verdict =
      settle .allow (style.consumable env r.consume m lease name) := by
  rw [← consume_isSome hl]
  unfold takeUse
  cases style.consume env r.consume m lease name with
  | ok p => simp [Gate.verdict, settle, Except.toOption]
  | error e => cases style.propagates <;> simp [Gate.verdict, settle, Except.toOption]

/-- Without a covering lease every path denies. -/
theorem gate_of_find_none {r : Readings} {m : LeaseManager} {name : String}
    (hf : m.findLeaseForAction r.find env.thread_id name = none) :
    style.gate env caps r m name = (.settled .noLease, m) := by
  simp [gate, hf]

/-- **The gate's answer.** With a lease found and definitions listed, the answer is the
lookup's verdict, turned into a denial when it is `allow` and no use can be consumed. -/
theorem gate_verdict {r : Readings} {m : LeaseManager} {name : String}
    {lease : CapabilityLease} {actions : List ActionDef}
    (hf : m.findLeaseForAction r.find env.thread_id name = some lease)
    (ha : style.listing env lease = .ok actions) :
    (style.gate env caps r m name).1.verdict =
      settle (style.lookupVerdict env caps r lease actions name)
        (style.consumable env r.consume m lease name) := by
  have hmem := (LeaseManager.findLeaseForAction_spec hf).1
  simp only [gate, hf, ha, lookupVerdict]
  cases style.decision? env caps r lease actions name with
  | none => exact takeUse_verdict hmem
  | some d =>
    cases d with
    | allow => exact takeUse_verdict hmem
    | deny reason => simp [Gate.verdict, PolicyDecision.verdict, settle]
    | requireApproval reason => simp [Gate.verdict, PolicyDecision.verdict, settle]

end LookupStyle

end T3Claw
