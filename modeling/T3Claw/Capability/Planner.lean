import T3Claw.Data.KeyedStore
import T3Claw.Types.Capability

/-!
# Tool tiers and lease planning

`gate/tool_tier.rs`, `capability/registry.rs` and `capability/planner.rs`: an action is
classified into a privilege tier, and the planner grants a thread of a given type the
actions whose tier its type admits. The classification reads the name first, so a
denylisted action stays administrative whatever it declares.
-/

namespace T3Claw

/-- `gate/tool_tier.rs::AUTONOMOUS_TOOL_DENYLIST`. -/
def AUTONOMOUS_TOOL_DENYLIST : List String :=
  ["routine_create", "routine_update", "routine_delete", "routine_fire", "event_emit",
    "create_job", "job_prompt", "restart", "tool_install", "tool_auth", "tool_activate",
    "tool_remove", "tool_upgrade", "skill_install", "skill_remove", "secret_list",
    "secret_delete"]

/-- `gate/tool_tier.rs::is_autonomous_denylisted`. -/
def isAutonomousDenylisted (action_name : String) : Bool :=
  AUTONOMOUS_TOOL_DENYLIST.contains action_name

/-- Privilege tiers, least privileged first. -/
inductive ToolTier where
  | readOnly
  | stateful
  | privileged
  | administrative
  deriving DecidableEq, Repr

namespace ToolTier

/-- The position of a tier in the order. -/
def rank : ToolTier → ℕ
  | .readOnly => 0
  | .stateful => 1
  | .privileged => 2
  | .administrative => 3

theorem rank_injective : Function.Injective rank := by
  intro a b h
  cases a <;> cases b <;> simp_all [rank]

instance : LinearOrder ToolTier := LinearOrder.lift' rank rank_injective

end ToolTier

/-- `gate/tool_tier.rs::classify_tool_tier`. -/
def classifyToolTier (action : ActionDef) : ToolTier :=
  if isAutonomousDenylisted action.name then .administrative
  else if action.requires_approval then .privileged
  else if !action.effects.isEmpty &&
      action.effects.all fun e => e == .readLocal || e == .compute then .readOnly
  else .stateful

inductive ThreadType where
  | foreground
  | research
  | mission
  deriving DecidableEq, Repr

/-- `capability/registry.rs::CapabilityRegistry`. -/
abbrev CapabilityRegistry := KeyedStore String Capability Capability.name

/-- `CapabilityRegistry::register`. -/
def CapabilityRegistry.register (r : CapabilityRegistry) (capability : Capability) :
    CapabilityRegistry :=
  r.insert capability

/-- A registry of one capability. -/
theorem CapabilityRegistry.register_empty (capability : Capability) :
    (CapabilityRegistry.register KeyedStore.empty capability).values = [capability] := rfl

/-- `planner.rs::CapabilityGrantPlan`. -/
structure CapabilityGrantPlan where
  capability_name : String
  granted_actions : GrantedActions
  deriving DecidableEq, Repr

/-- `LeasePlanner::tier_allowed`. -/
def tierAllowed (thread_type : ThreadType) (action_name : String) (tier : ToolTier) : Bool :=
  match thread_type with
  | .foreground => true
  | .research => decide (tier ≤ .stateful)
  | .mission =>
    match tier with
    | .readOnly | .stateful => true
    | .privileged => !isAutonomousDenylisted action_name
    | .administrative => false

/-- The names of the actions of a capability that a thread type admits. -/
def admittedActions (thread_type : ThreadType) (actions : List ActionDef) : List String :=
  (actions.filter fun action =>
    tierAllowed thread_type action.name (classifyToolTier action)).map ActionDef.name

/-- `LeasePlanner::plan_for_thread`. -/
def planForThread (thread_type : ThreadType) (capabilities : CapabilityRegistry) :
    List CapabilityGrantPlan :=
  capabilities.values.filterMap fun cap =>
    let granted_actions := admittedActions thread_type cap.actions
    if granted_actions.isEmpty then none
    else some ⟨cap.name, .specific granted_actions⟩

end T3Claw
