import T3Claw.Types.Capability

/-!
# The policy engine

`capability/policy.rs`. The engine walks its checks in a fixed order — lease validity,
lease coverage, denied effects, global rules, capability rules, the action's own approval
flag — and merges the rules that match into one decision, remembering the name of the
rule that decided.

Forgetting that name leaves a verdict in the three-element chain
`deny < requireApproval < allow`, where merging a rule is taking a minimum. `evaluate`
then computes an infimum: `verdict_evaluate` reads the decision as the strictest of the
matching rules once the lease and the effects let the action through. Everything proved
later about decisions goes through that equation.
-/

namespace T3Claw

/-! ### Verdicts -/

/-- What a decision amounts to, strictest first. -/
inductive Verdict where
  | deny
  | requireApproval
  | allow
  deriving DecidableEq, Repr

namespace Verdict

/-- The position of a verdict in the chain. -/
def rank : Verdict → ℕ
  | .deny => 0
  | .requireApproval => 1
  | .allow => 2

theorem rank_injective : Function.Injective rank := by
  intro a b h
  cases a <;> cases b <;> simp_all [rank]

instance : LinearOrder Verdict := LinearOrder.lift' rank rank_injective

instance : OrderTop Verdict where
  top := .allow
  le_top v := by cases v <;> decide

instance : OrderBot Verdict where
  bot := .deny
  bot_le v := by cases v <;> decide

theorem top_eq : (⊤ : Verdict) = .allow := rfl

theorem bot_eq : (⊥ : Verdict) = .deny := rfl

/-- The strictest of a list of verdicts, `allow` for none. -/
def strictest (vs : List Verdict) : Verdict := vs.foldr min ⊤

@[simp] theorem strictest_nil : strictest [] = ⊤ := rfl

@[simp] theorem strictest_cons (v : Verdict) (vs : List Verdict) :
    strictest (v :: vs) = min v (strictest vs) := rfl

/-- The strictest verdict is the greatest lower bound of the list. -/
theorem le_strictest_iff {v : Verdict} {vs : List Verdict} :
    v ≤ strictest vs ↔ ∀ w ∈ vs, v ≤ w := by
  induction vs with
  | nil => simp
  | cons w ws ih => simp [ih]

theorem strictest_append (vs ws : List Verdict) :
    strictest (vs ++ ws) = min (strictest vs) (strictest ws) := by
  induction vs with
  | nil => simp
  | cons v vs ih => simp [ih, min_assoc]

end Verdict

/-! ### Decisions and rules -/

inductive PolicyDecision where
  | allow
  | deny (reason : String)
  | requireApproval (reason : String)
  deriving DecidableEq, Repr

/-- A decision without its reason. -/
def PolicyDecision.verdict : PolicyDecision → Verdict
  | .allow => .allow
  | .deny _ => .deny
  | .requireApproval _ => .requireApproval

theorem PolicyDecision.verdict_eq_allow {d : PolicyDecision} :
    d.verdict = .allow ↔ d = .allow := by
  cases d <;> simp [verdict]

/-- The verdict a rule's effect asks for. -/
def PolicyEffect.verdict : PolicyEffect → Verdict
  | .allow => .allow
  | .deny => .deny
  | .requireApproval => .requireApproval

/-- `policy.rs::rule_matches`. -/
def ruleMatches (rule : PolicyRule) (action : ActionDef) : Bool :=
  match rule.condition with
  | .always => true
  | .actionMatches pattern => action.name == pattern
  | .effectTypeIs effect => action.effects.contains effect

/-- `policy.rs::merge_decision`. -/
def mergeDecision (current : PolicyDecision) (effect : PolicyEffect) (source : String) :
    PolicyDecision :=
  match effect with
  | .deny => .deny source
  | .requireApproval =>
    match current with
    | .deny _ => current
    | _ => .requireApproval source
  | .allow => current

/-- Merging a rule is taking the stricter verdict. -/
@[simp] theorem verdict_mergeDecision (d : PolicyDecision) (e : PolicyEffect) (s : String) :
    (mergeDecision d e s).verdict = min d.verdict e.verdict := by
  cases d <;> cases e <;> rfl

/-- The loop that merges every matching rule of a list into the decision. -/
def mergeRules (action : ActionDef) (rules : List PolicyRule) (decision : PolicyDecision) :
    PolicyDecision :=
  rules.foldl (fun d rule =>
    if ruleMatches rule action then mergeDecision d rule.effect rule.name else d) decision

/-- The verdicts of the rules of a list that match an action. -/
def matchedVerdicts (action : ActionDef) (rules : List PolicyRule) : List Verdict :=
  (rules.filter fun rule => ruleMatches rule action).map fun rule => rule.effect.verdict

@[simp] theorem matchedVerdicts_nil (action : ActionDef) : matchedVerdicts action [] = [] := rfl

theorem mem_matchedVerdicts {action : ActionDef} {rules : List PolicyRule} {v : Verdict} :
    v ∈ matchedVerdicts action rules ↔
      ∃ rule ∈ rules, ruleMatches rule action = true ∧ rule.effect.verdict = v := by
  simp [matchedVerdicts, and_assoc]

/-- Merging a list of rules takes the strictest of the matching ones. -/
theorem verdict_mergeRules (action : ActionDef) (rules : List PolicyRule)
    (d : PolicyDecision) : (mergeRules action rules d).verdict =
      min d.verdict (Verdict.strictest (matchedVerdicts action rules)) := by
  induction rules generalizing d with
  | nil => simp [mergeRules]
  | cons rule rules ih =>
    have hstep : mergeRules action (rule :: rules) d = mergeRules action rules
        (if ruleMatches rule action then mergeDecision d rule.effect rule.name else d) := rfl
    rw [hstep, ih]
    by_cases hm : ruleMatches rule action = true
    · simp [hm, matchedVerdicts, min_assoc]
    · simp [hm, matchedVerdicts]

/-! ### The engine -/

structure PolicyEngine where
  global_policies : List PolicyRule
  denied_effects : List EffectType

/-- `PolicyEngine::new`. -/
def PolicyEngine.new : PolicyEngine := ⟨[], []⟩

/-- `PolicyEngine::deny_effect`. -/
def PolicyEngine.denyEffect (engine : PolicyEngine) (effect : EffectType) : PolicyEngine :=
  { engine with denied_effects := engine.denied_effects ++ [effect] }

/-- `PolicyEngine::evaluate`, at the clock reading `now`. -/
def PolicyEngine.evaluate (engine : PolicyEngine) (now : Time) (action : ActionDef)
    (lease : CapabilityLease) (capability_policies : List PolicyRule) : PolicyDecision :=
  if !lease.isValid now then
    .deny ("lease for " ++ lease.capability_name ++ " is expired/revoked")
  else if !lease.coversAction action.name then
    .deny ("lease for " ++ lease.capability_name ++ " does not cover action " ++ action.name)
  else
    match action.effects.find? engine.denied_effects.contains with
    | some effect => .deny ("effect type " ++ effect.debug ++ " is denied by global policy")
    | none =>
      let decision := mergeRules action engine.global_policies .allow
      let decision := mergeRules action capability_policies decision
      if action.requires_approval then
        mergeDecision decision .requireApproval "action requires approval"
      else decision

/-- No effect of the action is on the engine's deny list. -/
def PolicyEngine.effectsPermitted (engine : PolicyEngine) (action : ActionDef) : Prop :=
  ∀ e ∈ action.effects, e ∉ engine.denied_effects

/-- The verdict of an action's own approval flag. -/
def ActionDef.flagVerdict (action : ActionDef) : Verdict :=
  if action.requires_approval then .requireApproval else .allow

/-- The verdict the matching rules and the approval flag give, lease and effects aside. -/
def PolicyEngine.rulesVerdict (engine : PolicyEngine) (action : ActionDef)
    (capability_policies : List PolicyRule) : Verdict :=
  Verdict.strictest
    (matchedVerdicts action engine.global_policies ++
      matchedVerdicts action capability_policies ++ [action.flagVerdict])

/-- **The decision as an infimum.** Once the lease is valid and covers the action and no
effect is denied, the decision is the strictest matching rule. -/
theorem PolicyEngine.verdict_evaluate {engine : PolicyEngine} {now : Time}
    {action : ActionDef} {lease : CapabilityLease} {caps : List PolicyRule}
    (hv : lease.isValid now = true) (hc : lease.coversAction action.name = true)
    (he : engine.effectsPermitted action) :
    (engine.evaluate now action lease caps).verdict = engine.rulesVerdict action caps := by
  have hfind : action.effects.find? engine.denied_effects.contains = none := by
    simpa [effectsPermitted] using he
  simp only [evaluate, hv, hc, hfind, Bool.not_true, Bool.false_eq_true, if_false]
  simp only [rulesVerdict, Verdict.strictest_append, ActionDef.flagVerdict,
    Verdict.strictest_cons, Verdict.strictest_nil, min_top_right]
  by_cases hr : action.requires_approval = true
  · rw [if_pos hr, if_pos hr, verdict_mergeDecision, verdict_mergeRules, verdict_mergeRules]
    simp [PolicyDecision.verdict, PolicyEffect.verdict, ← Verdict.top_eq]
  · rw [if_neg hr, if_neg hr, verdict_mergeRules, verdict_mergeRules]
    simp [PolicyDecision.verdict, ← Verdict.top_eq]

/-- Anything but a denial needs a valid lease that covers the action, and no denied
effect. -/
theorem PolicyEngine.of_evaluate_ne_deny {engine : PolicyEngine} {now : Time}
    {action : ActionDef} {lease : CapabilityLease} {caps : List PolicyRule}
    (h : (engine.evaluate now action lease caps).verdict ≠ .deny) :
    lease.isValid now = true ∧ lease.coversAction action.name = true ∧
      engine.effectsPermitted action := by
  unfold evaluate at h
  split at h
  · exact absurd rfl h
  split at h
  · exact absurd rfl h
  cases hf : action.effects.find? engine.denied_effects.contains with
  | some e =>
    rw [hf] at h
    exact absurd rfl h
  | none => exact ⟨by simp_all, by simp_all, by simpa [effectsPermitted] using hf⟩

end T3Claw
