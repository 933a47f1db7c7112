import T3Claw.Capability.Policy

/-!
# Which rules decide

`evaluate` as a greatest lower bound: for a valid lease that covers the action, a verdict is
permitted exactly when every denied effect, every matching rule of either list and the action's
own flag permit it (`le_verdict_evaluate`). What order the rules come in, how often they are
listed and in which of the two lists cannot be seen in it. `evaluate_with_provenance` only ever
merges approvals on top.
-/

namespace T3Claw

/-- `types/provenance.rs::Provenance`; the id is a `DocId`. -/
inductive Provenance where
  | user
  | system
  | toolOutput (action_name : String)
  | llmGenerated
  | memoryRetrieval (doc_id : ℕ)
  deriving DecidableEq, Repr

namespace Verdict

theorem eq_deny_iff {v : Verdict} : v = .deny ↔ ¬ .requireApproval ≤ v := by
  cases v <;> decide

theorem eq_requireApproval_iff {v : Verdict} :
    v = .requireApproval ↔ .requireApproval ≤ v ∧ ¬ .allow ≤ v := by
  cases v <;> decide

theorem eq_allow_iff {v : Verdict} : v = .allow ↔ .allow ≤ v := by
  cases v <;> decide

end Verdict

theorem PolicyDecision.verdict_eq_deny {d : PolicyDecision} :
    d.verdict = .deny ↔ ∃ reason, d = .deny reason := by
  cases d <;> simp [verdict]

theorem PolicyDecision.verdict_eq_requireApproval {d : PolicyDecision} :
    d.verdict = .requireApproval ↔ ∃ reason, d = .requireApproval reason := by
  cases d <;> simp [verdict]

namespace PolicyEngine

/-- `PolicyEngine::evaluate_with_provenance`. -/
def evaluateWithProvenance (engine : PolicyEngine) (now : Time) (action : ActionDef)
    (lease : CapabilityLease) (capability_policies : List PolicyRule) (provenance : Provenance) :
    PolicyDecision :=
  let decision := engine.evaluate now action lease capability_policies
  match provenance with
  | .llmGenerated =>
    let decision :=
      if action.effects.contains .financial then
        mergeDecision decision .requireApproval
          "LLM-generated data cannot trigger financial effects without approval"
      else decision
    if action.effects.contains .writeExternal then
      mergeDecision decision .requireApproval
        "LLM-generated data requires approval for external writes"
    else decision
  | .toolOutput _ =>
    if action.effects.contains .financial then
      mergeDecision decision .requireApproval
        "tool output data requires approval for financial effects"
    else decision
  -- user and system data are trusted, and so is what memory returns
  | .user | .system => decision
  | .memoryRetrieval _ => decision

/-- Merging an approval where a condition holds gives nothing more permissive. -/
theorem verdict_ite_merge_le (decision : PolicyDecision) (condition : Bool) (source : String) :
    (if condition then mergeDecision decision .requireApproval source else decision).verdict ≤
      decision.verdict := by
  split
  · rw [verdict_mergeDecision]
    exact min_le_left _ _
  · exact le_rfl

/-- Provenance never makes a decision more permissive. -/
theorem verdict_evaluateWithProvenance_le (engine : PolicyEngine) (now : Time)
    (action : ActionDef) (lease : CapabilityLease) (caps : List PolicyRule)
    (provenance : Provenance) :
    (engine.evaluateWithProvenance now action lease caps provenance).verdict ≤
      (engine.evaluate now action lease caps).verdict := by
  cases provenance with
  | llmGenerated =>
    exact (verdict_ite_merge_le _ _ _).trans (verdict_ite_merge_le _ _ _)
  | toolOutput action_name => exact verdict_ite_merge_le _ _ _
  | _ => exact le_rfl

variable {engine : PolicyEngine} {now : Time} {action : ActionDef} {lease : CapabilityLease}
  {caps : List PolicyRule}

/-- A denied effect denies the action. -/
theorem verdict_evaluate_of_denied (h : ¬ engine.effectsPermitted action) :
    (engine.evaluate now action lease caps).verdict = .deny := by
  by_contra hne
  exact h (of_evaluate_ne_deny hne).2.2

/-- The verdicts under the decision are those that the effects, the rules and the flag allow. -/
theorem le_verdict_evaluate (hvalid : lease.isValid now = true)
    (hcovers : lease.coversAction action.name = true) {v : Verdict} :
    v ≤ (engine.evaluate now action lease caps).verdict ↔
      (engine.effectsPermitted action ∨ v = .deny) ∧
        (∀ rule ∈ engine.global_policies ++ caps, ruleMatches rule action = true →
          v ≤ rule.effect.verdict) ∧
        v ≤ action.flagVerdict := by
  by_cases heffects : engine.effectsPermitted action
  · rw [verdict_evaluate hvalid hcovers heffects, rulesVerdict, Verdict.le_strictest_iff]
    simp only [List.mem_append, mem_matchedVerdicts, List.mem_singleton, heffects, true_or,
      true_and]
    constructor
    · intro h
      refine ⟨fun rule hrule hmatch => h _ (.inl ?_), h _ (.inr rfl)⟩
      exact hrule.imp (fun hmem => ⟨rule, hmem, hmatch, rfl⟩) fun hmem => ⟨rule, hmem, hmatch, rfl⟩
    · rintro ⟨hrules, hflag⟩ w ((⟨rule, hmem, hmatch, rfl⟩ | ⟨rule, hmem, hmatch, rfl⟩) | rfl)
      · exact hrules rule (.inl hmem) hmatch
      · exact hrules rule (.inr hmem) hmatch
      · exact hflag
  · rw [verdict_evaluate_of_denied heffects, ← Verdict.bot_eq, le_bot_iff]
    simp only [heffects, false_or]
    refine ⟨?_, fun h => h.1⟩
    rintro rfl
    exact ⟨rfl, fun rule _ _ => bot_le, bot_le⟩

/-- Fewer denied effects and rules never make a decision stricter. -/
theorem verdict_evaluate_anti {engine' : PolicyEngine} {caps' : List PolicyRule}
    (hvalid : lease.isValid now = true) (hcovers : lease.coversAction action.name = true)
    (heffects : engine.denied_effects ⊆ engine'.denied_effects)
    (hrules : engine.global_policies ++ caps ⊆ engine'.global_policies ++ caps') :
    (engine'.evaluate now action lease caps').verdict ≤
      (engine.evaluate now action lease caps).verdict := by
  obtain ⟨heffects', hrules', hflag⟩ := (le_verdict_evaluate hvalid hcovers).mp
    (le_refl (engine'.evaluate now action lease caps').verdict)
  refine (le_verdict_evaluate hvalid hcovers).mpr ⟨heffects'.imp_left fun h e he hdenied => ?_,
    fun rule hrule => hrules' rule (hrules hrule), hflag⟩
  exact h e he (heffects hdenied)

/-- Something forbids the action: an effect, or a rule. -/
def Forbidden (engine : PolicyEngine) (action : ActionDef) (caps : List PolicyRule) : Prop :=
  (∃ effect ∈ action.effects, effect ∈ engine.denied_effects) ∨
    ∃ rule ∈ engine.global_policies ++ caps, ruleMatches rule action = true ∧ rule.effect = .deny

/-- Something asks for approval: a rule, or the action itself. -/
def AsksApproval (engine : PolicyEngine) (action : ActionDef) (caps : List PolicyRule) : Prop :=
  (∃ rule ∈ engine.global_policies ++ caps,
      ruleMatches rule action = true ∧ rule.effect = .requireApproval) ∨
    action.requires_approval = true

theorem requireApproval_le_verdict (hvalid : lease.isValid now = true)
    (hcovers : lease.coversAction action.name = true) :
    .requireApproval ≤ (engine.evaluate now action lease caps).verdict ↔
      ¬ engine.Forbidden action caps := by
  have heffect : ∀ e : PolicyEffect, .requireApproval ≤ e.verdict ↔ ¬ e = .deny := fun e => by
    cases e <;> decide
  have hflag : .requireApproval ≤ action.flagVerdict := by
    rw [ActionDef.flagVerdict]
    split <;> decide
  simp only [le_verdict_evaluate hvalid hcovers, heffect, hflag, and_true, reduceCtorEq, or_false,
    Forbidden, not_or, not_exists, not_and, effectsPermitted]

theorem allow_le_verdict (hvalid : lease.isValid now = true)
    (hcovers : lease.coversAction action.name = true) :
    .allow ≤ (engine.evaluate now action lease caps).verdict ↔
      ¬ engine.Forbidden action caps ∧ ¬ engine.AsksApproval action caps := by
  have heffect : ∀ e : PolicyEffect,
      .allow ≤ e.verdict ↔ ¬ e = .deny ∧ ¬ e = .requireApproval := fun e => by
    cases e <;> decide
  have hflag : .allow ≤ action.flagVerdict ↔ ¬ action.requires_approval = true := by
    rw [ActionDef.flagVerdict]
    split <;> simp_all [← Verdict.top_eq]
  simp only [le_verdict_evaluate hvalid hcovers, heffect, hflag, reduceCtorEq, or_false,
    Forbidden, AsksApproval, not_or, not_exists, not_and, effectsPermitted]
  grind

/-- **The decision is a join.** For a valid lease that covers the action: it is a denial when
something forbids the action, asks for approval when nothing does and something asks for it, and
allows it otherwise; what the two lists hold together is all that matters, more rules and more
denied effects are never more permissive, and neither is provenance. -/
theorem evaluate_join (engine : PolicyEngine) {now : Time} {action : ActionDef}
    {lease : CapabilityLease} (caps : List PolicyRule) (hvalid : lease.isValid now = true)
    (hcovers : lease.coversAction action.name = true) :
    ((∃ reason, engine.evaluate now action lease caps = .deny reason) ↔
      engine.Forbidden action caps) ∧
    ((∃ reason, engine.evaluate now action lease caps = .requireApproval reason) ↔
      ¬ engine.Forbidden action caps ∧ engine.AsksApproval action caps) ∧
    (engine.evaluate now action lease caps = .allow ↔
      ¬ engine.Forbidden action caps ∧ ¬ engine.AsksApproval action caps) ∧
    (∀ (engine' : PolicyEngine) (caps' : List PolicyRule),
      (∀ effect, effect ∈ engine'.denied_effects ↔ effect ∈ engine.denied_effects) →
      (∀ rule, rule ∈ engine'.global_policies ++ caps' ↔ rule ∈ engine.global_policies ++ caps) →
      (engine'.evaluate now action lease caps').verdict =
        (engine.evaluate now action lease caps).verdict) ∧
    (∀ (engine' : PolicyEngine) (caps' : List PolicyRule),
      engine.denied_effects ⊆ engine'.denied_effects →
      engine.global_policies ++ caps ⊆ engine'.global_policies ++ caps' →
      (engine'.evaluate now action lease caps').verdict ≤
        (engine.evaluate now action lease caps).verdict) ∧
    ∀ provenance, (engine.evaluateWithProvenance now action lease caps provenance).verdict ≤
      (engine.evaluate now action lease caps).verdict := by
  refine ⟨?_, ?_, ?_, fun engine' caps' heffects hrules => ?_,
    fun engine' caps' => verdict_evaluate_anti hvalid hcovers,
    verdict_evaluateWithProvenance_le engine now action lease caps⟩
  · rw [← PolicyDecision.verdict_eq_deny, Verdict.eq_deny_iff,
      requireApproval_le_verdict hvalid hcovers, not_not]
  · rw [← PolicyDecision.verdict_eq_requireApproval, Verdict.eq_requireApproval_iff,
      requireApproval_le_verdict hvalid hcovers, allow_le_verdict hvalid hcovers]
    refine and_congr_right fun hnot => ?_
    rw [not_and, not_not]
    exact ⟨fun h => h hnot, fun h _ => h⟩
  · rw [← PolicyDecision.verdict_eq_allow, Verdict.eq_allow_iff, allow_le_verdict hvalid hcovers]
  · refine le_antisymm (verdict_evaluate_anti hvalid hcovers (fun _ => (heffects _).mpr)
      fun _ => (hrules _).mpr) ?_
    exact verdict_evaluate_anti hvalid hcovers (fun _ => (heffects _).mp) fun _ => (hrules _).mp

theorem evaluate_join_deploy :
    ∃ reason, (PolicyEngine.mk [⟨"approve writes", .effectTypeIs .writeExternal,
      .requireApproval⟩] [.financial]).evaluate 0 ⟨"deploy", [.writeExternal], false⟩
      ⟨⟨1⟩, ⟨2⟩, "tools", .specific ["deploy"], 0, none, none, none, false, none⟩
      [] = .requireApproval reason := by
  refine (evaluate_join _ [] (by decide) (by decide +kernel)).2.1.mpr ⟨?_, .inl ?_⟩
  · rintro (⟨effect, heffect, hdenied⟩ | ⟨rule, hrule, -, hdeny⟩)
    · obtain rfl := List.mem_singleton.mp heffect
      exact absurd hdenied (by decide)
    · obtain rfl := List.mem_singleton.mp hrule
      cases hdeny
  · exact ⟨_, List.mem_cons_self, by decide, rfl⟩

end PolicyEngine

end T3Claw
