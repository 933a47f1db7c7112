import T3Claw.Runtime.LeaseRefresh

/-!
# Recursive sub-agents: delegation through `rlm_query`

`scripting.rs::handle_rlm_query` up to the start of the child loop, and the lease refreshes
the child's loop makes. The child gets its own lease manager, into which every active lease
of the parent is granted again, and its own policy engine, which copies the denied effects.

Delegation should never amplify authority (`NoAmplification`). The code re-grants a lease
with the parent's *maximum* number of uses, measures the remaining time before the grant
reads the clock, leaves the global rules behind and lets the child refresh its `tools`
lease without looking at the parent. `noAmplification_iff` says which inputs get through
all four unharmed.
-/

namespace T3Claw

/-- What `handle_rlm_query` reads of the parent thread. -/
structure RlmParent where
  thread_id : ThreadId
  depth : ℕ
  max_depth : ℕ
  max_iterations : ℕ
  max_tokens_total : Option ℕ
  total_tokens_used : ℕ

/-- The child thread as its loop starts. -/
structure RlmChild where
  thread_id : ThreadId
  thread_type : ThreadType
  depth : ℕ
  max_depth : ℕ
  max_iterations : ℕ
  max_tokens_total : Option ℕ
  leases : ThreadLeases
  policy : PolicyEngine

/-- The clock readings and fresh ids of one delegation, the child's refreshes included. -/
structure Delegation where
  child_id : ThreadId
  /-- When `active_for_thread` looks at the parent's leases. -/
  lookup_at : Time
  /-- The reading remaining durations are measured from. -/
  now : Time
  grant_id : ℕ → LeaseId
  grant_at : ℕ → Time
  refreshes : List Refresh
  grant_id_injective : Function.Injective grant_id
  refresh_id_nodup : (refreshes.map Refresh.lease_id).Nodup
  refresh_id_fresh : ∀ q ∈ refreshes, ∀ i, grant_id i ≠ q.lease_id

/-- The time a lease has left at `now`; an expiry already past converts to no duration. -/
def remainingDuration (now : Time) (parent_lease : CapabilityLease) : Option ℤ :=
  parent_lease.expires_at.bind fun exp => if exp - now < 0 then none else some (exp - now)

/-- The loop that grants the parent's leases again, from the `i`-th on. -/
def inheritLeases (d : Delegation) : ℕ → List CapabilityLease → ThreadLeases → ThreadLeases
  | _, [], s => s
  | i, parent_lease :: rest, s =>
    match s.leases.grant (d.grant_id i) (d.grant_at i) d.child_id parent_lease.capability_name
        parent_lease.granted_actions (remainingDuration d.now parent_lease)
        parent_lease.max_uses with
    | .ok (lease, leases) => inheritLeases d (i + 1) rest
        { s with leases, capability_leases := s.capability_leases ++ [lease.id] }
    -- an invalid lease is skipped
    | .error _ => inheritLeases d (i + 1) rest s

/-- The child's policy engine: the parent's denied effects and nothing else. -/
def childPolicy (policy : PolicyEngine) : PolicyEngine :=
  policy.denied_effects.foldl PolicyEngine.denyEffect PolicyEngine.new

/-- `scripting.rs::handle_rlm_query` up to the start of the child's loop. -/
def handleRlmQuery (parent : RlmParent) (leases : LeaseManager) (policy : PolicyEngine)
    (d : Delegation) (prompt : Option String) : Except String RlmChild :=
  match prompt with
  | none => .error "rlm_query() requires a 'prompt' argument"
  | some _ =>
    if parent.max_depth ≤ parent.depth then
      .error ("rlm_query() depth limit reached: depth " ++ toString parent.depth ++ " >= max "
        ++ toString parent.max_depth)
    else
      .ok
        { thread_id := d.child_id
          thread_type := .research
          depth := parent.depth + 1
          max_depth := parent.max_depth
          max_iterations := min parent.max_iterations 20
          max_tokens_total := parent.max_tokens_total.map fun max =>
            max - parent.total_tokens_used
          leases := inheritLeases d 0 (leases.activeForThread d.lookup_at parent.thread_id)
            ⟨LeaseManager.new, [], []⟩
          policy := childPolicy policy }

/-- The child's leases after the refreshes its loop makes; the loop has no store. -/
def RlmChild.refreshed (child : RlmChild) (d : Delegation) : ThreadLeases :=
  refreshAll child.thread_id child.thread_type false d.refreshes child.leases

/-! ### What the child is granted -/

/-- The manager grants the parent's lease again: it does not expire at `now` and is not
limited to no use at all. -/
def PassedOn (now : Time) (parent_lease : CapabilityLease) : Prop :=
  parent_lease.expires_at ≠ some now ∧ parent_lease.max_uses ≠ some 0

instance (now : Time) (p : CapabilityLease) : Decidable (PassedOn now p) :=
  inferInstanceAs (Decidable (_ ∧ _))

/-- The expiry of the child's copy, granted at `t`. -/
def childExpiry (now t : Time) (parent_lease : CapabilityLease) : Option Time :=
  (remainingDuration now parent_lease).map fun d => t + d

/-- The child's copy of a lease. -/
def childLease (d : Delegation) (i : ℕ) (parent_lease : CapabilityLease) : CapabilityLease where
  id := d.grant_id i
  thread_id := d.child_id
  capability_name := parent_lease.capability_name
  granted_actions := parent_lease.granted_actions
  granted_at := d.grant_at i
  expires_at := childExpiry d.now (d.grant_at i) parent_lease
  max_uses := parent_lease.max_uses
  uses_remaining := parent_lease.max_uses
  revoked := false
  revoked_reason := none

theorem remainingDuration_eq_some_iff {now : Time} {p : CapabilityLease} {r : ℤ} :
    remainingDuration now p = some r ↔ ∃ e, p.expires_at = some e ∧ now ≤ e ∧ r = e - now := by
  rw [remainingDuration]
  rcases p.expires_at with _ | e
  · simp
  · by_cases h : e - now < 0
    · simp only [Option.bind_some, h, if_true, reduceCtorEq, Option.some.injEq, false_iff]
      rintro ⟨e', rfl, hle, -⟩
      linarith
    · simp only [Option.bind_some, h, if_false, Option.some.injEq]
      constructor
      · rintro rfl
        exact ⟨e, rfl, by linarith, rfl⟩
      · rintro ⟨e', rfl, -, rfl⟩
        rfl

/-- Granting a lease again succeeds exactly when it is passed on. -/
theorem grant_again {d : Delegation} {i : ℕ} {m : LeaseManager} {p : CapabilityLease} :
    (PassedOn d.now p → m.grant (d.grant_id i) (d.grant_at i) d.child_id p.capability_name
        p.granted_actions (remainingDuration d.now p) p.max_uses =
          .ok (childLease d i p, ⟨m.active.insert (childLease d i p)⟩)) ∧
      (¬PassedOn d.now p → ∃ e, m.grant (d.grant_id i) (d.grant_at i) d.child_id
        p.capability_name p.granted_actions (remainingDuration d.now p) p.max_uses = .error e) := by
  have hdur : (remainingDuration d.now p).any (fun r => decide (r ≤ 0)) = true ↔
      p.expires_at = some d.now := by
    rw [Option.any_eq_true]
    constructor
    · rintro ⟨r, hr, hle⟩
      obtain ⟨e, he, hnow, rfl⟩ := remainingDuration_eq_some_iff.mp hr
      rw [he, le_antisymm (by linarith [of_decide_eq_true hle]) hnow]
    · intro he
      exact ⟨0, remainingDuration_eq_some_iff.mpr ⟨d.now, he, le_rfl, (sub_self _).symm⟩, by simp⟩
  constructor
  · rintro ⟨hexp, huses⟩
    rw [LeaseManager.grant, if_neg (fun h => hexp (hdur.mp h)), if_neg huses]
    rfl
  · intro hn
    rw [LeaseManager.grant]
    by_cases hexp : p.expires_at = some d.now
    · exact ⟨_, by rw [if_pos (hdur.mpr hexp)]⟩
    · have huses : p.max_uses = some 0 := by
        by_contra h
        exact hn ⟨hexp, h⟩
      exact ⟨_, by rw [if_neg (fun h => hexp (hdur.mp h)), if_pos huses]⟩

/-- A fresh copy is valid when it is granted. -/
theorem childLease_isValid {d : Delegation} {i : ℕ} {p : CapabilityLease}
    (h : PassedOn d.now p) : (childLease d i p).isValid (d.grant_at i) = true := by
  refine CapabilityLease.isValid_iff.mpr ⟨rfl, fun e he => ?_, h.2⟩
  obtain ⟨r, hr, rfl⟩ := Option.map_eq_some_iff.mp he
  obtain ⟨e, hexp, hle, rfl⟩ := remainingDuration_eq_some_iff.mp hr
  have hlt : d.now < e := lt_of_le_of_ne hle fun heq => h.1 (heq ▸ hexp)
  linarith

/-- **What the child is granted**: a copy of every lease that is passed on. -/
theorem mem_inheritLeases {d : Delegation} {i : ℕ} {ps : List CapabilityLease}
    {s : ThreadLeases} (hs : ∀ l ∈ s.leases.active, ∀ j, i ≤ j → l.id ≠ d.grant_id j)
    {c : CapabilityLease} :
    c ∈ (inheritLeases d i ps s).leases.active ↔ c ∈ s.leases.active ∨
      ∃ j p, ps[j]? = some p ∧ PassedOn d.now p ∧ childLease d (i + j) p = c := by
  induction ps generalizing i s with
  | nil => simp [inheritLeases]
  | cons p ps ih =>
    -- the child of the lease at the head, or of one behind it
    have hlater : (∃ j q, (p :: ps)[j]? = some q ∧ PassedOn d.now q ∧ childLease d (i + j) q = c) ↔
        (PassedOn d.now p ∧ childLease d i p = c) ∨
          ∃ j q, ps[j]? = some q ∧ PassedOn d.now q ∧ childLease d (i + 1 + j) q = c := by
      constructor
      · rintro ⟨j, q, hj, hq⟩
        rcases j with _ | j
        · obtain rfl : p = q := by simpa using hj
          exact .inl hq
        · exact .inr ⟨j, q, by simpa using hj, by rwa [show i + 1 + j = i + (j + 1) by omega]⟩
      · rintro (hq | ⟨j, q, hj, hq⟩)
        · exact ⟨0, p, rfl, hq⟩
        · exact ⟨j + 1, q, by simpa using hj, by rwa [show i + (j + 1) = i + 1 + j by omega]⟩
    rw [hlater]
    by_cases hp : PassedOn d.now p
    · rw [inheritLeases, grant_again.1 hp]
      dsimp only
      rw [ih]
      · have hmem : c ∈ s.leases.active.insert (childLease d i p) ↔
            c ∈ s.leases.active ∨ childLease d i p = c := by
          rw [KeyedStore.mem_insert]
          constructor
          · rintro (rfl | ⟨hc, -⟩)
            · exact .inr rfl
            · exact .inl hc
          · rintro (hc | rfl)
            · exact .inr ⟨hc, hs c hc i le_rfl⟩
            · exact .inl rfl
        simp only [hmem, hp, true_and, or_assoc]
      · intro l hl j hj
        rcases KeyedStore.mem_insert.mp hl with rfl | ⟨hl, -⟩
        · exact fun heq => by have := d.grant_id_injective heq; omega
        · exact hs l hl j (by omega)
    · obtain ⟨e, he⟩ := grant_again.2 hp
      rw [inheritLeases, he]
      dsimp only
      rw [ih fun l hl j hj => hs l hl j (by omega)]
      simp [hp]

/-! ### The child's policy -/

theorem childPolicy_eq (policy : PolicyEngine) : childPolicy policy =
    ⟨[], policy.denied_effects⟩ := by
  have hfold : ∀ (es : List EffectType) (engine : PolicyEngine),
      es.foldl PolicyEngine.denyEffect engine =
        ⟨engine.global_policies, engine.denied_effects ++ es⟩ := by
    intro es
    induction es with
    | nil => simp
    | cons e es ih => simp [ih, PolicyEngine.denyEffect]
  simp [childPolicy, hfold, PolicyEngine.new]

theorem childPolicy_effectsPermitted {policy : PolicyEngine} {action : ActionDef} :
    (childPolicy policy).effectsPermitted action ↔ policy.effectsPermitted action := by
  rw [childPolicy_eq]
  exact Iff.rfl

/-- The strictest of the global rules that match an action. -/
def PolicyEngine.globalVerdict (policy : PolicyEngine) (action : ActionDef) : Verdict :=
  Verdict.strictest (matchedVerdicts action policy.global_policies)

/-- Without the global rules the verdict is at least as permissive as with them. -/
theorem rulesVerdict_childPolicy (policy : PolicyEngine) (action : ActionDef)
    (caps : List PolicyRule) : policy.rulesVerdict action caps =
      min (policy.globalVerdict action) ((childPolicy policy).rulesVerdict action caps) := by
  simp only [PolicyEngine.rulesVerdict, PolicyEngine.globalVerdict, Verdict.strictest_append,
    childPolicy_eq, matchedVerdicts_nil, Verdict.strictest_nil, min_top_left, min_assoc]

/-! ### Amplification -/

/-- A limit that is no wider than another; `none` is no limit. -/
def noWiderThan {α : Type} [LE α] : Option α → Option α → Prop
  | _, none => True
  | none, some _ => False
  | some a, some b => a ≤ b

/-- `p` is the parent's lease behind the lease `id` for `name`: the one whose copy that is, or,
where a refresh has created it, any for the same capability. -/
def SourceOf (parent_leases : List CapabilityLease) (d : Delegation) (id : LeaseId) (name : String)
    (p : CapabilityLease) : Prop :=
  p ∈ parent_leases ∧ p.capability_name = name ∧
    ∀ i, d.grant_id i = id → parent_leases[i]? = some p

/-- The child can do nothing its parent could not: whatever its leases and its policy let
through, some lease of the parent covers and the parent's policy lets through as well, and
no lease of the child is wider than the lease of the parent it comes from. -/
structure NoAmplification (policy : PolicyEngine) (parent_leases : List CapabilityLease)
    (d : Delegation) (child : RlmChild) : Prop where
  authority : ∀ action t caps, ∀ c ∈ (child.refreshed d).leases.active,
    c.thread_id = child.thread_id →
    (child.policy.evaluate t action c caps).verdict ≠ .deny →
      ∃ p ∈ parent_leases, p.coversAction action.name = true ∧
        (child.policy.evaluate t action c caps).verdict ≤
          (policy.evaluate d.lookup_at action p caps).verdict
  limits : ∀ c ∈ (child.refreshed d).leases.active, ∃ p,
    SourceOf parent_leases d c.id c.capability_name p ∧
      noWiderThan c.uses_remaining p.uses_remaining ∧ noWiderThan c.expires_at p.expires_at

/-- The global rules are no stricter with an action than its own approval flag, or one of
its effects is denied anyway. -/
def WithinGlobalRules (policy : PolicyEngine) (action : ActionDef) : Prop :=
  policy.effectsPermitted action → action.flagVerdict ≤ policy.globalVerdict action

/-- The inputs on which delegation amplifies nothing. -/
structure DelegationWithin (policy : PolicyEngine) (parent_leases : List CapabilityLease)
    (d : Delegation) (child : RlmChild) : Prop where
  /-- No global rule is stricter than the approval flag of an action that is passed on. -/
  rules : ∀ action, (∃ p ∈ parent_leases, PassedOn d.now p ∧ p.coversAction action.name = true) →
    WithinGlobalRules policy action
  /-- A lease that is passed on was granted for no more uses than it has left, and its copy
  does not outlive it. -/
  limits : ∀ i p, parent_leases[i]? = some p → PassedOn d.now p →
    noWiderThan p.max_uses p.uses_remaining ∧
      noWiderThan (childExpiry d.now (d.grant_at i) p) p.expires_at
  /-- A refresh admits only what the parent covers and its global rules leave alone. -/
  refreshes_cover : ∀ action : ActionDef, policy.effectsPermitted action →
    RefreshAlong child.thread_id child.thread_type false
      (fun q m => q.Admits child.thread_id child.thread_type m action.name) d.refreshes
      child.leases →
    (∃ p ∈ parent_leases, p.coversAction action.name = true) ∧ WithinGlobalRules policy action
  /-- A refresh creates a `tools` lease only if the parent holds an unlimited one. -/
  refreshes_create : RefreshAlong child.thread_id child.thread_type false
      (fun q m => q.Creates child.thread_id child.thread_type m) d.refreshes child.leases →
    ∃ p ∈ parent_leases, p.capability_name = "tools" ∧ p.uses_remaining = none ∧
      p.expires_at = none

/-- The child of a delegation whose prompt and depth are in order. -/
theorem handleRlmQuery_eq_ok {parent : RlmParent} {leases : LeaseManager}
    {policy : PolicyEngine} {d : Delegation} {prompt : Option String} {child : RlmChild}
    (h : handleRlmQuery parent leases policy d prompt = .ok child) :
    child.thread_id = d.child_id ∧ child.policy = childPolicy policy ∧
      child.leases = inheritLeases d 0 (leases.activeForThread d.lookup_at parent.thread_id)
        ⟨LeaseManager.new, [], []⟩ := by
  rcases prompt with _ | prompt
  · simp [handleRlmQuery] at h
  · simp only [handleRlmQuery] at h
    split_ifs at h
    obtain rfl := Except.ok.inj h
    exact ⟨rfl, rfl, rfl⟩

section

variable {parent : RlmParent} {leases : LeaseManager} {policy : PolicyEngine} {d : Delegation}
  {prompt : Option String} {child : RlmChild}

/-- The leases the child starts with. -/
private theorem mem_child_leases (h : handleRlmQuery parent leases policy d prompt = .ok child)
    {c : CapabilityLease} : c ∈ child.leases.leases.active ↔
      ∃ i p, (leases.activeForThread d.lookup_at parent.thread_id)[i]? = some p ∧
        PassedOn d.now p ∧ childLease d i p = c := by
  rw [(handleRlmQuery_eq_ok h).2.2, mem_inheritLeases]
  · simp [LeaseManager.new, KeyedStore.mem_def, KeyedStore.empty]
  · intro l hl
    simp [LeaseManager.new, KeyedStore.mem_def, KeyedStore.empty] at hl

private theorem freshRefreshes (h : handleRlmQuery parent leases policy d prompt = .ok child) :
    FreshRefreshes d.refreshes child.leases.leases := by
  refine ⟨d.refresh_id_nodup, fun q hq l hl => ?_⟩
  obtain ⟨i, p, -, -, rfl⟩ := (mem_child_leases h).mp hl
  exact d.refresh_id_fresh q hq i

/-- What the child covers before any refresh: what is passed on. -/
private theorem holds_child_iff (h : handleRlmQuery parent leases policy d prompt = .ok child)
    (name : String) : child.leases.leases.Holds child.thread_id name ↔
      ∃ p ∈ leases.activeForThread d.lookup_at parent.thread_id,
        PassedOn d.now p ∧ p.coversAction name = true := by
  constructor
  · rintro ⟨c, hc, -, -, hcov⟩
    obtain ⟨i, p, hp, hpass, rfl⟩ := (mem_child_leases h).mp hc
    exact ⟨p, List.mem_of_getElem? hp, hpass, hcov⟩
  · rintro ⟨p, hp, hpass, hcov⟩
    obtain ⟨i, hi⟩ := List.getElem?_of_mem hp
    exact ⟨_, (mem_child_leases h).mpr ⟨i, p, hi, hpass, rfl⟩, (handleRlmQuery_eq_ok h).1.symm,
      ⟨_, childLease_isValid hpass⟩, hcov⟩

/-- The parent's verdict on an action one of its active leases covers. -/
private theorem parent_verdict {p : CapabilityLease} {action : ActionDef}
    {caps : List PolicyRule}
    (hp : p ∈ leases.activeForThread d.lookup_at parent.thread_id)
    (hcov : p.coversAction action.name = true) (he : policy.effectsPermitted action) :
    (policy.evaluate d.lookup_at action p caps).verdict = policy.rulesVerdict action caps := by
  rw [LeaseManager.activeForThread, List.mem_filter, Bool.and_eq_true] at hp
  exact PolicyEngine.verdict_evaluate hp.2.2 hcov he

/-- **When authority is not amplified.** -/
private theorem authority_iff (h : handleRlmQuery parent leases policy d prompt = .ok child) :
    (∀ action t caps, ∀ c ∈ (child.refreshed d).leases.active, c.thread_id = child.thread_id →
      (child.policy.evaluate t action c caps).verdict ≠ .deny →
        ∃ p ∈ leases.activeForThread d.lookup_at parent.thread_id,
          p.coversAction action.name = true ∧
          (child.policy.evaluate t action c caps).verdict ≤
            (policy.evaluate d.lookup_at action p caps).verdict) ↔
      ∀ action : ActionDef, policy.effectsPermitted action →
        (child.refreshed d).leases.Holds child.thread_id action.name →
        (∃ p ∈ leases.activeForThread d.lookup_at parent.thread_id,
          p.coversAction action.name = true) ∧
          action.flagVerdict ≤ policy.globalVerdict action := by
  obtain ⟨-, hpol, -⟩ := handleRlmQuery_eq_ok h
  have hflag : ∀ action : ActionDef, (childPolicy policy).rulesVerdict action [] =
      action.flagVerdict := by
    intro action
    simp [PolicyEngine.rulesVerdict, childPolicy_eq]
  constructor
  · rintro hauth action he ⟨c, hc, htid, ⟨t, hv⟩, hcov⟩
    have hverdict : (child.policy.evaluate t action c []).verdict = action.flagVerdict := by
      rw [hpol, PolicyEngine.verdict_evaluate hv hcov (childPolicy_effectsPermitted.mpr he), hflag]
    have hne : (child.policy.evaluate t action c []).verdict ≠ .deny := by
      rw [hverdict, ActionDef.flagVerdict]
      split_ifs <;> simp
    obtain ⟨p, hp, hpc, hle⟩ := hauth action t [] c hc htid hne
    refine ⟨⟨p, hp, hpc⟩, ?_⟩
    rw [hverdict, parent_verdict hp hpc he, rulesVerdict_childPolicy] at hle
    exact hle.trans (min_le_left _ _)
  · intro hhold action t caps c hc htid hne
    have hne' := hne
    rw [hpol] at hne'
    obtain ⟨hv, hcov, he⟩ := PolicyEngine.of_evaluate_ne_deny hne'
    have he' := childPolicy_effectsPermitted.mp he
    obtain ⟨⟨p, hp, hpc⟩, hle⟩ := hhold action he' ⟨c, hc, htid, ⟨t, hv⟩, hcov⟩
    refine ⟨p, hp, hpc, ?_⟩
    rw [hpol, PolicyEngine.verdict_evaluate hv hcov he, parent_verdict hp hpc he',
      rulesVerdict_childPolicy policy, le_min_iff]
    refine ⟨le_trans ?_ hle, le_rfl⟩
    simp [PolicyEngine.rulesVerdict, Verdict.strictest_append]

/-- The parent's lease behind given limits is at least as wide. -/
private def WithinParent (parent_leases : List CapabilityLease) (d : Delegation)
    (x : LeaseId × String × Option ℕ × Option Time) : Prop :=
  ∃ p, SourceOf parent_leases d x.1 x.2.1 p ∧ noWiderThan x.2.2.1 p.uses_remaining ∧
    noWiderThan x.2.2.2 p.expires_at

/-- A copy is within its parent if it is within the lease it was copied from. -/
private theorem withinParent_copy {ps : List CapabilityLease} {i : ℕ} {p : CapabilityLease}
    (hi : ps[i]? = some p) : WithinParent ps d (childLease d i p).limits ↔
      noWiderThan p.max_uses p.uses_remaining ∧
        noWiderThan (childExpiry d.now (d.grant_at i) p) p.expires_at := by
  constructor
  · rintro ⟨q, ⟨-, -, hsource⟩, hwithin⟩
    obtain rfl : p = q := Option.some.inj (hi.symm.trans (hsource i rfl))
    exact hwithin
  · refine fun hwithin => ⟨p, ⟨List.mem_of_getElem? hi, rfl, fun j hj => ?_⟩, hwithin⟩
    rwa [d.grant_id_injective hj]

/-- Only no limit at all is as wide as the lease that a refresh creates. -/
private theorem withinParent_created {ps : List CapabilityLease} {q : Refresh}
    (hq : q ∈ d.refreshes) : WithinParent ps d (q.lease_id, "tools", none, none) ↔
      ∃ p ∈ ps, p.capability_name = "tools" ∧ p.uses_remaining = none ∧ p.expires_at = none := by
  have hnone : ∀ {α : Type} [LE α] (b : Option α), noWiderThan none b ↔ b = none := by
    intro α _ b
    cases b <;> simp [noWiderThan]
  have hsource : ∀ p, SourceOf ps d q.lease_id "tools" p ↔ p ∈ ps ∧ p.capability_name = "tools" :=
    fun p => and_congr_right fun _ => and_iff_left fun i hi => absurd hi (d.refresh_id_fresh q hq i)
  simp only [WithinParent, hnone, hsource, and_assoc]

/-- **When no limit is widened.** -/
private theorem limits_iff (h : handleRlmQuery parent leases policy d prompt = .ok child) :
    (∀ c ∈ (child.refreshed d).leases.active,
      WithinParent (leases.activeForThread d.lookup_at parent.thread_id) d c.limits) ↔
      (∀ i p, (leases.activeForThread d.lookup_at parent.thread_id)[i]? = some p →
        PassedOn d.now p → noWiderThan p.max_uses p.uses_remaining ∧
          noWiderThan (childExpiry d.now (d.grant_at i) p) p.expires_at) ∧
        (RefreshAlong child.thread_id child.thread_type false
          (fun q m => q.Creates child.thread_id child.thread_type m) d.refreshes child.leases →
          ∃ p ∈ leases.activeForThread d.lookup_at parent.thread_id,
            p.capability_name = "tools" ∧ p.uses_remaining = none ∧ p.expires_at = none) := by
  have hlim : ∀ x, (∃ c ∈ (child.refreshed d).leases.active, c.limits = x) ↔ _ :=
    fun x => limits_refreshAll_iff (freshRefreshes h)
  constructor
  · intro hall
    have hwithin : ∀ {x}, (∃ c ∈ (child.refreshed d).leases.active, c.limits = x) →
        WithinParent (leases.activeForThread d.lookup_at parent.thread_id) d x := by
      rintro x ⟨c, hc, rfl⟩
      exact hall c hc
    constructor
    · exact fun i p hi hpass => (withinParent_copy hi).mp (hwithin ((hlim _).mpr
        (.inl ⟨_, (mem_child_leases h).mpr ⟨i, p, hi, hpass, rfl⟩, rfl⟩)))
    · rintro ⟨pre, q, post, hsplit, hcreates⟩
      have hq : q ∈ d.refreshes := by simp [hsplit]
      exact (withinParent_created hq).mp (hwithin ((hlim _).mpr
        (.inr ⟨pre, q, post, hsplit, hcreates, rfl⟩)))
  · rintro ⟨hpassed, hcreate⟩ c hc
    obtain ⟨c', hc', heq⟩ | ⟨pre, q, post, hsplit, hcreates, heq⟩ := (hlim c.limits).mp ⟨c, hc, rfl⟩
    · obtain ⟨i, p, hi, hpass, rfl⟩ := (mem_child_leases h).mp hc'
      rw [← heq]
      exact (withinParent_copy hi).mpr (hpassed i p hi hpass)
    · have hq : q ∈ d.refreshes := by simp [hsplit]
      rw [← heq]
      exact (withinParent_created hq).mpr (hcreate ⟨pre, q, post, hsplit, hcreates⟩)

end

/-- **When delegation amplifies nothing.** For every parent, lease set, policy, clock and
run of refreshes: a delegation that starts a child keeps it within its parent exactly when
the four conditions hold. -/
theorem noAmplification_iff (parent : RlmParent) (leases : LeaseManager)
    (policy : PolicyEngine) (d : Delegation) (prompt : Option String) :
    (∀ child, handleRlmQuery parent leases policy d prompt = .ok child →
        NoAmplification policy (leases.activeForThread d.lookup_at parent.thread_id) d child) ↔
      ∀ child, handleRlmQuery parent leases policy d prompt = .ok child →
        DelegationWithin policy (leases.activeForThread d.lookup_at parent.thread_id) d child := by
  refine forall₂_congr fun child h => ?_
  have hholds : ∀ name, (child.refreshed d).leases.Holds child.thread_id name ↔ _ :=
    fun name => holds_refreshAll_iff (freshRefreshes h)
  have hinit := holds_child_iff h
  have hauth := authority_iff h
  have hlimits := limits_iff h
  constructor
  · rintro ⟨ha, hl⟩
    have ha := hauth.mp ha
    obtain ⟨hpassed, hcreate⟩ := hlimits.mp hl
    refine ⟨fun action ⟨p, hp, hpass, hcov⟩ he => ?_, hpassed, fun action he hadm => ?_,
      hcreate⟩
    · exact (ha action he ((hholds _).mpr (.inl ((hinit _).mpr ⟨p, hp, hpass, hcov⟩)))).2
    · obtain ⟨hcov, hle⟩ := ha action he ((hholds _).mpr (.inr hadm))
      exact ⟨hcov, fun _ => hle⟩
  · rintro ⟨hrules, hpassed, hcover, hcreate⟩
    refine ⟨hauth.mpr fun action he hhold => ?_,
      hlimits.mpr ⟨hpassed, hcreate⟩⟩
    rcases (hholds _).mp hhold with hpass | hadm
    · obtain ⟨p, hp, hpass, hcov⟩ := (hinit _).mp hpass
      exact ⟨⟨p, hp, hcov⟩, hrules action ⟨p, hp, hpass, hcov⟩ he⟩
    · obtain ⟨hcov, hle⟩ := hcover action he hadm
      exact ⟨hcov, hle he⟩

/-! ### A rule left behind -/

section LostRule

private def toolsLease : CapabilityLease where
  id := ⟨1⟩
  thread_id := ⟨1⟩
  capability_name := "tools"
  granted_actions := .specific ["shell"]
  granted_at := 0
  expires_at := none
  max_uses := some 5
  uses_remaining := some 1
  revoked := false
  revoked_reason := none

private def rootThread : RlmParent := ⟨⟨1⟩, 0, 3, 50, none, 0⟩

private def rootLeases : LeaseManager := ⟨⟨[toolsLease], by decide⟩⟩

/-- One global rule: nothing may run. -/
private def lockedPolicy : PolicyEngine := ⟨[⟨"locked", .always, .deny⟩], []⟩

private def plainDelegation : Delegation where
  child_id := ⟨2⟩
  lookup_at := 0
  now := 0
  grant_id := fun i => ⟨i⟩
  grant_at := fun _ => 0
  refreshes := []
  grant_id_injective := fun i j h => by simpa using h
  refresh_id_nodup := List.nodup_nil
  refresh_id_fresh := by simp

/-- The parent may not run `shell` at all, and its child may, five times. -/
theorem child_escapes_global_rule : ¬∀ parent leases policy d prompt child,
    handleRlmQuery parent leases policy d prompt = .ok child →
      NoAmplification policy (leases.activeForThread d.lookup_at parent.thread_id) d child := by
  intro h
  have hsafe := h rootThread rootLeases lockedPolicy plainDelegation (some "go") _ rfl
  have hmem : childLease plainDelegation 0 toolsLease ∈
      (inheritLeases plainDelegation 0 [toolsLease] ⟨LeaseManager.new, [], []⟩).leases.active :=
    List.mem_singleton.mpr rfl
  obtain ⟨p, hp, -, hle⟩ := hsafe.authority ⟨"shell", [], false⟩ 0 [] _ hmem rfl (by decide)
  obtain rfl : p = toolsLease := List.mem_singleton.mp hp
  exact absurd hle (by decide)

end LostRule

end T3Claw
