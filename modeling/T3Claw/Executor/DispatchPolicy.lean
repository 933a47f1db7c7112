import T3Claw.Executor.Dispatch

/-!
# Does a dispatch path honour the policy?

A call is *refused* when the lease that covers it lists a definition of the same name, up
to hyphens and underscores, that the policy does not allow. A path honours the policy when
it executes no refused call.

Coverage is blind to the spelling and the lookup is not, so a refused call can slip
through: a comparison that selects no definition skips the policy. `neverBypasses_iff`
says when it does not happen on a path, and `dispatch_respects_policy_iff` puts the four
paths and the agreement of their decisions together.
-/

namespace T3Claw

section

variable (env : DispatchEnv) (caps : List PolicyRule) (r : Readings) (m : LeaseManager)
  (name : String)

/-- The covering lease lists a same-spelled definition that the policy does not allow. -/
def PolicyRefuses : Prop :=
  ∃ lease actions action_def, m.findLeaseForAction r.find env.thread_id name = some lease ∧
    env.effects.available_actions [lease] = .ok actions ∧ action_def ∈ actions ∧
    sameSpelling action_def.name name ∧
    env.policy.evaluate r.evaluate action_def lease caps ≠ .allow

variable (style : LookupStyle)

/-- The definition the path's comparison selects is itself not allowed. -/
def LookupCatches : Prop :=
  ∃ lease actions action_def, m.findLeaseForAction r.find env.thread_id name = some lease ∧
    env.effects.available_actions [lease] = .ok actions ∧
    (actions.find? fun a => style.nameMatches a.name name) = some action_def ∧
    env.policy.evaluate r.evaluate action_def lease caps ≠ .allow

/-- The path finds no use to consume. -/
def NoUseLeft : Prop :=
  ∃ lease, m.findLeaseForAction r.find env.thread_id name = some lease ∧
    style.consumable env r.consume m lease name = false

/-- The call ends Phase 1 of a batch: its selected definition needs approval or, on a path
with `?`, the listing fails or an allowed call has no use to consume. -/
def EndsBatch : Prop :=
  ∃ lease, m.findLeaseForAction r.find env.thread_id name = some lease ∧
    ((∃ actions, style.listing env lease = .ok actions ∧
        (style.lookupVerdict env caps r lease actions name = .requireApproval ∨
          (style.propagates = true ∧ style.lookupVerdict env caps r lease actions name = .allow ∧
            style.consumable env r.consume m lease name = false))) ∨
      ∃ e, style.listing env lease = .error e)

end

variable {env : DispatchEnv} {caps : List PolicyRule} {r : Readings} {m : LeaseManager}
  {name : String} {style : LookupStyle}

/-! ### One call -/

theorem LookupStyle.listing_of_ok {lease : CapabilityLease} {actions : List ActionDef}
    (ha : env.effects.available_actions [lease] = .ok actions) :
    style.listing env lease = .ok actions := by
  simp [LookupStyle.listing, ha, Except.toOption]

theorem LookupStyle.lookupVerdict_eq_allow {lease : CapabilityLease}
    {actions : List ActionDef} : style.lookupVerdict env caps r lease actions name = .allow ↔
      ∀ action_def, (actions.find? fun a => style.nameMatches a.name name) = some action_def →
        env.policy.evaluate r.evaluate action_def lease caps = .allow := by
  unfold LookupStyle.lookupVerdict LookupStyle.decision?
  cases actions.find? fun a => style.nameMatches a.name name with
  | none => simp
  | some a => simp [PolicyDecision.verdict_eq_allow]

theorem LookupStyle.settle_eq_allow {v : Verdict} {consumable : Bool} :
    LookupStyle.settle v consumable = .allow ↔ v = .allow ∧ consumable = true := by
  cases v <;> cases consumable <;> simp [LookupStyle.settle]

/-- **One refused call.** The gate allows it exactly when the path's lookup does not catch
it and a use is there to consume. -/
theorem PolicyRefuses.gate_allows_iff (style : LookupStyle)
    (h : PolicyRefuses env caps r m name) :
    (style.gate env caps r m name).1.verdict = .allow ↔
      ¬LookupCatches env caps r m name style ∧ ¬NoUseLeft env r m name style := by
  obtain ⟨lease, actions, -, hf, ha, -⟩ := h
  rw [LookupStyle.gate_verdict hf (LookupStyle.listing_of_ok ha), LookupStyle.settle_eq_allow,
    LookupStyle.lookupVerdict_eq_allow]
  refine and_congr ⟨fun hall => ?_, fun hn a hs => ?_⟩ ⟨fun hk => ?_, fun hn => ?_⟩
  · rintro ⟨lease', actions', a, hf', ha', hs, hev⟩
    obtain rfl : lease = lease' := by simpa [hf] using hf'
    obtain rfl : actions = actions' := by simpa [ha] using ha'
    exact hev (hall a hs)
  · by_contra hev
    exact hn ⟨lease, actions, a, hf, ha, hs, hev⟩
  · rintro ⟨lease', hf', hk'⟩
    obtain rfl : lease = lease' := by simpa [hf] using hf'
    simp [hk] at hk'
  · by_contra hk
    exact hn ⟨lease, hf, by simpa using hk⟩

/-- The gate interrupts a batch exactly on the calls that end it. -/
theorem gate_interrupts_iff : (style.gate env caps r m name).1.interrupts = true ↔
    EndsBatch env caps r m name style := by
  have huse : ∀ {lease : CapabilityLease}, lease ∈ m.active →
      ((style.takeUse env r m lease name).1.interrupts = true ↔
        style.propagates = true ∧ style.consumable env r.consume m lease name = false) := by
    intro lease hl
    rw [← LookupStyle.consume_isSome hl]
    unfold LookupStyle.takeUse
    cases style.consume env r.consume m lease name with
    | ok p => simp [Gate.interrupts, Except.toOption]
    | error e => cases style.propagates <;> simp [Gate.interrupts, Except.toOption]
  unfold EndsBatch
  cases hf : m.findLeaseForAction r.find env.thread_id name with
  | none => simp [LookupStyle.gate_of_find_none hf, Gate.interrupts]
  | some lease =>
    have hl := (LeaseManager.findLeaseForAction_spec hf).1
    cases ha : style.listing env lease with
    | error e => simp [LookupStyle.gate, hf, ha, Gate.interrupts]
    | ok actions =>
      simp only [LookupStyle.gate, hf, ha]
      cases hd : style.decision? env caps r lease actions name with
      | none => simp [ha, hd, huse hl, LookupStyle.lookupVerdict]
      | some d =>
        cases d with
        | allow => simp [ha, hd, huse hl, LookupStyle.lookupVerdict, PolicyDecision.verdict]
        | deny reason =>
          simp [ha, hd, Gate.interrupts, LookupStyle.lookupVerdict, PolicyDecision.verdict]
        | requireApproval reason =>
          simp [ha, hd, Gate.interrupts, LookupStyle.lookupVerdict, PolicyDecision.verdict]

/-! ### A batch -/

/-- A list of executions contains no refused call of the batch. -/
def NeverBypasses (env : DispatchEnv) (caps : List PolicyRule) (clock : ℕ → Readings)
    (ps : List Position) (executed : List Execution) : Prop :=
  ∀ p ∈ ps, PolicyRefuses env caps (clock p.index) p.leases p.call.action_name →
    ∀ x ∈ executed, x.index ≠ p.index

/-- Every refused call of the batch is caught by the path's own lookup or finds no use. -/
def RefusedAreStopped (env : DispatchEnv) (caps : List PolicyRule) (clock : ℕ → Readings)
    (style : LookupStyle) (ps : List Position) : Prop :=
  ∀ p ∈ ps, PolicyRefuses env caps (clock p.index) p.leases p.call.action_name →
    LookupCatches env caps (clock p.index) p.leases p.call.action_name style ∨
      NoUseLeft env (clock p.index) p.leases p.call.action_name style

/-- Some call of the batch ends Phase 1, so that none is executed. -/
def BatchEnds (env : DispatchEnv) (caps : List PolicyRule) (clock : ℕ → Readings)
    (style : LookupStyle) (ps : List Position) : Prop :=
  ∃ p ∈ ps, EndsBatch env caps (clock p.index) p.leases p.call.action_name style

/-- **A batch honours the policy** exactly when it ends in Phase 1 or every refused call is
stopped. `hrun` is what a path does with the end of Phase 1. -/
theorem neverBypasses_iff {clock : ℕ → Readings} {calls : List ActionCall}
    {executed : List Execution}
    (hrun : executed =
      match preflightAll (fun i m name => style.gate env caps (clock i) m name) 0 calls m with
      | .ready outcomes _ => executions 0 calls outcomes
      | _ => []) :
    NeverBypasses env caps clock
        (positions (fun i m name => style.gate env caps (clock i) m name) 0 calls m) executed ↔
      BatchEnds env caps clock style
          (positions (fun i m name => style.gate env caps (clock i) m name) 0 calls m) ∨
        RefusedAreStopped env caps clock style
          (positions (fun i m name => style.gate env caps (clock i) m name) 0 calls m) := by
  set gateAt : BatchGate := fun i m name => style.gate env caps (clock i) m name with hgate
  have hends : ∀ p : Position, (p.answer gateAt).interrupts = true ↔
      EndsBatch env caps (clock p.index) p.leases p.call.action_name style :=
    fun p => gate_interrupts_iff
  by_cases hb : BatchEnds env caps clock style (positions gateAt 0 calls m)
  · -- an interrupted batch executes nothing
    have hnot : ¬∃ outcomes m', preflightAll gateAt 0 calls m = .ready outcomes m' := by
      rw [preflightAll_ready_iff]
      intro hall
      obtain ⟨p, hp, he⟩ := hb
      simpa [hall p hp] using (hends p).mpr he
    have hnil : executed = [] := by
      rw [hrun]
      split
      · exact absurd ⟨_, _, ‹_›⟩ hnot
      · rfl
    simp [hb, hnil, NeverBypasses]
  · have hready : ∃ outcomes m', preflightAll gateAt 0 calls m = .ready outcomes m' := by
      rw [preflightAll_ready_iff]
      intro p hp
      by_contra hi
      exact hb ⟨p, hp, (hends p).mp (by simpa using hi)⟩
    obtain ⟨outcomes, m', hpre⟩ := hready
    rw [hpre] at hrun
    subst hrun
    rw [or_iff_right hb]
    refine forall₂_congr fun p hp => forall_congr' fun hr => ?_
    have hexec := mem_executions_iff hpre hp
    have hallow : (p.answer gateAt).verdict = .allow ↔ _ := hr.gate_allows_iff style
    constructor
    · intro hno
      by_contra hn
      obtain ⟨x, hx, hxi⟩ := hexec.mpr (hallow.mpr (not_or.mp hn))
      exact hno x hx hxi
    · intro hstop x hx hxi
      obtain ⟨hc, hu⟩ := hallow.mp (hexec.mp ⟨x, hx, hxi⟩)
      exact hstop.elim hc hu

/-- **A single call honours the policy** exactly when, if refused, it is stopped. -/
theorem neverBypasses_single_iff {clock : ℕ → Readings} {call : ActionCall}
    {executed : List Execution}
    (hrun : (∃ x ∈ executed, x.index = 0) ↔
      (style.gate env caps (clock 0) m call.action_name).1.verdict = .allow) :
    NeverBypasses env caps clock [⟨0, call, m⟩] executed ↔
      RefusedAreStopped env caps clock style [⟨0, call, m⟩] := by
  unfold NeverBypasses RefusedAreStopped
  simp only [List.forall_mem_singleton]
  refine forall_congr' fun hr => ?_
  have hallow := hr.gate_allows_iff style
  rw [← hrun] at hallow
  constructor
  · intro hno
    by_contra hn
    obtain ⟨x, hx, hxi⟩ := hallow.mpr (not_or.mp hn)
    exact hno x hx hxi
  · intro hstop x hx hxi
    obtain ⟨hc, hu⟩ := hallow.mp ⟨x, hx, hxi⟩
    exact hstop.elim hc hu

/-! ### The four paths -/

theorem executeActionCalls_executed (env : DispatchEnv) (serde : Serde)
    (caps : List PolicyRule) (clock : ℕ → Readings) (calls : List ActionCall)
    (m : LeaseManager) : (executeActionCalls env serde caps clock calls m).executed =
      match preflightAll (structuredGate env caps clock) 0 calls m with
      | .ready outcomes _ => executions 0 calls outcomes
      | _ => [] := by
  unfold executeActionCalls
  cases preflightAll (structuredGate env caps clock) 0 calls m <;> rfl

theorem handleExecuteActionsParallel_executed (env : DispatchEnv) (serde : Serde)
    (clock : ℕ → Readings) (calls : List ActionCall) (m : LeaseManager) :
    (handleExecuteActionsParallel env serde clock calls m).executed =
      match preflightAll (orchestratorGate env clock) 0 calls m with
      | .ready outcomes _ => executions 0 calls outcomes
      | _ => [] := by
  unfold handleExecuteActionsParallel
  cases preflightAll (orchestratorGate env clock) 0 calls m <;> rfl

/-- A settled call is executed exactly when it was approved. -/
private theorem mem_executions_single {call : ActionCall} {outcome : Settled} :
    (∃ x ∈ executions 0 [call] [outcome], x.index = 0) ↔
      (Gate.settled outcome).verdict = .allow := by
  cases outcome <;> simp [executions, Gate.verdict]

theorem handleExecuteAction_executed (env : DispatchEnv) (serde : Serde)
    (clock : ℕ → Readings) (call : ActionCall) (m : LeaseManager) :
    (∃ x ∈ (handleExecuteAction env serde clock call m).executed, x.index = 0) ↔
      (orchestratorStyle.gate env [] (clock 0) m call.action_name).1.verdict = .allow := by
  unfold handleExecuteAction orchestratorGate
  rcases orchestratorStyle.gate env [] (clock 0) m call.action_name with ⟨g, m1⟩
  cases g with
  | settled outcome => exact mem_executions_single
  | needsApproval => simp [Gate.verdict]
  | aborted e => simp [Gate.verdict]

theorem preflightAction_executed (env : DispatchEnv) (serde : Serde) (caps : List PolicyRule)
    (clock : ℕ → Readings) (call : ActionCall) (m : LeaseManager) :
    (∃ x ∈ (preflightAction env serde caps clock call m).executed, x.index = 0) ↔
      (codeactStyle.gate env caps (clock 0) m call.action_name).1.verdict = .allow := by
  unfold preflightAction codeactGate
  rcases codeactStyle.gate env caps (clock 0) m call.action_name with ⟨g, m1⟩
  cases g with
  | settled outcome => exact mem_executions_single
  | needsApproval => simp [Gate.verdict]
  | aborted e => simp [Gate.verdict]

/-- The covering lease lists a definition of the requested name, up to spelling. -/
def Listed (env : DispatchEnv) (r : Readings) (m : LeaseManager) (name : String)
    (lease : CapabilityLease) (actions : List ActionDef) : Prop :=
  m.findLeaseForAction r.find env.thread_id name = some lease ∧
    env.effects.available_actions [lease] = .ok actions ∧
    ∃ action_def ∈ actions, sameSpelling action_def.name name

/-- No path executes a refused call, and a listed call is decided alike on all of them. -/
structure DispatchHonoursPolicy (env : DispatchEnv) (serde : Serde) (caps : List PolicyRule)
    (clock : ℕ → Readings) (calls : List ActionCall) (m : LeaseManager) : Prop where
  structured : NeverBypasses env caps clock (positions (structuredGate env caps clock) 0 calls m)
    (executeActionCalls env serde caps clock calls m).executed
  parallel : NeverBypasses env [] clock (positions (orchestratorGate env clock) 0 calls m)
    (handleExecuteActionsParallel env serde clock calls m).executed
  single : ∀ call ∈ calls, NeverBypasses env [] clock [⟨0, call, m⟩]
    (handleExecuteAction env serde clock call m).executed
  codeact : ∀ call ∈ calls, NeverBypasses env caps clock [⟨0, call, m⟩]
    (preflightAction env serde caps clock call m).executed
  same_decision : ∀ call ∈ calls,
    (∃ lease actions, Listed env (clock 0) m call.action_name lease actions) →
      (structuredGate env caps clock 0 m call.action_name).1.verdict =
          (orchestratorGate env clock 0 m call.action_name).1.verdict ∧
        (codeactGate env caps clock 0 m call.action_name).1.verdict =
          (orchestratorGate env clock 0 m call.action_name).1.verdict

/-- On every path each refused call is stopped, or the batch ends before it executes
anything; and the lookups of the paths come to the same verdict. -/
structure LookupsHonourPolicy (env : DispatchEnv) (caps : List PolicyRule)
    (clock : ℕ → Readings) (calls : List ActionCall) (m : LeaseManager) : Prop where
  structured :
    BatchEnds env caps clock structuredStyle (positions (structuredGate env caps clock) 0 calls m) ∨
      RefusedAreStopped env caps clock structuredStyle
        (positions (structuredGate env caps clock) 0 calls m)
  parallel :
    BatchEnds env [] clock orchestratorStyle (positions (orchestratorGate env clock) 0 calls m) ∨
      RefusedAreStopped env [] clock orchestratorStyle
        (positions (orchestratorGate env clock) 0 calls m)
  single : ∀ call ∈ calls, RefusedAreStopped env [] clock orchestratorStyle [⟨0, call, m⟩]
  codeact : ∀ call ∈ calls, RefusedAreStopped env caps clock codeactStyle [⟨0, call, m⟩]
  same_verdict : ∀ call ∈ calls, ∀ lease actions,
    Listed env (clock 0) m call.action_name lease actions →
      let settled := fun (style : LookupStyle) caps => LookupStyle.settle
        (style.lookupVerdict env caps (clock 0) lease actions call.action_name)
        (style.consumable env (clock 0).consume m lease call.action_name)
      settled structuredStyle caps = settled orchestratorStyle [] ∧
        settled codeactStyle caps = settled orchestratorStyle []

/-- **When dispatch honours the policy.** For every thread, lease set, policy, clock and
batch of calls. -/
theorem dispatch_honours_policy_iff (env : DispatchEnv) (serde : Serde)
    (caps : List PolicyRule) (clock : ℕ → Readings) (calls : List ActionCall)
    (m : LeaseManager) : DispatchHonoursPolicy env serde caps clock calls m ↔
      LookupsHonourPolicy env caps clock calls m := by
  have hs := neverBypasses_iff (executeActionCalls_executed env serde caps clock calls m)
  have hp := neverBypasses_iff (handleExecuteActionsParallel_executed env serde clock calls m)
  have h1 := fun call => neverBypasses_single_iff
    (handleExecuteAction_executed env serde clock call m)
  have hc := fun call => neverBypasses_single_iff
    (preflightAction_executed env serde caps clock call m)
  have hv : ∀ (style : LookupStyle) caps {name lease actions},
      Listed env (clock 0) m name lease actions →
        (style.gate env caps (clock 0) m name).1.verdict = LookupStyle.settle
          (style.lookupVerdict env caps (clock 0) lease actions name)
          (style.consumable env (clock 0).consume m lease name) :=
    fun style caps _ _ _ h => LookupStyle.gate_verdict h.1 (LookupStyle.listing_of_ok h.2.1)
  constructor
  · intro h
    refine ⟨hs.mp h.structured, hp.mp h.parallel,
      fun call hmem => (h1 call).mp (h.single call hmem),
      fun call hmem => (hc call).mp (h.codeact call hmem), fun call hmem lease actions hl => ?_⟩
    have hd := h.same_decision call hmem ⟨lease, actions, hl⟩
    simpa only [structuredGate, orchestratorGate, codeactGate, hv _ _ hl] using hd
  · intro h
    refine ⟨hs.mpr h.structured, hp.mpr h.parallel,
      fun call hmem => (h1 call).mpr (h.single call hmem),
      fun call hmem => (hc call).mpr (h.codeact call hmem), fun call hmem hl => ?_⟩
    obtain ⟨lease, actions, hl⟩ := hl
    have hd := h.same_verdict call hmem lease actions hl
    simpa only [structuredGate, orchestratorGate, codeactGate, hv _ _ hl] using hd

/-! ### A call that slips through -/

section HyphenatedCall

/-- `create_issue` needs approval. -/
private def createIssue : ActionDef := ⟨"create_issue", [], true⟩

private def githubLease : CapabilityLease where
  id := ⟨1⟩
  thread_id := ⟨1⟩
  capability_name := "github"
  granted_actions := .specific ["create_issue"]
  granted_at := 0
  expires_at := none
  max_uses := none
  uses_remaining := none
  revoked := false
  revoked_reason := none

private def githubEnv : DispatchEnv where
  thread_id := ⟨1⟩
  step_id := ⟨1⟩
  policy := PolicyEngine.new
  effects := ⟨fun _ => .ok [createIssue], fun _ _ _ _ => (.error (.effect "offline"), 0)⟩

private def githubLeases : LeaseManager := ⟨⟨[githubLease], by decide⟩⟩

private def hyphenatedCall : ActionCall := ⟨"call-1", "create-issue", .obj []⟩

private def stoppedClock : ℕ → Readings := fun _ => ⟨0, 0, 0⟩

/-- The lease covers `create-issue`, its definition `create_issue` needs approval, and the
orchestrator path, comparing names exactly, executes the call. -/
theorem hyphenated_call_bypasses_policy : ¬∀ env serde caps clock calls m,
    DispatchHonoursPolicy env serde caps clock calls m := by
  intro h
  have hsingle := (h githubEnv ⟨fun _ => "", fun _ => .null, fun _ => none⟩ [] stoppedClock
    [hyphenatedCall] githubLeases).single hyphenatedCall (by simp)
  have hrefused : PolicyRefuses githubEnv [] (stoppedClock 0) githubLeases "create-issue" :=
    ⟨githubLease, [createIssue], createIssue, by decide, rfl, by simp, by decide, by decide⟩
  obtain ⟨x, hx, hi⟩ := (handleExecuteAction_executed _ _ stoppedClock hyphenatedCall _).mpr
    (show (orchestratorStyle.gate githubEnv [] (stoppedClock 0) githubLeases
      "create-issue").1.verdict = .allow by decide)
  exact hsingle ⟨0, hyphenatedCall, githubLeases⟩ (by simp) hrefused x hx hi

end HyphenatedCall

end T3Claw
