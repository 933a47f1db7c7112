import T3Claw.Executor.Preflight

/-!
# The four dispatch paths

The functions that take action calls to `EffectExecutor::execute_action`, each built on
`LookupStyle.gate` with its own style, error texts and events. A path's result records,
next to its response, the lease manager it leaves behind and every call that reached the
executor, with its place in the batch.

The two batch paths share Phase 1 (`preflightAll`): calls are checked in order, each on
the leases the earlier ones left, until one of them interrupts the batch. Nothing is
executed before Phase 1 is through, so what a batch executes is read off from the gate's
answers at its `positions`.
-/

namespace T3Claw

/-- `serde_json`: the text of a value, and leases as values. -/
structure Serde where
  text : Json → String
  leaseToJson : CapabilityLease → Json
  leaseOfJson? : Json → Option CapabilityLease

/-- `ThreadOutcome::GatePaused`. -/
structure GatePause where
  gate_name : String
  action_name : String
  call_id : String
  parameters : Json
  resume_kind : ResumeKind
  resume_output : Option Json
  paused_lease : Option CapabilityLease

/-- A call that reached `EffectExecutor::execute_action`; `index` is its place in the batch. -/
structure Execution where
  index : ℕ
  action_name : String
  parameters : Json
  lease : CapabilityLease

/-- What a dispatch path answers, leaves behind and executed. -/
structure Dispatched (ρ : Type) where
  response : ρ
  leases : LeaseManager
  executed : List Execution

/-- The engine's own pause for approval. -/
def approvalPause (call : ActionCall) : GatePause where
  gate_name := "approval"
  action_name := call.action_name
  call_id := call.id
  parameters := call.parameters
  resume_kind := .approval true
  resume_output := none
  paused_lease := none

/-- The event of the engine's own pause. -/
def approvalEvent (call : ActionCall) : EventKind :=
  .approvalRequested call.action_name call.id call.parameters none none
    (summarizeParams call.action_name call.parameters)

/-- `{"error": text}`. -/
def errorJson (text : String) : Json := .obj [("error", .str text)]

/-- A call that was not executed, as the event records it. -/
def DispatchEnv.failedEvent (env : DispatchEnv) (call : ActionCall) (error : String) :
    EventKind :=
  .actionFailed env.step_id call.action_name call.id error 0 none

/-- The context a call is executed with. -/
def DispatchEnv.execContext (env : DispatchEnv) (call : ActionCall) : ExecContext :=
  ⟨env.thread_id, env.step_id, some call.id⟩

/-- `effects.execute_action` on one call under its lease. -/
def DispatchEnv.execute (env : DispatchEnv) (call : ActionCall) (lease : CapabilityLease) :
    Except EngineError ActionResult × ℕ :=
  env.effects.execute_action call.action_name call.parameters lease (env.execContext call)

/-- `let _ = leases.refund_use(id)`. -/
def LeaseManager.refund (m : LeaseManager) (id : LeaseId) : LeaseManager :=
  (m.refundUse id).toOption.getD m

/-- `interrupted_call_needs_refund`: the executor handed the call back at a gate. -/
def interruptedCallNeedsRefund : Except EngineError ActionResult → Bool
  | .error (.gatePaused ..) => true
  | _ => false

/-- The error text and duration a failed `ActionResult` is reported with. -/
def wrappedFailure (serde : Serde) (result : ActionResult) (elapsed : ℕ) : String × ℕ :=
  (((result.output.get? "error").bind Json.asStr?).getD (serde.text result.output),
    if 0 < result.duration then result.duration else elapsed)

/-- The event of a call the executor answered with an `ActionResult`. -/
def resultEvent (env : DispatchEnv) (serde : Serde) (call : ActionCall) (result : ActionResult)
    (elapsed : ℕ) (params_summary : Option String) : EventKind :=
  if result.is_error then
    let (error, duration_ms) := wrappedFailure serde result elapsed
    .actionFailed env.step_id call.action_name call.id error duration_ms params_summary
  else
    .actionExecuted env.step_id call.action_name call.id result.duration params_summary

/-! ### Phase 1 of a batch -/

/-- How Phase 1 ends. -/
inductive Phase1 where
  | ready (outcomes : List Settled) (leases : LeaseManager)
  | paused (before : List Settled) (call : ActionCall) (leases : LeaseManager)
  | aborted (error : EngineError) (leases : LeaseManager)

/-- Put the outcome of an earlier call in front. -/
def Phase1.cons (outcome : Settled) : Phase1 → Phase1
  | .ready outcomes m => .ready (outcome :: outcomes) m
  | .paused before call m => .paused (outcome :: before) call m
  | .aborted e m => .aborted e m

/-- The gate of a batch: its answer to the call at an index, on given leases. -/
abbrev BatchGate := ℕ → LeaseManager → String → Gate × LeaseManager

/-- The preflight loop of a batch. -/
def preflightAll (gateAt : BatchGate) : ℕ → List ActionCall → LeaseManager → Phase1
  | _, [], m => .ready [] m
  | i, call :: calls, m =>
    match gateAt i m call.action_name with
    | (.aborted e, m) => .aborted e m
    | (.needsApproval, m) => .paused [] call m
    | (.settled outcome, m) => (preflightAll gateAt (i + 1) calls m).cons outcome

/-- The calls that reach the executor once Phase 1 is through. -/
def executions : ℕ → List ActionCall → List Settled → List Execution
  | i, call :: calls, outcome :: outcomes =>
    match outcome with
    | .approved lease =>
      ⟨i, call.action_name, call.parameters, lease⟩ :: executions (i + 1) calls outcomes
    | _ => executions (i + 1) calls outcomes
  | _, _, _ => []

/-- The refunds after a batch, in call order. -/
def refundInterrupted (env : DispatchEnv) (calls : List ActionCall) (outcomes : List Settled)
    (m : LeaseManager) : LeaseManager :=
  (calls.zip outcomes).foldl (fun m slot =>
    match slot.2 with
    | .approved lease =>
      if interruptedCallNeedsRefund (env.execute slot.1 lease).1 then m.refund lease.id else m
    | _ => m) m

/-! ### The structured path -/

/-- `structured.rs::ActionBatchResult`. -/
structure ActionBatchResult where
  results : List ActionResult
  events : List EventKind
  need_approval : Option GatePause

/-- A call answered with an error without being executed. -/
def structuredFailure (env : DispatchEnv) (call : ActionCall) (output event : String) :
    ActionResult × EventKind :=
  (⟨call.id, call.action_name, errorJson output, true, 0⟩, env.failedEvent call event)

/-- `structured.rs::classify_exec_result`. -/
def classifyExecResult (env : DispatchEnv) (serde : Serde) (call : ActionCall)
    (result : Except EngineError ActionResult) (elapsed : ℕ) : ActionResult × EventKind :=
  match result with
  | .ok result =>
    ({ result with call_id := call.id }, resultEvent env serde call result elapsed none)
  | .error (.gatePaused gate_name action_name call_id parameters resume_kind resume_output
      paused_lease) =>
    (⟨call.id, call.action_name, .obj [("status", .str "gate_paused"), ("gate", .str gate_name),
        ("resume_kind", resume_kind.toJson), ("resume_output", resume_output.getD .null),
        ("paused_lease", (paused_lease.map serde.leaseToJson).getD .null)], true, 0⟩,
      .approvalRequested action_name call_id parameters resume_kind.allowAlways?
        (some gate_name) (summarizeParams call.action_name parameters))
  | .error e =>
    (⟨call.id, call.action_name, errorJson e.display, true, 0⟩,
      .actionFailed env.step_id call.action_name call.id e.display elapsed none)

/-- The result and event of one call of the batch. -/
def structuredSlot (env : DispatchEnv) (serde : Serde) (call : ActionCall) :
    Settled → ActionResult × EventKind
  | .noLease => structuredFailure env call
      ("no active lease covers action '" ++ call.action_name ++ "'")
      ("no lease for action '" ++ call.action_name ++ "'")
  | .denied reason => structuredFailure env call ("denied: " ++ reason) reason
  -- a failed consumption leaves this path through `?` and never settles
  | .notConsumed e => structuredFailure env call e.display e.display
  | .approved lease =>
    let (result, elapsed) := env.execute call lease
    classifyExecResult env serde call result elapsed

/-- The pause Phase 3 reads back from a slot. -/
def slotInterrupt (serde : Serde) (call : ActionCall) : ActionResult × EventKind → Option GatePause
  | (result, .approvalRequested action_name call_id ..) =>
    if (result.output.get? "status").bind Json.asStr? = some "gate_paused" then
      some
        { gate_name := ((result.output.get? "gate").bind Json.asStr?).getD "unknown"
          action_name, call_id
          parameters := call.parameters
          resume_kind := ((result.output.get? "resume_kind").bind ResumeKind.ofJson?).getD
            (.approval false)
          resume_output := result.output.get? "resume_output"
          paused_lease := (result.output.get? "paused_lease").bind serde.leaseOfJson? }
    else none
  | _ => none

/-- The gate of the structured path. -/
def structuredGate (env : DispatchEnv) (caps : List PolicyRule) (clock : ℕ → Readings) :
    BatchGate :=
  fun i m name => structuredStyle.gate env caps (clock i) m name

/-- `structured.rs::execute_action_calls`. -/
def executeActionCalls (env : DispatchEnv) (serde : Serde) (caps : List PolicyRule)
    (clock : ℕ → Readings) (calls : List ActionCall) (leases : LeaseManager) :
    Dispatched (Except EngineError ActionBatchResult) :=
  match preflightAll (structuredGate env caps clock) 0 calls leases with
  | .aborted e m => ⟨.error e, m, []⟩
  | .paused before call m =>
    -- only the errors met before the pause are reported
    let early := (calls.zip before).filterMap fun slot =>
      match slot.2 with
      | .approved _ => none
      | outcome => some (structuredSlot env serde slot.1 outcome)
    ⟨.ok ⟨early.map Prod.fst, early.map Prod.snd ++ [approvalEvent call],
      some (approvalPause call)⟩, m, []⟩
  | .ready outcomes m =>
    let slots := (calls.zip outcomes).map fun slot =>
      (slot.1, structuredSlot env serde slot.1 slot.2)
    ⟨.ok ⟨slots.map (·.2.1), slots.map (·.2.2),
        slots.findSome? fun slot => slotInterrupt serde slot.1 slot.2⟩,
      refundInterrupted env calls outcomes m, executions 0 calls outcomes⟩

/-! ### The orchestrator paths -/

/-- A call answered with an error: the response and the event. -/
def orchestratorFailure (env : DispatchEnv) (call : ActionCall) (output event : String) :
    Json × EventKind :=
  (.obj [("output", errorJson output), ("is_error", .bool true)], env.failedEvent call event)

/-- `orchestrator.rs::execute_single_action`, after the executor has answered. -/
def executeSingleAction (env : DispatchEnv) (serde : Serde) (call : ActionCall)
    (lease : CapabilityLease) : Json × EventKind :=
  let params_summary := summarizeParams call.action_name call.parameters
  let (result, elapsed) := env.execute call lease
  match result with
  | .ok r =>
    (.obj [("action_name", .str r.action_name), ("output", r.output),
        ("is_error", .bool r.is_error), ("duration_ms", .num r.duration)],
      resultEvent env serde call r elapsed params_summary)
  | .error (.gatePaused gate_name _ _ parameters resume_kind resume_output paused_lease) =>
    (.obj [("gate_paused", .bool true), ("gate_name", .str gate_name),
        ("action_name", .str call.action_name), ("call_id", .str call.id),
        ("parameters", parameters), ("resume_kind", resume_kind.toJson),
        ("resume_output", resume_output.getD .null),
        ("paused_lease", (paused_lease.map serde.leaseToJson).getD .null)],
      .approvalRequested call.action_name call.id parameters resume_kind.allowAlways?
        (some gate_name) (summarizeParams call.action_name parameters))
  | .error e =>
    (.obj [("output", errorJson e.display), ("is_error", .bool true)],
      .actionFailed env.step_id call.action_name call.id e.display elapsed params_summary)

/-- The response and event of a settled call. -/
def orchestratorSlot (env : DispatchEnv) (serde : Serde) (call : ActionCall) :
    Settled → Json × EventKind
  | .noLease =>
    let error := "No lease for action '" ++ call.action_name ++ "'"
    orchestratorFailure env call error error
  | .denied reason => orchestratorFailure env call ("Denied: " ++ reason) reason
  | .notConsumed e =>
    let error := "lease consumption failed for action '" ++ call.action_name ++ "': " ++ e.display
    orchestratorFailure env call error error
  | .approved lease => executeSingleAction env serde call lease

/-- The response to a call the policy wants approved. -/
def approvalJson (call : ActionCall) : Json :=
  .obj [("gate_paused", .bool true), ("gate_name", .str "approval"),
    ("action_name", .str call.action_name), ("call_id", .str call.id),
    ("parameters", call.parameters), ("resume_kind", (ResumeKind.approval true).toJson)]

/-- The gate of the orchestrator paths: neither passes capability rules. -/
def orchestratorGate (env : DispatchEnv) (clock : ℕ → Readings) : BatchGate :=
  fun i m name => orchestratorStyle.gate env [] (clock i) m name

/-- `orchestrator.rs::handle_execute_action`, from the parsed call on; the response comes
with the events recorded on the thread. -/
def handleExecuteAction (env : DispatchEnv) (serde : Serde) (clock : ℕ → Readings)
    (call : ActionCall) (leases : LeaseManager) : Dispatched (Json × List EventKind) :=
  match orchestratorGate env clock 0 leases call.action_name with
  -- no error leaves this path through `?`
  | (.aborted e, m) => ⟨(errorJson e.display, []), m, []⟩
  | (.needsApproval, m) => ⟨(approvalJson call, [approvalEvent call]), m, []⟩
  | (.settled outcome, m) =>
    let (response, event) := orchestratorSlot env serde call outcome
    ⟨(response, [event]), refundInterrupted env [call] [outcome] m,
      executions 0 [call] [outcome]⟩

/-- The call dicts `__execute_actions_parallel__` is given, with their defaults. -/
def parseCalls (calls : Json) : Option (List ActionCall) :=
  calls.asArray?.map fun items => items.map fun c =>
    { id := ((c.get? "call_id").bind Json.asStr?).getD ""
      action_name := ((c.get? "name").bind Json.asStr?).getD ""
      parameters := (c.get? "params").getD (.obj []) }

/-- `orchestrator.rs::handle_execute_actions_parallel`, from the parsed calls on. -/
def handleExecuteActionsParallel (env : DispatchEnv) (serde : Serde) (clock : ℕ → Readings)
    (calls : List ActionCall) (leases : LeaseManager) : Dispatched (Json × List EventKind) :=
  match preflightAll (orchestratorGate env clock) 0 calls leases with
  | .aborted e m => ⟨(errorJson e.display, []), m, []⟩
  | .paused before call m =>
    -- calls already approved and calls not reached are answered with null
    let early := (calls.zip before).map fun slot =>
      match slot.2 with
      | .approved _ => (Json.null, none)
      | outcome =>
        let (response, event) := orchestratorSlot env serde slot.1 outcome
        (response, some event)
    let padding := List.replicate (calls.length - (before.length + 1)) Json.null
    ⟨(.arr (early.map Prod.fst ++ [approvalJson call] ++ padding),
      early.filterMap Prod.snd ++ [approvalEvent call]), m, []⟩
  | .ready outcomes m =>
    let slots := (calls.zip outcomes).map fun slot => orchestratorSlot env serde slot.1 slot.2
    ⟨(.arr (slots.map Prod.fst), slots.map Prod.snd),
      refundInterrupted env calls outcomes m, executions 0 calls outcomes⟩

/-! ### The CodeAct path -/

/-- `ExtFunctionResult` for a tool call, or the pause that interrupts the script. -/
inductive ToolReturn where
  | value (json : Json)
  | runtimeError (message : String)
  | gatePaused (pause : GatePause)

/-- The gate of the CodeAct path. -/
def codeactGate (env : DispatchEnv) (caps : List PolicyRule) (clock : ℕ → Readings) :
    BatchGate :=
  fun i m name => codeactStyle.gate env caps (clock i) m name

/-- `scripting.rs::resolve_tool_future`, after the executor has answered. -/
def resolveToolFuture (env : DispatchEnv) (serde : Serde) (call : ActionCall)
    (lease : CapabilityLease) : ToolReturn × EventKind :=
  let params_summary := summarizeParams call.action_name call.parameters
  let (result, elapsed) := env.execute call lease
  match result with
  | .ok r => (.value r.output, resultEvent env serde call r elapsed params_summary)
  | .error (.gatePaused gate_name action_name call_id _ resume_kind _ _) =>
    (.runtimeError ("execution paused by gate '" ++ gate_name ++ "'"),
      .approvalRequested action_name call_id call.parameters resume_kind.allowAlways?
        (some gate_name) params_summary)
  | .error e =>
    (.runtimeError e.display,
      .actionFailed env.step_id call.action_name call.id e.display elapsed params_summary)

/-- What the script sees of a settled call; an exhausted lease records no event. -/
def codeactSlot (env : DispatchEnv) (serde : Serde) (call : ActionCall) :
    Settled → ToolReturn × List EventKind
  | .noLease =>
    let error := "no lease for action '" ++ call.action_name ++ "'"
    (.runtimeError error, [env.failedEvent call error])
  | .denied reason => (.runtimeError ("denied: " ++ reason), [env.failedEvent call reason])
  | .notConsumed e => (.runtimeError ("lease exhausted: " ++ e.display), [])
  | .approved lease =>
    let (response, event) := resolveToolFuture env serde call lease
    (response, [event])

/-- `scripting.rs::preflight_action` and the execution of the call it approves. -/
def preflightAction (env : DispatchEnv) (serde : Serde) (caps : List PolicyRule)
    (clock : ℕ → Readings) (call : ActionCall) (leases : LeaseManager) :
    Dispatched (ToolReturn × List EventKind) :=
  match codeactGate env caps clock 0 leases call.action_name with
  -- no error leaves this path through `?`
  | (.aborted e, m) => ⟨(.runtimeError e.display, []), m, []⟩
  | (.needsApproval, m) =>
    ⟨(.gatePaused (approvalPause call), [approvalEvent call]), m, []⟩
  | (.settled outcome, m) =>
    ⟨codeactSlot env serde call outcome, refundInterrupted env [call] [outcome] m,
      executions 0 [call] [outcome]⟩

/-! ### What a batch executes -/

/-- A call of a batch with the leases its preflight starts from. -/
structure Position where
  index : ℕ
  call : ActionCall
  leases : LeaseManager

/-- The calls of a batch, each on the leases the earlier ones leave. -/
def positions (gateAt : BatchGate) : ℕ → List ActionCall → LeaseManager → List Position
  | _, [], _ => []
  | i, call :: calls, m =>
    ⟨i, call, m⟩ :: positions gateAt (i + 1) calls (gateAt i m call.action_name).2

/-- The gate's answer at a position. -/
def Position.answer (gateAt : BatchGate) (p : Position) : Gate :=
  (gateAt p.index p.leases p.call.action_name).1

/-- An answer that ends Phase 1. -/
def Gate.interrupts : Gate → Bool
  | .settled _ => false
  | .needsApproval => true
  | .aborted _ => true

theorem le_index_of_mem_positions {gateAt : BatchGate} {i : ℕ} {calls : List ActionCall}
    {m : LeaseManager} {p : Position} (hp : p ∈ positions gateAt i calls m) : i ≤ p.index := by
  induction calls generalizing i m with
  | nil => simp [positions] at hp
  | cons call calls ih =>
    rcases List.mem_cons.mp hp with rfl | hp
    · exact le_rfl
    · exact (Nat.le_succ i).trans (ih hp)

/-- Phase 1 goes through exactly when no position interrupts it. -/
theorem preflightAll_ready_iff {gateAt : BatchGate} {i : ℕ} {calls : List ActionCall}
    {m : LeaseManager} : (∃ outcomes m', preflightAll gateAt i calls m = .ready outcomes m') ↔
      ∀ p ∈ positions gateAt i calls m, (p.answer gateAt).interrupts = false := by
  induction calls generalizing i m with
  | nil => simp [preflightAll, positions]
  | cons call calls ih =>
    rcases hg : gateAt i m call.action_name with ⟨g, m1⟩
    have hpos : positions gateAt i (call :: calls) m =
        ⟨i, call, m⟩ :: positions gateAt (i + 1) calls m1 := by simp [positions, hg]
    have hhead : Position.answer gateAt ⟨i, call, m⟩ = g := by simp [Position.answer, hg]
    rw [hpos, List.forall_mem_cons, hhead, preflightAll, hg]
    cases g with
    | settled outcome =>
      rw [← ih (m := m1)]
      simp only [Gate.interrupts, true_and]
      cases preflightAll gateAt (i + 1) calls m1 <;> simp [Phase1.cons]
    | needsApproval => simp [Gate.interrupts]
    | aborted e => simp [Gate.interrupts]

theorem le_index_of_mem_executions {i : ℕ} {calls : List ActionCall}
    {outcomes : List Settled} {x : Execution} (hx : x ∈ executions i calls outcomes) :
    i ≤ x.index := by
  induction calls generalizing i outcomes with
  | nil => simp [executions] at hx
  | cons call calls ih =>
    cases outcomes with
    | nil => simp [executions] at hx
    | cons outcome outcomes =>
      cases outcome with
      | approved lease =>
        rcases List.mem_cons.mp hx with rfl | hx
        · exact le_rfl
        · exact (Nat.le_succ i).trans (ih hx)
      | noLease => exact (Nat.le_succ i).trans (ih hx)
      | denied reason => exact (Nat.le_succ i).trans (ih hx)
      | notConsumed e => exact (Nat.le_succ i).trans (ih hx)

/-- The first outcome decides whether the first index is executed, and only that. -/
private theorem mem_executions_cons {i j : ℕ} {call : ActionCall} {calls : List ActionCall}
    {outcome : Settled} {outcomes : List Settled} (hj : i ≤ j) :
    (∃ x ∈ executions i (call :: calls) (outcome :: outcomes), x.index = j) ↔
      if j = i then (Gate.settled outcome).verdict = .allow
      else ∃ x ∈ executions (i + 1) calls outcomes, x.index = j := by
  have hne : j = i → ¬∃ x ∈ executions (i + 1) calls outcomes, x.index = j := by
    rintro rfl ⟨x, hx, hxj⟩
    have := le_index_of_mem_executions hx
    omega
  cases outcome with
  | approved lease =>
    by_cases h : j = i
    · simp [executions, h, Gate.verdict]
    · simp [executions, h, Ne.symm h]
  | noLease => by_cases h : j = i <;> simp_all [executions, Gate.verdict]
  | denied reason => by_cases h : j = i <;> simp_all [executions, Gate.verdict]
  | notConsumed e => by_cases h : j = i <;> simp_all [executions, Gate.verdict]

/-- **What a batch executes.** Once Phase 1 is through, the executor sees exactly the
positions the gate allowed. -/
theorem mem_executions_iff {gateAt : BatchGate} {i : ℕ} {calls : List ActionCall}
    {m m' : LeaseManager} {outcomes : List Settled}
    (h : preflightAll gateAt i calls m = .ready outcomes m') {p : Position}
    (hp : p ∈ positions gateAt i calls m) :
    (∃ x ∈ executions i calls outcomes, x.index = p.index) ↔
      (p.answer gateAt).verdict = .allow := by
  induction calls generalizing i m outcomes with
  | nil => simp [positions] at hp
  | cons call calls ih =>
    rcases hg : gateAt i m call.action_name with ⟨g, m1⟩
    cases g with
    | needsApproval => simp [preflightAll, hg] at h
    | aborted e => simp [preflightAll, hg] at h
    | settled outcome =>
      cases hrest : preflightAll gateAt (i + 1) calls m1 with
      | paused before c m2 => simp [preflightAll, hg, hrest, Phase1.cons] at h
      | aborted e m2 => simp [preflightAll, hg, hrest, Phase1.cons] at h
      | ready outs m2 =>
        obtain ⟨rfl, rfl⟩ : outcome :: outs = outcomes ∧ m2 = m' := by
          simpa [preflightAll, hg, hrest, Phase1.cons] using h
        rw [mem_executions_cons (le_index_of_mem_positions hp)]
        simp only [positions, hg, List.mem_cons] at hp
        rcases hp with rfl | hp
        · simp [Position.answer, hg]
        · have hlt := le_index_of_mem_positions hp
          rw [if_neg (by omega), ih hrest hp]

end T3Claw
