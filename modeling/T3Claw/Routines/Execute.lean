import T3Claw.Routines.Engine

/-!
# Executing a routine

`execute_routine` and what it calls. The shared counter is raised before the work and lowered
after it; then the run is completed and the routine's runtime fields are written from the copy
of the routine that the execution was given. A full job is dispatched, linked to the run and
watched until it leaves its slot, for a day at most.

`complete_dispatched_run` writes the same fields for a run whose process is gone, from a copy it
has just read; `sync_dispatched_runs` finds these runs. Messages to the conversation of the
routine and notifications follow in the source and are left out.
-/

namespace T3Claw.Routines

open T3Claw.Jobs (JobId JobState)

/-- What an execution gives. -/
structure Execution where
  status : RunStatus
  summary : Option String
  tokens : Option ℤ

/-! ### The runtime fields -/

/-- The next fire of a cron trigger, at the clock. -/
def nextFire (h : Engine) (trigger : Trigger) : EngineProg (Option Time) :=
  match trigger with
  | .cron schedule timezone => do
    let now ← EngineInstr.utcNow.act
    match nextCronFire h.crates schedule timezone now with
    | .ok next => pure next
    | .error _ => pure none
  | _ => pure none

/-- The failures in a row after a run. -/
def newFailures (routine : Routine) (status : RunStatus) : ℕ :=
  if status = .failed then routine.consecutive_failures + 1 else 0

/-- Write the runtime fields from a copy of the routine, and tell the cache. -/
def updateRuntime (h : Engine) (routine : Routine) (status : RunStatus) : EngineProg Unit := do
  let now ← EngineInstr.utcNow.act
  let state := applyRoutineVerificationResult h.crates routine.state
    (routineVerificationFingerprint h.crates routine) status now
  let next_fire ← nextFire h routine.trigger
  let new_failures := newFailures routine status
  match ← (EngineInstr.updateRoutineRuntime routine now next_fire (routine.run_count + 1)
    new_failures state).act with
  | .error _ => pure ()
  | .ok () =>
    if routine.trigger.usesEventCache then
      (EngineInstr.updateCachedEventRuntime routine.id now (routine.run_count + 1)
        new_failures).act
    else pure ()

/-- The steps of a runtime update from a copy of the routine. -/
def ofRuntime (routine : Routine) : EngineInstr → Prop
  | .utcNow | .updateCachedEventRuntime .. => True
  | .updateRoutineRuntime copy .. => copy = routine
  | _ => False

theorem obeys_nextFire (h : Engine) (routine : Routine) (trigger : Trigger) :
    (nextFire h trigger).Obeys (fun _ _ => True) (ofRuntime routine) fun _ => True := by
  unfold nextFire
  split
  · refine EngineInstr.obeys_bind trivial fun now _ => ?_
    split <;> trivial
  · trivial

theorem obeys_updateRuntime (h : Engine) (routine : Routine) (status : RunStatus) :
    (updateRuntime h routine status).Obeys (fun _ _ => True) (ofRuntime routine)
      fun _ => True := by
  refine EngineInstr.obeys_bind trivial fun now _ => ?_
  refine Conc.Prog.Obeys.bind (obeys_nextFire h routine routine.trigger) fun next _ => ?_
  refine EngineInstr.obeys_bind rfl fun result _ => ?_
  rcases result with e | _
  · trivial
  · dsimp only
    split
    · exact ⟨trivial, fun _ _ => trivial⟩
    · trivial

/-! ### Full jobs -/

def MAX_POLLS : ℕ := 24 * 60 * 60 / 5

/-- `FullJobWatcher::map_job_state`. -/
def mapJobState : JobState → RunStatus
  | .failed | .cancelled => .failed
  | _ => .ok

/-- `FullJobWatcher::wait_for_completion`: the polls that are left. -/
def waitForCompletion (job_id : JobId) : ℕ → EngineProg RunStatus
  | 0 => pure .failed
  | polls + 1 => do
    match ← (EngineInstr.getJob job_id).act with
    | .error _ => pure .failed
    | .ok none => pure .failed
    | .ok (some job) =>
      if !job.state.isParallelBlocking then pure (mapJobState job.state)
      else waitForCompletion job_id polls

/-- `execute_full_job`. -/
def executeFullJob (h : Engine) (routine : Routine) (run : RoutineRun)
    (title description : String) : EngineProg (Except RoutineError Execution) :=
  if h.sandbox_readiness = .dockerUnavailable then
    pure (.error (.jobDispatchFailed ("Sandbox is enabled but Docker is not available. " ++
      "Install Docker or set SANDBOX_ENABLED=false.")))
  else if !h.scheduler then pure (.error (.jobDispatchFailed "scheduler not available"))
  else do
    let contextualized := "IMPORTANT: You are executing inside routine \"" ++ routine.name ++
      "\". The routine and its schedule are already configured. Tools and credentials are " ++
      "already set up. Do NOT create routines, jobs, or try to " ++
      "discover/install/authenticate tools. Execute the task directly.\n\n" ++ description
    match ← (EngineInstr.dispatchJob routine.user_id title contextualized).act with
    | .error e => pure (.error (.jobDispatchFailed ("failed to dispatch job: " ++ e)))
    | .ok job_id =>
      match ← (EngineInstr.linkRoutineRunToJob run.id job_id).act with
      | .error e => pure (.error (.database ("failed to link run to job: " ++ e)))
      | .ok () =>
        let status ← waitForCompletion job_id MAX_POLLS
        let summary := "Job " ++ uuidText job_id.uuid ++ " finished (" ++ status.display ++ ")"
        pure (.ok ⟨status, some summary, none⟩)

/-! ### Attempts -/

/-- `i32::saturating_add`. -/
def saturatingAddI32 (a b : ℤ) : ℤ := max (-2 ^ 31) (min (2 ^ 31 - 1) (a + b))

/-- `execute_routine::accumulate`. -/
def accumulate : Option ℤ → Option ℤ → Option ℤ
  | some a, some p => some (saturatingAddI32 a p)
  | some a, none => some a
  | none, p => p

/-- A lightweight execution. -/
def executeLightweight (routine : Routine) : EngineProg (Except RoutineError Execution) := do
  match ← (EngineInstr.executeLightweight routine).act with
  | .error e => pure (.error e)
  | .ok (.ok tokens) => pure (.ok ⟨.ok, none, tokens⟩)
  | .ok (.attention content tokens) => pure (.ok ⟨.attention, some content, tokens⟩)

/-- One attempt at the action. -/
def executeAction (h : Engine) (routine : Routine) (run : RoutineRun) :
    EngineProg (Except RoutineError Execution) :=
  match routine.action with
  | .lightweight .. => executeLightweight routine
  | .fullJob title description _ => executeFullJob h routine run title description

def MAX_RETRIES : ℕ := 2

/-- Whether a failed attempt is made again. -/
def retries (h : Engine) (routine : Routine) (e : RoutineError) : Bool :=
  match routine.action, e with
  | .lightweight _ _ _ use_tools _, e =>
    !(use_tools && h.config.lightweight_tools_enabled) && e.isRetryable &&
      match e with
      | .llmFailed .. => false
      | _ => true
  | .fullJob .., _ => false

/-- The attempts, with the retries that are left and the tokens so far. -/
def attempts (h : Engine) (routine : Routine) (run : RoutineRun) :
    ℕ → Option ℤ → EngineProg (Except RoutineError Execution × Option ℤ)
  | left, tokens => do
    match ← executeAction h routine run with
    | .ok execution =>
      pure (.ok { execution with tokens := accumulate tokens execution.tokens }, tokens)
    | .error e =>
      let tokens := accumulate tokens e.extractPartialTokens
      match left with
      | left + 1 =>
        if retries h routine e then attempts h routine run left tokens
        else pure (.error e, tokens)
      | 0 => pure (.error e, tokens)

/-- What is recorded of an execution. -/
def Execution.ofResult : Except RoutineError Execution × Option ℤ → Execution
  | (.ok execution, _) => execution
  | (.error e, tokens) => ⟨.failed, some e.display, tokens⟩

/-- The steps of the work itself. -/
def ofWork : EngineInstr → Prop
  | .getJob _ | .executeLightweight _ | .dispatchJob .. | .linkRoutineRunToJob .. => True
  | _ => False

/-- A finished state is one. -/
theorem mapJobState_ne_running (state : JobState) : mapJobState state ≠ .running := by
  cases state <;> decide

theorem obeys_waitForCompletion (job_id : JobId) (polls : ℕ) :
    (waitForCompletion job_id polls).Obeys (fun _ _ => True) ofWork
      fun status => status ≠ .running := by
  have hfailed : RunStatus.failed ≠ .running := by decide
  induction polls with
  | zero => exact hfailed
  | succ polls ih =>
    refine EngineInstr.obeys_bind trivial fun row _ => ?_
    rcases row with e | _ | job
    · exact hfailed
    · exact hfailed
    · dsimp only
      split
      · exact mapJobState_ne_running job.state
      · exact ih

/-- What is recorded of a result is not that the run goes on. -/
def Over (result : Except RoutineError Execution) : Prop :=
  ∀ execution, result = .ok execution → execution.status ≠ .running

theorem over_error {e : RoutineError} : Over (.error e) := fun _ h => (nomatch h)

theorem over_ok {execution : Execution} (h : execution.status ≠ .running) :
    Over (.ok execution) := fun _ heq => Except.ok.inj heq ▸ h

theorem obeys_executeFullJob (h : Engine) (routine : Routine) (run : RoutineRun)
    (title description : String) :
    (executeFullJob h routine run title description).Obeys (fun _ _ => True) ofWork Over := by
  unfold executeFullJob
  split
  · exact over_error
  · split
    · exact over_error
    · refine EngineInstr.obeys_bind trivial fun job _ => ?_
      rcases job with e | job_id
      · exact over_error
      · refine EngineInstr.obeys_bind trivial fun linked _ => ?_
        rcases linked with e | _
        · exact over_error
        · exact Conc.Prog.Obeys.bind (obeys_waitForCompletion job_id MAX_POLLS)
            fun status hstatus => over_ok hstatus

theorem obeys_executeAction (h : Engine) (routine : Routine) (run : RoutineRun) :
    (executeAction h routine run).Obeys (fun _ _ => True) ofWork Over := by
  unfold executeAction
  split
  · refine EngineInstr.obeys_bind trivial fun reply _ => ?_
    rcases reply with e | tokens | content
    · exact over_error
    · exact over_ok (by decide : RunStatus.ok ≠ .running)
    · exact over_ok (by decide : RunStatus.attention ≠ .running)
  · exact obeys_executeFullJob h routine run _ _

/-- **The attempts take steps of the work only, and end.** -/
theorem obeys_attempts (h : Engine) (routine : Routine) (run : RoutineRun) (left : ℕ)
    (tokens : Option ℤ) :
    (attempts h routine run left tokens).Obeys (fun _ _ => True) ofWork
      fun result => (Execution.ofResult result).status ≠ .running := by
  have hfailed : RunStatus.failed ≠ .running := by decide
  induction left generalizing tokens with
  | zero =>
    unfold attempts
    refine Conc.Prog.Obeys.bind (obeys_executeAction h routine run) fun result hover => ?_
    rcases result with e | execution
    · exact hfailed
    · exact hover execution rfl
  | succ left ih =>
    unfold attempts
    refine Conc.Prog.Obeys.bind (obeys_executeAction h routine run) fun result hover => ?_
    rcases result with e | execution
    · dsimp only
      split
      · exact ih _
      · exact hfailed
    · exact hover execution rfl

/-- `execute_routine`. -/
def executeRoutine (h : Engine) (routine : Routine) (run : RoutineRun) (checks : Checks) :
    EngineProg Unit := do
  (EngineInstr.fetchAdd run checks).act
  let result ← attempts h routine run MAX_RETRIES none
  (EngineInstr.fetchSub run).act
  let execution := Execution.ofResult result
  let _ ← (EngineInstr.completeRoutineRun run execution.status execution.summary
    execution.tokens).act
  updateRuntime h routine execution.status

/-! ### Recovery -/

/-- `complete_dispatched_run`. -/
def completeDispatchedRun (h : Engine) (run : RoutineRun) (status : RunStatus)
    (summary : String) : EngineProg Unit := do
  match ← (EngineInstr.completeRoutineRun run status (some summary) none).act with
  | .error _ => pure ()
  | .ok () =>
    match ← (EngineInstr.getRoutine run.routine_id).act with
    | .error _ => pure ()
    | .ok none => pure ()
    | .ok (some routine) => updateRuntime h routine status

/-- The final status of a run whose job is in this state, `none` while it is active. -/
def finalStatus : JobState → Option RunStatus
  | .completed | .submitted | .accepted => some .ok
  | .failed | .cancelled => some .failed
  | .pending | .inProgress | .stuck => none

/-- `sync_dispatched_runs`, a run whose job has been looked up. -/
def syncWithJob (h : Engine) (run : RoutineRun) (job_id : JobId) :
    Option AgentJob → EngineProg Unit
  | none =>
    completeDispatchedRun h run .failed
      ("Linked job " ++ uuidText job_id.uuid ++ " not found (orphaned)")
  | some job =>
    match finalStatus job.state with
    | none => pure ()
    | some status => do
      let name := "Job " ++ uuidText job_id.uuid
      if status = .failed then
        match ← (EngineInstr.getAgentJobFailureReason job_id).act with
        | .ok (some reason) => completeDispatchedRun h run status (name ++ " failed: " ++ reason)
        | _ => completeDispatchedRun h run status (name ++ " " ++ job.state.display)
      else completeDispatchedRun h run status (name ++ " completed successfully")

/-- `sync_dispatched_runs`, one orphaned run. -/
def syncDispatchedRun (h : Engine) (run : RoutineRun) : EngineProg Unit :=
  match run.job_id with
  | none => pure ()
  | some job_id => do
    match ← (EngineInstr.getJob job_id).act with
    | .error _ => pure ()
    | .ok job => syncWithJob h run job_id job

/-- `sync_dispatched_runs`, the orphaned runs in turn. -/
def syncEach (h : Engine) : List RoutineRun → EngineProg Unit
  | [] => pure ()
  | run :: rest => do
    syncDispatchedRun h run
    syncEach h rest

/-- `sync_dispatched_runs`. -/
def syncDispatchedRuns (h : Engine) : EngineProg Unit := do
  match ← EngineInstr.listDispatchedRoutineRuns.act with
  | .error _ => pure ()
  | .ok runs => syncEach h (runs.filter fun run => run.started_at < h.boot_time)

end T3Claw.Routines
