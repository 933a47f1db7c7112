import T3Claw.Conc.System
import T3Claw.Data.KeyedStore
import T3Claw.Routines.Types

/-!
# The routine engine: its state and its steps

`agent/routine_engine.rs` with the tables behind it (`history/store.rs`). Every await of the
engine, and every access to the shared counter, is one instruction; whatever else runs may act
between two of them. The environment moves the clock, answers for the model and the scheduler,
changes the jobs and may make the store fail.

A future given to `tokio::spawn` waits in `spawned` until a task takes it. The event cache is
read as a whole: the readers hold its lock while they match, so that a writer waits for them,
where here it may also go first, which only adds runs.

Two counts are kept for statements about runs and read by no code: how many runs of a routine
have been recorded (the rows of the table) and how many executions that were not started by
hand have begun (`begun`). A `Reading` carries the one that goes with it.
-/

namespace T3Claw.Routines

open Conc
open T3Claw.Jobs (JobId JobState)

/-- An answer, and beside it what had been recorded or begun when it was given. -/
structure Reading where
  value : ℕ
  seen : ℕ

/-- What a fire was admitted on: the `seen` of its concurrency check and of its capacity
check. -/
structure Checks where
  counted : ℕ
  loaded : ℕ

/-- `EventMatcher`. -/
inductive EventMatcher where
  | message (routine : Routine) (regex : String → Bool)
  | system (routine : Routine)

/-- The routine of a matcher. -/
def EventMatcher.routine : EventMatcher → Routine
  | message routine _ => routine
  | system routine => routine

/-- What `tokio::spawn` is given: `spawn_fire`'s future, which records the run and executes it,
or the one of a fire that has recorded its run already. -/
inductive Spawned where
  | fire (routine : Routine) (run : RoutineRun) (checks : Checks)
  | execute (routine : Routine) (run : RoutineRun) (checks : Checks)

namespace Spawned

def routine : Spawned → Routine
  | fire routine .. | execute routine .. => routine

def run : Spawned → RoutineRun
  | fire _ run _ | execute _ run _ => run

def checks : Spawned → Checks
  | fire _ _ checks | execute _ _ checks => checks

end Spawned

/-- What the model makes of a lightweight routine (`handle_text_response`): the sentinel, or
something to report. -/
inductive LightweightReply where
  | ok (tokens : Option ℤ)
  | attention (content : String) (tokens : Option ℤ)

/-- A row of `agent_jobs`, as far as it is read here. -/
structure AgentJob where
  state : JobState
  failure_reason : Option String

/-- `RoutineConfig`. -/
structure RoutineConfig where
  max_concurrent_routines : ℕ
  lightweight_tools_enabled : Bool

/-- `SandboxReadiness`. -/
inductive SandboxReadiness where
  | available
  | disabledByConfig
  | dockerUnavailable
  deriving DecidableEq

/-- What an engine is made with. -/
structure Engine where
  crates : Crates
  config : RoutineConfig
  scheduler : Bool
  sandbox_readiness : SandboxReadiness
  boot_time : Time

/-- The tables, the shared parts of the engine and what the environment has ready. -/
structure EngineState where
  routines : KeyedStore RoutineId Routine Routine.id
  runs : KeyedStore RunId RoutineRun RoutineRun.id
  jobs : JobId → Option AgentJob
  store_error : Option String
  running_count : ℕ
  event_cache : List EventMatcher
  spawned : List Spawned
  reply : Except RoutineError LightweightReply
  dispatched : Except String JobId
  now : Time
  drawn : ℕ
  begun : ℕ

/-- The run was not started by hand. -/
def RoutineRun.automatic (run : RoutineRun) : Bool := run.trigger_type ≠ "manual"

/-- The run is a running one of the routine. -/
def RoutineRun.runsFor (routine_id : RoutineId) (run : RoutineRun) : Bool :=
  run.routine_id = routine_id && run.status = .running

namespace EngineState

/-- `count_running_routine_runs`. -/
def running (s : EngineState) (routine_id : RoutineId) : ℕ :=
  s.runs.values.countP (RoutineRun.runsFor routine_id)

/-- The runs recorded for a routine. -/
def recorded (s : EngineState) (routine_id : RoutineId) : ℕ :=
  s.runs.values.countP fun run => run.routine_id = routine_id

end EngineState

/-- The steps between two awaits. -/
inductive EngineInstr where
  | utcNow
  | newRunId
  | loadRunningCount
  | fetchAdd (run : RoutineRun) (checks : Checks)
  | fetchSub (run : RoutineRun)
  | readEventCache
  | writeEventCache (cache : List EventMatcher)
  | updateCachedEventRuntime (routine_id : RoutineId) (last_run_at : Time)
      (run_count consecutive_failures : ℕ)
  | listEventRoutines
  | listDueCronRoutines
  | getRoutine (routine_id : RoutineId)
  | countRunning (routine_id : RoutineId)
  | countRunningBatch (routine_ids : List RoutineId)
  | createRoutineRun (run : RoutineRun) (checks : Checks)
  | linkRoutineRunToJob (run_id : RunId) (job_id : JobId)
  | completeRoutineRun (run : RoutineRun) (status : RunStatus) (summary : Option String)
      (tokens : Option ℤ)
  | listDispatchedRoutineRuns
  | updateRoutineRuntime (routine : Routine) (last_run_at : Time) (next_fire_at : Option Time)
      (run_count consecutive_failures : ℕ) (state : Json)
  | updateRoutine (original routine : Routine)
  | getJob (job_id : JobId)
  | getAgentJobFailureReason (job_id : JobId)
  | executeLightweight (routine : Routine)
  | dispatchJob (user_id title description : String)
  | spawn (future : Spawned)
  | poll (n : ℕ)

namespace EngineInstr

/-- What they answer. -/
abbrev Answer : EngineInstr → Type
  | utcNow => Time
  | newRunId => RunId
  | loadRunningCount => Reading
  | fetchAdd .. | fetchSub _ | writeEventCache _ | updateCachedEventRuntime .. | spawn _ => Unit
  | readEventCache => List EventMatcher
  | listEventRoutines | listDueCronRoutines => Except String (List Routine)
  | getRoutine _ => Except String (Option Routine)
  | countRunning _ => Except String Reading
  | countRunningBatch _ => Except String (RoutineId → Reading)
  | createRoutineRun .. | linkRoutineRunToJob .. | completeRoutineRun .. => Except String Unit
  | updateRoutineRuntime .. | updateRoutine .. => Except String Unit
  | listDispatchedRoutineRuns => Except String (List RoutineRun)
  | getJob _ => Except String (Option AgentJob)
  | getAgentJobFailureReason _ => Except String (Option String)
  | executeLightweight _ => Except RoutineError LightweightReply
  | dispatchJob .. => Except String JobId
  | poll _ => Option Spawned

end EngineInstr

/-- The code of the engine. -/
abbrev EngineProg (α : Type) : Type := Prog EngineInstr EngineInstr.Answer α

/-- One step of it. -/
def EngineInstr.act (i : EngineInstr) : EngineProg i.Answer := Prog.perform i

@[simp] theorem EngineInstr.act_bind {α : Type} (i : EngineInstr) (f : i.Answer → EngineProg α) :
    (i.act >>= f) = Prog.act i f := rfl

section

variable {α : Type} {A : (i : EngineInstr) → i.Answer → Prop} {G : EngineInstr → Prop}
  {i : EngineInstr}

/-- One step first. -/
theorem EngineInstr.obeys_bind {Q : α → Prop} {f : i.Answer → EngineProg α} (hi : G i)
    (hf : ∀ r, A i r → (f r).Obeys A G Q) : (i.act >>= f).Obeys A G Q := ⟨hi, hf⟩

end

/-! ### What a step answers and does -/

/-- A copy in the cache, told of a run. -/
def Routine.ran (routine : Routine) (last_run_at : Time) (run_count consecutive_failures : ℕ) :
    Routine :=
  { routine with last_run_at := some last_run_at, run_count, consecutive_failures }

/-- `update_cached_event_runtime`: the first matcher of the routine. -/
def updateCached (routine_id : RoutineId) (last_run_at : Time)
    (run_count consecutive_failures : ℕ) : List EventMatcher → List EventMatcher
  | [] => []
  | matcher :: rest =>
    if matcher.routine.id = routine_id then
      (match matcher with
        | .message routine regex =>
          .message (routine.ran last_run_at run_count consecutive_failures) regex
        | .system routine =>
          .system (routine.ran last_run_at run_count consecutive_failures)) :: rest
    else
      matcher :: updateCached routine_id last_run_at run_count consecutive_failures rest

/-- `list_event_routines`. -/
def Routine.listedForEvents (routine : Routine) : Bool :=
  routine.enabled && routine.trigger.usesEventCache

/-- `list_due_cron_routines`. -/
def Routine.due (now : Time) (routine : Routine) : Bool :=
  routine.enabled && routine.trigger.typeTag == "cron" &&
    routine.next_fire_at.any fun next => next ≤ now

/-- `list_dispatched_routine_runs`. -/
def RoutineRun.dispatched (run : RoutineRun) : Bool :=
  run.status = .running && run.job_id.isSome

/-- `update_routine_runtime`, one row. -/
def Routine.withRuntime (last_run_at : Time) (next_fire_at : Option Time)
    (run_count consecutive_failures : ℕ) (state : Json) (row : Routine) : Routine :=
  { row with
    last_run_at := some last_run_at, next_fire_at, run_count, consecutive_failures, state }

/-- `update_routine`, one row: the definition, the state and the next fire. -/
def Routine.edited (routine row : Routine) : Routine :=
  { row with
    name := routine.name, enabled := routine.enabled, trigger := routine.trigger
    action := routine.action, guardrails := routine.guardrails
    next_fire_at := routine.next_fire_at, state := routine.state }

/-- `link_routine_run_to_job`, one row. -/
def RoutineRun.linked (job_id : JobId) (row : RoutineRun) : RoutineRun :=
  { row with job_id := some job_id }

/-- `complete_routine_run`, one row. -/
def RoutineRun.completed (now : Time) (status : RunStatus) (summary : Option String)
    (tokens : Option ℤ) (row : RoutineRun) : RoutineRun :=
  { row with
    completed_at := some now, status, result_summary := summary, tokens_used := tokens }

@[simp] theorem Routine.id_withRuntime {last_run_at : Time} {next_fire_at : Option Time}
    {run_count consecutive_failures : ℕ} {state : Json} (row : Routine) :
    (row.withRuntime last_run_at next_fire_at run_count consecutive_failures state).id = row.id :=
  rfl

@[simp] theorem Routine.id_edited {routine : Routine} (row : Routine) :
    (routine.edited row).id = row.id := rfl

@[simp] theorem RoutineRun.id_linked {job_id : JobId} (row : RoutineRun) :
    (row.linked job_id).id = row.id := rfl

@[simp] theorem RoutineRun.id_completed {now : Time} {status : RunStatus}
    {summary : Option String} {tokens : Option ℤ} (row : RoutineRun) :
    (row.completed now status summary tokens).id = row.id := rfl

namespace EngineState

/-- A store operation: it fails while the store does. -/
def stored {α : Type} (s : EngineState) (answer : α) (s' : EngineState) :
    Except String α × EngineState :=
  match s.store_error with
  | some e => (.error e, s)
  | none => (.ok answer, s')

/-- One that only reads. -/
abbrev read {α : Type} (s : EngineState) (answer : α) : Except String α × EngineState :=
  s.stored answer s

section stored

variable {α : Type} {s s' : EngineState} {answer : α}

theorem stored_snd : (s.stored answer s').2 = s ∨ (s.stored answer s').2 = s' := by
  unfold stored
  split
  · exact .inl rfl
  · exact .inr rfl

theorem stored_self : (s.read answer).2 = s :=
  stored_snd.elim id id

/-- An answer of the store is the one it has. -/
theorem stored_eq_ok {a : α} (h : (s.stored answer s').1 = .ok a) : a = answer := by
  unfold stored at h
  split at h
  · cases h
  · exact (Except.ok.inj h).symm

end stored

/-- An `UPDATE routine_runs … WHERE id`. -/
def onRun (s : EngineState) (id : RunId) (f : RoutineRun → RoutineRun)
    (hf : ∀ row, (f row).id = row.id) : EngineState :=
  { s with runs := s.runs.modify id f hf }

/-- An `UPDATE routines … WHERE id`. -/
def onRoutine (s : EngineState) (id : RoutineId) (f : Routine → Routine)
    (hf : ∀ row, (f row).id = row.id) : EngineState :=
  { s with routines := s.routines.modify id f hf }

/-- `create_routine_run`; `id` is the key. -/
def createRun (s : EngineState) (run : RoutineRun) : Except String Unit × EngineState :=
  match s.store_error, s.runs.get? run.id with
  | some e, _ => (.error e, s)
  | none, some _ => (.error "duplicate key value violates unique constraint", s)
  | none, none => (.ok (), { s with runs := s.runs.insert run })

/-- What a step answers and does. -/
def exec : (i : EngineInstr) → EngineState → i.Answer × EngineState
  | .utcNow, s => (s.now, s)
  | .newRunId, s => (⟨s.drawn⟩, { s with drawn := s.drawn + 1 })
  | .loadRunningCount, s => (⟨s.running_count, s.begun⟩, s)
  | .fetchAdd run _, s =>
    ((), { s with
      running_count := s.running_count + 1
      begun := if run.automatic then s.begun + 1 else s.begun })
  | .fetchSub _, s => ((), { s with running_count := s.running_count - 1 })
  | .readEventCache, s => (s.event_cache, s)
  | .writeEventCache cache, s => ((), { s with event_cache := cache })
  | .updateCachedEventRuntime routine_id last_run_at run_count consecutive_failures, s =>
    ((), { s with event_cache :=
      updateCached routine_id last_run_at run_count consecutive_failures s.event_cache })
  | .listEventRoutines, s => s.read (s.routines.values.filter Routine.listedForEvents)
  | .listDueCronRoutines, s => s.read (s.routines.values.filter (Routine.due s.now))
  | .getRoutine routine_id, s => s.read (s.routines.get? routine_id)
  | .countRunning routine_id, s =>
    s.read ⟨s.running routine_id, s.recorded routine_id⟩
  | .countRunningBatch routine_ids, s =>
    s.read fun routine_id =>
      ⟨if routine_id ∈ routine_ids then s.running routine_id else 0, s.recorded routine_id⟩
  | .createRoutineRun run _, s => s.createRun run
  | .linkRoutineRunToJob run_id job_id, s =>
    s.stored () (s.onRun run_id (RoutineRun.linked job_id) RoutineRun.id_linked)
  | .completeRoutineRun run status summary tokens, s =>
    s.stored () (s.onRun run.id (RoutineRun.completed s.now status summary tokens)
      RoutineRun.id_completed)
  | .listDispatchedRoutineRuns, s => s.read (s.runs.values.filter RoutineRun.dispatched)
  | .updateRoutineRuntime routine last_run_at next_fire_at run_count failures state, s =>
    s.stored () (s.onRoutine routine.id
      (Routine.withRuntime last_run_at next_fire_at run_count failures state)
      Routine.id_withRuntime)
  | .updateRoutine _ routine, s =>
    s.stored () (s.onRoutine routine.id (Routine.edited routine) Routine.id_edited)
  | .getJob job_id, s => s.read (s.jobs job_id)
  | .getAgentJobFailureReason job_id, s => s.read ((s.jobs job_id).bind AgentJob.failure_reason)
  | .executeLightweight _, s => (s.reply, s)
  | .dispatchJob .., s => (s.dispatched, s)
  | .spawn future, s => ((), { s with spawned := s.spawned ++ [future] })
  | .poll n, s => (s.spawned[n]?, { s with spawned := s.spawned.eraseIdx n })

end EngineState

/-- What the environment does: time passes, the store starts or stops failing, a reply of the
model, an answer of the scheduler or the row of a job is what it now is. -/
inductive EngineEvent where
  | clock (nanoseconds : ℕ)
  | store (error : Option String)
  | reply (reply : Except RoutineError LightweightReply)
  | dispatched (job : Except String JobId)
  | job (job_id : JobId) (row : Option AgentJob)

def EngineEvent.happen : EngineEvent → EngineState → EngineState
  | clock nanoseconds, s => { s with now := s.now + nanoseconds }
  | store error, s => { s with store_error := error }
  | reply r, s => { s with reply := r }
  | dispatched answer, s => { s with dispatched := answer }
  | job job_id row, s => { s with jobs := Function.update s.jobs job_id row }

end T3Claw.Routines
