import Mathlib.Logic.Relation
import T3Claw.Jobs.Manager

/-!
# The scheduler

`agent/scheduler.rs`: dispatching a job, and how a scheduled one ends. A dispatch creates the
job's context first; persisting it and the limits of the scheduler come after, and the context
stays when one of them stops the dispatch.

Calls are taken one after the other: a dispatch is modelled as one operation. The worker of a
job changes its context through `transition_to` (`WorkerUpdate`).
-/

namespace T3Claw.Jobs

/-- What scheduling uses of `AgentConfig`. -/
structure SchedulerConfig where
  max_parallel_jobs : ℕ
  max_jobs_per_user : Option ℕ
  max_tokens_per_job : ℕ

/-- `ScheduledJob`. -/
structure ScheduledJob where
  job_id : JobId
  /-- `handle.is_finished()`. -/
  finished : Bool

/-- `Scheduler`. -/
structure Scheduler where
  context_manager : ContextManager
  jobs : KeyedStore JobId ScheduledJob ScheduledJob.job_id

/-- A call of `dispatch_job`: its arguments, the id drawn for the job, the instant, and what the
store answers to `save_job` (nothing is asked of an absent store). -/
structure Dispatch where
  job_id : JobId
  user_id : String
  title : String
  description : String
  metadata : Option Json
  approval_context : Option ApprovalContext
  now : Time
  save_job : Except String Unit

/-- The token budget of the job. -/
def Dispatch.maxTokens (config : SchedulerConfig) (d : Dispatch) : ℕ :=
  match (d.metadata.bind fun m => m.get? "max_tokens").bind Json.asU64? with
  | some user_val =>
    if config.max_tokens_per_job = 0 then user_val else min user_val config.max_tokens_per_job
  | none => config.max_tokens_per_job

/-- Metadata, token budget and approval context in one closure. -/
def Dispatch.update (config : SchedulerConfig) (d : Dispatch) (ctx : JobContext) : JobContext :=
  { ctx with
    metadata := d.metadata.getD ctx.metadata
    max_tokens := if 0 < d.maxTokens config then d.maxTokens config else ctx.max_tokens
    approval_context := d.approval_context.or ctx.approval_context }

/-- The context to save, updated when there is something to update. -/
def Dispatch.context (config : SchedulerConfig) (d : Dispatch) (m : ContextManager) :
    Except JobError JobContext × ContextManager :=
  let needs_update :=
    d.metadata.isSome || decide (0 < d.maxTokens config) || d.approval_context.isSome
  if needs_update then m.updateContextAndGet d.job_id (d.update config)
  else (m.getContext d.job_id, m)

namespace Scheduler

/-- `new`, on a new context manager. -/
def new (max_jobs : ℕ) : Scheduler := ⟨.new max_jobs, .empty⟩

/-- The per-user limit, when it is configured and the job has a context. -/
def overUserLimit (config : SchedulerConfig) (s : Scheduler) (job_id : JobId) : Option ℕ :=
  match config.max_jobs_per_user, s.context_manager.getContext job_id with
  | some max_per_user, .ok ctx =>
    if max_per_user ≤ s.context_manager.parallelBlockingCountFor ctx.user_id then
      some max_per_user
    else none
  | _, _ => none

/-- Schedule a job with an optional approval context. -/
def scheduleWithContext (config : SchedulerConfig) (s : Scheduler) (job_id : JobId) (now : Time) :
    Except JobError Unit × Scheduler :=
  if (s.jobs.get? job_id).isSome then (.ok (), s)
  else if config.max_parallel_jobs ≤ s.jobs.values.length then
    (.error (.maxJobsExceeded config.max_parallel_jobs), s)
  else
    match s.overUserLimit config job_id with
    | some max_per_user => (.error (.maxJobsExceeded max_per_user), s)
    | none =>
      match s.context_manager.updateContext job_id
          (transitionClosure now .inProgress (some "Scheduled for execution")) with
      | (.error e, context_manager) => (.error e, { s with context_manager })
      | (.ok (.error reason), context_manager) =>
        (.error (.contextError job_id reason), { s with context_manager })
      | (.ok (.ok ()), context_manager) =>
        (.ok (), ⟨context_manager, s.jobs.insert ⟨job_id, false⟩⟩)

/-- `dispatch_job_inner`. -/
def dispatchJob (config : SchedulerConfig) (s : Scheduler) (d : Dispatch) :
    Except JobError JobId × Scheduler :=
  match s.context_manager.createJobForUser d.job_id d.user_id d.title d.description d.now with
  | (.error e, context_manager) => (.error e, { s with context_manager })
  | (.ok (), context_manager) =>
    match d.context config context_manager, d.save_job with
    | (.error e, context_manager), _ => (.error e, { s with context_manager })
    | (.ok _, context_manager), .error e =>
      (.error (.failed d.job_id ("failed to persist job: " ++ e)), { s with context_manager })
    | (.ok _, context_manager), .ok () =>
      match scheduleWithContext config { s with context_manager } d.job_id d.now with
      | (.error e, s) => (.error e, s)
      | (.ok (), s) => (.ok d.job_id, s)

/-- Stop a running job. -/
def stop (s : Scheduler) (job_id : JobId) (now : Time) : Except JobError Unit × Scheduler :=
  if (s.jobs.get? job_id).isSome then
    let jobs := s.jobs.retain fun j => j.job_id ≠ job_id
    match s.context_manager.updateContext job_id
        (transitionClosure now .cancelled (some "Stopped by scheduler")) with
    | (.error e, context_manager) => (.error e, ⟨context_manager, jobs⟩)
    | (.ok _, context_manager) => (.ok (), ⟨context_manager, jobs⟩)
  else (.ok (), s)

/-- The worker of a job returns. -/
def workerReturns (s : Scheduler) (job_id : JobId) : Scheduler :=
  { s with jobs := s.jobs.modify job_id (fun j => { j with finished := true }) fun _ => rfl }

/-- The cleanup task of a job, which has found its worker returned. -/
def cleanup (s : Scheduler) (job_id : JobId) : Scheduler :=
  { s with jobs := s.jobs.retain fun j => !(j.job_id = job_id && j.finished) }

/-- Clean up finished jobs. -/
def cleanupFinished (s : Scheduler) : Scheduler :=
  { s with jobs := s.jobs.retain fun j => !j.finished }

end Scheduler

/-- A change of a context that leaves what `transition_to` writes as it is. -/
structure SameRecord (ctx ctx' : JobContext) : Prop where
  job_id : ctx'.job_id = ctx.job_id
  user_id : ctx'.user_id = ctx.user_id
  state : ctx'.state = ctx.state
  started_at : ctx'.started_at = ctx.started_at
  repair_attempts : ctx'.repair_attempts = ctx.repair_attempts
  transitions : ctx'.transitions = ctx.transitions

/-- State is changed through `transition_to` only. -/
def ByTransitions : JobContext → JobContext → Prop :=
  Relation.ReflTransGen fun ctx ctx' => SameRecord ctx ctx' ∨
    ∃ now new_state reason, ctx.transitionTo now new_state reason = .ok ctx'

/-- An update by a worker. -/
structure WorkerUpdate where
  apply : JobContext → JobContext
  by_transitions : ∀ ctx, ByTransitions ctx (apply ctx)

/-- The usual update, one transition whose error is logged. -/
def WorkerUpdate.transition (now : Time) (new_state : JobState) (reason : Option String) :
    WorkerUpdate where
  apply ctx := (transitionClosure now new_state reason ctx).2
  by_transitions ctx := by
    rw [transitionClosure]
    cases h : ctx.transitionTo now new_state reason with
    | error e => exact .refl
    | ok ctx' => exact .single (.inr ⟨now, new_state, reason, h⟩)

end T3Claw.Jobs
