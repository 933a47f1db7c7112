import T3Claw.Data.KeyedStore
import T3Claw.Jobs.State

/-!
# The context manager

`context/manager.rs`. The contexts stand behind one lock, and each function here is one section
under it. A job is let in when fewer than `max_jobs` contexts take up a slot; there is no later
check, as no update leads back into a slot (`updateContext_parallelCount_le`).
-/

namespace T3Claw.Jobs

inductive JobError where
  | notFound (id : JobId)
  | failed (id : JobId) (reason : String)
  | maxJobsExceeded (max : ℕ)
  | contextError (id : JobId) (reason : String)

/-- `ContextManager`. -/
structure ContextManager where
  contexts : KeyedStore JobId JobContext JobContext.job_id
  max_jobs : ℕ

namespace ContextManager

/-- Create a new context manager. -/
def new (max_jobs : ℕ) : ContextManager := ⟨.empty, max_jobs⟩

/-- The contexts that take up a slot. -/
def parallelCount (m : ContextManager) : ℕ :=
  m.contexts.values.countP fun c => c.state.isParallelBlocking

/-- Check max_jobs limit and insert context. -/
def insertContext (m : ContextManager) (context : JobContext) :
    Except JobError Unit × ContextManager :=
  if m.max_jobs ≤ m.parallelCount then (.error (.maxJobsExceeded m.max_jobs), m)
  else (.ok (), { m with contexts := m.contexts.insert context })

/-- Create a new job context for a specific user, under the id drawn for it. -/
def createJobForUser (m : ContextManager) (job_id : JobId) (user_id title description : String)
    (now : Time) : Except JobError Unit × ContextManager :=
  m.insertContext (.withUser job_id user_id title description now)

/-- Register a sandbox job with a pre-determined ID. -/
def registerSandboxJob (m : ContextManager) (job_id : JobId)
    (user_id title description : String) (now : Time) : Except JobError Unit × ContextManager :=
  m.insertContext
    { JobContext.withUser job_id user_id title description now with
      state := .inProgress
      started_at := some now }

/-- Get a job context by ID. -/
def getContext (m : ContextManager) (job_id : JobId) : Except JobError JobContext :=
  match m.contexts.get? job_id with
  | some context => .ok context
  | none => .error (.notFound job_id)

/-- Get a mutable reference to update a job context. -/
def updateContext {R : Type} (m : ContextManager) (job_id : JobId)
    (f : JobContext → R × JobContext) : Except JobError R × ContextManager :=
  match m.contexts.get? job_id with
  | some context => (.ok (f context).1, { m with contexts := m.contexts.insert (f context).2 })
  | none => (.error (.notFound job_id), m)

/-- Atomically update a job context and return the updated context. -/
def updateContextAndGet (m : ContextManager) (job_id : JobId) (f : JobContext → JobContext) :
    Except JobError JobContext × ContextManager :=
  m.updateContext job_id fun context => (f context, f context)

/-- Count jobs consuming a parallel execution slot for a specific user. -/
def parallelBlockingCountFor (m : ContextManager) (user_id : String) : ℕ :=
  m.contexts.values.countP fun c => c.isOwnedBy user_id && c.state.isParallelBlocking

/-- Remove a completed job. -/
def removeJob (m : ContextManager) (job_id : JobId) : Except JobError JobContext × ContextManager :=
  match m.contexts.get? job_id with
  | some context =>
    (.ok context, { m with contexts := m.contexts.retain fun c => c.job_id ≠ job_id })
  | none => (.error (.notFound job_id), m)

/-- Find stuck jobs: those in `Stuck`, and those in progress for longer than the threshold, a
`Duration` in nanoseconds; whole seconds are compared. -/
def findStuckJobsWithThreshold (m : ContextManager) (now : Time)
    (elapsed_threshold : Option ℕ) : List JobId :=
  (m.contexts.values.filter fun c =>
    if c.state = .stuck then true
    else
      match c.state, elapsed_threshold, c.started_at with
      | .inProgress, some threshold, some started =>
        decide ((threshold : ℤ) / SECOND < max ((now - started).tdiv SECOND) 0)
      | _, _, _ => false).map JobContext.job_id

end ContextManager

/-- The closure of an update that makes a transition. -/
def transitionClosure (now : Time) (new_state : JobState) (reason : Option String)
    (ctx : JobContext) : Except String Unit × JobContext :=
  match ctx.transitionTo now new_state reason with
  | .ok ctx' => (.ok (), ctx')
  | .error e => (.error e, ctx)

end T3Claw.Jobs
