import T3Claw.Jobs.Scheduler

/-!
# Self-repair of stuck jobs

`agent/self_repair.rs`. `detect_stuck_jobs` takes a snapshot of each stuck job (`StuckJob`), and
`repair_stuck_job` goes on from a snapshot, whatever has happened to the job since. Any number of
calls are under way at once: each section of a detection under the context lock is a step
(`SelfRepair.detect`), a repair is a single one (`SelfRepair.repair`).
-/

namespace T3Claw.Jobs

/-- A job that has been detected as stuck; the duration is in whole seconds. -/
structure StuckJob where
  job_id : JobId
  last_activity : Time
  stuck_duration : ℤ
  repair_attempts : ℕ
  deriving DecidableEq

/-- Result of a repair attempt. -/
inductive RepairResult where
  | success (message : String)
  | retry (message : String)
  | manualRequired (message : String)
  | error (job_id : JobId) (reason : JobError)

/-- `DefaultSelfRepair`; the threshold is a `Duration` in nanoseconds. -/
structure RepairConfig where
  stuck_threshold : ℕ
  max_repair_attempts : ℕ

/-- Back to `InProgress`, from `InProgress` by way of `Stuck`. -/
def recoverClosure (now : Time) (ctx : JobContext) : Except String Unit × JobContext :=
  if ctx.state = .inProgress then
    match ctx.transitionTo now .stuck (some "exceeded stuck_threshold") with
    | .error e => (.error e, ctx)
    | .ok ctx =>
      match ctx.attemptRecovery now with
      | .error e => (.error e, ctx)
      | .ok ctx => (.ok (), ctx)
  else
    match ctx.attemptRecovery now with
    | .error e => (.error e, ctx)
    | .ok ctx => (.ok (), ctx)

/-- `repair_stuck_job`. -/
def repairStuckJob (config : RepairConfig) (m : ContextManager) (now : Time) (job : StuckJob) :
    RepairResult × ContextManager :=
  if config.max_repair_attempts ≤ job.repair_attempts then
    let limit := toString config.max_repair_attempts
    let (result, m) := m.updateContext job.job_id
      (transitionClosure now .failed (some ("exceeded max repair attempts (" ++ limit ++ ")")))
    let status :=
      match result with
      | .ok (.ok ()) => "and has been marked failed"
      | _ => "but could not be marked failed (will be suppressed by dedup)"
    (.manualRequired ("Job " ++ uuidText job.job_id.uuid ++
      " has exceeded maximum repair attempts (" ++ limit ++ ") " ++ status), m)
  else
    match m.updateContext job.job_id (recoverClosure now) with
    | (.ok (.ok ()), m) =>
      (.success ("Job " ++ uuidText job.job_id.uuid ++ " recovered and will be retried"), m)
    | (.ok (.error e), m) => (.retry ("Recovery attempt failed: " ++ e), m)
    | (.error e, m) => (.error job.job_id e, m)

/-- The snapshot of a job, when it has been stuck for long enough. -/
def snapshot (config : RepairConfig) (now : Time) (just_transitioned : Bool) (ctx : JobContext) :
    Option StuckJob :=
  let stuck_since := (ctx.transitions.reverse.find? fun t => t.dst = .stuck).map
    StateTransition.timestamp
  let stuck_duration :=
    match stuck_since with
    | some ts => max ((now - ts).tdiv SECOND) 0
    | none => 0
  if !just_transitioned && decide (stuck_duration * SECOND < config.stuck_threshold) then none
  else
    some ⟨ctx.job_id, stuck_since.getD ctx.created_at, stuck_duration, ctx.repair_attempts⟩

/-- Where a call of `detect_stuck_jobs` is. -/
inductive DetectPhase where
  /-- There is no such call. -/
  | idle
  /-- Before the first look at the next job. -/
  | looking (stuck_ids : List JobId) (stuck_jobs : List StuckJob)
  /-- The job was in progress. -/
  | marking (job_id : JobId) (stuck_ids : List JobId) (stuck_jobs : List StuckJob)
  /-- Before the second look at the job. -/
  | refetching (job_id : JobId) (just_transitioned : Bool) (stuck_ids : List JobId)
      (stuck_jobs : List StuckJob)

/-- The calls of `detect_stuck_jobs` under way, the snapshots they have returned, and the jobs
that `repair_stuck_job` has recovered. -/
structure SelfRepair where
  detections : ℕ → DetectPhase
  detected : List StuckJob
  recovered : List JobId

/-- The next section of a call of `detect_stuck_jobs`; the snapshots when it returns. -/
def detectStuckJobs (config : RepairConfig) (m : ContextManager) (now : Time) :
    DetectPhase → DetectPhase × List StuckJob × ContextManager
  | .idle =>
    (.looking (m.findStuckJobsWithThreshold now (some config.stuck_threshold)) [], [], m)
  | .looking [] stuck_jobs => (.idle, stuck_jobs, m)
  | .looking (job_id :: stuck_ids) stuck_jobs =>
    match (m.getContext job_id).map JobContext.state with
    | .ok .stuck => (.refetching job_id false stuck_ids stuck_jobs, [], m)
    | .ok .inProgress => (.marking job_id stuck_ids stuck_jobs, [], m)
    | _ => (.looking stuck_ids stuck_jobs, [], m)
  | .marking job_id stuck_ids stuck_jobs =>
    match m.updateContext job_id
        (transitionClosure now .stuck (some "exceeded stuck_threshold")) with
    | (.ok (.ok ()), m) => (.refetching job_id true stuck_ids stuck_jobs, [], m)
    | (_, m) => (.looking stuck_ids stuck_jobs, [], m)
  | .refetching job_id just_transitioned stuck_ids stuck_jobs =>
    match m.getContext job_id with
    | .ok ctx =>
      (.looking stuck_ids (stuck_jobs ++ (snapshot config now just_transitioned ctx).toList), [], m)
    | .error _ => (.looking stuck_ids stuck_jobs, [], m)

namespace SelfRepair

/-- The next section of the call `call` of `detect_stuck_jobs`. -/
def detect (config : RepairConfig) (m : ContextManager) (call : ℕ) (now : Time) (r : SelfRepair) :
    SelfRepair × ContextManager :=
  let (phase, stuck_jobs, m) := detectStuckJobs config m now (r.detections call)
  ({ r with
      detections := Function.update r.detections call phase
      detected := r.detected ++ stuck_jobs }, m)

/-- A call of `repair_stuck_job`. -/
def repair (config : RepairConfig) (m : ContextManager) (job : StuckJob) (now : Time)
    (r : SelfRepair) : SelfRepair × ContextManager :=
  match repairStuckJob config m now job with
  | (.success _, m) => ({ r with recovered := r.recovered ++ [job.job_id] }, m)
  | (_, m) => (r, m)

end SelfRepair

end T3Claw.Jobs
