import T3Claw.Data.LastWrite
import T3Claw.Jobs.Scheduler

/-!
# Stopping a job

`Scheduler::stop` beside the rows of the store. The worker of the job has a moment to clean up
before it is aborted; it marks the job in memory and, when that is allowed, hands a write of the
new status to a task of its own, as `stop` does with its cancellation. Which of the writes that
are on their way lands first is open.
-/

namespace T3Claw.Jobs

/-- The scheduler, the status of each job that has a row, and the writes on their way. -/
structure PersistedScheduler where
  scheduler : Scheduler
  status : JobId → Option JobState
  in_flight : List (JobId × JobState)

/-- `update_job_status`. -/
def updateJobStatus (status : JobId → Option JobState) (write : JobId × JobState) :
    JobId → Option JobState :=
  fun job_id => if job_id = write.1 then (status job_id).map fun _ => write.2 else status job_id

namespace PersistedScheduler

/-- The context of a job. -/
def context? (s : PersistedScheduler) (job_id : JobId) : Option JobContext :=
  s.scheduler.context_manager.contexts.get? job_id

/-- The contexts are changed. -/
def withManager (s : PersistedScheduler) (context_manager : ContextManager) :
    PersistedScheduler :=
  { s with scheduler := { s.scheduler with context_manager } }

/-- `persist_status`: a write in the background. -/
def persistStatus (s : PersistedScheduler) (job_id : JobId) (status : JobState) :
    PersistedScheduler :=
  { s with in_flight := s.in_flight ++ [(job_id, status)] }

/-- One of the writes lands. -/
def land (s : PersistedScheduler) (n : ℕ) : PersistedScheduler :=
  match s.in_flight[n]? with
  | some write =>
    { s with status := updateJobStatus s.status write, in_flight := s.in_flight.eraseIdx n }
  | none => s

/-- The writes have all landed, in some order. -/
def landed (s : PersistedScheduler) (order : List (JobId × JobState)) : PersistedScheduler :=
  { s with status := order.foldl updateJobStatus s.status, in_flight := [] }

/-! ### The worker -/

/-- A worker marks its job, and persists the status when the transition is made. -/
def mark (s : PersistedScheduler) (job_id : JobId) (now : Time) (new_state : JobState)
    (reason : String) : PersistedScheduler :=
  match s.scheduler.context_manager.updateContext job_id
      (transitionClosure now new_state (some reason)) with
  | (.ok (.ok ()), context_manager) =>
    (s.withManager context_manager).persistStatus job_id new_state
  | (_, context_manager) => s.withManager context_manager

/-- `mark_completed`. -/
def markCompleted (s : PersistedScheduler) (job_id : JobId) (now : Time) : PersistedScheduler :=
  s.mark job_id now .completed "Job completed successfully"

/-- `mark_failed`. -/
def markFailed (s : PersistedScheduler) (job_id : JobId) (now : Time) (reason : String) :
    PersistedScheduler :=
  s.mark job_id now .failed reason

/-- `mark_stuck`. -/
def markStuck (s : PersistedScheduler) (job_id : JobId) (now : Time) (reason : String) :
    PersistedScheduler :=
  s.mark job_id now .stuck reason

/-- What may happen while a worker cleans up. -/
inductive GraceMove where
  | markCompleted (now : Time)
  | markFailed (now : Time) (reason : String)
  | markStuck (now : Time) (reason : String)
  | update (u : WorkerUpdate)
  | land (n : ℕ)

/-- One move of it. -/
def grace (job_id : JobId) (s : PersistedScheduler) : GraceMove → PersistedScheduler
  | .markCompleted now => s.markCompleted job_id now
  | .markFailed now reason => s.markFailed job_id now reason
  | .markStuck now reason => s.markStuck job_id now reason
  | .update u => s.withManager
      (s.scheduler.context_manager.updateContext job_id fun ctx => ((), u.apply ctx)).2
  | .land n => s.land n

/-! ### Stopping -/

/-- The state in which the worker is aborted. -/
def aborted (s : PersistedScheduler) (job_id : JobId) (moves : List GraceMove) :
    PersistedScheduler :=
  let jobs := s.scheduler.jobs.retain fun j => j.job_id ≠ job_id
  moves.foldl (grace job_id) { s with scheduler := { s.scheduler with jobs } }

/-- The rest of `stop`: a transition whose error is logged, and a write all the same. -/
def cancel (s : PersistedScheduler) (job_id : JobId) (now : Time) :
    Except JobError Unit × PersistedScheduler :=
  match s.scheduler.context_manager.updateContext job_id
      (transitionClosure now .cancelled (some "Stopped by scheduler")) with
  | (.error e, context_manager) => (.error e, s.withManager context_manager)
  | (.ok _, context_manager) =>
    (.ok (), (s.withManager context_manager).persistStatus job_id .cancelled)

/-- `stop`. -/
def stop (s : PersistedScheduler) (job_id : JobId) (moves : List GraceMove) (now : Time) :
    Except JobError Unit × PersistedScheduler :=
  if (s.scheduler.jobs.get? job_id).isSome then (s.aborted job_id moves).cancel job_id now
  else (.ok (), s)

/-- With no move of the worker, the scheduler's part of it is `Scheduler.stop`. -/
theorem stop_scheduler (s : PersistedScheduler) (job_id : JobId) (now : Time) :
    ((s.stop job_id [] now).1, (s.stop job_id [] now).2.scheduler) =
      s.scheduler.stop job_id now := by
  rw [stop, Scheduler.stop]
  split
  · rw [aborted, cancel]
    dsimp only [List.foldl_nil]
    generalize s.scheduler.context_manager.updateContext job_id
      (transitionClosure now .cancelled (some "Stopped by scheduler")) = result
    obtain ⟨_ | _, manager⟩ := result
    · rfl
    · rfl
  · rfl

/-- The row of the job has the state its context has. -/
def Agrees (s : PersistedScheduler) (job_id : JobId) : Prop :=
  ∀ ctx, s.context? job_id = some ctx → s.status job_id = some ctx.state

/-- Memory and store agree once `stop` and every write on its way have finished. -/
def AgreesAfterStop (s : PersistedScheduler) (job_id : JobId) (moves : List GraceMove)
    (now : Time) : Prop :=
  ∀ order, order.Perm (s.stop job_id moves now).2.in_flight →
    ((s.stop job_id moves now).2.landed order).Agrees job_id

/-- In this state a stop leaves nothing behind that disagrees: the job can be cancelled, or was
before, and only cancellations of it are on their way. -/
def Stoppable (s : PersistedScheduler) (job_id : JobId) : Prop :=
  ∀ ctx, s.context? job_id = some ctx →
    (ctx.state = .cancelled ∨ ctx.state.canTransitionTo .cancelled = true) ∧
      ∀ write ∈ s.in_flight, write.1 = job_id → write.2 = .cancelled

/-! ### What lands last -/

variable {s : PersistedScheduler} {job_id : JobId} {now : Time}

/-- The last write of a job that has a row stands. -/
theorem status_foldl (order : List (JobId × JobState)) {status : JobId → Option JobState}
    (hrow : (status job_id).isSome) :
    order.foldl updateJobStatus status job_id =
      ((LastWrite.lastWith Prod.fst job_id order).map Prod.snd).or (status job_id) := by
  induction order generalizing status with
  | nil => rfl
  | cons write rest ih =>
    obtain ⟨old, hold⟩ := Option.isSome_iff_exists.mp hrow
    have hstatus : updateJobStatus status write job_id =
        if write.1 = job_id then some write.2 else status job_id := by
      simp only [updateJobStatus, hold, Option.map_some, eq_comm]
    have hkept : (updateJobStatus status write job_id).isSome := by
      rw [hstatus, hold]
      split <;> rfl
    rw [List.foldl_cons, ih hkept, hstatus, LastWrite.lastWith, hold]
    cases LastWrite.lastWith Prod.fst job_id rest with
    | some last => rfl
    | none => split <;> rfl

/-- A job keeps its row. -/
theorem isSome_status_aborted (moves : List GraceMove) (hrow : (s.status job_id).isSome) :
    ((s.aborted job_id moves).status job_id).isSome := by
  have hland (s : PersistedScheduler) (n : ℕ) (h : (s.status job_id).isSome) :
      ((s.land n).status job_id).isSome := by
    rw [land]
    split
    · dsimp only [updateJobStatus]
      split
      · rwa [Option.isSome_map]
      · exact h
    · exact h
  have hmark (s : PersistedScheduler) (now : Time) (new_state : JobState) (reason : String) :
      (s.mark job_id now new_state reason).status = s.status := by
    rw [mark]
    split <;> rfl
  have hrow : (({ s with scheduler := { s.scheduler with
      jobs := s.scheduler.jobs.retain fun j => j.job_id ≠ job_id } } :
      PersistedScheduler).status job_id).isSome := hrow
  refine List.foldlRecOn (motive := fun s => (s.status job_id).isSome) moves (grace job_id) hrow
    fun s h move _ => ?_
  cases move with
  | land n => exact hland s n h
  | markCompleted now => rwa [grace, markCompleted, hmark]
  | markFailed now reason => rwa [grace, markFailed, hmark]
  | markStuck now reason => rwa [grace, markStuck, hmark]
  | update u => exact h

/-- What the rest of `stop` does to a job that has a context: the write is handed over whether
or not the transition is made. -/
theorem cancel_spec {ctx : JobContext} (hctx : s.context? job_id = some ctx) :
    ∃ ctx', (s.cancel job_id now).2.context? job_id = some ctx' ∧
      (ctx'.state = .cancelled ↔
        ctx.state = .cancelled ∨ ctx.state.canTransitionTo .cancelled = true) ∧
      (s.cancel job_id now).2.status = s.status ∧
      (s.cancel job_id now).2.in_flight = s.in_flight ++ [(job_id, .cancelled)] := by
  have hget : s.scheduler.context_manager.contexts.get? job_id = some ctx := hctx
  have hid : ctx.job_id = job_id := KeyedStore.key_of_get? hget
  rw [cancel, ContextManager.updateContext, hget]
  refine ⟨(transitionClosure now .cancelled (some "Stopped by scheduler") ctx).2, ?_, ?_, rfl, rfl⟩
  · show (KeyedStore.insert _ _).get? job_id = _
    rw [KeyedStore.get?_insert, if_pos]
    rw [transitionClosure]
    split
    case h_1 ctx' h => rw [(JobContext.moved_of_transitionTo h).job_id, hid]
    case h_2 => exact hid.symm
  · rw [transitionClosure]
    split
    case h_1 ctx' h =>
      have hmoved := JobContext.moved_of_transitionTo h
      exact iff_of_true hmoved.state (.inr hmoved.allowed)
    case h_2 e h =>
      have hrefused : ctx.state.canTransitionTo .cancelled ≠ true := fun hcan => by
        obtain ⟨ctx', hok⟩ := JobContext.transitionTo_ok hcan
        rw [h] at hok
        cases hok
      exact ⟨.inl, fun hstate => hstate.resolve_right hrefused⟩

/-- **Memory and store agree after a stop** once every write of the job has landed, in whatever
order, exactly when the job is stoppable in the state in which its worker is aborted. -/
theorem stop_agrees_iff {s : PersistedScheduler} {job_id : JobId} (moves : List GraceMove)
    (now : Time) (hjob : (s.scheduler.jobs.get? job_id).isSome)
    (hrow : (s.status job_id).isSome) :
    s.AgreesAfterStop job_id moves now ↔ (s.aborted job_id moves).Stoppable job_id := by
  rw [AgreesAfterStop, Stoppable, stop, if_pos hjob]
  replace hrow := isSome_status_aborted moves hrow
  generalize s.aborted job_id moves = s at hrow ⊢
  cases hctx : s.context? job_id with
  | none =>
    have hget : s.scheduler.context_manager.contexts.get? job_id = none := hctx
    have hgone : (s.cancel job_id now).2.context? job_id = none := by
      rw [cancel, ContextManager.updateContext, hget]
      exact hctx
    exact iff_of_true (fun _ _ ctx h => nomatch hgone.symm.trans h) nofun
  | some ctx =>
    obtain ⟨ctx', hctx', hstate, hstatus, hflight⟩ := @cancel_spec s job_id now ctx hctx
    have hagrees (order : List (JobId × JobState)) :
        ((s.cancel job_id now).2.landed order).Agrees job_id ↔
          ((LastWrite.lastWith Prod.fst job_id order).map Prod.snd).or (s.status job_id) =
            some ctx'.state := by
      rw [← hstatus, ← status_foldl order (hstatus.symm ▸ hrow)]
      exact ⟨fun h => h ctx' hctx', fun h other hother => by
        obtain rfl := Option.some.inj (hctx'.symm.trans hother)
        exact h⟩
    simp only [hagrees, hflight]
    constructor
    · rintro h _ ⟨⟩
      -- `stop`'s write may land last, and any other write may.
      have hlast := h _ (.refl _)
      rw [LastWrite.lastWith_concat, if_pos rfl] at hlast
      have hcancelled : ctx'.state = .cancelled := (Option.some.inj hlast).symm
      refine ⟨hstate.mp hcancelled, fun write hmem hid => ?_⟩
      have hperm : (((s.in_flight ++ [(job_id, JobState.cancelled)]).erase write) ++
          [write]).Perm (s.in_flight ++ [(job_id, .cancelled)]) :=
        (List.perm_append_singleton _ _).trans
          (List.perm_cons_erase (List.mem_append_left _ hmem)).symm
      have hother := h _ hperm
      rw [LastWrite.lastWith_concat, if_pos hid] at hother
      exact (Option.some.inj hother).trans hcancelled
    · intro h order hperm
      obtain ⟨hcan, hwrites⟩ := h ctx rfl
      have hstop : ∃ write ∈ order, write.1 = job_id :=
        ⟨_, hperm.mem_iff.mpr (List.mem_append_right _ List.mem_cons_self), rfl⟩
      obtain ⟨last, hlast⟩ := LastWrite.exists_lastWith hstop
      obtain ⟨hmem, hid⟩ := LastWrite.mem_of_lastWith hlast
      have hcancelled : last.2 = .cancelled := by
        rcases List.mem_append.mp (hperm.mem_iff.mp hmem) with hmem | hmem
        · exact hwrites last hmem hid
        · rw [List.mem_singleton.mp hmem]
      rw [hlast, hstate.mpr hcan, ← hcancelled]
      rfl

/-! ### A job that has completed -/

/-- A scheduler with one job, dispatched and in progress; its row was saved before. -/
def sample : PersistedScheduler where
  scheduler := ((Scheduler.new 5).dispatchJob ⟨5, none, 0⟩
    ⟨⟨1⟩, "alice", "report", "Write the report.", none, none, 0, .ok ()⟩).2
  status job_id := if job_id = ⟨1⟩ then some .pending else none
  in_flight := []

/-- The worker has completed the job and its write has landed; the handle is still kept. -/
def completedSample : PersistedScheduler := (sample.markCompleted ⟨1⟩ 1).land 0

/-- The theorem on a worker that finds its job stuck while it cleans up. -/
theorem stop_agrees_iff_stuck :
    sample.AgreesAfterStop ⟨1⟩ [.markStuck 1 "Execution timeout", .land 0] 2 := by
  refine (stop_agrees_iff _ 2 (by decide) (by decide)).mpr fun ctx hctx => ?_
  have hstate : ((sample.aborted ⟨1⟩ [.markStuck 1 "Execution timeout", .land 0]).context?
      ⟨1⟩).map (·.state) = some .stuck := by decide
  have hflight : (sample.aborted ⟨1⟩ [.markStuck 1 "Execution timeout", .land 0]).in_flight =
      [] := by decide
  rw [hctx, Option.map_some, Option.some.injEq] at hstate
  rw [hstate, hflight]
  exact ⟨.inr rfl, List.forall_mem_nil _⟩

/-- A job that has completed stays so in memory; in the store it ends up cancelled. -/
theorem completed_job_stored_cancelled : completedSample.Agrees ⟨1⟩ ∧
    (completedSample.stop ⟨1⟩ [] 2).2.in_flight = [(⟨1⟩, .cancelled)] ∧
    ¬ completedSample.AgreesAfterStop ⟨1⟩ [] 2 := by
  have hstate : (completedSample.context? ⟨1⟩).map (·.state) = some .completed := by decide
  have hflight : (completedSample.stop ⟨1⟩ [] 2).2.in_flight = [(⟨1⟩, .cancelled)] := by decide
  obtain ⟨ctx, hctx, hcompleted⟩ := Option.map_eq_some_iff.mp hstate
  refine ⟨fun other hother => ?_, hflight, fun h => ?_⟩
  · obtain rfl := Option.some.inj (hctx.symm.trans hother)
    rw [hcompleted]
    decide
  · obtain ⟨ctx', hctx', hafter⟩ := Option.map_eq_some_iff.mp (show
      ((completedSample.stop ⟨1⟩ [] 2).2.context? ⟨1⟩).map (·.state) = some .completed by decide)
    have hrow := h _ (.refl _) ctx' hctx'
    rw [hafter, landed, hflight] at hrow
    exact absurd hrow (by decide)

end PersistedScheduler

end T3Claw.Jobs
