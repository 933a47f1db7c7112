import T3Claw.Jobs.Scheduler

/-!
# Admission

A job is created before the limits of the scheduler are looked at, so when one of them stops the
dispatch its context is already there, `Pending`, and takes up a slot. For the same reason the
limit per user counts the job itself. Admission is exact when the context manager refuses, or
when nothing later does (`admission_exact_iff`).
-/

namespace T3Claw.Jobs

/-- A step of a history. -/
inductive SchedulerOp where
  | dispatch (d : Dispatch)
  | worker (job_id : JobId) (update : WorkerUpdate)
  | workerReturns (job_id : JobId)
  | cleanup (job_id : JobId)
  | cleanupFinished
  | stop (job_id : JobId) (now : Time)

/-- A new id. -/
def Scheduler.Unused (s : Scheduler) (job_id : JobId) : Prop :=
  s.context_manager.contexts.get? job_id = none

/-- One step; an id is drawn anew for each dispatch, and the worker of a job belongs to it. -/
def Scheduler.step (config : SchedulerConfig) (s : Scheduler) : SchedulerOp → Scheduler
  | .dispatch d => (s.dispatchJob config d).2
  | .worker job_id update =>
    { s with context_manager :=
        (s.context_manager.updateContext job_id fun ctx => ((), update.apply ctx)).2 }
  | .workerReturns job_id => s.workerReturns job_id
  | .cleanup job_id => s.cleanup job_id
  | .cleanupFinished => s.cleanupFinished
  | .stop job_id now => (s.stop job_id now).2

/-- The schedulers a history leads to. -/
inductive Scheduler.Reached (config : SchedulerConfig) (max_jobs : ℕ) : Scheduler → Prop
  | new : Reached config max_jobs (.new max_jobs)
  | step {s : Scheduler} (op : SchedulerOp) (h : Reached config max_jobs s)
    (hid : ∀ d, op = .dispatch d → s.Unused d.job_id) : Reached config max_jobs (s.step config op)

/-- The user's jobs are below the limit. -/
def Scheduler.belowUserLimit (config : SchedulerConfig) (s : Scheduler) (user_id : String)
    (extra : ℕ) : Prop :=
  ∀ max_per_user, config.max_jobs_per_user = some max_per_user →
    s.context_manager.parallelBlockingCountFor user_id + extra < max_per_user

/-- Admission of a dispatch is exact and atomic. -/
structure AdmittedExactly (config : SchedulerConfig) (s : Scheduler) (d : Dispatch) : Prop where
  exact : d.save_job = .ok () → ((∃ id, (s.dispatchJob config d).1 = .ok id) ↔
    s.belowUserLimit config d.user_id 0 ∧ s.jobs.values.length < config.max_parallel_jobs ∧
      s.context_manager.parallelCount < s.context_manager.max_jobs)
  atomic : ∀ e, (s.dispatchJob config d).1 = .error e →
    (s.dispatchJob config d).2.context_manager.contexts = s.context_manager.contexts

/-- The context manager refuses the job, or nothing later does: it is saved, and with this job
the user's are below the limit. -/
def RefusedFirst (config : SchedulerConfig) (s : Scheduler) (d : Dispatch) : Prop :=
  s.context_manager.max_jobs ≤ s.context_manager.parallelCount ∨
    d.save_job = .ok () ∧ s.jobs.values.length < config.max_parallel_jobs ∧
      s.belowUserLimit config d.user_id 1

/-! ### The created job -/

/-- The context of the job, when it is saved. -/
structure Created (s : Scheduler) (d : Dispatch) (m : ContextManager) (ctx : JobContext) :
    Prop where
  held : m.contexts.get? d.job_id = some ctx
  pending : ctx.state = .pending
  user_id : ctx.user_id = d.user_id
  counted : m.parallelBlockingCountFor d.user_id =
    s.context_manager.parallelBlockingCountFor d.user_id + 1

/-- The call up to `save_job`. -/
theorem dispatchJob_created {config : SchedulerConfig} {s : Scheduler} {d : Dispatch}
    (hunused : s.Unused d.job_id)
    (hroom : s.context_manager.parallelCount < s.context_manager.max_jobs) :
    ∃ m ctx, Created s d m ctx ∧ s.dispatchJob config d =
      match d.save_job with
      | .error e => (.error (.failed d.job_id ("failed to persist job: " ++ e)), ⟨m, s.jobs⟩)
      | .ok () =>
        match Scheduler.scheduleWithContext config ⟨m, s.jobs⟩ d.job_id d.now with
        | (.error e, s) => (.error e, s)
        | (.ok (), s) => (.ok d.job_id, s) := by
  set ctx₀ := JobContext.withUser d.job_id d.user_id d.title d.description d.now with hctx₀
  set m₀ : ContextManager :=
    { s.context_manager with contexts := s.context_manager.contexts.insert ctx₀ } with hm₀
  have hheld : m₀.contexts.get? d.job_id = some ctx₀ :=
    KeyedStore.get?_insert_self s.context_manager.contexts ctx₀
  -- the dispatched job counts at once, before it is scheduled
  have hcount : m₀.parallelBlockingCountFor d.user_id =
      s.context_manager.parallelBlockingCountFor d.user_id + 1 := by
    rw [ContextManager.parallelBlockingCountFor, hm₀,
      KeyedStore.countP_insert_of_none (v := ctx₀) hunused, if_pos]
    · rfl
    · simp [hctx₀, JobContext.withUser, JobContext.isOwnedBy, JobState.isParallelBlocking]
  have hcreate : s.context_manager.createJobForUser d.job_id d.user_id d.title d.description
      d.now = (.ok (), m₀) := by
    rw [ContextManager.createJobForUser, ContextManager.insertContext, if_neg (by omega)]
  -- metadata and limits are written over the entry, which keeps its owner and state
  have hcontext : ∃ m ctx, Created s d m ctx ∧ d.context config m₀ = (.ok ctx, m) := by
    rw [Dispatch.context]
    split_ifs with hneeds
    · set ctx₁ := d.update config ctx₀
      refine ⟨{ m₀ with contexts := m₀.contexts.insert ctx₁ }, ctx₁,
        ⟨KeyedStore.get?_insert_self m₀.contexts ctx₁, rfl, rfl, ?_⟩, ?_⟩
      · have hreplace := KeyedStore.countP_insert_of_some (v := ctx₁) hheld
          fun c => c.isOwnedBy d.user_id && c.state.isParallelBlocking
        exact (Nat.add_right_cancel hreplace).trans hcount
      · rw [ContextManager.updateContextAndGet, ContextManager.updateContext, hheld]
    · refine ⟨m₀, ctx₀, ⟨hheld, rfl, rfl, hcount⟩, ?_⟩
      rw [ContextManager.getContext, hheld]
  obtain ⟨m, ctx, hcreated, hctx⟩ := hcontext
  refine ⟨m, ctx, hcreated, ?_⟩
  rw [Scheduler.dispatchJob, hcreate]
  dsimp only
  rw [hctx]
  cases d.save_job <;> rfl

/-- The limits of the scheduler. -/
def Scheduler.roomFor (config : SchedulerConfig) (s : Scheduler) (d : Dispatch) : Prop :=
  s.jobs.values.length < config.max_parallel_jobs ∧ s.belowUserLimit config d.user_id 1

theorem overUserLimit_created {config : SchedulerConfig} {s : Scheduler} {d : Dispatch}
    {m : ContextManager} {ctx : JobContext} (h : Created s d m ctx) :
    Scheduler.overUserLimit config ⟨m, s.jobs⟩ d.job_id = none ↔
      s.belowUserLimit config d.user_id 1 := by
  rw [Scheduler.overUserLimit, ContextManager.getContext, h.held, Scheduler.belowUserLimit]
  cases config.max_jobs_per_user with
  | none => exact iff_of_true rfl nofun
  | some max_per_user =>
    dsimp only
    rw [h.user_id, h.counted]
    by_cases hover : max_per_user ≤ s.context_manager.parallelBlockingCountFor d.user_id + 1
    · rw [if_pos hover]
      refine iff_of_false nofun fun hbelow => ?_
      have hlt := hbelow max_per_user rfl
      omega
    · rw [if_neg hover]
      refine iff_of_true rfl fun max' heq => ?_
      obtain rfl := Option.some.inj heq
      omega

/-- The call from there on: the job is scheduled, or an error leaves its context behind. -/
theorem scheduleWithContext_created {config : SchedulerConfig} {s : Scheduler} {d : Dispatch}
    {m : ContextManager} {ctx : JobContext} (h : Created s d m ctx)
    (hjobs : s.jobs.get? d.job_id = none) :
    (s.roomFor config d ∧ ∃ s',
      Scheduler.scheduleWithContext config ⟨m, s.jobs⟩ d.job_id d.now = (.ok (), s')) ∨
    (¬s.roomFor config d ∧ ∃ e,
      Scheduler.scheduleWithContext config ⟨m, s.jobs⟩ d.job_id d.now =
        (.error e, ⟨m, s.jobs⟩)) := by
  rw [Scheduler.scheduleWithContext, hjobs]
  simp only [Option.isSome_none, Bool.false_eq_true, if_false]
  by_cases hfull : config.max_parallel_jobs ≤ s.jobs.values.length
  · rw [if_pos hfull]
    exact .inr ⟨fun hroom => absurd hroom.1 (by omega), _, rfl⟩
  rw [if_neg hfull]
  cases hover : Scheduler.overUserLimit config ⟨m, s.jobs⟩ d.job_id with
  | some max_per_user =>
    refine .inr ⟨fun hroom => ?_, _, rfl⟩
    rw [(overUserLimit_created h).mpr hroom.2] at hover
    cases hover
  | none =>
    have hroom : s.roomFor config d := ⟨by omega, (overUserLimit_created h).mp hover⟩
    have hedge : ctx.state.canTransitionTo .inProgress = true := by
      rw [h.pending]
      rfl
    obtain ⟨ctx', hctx'⟩ : ∃ ctx', ctx.transitionTo d.now .inProgress
        (some "Scheduled for execution") = .ok ctx' := JobContext.transitionTo_ok hedge
    refine .inl ⟨hroom, ⟨{ m with contexts := m.contexts.insert ctx' },
      s.jobs.insert ⟨d.job_id, false⟩⟩, ?_⟩
    have hclosure : transitionClosure d.now .inProgress (some "Scheduled for execution") ctx =
        (.ok (), ctx') := by
      rw [transitionClosure, hctx']
    simp only [ContextManager.updateContext, h.held, hclosure]

/-! ### Scheduled jobs have contexts -/

/-- No context is taken out. -/
def Kept (s s' : ContextManager) : Prop :=
  ∀ job_id, (s.contexts.get? job_id).isSome → (s'.contexts.get? job_id).isSome

theorem Kept.refl (s : ContextManager) : Kept s s := fun _ => id

theorem Kept.trans {s s' s'' : ContextManager} (h : Kept s s') (h' : Kept s' s'') : Kept s s'' :=
  fun job_id hid => h' job_id (h job_id hid)

theorem kept_insert (m : ContextManager) (ctx : JobContext) :
    Kept m { m with contexts := m.contexts.insert ctx } := by
  intro job_id hid
  change ((m.contexts.insert ctx).get? job_id).isSome
  rw [KeyedStore.get?_insert]
  split
  · rfl
  · exact hid

theorem kept_updateContext {R : Type} (m : ContextManager) (job_id : JobId)
    (f : JobContext → R × JobContext) : Kept m (m.updateContext job_id f).2 := by
  rw [ContextManager.updateContext]
  cases m.contexts.get? job_id with
  | none => exact Kept.refl m
  | some ctx => exact kept_insert m _

/-- Every scheduled job has a context. -/
def Scheduler.Tracked (s : Scheduler) : Prop :=
  ∀ job_id, (s.jobs.get? job_id).isSome → (s.context_manager.contexts.get? job_id).isSome

theorem Scheduler.Tracked.mono {s s' : Scheduler} (h : s.Tracked)
    (hkept : Kept s.context_manager s'.context_manager)
    (hjobs : ∀ job_id, (s'.jobs.get? job_id).isSome → (s.jobs.get? job_id).isSome) :
    s'.Tracked :=
  fun job_id hid => hkept job_id (h job_id (hjobs job_id hid))

theorem isSome_of_retain {s : Scheduler} {p : ScheduledJob → Bool} {job_id : JobId}
    (h : ((s.jobs.retain p).get? job_id).isSome) : (s.jobs.get? job_id).isSome := by
  rw [KeyedStore.get?_retain, Option.isSome_filter] at h
  exact Option.isSome_of_any h

theorem tracked_scheduleWithContext {config : SchedulerConfig} {s : Scheduler} (h : s.Tracked)
    (job_id : JobId) (now : Time) : (s.scheduleWithContext config job_id now).2.Tracked := by
  rw [Scheduler.scheduleWithContext]
  split_ifs with hjob hfull
  · exact h
  · exact h
  split
  case h_1 => exact h
  case h_2 =>
    rw [ContextManager.updateContext]
    cases hctx : s.context_manager.contexts.get? job_id with
    | none => exact h
    | some ctx =>
      dsimp only
      cases hclosure :
        (transitionClosure now .inProgress (some "Scheduled for execution") ctx).1 with
      | error reason => exact h.mono (kept_insert _ _) fun _ => id
      | ok u =>
        intro other hother
        rw [KeyedStore.get?_insert] at hother
        by_cases hsame : other = job_id
        · rw [hsame]
          exact kept_insert s.context_manager _ job_id (Option.isSome_of_eq_some hctx)
        · rw [if_neg hsame] at hother
          exact kept_insert s.context_manager _ other (h other hother)

theorem kept_createJobForUser (m : ContextManager) (job_id : JobId)
    (user_id title description : String) (now : Time) :
    Kept m (m.createJobForUser job_id user_id title description now).2 := by
  rw [ContextManager.createJobForUser, ContextManager.insertContext]
  split
  · exact Kept.refl m
  · exact kept_insert m _

theorem kept_context {config : SchedulerConfig} (d : Dispatch) (m : ContextManager) :
    Kept m (d.context config m).2 := by
  rw [Dispatch.context]
  split
  · exact kept_updateContext m d.job_id _
  · exact Kept.refl m

theorem tracked_dispatchJob {config : SchedulerConfig} {s : Scheduler} (h : s.Tracked)
    (d : Dispatch) : (s.dispatchJob config d).2.Tracked := by
  have hcreate := kept_createJobForUser s.context_manager d.job_id d.user_id d.title
    d.description d.now
  rw [Scheduler.dispatchJob]
  split
  case h_1 heq =>
    rw [heq] at hcreate
    exact h.mono hcreate fun _ => id
  case h_2 m heq =>
    rw [heq] at hcreate
    have hcreated : Kept s.context_manager m := hcreate
    have hnow : Scheduler.Tracked ⟨(d.context config m).2, s.jobs⟩ :=
      h.mono (hcreated.trans (kept_context d m)) fun _ => id
    split
    case h_1 hctx =>
      rw [hctx] at hnow
      exact hnow
    case h_2 hctx _ =>
      rw [hctx] at hnow
      exact hnow
    case h_3 hctx _ =>
      rw [hctx] at hnow
      have hscheduled := @tracked_scheduleWithContext config _ hnow d.job_id d.now
      split
      case h_1 hs =>
        rw [hs] at hscheduled
        exact hscheduled
      case h_2 hs =>
        rw [hs] at hscheduled
        exact hscheduled

theorem tracked_step {config : SchedulerConfig} {s : Scheduler} (h : s.Tracked)
    (op : SchedulerOp) : (s.step config op).Tracked := by
  cases op with
  | worker job_id update => exact h.mono (kept_updateContext _ _ _) fun _ => id
  | workerReturns job_id =>
    refine h.mono (Kept.refl _) fun other hother => ?_
    rw [Scheduler.step, Scheduler.workerReturns] at hother
    by_cases hsame : other = job_id
    · rwa [hsame, KeyedStore.get?_modify_self, Option.isSome_map, ← hsame] at hother
    · rwa [KeyedStore.get?_modify_of_ne _ hsame] at hother
  | cleanup job_id => exact h.mono (Kept.refl _) fun _ => isSome_of_retain
  | cleanupFinished => exact h.mono (Kept.refl _) fun _ => isSome_of_retain
  | stop job_id now =>
    rw [Scheduler.step, Scheduler.stop]
    split
    · have hkept := kept_updateContext s.context_manager job_id
        (transitionClosure now .cancelled (some "Stopped by scheduler"))
      dsimp only
      split
      case h_1 heq =>
        rw [heq] at hkept
        exact h.mono hkept fun _ => isSome_of_retain
      case h_2 heq =>
        rw [heq] at hkept
        exact h.mono hkept fun _ => isSome_of_retain
    · exact h
  | dispatch d => exact tracked_dispatchJob h d

/-- **Every history.** -/
theorem Scheduler.Reached.tracked {config : SchedulerConfig} {max_jobs : ℕ} {s : Scheduler}
    (h : s.Reached config max_jobs) : s.Tracked := by
  induction h with
  | new => exact nofun
  | step op _ _ ih => exact tracked_step ih op

theorem Scheduler.Reached.unscheduled {config : SchedulerConfig} {max_jobs : ℕ} {s : Scheduler}
    (h : s.Reached config max_jobs) {job_id : JobId} (hunused : s.Unused job_id) :
    s.jobs.get? job_id = none := by
  by_contra hjob
  have hheld := h.tracked job_id (Option.isSome_iff_ne_none.mpr hjob)
  rw [hunused] at hheld
  cases hheld

theorem dispatchJob_refused {config : SchedulerConfig} {s : Scheduler} {d : Dispatch}
    (hfull : s.context_manager.max_jobs ≤ s.context_manager.parallelCount) :
    s.dispatchJob config d = (.error (.maxJobsExceeded s.context_manager.max_jobs), s) := by
  rw [Scheduler.dispatchJob, ContextManager.createJobForUser, ContextManager.insertContext,
    if_pos hfull]

/-- **When admission is exact and atomic.** For every configuration, every history of dispatches,
stops and jobs that end, and every dispatch after it. -/
theorem admission_exact_iff {config : SchedulerConfig} {max_jobs : ℕ} {s : Scheduler}
    (h : s.Reached config max_jobs) (d : Dispatch) (hunused : s.Unused d.job_id) :
    AdmittedExactly config s d ↔ RefusedFirst config s d := by
  have hjobs : s.jobs.get? d.job_id = none := h.unscheduled hunused
  by_cases hfull : s.context_manager.max_jobs ≤ s.context_manager.parallelCount
  · refine iff_of_true ⟨fun _ => iff_of_false ?_ fun hroom => ?_, fun e _ => ?_⟩ (.inl hfull)
    · rw [dispatchJob_refused hfull]
      exact nofun
    · omega
    · rw [dispatchJob_refused hfull]
  obtain ⟨m, ctx, hcreated, heq⟩ := @dispatchJob_created config s d hunused (by omega)
  have hleft : m.contexts ≠ s.context_manager.contexts := fun hsame => by
    have hheld := hcreated.held
    rw [hsame, hunused] at hheld
    cases hheld
  have hrefused : RefusedFirst config s d ↔ d.save_job = .ok () ∧ s.roomFor config d :=
    or_iff_right hfull
  rw [hrefused]
  cases hsave : d.save_job with
  | error e =>
    rw [hsave] at heq
    refine iff_of_false (fun hexact => hleft ?_) (by simp)
    have hatomic := hexact.atomic _ (congrArg Prod.fst heq)
    rwa [heq] at hatomic
  | ok u =>
    rw [hsave] at heq
    dsimp only at heq
    obtain ⟨hroom, s', hs'⟩ | ⟨hnoroom, e, he⟩ :=
      @scheduleWithContext_created config _ _ _ _ hcreated hjobs
    · rw [hs'] at heq
      have hbelow : s.belowUserLimit config d.user_id 0 := fun max' hmax => by
        have hlt := hroom.2 max' hmax
        omega
      refine iff_of_true ⟨fun _ => iff_of_true ⟨d.job_id, congrArg Prod.fst heq⟩
        ⟨hbelow, hroom.1, by omega⟩, fun e herr => ?_⟩ ⟨rfl, hroom⟩
      rw [heq] at herr
      cases herr
    · rw [he] at heq
      refine iff_of_false (fun hexact => hleft ?_) fun h => hnoroom h.2
      have hatomic := hexact.atomic _ (congrArg Prod.fst heq)
      rwa [heq] at hatomic

/-! ### A user's only job -/

section OnlyJob

/-- One job for each user. -/
private def oneEach : SchedulerConfig := ⟨5, some 1, 0⟩

private def twoEach : SchedulerConfig := ⟨5, some 2, 0⟩

private def onlyJob : Dispatch where
  job_id := ⟨1⟩
  user_id := "alice"
  title := "report"
  description := "Write the report"
  metadata := none
  approval_context := some (.autonomous [])
  now := 0
  save_job := .ok ()

/-- A job whose user may have two, and of which one is at work. -/
theorem admission_exact_iff_onlyJob :
    AdmittedExactly twoEach ((Scheduler.new 5).step twoEach (.dispatch onlyJob))
        { onlyJob with job_id := ⟨2⟩ } ↔
      RefusedFirst twoEach ((Scheduler.new 5).step twoEach (.dispatch onlyJob))
        { onlyJob with job_id := ⟨2⟩ } := by
  refine admission_exact_iff (.step (.dispatch onlyJob) .new fun d hd => ?_) _ rfl
  obtain rfl := SchedulerOp.dispatch.inj hd
  rfl

/-- The user has no job, and the dispatch is refused, as the job it has created counts; and the
context of the job stays. -/
theorem only_job_refused : ¬∀ config max_jobs s, Scheduler.Reached config max_jobs s → ∀ d,
    s.Unused d.job_id → AdmittedExactly config s d := by
  intro h
  have hexact := h oneEach 5 (.new 5) .new onlyJob rfl
  have hrefused : ∃ e, (Scheduler.dispatchJob oneEach (.new 5) onlyJob).1 = .error e := ⟨_, rfl⟩
  obtain ⟨e, he⟩ := hrefused
  have hlength := congrArg (fun contexts => contexts.values.length) (hexact.atomic e he)
  revert hlength
  decide +kernel

end OnlyJob

end T3Claw.Jobs
