import T3Claw.Jobs.SelfRepair

/-!
# The life of the jobs

Any interleaving of job creation, removal, scheduling, stops, worker updates and calls of the
self-repair. A context only changes along `Evolves`, whoever changes it, and that is a preorder;
so what a context has once reached stays with it (`KeptSince`). The limit on repairs is another
matter: a repair compares the count of its snapshot with the limit, not that of the job. With two
snapshots of a job under way it is recovered twice (`repaired_past_limit`); the limit is kept in
the runs whose repairs are `WithinLimit` (`job_runs_sound`).
-/

namespace T3Claw.Jobs

/-- Each recorded transition goes on from the one before, and the last leads to the state. -/
structure Chained (ctx : JobContext) : Prop where
  links : ctx.transitions.IsChain fun t u => u.src = t.dst
  last : ∀ t ∈ ctx.transitions.getLast?, t.dst = ctx.state

/-! ### The course of a context -/

/-- The end of a longer history. -/
theorem record_eq (transitions : List StateTransition) (t : StateTransition) :
    ∃ k, JobContext.record transitions t = transitions.drop k ++ [t] := by
  rw [JobContext.record]
  split
  · have hle : (transitions ++ [t]).length - MAX_TRANSITIONS ≤ transitions.length := by
      rw [List.length_append, List.length_singleton, MAX_TRANSITIONS]
      omega
    exact ⟨_, List.drop_append_of_le_length hle⟩
  · exact ⟨0, rfl⟩

/-- A recorded transition goes on from the state. -/
theorem Chained.record {ctx ctx' : JobContext} (h : Chained ctx) {t : StateTransition}
    (hsrc : t.src = ctx.state) (hdst : t.dst = ctx'.state)
    (htransitions : ctx'.transitions = JobContext.record ctx.transitions t) : Chained ctx' := by
  obtain ⟨k, hk⟩ := record_eq ctx.transitions t
  rw [hk] at htransitions
  constructor
  · rw [htransitions, List.isChain_append]
    refine ⟨h.links.drop k, List.isChain_singleton t, fun last hlast other hother => ?_⟩
    obtain rfl : t = other := by simpa using hother
    rw [List.getLast?_drop] at hlast
    split at hlast
    · cases hlast
    · exact hsrc.trans (h.last last hlast).symm
  · rw [htransitions, List.getLast?_concat]
    intro last hlast
    obtain rfl : t = last := by simpa using hlast
    exact hdst

/-- How a context may change. -/
structure Evolves (ctx ctx' : JobContext) : Prop where
  job_id : ctx'.job_id = ctx.job_id
  attempts : ctx.repair_attempts ≤ ctx'.repair_attempts
  slot : ctx'.state.isParallelBlocking = true → ctx.state.isParallelBlocking = true
  terminal : ctx.state.isTerminal = true → ctx'.state = ctx.state
  started : ctx.started_at.isSome → ctx'.started_at.isSome
  progress : (ctx.state = .inProgress → ctx.started_at.isSome) → ctx'.state = .inProgress →
    ctx'.started_at.isSome
  chained : Chained ctx → Chained ctx'

namespace Evolves

variable {ctx ctx' ctx'' : JobContext}

theorem refl (ctx : JobContext) : Evolves ctx ctx :=
  ⟨rfl, le_rfl, id, fun _ => rfl, id, id, id⟩

theorem trans (h : Evolves ctx ctx') (h' : Evolves ctx' ctx'') : Evolves ctx ctx'' where
  job_id := h'.job_id.trans h.job_id
  attempts := h.attempts.trans h'.attempts
  slot := fun hslot => h.slot (h'.slot hslot)
  terminal hterminal := by
    have hsame := h.terminal hterminal
    exact (h'.terminal (hsame ▸ hterminal)).trans hsame
  started := fun hstarted => h'.started (h.started hstarted)
  progress := fun hprogress => h'.progress (h.progress hprogress)
  chained := fun hchained => h'.chained (h.chained hchained)

/-- Only the count of attempts, or what is not recorded, changes. -/
theorem of_same (hid : ctx'.job_id = ctx.job_id) (hstate : ctx'.state = ctx.state)
    (hstarted : ctx'.started_at = ctx.started_at)
    (htransitions : ctx'.transitions = ctx.transitions)
    (hattempts : ctx.repair_attempts ≤ ctx'.repair_attempts) : Evolves ctx ctx' where
  job_id := hid
  attempts := hattempts
  slot hslot := hstate ▸ hslot
  terminal _ := hstate
  started h := hstarted ▸ h
  progress hprogress h := hstarted ▸ hprogress (hstate ▸ h)
  chained h := ⟨htransitions ▸ h.links, htransitions ▸ hstate ▸ h.last⟩

theorem of_moved {new_state : JobState} (h : ctx.Moved new_state ctx') : Evolves ctx ctx' where
  job_id := h.job_id
  attempts := h.repair_attempts.ge
  slot hslot := JobState.isParallelBlocking_of_canTransitionTo h.allowed (h.state ▸ hslot)
  terminal hterminal := by
    have hedge := h.allowed
    rw [JobState.canTransitionTo_of_isTerminal hterminal] at hedge
    cases hedge
  started := h.keeps_started
  progress _ hprogress := h.started (h.state ▸ hprogress)
  chained hchained := by
    obtain rfl | ⟨now, reason, hrecorded⟩ := h.recorded
    · exact hchained
    exact hchained.record rfl h.state.symm hrecorded

theorem of_transitionTo {now : Time} {new_state : JobState} {reason : Option String}
    (h : ctx.transitionTo now new_state reason = .ok ctx') : Evolves ctx ctx' :=
  of_moved (JobContext.moved_of_transitionTo h)

theorem of_byTransitions (h : ByTransitions ctx ctx') : Evolves ctx ctx' := by
  induction h with
  | refl => exact refl ctx
  | tail _ hstep ih =>
    obtain hsame | ⟨now, new_state, reason, hmoved⟩ := hstep
    · exact ih.trans (of_same hsame.job_id hsame.state hsame.started_at hsame.transitions
        hsame.repair_attempts.ge)
    · exact ih.trans (of_transitionTo hmoved)

theorem of_attemptRecovery {now : Time} (h : ctx.attemptRecovery now = .ok ctx') :
    Evolves ctx ctx' ∧ ctx'.repair_attempts = ctx.repair_attempts + 1 := by
  rw [JobContext.attemptRecovery] at h
  split at h
  · cases h
  · have hmoved := JobContext.moved_of_transitionTo h
    have hcounted : Evolves ctx { ctx with repair_attempts := ctx.repair_attempts + 1 } :=
      of_same rfl rfl rfl rfl (Nat.le_succ _)
    exact ⟨hcounted.trans (of_moved hmoved), hmoved.repair_attempts⟩

theorem transitionClosure (now : Time) (new_state : JobState) (reason : Option String)
    (ctx : JobContext) : Evolves ctx (transitionClosure now new_state reason ctx).2 := by
  rw [Jobs.transitionClosure]
  cases h : ctx.transitionTo now new_state reason with
  | error e => exact refl ctx
  | ok ctx' => exact of_transitionTo h

theorem recoverClosure (now : Time) (ctx : JobContext) : Evolves ctx (recoverClosure now ctx).2 ∧
    ((recoverClosure now ctx).1 = .ok () →
      (recoverClosure now ctx).2.repair_attempts = ctx.repair_attempts + 1) := by
  rw [Jobs.recoverClosure]
  split_ifs with hprogress
  · cases hstuck : ctx.transitionTo now .stuck (some "exceeded stuck_threshold") with
    | error e => exact ⟨refl ctx, nofun⟩
    | ok ctx' =>
      dsimp only
      have hmoved := JobContext.moved_of_transitionTo hstuck
      cases hrecover : ctx'.attemptRecovery now with
      | error e => exact ⟨of_moved hmoved, nofun⟩
      | ok ctx'' =>
        obtain ⟨hevolves, hattempts⟩ := of_attemptRecovery hrecover
        refine ⟨(of_moved hmoved).trans hevolves, fun _ => ?_⟩
        rw [hattempts, hmoved.repair_attempts]
  · cases hrecover : ctx.attemptRecovery now with
    | error e => exact ⟨refl ctx, nofun⟩
    | ok ctx' =>
      obtain ⟨hevolves, hattempts⟩ := of_attemptRecovery hrecover
      exact ⟨hevolves, fun _ => hattempts⟩

end Evolves

/-! ### The contexts of the manager -/

/-- Each context comes from one that was there, and no slot is taken. -/
structure Continues (m m' : ContextManager) : Prop where
  max_jobs : m'.max_jobs = m.max_jobs
  evolves : ∀ job_id ctx', m'.contexts.get? job_id = some ctx' →
    ∃ ctx, m.contexts.get? job_id = some ctx ∧ Evolves ctx ctx'
  slots : m'.parallelCount ≤ m.parallelCount

namespace Continues

theorem refl (m : ContextManager) : Continues m m :=
  ⟨rfl, fun _ ctx hctx => ⟨ctx, hctx, .refl ctx⟩, le_rfl⟩

theorem updateContext {R : Type} (m : ContextManager) (job_id : JobId)
    {f : JobContext → R × JobContext} (hf : ∀ ctx, Evolves ctx (f ctx).2) :
    Continues m (m.updateContext job_id f).2 := by
  rw [ContextManager.updateContext]
  cases hget : m.contexts.get? job_id with
  | none => exact refl m
  | some ctx =>
    have hid : (f ctx).2.job_id = job_id :=
      (hf ctx).job_id.trans (KeyedStore.key_of_get? hget)
    refine ⟨rfl, fun other ctx' hctx' => ?_, ?_⟩
    · dsimp only at hctx'
      rw [KeyedStore.get?_insert] at hctx'
      split at hctx'
      case isTrue hsame =>
        obtain rfl := Option.some.inj hctx'
        exact ⟨ctx, (hsame.trans hid) ▸ hget, hf ctx⟩
      case isFalse => exact ⟨ctx', hctx', .refl ctx'⟩
    · have hcount := KeyedStore.countP_insert_of_some (v := (f ctx).2) (hid.symm ▸ hget)
        fun c => c.state.isParallelBlocking
      rw [ContextManager.parallelCount, ContextManager.parallelCount]
      by_cases hslot : (f ctx).2.state.isParallelBlocking = true
      · rw [if_pos hslot, if_pos ((hf ctx).slot hslot)] at hcount
        exact (Nat.add_right_cancel hcount).le
      · rw [if_neg hslot] at hcount
        dsimp only
        omega

theorem removeJob (m : ContextManager) (job_id : JobId) : Continues m (m.removeJob job_id).2 := by
  rw [ContextManager.removeJob]
  cases m.contexts.get? job_id with
  | none => exact refl m
  | some ctx =>
    refine ⟨rfl, fun other ctx' hctx' => ⟨ctx', ?_, .refl ctx'⟩, ?_⟩
    · dsimp only at hctx'
      rw [KeyedStore.get?_retain] at hctx'
      exact (Option.filter_eq_some_iff.mp hctx').1
    · exact KeyedStore.countP_retain_le _ _ _

end Continues

/-! ### The self-repair -/

/-- The repair of the job is not past the limit: if it is made and recovers the job, the count of
the job is below it, like that of the snapshot. -/
def WithinLimit (config : RepairConfig) (m : ContextManager) (job : StuckJob) : Prop :=
  ∀ ctx ∈ m.contexts.get? job.job_id, ctx.state = .inProgress ∨ ctx.state = .stuck →
    job.repair_attempts < config.max_repair_attempts →
      ctx.repair_attempts < config.max_repair_attempts

instance (config : RepairConfig) (m : ContextManager) (job : StuckJob) :
    Decidable (WithinLimit config m job) :=
  inferInstanceAs (Decidable (∀ ctx ∈ m.contexts.get? job.job_id, _))

/-- What the self-repair has done, beside the contexts. -/
structure RepairInv (drawn : List JobId) (m : ContextManager) (recovered : List JobId) : Prop where
  recovered_drawn : ∀ job_id ∈ recovered, job_id ∈ drawn
  attempts : ∀ job_id ctx, m.contexts.get? job_id = some ctx →
    recovered.count job_id ≤ ctx.repair_attempts

theorem RepairInv.continues {drawn recovered : List JobId} {m m' : ContextManager}
    (h : RepairInv drawn m recovered) (hm : Continues m m') : RepairInv drawn m' recovered where
  recovered_drawn := h.recovered_drawn
  attempts job_id ctx' hctx' := by
    obtain ⟨ctx, hctx, hevolves⟩ := hm.evolves job_id ctx' hctx'
    exact (h.attempts job_id ctx hctx).trans hevolves.attempts

/-- A section of a detection only goes on with the contexts. -/
theorem continues_detectStuckJobs (config : RepairConfig) (m : ContextManager) (now : Time)
    (phase : DetectPhase) : Continues m (detectStuckJobs config m now phase).2.2 := by
  cases phase with
  | idle => exact .refl m
  | looking stuck_ids stuck_jobs =>
    cases stuck_ids with
    | nil => exact .refl m
    | cons job_id stuck_ids =>
      rw [detectStuckJobs]
      split <;> exact .refl m
  | marking job_id stuck_ids stuck_jobs =>
    have hmarked := Continues.updateContext m job_id fun ctx =>
      Evolves.transitionClosure now .stuck (some "exceeded stuck_threshold") ctx
    rw [detectStuckJobs]
    split
    case h_1 heq =>
      rw [heq] at hmarked
      exact hmarked
    case h_2 heq =>
      rw [heq] at hmarked
      exact hmarked
  | refetching job_id just_transitioned stuck_ids stuck_jobs =>
    rw [detectStuckJobs]
    split <;> exact .refl m

/-- Only a job that is in progress or stuck is recovered. -/
theorem state_of_recoverClosure {now : Time} {ctx : JobContext}
    (h : (recoverClosure now ctx).1 = .ok ()) : ctx.state = .inProgress ∨ ctx.state = .stuck := by
  by_contra hother
  obtain ⟨hprogress, hstuck⟩ := not_or.mp hother
  rw [recoverClosure, if_neg hprogress, JobContext.attemptRecovery, if_pos hstuck] at h
  cases h

/-- **A repair**: the job is recovered, or it is not. -/
theorem repairStuckJob_cases (config : RepairConfig) (m : ContextManager) (now : Time)
    (job : StuckJob) :
    (∃ message m', repairStuckJob config m now job = (.success message, m') ∧
      job.repair_attempts < config.max_repair_attempts ∧ Continues m m' ∧
      ∃ ctx ctx', m.contexts.get? job.job_id = some ctx ∧
        (ctx.state = .inProgress ∨ ctx.state = .stuck) ∧
        m'.contexts.get? job.job_id = some ctx' ∧
        ctx'.repair_attempts = ctx.repair_attempts + 1) ∨
    (∃ result m', repairStuckJob config m now job = (result, m') ∧
      (∀ message, result ≠ .success message) ∧ Continues m m') := by
  rw [repairStuckJob]
  by_cases hlimit : config.max_repair_attempts ≤ job.repair_attempts
  · rw [if_pos hlimit]
    exact .inr ⟨_, _, rfl, nofun, Continues.updateContext m _ fun ctx =>
      Evolves.transitionClosure now _ _ ctx⟩
  rw [if_neg hlimit]
  have hcontinues := Continues.updateContext m job.job_id fun ctx =>
    (Evolves.recoverClosure now ctx).1
  rw [ContextManager.updateContext] at hcontinues ⊢
  cases hget : m.contexts.get? job.job_id with
  | none => exact .inr ⟨_, _, rfl, nofun, .refl m⟩
  | some ctx =>
    rw [hget] at hcontinues
    dsimp only at hcontinues ⊢
    obtain ⟨hevolves, hattempts⟩ := Evolves.recoverClosure now ctx
    cases hclosure : (recoverClosure now ctx).1 with
    | error e => exact .inr ⟨_, _, rfl, nofun, hcontinues⟩
    | ok u =>
      refine .inl ⟨_, _, rfl, by omega, hcontinues, ctx, (recoverClosure now ctx).2, rfl,
        state_of_recoverClosure hclosure, ?_, hattempts hclosure⟩
      have hid : (recoverClosure now ctx).2.job_id = job.job_id :=
        hevolves.job_id.trans (KeyedStore.key_of_get? hget)
      exact hid ▸ KeyedStore.get?_insert_self m.contexts (recoverClosure now ctx).2

/-- **A call of `repair_stuck_job`.** -/
theorem RepairInv.repair (config : RepairConfig) {drawn : List JobId} {m : ContextManager}
    {r : SelfRepair} (h : RepairInv drawn m r.recovered)
    (hdrawn : ∀ job_id ctx, m.contexts.get? job_id = some ctx → job_id ∈ drawn)
    (job : StuckJob) (now : Time) :
    RepairInv drawn (r.repair config m job now).2 (r.repair config m job now).1.recovered ∧
      Continues m (r.repair config m job now).2 ∧
      (WithinLimit config m job → (∀ id, r.recovered.count id ≤ config.max_repair_attempts) →
        ∀ id, (r.repair config m job now).1.recovered.count id ≤ config.max_repair_attempts) := by
  rw [SelfRepair.repair]
  obtain ⟨message, m', heq, hlimit, hcontinues, ctx, ctx', hctx, hstate, hctx', hattempts⟩ |
    ⟨result, m', heq, hresult, hcontinues⟩ := repairStuckJob_cases config m now job
  · rw [heq]
    dsimp only
    have hone : ∀ id, (r.recovered ++ [job.job_id]).count id =
        r.recovered.count id + if job.job_id = id then 1 else 0 := fun id => by
      rw [List.count_append, List.count_singleton]
      simp
    refine ⟨⟨fun id hmem => ?_, fun id ctx₁ hctx₁ => ?_⟩, hcontinues, fun hwithin hall id => ?_⟩
    · obtain hmem | hmem := List.mem_append.mp hmem
      · exact h.recovered_drawn id hmem
      · exact List.mem_singleton.mp hmem ▸ hdrawn job.job_id ctx hctx
    · rw [hone]
      split
      case isTrue hid =>
        subst hid
        obtain rfl := Option.some.inj (hctx'.symm.trans hctx₁)
        have hle := h.attempts job.job_id ctx hctx
        omega
      case isFalse => exact (h.continues hcontinues).attempts id ctx₁ hctx₁
    · rw [hone]
      split
      case isTrue hid =>
        subst hid
        have hle := h.attempts job.job_id ctx hctx
        have hlt := hwithin ctx hctx hstate hlimit
        omega
      case isFalse => exact hall id
  · rw [heq]
    have hnow := h.continues hcontinues
    cases result with
    | success message => exact absurd rfl (hresult message)
    | retry message => exact ⟨hnow, hcontinues, fun _ => id⟩
    | manualRequired message => exact ⟨hnow, hcontinues, fun _ => id⟩
    | error job_id reason => exact ⟨hnow, hcontinues, fun _ => id⟩

/-! ### The system -/

/-- The jobs, the self-repair, and the ids drawn so far. -/
structure JobSystem where
  scheduler : Scheduler
  repair : SelfRepair
  drawn : List JobId

/-- What may happen next. -/
inductive JobMove where
  | create (job_id : JobId) (user_id title description : String) (now : Time)
  | registerSandbox (job_id : JobId) (user_id title description : String) (now : Time)
  | remove (job_id : JobId)
  | schedule (job_id : JobId) (now : Time)
  | stop (job_id : JobId) (now : Time)
  | worker (job_id : JobId) (update : WorkerUpdate)
  | workerReturns (job_id : JobId)
  | cleanup (job_id : JobId)
  | cleanupFinished
  | detect (call : ℕ) (now : Time)
  | repair (job : StuckJob) (now : Time)

/-- The snapshot that a move repairs. -/
def JobMove.repaired? : JobMove → Option StuckJob
  | .repair job _ => some job
  | _ => none

namespace JobSystem

/-- The contexts. -/
abbrev manager (s : JobSystem) : ContextManager := s.scheduler.context_manager

def new (max_jobs : ℕ) : JobSystem := ⟨.new max_jobs, ⟨fun _ => .idle, [], []⟩, []⟩

/-- The system with other contexts. -/
def withManager (s : JobSystem) (context_manager : ContextManager) : JobSystem :=
  { s with scheduler := { s.scheduler with context_manager } }

/-- One move; `none` when the id of a job to create is not new, or when there is no such snapshot
of the job to repair. -/
def move (scheduling : SchedulerConfig) (config : RepairConfig) (s : JobSystem) :
    JobMove → Option JobSystem
  | .create job_id user_id title description now =>
    if job_id ∈ s.drawn then none
    else
      some { s.withManager (s.manager.createJobForUser job_id user_id title description now).2 with
        drawn := job_id :: s.drawn }
  | .registerSandbox job_id user_id title description now =>
    if job_id ∈ s.drawn then none
    else
      some { s.withManager
          (s.manager.registerSandboxJob job_id user_id title description now).2 with
        drawn := job_id :: s.drawn }
  | .remove job_id => some (s.withManager (s.manager.removeJob job_id).2)
  | .schedule job_id now =>
    some { s with scheduler := (s.scheduler.scheduleWithContext scheduling job_id now).2 }
  | .stop job_id now => some { s with scheduler := (s.scheduler.stop job_id now).2 }
  | .worker job_id update =>
    some (s.withManager (s.manager.updateContext job_id fun ctx => ((), update.apply ctx)).2)
  | .workerReturns job_id => some { s with scheduler := s.scheduler.workerReturns job_id }
  | .cleanup job_id => some { s with scheduler := s.scheduler.cleanup job_id }
  | .cleanupFinished => some { s with scheduler := s.scheduler.cleanupFinished }
  | .detect call now =>
    let (repair, m) := s.repair.detect config s.manager call now
    some { s.withManager m with repair }
  | .repair job now =>
    if job ∈ s.repair.detected then
      let (repair, m) := s.repair.repair config s.manager job now
      some { s.withManager m with repair }
    else none

/-- The system after a list of moves. -/
def play (scheduling : SchedulerConfig) (config : RepairConfig) (s : JobSystem)
    (moves : List JobMove) : Option JobSystem :=
  moves.foldlM (move scheduling config) s

/-! ### What a move does -/

/-- A context as it is put in. -/
structure Initial (ctx : JobContext) : Prop where
  chained : Chained ctx
  progress : ctx.state = .inProgress → ctx.started_at.isSome

/-- A move puts in a job with a new id, or only goes on with those that are there. -/
structure Moves (config : RepairConfig) (move : JobMove) (s s' : JobSystem) : Prop where
  jobs : Continues s.manager s'.manager ∧ s'.drawn = s.drawn ∨
    ∃ ctx, ctx.job_id ∉ s.drawn ∧ Initial ctx ∧ s'.drawn = ctx.job_id :: s.drawn ∧
      s'.manager = (s.manager.insertContext ctx).2
  repair : s'.repair.recovered = s.repair.recovered ∨ ∃ job now, move = .repair job now ∧
    s'.drawn = s.drawn ∧ (s'.repair, s'.manager) = s.repair.repair config s.manager job now

theorem continues_scheduleWithContext (scheduling : SchedulerConfig) (s : Scheduler)
    (job_id : JobId) (now : Time) :
    Continues s.context_manager
      (s.scheduleWithContext scheduling job_id now).2.context_manager := by
  have hupdate := Continues.updateContext s.context_manager job_id fun ctx =>
    Evolves.transitionClosure now .inProgress (some "Scheduled for execution") ctx
  rw [Scheduler.scheduleWithContext]
  split_ifs
  · exact .refl _
  · exact .refl _
  split
  · exact .refl _
  · split
    case h_1 heq =>
      rw [heq] at hupdate
      exact hupdate
    case h_2 heq =>
      rw [heq] at hupdate
      exact hupdate
    case h_3 heq =>
      rw [heq] at hupdate
      exact hupdate

theorem continues_stop (s : Scheduler) (job_id : JobId) (now : Time) :
    Continues s.context_manager (s.stop job_id now).2.context_manager := by
  have hupdate := Continues.updateContext s.context_manager job_id fun ctx =>
    Evolves.transitionClosure now .cancelled (some "Stopped by scheduler") ctx
  rw [Scheduler.stop]
  split_ifs
  · dsimp only
    split
    case h_1 heq =>
      rw [heq] at hupdate
      exact hupdate
    case h_2 heq =>
      rw [heq] at hupdate
      exact hupdate
  · exact .refl _

theorem chained_of_nil {ctx : JobContext} (h : ctx.transitions = []) : Chained ctx := by
  constructor
  · rw [h]
    exact List.isChain_nil
  · rw [h]
    exact nofun

theorem moves_of_move {scheduling : SchedulerConfig} {config : RepairConfig} {s s' : JobSystem}
    {move : JobMove} (h : s.move scheduling config move = some s')
    (hrepair : ∀ job now, Continues s.manager (s.repair.repair config s.manager job now).2) :
    Moves config move s s' := by
  cases move with
  | create job_id user_id title description now =>
    rw [JobSystem.move] at h
    split at h
    case isTrue => cases h
    case isFalse hnew =>
      obtain rfl := Option.some.inj h
      exact ⟨.inr ⟨.withUser job_id user_id title description now, hnew,
        ⟨chained_of_nil rfl, nofun⟩, rfl, rfl⟩, .inl rfl⟩
  | registerSandbox job_id user_id title description now =>
    rw [JobSystem.move] at h
    split at h
    case isTrue => cases h
    case isFalse hnew =>
      obtain rfl := Option.some.inj h
      -- a sandbox job enters the table in progress, with no transition behind it
      exact ⟨.inr ⟨{ JobContext.withUser job_id user_id title description now with
        state := .inProgress
        started_at := some now }, hnew, ⟨chained_of_nil rfl, fun _ => rfl⟩, rfl, rfl⟩, .inl rfl⟩
  | remove job_id =>
    obtain rfl := Option.some.inj h
    exact ⟨.inl ⟨.removeJob s.manager job_id, rfl⟩, .inl rfl⟩
  | schedule job_id now =>
    obtain rfl := Option.some.inj h
    exact ⟨.inl ⟨continues_scheduleWithContext scheduling s.scheduler job_id now, rfl⟩, .inl rfl⟩
  | stop job_id now =>
    obtain rfl := Option.some.inj h
    exact ⟨.inl ⟨continues_stop s.scheduler job_id now, rfl⟩, .inl rfl⟩
  | worker job_id update =>
    obtain rfl := Option.some.inj h
    have hupdate := Continues.updateContext s.manager job_id
      (f := fun ctx => ((), update.apply ctx))
      fun ctx => .of_byTransitions (update.by_transitions ctx)
    exact ⟨.inl ⟨hupdate, rfl⟩, .inl rfl⟩
  | workerReturns job_id =>
    obtain rfl := Option.some.inj h
    exact ⟨.inl ⟨.refl _, rfl⟩, .inl rfl⟩
  | cleanup job_id =>
    obtain rfl := Option.some.inj h
    exact ⟨.inl ⟨.refl _, rfl⟩, .inl rfl⟩
  | cleanupFinished =>
    obtain rfl := Option.some.inj h
    exact ⟨.inl ⟨.refl _, rfl⟩, .inl rfl⟩
  | detect call now =>
    obtain rfl := Option.some.inj h
    exact ⟨.inl ⟨continues_detectStuckJobs config s.manager now _, rfl⟩, .inl rfl⟩
  | repair job now =>
    obtain ⟨-, h⟩ := Option.ite_none_right_eq_some.mp h
    obtain rfl := Option.some.inj h
    exact ⟨.inl ⟨hrepair job now, rfl⟩, .inr ⟨job, now, rfl, rfl, rfl⟩⟩

/-! ### Whole runs -/

/-- What holds of the jobs and the self-repair at any time. -/
structure JobsInv (max_jobs : ℕ) (s : JobSystem) : Prop where
  limit : s.manager.max_jobs = max_jobs
  slots : s.manager.parallelCount ≤ max_jobs
  drawn : ∀ job_id ctx, s.manager.contexts.get? job_id = some ctx → job_id ∈ s.drawn
  initial : ∀ job_id ctx, s.manager.contexts.get? job_id = some ctx → Initial ctx
  repair : RepairInv s.drawn s.manager s.repair.recovered

/-- The jobs between two times: each was there already, and has evolved, or its id was new. -/
structure Since (s s' : JobSystem) : Prop where
  drawn : ∀ job_id ∈ s.drawn, job_id ∈ s'.drawn
  jobs : ∀ job_id ∈ s.drawn, ∀ ctx', s'.manager.contexts.get? job_id = some ctx' →
    ∃ ctx, s.manager.contexts.get? job_id = some ctx ∧ Evolves ctx ctx'

theorem Since.refl (s : JobSystem) : Since s s :=
  ⟨fun _ => id, fun _ _ ctx hctx => ⟨ctx, hctx, .refl ctx⟩⟩

theorem Since.trans {s s' s'' : JobSystem} (h : Since s s') (h' : Since s' s'') : Since s s'' := by
  refine ⟨fun job_id hid => h'.drawn job_id (h.drawn job_id hid),
    fun job_id hid ctx'' hctx'' => ?_⟩
  obtain ⟨ctx', hctx', hevolves'⟩ := h'.jobs job_id (h.drawn job_id hid) ctx'' hctx''
  obtain ⟨ctx, hctx, hevolves⟩ := h.jobs job_id hid ctx' hctx'
  exact ⟨ctx, hctx, hevolves.trans hevolves'⟩

theorem jobsInv_new (max_jobs : ℕ) : JobsInv max_jobs (.new max_jobs) where
  limit := rfl
  slots := Nat.zero_le max_jobs
  drawn _ _ hctx := (nomatch hctx)
  initial _ _ hctx := (nomatch hctx)
  repair := ⟨List.forall_mem_nil _, fun _ _ hctx => (nomatch hctx)⟩

/-- The job that is put in. -/
theorem get?_insertContext {m : ContextManager} {ctx ctx' : JobContext} {job_id : JobId}
    (h : (m.insertContext ctx).2.contexts.get? job_id = some ctx') :
    m.contexts.get? job_id = some ctx' ∨ ctx' = ctx ∧ job_id = ctx.job_id := by
  rw [ContextManager.insertContext] at h
  split at h
  · exact .inl h
  · dsimp only at h
    rw [KeyedStore.get?_insert] at h
    split at h
    case isTrue hid => exact .inr ⟨(Option.some.inj h).symm, hid⟩
    case isFalse => exact .inl h

/-- **One move.** -/
theorem JobsInv.move {max_jobs : ℕ} {scheduling : SchedulerConfig} {config : RepairConfig}
    {s s' : JobSystem} (h : JobsInv max_jobs s) {move : JobMove}
    (hmove : s.move scheduling config move = some s') :
    JobsInv max_jobs s' ∧ Since s s' := by
  have hstep := fun job now => h.repair.repair config h.drawn job now
  obtain ⟨⟨hcontinues, hdrawn⟩ | ⟨ctx, hnew, hinitial, hdrawn, hmanager⟩, hrepair⟩ :=
    moves_of_move hmove fun job now => (hstep job now).2.1
  · have hback : ∀ job_id ctx', s'.manager.contexts.get? job_id = some ctx' →
        job_id ∈ s.drawn := fun job_id ctx' hctx' => by
      obtain ⟨ctx, hctx, -⟩ := hcontinues.evolves job_id ctx' hctx'
      exact h.drawn job_id ctx hctx
    refine ⟨⟨hcontinues.max_jobs.trans h.limit, hcontinues.slots.trans h.slots,
      fun job_id ctx' hctx' => hdrawn ▸ hback job_id ctx' hctx', fun job_id ctx' hctx' => ?_, ?_⟩,
      fun job_id hid => hdrawn ▸ hid, fun job_id _ => hcontinues.evolves job_id⟩
    · obtain ⟨ctx, hctx, hevolves⟩ := hcontinues.evolves job_id ctx' hctx'
      have hinitial := h.initial job_id ctx hctx
      exact ⟨hevolves.chained hinitial.chained, hevolves.progress hinitial.progress⟩
    · rw [hdrawn]
      obtain hsame | ⟨job, now, -, -, hcall⟩ := hrepair
      · exact hsame ▸ h.repair.continues hcontinues
      · have hnow := (hstep job now).1
        rw [← hcall] at hnow
        exact hnow
  · have hrepair : s'.repair.recovered = s.repair.recovered := by
      obtain hsame | ⟨job, now, -, hsame, -⟩ := hrepair
      · exact hsame
      · exact absurd (hdrawn.symm.trans hsame) (List.cons_ne_self _ _)
    have hcases : ∀ job_id ctx', s'.manager.contexts.get? job_id = some ctx' →
        s.manager.contexts.get? job_id = some ctx' ∨ ctx' = ctx ∧ job_id = ctx.job_id :=
      fun job_id ctx' hctx' => get?_insertContext (hmanager ▸ hctx')
    have hunused : s.manager.contexts.get? ctx.job_id = none := by
      by_contra hne
      obtain ⟨old, hold⟩ := Option.ne_none_iff_exists'.mp hne
      exact hnew (h.drawn ctx.job_id old hold)
    have hroom : s'.manager.max_jobs = max_jobs ∧ s'.manager.parallelCount ≤ max_jobs := by
      rw [hmanager, ContextManager.insertContext]
      have hlimit := h.limit
      have hslots := h.slots
      split_ifs with hfull
      · exact ⟨hlimit, hslots⟩
      · refine ⟨hlimit, ?_⟩
        have hcount := KeyedStore.countP_insert_of_none hunused
          fun c => c.state.isParallelBlocking
        rw [ContextManager.parallelCount, hcount]
        rw [ContextManager.parallelCount] at hfull
        split <;> omega
    have hsince : ∀ job_id ∈ s.drawn, ∀ ctx', s'.manager.contexts.get? job_id = some ctx' →
        s.manager.contexts.get? job_id = some ctx' := by
      intro job_id hid ctx' hctx'
      obtain hold | ⟨-, rfl⟩ := hcases job_id ctx' hctx'
      · exact hold
      · exact absurd hid hnew
    refine ⟨⟨hroom.1, hroom.2, fun job_id ctx' hctx' => ?_, fun job_id ctx' hctx' => ?_, ?_⟩,
      fun job_id hid => hdrawn ▸ List.mem_cons_of_mem _ hid,
      fun job_id hid ctx' hctx' => ⟨ctx', hsince job_id hid ctx' hctx', .refl ctx'⟩⟩
    · rw [hdrawn]
      obtain hold | ⟨-, rfl⟩ := hcases job_id ctx' hctx'
      · exact List.mem_cons_of_mem _ (h.drawn job_id ctx' hold)
      · exact List.mem_cons_self
    · obtain hold | ⟨rfl, -⟩ := hcases job_id ctx' hctx'
      · exact h.initial job_id ctx' hold
      · exact hinitial
    · rw [hdrawn, hrepair]
      refine { h.repair with
        recovered_drawn := fun job_id hid => List.mem_cons_of_mem _ (h.repair.recovered_drawn _ hid)
        attempts := fun job_id ctx' hctx' => ?_ }
      obtain hold | ⟨-, rfl⟩ := hcases job_id ctx' hctx'
      · exact h.repair.attempts job_id ctx' hold
      · -- a new job has not been recovered
        rw [List.count_eq_zero_of_not_mem fun hmem => hnew (h.repair.recovered_drawn _ hmem)]
        exact Nat.zero_le _

/-- A move whose repair is within the limit keeps the limit. -/
theorem JobsInv.recovered_le {max_jobs : ℕ} {scheduling : SchedulerConfig} {config : RepairConfig}
    {s s' : JobSystem} (h : JobsInv max_jobs s) {move : JobMove}
    (hmove : s.move scheduling config move = some s')
    (hwithin : ∀ job ∈ move.repaired?, WithinLimit config s.manager job)
    (hall : ∀ id, s.repair.recovered.count id ≤ config.max_repair_attempts) (id : JobId) :
    s'.repair.recovered.count id ≤ config.max_repair_attempts := by
  have hstep := fun job now => h.repair.repair config h.drawn job now
  obtain hsame | ⟨job, now, hrepair, -, hcall⟩ :=
    (moves_of_move hmove fun job now => (hstep job now).2.1).repair
  · exact hsame ▸ hall id
  · have hnow := (hstep job now).2.2 (hwithin job (hrepair ▸ rfl)) hall id
    rw [← hcall] at hnow
    exact hnow

/-- **A run.** -/
theorem JobsInv.play {max_jobs : ℕ} {scheduling : SchedulerConfig} {config : RepairConfig}
    {s s' : JobSystem} (h : JobsInv max_jobs s) {moves : List JobMove}
    (hplay : s.play scheduling config moves = some s') :
    JobsInv max_jobs s' ∧ Since s s' := by
  induction moves generalizing s with
  | nil =>
    obtain rfl := Option.some.inj hplay
    exact ⟨h, .refl s⟩
  | cons move moves ih =>
    rw [JobSystem.play, List.foldlM_cons] at hplay
    obtain ⟨t, hmove, hrest⟩ := Option.bind_eq_some_iff.mp hplay
    obtain ⟨ht, hsince⟩ := h.move hmove
    obtain ⟨hs', hsince'⟩ := ih ht hrest
    exact ⟨hs', hsince.trans hsince'⟩

/-- Each repair of a run is within the limit, in the state it meets. -/
def RepairsWithin (scheduling : SchedulerConfig) (config : RepairConfig) (s : JobSystem) :
    List JobMove → Prop
  | [] => True
  | move :: moves => (∀ job ∈ move.repaired?, WithinLimit config s.manager job) ∧
    ∀ t ∈ s.move scheduling config move, RepairsWithin scheduling config t moves

instance decidableRepairsWithin (scheduling : SchedulerConfig) (config : RepairConfig) :
    ∀ (s : JobSystem) (moves : List JobMove), Decidable (s.RepairsWithin scheduling config moves)
  | _, [] => .isTrue trivial
  | s, move :: moves =>
    have := fun t => decidableRepairsWithin scheduling config t moves
    inferInstanceAs (Decidable ((∀ job ∈ move.repaired?, WithinLimit config s.manager job) ∧
      ∀ t ∈ s.move scheduling config move, t.RepairsWithin scheduling config moves))

/-- **The limit on repairs over a run** whose repairs are within it. -/
theorem recovered_le_of_play {max_jobs : ℕ} {scheduling : SchedulerConfig} {config : RepairConfig}
    {s s' : JobSystem} (h : JobsInv max_jobs s) {moves : List JobMove}
    (hplay : s.play scheduling config moves = some s')
    (hwithin : s.RepairsWithin scheduling config moves)
    (hall : ∀ id, s.repair.recovered.count id ≤ config.max_repair_attempts) (id : JobId) :
    s'.repair.recovered.count id ≤ config.max_repair_attempts := by
  induction moves generalizing s with
  | nil =>
    obtain rfl := Option.some.inj hplay
    exact hall id
  | cons move moves ih =>
    rw [JobSystem.play, List.foldlM_cons] at hplay
    obtain ⟨t, hmove, hrest⟩ := Option.bind_eq_some_iff.mp hplay
    exact ih (h.move hmove).1 hrest (hwithin.2 t hmove) (h.recovered_le hmove hwithin.1 hall)

end JobSystem

/-- What holds of the jobs at any time. -/
structure JobsSound (max_jobs : ℕ) (s : JobSystem) : Prop where
  slots : s.manager.parallelCount ≤ max_jobs
  chained : ∀ ctx ∈ s.manager.contexts, Chained ctx

/-- What is kept from one time to another, of the jobs that are still there. -/
structure KeptSince (s s' : JobSystem) : Prop where
  terminal : ∀ job_id ctx ctx', s.manager.contexts.get? job_id = some ctx →
    s'.manager.contexts.get? job_id = some ctx' → ctx.state.isTerminal = true →
      ctx'.state = ctx.state
  started : ∀ job_id ctx ctx', s.manager.contexts.get? job_id = some ctx →
    s'.manager.contexts.get? job_id = some ctx' → ctx.state = .inProgress →
      ctx'.started_at.isSome

/-- No job has been recovered more often than the limit says. -/
def RecoveredWithin (config : RepairConfig) (s : JobSystem) : Prop :=
  ∀ job_id, s.repair.recovered.count job_id ≤ config.max_repair_attempts

/-- **The jobs are sound over whole runs**, for every limit, every configuration and every
interleaving; the limit on repairs is kept in the runs whose repairs are within it. -/
theorem job_runs_sound {max_jobs : ℕ} {scheduling : SchedulerConfig} {config : RepairConfig}
    {moves moves' : List JobMove} {s s' : JobSystem}
    (h : (JobSystem.new max_jobs).play scheduling config moves = some s)
    (h' : s.play scheduling config moves' = some s') :
    JobsSound max_jobs s ∧ KeptSince s s' ∧
      ((JobSystem.new max_jobs).RepairsWithin scheduling config moves →
        RecoveredWithin config s) := by
  have hnew := JobSystem.jobsInv_new max_jobs
  obtain ⟨hinv, -⟩ := hnew.play h
  obtain ⟨-, hsince⟩ := hinv.play h'
  have hevolves : ∀ job_id ctx ctx', s.manager.contexts.get? job_id = some ctx →
      s'.manager.contexts.get? job_id = some ctx' → Evolves ctx ctx' := by
    intro job_id ctx ctx' hctx hctx'
    obtain ⟨old, hold, hevolves⟩ := hsince.jobs job_id (hinv.drawn job_id ctx hctx) ctx' hctx'
    obtain rfl := Option.some.inj (hctx.symm.trans hold)
    exact hevolves
  refine ⟨⟨hinv.slots, fun ctx hctx => ?_⟩,
    ⟨fun job_id ctx ctx' hctx hctx' => (hevolves job_id ctx ctx' hctx hctx').terminal,
      fun job_id ctx ctx' hctx hctx' hprogress => ?_⟩,
    fun hwithin => JobSystem.recovered_le_of_play hnew h hwithin fun _ => Nat.zero_le _⟩
  · exact (hinv.initial ctx.job_id ctx (KeyedStore.get?_key hctx)).chained
  · have hstarted := (hinv.initial job_id ctx hctx).progress hprogress
    exact (hevolves job_id ctx ctx' hctx hctx').started hstarted

section TwoSnapshots

/-- A job that gets stuck, and two detections of it that overlap. -/
private def detectedTwice : List JobMove :=
  [.create ⟨1⟩ "alice" "report" "Write the report" 0, .schedule ⟨1⟩ 1,
    .worker ⟨1⟩ (.transition 2 .stuck (some "timed out")), .detect 0 3, .detect 1 3, .detect 0 4,
    .detect 1 4, .detect 0 5, .detect 1 5, .detect 0 6, .detect 1 6]

/-- What each of them has seen. -/
private def seenStuck : StuckJob := ⟨⟨1⟩, 2, 0, 0⟩

private def repairedTwice : List JobMove :=
  detectedTwice ++ [.repair seenStuck 7, .repair seenStuck 8]

/-- The job may be recovered twice, and is. -/
theorem job_runs_sound_repaired : ∃ s s',
    (JobSystem.new 2).play ⟨5, none, 0⟩ ⟨0, 2⟩ repairedTwice = some s ∧
      s.repair.recovered = [⟨1⟩, ⟨1⟩] ∧ s.play ⟨5, none, 0⟩ ⟨0, 2⟩ [.stop ⟨1⟩ 9] = some s' ∧
        JobsSound 2 s ∧ KeptSince s s' ∧ RecoveredWithin ⟨0, 2⟩ s := by
  have hplayed : ((JobSystem.new 2).play ⟨5, none, 0⟩ ⟨0, 2⟩ repairedTwice).any
      (fun s => s.repair.recovered = [⟨1⟩, ⟨1⟩]) = true := by decide +kernel
  obtain ⟨s, hs, hrecovered⟩ := (Option.any_eq_true _ _).mp hplayed
  have hstopped : (s.play ⟨5, none, 0⟩ ⟨0, 2⟩ [.stop ⟨1⟩ 9]).isSome = true := rfl
  obtain ⟨s', hs'⟩ := Option.isSome_iff_exists.mp hstopped
  obtain ⟨hsound, hkept, hwithin⟩ := job_runs_sound hs hs'
  exact ⟨s, s', hs, of_decide_eq_true hrecovered, hs', hsound, hkept, hwithin (by decide +kernel)⟩

/-- It may be recovered once, and is recovered twice. -/
theorem repaired_past_limit : ¬∀ max_jobs scheduling config moves s,
    (JobSystem.new max_jobs).play scheduling config moves = some s →
      JobsSound max_jobs s ∧ RecoveredWithin config s := by
  intro h
  have hplayed : ((JobSystem.new 2).play ⟨5, none, 0⟩ ⟨0, 1⟩ repairedTwice).any
      (fun s => s.repair.recovered = [⟨1⟩, ⟨1⟩]) = true := by decide +kernel
  obtain ⟨s, hs, hrecovered⟩ := (Option.any_eq_true _ _).mp hplayed
  have htwice := (h 2 ⟨5, none, 0⟩ ⟨0, 1⟩ repairedTwice s hs).2 ⟨1⟩
  rw [of_decide_eq_true hrecovered] at htwice
  exact absurd htwice (by decide)

end TwoSnapshots

end T3Claw.Jobs
