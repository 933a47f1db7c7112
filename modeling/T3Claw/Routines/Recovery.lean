import T3Claw.Routines.Trigger

/-!
# Recovery after a crash

`sync_dispatched_runs` finds a run that a crash left running by the job it is linked to. The
link is written in the middle of a full job, and never for a lightweight one: "if it fails,
sync_dispatched_runs() will never find this run (it filters on job_id IS NOT NULL), leaving it
stuck as 'running'". A crash before the link does the same. `recovered_iff` says which tables
are cleared: those where every run left running is linked.
-/

namespace T3Claw.Routines

open Conc
open T3Claw.Jobs (JobId JobState)

/-- The steps of the engine. -/
abbrev engineMachine : Machine EngineInstr EngineInstr.Answer EngineState where
  exec := EngineState.exec

/-- The state of a new process: the tables are what the old one left, nothing else is. -/
def EngineState.rebooted (s : EngineState) : EngineState :=
  { s with running_count := 0, event_cache := [], spawned := [], begun := 0 }

/-- The state once a new process has called `sync_dispatched_runs`. -/
def afterSync (h : Engine) (s : EngineState) : EngineState :=
  ((syncDispatchedRuns h).run engineMachine s.rebooted).2

/-- The jobs of the runs left over from before `boot` have left their slots, or are gone. -/
def JobsSettled (boot : Time) (s : EngineState) : Prop :=
  ∀ run ∈ s.runs, run.started_at < boot → run.status = .running → ∀ job_id,
    run.job_id = some job_id → ∀ job, s.jobs job_id = some job →
      job.state.isParallelBlocking = false

/-- No run from before `boot` is running, so that only later ones are counted. -/
structure Recovered (boot : Time) (s : EngineState) : Prop where
  finished : ∀ run ∈ s.runs, run.started_at < boot → run.status ≠ .running
  uncounted : ∀ routine_id, s.running routine_id =
    s.runs.values.countP fun run => RoutineRun.runsFor routine_id run && boot ≤ run.started_at

/-! ### What completing a run leaves -/

/-- The instruction leaves runs, jobs and the store's health alone. -/
def EngineInstr.sparesRuns : EngineInstr → Prop
  | .createRoutineRun .. | .linkRoutineRunToJob .. | .completeRoutineRun .. => False
  | _ => True

/-- The part of the state that a recovery reads. -/
structure SameRuns (s s' : EngineState) : Prop where
  runs : s'.runs = s.runs
  jobs : s'.jobs = s.jobs
  store_error : s'.store_error = s.store_error

theorem SameRuns.trans {s s' s'' : EngineState} (h : SameRuns s s') (h' : SameRuns s' s'') :
    SameRuns s s'' :=
  ⟨h'.runs.trans h.runs, h'.jobs.trans h.jobs, h'.store_error.trans h.store_error⟩

theorem sameRuns_exec {i : EngineInstr} (hi : i.sparesRuns) (s : EngineState) :
    SameRuns s (EngineState.exec i s).2 := by
  cases i with
  | createRoutineRun | linkRoutineRunToJob | completeRoutineRun => exact hi.elim
  | updateRoutineRuntime | updateRoutine =>
    obtain h | h := EngineState.stored_snd (s := s)
    all_goals
      rw [EngineState.exec, h]
      exact ⟨rfl, rfl, rfl⟩
  | listEventRoutines | listDueCronRoutines | getRoutine | countRunning | countRunningBatch |
    listDispatchedRoutineRuns | getJob | getAgentJobFailureReason =>
    rw [EngineState.exec, EngineState.stored_self]
    exact ⟨rfl, rfl, rfl⟩
  | _ => exact ⟨rfl, rfl, rfl⟩

/-- The program spares runs, jobs and the store's health. -/
abbrev SparesRuns {α : Type} (p : EngineProg α) : Prop :=
  p.Obeys (fun _ _ => True) EngineInstr.sparesRuns fun _ => True

theorem spares_updateRuntime (h : Engine) (routine : Routine) (status : RunStatus) :
    SparesRuns (updateRuntime h routine status) := by
  refine (obeys_updateRuntime h routine status).weaken (fun _ _ hr => hr) fun i hi => ?_
  cases i with
  | createRoutineRun | linkRoutineRunToJob | completeRoutineRun => exact hi.elim
  | _ => trivial

/-- What is left of the tables once a program that spares them has run. -/
theorem sameRuns_run {α : Type} {p : EngineProg α} (hp : SparesRuns p) (s : EngineState) :
    SameRuns s (p.run engineMachine s).2 :=
  (Prog.run_of_obeys (M := engineMachine) (I := SameRuns s) (fun _ _ _ _ => trivial)
    (fun _ _ hs hi => hs.trans (sameRuns_exec hi _)) hp ⟨rfl, rfl, rfl⟩).1

/-- **A run is completed in the table and nothing else happens there.** -/
theorem sameRuns_completeDispatchedRun {h : Engine} {run : RoutineRun} {status : RunStatus}
    {summary : String} {s : EngineState} (hup : s.store_error = none) :
    SameRuns
      (s.onRun run.id (RoutineRun.completed s.now status (some summary) none)
        RoutineRun.id_completed)
      ((completeDispatchedRun h run status summary).run engineMachine s).2 := by
  have hexec : engineMachine.exec (.completeRoutineRun run status (some summary) none) s =
      (.ok (), s.onRun run.id (RoutineRun.completed s.now status (some summary) none)
        RoutineRun.id_completed) := by
    simp only [EngineState.exec, EngineState.stored, hup]
  rw [completeDispatchedRun, EngineInstr.act_bind, Prog.run_act, hexec]
  refine sameRuns_run ?_ _
  refine EngineInstr.obeys_bind (i := .getRoutine run.routine_id) trivial fun routine _ => ?_
  rcases routine with e | _ | routine
  · trivial
  · trivial
  · exact spares_updateRuntime h routine status

/-! ### What a recovery leaves -/

/-- No row with this key is running. -/
def Finished (s : EngineState) (id : RunId) : Prop :=
  ∀ row, s.runs.get? id = some row → row.status ≠ .running

/-- The run is linked, to a job that has left its slot or is gone. -/
def Settled (s : EngineState) (run : RoutineRun) : Prop :=
  ∃ job_id, run.job_id = some job_id ∧ ∀ job, s.jobs job_id = some job →
    job.state.isParallelBlocking = false

/-- A state that has left its slot is a final one. -/
theorem finalStatus_of_not_blocking {state : JobState} (h : state.isParallelBlocking = false) :
    ∃ status, finalStatus state = some status ∧ status ≠ .running := by
  cases state with
  | pending | inProgress | stuck => cases h
  | completed | submitted | accepted => exact ⟨.ok, rfl, by decide⟩
  | failed | cancelled => exact ⟨.failed, rfl, by decide⟩

section

variable {h : Engine} {run : RoutineRun} {s s' : EngineState}

/-- `run` has been completed, and that is all that has happened to the tables. -/
def CompletedIn (run : RoutineRun) (s s' : EngineState) : Prop :=
  ∃ status summary, status ≠ .running ∧
    SameRuns (s.onRun run.id (RoutineRun.completed s.now status summary none)
      RoutineRun.id_completed) s'

theorem completedIn_run (hup : s.store_error = none) {status : RunStatus}
    (hstatus : status ≠ .running) (summary : String) :
    CompletedIn run s ((completeDispatchedRun h run status summary).run engineMachine s).2 :=
  ⟨status, some summary, hstatus, sameRuns_completeDispatchedRun hup⟩

/-- **An orphaned run whose job has settled is completed.** -/
theorem completedIn_syncDispatchedRun (hup : s.store_error = none) (hset : Settled s run) :
    CompletedIn run s ((syncDispatchedRun h run).run engineMachine s).2 := by
  obtain ⟨job_id, hjob, hfree⟩ := hset
  have hget : engineMachine.exec (.getJob job_id) s = (.ok (s.jobs job_id), s) := by
    simp only [EngineState.exec, EngineState.stored, hup]
  rw [syncDispatchedRun, hjob]
  dsimp only
  rw [EngineInstr.act_bind, Prog.run_act, hget]
  dsimp only
  cases hrow : s.jobs job_id with
  | none => exact completedIn_run hup (by decide) _
  | some job =>
    obtain ⟨status, hfinal, hstatus⟩ := finalStatus_of_not_blocking (hfree job hrow)
    rw [syncWithJob, hfinal]
    dsimp only
    split
    · have hreason : engineMachine.exec (.getAgentJobFailureReason job_id) s =
          (.ok ((s.jobs job_id).bind AgentJob.failure_reason), s) := by
        simp only [EngineState.exec, EngineState.stored, hup]
      rw [EngineInstr.act_bind, Prog.run_act, hreason]
      dsimp only
      split <;> exact completedIn_run hup hstatus _
    · exact completedIn_run hup hstatus _

namespace CompletedIn

theorem store_error (hc : CompletedIn run s s') : s'.store_error = s.store_error := by
  obtain ⟨status, summary, -, hsame⟩ := hc
  exact hsame.store_error

theorem jobs (hc : CompletedIn run s s') : s'.jobs = s.jobs := by
  obtain ⟨status, summary, -, hsame⟩ := hc
  exact hsame.jobs

/-- The other rows are as they were. -/
theorem get?_of_ne (hc : CompletedIn run s s') {id : RunId} (hne : id ≠ run.id) :
    s'.runs.get? id = s.runs.get? id := by
  obtain ⟨status, summary, -, hsame⟩ := hc
  rw [hsame.runs, EngineState.onRun, KeyedStore.get?_modify_of_ne _ hne]

/-- Its own row is finished. -/
theorem finished_self (hc : CompletedIn run s s') : Finished s' run.id := by
  obtain ⟨status, summary, hstatus, hsame⟩ := hc
  intro row hrow
  rw [hsame.runs, EngineState.onRun, KeyedStore.get?_modify_self] at hrow
  obtain ⟨old, -, rfl⟩ := Option.map_eq_some_iff.mp hrow
  exact hstatus

/-- A finished row stays finished. -/
theorem finished (hc : CompletedIn run s s') {id : RunId} (hid : Finished s id) :
    Finished s' id := by
  by_cases heq : id = run.id
  · rw [heq]
    exact hc.finished_self
  · intro row hrow
    rw [hc.get?_of_ne heq] at hrow
    exact hid row hrow

end CompletedIn

/-- What finishing a list of runs leaves. -/
structure AllCompleted (runs : List RoutineRun) (s s' : EngineState) : Prop where
  untouched : ∀ id, (∀ run ∈ runs, run.id ≠ id) → s'.runs.get? id = s.runs.get? id
  completed : ∀ run ∈ runs, Finished s' run.id
  finished : ∀ id, Finished s id → Finished s' id

theorem allCompleted_syncEach {runs : List RoutineRun} (hup : s.store_error = none)
    (hset : ∀ run ∈ runs, Settled s run) :
    AllCompleted runs s ((syncEach h runs).run engineMachine s).2 := by
  induction runs generalizing s with
  | nil => exact ⟨fun _ _ => rfl, List.forall_mem_nil _, fun _ hid => hid⟩
  | cons run rest ih =>
    have hc := completedIn_syncDispatchedRun (h := h) hup (hset run List.mem_cons_self)
    have hrest := ih (hc.store_error.trans hup) fun other hother => by
      obtain ⟨job_id, hjob, hfree⟩ := hset other (List.mem_cons_of_mem _ hother)
      exact ⟨job_id, hjob, fun job hrow => hfree job (hc.jobs ▸ hrow)⟩
    rw [syncEach, Prog.run_bind]
    refine ⟨fun id hid => ?_, fun other hother => ?_, fun id hid => ?_⟩
    · have hne : id ≠ run.id := (hid run List.mem_cons_self).symm
      have hothers : ∀ other ∈ rest, other.id ≠ id := fun other hother =>
        hid other (List.mem_cons_of_mem _ hother)
      rw [hrest.untouched id hothers, hc.get?_of_ne hne]
    · obtain rfl | hother := List.mem_cons.mp hother
      · exact hrest.finished _ hc.finished_self
      · exact hrest.completed other hother
    · exact hrest.finished id (hc.finished hid)

/-! ### When the tables are cleared -/

/-- The runs the recovery works on. -/
def orphaned (h : Engine) (s : EngineState) : List RoutineRun :=
  (s.runs.values.filter RoutineRun.dispatched).filter fun run => run.started_at < h.boot_time

theorem mem_orphaned : run ∈ orphaned h s ↔ run ∈ s.runs ∧ run.status = .running ∧
    run.job_id.isSome ∧ run.started_at < h.boot_time := by
  simp only [orphaned, RoutineRun.dispatched, KeyedStore.mem_def, List.mem_filter,
    Bool.and_eq_true, decide_eq_true_eq, and_assoc]

theorem allCompleted_afterSync (hup : s.store_error = none)
    (hjobs : JobsSettled h.boot_time s) :
    AllCompleted (orphaned h s) s.rebooted (afterSync h s) := by
  have hlist : engineMachine.exec .listDispatchedRoutineRuns s.rebooted =
      (.ok (s.runs.values.filter RoutineRun.dispatched), s.rebooted) := by
    simp only [EngineState.exec, EngineState.stored, EngineState.rebooted, hup]
  rw [afterSync, syncDispatchedRuns, EngineInstr.act_bind, Prog.run_act, hlist]
  refine allCompleted_syncEach hup fun run hrun => ?_
  obtain ⟨hmem, hrunning, hlinked, hbefore⟩ := mem_orphaned.mp hrun
  obtain ⟨job_id, hjob⟩ := Option.isSome_iff_exists.mp hlinked
  exact ⟨job_id, hjob, hjobs run hmem hbefore hrunning job_id hjob⟩

/-- What is not running is not counted. -/
theorem Recovered.of_finished {boot : Time}
    (hfin : ∀ run ∈ s.runs, run.started_at < boot → run.status ≠ .running) :
    Recovered boot s := by
  refine ⟨hfin, fun routine_id => List.countP_congr fun run hrun => ?_⟩
  have hlate : run.status = .running → boot ≤ run.started_at := fun hrunning =>
    not_lt.mp fun hlt => hfin run hrun hlt hrunning
  simp only [RoutineRun.runsFor, Bool.and_eq_true, decide_eq_true_eq]
  exact ⟨fun hr => ⟨hr, hlate hr.2⟩, fun hr => hr.1⟩

/-- **A crash is recovered from exactly when every run it left running is linked to a job.** -/
theorem recovered_iff (h : Engine) (s : EngineState) (hup : s.store_error = none)
    (hjobs : JobsSettled h.boot_time s) :
    Recovered h.boot_time (afterSync h s) ↔
      ∀ run ∈ s.runs, run.started_at < h.boot_time → run.status = .running →
        run.job_id.isSome := by
  have hall := allCompleted_afterSync hup hjobs
  have hnames : ∀ run ∈ s.runs, run ∉ orphaned h s → ∀ other ∈ orphaned h s,
      other.id ≠ run.id := fun run hrun hno other hother heq =>
    hno (KeyedStore.eq_of_mem (mem_orphaned.mp hother).1 hrun heq ▸ hother)
  constructor
  · intro hrec run hrun hbefore hrunning
    by_contra hlink
    -- A run that is not linked is not found, so its row is still there.
    have hno : run ∉ orphaned h s := fun hmem => hlink (mem_orphaned.mp hmem).2.2.1
    have hsame := hall.untouched run.id (hnames run hrun hno)
    have hstill : run ∈ (afterSync h s).runs :=
      KeyedStore.mem_of_get? (hsame.trans (KeyedStore.get?_key hrun))
    exact hrec.finished run hstill hbefore hrunning
  · intro hlinked
    refine .of_finished fun run hrun hbefore hrunning => ?_
    have hget := KeyedStore.get?_key hrun
    by_cases hmem : ∃ other ∈ orphaned h s, other.id = run.id
    · obtain ⟨other, hother, hid⟩ := hmem
      exact hall.completed other hother run (hid ▸ hget) hrunning
    · have hold : ∀ other ∈ orphaned h s, other.id ≠ run.id := fun other hother heq =>
        hmem ⟨other, hother, heq⟩
      rw [hall.untouched run.id hold] at hget
      have hrun' : run ∈ s.runs := KeyedStore.mem_of_get? hget
      have hlink := hlinked run hrun' hbefore hrunning
      exact hmem ⟨run, mem_orphaned.mpr ⟨hrun', hrunning, hlink, hbefore⟩, rfl⟩

end

/-! ### A run that was fired by hand -/

/-- A lightweight routine is fired; the process dies once the run has been recorded. -/
def crashedByHand : List EngineMove :=
  [call (.fireManual ⟨1⟩ none) 0 5, [.env (.clock 3600)]].flatten

/-- The tables after a restart with a full job that has been linked and has completed. -/
def linkedTables : EngineState :=
  { EngineState.sample with
    runs := KeyedStore.empty.insert
      { newRun ⟨7⟩ Routine.sample "cron" none 0 with job_id := some ⟨4⟩ }
    jobs := fun job_id => if job_id = ⟨4⟩ then some ⟨.completed, none⟩ else none }

/-- The theorem on a completed job. -/
theorem recovered_iff_linked : Recovered 5 (afterSync (.sample 5) linkedTables) ↔
    ∀ run ∈ linkedTables.runs, run.started_at < 5 → run.status = .running →
      run.job_id.isSome := by
  refine recovered_iff (.sample 5) linkedTables rfl fun run hrun _ _ job_id hlink job hjob => ?_
  obtain rfl : run = { newRun ⟨7⟩ Routine.sample "cron" none 0 with job_id := some ⟨4⟩ } :=
    List.mem_singleton.mp hrun
  obtain rfl : ⟨4⟩ = job_id := Option.some.inj hlink
  obtain rfl : ⟨.completed, none⟩ = job := Option.some.inj hjob
  rfl

/-- The run is recorded, the process dies, and no recovery finds the run: the routine has one
run too many for ever. -/
theorem crash_wedges_routine : ∃ c, (engineSystem (.sample 0)).play (.idle .sample)
      crashedByHand = some c ∧ c.state.store_error = none ∧ JobsSettled c.state.now c.state ∧
    ¬ Recovered c.state.now (afterSync (.sample c.state.now) c.state) ∧
      Routine.sample.guardrails.max_concurrent ≤
        (afterSync (.sample c.state.now) c.state).running Routine.sample.id := by
  have hrun : ((engineSystem (.sample 0)).play (.idle .sample) crashedByHand).any (fun c =>
      c.state.store_error.isNone && c.state.runs.values.all (fun run => run.job_id.isNone) &&
        (afterSync (.sample c.state.now) c.state).running Routine.sample.id == 1 &&
          (afterSync (.sample c.state.now) c.state).runs.values.all
            fun run => run.started_at < c.state.now) = true := by
    decide +kernel
  obtain ⟨c, hplay, hc⟩ := (Option.any_eq_true _ _).mp hrun
  simp only [Bool.and_eq_true, Option.isNone_iff_eq_none, List.all_eq_true, beq_iff_eq,
    decide_eq_true_eq] at hc
  obtain ⟨⟨⟨hup, hlinks⟩, hone⟩, hbefore⟩ := hc
  refine ⟨c, hplay, hup, fun run hrun _ _ job_id hjob => ?_, fun hrec => ?_, hone.ge⟩
  · rw [hlinks run hrun] at hjob
    cases hjob
  · have hzero := hrec.uncounted Routine.sample.id
    have hnone : ∀ run ∈ (afterSync (.sample c.state.now) c.state).runs.values,
        ¬ (RoutineRun.runsFor Routine.sample.id run &&
          decide (c.state.now ≤ run.started_at)) = true := by
      intro run hmem hcounted
      have hlate := (Bool.and_eq_true _ _).mp hcounted
      exact (not_lt.mpr (of_decide_eq_true hlate.2)) (hbefore run hmem)
    rw [hone, List.countP_eq_zero.mpr hnone] at hzero
    cases hzero

end T3Claw.Routines
