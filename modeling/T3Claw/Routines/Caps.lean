import T3Claw.Conc.Log
import T3Claw.Routines.Recovery

/-!
# Concurrency caps

Two limits are checked before a fire: the running runs of the routine, read from the table, and
the shared counter. What is checked becomes true only later, when the run is recorded and when a
task of its own begins the execution, and every fire that was admitted in between has been
admitted on the same numbers.

The caps hold in a run of the engine in which nothing of the kind happens in between (`Timely`):
no run of the routine is recorded between the count that admitted a run and its own recording,
and no automatic execution begins between the load that admitted one and its own beginning.

The argument needs no bound on what is in flight. A routine's runs are running or finished, and
finished ones stay finished, so a count below the cap bounds the runs recorded so far by the cap
and the finished ones (`Free`), and this lasts; likewise for the executions (`Room`).
-/

namespace T3Claw.Routines

open Conc
open T3Claw.Jobs (JobState)

namespace EngineInstr

/-- An execution begins; whether its run was started by hand. -/
def begins (automatic : Bool) : EngineInstr → Bool
  | fetchAdd run _ => run.automatic == automatic
  | _ => false

/-- An execution ends. -/
def ends (automatic : Bool) : EngineInstr → Bool
  | fetchSub run => run.automatic == automatic
  | _ => false

end EngineInstr

/-- The automatic executions in progress. -/
def inProgress (c : EngineConf) : ℕ :=
  countOf (EngineInstr.begins true) c.log - countOf (EngineInstr.ends true) c.log

/-- The two caps. -/
structure WithinCaps (h : Engine) (c : EngineConf) : Prop where
  automatic : inProgress c ≤ h.config.max_concurrent_routines
  routines : ∀ routine ∈ c.state.routines,
    c.state.running routine.id ≤ routine.guardrails.max_concurrent

/-- A run is recorded when no other run of its routine has been since its count was read, and an
automatic execution begins when no other has since its load. -/
def timely (s : EngineState) : EngineInstr → Bool
  | .createRoutineRun run checks => checks.counted = s.recorded run.routine_id
  | .fetchAdd run checks => !run.automatic || checks.loaded = s.begun
  | _ => true

/-- A move that is timely, and no edit. -/
def timelyMove (c : EngineConf) : EngineMove → Bool
  | .step k =>
    match c.tasks[k]? with
    | some ⟨_, .act i _⟩ => timely c.state i
    | _ => true
  | .start (.routineUpdate ..) => false
  | _ => true

/-! ### What is known along the way -/

/-- The runs of a routine that are over. -/
def EngineState.finished (s : EngineState) (routine_id : RoutineId) : ℕ :=
  s.runs.values.countP fun run => run.routine_id = routine_id && run.status ≠ .running

/-- The routine has the cap it had at first. -/
def Known (caps : RoutineId → ℕ) (routine : Routine) : Prop :=
  routine.guardrails.max_concurrent = caps routine.id

/-- A run of the routine may be recorded while there are no more than `seen`. -/
def Free (caps : RoutineId → ℕ) (m : EngineMemory) (routine_id : RoutineId) (seen : ℕ) : Prop :=
  seen < caps routine_id + m.state.finished routine_id

/-- An automatic execution may begin while no more than `seen` have. -/
def Room (h : Engine) (m : EngineMemory) (seen : ℕ) : Prop :=
  seen < h.config.max_concurrent_routines + countOf (EngineInstr.ends true) m.log

/-- What a spawned future was admitted on. -/
def Admitted (h : Engine) (caps : RoutineId → ℕ) (m : EngineMemory) : Spawned → Prop
  | .fire _ run checks =>
    Free caps m run.routine_id checks.counted ∧ (run.automatic = true → Room h m checks.loaded)
  | .execute _ run checks => run.automatic = true → Room h m checks.loaded

/-- What holds at any time. -/
structure Capped (h : Engine) (caps : RoutineId → ℕ) (m : EngineMemory) : Prop where
  rows : ∀ routine ∈ m.state.routines, Known caps routine
  cached : ∀ matcher ∈ m.state.event_cache, Known caps matcher.routine
  running : ∀ routine_id, m.state.running routine_id ≤ caps routine_id
  balanced : ∀ a k, countBy (EngineInstr.ends a) k m.log ≤ countBy (EngineInstr.begins a) k m.log
  counted : m.state.running_count + countOf (EngineInstr.ends true) m.log +
      countOf (EngineInstr.ends false) m.log =
    countOf (EngineInstr.begins true) m.log + countOf (EngineInstr.begins false) m.log
  begun : m.state.begun = countOf (EngineInstr.begins true) m.log
  capped : countOf (EngineInstr.begins true) m.log ≤
    countOf (EngineInstr.ends true) m.log + h.config.max_concurrent_routines
  spawned : ∀ future ∈ m.state.spawned, Admitted h caps m future

/-- What only grows. -/
structure Longer (m m' : EngineMemory) : Prop where
  finished : ∀ routine_id, m.state.finished routine_id ≤ m'.state.finished routine_id
  ended : countOf (EngineInstr.ends true) m.log ≤ countOf (EngineInstr.ends true) m'.log

theorem Longer.then {m m' m'' : EngineMemory} (hl : Longer m m') (hl' : Longer m' m'') :
    Longer m m'' :=
  ⟨fun id => (hl.finished id).trans (hl'.finished id), hl.ended.trans hl'.ended⟩

/-- The tasks of the engine, while no routine is edited. -/
def capsProtocol (h : Engine) (caps : RoutineId → ℕ) :
    Protocol EngineCall EngineInstr EngineState where
  inv := Capped h caps
  later := Longer
  allowed _ _ i m := timely m.state i = true
  later_refl _ := ⟨fun _ => le_rfl, le_rfl⟩
  later_trans hl hl' := hl.then hl'

section

variable {h : Engine} {caps : RoutineId → ℕ} {m m' : EngineMemory} {k : ℕ}

theorem Free.longer {id : RoutineId} {seen : ℕ} (hf : Free caps m id seen) (hl : Longer m m') :
    Free caps m' id seen :=
  lt_of_lt_of_le hf (Nat.add_le_add_left (hl.finished id) _)

theorem Room.longer {seen : ℕ} (hr : Room h m seen) (hl : Longer m m') : Room h m' seen :=
  lt_of_lt_of_le hr (Nat.add_le_add_left hl.ended _)

theorem Admitted.longer {future : Spawned} (ha : Admitted h caps m future) (hl : Longer m m') :
    Admitted h caps m' future := by
  cases future with
  | fire routine run checks => exact ⟨ha.1.longer hl, fun hrun => (ha.2 hrun).longer hl⟩
  | execute routine run checks => exact fun hrun => (ha hrun).longer hl

/-- A run is running or over. -/
theorem EngineState.recorded_eq (s : EngineState) (id : RoutineId) :
    s.recorded id = s.running id + s.finished id := by
  unfold recorded running finished
  induction s.runs.values with
  | nil => rfl
  | cons run runs ih =>
    simp only [List.countP_cons, ih, RoutineRun.runsFor]
    by_cases hid : run.routine_id = id <;> by_cases hrun : run.status = .running
    all_goals
      simp only [hid, hrun, decide_true, decide_false, Bool.and_true, Bool.and_false, ne_eq,
        not_true_eq_false, not_false_eq_true, if_true, Bool.false_eq_true, if_false]
      omega

/-- A count below the cap leaves the routine free. -/
theorem Capped.free_of_running_lt {id : RoutineId} (hlt : m.state.running id < caps id) :
    Free caps m id (m.state.recorded id) := by
  have hsum := m.state.recorded_eq id
  unfold Free
  omega

/-- The counter is at least the automatic executions in progress, so a load below the cap
leaves room. -/
theorem Capped.room_of_running_count_lt (hc : Capped h caps m)
    (hlt : m.state.running_count < h.config.max_concurrent_routines) :
    Room h m m.state.begun := by
  have hmanual := countOf_le_of_countBy (hc.balanced false)
  have hsum := hc.counted
  have hbegun := hc.begun
  unfold Room
  omega

/-- A count that is due is below the cap. -/
theorem Free.running_lt {id : RoutineId} (hf : Free caps m id (m.state.recorded id)) :
    m.state.running id < caps id := by
  have hsum := m.state.recorded_eq id
  unfold Free at hf
  omega

end

/-! ### What a step does to the counts -/

section

variable {s : EngineState} {p : RoutineRun → Bool} {id : RunId} {f : RoutineRun → RoutineRun}
  {hf : ∀ row, (f row).id = row.id}

theorem countP_onRun_le (h : ∀ row, p (f row) = true → p row = true) :
    (s.onRun id f hf).runs.values.countP p ≤ s.runs.values.countP p := by
  rw [EngineState.onRun, KeyedStore.modify, List.countP_map]
  refine List.countP_mono_left fun row _ hrow => ?_
  dsimp only [Function.comp] at hrow
  split at hrow
  · exact h row hrow
  · exact hrow

theorem le_countP_onRun (h : ∀ row, p row = true → p (f row) = true) :
    s.runs.values.countP p ≤ (s.onRun id f hf).runs.values.countP p := by
  rw [EngineState.onRun, KeyedStore.modify, List.countP_map]
  refine List.countP_mono_left fun row _ hrow => ?_
  dsimp only [Function.comp]
  split
  · exact h row hrow
  · exact hrow

end

/-- What a run writes into the cache keeps the caps there. -/
theorem known_updateCached {caps : RoutineId → ℕ} {id : RoutineId} {last_run_at : Time}
    {run_count failures : ℕ} {cache : List EventMatcher}
    (h : ∀ matcher ∈ cache, Known caps matcher.routine) :
    ∀ matcher ∈ updateCached id last_run_at run_count failures cache,
      Known caps matcher.routine := by
  induction cache with
  | nil => exact h
  | cons matcher rest ih =>
    obtain ⟨hfirst, hrest⟩ := List.forall_mem_cons.mp h
    unfold updateCached
    split
    · refine List.forall_mem_cons.mpr ⟨?_, hrest⟩
      cases matcher <;> exact hfirst
    · exact List.forall_mem_cons.mpr ⟨hfirst, ih hrest⟩

/-! ### Every step keeps the caps -/

section

variable {h : Engine} {caps : RoutineId → ℕ} {m : EngineMemory} {k : ℕ} {i : EngineInstr}
  {s' : EngineState}

theorem Longer.cons (k : ℕ) (i : EngineInstr)
    (hfin : ∀ id, m.state.finished id ≤ s'.finished id) : Longer m ⟨s', (k, i) :: m.log⟩ := by
  refine ⟨hfin, ?_⟩
  rw [countOf_cons]
  exact Nat.le_add_right _ _

/-- A step that neither begins nor ends an execution. -/
theorem Capped.quiet (hc : Capped h caps m) (hb : ∀ a, i.begins a = false)
    (he : ∀ a, i.ends a = false) (hcount : s'.running_count = m.state.running_count)
    (hbegun : s'.begun = m.state.begun) (hrows : ∀ routine ∈ s'.routines, Known caps routine)
    (hcached : ∀ matcher ∈ s'.event_cache, Known caps matcher.routine)
    (hrunning : ∀ id, s'.running id ≤ caps id)
    (hfin : ∀ id, m.state.finished id ≤ s'.finished id)
    (hspawned : ∀ future ∈ s'.spawned, Admitted h caps m future) :
    Capped h caps ⟨s', (k, i) :: m.log⟩ := by
  have hof : ∀ {p : EngineInstr → Bool}, p i = false →
      countOf p ((k, i) :: m.log) = countOf p m.log := fun hp => by
    rw [countOf_cons, hp]
    rfl
  have hby : ∀ {p : EngineInstr → Bool} j, p i = false →
      countBy p j ((k, i) :: m.log) = countBy p j m.log := fun j hp => by
    simp [countBy_cons, hp]
  refine ⟨hrows, hcached, hrunning, fun a j => ?_, ?_, ?_, ?_, fun future hmem => ?_⟩
  · rw [hby j (he a), hby j (hb a)]
    exact hc.balanced a j
  · rw [hof (he true), hof (he false), hof (hb true), hof (hb false), hcount]
    exact hc.counted
  · rw [hof (hb true), hbegun]
    exact hc.begun
  · rw [hof (hb true), hof (he true)]
    exact hc.capped
  · exact (hspawned future hmem).longer (.cons k i hfin)

/-- A step that leaves the tables, the cache and the futures alone as well. -/
theorem Capped.same (hc : Capped h caps m) (hb : ∀ a, i.begins a = false)
    (he : ∀ a, i.ends a = false) (hcount : s'.running_count = m.state.running_count)
    (hbegun : s'.begun = m.state.begun) (hrows : s'.routines = m.state.routines)
    (hruns : s'.runs = m.state.runs) (hcache : s'.event_cache = m.state.event_cache)
    (hspawned : s'.spawned = m.state.spawned) :
    Capped h caps ⟨s', (k, i) :: m.log⟩ ∧ Longer m ⟨s', (k, i) :: m.log⟩ := by
  have hfin : ∀ id, m.state.finished id ≤ s'.finished id := fun id => by
    rw [EngineState.finished, EngineState.finished, hruns]
  refine ⟨hc.quiet hb he hcount hbegun (hrows ▸ hc.rows) (hcache ▸ hc.cached) (fun id => ?_)
    hfin (hspawned ▸ hc.spawned), .cons k i hfin⟩
  rw [EngineState.running, hruns]
  exact hc.running id

/-- A step on the runs that makes none running and undoes no completion. -/
theorem Capped.onRun (hc : Capped h caps m) (hb : ∀ a, i.begins a = false)
    (he : ∀ a, i.ends a = false) {id : RunId} {f : RoutineRun → RoutineRun}
    {hf : ∀ row, (f row).id = row.id} (hroutine : ∀ row, (f row).routine_id = row.routine_id)
    (hstatus : ∀ row, row.status ≠ .running → (f row).status ≠ .running) :
    Capped h caps ⟨m.state.onRun id f hf, (k, i) :: m.log⟩ ∧
      Longer m ⟨m.state.onRun id f hf, (k, i) :: m.log⟩ := by
  have hfin : ∀ routine_id, m.state.finished routine_id ≤
      (m.state.onRun id f hf).finished routine_id := fun routine_id => by
    refine le_countP_onRun fun row hrow => ?_
    simp only [Bool.and_eq_true, decide_eq_true_eq] at hrow ⊢
    exact ⟨(hroutine row).trans hrow.1, hstatus row hrow.2⟩
  refine ⟨hc.quiet hb he rfl rfl hc.rows hc.cached (fun routine_id => ?_) hfin hc.spawned,
    .cons k i hfin⟩
  refine (countP_onRun_le fun row hrow => ?_).trans (hc.running routine_id)
  simp only [RoutineRun.runsFor, Bool.and_eq_true, decide_eq_true_eq] at hrow ⊢
  exact ⟨(hroutine row).symm.trans hrow.1, by_contra fun hover => hstatus row hover hrow.2⟩

/-- A step on the routines that keeps their caps. -/
theorem Capped.onRoutine (hc : Capped h caps m) (hb : ∀ a, i.begins a = false)
    (he : ∀ a, i.ends a = false) {id : RoutineId} {f : Routine → Routine}
    {hf : ∀ row, (f row).id = row.id} (hguard : ∀ row, (f row).guardrails = row.guardrails) :
    Capped h caps ⟨m.state.onRoutine id f hf, (k, i) :: m.log⟩ ∧
      Longer m ⟨m.state.onRoutine id f hf, (k, i) :: m.log⟩ := by
  refine ⟨hc.quiet hb he rfl rfl (fun routine hmem => ?_) hc.cached hc.running
    (fun _ => le_rfl) hc.spawned, .cons k i fun _ => le_rfl⟩
  obtain ⟨row, hrow, rfl⟩ := (KeyedStore.mem_modify hf).mp hmem
  have hknown := hc.rows row hrow
  split
  · rw [Known, hguard row, hf row]
    exact hknown
  · exact hknown

/-- A store operation that is made, or not. -/
theorem capped_stored {β : Type} {answer : β} (hc : Capped h caps m)
    (hb : ∀ a, i.begins a = false) (he : ∀ a, i.ends a = false)
    (hmade : Capped h caps ⟨s', (k, i) :: m.log⟩ ∧ Longer m ⟨s', (k, i) :: m.log⟩) :
    Capped h caps ⟨(m.state.stored answer s').2, (k, i) :: m.log⟩ ∧
      Longer m ⟨(m.state.stored answer s').2, (k, i) :: m.log⟩ := by
  have hcases : (m.state.stored answer s').2 = m.state ∨ (m.state.stored answer s').2 = s' :=
    EngineState.stored_snd
  obtain hsame | hnew := hcases
  · rw [hsame]
    exact hc.same hb he rfl rfl rfl rfl rfl rfl
  · rw [hnew]
    exact hmade

/-- A run is recorded. -/
theorem Capped.createRun (hc : Capped h caps m) {run : RoutineRun} {checks : Checks}
    (hfree : Free caps m run.routine_id (m.state.recorded run.routine_id)) :
    Capped h caps ⟨(m.state.createRun run).2, (k, .createRoutineRun run checks) :: m.log⟩ ∧
      Longer m ⟨(m.state.createRun run).2, (k, .createRoutineRun run checks) :: m.log⟩ := by
  have hb : ∀ a, (EngineInstr.createRoutineRun run checks).begins a = false := fun _ => rfl
  have he : ∀ a, (EngineInstr.createRoutineRun run checks).ends a = false := fun _ => rfl
  unfold EngineState.createRun
  split
  · exact hc.same hb he rfl rfl rfl rfl rfl rfl
  · exact hc.same hb he rfl rfl rfl rfl rfl rfl
  · next hnew =>
    have hrun : ∀ p : RoutineRun → Bool, (m.state.runs.insert run).values.countP p =
        m.state.runs.values.countP p + if p run then 1 else 0 :=
      KeyedStore.countP_insert_of_none hnew
    have hfin : ∀ id, m.state.finished id ≤
        ({ m.state with runs := m.state.runs.insert run } : EngineState).finished id :=
      fun id => by
        rw [EngineState.finished, EngineState.finished, hrun]
        exact Nat.le_add_right _ _
    refine ⟨hc.quiet hb he rfl rfl hc.rows hc.cached (fun id => ?_) hfin hc.spawned,
      .cons k _ hfin⟩
    have hold := hc.running id
    rw [EngineState.running, hrun]
    split
    case isFalse => exact hold
    case isTrue hcounted =>
      have hid : run.routine_id = id :=
        of_decide_eq_true ((Bool.and_eq_true _ _).mp hcounted).1
      have hlt := hfree.running_lt
      rw [hid] at hlt
      exact hlt

/-! ### Beginning and ending -/

section

variable {run : RoutineRun} {checks : Checks} {log : List (ℕ × EngineInstr)} (a : Bool)

theorem countOf_begins_fetchAdd :
    countOf (EngineInstr.begins a) ((k, .fetchAdd run checks) :: log) =
      countOf (EngineInstr.begins a) log + if run.automatic == a then 1 else 0 :=
  countOf_cons ..

theorem countOf_ends_fetchAdd :
    countOf (EngineInstr.ends a) ((k, .fetchAdd run checks) :: log) =
      countOf (EngineInstr.ends a) log := countOf_cons ..

theorem countOf_begins_fetchSub :
    countOf (EngineInstr.begins a) ((k, .fetchSub run) :: log) =
      countOf (EngineInstr.begins a) log := countOf_cons ..

theorem countOf_ends_fetchSub :
    countOf (EngineInstr.ends a) ((k, .fetchSub run) :: log) =
      countOf (EngineInstr.ends a) log + if run.automatic == a then 1 else 0 := countOf_cons ..

theorem countBy_begins_fetchAdd (j : ℕ) :
    countBy (EngineInstr.begins a) j ((k, .fetchAdd run checks) :: log) =
      countBy (EngineInstr.begins a) j log + if k = j ∧ (run.automatic == a) = true then 1 else 0 :=
  countBy_cons ..

theorem countBy_ends_fetchAdd (j : ℕ) :
    countBy (EngineInstr.ends a) j ((k, .fetchAdd run checks) :: log) =
      countBy (EngineInstr.ends a) j log := by
  rw [countBy_cons, if_neg (by simp [EngineInstr.ends])]
  rfl

theorem countBy_begins_fetchSub (j : ℕ) :
    countBy (EngineInstr.begins a) j ((k, .fetchSub run) :: log) =
      countBy (EngineInstr.begins a) j log := by
  rw [countBy_cons, if_neg (by simp [EngineInstr.begins])]
  rfl

theorem countBy_ends_fetchSub (j : ℕ) :
    countBy (EngineInstr.ends a) j ((k, .fetchSub run) :: log) =
      countBy (EngineInstr.ends a) j log + if k = j ∧ (run.automatic == a) = true then 1 else 0 :=
  countBy_cons ..

end

/-- An execution begins. -/
theorem Capped.fetchAdd (hc : Capped h caps m) {run : RoutineRun} {checks : Checks}
    (hroom : run.automatic = true → Room h m m.state.begun) :
    Capped h caps (m.after engineMachine k (.fetchAdd run checks)) ∧
      Longer m (m.after engineMachine k (.fetchAdd run checks)) := by
  have hlonger : Longer m (m.after engineMachine k (.fetchAdd run checks)) :=
    .cons k _ fun _ => le_rfl
  refine ⟨⟨hc.rows, hc.cached, hc.running, fun a j => ?_, ?_, ?_, ?_, fun future hmem => ?_⟩,
    hlonger⟩
  · rw [Memory.log_after, countBy_ends_fetchAdd, countBy_begins_fetchAdd]
    exact (hc.balanced a j).trans (Nat.le_add_right _ _)
  · have hsum := hc.counted
    rw [Memory.log_after, countOf_ends_fetchAdd, countOf_ends_fetchAdd, countOf_begins_fetchAdd,
      countOf_begins_fetchAdd]
    have hone : (if run.automatic == true then 1 else 0) +
        (if run.automatic == false then 1 else 0) = 1 := by
      cases run.automatic <;> rfl
    have hstep : (m.after engineMachine k (.fetchAdd run checks)).state.running_count =
      m.state.running_count + 1 := rfl
    omega
  · have hbegun := hc.begun
    have hstep : (m.after engineMachine k (.fetchAdd run checks)).state.begun =
      if run.automatic = true then m.state.begun + 1 else m.state.begun := rfl
    rw [Memory.log_after, countOf_begins_fetchAdd, hstep]
    cases run.automatic
    · exact hbegun
    · exact congrArg (· + 1) hbegun
  · have hcap := hc.capped
    rw [Memory.log_after, countOf_begins_fetchAdd, countOf_ends_fetchAdd]
    split
    · next hauto =>
      have hlt := hroom (by simpa using hauto)
      rw [Room, hc.begun] at hlt
      omega
    · exact hcap
  · exact (hc.spawned future hmem).longer hlonger

/-- An execution ends, of a task that has begun one. -/
theorem Capped.fetchSub (hc : Capped h caps m) {run : RoutineRun}
    (hbegan : countBy (EngineInstr.ends run.automatic) k m.log <
      countBy (EngineInstr.begins run.automatic) k m.log) :
    Capped h caps (m.after engineMachine k (.fetchSub run)) ∧
      Longer m (m.after engineMachine k (.fetchSub run)) := by
  have hlonger : Longer m (m.after engineMachine k (.fetchSub run)) :=
    .cons k _ fun _ => le_rfl
  refine ⟨⟨hc.rows, hc.cached, hc.running, fun a j => ?_, ?_, ?_, ?_, fun future hmem => ?_⟩,
    hlonger⟩
  · rw [Memory.log_after, countBy_ends_fetchSub, countBy_begins_fetchSub]
    split
    · next hown =>
      obtain ⟨rfl, ha⟩ := hown
      obtain rfl := eq_of_beq ha
      exact hbegan
    · exact hc.balanced a j
  · have hsum := hc.counted
    -- The counter is above zero: this task's execution is among those in progress.
    have hlt := countOf_lt_of_countBy (hc.balanced run.automatic) hbegan
    have htrue := countOf_le_of_countBy (hc.balanced true)
    have hfalse := countOf_le_of_countBy (hc.balanced false)
    rw [Memory.log_after, countOf_ends_fetchSub, countOf_ends_fetchSub, countOf_begins_fetchSub,
      countOf_begins_fetchSub]
    have hone : (if run.automatic == true then 1 else 0) +
        (if run.automatic == false then 1 else 0) = 1 := by
      cases run.automatic <;> rfl
    have hpos : countOf (EngineInstr.ends true) m.log + countOf (EngineInstr.ends false) m.log <
        countOf (EngineInstr.begins true) m.log + countOf (EngineInstr.begins false) m.log := by
      cases hrun : run.automatic
      all_goals
        rw [hrun] at hlt
        omega
    have hstep : (m.after engineMachine k (.fetchSub run)).state.running_count =
      m.state.running_count - 1 := rfl
    omega
  · rw [Memory.log_after, countOf_begins_fetchSub]
    exact hc.begun
  · have hcap := hc.capped
    rw [Memory.log_after, countOf_begins_fetchSub, countOf_ends_fetchSub]
    omega
  · exact (hc.spawned future hmem).longer hlonger

/-! ### What a task must know and what it learns -/

/-- What task `k` must know to take a step. -/
def Requires (h : Engine) (caps : RoutineId → ℕ) (k : ℕ) (m : EngineMemory) :
    EngineInstr → Prop
  | .createRoutineRun run checks => Free caps m run.routine_id checks.counted
  | .fetchAdd run checks => run.automatic = true → Room h m checks.loaded
  | .fetchSub run => countBy (EngineInstr.ends run.automatic) k m.log <
      countBy (EngineInstr.begins run.automatic) k m.log
  | .completeRoutineRun _ status .. => status ≠ .running
  | .writeEventCache cache => ∀ matcher ∈ cache, Known caps matcher.routine
  | .spawn future => Admitted h caps m future
  | .updateRoutine .. => False
  | _ => True

/-- What it learns from the answer. -/
def Tells (h : Engine) (caps : RoutineId → ℕ) : (i : EngineInstr) → i.Answer → EngineMemory → Prop
  | .loadRunningCount, load, m =>
    load.value < h.config.max_concurrent_routines → Room h m load.seen
  | .readEventCache, cache, _ => ∀ matcher ∈ cache, Known caps matcher.routine
  | .listEventRoutines, answer, _ | .listDueCronRoutines, answer, _ =>
    ∀ routines, answer = .ok routines → ∀ routine ∈ routines, Known caps routine
  | .getRoutine _, answer, _ => ∀ routine, answer = .ok (some routine) → Known caps routine
  | .countRunning id, answer, m =>
    ∀ count : Reading, answer = .ok count → count.value < caps id → Free caps m id count.seen
  | .countRunningBatch ids, answer, m =>
    ∀ counts : RoutineId → Reading, answer = .ok counts → ∀ id ∈ ids,
      (counts id).value < caps id → Free caps m id (counts id).seen
  | .poll _, answer, m => ∀ future, answer = some future → Admitted h caps m future
  | _, _, _ => True

/-- **Every step keeps the caps.** -/
theorem Capped.after (hc : Capped h caps m) (htimely : timely m.state i = true)
    (hreq : Requires h caps k m i) :
    Capped h caps (m.after engineMachine k i) ∧ Longer m (m.after engineMachine k i) := by
  cases i with
  | createRoutineRun run checks =>
    -- the count the run is recorded on still stands
    have hfree : Free caps m run.routine_id checks.counted := hreq
    rw [show checks.counted = m.state.recorded run.routine_id from of_decide_eq_true htimely]
      at hfree
    exact hc.createRun hfree
  | fetchAdd run checks =>
    refine hc.fetchAdd fun hauto => ?_
    have hroom : Room h m checks.loaded := hreq hauto
    have hloaded : checks.loaded = m.state.begun := by
      simpa [timely, hauto] using htimely
    rwa [hloaded] at hroom
  | fetchSub run => exact hc.fetchSub hreq
  | linkRoutineRunToJob run_id job_id =>
    exact capped_stored hc (fun _ => rfl) (fun _ => rfl)
      (hc.onRun (fun _ => rfl) (fun _ => rfl) (fun _ => rfl) fun _ hrow => hrow)
  | completeRoutineRun run status summary tokens =>
    exact capped_stored hc (fun _ => rfl) (fun _ => rfl)
      (hc.onRun (fun _ => rfl) (fun _ => rfl) (fun _ => rfl) fun _ _ => hreq)
  | updateRoutineRuntime routine last_run_at next_fire_at run_count failures state =>
    exact capped_stored hc (fun _ => rfl) (fun _ => rfl)
      (hc.onRoutine (fun _ => rfl) (fun _ => rfl) fun _ => rfl)
  | updateRoutine => exact hreq.elim
  | writeEventCache cache =>
    exact ⟨hc.quiet (fun _ => rfl) (fun _ => rfl) rfl rfl hc.rows hreq hc.running
      (fun _ => le_rfl) hc.spawned, .cons k _ fun _ => le_rfl⟩
  | updateCachedEventRuntime id last_run_at run_count failures =>
    refine ⟨hc.quiet (fun _ => rfl) (fun _ => rfl) rfl rfl hc.rows ?_ hc.running
      (fun _ => le_rfl) hc.spawned, .cons k _ fun _ => le_rfl⟩
    exact known_updateCached hc.cached
  | spawn future =>
    refine ⟨hc.quiet (fun _ => rfl) (fun _ => rfl) rfl rfl hc.rows hc.cached hc.running
      (fun _ => le_rfl) fun other hother => ?_, .cons k _ fun _ => le_rfl⟩
    obtain hold | hnew := List.mem_append.mp hother
    · exact hc.spawned other hold
    · obtain rfl := List.mem_singleton.mp hnew
      exact hreq
  | poll n =>
    exact ⟨hc.quiet (fun _ => rfl) (fun _ => rfl) rfl rfl hc.rows hc.cached hc.running
      (fun _ => le_rfl) fun other hother => hc.spawned other (List.mem_of_mem_eraseIdx hother),
      .cons k _ fun _ => le_rfl⟩
  | listEventRoutines | listDueCronRoutines | getRoutine | countRunning | countRunningBatch |
    listDispatchedRoutineRuns | getJob | getAgentJobFailureReason =>
    exact capped_stored hc (fun _ => rfl) (fun _ => rfl)
      (hc.same (fun _ => rfl) (fun _ => rfl) rfl rfl rfl rfl rfl rfl)
  | _ => exact hc.same (fun _ => rfl) (fun _ => rfl) rfl rfl rfl rfl rfl rfl

/-- **Every answer tells the truth.** -/
theorem Capped.tells (hc : Capped h caps m) (i : EngineInstr) :
    Tells h caps i (EngineState.exec i m.state).1 m := by
  cases i with
  | loadRunningCount => exact fun hlt => hc.room_of_running_count_lt hlt
  | readEventCache => exact hc.cached
  | listEventRoutines | listDueCronRoutines =>
    intro routines hok routine hmem
    obtain rfl := EngineState.stored_eq_ok hok
    exact hc.rows routine (List.mem_filter.mp hmem).1
  | getRoutine id =>
    intro routine hok
    have hget := EngineState.stored_eq_ok hok
    exact hc.rows routine (KeyedStore.mem_of_get? hget.symm)
  | countRunning id =>
    intro count hok hlt
    obtain rfl := EngineState.stored_eq_ok hok
    exact Capped.free_of_running_lt hlt
  | countRunningBatch ids =>
    intro counts hok id hid hlt
    obtain rfl := EngineState.stored_eq_ok hok
    dsimp only at hlt
    rw [if_pos hid] at hlt
    exact Capped.free_of_running_lt hlt
  | poll n => exact fun future hfuture => hc.spawned future (List.mem_of_getElem? hfuture)
  | _ => trivial

theorem Tells.longer {r : i.Answer} (ht : Tells h caps i r m) {m' : EngineMemory}
    (hl : Longer m m') : Tells h caps i r m' := by
  cases i with
  | loadRunningCount => exact fun hlt => (ht hlt).longer hl
  | countRunning id => exact fun count hok hlt => (ht count hok hlt).longer hl
  | countRunningBatch ids => exact fun counts hok id hid hlt => (ht counts hok id hid hlt).longer hl
  | poll n => exact fun future hfuture => (ht future hfuture).longer hl
  | _ => exact ht

end

/-! ### The code is safe -/

section

variable {h : Engine} {caps : RoutineId → ℕ} {α β : Type} {m : EngineMemory} {op : EngineCall}
  {k : ℕ} {i : EngineInstr}

/-- The program keeps the caps whatever the other tasks do, and ends with `Q`. -/
abbrev Keeps (h : Engine) (caps : RoutineId → ℕ) (op : EngineCall) (k : ℕ) (p : EngineProg α)
    (m : EngineMemory) (Q : α → EngineMemory → Prop) : Prop :=
  (capsProtocol h caps).Safe engineMachine op k Q p m

/-- What others may have done meanwhile. -/
abbrev Meanwhile (h : Engine) (caps : RoutineId → ℕ) (k : ℕ) (m m' : EngineMemory) : Prop :=
  (capsProtocol h caps).Grown k m m'

/-- A step, and what follows in the memory after it. -/
theorem keeps_act {f : i.Answer → EngineProg α} {Q : α → EngineMemory → Prop}
    (hreq : ∀ m', Meanwhile h caps k m m' → Requires h caps k m' i)
    (hf : ∀ m', Meanwhile h caps k m m' → Capped h caps m' →
      Keeps h caps op k (f (EngineState.exec i m'.state).1) (m'.after engineMachine k i) Q) :
    Keeps h caps op k (i.act >>= f) m Q := by
  intro m' hg hc htimely _
  obtain ⟨hcapped, hlonger⟩ := Capped.after hc htimely (hreq m' hg)
  exact ⟨hcapped, hlonger, hf m' hg hc⟩

/-- A step, and what the answer tells. -/
theorem keeps_step {f : i.Answer → EngineProg α} {Q : α → EngineMemory → Prop}
    (hreq : ∀ m', Meanwhile h caps k m m' → Requires h caps k m' i)
    (hf : ∀ r m', Longer m m' → Tells h caps i r m' → Keeps h caps op k (f r) m' Q) :
    Keeps h caps op k (i.act >>= f) m Q := by
  intro m' hg hc htimely _
  obtain ⟨hcapped, hlonger⟩ := Capped.after hc htimely (hreq m' hg)
  exact ⟨hcapped, hlonger, hf _ _ (Longer.then hg.1 hlonger) ((hc.tells i).longer hlonger)⟩

/-- The instruction may be issued by any task at any time. -/
def Mild : EngineInstr → Prop
  | .createRoutineRun .. | .fetchAdd .. | .fetchSub _ | .writeEventCache _ | .spawn _
  | .updateRoutine .. => False
  | .completeRoutineRun _ status .. => status ≠ .running
  | _ => True

theorem Mild.requires (hi : Mild i) : Requires h caps k m i := by
  cases i with
  | createRoutineRun | fetchAdd | fetchSub | writeEventCache | spawn | updateRoutine =>
    exact hi.elim
  | completeRoutineRun => exact hi
  | _ => trivial

/-- A mild program, and something that lasts meanwhile. -/
theorem keeps_of_mild {p : EngineProg α} {q : α → Prop} {F : EngineMemory → Prop}
    (hp : p.Obeys (fun _ _ => True) Mild q) (hF : ∀ m m', Longer m m' → F m → F m')
    (hm : F m) : Keeps h caps op k p m fun a m' => q a ∧ F m' := by
  refine Protocol.Safe.of_obeys (fun m m' hg => hF m m' hg.1) (fun i m hi hc htimely hm => ?_) hp hm
  obtain ⟨hcapped, hlonger⟩ := Capped.after hc htimely (Mild.requires (k := k) hi)
  exact ⟨hcapped, hlonger, trivial, hF _ _ hlonger hm⟩

/-- Task `k` has an execution in progress. -/
def Executing (k : ℕ) (a : Bool) (m : EngineMemory) : Prop :=
  countBy (EngineInstr.ends a) k m.log < countBy (EngineInstr.begins a) k m.log

theorem Executing.meanwhile {a : Bool} {m' : EngineMemory} (he : Executing k a m)
    (hg : Meanwhile h caps k m m') : Executing k a m' := by
  obtain ⟨-, new, hnew, hothers⟩ := hg
  rw [Executing, hnew, countBy_append_of_ne hothers, countBy_append_of_ne hothers]
  exact he

/-- The work of an execution leaves it in progress. -/
theorem keeps_work {p : EngineProg α} {q : α → Prop} {a : Bool}
    (hp : p.Obeys (fun _ _ => True) ofWork q) (hm : Executing k a m) :
    Keeps h caps op k p m fun r m' => q r ∧ Executing k a m' := by
  refine Protocol.Safe.of_obeys (fun _ _ hg he => he.meanwhile hg)
    (fun i m hi hc htimely hm => ?_) hp hm
  have hmild : Mild i ∧ i.begins a = false ∧ i.ends a = false := by
    cases i with
    | getJob | executeLightweight | dispatchJob | linkRoutineRunToJob => exact ⟨trivial, rfl, rfl⟩
    | _ => exact hi.elim
  obtain ⟨hcapped, hlonger⟩ := Capped.after hc htimely (Mild.requires (k := k) hmild.1)
  refine ⟨hcapped, hlonger, trivial, ?_⟩
  rw [Executing, Memory.log_after, countBy_cons, countBy_cons, hmild.2.1, hmild.2.2]
  simp only [Bool.false_eq_true, and_false, if_false, Nat.add_zero]
  exact hm

theorem mild_updateRuntime (h : Engine) (routine : Routine) (status : RunStatus) :
    (updateRuntime h routine status).Obeys (fun _ _ => True) Mild fun _ => True := by
  refine (obeys_updateRuntime h routine status).weaken (fun _ _ hr => hr) fun i hi => ?_
  cases i with
  | utcNow | updateCachedEventRuntime | updateRoutineRuntime => trivial
  | _ => exact hi.elim

/-- What is left when nothing is asked of the end. -/
theorem Keeps.any {p : EngineProg α} {Q : α → EngineMemory → Prop}
    (hp : Keeps h caps op k p m Q) : Keeps h caps op k p m fun _ _ => True :=
  hp.mono fun _ _ _ => trivial

/-- **`execute_routine`, of a run with room.** -/
theorem keeps_executeRoutine {routine : Routine} {run : RoutineRun} {checks : Checks}
    (hroom : run.automatic = true → Room h m checks.loaded) :
    Keeps h caps op k (executeRoutine h routine run checks) m fun _ _ => True := by
  refine keeps_act (fun m' hg hauto => (hroom hauto).longer hg.1) fun m' _ hc => ?_
  -- The task's own counts: as many ends as beginnings before, one beginning more now.
  have hexec : Executing k run.automatic
      (m'.after engineMachine k (.fetchAdd run checks)) := by
    have hbal := hc.balanced run.automatic k
    rw [Executing, Memory.log_after, countBy_ends_fetchAdd, countBy_begins_fetchAdd,
      if_pos ⟨rfl, beq_self_eq_true _⟩]
    exact Nat.lt_succ_of_le hbal
  refine Protocol.Safe.bind ((keeps_work (obeys_attempts h routine run MAX_RETRIES none)
    hexec).mono fun result m₁ hwork => ?_)
  refine keeps_act (fun m₂ hg => hwork.2.meanwhile hg) fun m₂ _ _ => ?_
  refine keeps_act (fun _ _ => hwork.1) fun m₃ _ _ => ?_
  exact (keeps_of_mild (mild_updateRuntime h routine _) (F := fun _ => True)
    (fun _ _ _ _ => trivial) trivial).any

/-- A spawned future, of a run that was admitted. -/
theorem keeps_execution {future : Spawned} (hadm : Admitted h caps m future) :
    Keeps h caps op k (future.execution h) m fun _ _ => True := by
  cases future with
  | fire routine run checks =>
    refine keeps_step (fun m' hg => hadm.1.longer hg.1) fun result m' hl _ => ?_
    cases result with
    | error e => trivial
    | ok => exact keeps_executeRoutine fun hauto => (hadm.2 hauto).longer hl
  | execute routine run checks => exact keeps_executeRoutine hadm

theorem keeps_pollSpawned (n : ℕ) :
    Keeps h caps op k (pollSpawned h n) m fun _ _ => True := by
  refine keeps_step (fun _ _ => trivial) fun future m' _ htells => ?_
  cases future with
  | none => trivial
  | some future => exact keeps_execution (htells future rfl)

/-! ### The fires -/

/-- What lasts. -/
abbrev Lasting (F : EngineMemory → Prop) : Prop := ∀ m m', Longer m m' → F m → F m'

theorem mild_checkCooldown (routine : Routine) :
    (checkCooldown routine).Obeys (fun _ _ => True) Mild fun _ => True := by
  unfold checkCooldown
  split
  · exact EngineInstr.obeys_bind trivial fun _ _ => trivial
  · trivial

/-- `check_concurrent` of a routine that is known. -/
theorem keeps_checkConcurrent {routine : Routine} (hknown : Known caps routine)
    {F : EngineMemory → Prop} (hF : Lasting F) (hm : F m) :
    Keeps h caps op k (checkConcurrent routine) m fun r m' =>
      F m' ∧ (r.1 = true → Free caps m' routine.id r.2) := by
  refine keeps_step (fun _ _ => trivial) fun answer m' hl htells => ?_
  cases answer with
  | error e => exact ⟨hF m m' hl hm, fun hfree => (nomatch hfree)⟩
  | ok count =>
    refine ⟨hF m m' hl hm, fun hfree => htells count rfl ?_⟩
    have hlt := of_decide_eq_true hfree
    rwa [show routine.guardrails.max_concurrent = caps routine.id from hknown] at hlt

/-- `spawn_fire` of a routine that is free, with room. -/
theorem keeps_spawnFire {routine : Routine} {trigger_type : String} {detail : Option String}
    {checks : Checks} (hfree : Free caps m routine.id checks.counted)
    (hroom : Room h m checks.loaded) {F : EngineMemory → Prop} (hF : Lasting F) (hm : F m) :
    Keeps h caps op k (spawnFire routine trigger_type detail checks) m fun _ m' => F m' := by
  refine keeps_step (fun _ _ => trivial) fun id m₁ hl₁ _ => ?_
  refine keeps_step (fun _ _ => trivial) fun now m₂ hl₂ _ => ?_
  have hl := hl₁.then hl₂
  refine keeps_step (fun m₃ hg => ⟨(hfree.longer hl).longer hg.1,
    fun _ => (hroom.longer hl).longer hg.1⟩) fun _ m₃ hl₃ _ => ?_
  exact hF _ _ (hl.then hl₃) hm

/-- The end of `fire_manual` and `fire_webhook`. -/
theorem keeps_recordAndSpawn {routine : Routine} {trigger_type : String} {detail : Option String}
    {checks : Checks} (hfree : Free caps m routine.id checks.counted)
    (hroom : trigger_type ≠ "manual" → Room h m checks.loaded) :
    Keeps h caps op k (recordAndSpawn routine trigger_type detail checks) m
      fun _ _ => True := by
  refine keeps_step (fun _ _ => trivial) fun id m₁ hl₁ _ => ?_
  refine keeps_step (fun _ _ => trivial) fun now m₂ hl₂ _ => ?_
  have hl := hl₁.then hl₂
  refine keeps_step (fun m₃ hg => (hfree.longer hl).longer hg.1) fun result m₃ hl₃ _ => ?_
  cases result with
  | error e => trivial
  | ok =>
    refine keeps_step (fun m₄ hg hauto => ?_) fun _ m₄ _ _ => trivial
    have hroom := hroom (of_decide_eq_true hauto)
    exact ((hroom.longer hl).longer hl₃).longer hg.1

/-- **`check_cron_triggers`, the due routines in turn.** -/
theorem keeps_fireDue {routines : List Routine}
    (hknown : ∀ routine ∈ routines, Known caps routine) :
    Keeps h caps op k (fireDue h routines) m fun _ _ => True := by
  induction routines generalizing m with
  | nil => trivial
  | cons routine rest ih =>
    obtain ⟨hroutine, hrest⟩ := List.forall_mem_cons.mp hknown
    refine keeps_step (fun _ _ => trivial) fun load m₁ _ hload => ?_
    dsimp only
    split
    · trivial
    · next hbelow =>
      have hroom := hload (not_le.mp hbelow)
      refine Protocol.Safe.bind ((keeps_of_mild (mild_checkCooldown routine)
        (F := fun m => Room h m load.seen) (fun _ _ hl hr => hr.longer hl) hroom).mono
        fun cool m₂ hcool => ?_)
      split
      · exact ih hrest
      · refine Protocol.Safe.bind ((keeps_checkConcurrent hroutine
          (F := fun m => Room h m load.seen) (fun _ _ hl hr => hr.longer hl) hcool.2).mono
          fun r m₃ hr => ?_)
        obtain ⟨free, counted⟩ := r
        dsimp only
        split
        · exact ih hrest
        · next hfree =>
          have hfree := hr.2 (by simpa using hfree)
          refine Protocol.Safe.bind ((keeps_spawnFire (F := fun _ => True) hfree hr.1
            (fun _ _ _ _ => trivial) trivial).mono fun _ m₄ _ => ih hrest)

theorem keeps_checkCronTriggers :
    Keeps h caps op k (checkCronTriggers h) m fun _ _ => True := by
  refine keeps_step (fun _ _ => trivial) fun answer m₁ _ htells => ?_
  cases answer with
  | error e => trivial
  | ok routines => exact keeps_fireDue (htells routines rfl)

/-- The counts of a batch bound what is known of its routines. -/
def Counted (caps : RoutineId → ℕ) (ids : List RoutineId) (counts : RoutineId → Reading)
    (m : EngineMemory) : Prop :=
  ∀ id ∈ ids, (counts id).value < caps id → Free caps m id (counts id).seen

theorem Counted.longer {ids : List RoutineId} {counts : RoutineId → Reading}
    {m' : EngineMemory} (hc : Counted caps ids counts m) (hl : Longer m m') :
    Counted caps ids counts m' :=
  fun id hid hlt => (hc id hid hlt).longer hl

/-- The checks on a routine that an event is for. -/
theorem keeps_admitEvent {ids : List RoutineId} {counts : RoutineId → Reading}
    {routine : Routine} (hknown : Known caps routine) (hid : routine.id ∈ ids)
    {F : EngineMemory → Prop} (hF : Lasting F) (hm : F m) (hcounts : Counted caps ids counts m) :
    Keeps h caps op k (admitEvent h counts routine) m fun r m' =>
      (F m' ∧ Counted caps ids counts m') ∧ ∀ checks, r = some checks →
        Free caps m' routine.id checks.counted ∧ Room h m' checks.loaded := by
  have hlast : Lasting fun m => F m ∧ Counted caps ids counts m :=
    fun _ _ hl hm => ⟨hF _ _ hl hm.1, hm.2.longer hl⟩
  refine Protocol.Safe.bind ((keeps_of_mild (mild_checkCooldown routine) hlast
    ⟨hm, hcounts⟩).mono fun cool m₁ hcool => ?_)
  split
  · exact ⟨hcool.2, nofun⟩
  · split
    · exact ⟨hcool.2, nofun⟩
    · next hbelow =>
      have hlt : (counts routine.id).value < caps routine.id := by
        rw [← show routine.guardrails.max_concurrent = caps routine.id from hknown]
        exact not_le.mp hbelow
      refine keeps_step (fun _ _ => trivial) fun load m₂ hl hload => ?_
      have hkept := hlast _ _ hl hcool.2
      split
      · exact ⟨hkept, nofun⟩
      · next hcap =>
        refine ⟨hkept, fun checks heq => ?_⟩
        obtain rfl := Option.some.inj heq
        exact ⟨hkept.2 _ hid hlt, hload (not_le.mp hcap)⟩

/-- What the triggered routines were admitted on. -/
def AllAdmitted (h : Engine) (caps : RoutineId → ℕ) (triggered : List TriggeredRoutine)
    (m : EngineMemory) : Prop :=
  ∀ t ∈ triggered, Free caps m t.routine.id t.checks.counted ∧ Room h m t.checks.loaded

theorem AllAdmitted.longer {triggered : List TriggeredRoutine} {m' : EngineMemory}
    (ha : AllAdmitted h caps triggered m) (hl : Longer m m') : AllAdmitted h caps triggered m' :=
  fun t ht => ⟨(ha t ht).1.longer hl, (ha t ht).2.longer hl⟩

/-- **`matching_event_triggers`, the matchers in turn.** -/
theorem keeps_matchEach {message : IncomingMessage} {content : String} {ids : List RoutineId}
    {counts : RoutineId → Reading} {cache : List EventMatcher}
    (hknown : ∀ matcher ∈ cache, Known caps matcher.routine)
    (hids : ∀ id ∈ cache.filterMap EventMatcher.messageRoutine, id ∈ ids)
    {F : EngineMemory → Prop} (hF : Lasting F) (hm : F m) (hcounts : Counted caps ids counts m) :
    Keeps h caps op k (matchEach h message content counts cache) m fun triggered m' =>
      F m' ∧ AllAdmitted h caps triggered m' := by
  induction cache generalizing m F with
  | nil => exact ⟨hm, List.forall_mem_nil _⟩
  | cons matcher rest ih =>
    obtain ⟨hfirst, hrest⟩ := List.forall_mem_cons.mp hknown
    cases matcher with
    | system routine => exact ih hrest hids hF hm hcounts
    | message routine regex =>
      have hids : routine.id ∈ ids ∧ ∀ id ∈ rest.filterMap EventMatcher.messageRoutine,
          id ∈ ids := List.forall_mem_cons.mp hids
      unfold matchEach
      split
      · exact ih hrest hids.2 hF hm hcounts
      · refine Protocol.Safe.bind ((keeps_admitEvent hfirst hids.1 hF hm hcounts).mono
          fun admitted m₁ hadm => ?_)
        -- What the first matcher was admitted on lasts while the others are looked at.
        have hlast : Lasting fun m => F m ∧ ∀ checks, admitted = some checks →
            Free caps m routine.id checks.counted ∧ Room h m checks.loaded :=
          fun _ _ hl hm => ⟨hF _ _ hl hm.1, fun checks heq =>
            ⟨(hm.2 checks heq).1.longer hl, (hm.2 checks heq).2.longer hl⟩⟩
        refine Protocol.Safe.bind ((ih hrest hids.2 hlast ⟨hadm.1.1, hadm.2⟩ hadm.1.2).mono
          fun triggered m₂ htrig => ?_)
        cases admitted with
        | none => exact ⟨htrig.1.1, htrig.2⟩
        | some checks =>
          exact ⟨htrig.1.1, List.forall_mem_cons.mpr ⟨htrig.1.2 checks rfl, htrig.2⟩⟩

theorem keeps_fireTriggered {triggered : List TriggeredRoutine}
    (hadm : AllAdmitted h caps triggered m) :
    Keeps h caps op k (fireTriggered triggered) m fun _ _ => True := by
  induction triggered generalizing m with
  | nil => trivial
  | cons t rest ih =>
    obtain ⟨hfirst, hrest⟩ := List.forall_mem_cons.mp hadm
    refine Protocol.Safe.bind ((keeps_spawnFire (F := AllAdmitted h caps rest) hfirst.1 hfirst.2
      (fun _ _ hl ha => ha.longer hl) hrest).mono fun _ m₁ hrest => ih hrest)

theorem keeps_checkEventTriggers {message : IncomingMessage} {content : String} :
    Keeps h caps op k (checkEventTriggers h message content) m fun _ _ => True := by
  have hmatching : Keeps h caps op k (matchingEventTriggers h message content) m
      fun triggered m' => True ∧ AllAdmitted h caps triggered m' := by
    refine keeps_step (fun _ _ => trivial) fun cache m₁ _ hcache => ?_
    dsimp only
    split
    · exact ⟨trivial, List.forall_mem_nil _⟩
    · refine keeps_step (fun _ _ => trivial) fun answer m₂ _ hcounts => ?_
      cases answer with
      | error e => exact ⟨trivial, List.forall_mem_nil _⟩
      | ok counts =>
        exact keeps_matchEach hcache (fun _ hid => hid) (F := fun _ => True)
          (fun _ _ _ _ => trivial) trivial (hcounts counts rfl)
  refine Protocol.Safe.bind (hmatching.mono fun triggered m₁ hadm => ?_)
  exact Protocol.Safe.bind ((keeps_fireTriggered hadm.2).mono fun _ _ _ => trivial)

/-- **`emit_system_event`, the matchers in turn.** -/
theorem keeps_emitEach {event : SystemEvent} {ids : List RoutineId}
    {counts : RoutineId → Reading} {cache : List EventMatcher}
    (hknown : ∀ matcher ∈ cache, Known caps matcher.routine)
    (hids : ∀ id ∈ cache.filterMap EventMatcher.systemRoutine, id ∈ ids)
    (hcounts : Counted caps ids counts m) :
    Keeps h caps op k (emitEach h event counts cache) m fun _ _ => True := by
  induction cache generalizing m with
  | nil => trivial
  | cons matcher rest ih =>
    obtain ⟨hfirst, hrest⟩ := List.forall_mem_cons.mp hknown
    cases matcher with
    | message routine regex => exact ih hrest hids hcounts
    | system routine =>
      have hids : routine.id ∈ ids ∧ ∀ id ∈ rest.filterMap EventMatcher.systemRoutine,
          id ∈ ids := List.forall_mem_cons.mp hids
      unfold emitEach
      split
      · exact ih hrest hids.2 hcounts
      · refine Protocol.Safe.bind ((keeps_admitEvent hfirst hids.1 (F := fun _ => True)
          (fun _ _ _ _ => trivial) trivial hcounts).mono fun admitted m₁ hadm => ?_)
        cases admitted with
        | none => exact ih hrest hids.2 hadm.1.2
        | some checks =>
          obtain ⟨hfree, hroom⟩ := hadm.2 checks rfl
          refine Protocol.Safe.bind ((keeps_spawnFire (F := Counted caps ids counts) hfree hroom
            (fun _ _ hl hc => hc.longer hl) hadm.1.2).mono fun _ m₂ hcounts => ?_)
          exact Protocol.Safe.bind ((ih hrest hids.2 hcounts).mono fun _ _ _ => trivial)

theorem keeps_emitSystemEvent {event : SystemEvent} :
    Keeps h caps op k (emitSystemEvent h event) m fun _ _ => True := by
  refine keeps_step (fun _ _ => trivial) fun cache m₁ _ hcache => ?_
  dsimp only
  split
  · trivial
  · refine keeps_step (fun _ _ => trivial) fun answer m₂ _ hcounts => ?_
    cases answer with
    | error e => trivial
    | ok counts => exact keeps_emitEach hcache (fun _ hid => hid) (hcounts counts rfl)

theorem keeps_fireManual {id : RoutineId} {user_id : Option String} :
    Keeps h caps op k (fireManual id user_id) m fun _ _ => True := by
  refine keeps_step (fun _ _ => trivial) fun answer m₁ _ htells => ?_
  rcases answer with e | _ | routine
  · trivial
  · trivial
  · dsimp only
    split
    · trivial
    · split
      · trivial
      · refine Protocol.Safe.bind ((keeps_checkConcurrent (htells routine rfl)
          (F := fun _ => True) (fun _ _ _ _ => trivial) trivial).mono fun r m₂ hr => ?_)
        obtain ⟨free, counted⟩ := r
        dsimp only
        split
        · trivial
        · next hfree =>
          exact keeps_recordAndSpawn (hr.2 (by simpa using hfree)) fun hne => absurd rfl hne

theorem keeps_fireWebhook {id : RoutineId} {path : String} :
    Keeps h caps op k (fireWebhook h id path) m fun _ _ => True := by
  refine keeps_step (fun _ _ => trivial) fun answer m₁ _ htells => ?_
  rcases answer with e | _ | routine
  · trivial
  · trivial
  · dsimp only
    split
    · trivial
    · refine Protocol.Safe.bind ((keeps_of_mild (mild_checkCooldown routine)
        (F := fun _ => True) (fun _ _ _ _ => trivial) trivial).mono fun cool m₂ _ => ?_)
      split
      · trivial
      · refine Protocol.Safe.bind ((keeps_checkConcurrent (htells routine rfl)
          (F := fun _ => True) (fun _ _ _ _ => trivial) trivial).mono fun r m₃ hr => ?_)
        obtain ⟨free, counted⟩ := r
        dsimp only
        split
        · trivial
        · next hfree =>
          have hfree := hr.2 (by simpa using hfree)
          refine keeps_step (fun _ _ => trivial) fun load m₄ hl hload => ?_
          split
          · trivial
          · next hbelow =>
            exact keeps_recordAndSpawn (hfree.longer hl) fun _ => hload (not_le.mp hbelow)

theorem known_eventMatcher {crates : Crates} {routine : Routine} {matcher : EventMatcher}
    (hknown : Known caps routine) (heq : eventMatcher crates routine = some matcher) :
    Known caps matcher.routine := by
  unfold eventMatcher at heq
  split at heq
  · obtain ⟨regex, -, rfl⟩ := Option.map_eq_some_iff.mp heq
    exact hknown
  · obtain rfl := Option.some.inj heq
    exact hknown
  · cases heq

theorem keeps_refreshEventCache :
    Keeps h caps op k (refreshEventCache h) m fun _ _ => True := by
  refine keeps_step (fun _ _ => trivial) fun answer m₁ _ htells => ?_
  cases answer with
  | error e => trivial
  | ok routines =>
    have hcache : ∀ matcher ∈ routines.filterMap (eventMatcher h.crates),
        Known caps matcher.routine := by
      intro matcher hmem
      obtain ⟨routine, hroutine, heq⟩ := List.mem_filterMap.mp hmem
      exact known_eventMatcher (htells routines rfl routine hroutine) heq
    exact keeps_step (fun _ _ => hcache) fun _ _ _ _ => trivial

theorem mild_completeDispatchedRun (h : Engine) (run : RoutineRun) {status : RunStatus}
    (hstatus : status ≠ .running) (summary : String) :
    (completeDispatchedRun h run status summary).Obeys (fun _ _ => True) Mild fun _ => True := by
  refine EngineInstr.obeys_bind hstatus fun result _ => ?_
  cases result with
  | error e => trivial
  | ok =>
    refine EngineInstr.obeys_bind trivial fun row _ => ?_
    rcases row with e | _ | routine
    · trivial
    · trivial
    · exact mild_updateRuntime h routine status

theorem finalStatus_ne_running {state : JobState} {status : RunStatus}
    (heq : finalStatus state = some status) : status ≠ .running := by
  rintro rfl
  cases state <;> cases heq

theorem mild_syncDispatchedRun (h : Engine) (run : RoutineRun) :
    (syncDispatchedRun h run).Obeys (fun _ _ => True) Mild fun _ => True := by
  have hfailed : RunStatus.failed ≠ .running := by decide
  unfold syncDispatchedRun
  split
  · trivial
  · refine EngineInstr.obeys_bind trivial fun row _ => ?_
    rcases row with e | _ | job
    · trivial
    · exact mild_completeDispatchedRun h run hfailed _
    · dsimp only [syncWithJob]
      split
      · trivial
      · next status hfinal =>
        have hstatus := finalStatus_ne_running hfinal
        split
        · refine EngineInstr.obeys_bind trivial fun reason _ => ?_
          split <;> exact mild_completeDispatchedRun h run hstatus _
        · exact mild_completeDispatchedRun h run hstatus _

theorem mild_syncDispatchedRuns (h : Engine) :
    (syncDispatchedRuns h).Obeys (fun _ _ => True) Mild fun _ => True := by
  have heach : ∀ runs, (syncEach h runs).Obeys (fun _ _ => True) Mild fun _ => True := by
    intro runs
    induction runs with
    | nil => trivial
    | cons run rest ih =>
      exact Prog.Obeys.bind (mild_syncDispatchedRun h run) fun _ _ => ih
  refine EngineInstr.obeys_bind trivial fun answer _ => ?_
  cases answer with
  | error e => trivial
  | ok runs => exact heach _

/-- A call, and what is made of its result. -/
theorem Keeps.result {p : EngineProg α} {f : α → EngineResult}
    (hp : Keeps h caps op k p m fun _ _ => True) :
    Keeps h caps op k (p >>= fun a => pure (f a)) m fun _ _ => True :=
  Protocol.Safe.bind (hp.mono fun _ _ _ => trivial)

/-- **The code of every call is safe, an edit's apart.** -/
theorem keeps_code (hedit : ∀ id name params, op ≠ .routineUpdate id name params) :
    Keeps h caps op k (op.code h) m fun _ _ => True := by
  cases op with
  | checkCronTriggers => exact keeps_checkCronTriggers.result
  | checkEventTriggers message content => exact keeps_checkEventTriggers.result
  | emitSystemEvent event => exact keeps_emitSystemEvent.result
  | fireManual id user_id => exact keeps_fireManual.result
  | fireWebhook id path => exact keeps_fireWebhook.result
  | syncDispatchedRuns =>
    exact (keeps_of_mild (mild_syncDispatchedRuns h) (F := fun _ => True)
      (fun _ _ _ _ => trivial) trivial).any.result
  | refreshEventCache => exact keeps_refreshEventCache.result
  | routineUpdate id name params => exact absurd rfl (hedit id name params)
  | poll n => exact (keeps_pollSpawned n).result

end

/-! ### The caps hold -/

section

variable {h : Engine} {s : EngineState} {c : EngineConf}

/-- The caps of the routines of a table; for an id without a routine, what is running. -/
def capsOf (s : EngineState) (id : RoutineId) : ℕ :=
  match s.routines.get? id with
  | some routine => routine.guardrails.max_concurrent
  | none => s.running id

theorem known_capsOf {routine : Routine} (hmem : routine ∈ s.routines) :
    Known (capsOf s) routine := by
  rw [Known, capsOf, KeyedStore.get?_key hmem]

/-- A new process starts within the caps. -/
theorem capped_rebooted (hcaps : ∀ routine ∈ s.routines,
    s.running routine.id ≤ routine.guardrails.max_concurrent) :
    Capped h (capsOf s) ⟨s.rebooted, []⟩ where
  rows _ hmem := known_capsOf hmem
  cached := List.forall_mem_nil _
  running id := by
    change s.running id ≤ capsOf s id
    unfold capsOf
    split
    · next routine hget =>
      obtain rfl := KeyedStore.key_of_get? hget
      exact hcaps routine (KeyedStore.mem_of_get? hget)
    · exact le_rfl
  balanced _ _ := le_rfl
  counted := rfl
  begun := rfl
  capped := Nat.zero_le _
  spawned := List.forall_mem_nil _

/-- What the invariant says of the caps. -/
theorem WithinCaps.of_capped {caps : RoutineId → ℕ} (hc : Capped h caps c.toMemory) :
    WithinCaps h c where
  automatic := by
    have hcap := hc.capped
    unfold inProgress
    omega
  routines routine hmem := (hc.running routine.id).trans (hc.rows routine hmem).ge

/-- **The caps hold in every run whose recordings and beginnings are timely.** -/
theorem withinCaps_of_reach (hcaps : ∀ routine ∈ s.routines,
      s.running routine.id ≤ routine.guardrails.max_concurrent)
    (hreach : (engineSystem h).Reach (fun c m => timelyMove c m = true) (.idle s.rebooted) c) :
    WithinCaps h c := by
  have hc : Capped h (capsOf s) c.toMemory := by
    refine (System.Reach.safe (P := capsProtocol h (capsOf s)) (Q := fun _ _ _ _ => True)
      (fun _ _ _ _ _ _ _ => trivial) ?_ ?_ ?_ ?_ hreach).1
    · intro c k op i f hok hk
      rw [timelyMove, hk] at hok
      exact hok
    · intro c e s' hc _ hs
      obtain rfl := Option.some.inj hs
      cases e
      all_goals exact ⟨⟨hc.rows, hc.cached, hc.running, hc.balanced, hc.counted, hc.begun,
        hc.capped, hc.spawned⟩, ⟨fun _ => le_rfl, le_rfl⟩⟩
    · intro c op s' hc hok hs
      obtain rfl := Option.some.inj hs
      refine ⟨hc, ⟨fun _ => le_rfl, le_rfl⟩, fun k => keeps_code fun id name params heq => ?_⟩
      rw [heq] at hok
      cases hok
    · exact capped_rebooted hcaps
  exact .of_capped hc

/-- A routine fired by a tick, and executed while a second tick looks for what is due. -/
def firedInTime : List EngineMove :=
  [call .checkCronTriggers 0 6, [.start (.poll 0), .start .checkCronTriggers, .step 1, .step 2,
    .step 1, .step 2, .step 1, .step 2]].flatten

/-- The theorem on that run. -/
theorem withinCaps_firedInTime : ∃ c,
    (engineSystem (.sample 0)).play (.idle EngineState.sample.rebooted) firedInTime = some c ∧
      WithinCaps (.sample 0) c := by
  have hplay : ((engineSystem (.sample 0)).play (.idle EngineState.sample.rebooted)
      firedInTime).isSome := by
    decide +kernel
  obtain ⟨c, hc⟩ := Option.isSome_iff_exists.mp hplay
  have hallowed : System.Allowed (engineSystem (.sample 0)) (fun c m => timelyMove c m = true)
      (.idle EngineState.sample.rebooted) firedInTime := by
    decide +kernel
  refine ⟨c, hc, withinCaps_of_reach (s := .sample) (fun routine hmem => ?_)
    (System.Reach.init.of_play hallowed hc)⟩
  obtain rfl : routine = Routine.sample := List.mem_singleton.mp hmem
  exact Nat.zero_le _

/-- Two ticks before the first one's future has recorded its run. -/
def firedTwice : List EngineMove :=
  [call .checkCronTriggers 0 6, call .checkCronTriggers 1 6, call (.poll 0) 2 3,
    call (.poll 0) 3 3].flatten

/-- One execution at a time. -/
def Engine.oneAtATime : Engine := { Engine.sample 0 with config := ⟨1, false⟩ }

/-- Both ticks find nothing recorded and nothing begun; then two executions are in progress
where one is allowed, and two runs of a routine that may have one. -/
theorem caps_exceeded : ∃ c,
    (engineSystem .oneAtATime).play (.idle EngineState.sample.rebooted) firedTwice = some c ∧
      ¬ WithinCaps .oneAtATime c ∧ inProgress c = 2 ∧ c.state.running Routine.sample.id = 2 ∧
        Routine.sample.guardrails.max_concurrent = 1 := by
  have hplay : ((engineSystem .oneAtATime).play (.idle EngineState.sample.rebooted)
      firedTwice).any (fun c =>
        inProgress c == 2 && c.state.running Routine.sample.id == 2) = true := by
    decide +kernel
  obtain ⟨c, hc, htwo⟩ := (Option.any_eq_true _ _).mp hplay
  rw [Bool.and_eq_true, beq_iff_eq, beq_iff_eq] at htwo
  refine ⟨c, hc, fun hcaps => ?_, htwo.1, htwo.2, rfl⟩
  have hle : 2 ≤ 1 := htwo.1 ▸ hcaps.automatic
  exact absurd hle (by decide)

end

end T3Claw.Routines
