import T3Claw.Routines.Recovery

/-!
# One fire per due instant

A tick lists the rows that are due and fires them; `last_run_at` and `next_fire_at` are written
when a run completes. Until then every tick finds the routine due, and its cooldown is measured
from a run that is not the last one; only the count of running runs stands in the way, and it
does not when more than one run is allowed.

The row counts the runs whose runtime update has been written. A tick that fires a routine from
a row that counts every earlier fire (`countsEveryFire`) fires it for a later instant and after
the cooldown. What is known of a copy of the row (`Follows`) lasts: it speaks of the fires that
the copy counts, and later fires are counted later.
-/

namespace T3Claw.Routines

open Conc

/-- A fire by a tick: the row it was made from and its run. -/
abbrev Fired : Type := Routine × RoutineRun

/-- The fire of a routine that an instruction makes. -/
def EngineInstr.fired? (id : RoutineId) : EngineInstr → Option Fired
  | .spawn (.fire routine run _) => if routine.id = id then some (routine, run) else none
  | _ => none

/-- The fires of a routine, newest first. -/
def firesOf (id : RoutineId) (log : List (ℕ × EngineInstr)) : List Fired :=
  log.filterMap fun entry => entry.2.fired? id

/-- No due instant is fired for twice, and the starts are a cooldown apart. -/
def Spaced (cooldown : ℕ) (fires : List Fired) : Prop :=
  fires.Pairwise fun later earlier => earlier.1.next_fire_at ≠ later.1.next_fire_at ∧
    (cooldown : ℤ) ≤ later.2.started_at - earlier.2.started_at

/-- A tick, or a task that takes a spawned future; and a fire of the routine is made from a row
that counts every earlier fire. `base` is the run count at first. -/
def countsEveryFire (id : RoutineId) (base : ℕ) (c : EngineConf) : EngineMove → Bool
  | .step k =>
    match c.tasks[k]? with
    | some ⟨_, .act (.spawn (.fire routine _ _)) _⟩ =>
      routine.id ≠ id || routine.run_count = base + (firesOf id c.log).length
    | _ => true
  | .start .checkCronTriggers => true
  | .start (.poll _) => true
  | .start _ => false
  | .env _ => true

/-- `Schedule::upcoming` is after the instant it is asked at. -/
def Crates.Upcoming (crates : Crates) : Prop :=
  ∀ schedule upcoming, crates.cron schedule = .ok upcoming → ∀ timezone now next,
    upcoming timezone now = some next → now < next

/-! ### What is known along the way -/

/-- The routine under consideration: its id, its guardrails and its run count at first. -/
structure Subject where
  id : RoutineId
  guardrails : RoutineGuardrails
  base : ℕ

namespace Subject

variable (sub : Subject)

/-- Its fires. -/
abbrev fires (m : EngineMemory) : List Fired := firesOf sub.id m.log

/-- What a fire has been made for and when. -/
structure Made (now : Time) (f : Fired) : Prop where
  due : ∃ next, f.1.next_fire_at = some next ∧ next ≤ f.2.started_at
  started : f.2.started_at ≤ now

/-- The fires are numbered by the run count of the row they were made from. -/
def Numbered : List Fired → Prop
  | [] => True
  | f :: earlier => f.1.run_count = sub.base + earlier.length ∧ Numbered earlier

/-- A copy of the row against the fires it counts: it is due later than they were, and the last
run is no earlier than their starts. -/
structure Follows (copy : Routine) (m : EngineMemory) : Prop where
  guardrails : copy.guardrails = sub.guardrails
  counted : copy.run_count ≤ sub.base + (sub.fires m).length
  due : ∀ f ∈ sub.fires m, f.1.run_count < copy.run_count → ∀ next,
    copy.next_fire_at = some next → f.2.started_at < next
  cooled : ∀ f ∈ sub.fires m, f.1.run_count < copy.run_count → ∃ last,
    copy.last_run_at = some last ∧ f.2.started_at ≤ last

/-- What holds at any time. -/
structure Dated (m : EngineMemory) : Prop where
  numbered : sub.Numbered (sub.fires m)
  made : ∀ f ∈ sub.fires m, Made m.state.now f
  spaced : Spaced sub.guardrails.cooldown (sub.fires m)
  row : ∀ row ∈ m.state.routines, row.id = sub.id → sub.Follows row m
  spawned : ∀ future ∈ m.state.spawned, future.routine.id = sub.id →
    (future.routine, future.run) ∈ sub.fires m

/-- What only grows: the clock, and the fires, the new ones being counted later. -/
structure Since (m m' : EngineMemory) : Prop where
  now : m.state.now ≤ m'.state.now
  fires : ∃ new, sub.fires m' = new ++ sub.fires m ∧
    ∀ f ∈ new, sub.base + (sub.fires m).length ≤ f.1.run_count

variable {sub} {m m' m'' : EngineMemory}

theorem Since.refl (m : EngineMemory) : sub.Since m m := ⟨le_rfl, [], rfl, List.forall_mem_nil _⟩

theorem Since.mem (hs : sub.Since m m') {f : Fired} (hf : f ∈ sub.fires m) : f ∈ sub.fires m' := by
  obtain ⟨-, new, hnew, -⟩ := hs
  rw [hnew]
  exact List.mem_append_right _ hf

theorem Since.trans (hs : sub.Since m m') (hs' : sub.Since m' m'') : sub.Since m m'' := by
  obtain ⟨hnow, new, hnew, hlate⟩ := hs
  obtain ⟨hnow', new', hnew', hlate'⟩ := hs'
  refine ⟨hnow.trans hnow', new' ++ new, by rw [hnew', hnew, List.append_assoc], fun f hf => ?_⟩
  obtain hf | hf := List.mem_append.mp hf
  · have hlen := hlate' f hf
    rw [hnew, List.length_append] at hlen
    omega
  · exact hlate f hf

/-- **What is known of a copy lasts.** -/
theorem Follows.since {copy : Routine} (hc : sub.Follows copy m) (hs : sub.Since m m') :
    sub.Follows copy m' := by
  obtain ⟨-, new, hnew, hlate⟩ := hs
  have hold : ∀ f ∈ sub.fires m', f.1.run_count < copy.run_count → f ∈ sub.fires m := by
    intro f hf hlt
    rw [hnew] at hf
    obtain hf | hf := List.mem_append.mp hf
    · have hcount := hc.counted
      have hf := hlate f hf
      omega
    · exact hf
  refine ⟨hc.guardrails, hc.counted.trans ?_, fun f hf hlt => hc.due f (hold f hf hlt) hlt,
    fun f hf hlt => hc.cooled f (hold f hf hlt) hlt⟩
  rw [hnew, List.length_append]
  omega

theorem Made.later {now now' : Time} {f : Fired} (hf : Made now f) (hle : now ≤ now') :
    Made now' f := ⟨hf.due, hf.started.trans hle⟩

/-- Every fire is counted from `base` on, below the number of fires. -/
theorem Numbered.lt {fires : List Fired} (hn : sub.Numbered fires) :
    ∀ f ∈ fires, f.1.run_count < sub.base + fires.length := by
  induction fires with
  | nil => exact List.forall_mem_nil _
  | cons f earlier ih =>
    refine List.forall_mem_cons.mpr ⟨?_, fun g hg => ?_⟩
    · rw [hn.1, List.length_cons]
      omega
    · have hlt := ih hn.2 g hg
      rw [List.length_cons]
      omega

/-- A fire that is counted no later than another one did not start later. -/
theorem started_le {cooldown : ℕ} {fires : List Fired} (hn : sub.Numbered fires)
    (hs : Spaced cooldown fires) {f g : Fired} (hf : f ∈ fires) (hg : g ∈ fires)
    (hle : f.1.run_count ≤ g.1.run_count) : f.2.started_at ≤ g.2.started_at := by
  induction fires with
  | nil => cases hf
  | cons newest earlier ih =>
    obtain ⟨hfirst, hrest⟩ := List.pairwise_cons.mp hs
    obtain rfl | hf' := List.mem_cons.mp hf
    · obtain rfl | hg' := List.mem_cons.mp hg
      · exact le_rfl
      · have hlt := hn.2.lt g hg'
        have hnum := hn.1
        omega
    · obtain rfl | hg' := List.mem_cons.mp hg
      · have happart := (hfirst f hf').2
        have hpos : (0 : ℤ) ≤ cooldown := Int.natCast_nonneg _
        exact sub_nonneg.mp (hpos.trans happart)
      · exact ih hn.2 hrest hf' hg'

/-! ### Every step keeps the fires apart -/

/-- The routine may be fired from this copy, in this run. -/
structure Ready (sub : Subject) (routine : Routine) (run : RoutineRun) (m : EngineMemory) :
    Prop where
  follows : sub.Follows routine m
  due : ∃ next, routine.next_fire_at = some next ∧ next ≤ run.started_at
  started : run.started_at ≤ m.state.now
  cooled : ∀ last, routine.last_run_at = some last →
    last + sub.guardrails.cooldown ≤ run.started_at

/-- What a task must know to take a step. -/
def Requires (sub : Subject) (m : EngineMemory) : EngineInstr → Prop
  | .spawn (.fire routine run _) => routine.id = sub.id → sub.Ready routine run m
  | .spawn (.execute ..) => False
  | .updateRoutineRuntime routine last_run_at next_fire_at run_count _ _ =>
    routine.id = sub.id → ∃ run, (routine, run) ∈ sub.fires m ∧ run.started_at ≤ last_run_at ∧
      run_count = routine.run_count + 1 ∧ ∀ next, next_fire_at = some next → last_run_at < next
  | .updateRoutine .. => False
  | _ => True

/-- The steps that may be taken: a fire counts every earlier one. -/
def Allows (sub : Subject) (m : EngineMemory) : EngineInstr → Prop
  | .spawn (.fire routine _ _) =>
    routine.id = sub.id → routine.run_count = sub.base + (sub.fires m).length
  | _ => True

variable {k : ℕ} {i : EngineInstr} {s' : EngineState}

theorem fires_cons_none (hi : i.fired? sub.id = none) (log : List (ℕ × EngineInstr)) :
    firesOf sub.id ((k, i) :: log) = firesOf sub.id log := List.filterMap_cons_none hi

/-- A step that fires nothing. -/
theorem Dated.quiet (hd : sub.Dated m) (hi : i.fired? sub.id = none)
    (hnow : s'.now = m.state.now)
    (hrow : ∀ row ∈ s'.routines, row.id = sub.id → sub.Follows row m)
    (hspawned : ∀ future ∈ s'.spawned, future.routine.id = sub.id →
      (future.routine, future.run) ∈ sub.fires m) :
    sub.Dated ⟨s', (k, i) :: m.log⟩ ∧ sub.Since m ⟨s', (k, i) :: m.log⟩ := by
  have hfires : sub.fires ⟨s', (k, i) :: m.log⟩ = sub.fires m := fires_cons_none hi m.log
  have hsince : sub.Since m ⟨s', (k, i) :: m.log⟩ :=
    ⟨hnow.ge, [], hfires, List.forall_mem_nil _⟩
  refine ⟨⟨hfires ▸ hd.numbered, fun f hf => (hd.made f (hfires ▸ hf)).later hnow.ge,
    hfires ▸ hd.spaced, fun row hmem hid => (hrow row hmem hid).since hsince,
    fun future hmem hid => ?_⟩, hsince⟩
  rw [hfires]
  exact hspawned future hmem hid

/-- A store operation that fires nothing, made or not. -/
theorem Dated.stored {β : Type} {answer : β} (hd : sub.Dated m) (hi : i.fired? sub.id = none)
    (hnow : s'.now = m.state.now)
    (hrow : ∀ row ∈ s'.routines, row.id = sub.id → sub.Follows row m)
    (hspawned : s'.spawned = m.state.spawned) :
    sub.Dated ⟨(m.state.stored answer s').2, (k, i) :: m.log⟩ ∧
      sub.Since m ⟨(m.state.stored answer s').2, (k, i) :: m.log⟩ := by
  have hcases : (m.state.stored answer s').2 = m.state ∨ (m.state.stored answer s').2 = s' :=
    EngineState.stored_snd
  obtain hsame | hnew := hcases
  · rw [hsame]
    exact hd.quiet hi rfl hd.row hd.spawned
  · rw [hnew]
    exact hd.quiet hi hnow hrow (hspawned ▸ hd.spawned)

/-- A fire of the routine from a row that counts every earlier fire. -/
theorem Dated.fire (hd : sub.Dated m) {routine : Routine} {run : RoutineRun} {checks : Checks}
    (hid : routine.id = sub.id) (hready : sub.Ready routine run m)
    (hcount : routine.run_count = sub.base + (sub.fires m).length) :
    sub.Dated (m.after engineMachine k (.spawn (.fire routine run checks))) ∧
      sub.Since m (m.after engineMachine k (.spawn (.fire routine run checks))) := by
  have hfired : (EngineInstr.spawn (.fire routine run checks)).fired? sub.id =
      some (routine, run) := if_pos hid
  have hfires : sub.fires (m.after engineMachine k (.spawn (.fire routine run checks))) =
      (routine, run) :: sub.fires m := List.filterMap_cons_some hfired
  have hsince : sub.Since m (m.after engineMachine k (.spawn (.fire routine run checks))) :=
    ⟨le_rfl, [(routine, run)], hfires, List.forall_mem_singleton.mpr hcount.ge⟩
  refine ⟨⟨?_, ?_, ?_, fun row hmem hrow => (hd.row row hmem hrow).since hsince,
    fun future hmem hfuture => ?_⟩, hsince⟩
  · rw [hfires]
    exact ⟨hcount, hd.numbered⟩
  · rw [hfires]
    exact List.forall_mem_cons.mpr ⟨⟨hready.due, hready.started⟩, hd.made⟩
  · rw [hfires]
    refine List.pairwise_cons.mpr ⟨fun f hf => ?_, hd.spaced⟩
    -- The copy counts every fire there is, so it is due later and has cooled down from it.
    have hlt : f.1.run_count < routine.run_count := hcount ▸ hd.numbered.lt f hf
    obtain ⟨next, hnext, hstarted⟩ := hready.due
    obtain ⟨last, hlast, hbefore⟩ := hready.follows.cooled f hf hlt
    obtain ⟨old, hold, hdue⟩ := (hd.made f hf).due
    have hlater := hready.follows.due f hf hlt next hnext
    have hcool := hready.cooled last hlast
    refine ⟨fun heq => ?_, ?_⟩
    · rw [hold, hnext] at heq
      exact absurd (Option.some.inj heq) (ne_of_lt (hdue.trans_lt hlater))
    · dsimp only
      linarith
  · rw [hfires]
    obtain hold | hnew := List.mem_append.mp hmem
    · exact List.mem_cons_of_mem _ (hd.spawned future hold hfuture)
    · obtain rfl := List.mem_singleton.mp hnew
      exact List.mem_cons_self

/-- The row after a runtime update from a copy that was fired. -/
theorem Dated.updated (hd : sub.Dated m) {row routine : Routine} {run : RoutineRun}
    {last_run_at : Time} {next_fire_at : Option Time} {failures : ℕ} {state : Json}
    (hrow : sub.Follows row m) (hfired : (routine, run) ∈ sub.fires m)
    (hlast : run.started_at ≤ last_run_at)
    (hnext : ∀ next, next_fire_at = some next → last_run_at < next) :
    sub.Follows (row.withRuntime last_run_at next_fire_at (routine.run_count + 1) failures state)
      m := by
  have hbefore : ∀ f ∈ sub.fires m, f.1.run_count < routine.run_count + 1 →
      f.2.started_at ≤ last_run_at := fun f hf hlt =>
    (started_le hd.numbered hd.spaced hf hfired (Nat.lt_succ_iff.mp hlt)).trans hlast
  exact ⟨hrow.guardrails, hd.numbered.lt _ hfired,
    fun f hf hlt next heq => (hbefore f hf hlt).trans_lt (hnext next heq),
    fun f hf hlt => ⟨last_run_at, rfl, hbefore f hf hlt⟩⟩

/-- **Every step keeps the fires apart.** -/
theorem Dated.after (hd : sub.Dated m) (hallows : sub.Allows m i) (hreq : sub.Requires m i) :
    sub.Dated (m.after engineMachine k i) ∧ sub.Since m (m.after engineMachine k i) := by
  cases i with
  | spawn future =>
    cases future with
    | execute => exact hreq.elim
    | fire routine run checks =>
      by_cases hid : routine.id = sub.id
      · exact hd.fire hid (hreq hid) (hallows hid)
      · refine hd.quiet (if_neg hid) rfl hd.row fun other hmem hother => ?_
        obtain hold | hnew := List.mem_append.mp hmem
        · exact hd.spawned other hold hother
        · obtain rfl := List.mem_singleton.mp hnew
          exact absurd hother hid
  | poll n =>
    exact hd.quiet rfl rfl hd.row fun other hmem => hd.spawned other (List.mem_of_mem_eraseIdx hmem)
  | updateRoutine => exact hreq.elim
  | updateRoutineRuntime routine last_run_at next_fire_at run_count failures state =>
    refine hd.stored rfl rfl (fun row hmem hid => ?_) rfl
    obtain ⟨old, hold, rfl⟩ := (KeyedStore.mem_modify Routine.id_withRuntime).mp hmem
    split
    · next hsame =>
      have holdid : old.id = sub.id := by simpa [hsame] using hid
      obtain ⟨run, hfired, hlast, rfl, hnext⟩ := hreq (hsame.symm.trans holdid)
      exact hd.updated (hd.row old hold holdid) hfired hlast hnext
    · next hother =>
      rw [if_neg hother] at hid
      exact hd.row old hold hid
  | linkRoutineRunToJob | completeRoutineRun | listEventRoutines | listDueCronRoutines |
    getRoutine | countRunning | countRunningBatch | listDispatchedRoutineRuns | getJob |
    getAgentJobFailureReason => exact hd.stored rfl rfl hd.row rfl
  | createRoutineRun run checks =>
    change sub.Dated ⟨(m.state.createRun run).2, _⟩ ∧ sub.Since m ⟨(m.state.createRun run).2, _⟩
    unfold EngineState.createRun
    split <;> exact hd.quiet rfl rfl hd.row hd.spawned
  | _ => exact hd.quiet rfl rfl hd.row hd.spawned

/-! ### The code keeps them apart -/

/-- The ticks and the executions they spawn. -/
def protocol (sub : Subject) : Protocol EngineCall EngineInstr EngineState where
  inv := sub.Dated
  later := sub.Since
  allowed _ _ i m := sub.Allows m i
  later_refl := .refl
  later_trans hs hs' := hs.trans hs'

section

variable {α : Type} {op : EngineCall} {h : Engine}

/-- The program keeps the fires apart whatever the other tasks do, and ends with `Q`. -/
abbrev Keeps (sub : Subject) (op : EngineCall) (k : ℕ) (p : EngineProg α) (m : EngineMemory)
    (Q : α → EngineMemory → Prop) : Prop :=
  sub.protocol.Safe engineMachine op k Q p m

/-- What lasts. -/
abbrev Lasting (sub : Subject) (F : EngineMemory → Prop) : Prop :=
  ∀ m m', sub.Since m m' → F m → F m'

/-- A step: it is taken in a later memory, and what follows begins in one still later. -/
theorem keeps_step {f : i.Answer → EngineProg α} {Q : α → EngineMemory → Prop}
    (hreq : ∀ m₁, sub.Since m m₁ → sub.Requires m₁ i)
    (hf : ∀ m₁ m₂, sub.Since m m₁ → sub.Dated m₁ → sub.Since m₁ m₂ →
      sub.Keeps op k (f (EngineState.exec i m₁.state).1) m₂ Q) :
    sub.Keeps op k (i.act >>= f) m Q := by
  intro m₁ hg hd hallows _
  obtain ⟨hdated, hsince⟩ := Dated.after hd hallows (hreq m₁ hg.1)
  exact ⟨hdated, hsince, hf m₁ _ hg.1 hd hsince⟩

/-- An instruction of which nothing is asked. -/
def Idle : EngineInstr → Prop
  | .spawn _ | .updateRoutineRuntime .. | .updateRoutine .. => False
  | _ => True

theorem requires_of_idle (hi : Idle i) : sub.Requires m i := by
  cases i with
  | spawn | updateRoutineRuntime | updateRoutine => exact hi.elim
  | _ => trivial

/-- A program of such, and something that lasts meanwhile. -/
theorem keeps_of_idle {p : EngineProg α} {q : α → Prop} {F : EngineMemory → Prop}
    (hp : p.Obeys (fun _ _ => True) Idle q) (hF : sub.Lasting F) (hm : F m) :
    sub.Keeps op k p m fun a m' => q a ∧ F m' := by
  refine Protocol.Safe.of_obeys (fun m m' hg => hF m m' hg.1) (fun i m hi hd hallows hm => ?_) hp hm
  obtain ⟨hdated, hsince⟩ := Dated.after (k := k) hd hallows (requires_of_idle hi)
  exact ⟨hdated, hsince, trivial, hF _ _ hsince hm⟩

/-- The next fire is after what the clock showed. -/
theorem keeps_nextFire (hup : h.crates.Upcoming) (trigger : Trigger) {t : Time}
    {F : EngineMemory → Prop} (hF : sub.Lasting F) (hm : F m) (ht : t ≤ m.state.now) :
    sub.Keeps op k (nextFire h trigger) m fun next m' =>
      F m' ∧ ∀ n, next = some n → t < n := by
  unfold nextFire
  split
  · refine keeps_step (fun _ _ => trivial) fun m₁ m₂ hs _ hs' => ?_
    have hlast := hF _ _ hs' (hF _ _ hs hm)
    split
    · next next hok =>
      refine ⟨hlast, fun n heq => ?_⟩
      unfold nextCronFire at hok
      split at hok
      · cases hok
      · next upcoming hcron =>
        have hn := (Except.ok.inj hok).trans heq
        exact (ht.trans hs.now).trans_lt (hup _ _ hcron _ _ _ hn)
    · exact ⟨hlast, nofun⟩
  · exact ⟨hm, nofun⟩

/-- What an execution knows of its run. -/
def Owns (sub : Subject) (routine : Routine) (run : RoutineRun) (m : EngineMemory) : Prop :=
  routine.id = sub.id → (routine, run) ∈ sub.fires m ∧ run.started_at ≤ m.state.now

theorem lasting_owns (routine : Routine) (run : RoutineRun) :
    sub.Lasting (sub.Owns routine run) :=
  fun _ _ hs ho hid => ⟨hs.mem (ho hid).1, (ho hid).2.trans hs.now⟩

/-- The runtime update of a run. -/
theorem keeps_updateRuntime (hup : h.crates.Upcoming) {routine : Routine} {run : RoutineRun}
    (status : RunStatus) (hm : sub.Owns routine run m) :
    sub.Keeps op k (updateRuntime h routine status) m fun _ _ => True := by
  refine keeps_step (fun _ _ => trivial) fun m₁ m₂ hs _ hs' => ?_
  have hstarted : routine.id = sub.id → run.started_at ≤ m₁.state.now :=
    fun hid => (hm hid).2.trans hs.now
  have hown := lasting_owns routine run _ _ hs' (lasting_owns routine run _ _ hs hm)
  refine Protocol.Safe.bind ((keeps_nextFire hup routine.trigger (lasting_owns routine run) hown
    hs'.now).mono fun next m₃ hnext => ?_)
  refine keeps_step (fun m₄ hs₄ hid => ⟨run, hs₄.mem (hnext.1 hid).1, hstarted hid, rfl,
    hnext.2⟩) fun m₄ m₅ _ _ _ => ?_
  split
  · trivial
  · split
    · exact keeps_step (fun _ _ => trivial) fun _ _ _ _ _ => trivial
    · trivial

theorem idle_of_work (hi : ofWork i) : Idle i := by
  cases i with
  | getJob | executeLightweight | dispatchJob | linkRoutineRunToJob => trivial
  | _ => exact hi.elim

/-- **`execute_routine`.** -/
theorem keeps_executeRoutine (hup : h.crates.Upcoming) {routine : Routine} {run : RoutineRun}
    {checks : Checks} (hm : sub.Owns routine run m) :
    sub.Keeps op k (executeRoutine h routine run checks) m fun _ _ => True := by
  have hlast : sub.Lasting (sub.Owns routine run) := lasting_owns routine run
  refine keeps_step (fun _ _ => trivial) fun m₁ m₂ hs _ hs' => ?_
  have hwork := (obeys_attempts h routine run MAX_RETRIES none).weaken (fun _ _ hr => hr)
    fun _ => idle_of_work
  refine Protocol.Safe.bind ((keeps_of_idle hwork hlast
    (hlast _ _ hs' (hlast _ _ hs hm))).mono fun result m₃ hresult => ?_)
  refine keeps_step (fun _ _ => trivial) fun m₄ m₅ hs₄ _ hs₅ => ?_
  refine keeps_step (fun _ _ => trivial) fun m₆ m₇ hs₆ _ hs₇ => ?_
  exact keeps_updateRuntime hup _ (hlast _ _ (hs₄.trans (hs₅.trans (hs₆.trans hs₇))) hresult.2)

theorem keeps_pollSpawned (hup : h.crates.Upcoming) (n : ℕ) :
    sub.Keeps op k (pollSpawned h n) m fun _ _ => True := by
  refine keeps_step (fun _ _ => trivial) fun m₁ m₂ _ hd hs => ?_
  cases hfuture : (EngineState.exec (.poll n) m₁.state).1 with
  | none => trivial
  | some future =>
    have hmem : future ∈ m₁.state.spawned := List.mem_of_getElem? hfuture
    have hown : sub.Owns future.routine future.run m₂ := by
      refine lasting_owns _ _ _ _ hs fun hid => ?_
      have hfired := hd.spawned future hmem hid
      exact ⟨hfired, (hd.made _ hfired).started⟩
    cases future with
    | fire routine run checks =>
      refine keeps_step (fun _ _ => trivial) fun m₃ m₄ hs₃ _ hs₄ => ?_
      split
      · trivial
      · exact keeps_executeRoutine hup (lasting_owns _ _ _ _ (hs₃.trans hs₄) hown)
    | execute routine run checks => exact keeps_executeRoutine hup hown

/-- What a tick knows of a row it has listed. -/
def Listed (sub : Subject) (routine : Routine) (m : EngineMemory) : Prop :=
  routine.id = sub.id → sub.Follows routine m ∧
    ∃ next, routine.next_fire_at = some next ∧ next ≤ m.state.now

theorem lasting_listed (routine : Routine) : sub.Lasting (sub.Listed routine) := by
  intro m m' hs hl hid
  obtain ⟨hfollows, next, hnext, hle⟩ := hl hid
  exact ⟨hfollows.since hs, next, hnext, hle.trans hs.now⟩

/-- The copy has cooled down. -/
def Cooled (routine : Routine) (m : EngineMemory) : Prop :=
  ∀ last, routine.last_run_at = some last →
    last + routine.guardrails.cooldownDuration ≤ m.state.now

theorem lasting_cooled (routine : Routine) : sub.Lasting (Cooled routine) :=
  fun _ _ hs hc last hlast => (hc last hlast).trans hs.now

theorem keeps_checkCooldown (routine : Routine) {F : EngineMemory → Prop} (hF : sub.Lasting F)
    (hm : F m) : sub.Keeps op k (checkCooldown routine) m fun cool m' =>
      F m' ∧ (cool = true → Cooled routine m') := by
  unfold checkCooldown
  split
  · next last hlast =>
    refine keeps_step (fun _ _ => trivial) fun m₁ m₂ hs _ hs' =>
      ⟨hF _ _ hs' (hF _ _ hs hm), fun hcool other hother => ?_⟩
    obtain rfl := Option.some.inj (hlast.symm.trans hother)
    change (!decide (m₁.state.now - last < routine.guardrails.cooldownDuration)) = true at hcool
    have hle : ¬ (m₁.state.now - last < routine.guardrails.cooldownDuration) := by
      simpa using hcool
    have hnow := hs'.now
    linarith [not_lt.mp hle]
  · next hnone => exact ⟨hm, fun _ last hlast => absurd (hnone.symm.trans hlast) nofun⟩

/-- `spawn_fire` from a listed row that has cooled down. -/
theorem keeps_spawnFire (hcool : (chronoFromStd sub.guardrails.cooldown).isSome)
    {routine : Routine} {trigger_type : String} {detail : Option String} {checks : Checks}
    {F : EngineMemory → Prop} (hF : sub.Lasting F) (hm : F m) (hlisted : sub.Listed routine m)
    (hcooled : Cooled routine m) :
    sub.Keeps op k (spawnFire routine trigger_type detail checks) m fun _ m' => F m' := by
  refine keeps_step (fun _ _ => trivial) fun m₁ m₂ hs₁ _ hs₂ => ?_
  refine keeps_step (fun _ _ => trivial) fun m₃ m₄ hs₃ _ hs₄ => ?_
  have hstart := hs₁.trans (hs₂.trans hs₃)
  refine keeps_step (fun m₅ hs₅ hid => ?_) fun m₅ m₆ hs₅ _ hs₆ =>
    hF _ _ (hstart.trans (hs₄.trans (hs₅.trans hs₆))) hm
  obtain ⟨hfollows, next, hnext, hle⟩ := hlisted hid
  refine ⟨hfollows.since (hstart.trans (hs₄.trans hs₅)), ⟨next, hnext, hle.trans hstart.now⟩,
    hs₄.now.trans hs₅.now, fun last hlast => ?_⟩
  have hduration : routine.guardrails.cooldownDuration = sub.guardrails.cooldown := by
    obtain ⟨d, hd⟩ := Option.isSome_iff_exists.mp hcool
    rw [RoutineGuardrails.cooldownDuration, hfollows.guardrails, hd]
    unfold chronoFromStd at hd
    split at hd
    · exact (Option.some.inj hd).symm
    · cases hd
  rw [← hduration]
  exact (hcooled last hlast).trans hstart.now

theorem idle_checkConcurrent (routine : Routine) :
    (checkConcurrent routine).Obeys (fun _ _ => True) Idle fun _ => True := by
  refine EngineInstr.obeys_bind trivial fun answer _ => ?_
  cases answer <;> trivial

/-- **`check_cron_triggers`, the due routines in turn.** -/
theorem keeps_fireDue (hcool : (chronoFromStd sub.guardrails.cooldown).isSome)
    {routines : List Routine} (hlisted : ∀ routine ∈ routines, sub.Listed routine m) :
    sub.Keeps op k (fireDue h routines) m fun _ _ => True := by
  induction routines generalizing m with
  | nil => trivial
  | cons routine rest ih =>
    -- All along, the rows that are still to be looked at are listed.
    have hlast : sub.Lasting fun m => sub.Listed routine m ∧ ∀ other ∈ rest, sub.Listed other m :=
      fun _ _ hs hm => ⟨lasting_listed routine _ _ hs hm.1,
        fun other hother => lasting_listed other _ _ hs (hm.2 other hother)⟩
    refine keeps_step (fun _ _ => trivial) fun m₁ m₂ hs₁ _ hs₂ => ?_
    have hm₂ := hlast _ _ (hs₁.trans hs₂) (List.forall_mem_cons.mp hlisted)
    dsimp only
    split
    · trivial
    · refine Protocol.Safe.bind ((keeps_checkCooldown routine hlast hm₂).mono
        fun cool m₃ hm₃ => ?_)
      split
      · exact ih hm₃.1.2
      · next hcooled =>
        have hcooled := hm₃.2 (by simpa using hcooled)
        have hboth : sub.Lasting fun m => (sub.Listed routine m ∧
            ∀ other ∈ rest, sub.Listed other m) ∧ Cooled routine m :=
          fun _ _ hs hm => ⟨hlast _ _ hs hm.1, lasting_cooled routine _ _ hs hm.2⟩
        refine Protocol.Safe.bind ((keeps_of_idle (idle_checkConcurrent routine) hboth
          ⟨hm₃.1, hcooled⟩).mono fun r m₄ hr => ?_)
        obtain ⟨free, counted⟩ := r
        obtain ⟨-, ⟨hroutine, hrest⟩, hcooled⟩ := hr
        dsimp only
        split
        · exact ih hrest
        · have hrests : sub.Lasting fun m => ∀ other ∈ rest, sub.Listed other m :=
            fun _ _ hs hm other hother => lasting_listed other _ _ hs (hm other hother)
          exact Protocol.Safe.bind ((keeps_spawnFire hcool hrests hrest hroutine hcooled).mono
            fun _ m₅ hrest => ih hrest)

theorem keeps_checkCronTriggers (hcool : (chronoFromStd sub.guardrails.cooldown).isSome) :
    sub.Keeps op k (checkCronTriggers h) m fun _ _ => True := by
  refine keeps_step (fun _ _ => trivial) fun m₁ m₂ _ hd hs => ?_
  cases hanswer : (EngineState.exec .listDueCronRoutines m₁.state).1 with
  | error e => trivial
  | ok routines =>
    refine keeps_fireDue hcool fun routine hmem => lasting_listed routine _ _ hs fun hid => ?_
    obtain rfl := EngineState.stored_eq_ok hanswer
    obtain ⟨hrow, hdue⟩ := List.mem_filter.mp hmem
    obtain ⟨next, hnext, hle⟩ := (Option.any_eq_true _ _).mp ((Bool.and_eq_true _ _).mp hdue).2
    exact ⟨hd.row routine hrow hid, next, hnext, of_decide_eq_true hle⟩

end

end Subject

/-! ### The fires of a run -/

/-- **A tick never fires a routine twice for one due instant, nor within its cooldown, as long as
it fires it from rows that count every earlier fire.** -/
theorem spaced_of_reach {h : Engine} {s : EngineState} {c : EngineConf} {routine : Routine}
    (hup : h.crates.Upcoming) (hrow : routine ∈ s.routines)
    (hcool : (chronoFromStd routine.guardrails.cooldown).isSome)
    (hreach : (engineSystem h).Reach
      (fun c m => countsEveryFire routine.id routine.run_count c m = true)
      (.idle s.rebooted) c) :
    Spaced routine.guardrails.cooldown (firesOf routine.id c.log) := by
  let sub : Subject := ⟨routine.id, routine.guardrails, routine.run_count⟩
  have hd : sub.Dated c.toMemory := by
    refine (System.Reach.safe (P := sub.protocol) (Q := fun _ _ _ _ => True)
      (fun _ _ _ _ _ _ _ => trivial) ?_ ?_ ?_ ?_ hreach).1
    · intro c k op i f hok hk
      rw [countsEveryFire, hk] at hok
      cases i with
      | spawn future =>
        cases future with
        | fire copy run checks =>
          intro hid
          simpa [hid, sub] using hok
        | execute => trivial
      | _ => trivial
    · intro c e s' hd _ hs
      obtain rfl := Option.some.inj hs
      -- the world outside leaves the rows and what was spawned alone
      have hnow : c.state.now ≤ (e.happen c.state).now := by
        cases e with
        | clock nanoseconds => exact le_add_of_nonneg_right (Int.natCast_nonneg _)
        | _ => exact le_rfl
      have hsame : (e.happen c.state).routines = c.state.routines ∧
          (e.happen c.state).spawned = c.state.spawned := by
        cases e <;> exact ⟨rfl, rfl⟩
      have hsince : sub.Since c.toMemory ⟨e.happen c.state, c.log⟩ :=
        ⟨hnow, [], rfl, List.forall_mem_nil _⟩
      exact ⟨⟨hd.numbered, fun f hf => (hd.made f hf).later hnow, hd.spaced,
        fun row hmem hid => (hd.row row (hsame.1 ▸ hmem) hid).since hsince,
        fun future hmem => hd.spawned future (hsame.2 ▸ hmem)⟩, hsince⟩
    · intro c op s' hd hok hs
      obtain rfl := Option.some.inj hs
      refine ⟨hd, .refl _, fun k => ?_⟩
      cases op with
      | checkCronTriggers =>
        exact Protocol.Safe.bind ((Subject.keeps_checkCronTriggers hcool).mono
          fun _ _ _ => trivial)
      | poll n =>
        exact Protocol.Safe.bind ((Subject.keeps_pollSpawned hup n).mono fun _ _ _ => trivial)
      | _ => cases hok
    · refine ⟨trivial, List.forall_mem_nil _, List.Pairwise.nil, fun row hmem hid => ?_,
        List.forall_mem_nil _⟩
      obtain rfl := KeyedStore.eq_of_mem hmem hrow hid
      exact ⟨rfl, Nat.le_add_right _ _, List.forall_mem_nil _, List.forall_mem_nil _⟩
  exact hd.spaced

/-! ### Two fires for one instant -/

theorem upcoming_sample : Crates.sample.Upcoming := by
  intro schedule upcoming hcron timezone now next hnext
  obtain rfl := Except.ok.inj hcron
  obtain rfl := Option.some.inj hnext
  exact Int.lt_ediv_add_one_mul_self now (by decide)

/-- Two ticks an hour apart, the first fire completing in between. -/
def firedHourly : List EngineMove :=
  [call .checkCronTriggers 0 6, call (.poll 0) 1 9, [.env (.clock (3600 * 10 ^ 9))],
    call .checkCronTriggers 2 7].flatten

/-- The theorem on these. -/
theorem spaced_firedHourly : ∃ c,
    (engineSystem (.sample 0)).play (.idle EngineState.sample.rebooted) firedHourly = some c ∧
      (firesOf Routine.sample.id c.log).length = 2 ∧
      Spaced Routine.sample.guardrails.cooldown (firesOf Routine.sample.id c.log) := by
  have hplay : ((engineSystem (.sample 0)).play (.idle EngineState.sample.rebooted)
      firedHourly).any (fun c => (firesOf Routine.sample.id c.log).length == 2) = true := by
    decide +kernel
  obtain ⟨c, hc, htwo⟩ := (Option.any_eq_true _ _).mp hplay
  have hallowed : System.Allowed (engineSystem (.sample 0))
      (fun c m => countsEveryFire Routine.sample.id Routine.sample.run_count c m = true)
      (.idle EngineState.sample.rebooted) firedHourly := by
    decide +kernel
  have hrow : Routine.sample ∈ EngineState.sample.routines := List.mem_singleton_self _
  exact ⟨c, hc, eq_of_beq htwo, spaced_of_reach upcoming_sample hrow (by decide)
    (System.Reach.init.of_play hallowed hc)⟩

/-- The tables with a routine that may have two runs at a time. -/
def EngineState.overlapping : EngineState :=
  { EngineState.sample with routines :=
      KeyedStore.empty.insert { Routine.sample with guardrails := ⟨300 * 10 ^ 9, 2, none⟩ } }

/-- Two ticks fifteen seconds apart, the first fire still running. -/
def firedWhileRunning : List EngineMove :=
  [call .checkCronTriggers 0 6, call (.poll 0) 1 3, [.env (.clock (15 * 10 ^ 9))],
    call .checkCronTriggers 2 6].flatten

/-- The second tick still finds the instant due and the cooldown over. -/
theorem due_instant_fired_twice : ∃ c,
    (engineSystem (.sample 0)).play (.idle EngineState.overlapping.rebooted) firedWhileRunning =
        some c ∧
      (firesOf Routine.sample.id c.log).map (fun f => (f.1.next_fire_at, f.2.started_at)) =
        [(some 0, 15 * 10 ^ 9), (some 0, 0)] ∧
      ¬ Spaced (300 * 10 ^ 9) (firesOf Routine.sample.id c.log) := by
  have hplay : ((engineSystem (.sample 0)).play (.idle EngineState.overlapping.rebooted)
      firedWhileRunning).any (fun c => decide ((firesOf Routine.sample.id c.log).map (fun f =>
        (f.1.next_fire_at, f.2.started_at)) = [(some 0, 15 * 10 ^ 9), (some 0, 0)])) = true := by
    decide +kernel
  obtain ⟨c, hc, htwo⟩ := (Option.any_eq_true _ _).mp hplay
  have htwo := of_decide_eq_true htwo
  refine ⟨c, hc, htwo, fun hspaced => ?_⟩
  have hpairs : ((firesOf Routine.sample.id c.log).map fun f =>
      (f.1.next_fire_at, f.2.started_at)).Pairwise fun later earlier => earlier.1 ≠ later.1 :=
    List.pairwise_map.mpr (hspaced.imp fun hf => hf.1)
  rw [htwo] at hpairs
  exact (List.pairwise_cons.mp hpairs).1 _ List.mem_cons_self rfl

end T3Claw.Routines
