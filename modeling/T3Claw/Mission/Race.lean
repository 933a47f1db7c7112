import T3Claw.Mission.Neutral

/-!
# A fire and the outcome of its own thread

`fire_mission` installs the outcome watcher before it saves the record, so that a save that
fails "cannot orphan the running thread". The thread may then finish before the save, and two
tasks each load the record, change their copy and save it whole. The outcome processor is
ready for this on its side: a record without the thread is put in order before the outcome is
applied (`reconcile`). The fire is not: it saves the copy it has held since before the spawn.

So the order of the two saves decides. Whatever was loaded when, each of the two records
carries the thread once (`Recorded`), and the outcome is in the processor's record alone;
`outcome_kept_iff` says when that one is the last, for every interleaving.
-/

namespace T3Claw

open Conc

/-! ### What is asked of the persisted record -/

/-- The entry an outcome adds to `approach_history`. -/
def ThreadOutcome.approach : ThreadOutcome → Option String
  | .completed (some text) => some text
  | .failed error => some ("FAILED: " ++ error)
  | .maxIterations => some "Hit max iterations without completing"
  | .completed none | .stopped | .gatePaused .. => none

/-- The focus an outcome names, if it names one. -/
def ThreadOutcome.focus (to_lowercase : String → String) : ThreadOutcome → Option String
  | .completed (some text) =>
    ((nextFocus (to_lowercase text).toList text.toList).bind id).map String.ofList
  | _ => none

/-- The cut after `next focus:` panics: the offset found in the lower-cased text is not one
into the text itself. -/
def ThreadOutcome.panics (to_lowercase : String → String) : ThreadOutcome → Bool
  | .completed (some text) => (nextFocus (to_lowercase text).toList text.toList).isNone
  | _ => false

/-- The thread is in the accounts of `r` exactly once, on top of those of `m`, and its outcome
is in the results. -/
structure OutcomeKept (to_lowercase : String → String) (m : Mission) (tid : ThreadId)
    (outcome : ThreadOutcome) (r : Mission) : Prop where
  once : r.thread_history.count tid = 1
  counted : r.threads_today.toNat = m.threads_today.toNat + 1
  approach : r.approach_history = m.approach_history ++ outcome.approach.toList
  focus : ∀ f, outcome.focus to_lowercase = some f → r.current_focus = some f
  completed : completesMission to_lowercase outcome = true → r.status = .completed

/-! ### Programs that save once -/

/-- The instruction writes no mission. -/
def Instr.sparesMissions : Instr → Prop
  | .saveMission _ | .updateMissionStatus .. => False
  | _ => True

/-- The program writes no mission, and its result meets `P`. -/
abbrev Spares {α : Type} (p : Act α) (P : α → Prop := fun _ => True) : Prop :=
  p.Obeys (fun _ _ => True) Instr.sparesMissions P

/-- The program saves one record, `Q` of it, and writes no other. -/
def Saves (Q : Mission → Prop) {α : Type} : Act α → Prop
  | .done _ => False
  | .act i f => (∃ r, i = .saveMission r ∧ Q r ∧ ∀ a, Spares (f a)) ∨
      (i.sparesMissions ∧ ∀ a, Saves Q (f a))

section

variable {α β : Type} {Q : Mission → Prop} {P : α → Prop}

theorem Spares.step {i : Instr} {f : Answer i → Act α} (hi : i.sparesMissions)
    (hf : ∀ a, Spares (f a) P) : Spares (await i >>= f) P := ⟨hi, fun a _ => hf a⟩

theorem Saves.step {i : Instr} {f : Answer i → Act α} (hi : i.sparesMissions)
    (hf : ∀ a, Saves Q (f a)) : Saves Q (await i >>= f) := .inr ⟨hi, hf⟩

theorem Saves.save {r : Mission} {f : Unit → Act α} (hr : Q r) (hf : Spares (f ())) :
    Saves Q (await (Instr.saveMission r) >>= f) := .inl ⟨r, rfl, hr, fun _ => hf⟩

theorem Spares.of_neutral {p : Act α} (hp : Neutral p P) : Spares p P := by
  refine hp.weaken (fun _ _ hr => hr) fun i hi => ?_
  cases i with
  | saveMission | updateMissionStatus => exact hi.elim
  | _ => trivial

/-- Something harmless first. -/
theorem Saves.after {p : Act α} {f : α → Act β} (hp : Spares p P)
    (hf : ∀ a, P a → Saves Q (f a)) : Saves Q (p >>= f) := by
  induction p with
  | done a => exact hf a hp
  | act i k ih => exact .inr ⟨hp.1, fun a => ih a (hp.2 a trivial)⟩

/-- Something harmless last. -/
theorem Saves.bind {p : Act α} {f : α → Act β} (hp : Saves Q p) (hf : ∀ a, Spares (f a)) :
    Saves Q (p >>= f) := by
  induction p with
  | done a => exact hp.elim
  | act i k ih =>
    rcases hp with ⟨r, rfl, hr, hk⟩ | ⟨hi, hk⟩
    · exact .inl ⟨r, rfl, hr, fun a => Prog.Obeys.bind (hk a) fun b _ => hf b⟩
    · exact .inr ⟨hi, fun a => ih a (hk a)⟩

end

/-! ### The two records -/

/-- The part of a record an outcome writes. -/
def Mission.results (m : Mission) : List String × Option String × MissionStatus :=
  (m.approach_history, m.current_focus, m.status)

/-- The record `m` with the thread in its accounts. -/
structure Recorded (m : Mission) (tid : ThreadId) (r : Mission) : Prop where
  id : r.id = m.id
  history : r.thread_history = m.thread_history ++ [tid]
  counted : m.threads_today.toNat + 1 < 2 ^ 32 →
    r.threads_today.toNat = m.threads_today.toNat + 1

/-- What the fire saves: no outcome in it. -/
def FireCopy (m : Mission) (tid : ThreadId) (r : Mission) : Prop :=
  Recorded m tid r ∧ r.results = m.results

/-- What the outcome processor saves. -/
def OutcomeCopy (to_lowercase : String → String) (m : Mission) (tid : ThreadId)
    (outcome : ThreadOutcome) (r : Mission) : Prop :=
  Recorded m tid r ∧ ∃ a, applyOutcome to_lowercase outcome m = some a ∧ r.results = a.results

section

variable {h : Host} {m r : Mission} {tid : ThreadId} {outcome : ThreadOutcome}
  {to_lowercase : String → String}

theorem Recorded.of_fields {a : Mission} (hr : Recorded m tid r) (hid : a.id = r.id)
    (hhistory : a.thread_history = r.thread_history)
    (htoday : a.threads_today = r.threads_today) : Recorded m tid a :=
  ⟨hid.trans hr.id, hhistory.trans hr.history, fun hlt => htoday ▸ hr.counted hlt⟩

theorem Recorded.count (hr : Recorded m tid r) (hfresh : tid ∉ m.thread_history) :
    r.thread_history.count tid = 1 := by
  rw [hr.history, List.count_append, List.count_eq_zero.mpr hfresh, List.count_singleton_self]

theorem saves_recordFire {payload : Option Json} :
    Saves (FireCopy m tid) (recordFire h m tid payload) := by
  refine Saves.step trivial fun fire_instant => Saves.step trivial fun _ =>
    Saves.step trivial fun now =>
      Saves.after (Spares.of_neutral silent_advanced.neutral) fun a ha => ?_
  have hcounted : m.threads_today.toNat + 1 < 2 ^ 32 →
      (m.threads_today + 1).toNat = m.threads_today.toNat + 1 := by
    intro hlt
    have hone : (1 : UInt32).toNat = 1 := rfl
    rw [UInt32.toNat_add, hone, Nat.mod_eq_of_lt hlt]
  have hcopy : FireCopy m tid a := by
    obtain ⟨next, rfl⟩ | ⟨-, rfl⟩ := ha
    · exact ⟨⟨rfl, rfl, hcounted⟩, rfl⟩
    · exact ⟨⟨rfl, rfl, hcounted⟩, rfl⟩
  refine Saves.step trivial fun _ => Saves.save hcopy ?_
  · exact Spares.step trivial fun _ => Spares.step trivial fun _ => trivial

theorem applyOutcome_completed (text : String) :
    applyOutcome to_lowercase (.completed (some text)) m =
      (nextFocus (to_lowercase text).toList text.toList).map fun focus => { m with
        status := if goalAchieved (to_lowercase text).toList then .completed else m.status
        current_focus := (focus.map String.ofList).orElse fun _ => m.current_focus
        approach_history := m.approach_history ++ [text] } := by
  rw [applyOutcome]
  cases nextFocus (to_lowercase text).toList text.toList <;> rfl

/-- What an outcome does to a record. -/
theorem applyOutcome_spec {a : Mission} (ha : applyOutcome to_lowercase outcome m = some a) :
    (a.id = m.id ∧ a.thread_history = m.thread_history ∧ a.threads_today = m.threads_today) ∧
      a.approach_history = m.approach_history ++ outcome.approach.toList ∧
      (∀ f, outcome.focus to_lowercase = some f → a.current_focus = some f) ∧
      (completesMission to_lowercase outcome = true → a.status = .completed) := by
  rcases outcome with (_ | text) | _ | _ | error | _
  case completed.some =>
    rw [applyOutcome_completed] at ha
    obtain ⟨focus, hfocus, rfl⟩ := Option.map_eq_some_iff.mp ha
    refine ⟨⟨rfl, rfl, rfl⟩, rfl, fun f hf => ?_, fun hgoal => if_pos hgoal⟩
    rw [ThreadOutcome.focus, hfocus] at hf
    obtain ⟨cs, rfl, rfl⟩ := Option.map_eq_some_iff.mp hf
    rfl
  all_goals
    obtain rfl := Option.some.inj ha
    refine ⟨⟨rfl, rfl, rfl⟩, ?_, nofun, nofun⟩
    simp [ThreadOutcome.approach]

theorem applyOutcome_eq_none_iff :
    applyOutcome to_lowercase outcome m = none ↔ outcome.panics to_lowercase = true := by
  rcases outcome with (_ | text) | _ | _ | error | _
  case completed.some => rw [applyOutcome_completed, Option.map_eq_none_iff, ThreadOutcome.panics,
    Option.isNone_iff_eq_none]
  all_goals exact ⟨nofun, nofun⟩

/-- Its results depend on the results only. -/
theorem results_applyOutcome {n a : Mission} (hmn : m.results = n.results)
    (ha : applyOutcome to_lowercase outcome m = some a) :
    ∃ b, applyOutcome to_lowercase outcome n = some b ∧ a.results = b.results := by
  obtain ⟨happroach, hfocus, hstatus⟩ : m.approach_history = n.approach_history ∧
      m.current_focus = n.current_focus ∧ m.status = n.status := by
    simpa [Mission.results] using hmn
  rcases outcome with (_ | text) | _ | _ | error | _
  case completed.some =>
    rw [applyOutcome_completed] at ha
    obtain ⟨focus, hf, rfl⟩ := Option.map_eq_some_iff.mp ha
    refine ⟨_, (applyOutcome_completed text).trans (by rw [hf, Option.map_some]), ?_⟩
    simp only [Mission.results, happroach, hfocus, hstatus]
  all_goals
    obtain rfl := Option.some.inj ha
    refine ⟨_, rfl, ?_⟩
    simp only [Mission.results, happroach, hfocus, hstatus]

/-! ### The outcome processor -/

/-- Whatever the processor loads, it goes on with a record like the fire's. -/
theorem spares_reconcile {t : Time} (hr : r = m ∨ FireCopy m tid r)
    (hfresh : tid ∉ m.thread_history) :
    Spares (reconcile h r tid t) (FireCopy m tid) := by
  refine (Spares.of_neutral silent_reconcile.neutral).mono fun a ha => ?_
  obtain ⟨hin, rfl⟩ | ⟨hout, now, next, rfl⟩ := ha
  · exact hr.elim (fun heq => absurd (heq ▸ hin) hfresh) id
  · -- the fire has not saved: the processor makes the entry itself
    obtain rfl : r = m := hr.resolve_right fun hcopy => hout (by
      rw [hcopy.1.history]
      exact List.mem_append_right _ (List.mem_singleton_self tid))
    refine ⟨⟨rfl, rfl, fun hlt => ?_⟩, rfl⟩
    rw [toNat_saturatingSucc]
    omega

/-- What the processor does once it has loaded `r`. -/
def outcomeRest (h : Host) (tid : ThreadId) (outcome : ThreadOutcome) (t : Time) (r : Mission) :
    Act Done := do
  let mission ← reconcile h r tid t
  match applyOutcome h.to_lowercase outcome mission with
  | none => pure (.ok ())
  | some mission => do
    processOutputs mission outcome
    notifyOutcome mission tid outcome
    let now ← await .now
    await (.saveMission { mission with updated_at := now })
    pure (.ok ())

theorem processOutcome_eq {t : Time} : ∃ g,
    asDone (processMissionOutcome h m.id tid outcome t) = Prog.act (.loadMission m.id) g ∧
      ∀ r, g (some r) = outcomeRest h tid outcome t r := by
  refine ⟨_, rfl, fun r => ?_⟩
  change (reconcile h r tid t >>= _) >>= _ = _
  rw [Prog.bind_bind, outcomeRest]
  refine congrArg _ (funext fun mission => ?_)
  cases applyOutcome h.to_lowercase outcome mission with
  | none => rfl
  | some mission =>
    simp only [Prog.bind_bind]
    rfl

/-- Whether it loads the record before the fire's save or after, it saves the outcome with
the thread recorded once; when it panics it saves nothing. -/
theorem saves_outcomeRest {t : Time} (hfresh : tid ∉ m.thread_history)
    (hr : r = m ∨ FireCopy m tid r) :
    if outcome.panics h.to_lowercase then Spares (outcomeRest h tid outcome t r)
    else Saves (OutcomeCopy h.to_lowercase m tid outcome) (outcomeRest h tid outcome t r) := by
  have hreconciled : Spares (reconcile h r tid t) (FireCopy m tid) := spares_reconcile hr hfresh
  split
  case isTrue hpanics =>
    refine Prog.Obeys.bind hreconciled fun a ha => ?_
    rw [applyOutcome_eq_none_iff.mpr hpanics]
    exact trivial
  case isFalse hpanics =>
    refine Saves.after hreconciled fun a ⟨hrec, hres⟩ => ?_
    obtain ⟨b, hb⟩ : ∃ b, applyOutcome h.to_lowercase outcome a = some b :=
      Option.ne_none_iff_exists'.mp fun hnone => hpanics (applyOutcome_eq_none_iff.mp hnone)
    obtain ⟨⟨hid, hhistory, htoday⟩, -⟩ := applyOutcome_spec hb
    rw [hb]
    refine Saves.after (Spares.of_neutral silent_processOutputs.neutral) fun _ _ =>
      Saves.after (Spares.of_neutral silent_notifyOutcome.neutral) fun _ _ =>
        Saves.step trivial fun now => Saves.save ⟨?_, ?_⟩ trivial
    · exact hrec.of_fields hid hhistory htoday
    · exact results_applyOutcome hres hb |>.imp fun c hc => ⟨hc.1, hc.2⟩

/-! ### The race -/

/-- Who has saved a record so far, the last one first. -/
def savers (c : Conf Op Instr Answer World Done) : List ℕ :=
  c.log.filterMap fun e =>
    match e.2 with
    | .saveMission _ => some e.1
    | _ => none

/-- Right after the spawn: the fire, task 0, is about to record the thread. -/
def firing (h : Host) (w : World) (m : Mission) (tid : ThreadId) (user : String)
    (payload : Option Json) : Conf Op Instr Answer World Done :=
  ⟨⟨w, []⟩, [⟨.fireMission m.id user payload, do
    recordFire h m tid payload
    pure (.ok ())⟩]⟩

/-- The moves of the race: the two tasks, the environment, and one start, of the outcome
processor of this thread. It has to wait for its watcher. -/
def Races (m : Mission) (tid : ThreadId) (outcome : ThreadOutcome)
    (c : Conf Op Instr Answer World Done) : Move Op Outside → Prop
  | .start op => c.tasks.length = 1 ∧ ∃ t, op = .processOutcome m.id tid outcome t
  | _ => True

/-- Task `k` has finished. -/
def Finished (c : Conf Op Instr Answer World Done) (k : ℕ) : Prop :=
  ∃ op d, c.tasks[k]? = some ⟨op, .done d⟩

/-- The program of a task that saves one record: it is yet to come, or it is done. -/
def SavesOnce (Q : Mission → Prop) (saved : Prop) (p : Act Done) : Prop :=
  (saved ∧ Spares p) ∨ (¬ saved ∧ Saves Q p)

theorem SavesOnce.step {Q : Mission → Prop} {saved : Prop} {i : Instr}
    {f : Answer i → Act Done} (hp : SavesOnce Q saved (.act i f)) (a : Answer i) :
    (i.sparesMissions ∧ SavesOnce Q saved (f a)) ∨
      ∃ r, i = .saveMission r ∧ Q r ∧ ¬ saved ∧ Spares (f a) := by
  rcases hp with ⟨hs, hi, hf⟩ | ⟨hs, ⟨r, hi, hr, hf⟩ | ⟨hi, hf⟩⟩
  · exact .inl ⟨hi, .inl ⟨hs, hf a trivial⟩⟩
  · exact .inr ⟨r, hi, hr, hs, hf a⟩
  · exact .inl ⟨hi, .inr ⟨hs, hf a⟩⟩

/-- The outcome processor has not loaded the record, or goes on to a panic, or to its save. -/
def WatcherStage (h : Host) (m : Mission) (tid : ThreadId) (outcome : ThreadOutcome)
    (saved : Prop) (p : Act Done) : Prop :=
  ((∃ t, p = Op.code h (.processOutcome m.id tid outcome t)) ∧ ¬ saved) ∨
    (outcome.panics h.to_lowercase = true ∧ Spares p) ∨
    (outcome.panics h.to_lowercase = false ∧
      SavesOnce (OutcomeCopy h.to_lowercase m tid outcome) saved p)

/-- Where the race stands, the tasks in `L` having saved: the record is that of the last of
them, and each task saves its own record once. -/
structure RaceInv (h : Host) (m : Mission) (tid : ThreadId) (outcome : ThreadOutcome)
    (L : List ℕ) (c : Conf Op Instr Answer World Done) : Prop where
  stored : ∃ r, c.state.missions.get? m.id = some r ∧ (L = [] ∧ r = m ∨
    L.head? = some 0 ∧ FireCopy m tid r ∨
    L.head? = some 1 ∧ OutcomeCopy h.to_lowercase m tid outcome r)
  nodup : L.Nodup
  started : ∀ k ∈ L, k < c.tasks.length
  panics : outcome.panics h.to_lowercase = true → 1 ∉ L
  fire : ∃ t, c.tasks[0]? = some t ∧ SavesOnce (FireCopy m tid) (0 ∈ L) t.prog
  watcher : ∀ k t, k ≠ 0 → c.tasks[k]? = some t →
    k = 1 ∧ WatcherStage h m tid outcome (1 ∈ L) t.prog

variable {L : List ℕ} {c c' : Conf Op Instr Answer World Done}

theorem savers_of_spares {k : ℕ} {i : Instr} {ts : List (Task Op Instr Answer Done)}
    (hi : i.sparesMissions) :
    savers ⟨c.toMemory.after (missionSystem h).toMachine k i, ts⟩ = savers c := by
  cases i with
  | saveMission | updateMissionStatus => exact hi.elim
  | _ => rfl

theorem missions_of_spares {i : Instr} {w : World} (hi : i.sparesMissions) :
    (worldExec h i w).2.missions = w.missions := by
  refine missions_worldExec (fun r hr => ?_) fun id s hr => ?_
  · subst hr
    exact hi
  · subst hr
    exact hi

/-- The record of another task, or none, is written: task `k` goes on. -/
theorem RaceInv.spare {k : ℕ} {t : Task Op Instr Answer Done} (hc : RaceInv h m tid outcome L c)
    (hm : c'.state.missions = c.state.missions) (hts : c'.tasks = c.tasks.set k t)
    (h₀ : k = 0 → SavesOnce (FireCopy m tid) (0 ∈ L) t.prog)
    (h₁ : k ≠ 0 → k = 1 ∧ WatcherStage h m tid outcome (1 ∈ L) t.prog) :
    RaceInv h m tid outcome L c' := by
  refine ⟨?_, hc.nodup, ?_, hc.panics, ?_, fun j t' hj ht' => ?_⟩
  · rw [hm]
    exact hc.stored
  · rw [hts, List.length_set]
    exact hc.started
  · obtain ⟨t₀, ht₀, hp⟩ := hc.fire
    rw [hts, List.getElem?_set]
    split
    case isTrue hk =>
      subst hk
      exact ⟨t, if_pos (List.getElem?_eq_some_iff.mp ht₀).1, h₀ rfl⟩
    case isFalse => exact ⟨t₀, ht₀, hp⟩
  · rw [hts] at ht'
    obtain ⟨rfl, rfl⟩ | ⟨-, ht'⟩ := System.getElem?_set_cases ht'
    · exact h₁ hj
    · exact hc.watcher j t' hj ht'

/-- The fire saves. -/
theorem RaceInv.fireSave {k : ℕ} {a : Mission} {t : Task Op Instr Answer Done}
    (hc : RaceInv h m tid outcome L c) (hk : k = 0) (hlt : k < c.tasks.length)
    (ha : FireCopy m tid a) (hL : 0 ∉ L)
    (ht : Spares t.prog) (hm : c'.state.missions = c.state.missions.insert a)
    (hts : c'.tasks = c.tasks.set k t) : RaceInv h m tid outcome (0 :: L) c' := by
  subst hk
  refine ⟨⟨a, ?_, .inr (.inl ⟨rfl, ha⟩)⟩, List.nodup_cons.mpr ⟨hL, hc.nodup⟩, ?_, ?_, ?_, ?_⟩
  · rw [hm, ← ha.1.id, KeyedStore.get?_insert_self]
  · intro j hj
    rw [hts, List.length_set]
    exact (List.mem_cons.mp hj).elim (fun heq => heq ▸ hlt) (hc.started j)
  · intro hp hin
    exact hc.panics hp (List.mem_of_ne_of_mem one_ne_zero hin)
  · refine ⟨t, ?_, .inl ⟨List.mem_cons_self, ht⟩⟩
    rw [hts, List.getElem?_set_self hlt]
  · intro j t' hj ht'
    have hmem : 1 ∈ 0 :: L ↔ 1 ∈ L := by simp
    rw [hts] at ht'
    obtain ⟨rfl, -⟩ | ⟨-, ht'⟩ := System.getElem?_set_cases ht'
    · exact absurd rfl hj
    · rw [hmem]
      exact hc.watcher j t' hj ht'

/-- The outcome processor saves. -/
theorem RaceInv.watcherSave {k : ℕ} {a : Mission} {t : Task Op Instr Answer Done}
    (hc : RaceInv h m tid outcome L c) (hk : k = 1) (hlt : k < c.tasks.length)
    (hp : outcome.panics h.to_lowercase = false)
    (ha : OutcomeCopy h.to_lowercase m tid outcome a) (hL : 1 ∉ L)
    (ht : Spares t.prog) (hm : c'.state.missions = c.state.missions.insert a)
    (hts : c'.tasks = c.tasks.set k t) : RaceInv h m tid outcome (1 :: L) c' := by
  subst hk
  refine ⟨⟨a, ?_, .inr (.inr ⟨rfl, ha⟩)⟩, List.nodup_cons.mpr ⟨hL, hc.nodup⟩, ?_, ?_, ?_, ?_⟩
  · rw [hm, ← ha.1.id, KeyedStore.get?_insert_self]
  · intro j hj
    rw [hts, List.length_set]
    exact (List.mem_cons.mp hj).elim (fun heq => heq ▸ hlt) (hc.started j)
  · intro hp'
    rw [hp] at hp'
    cases hp'
  · obtain ⟨t₀, ht₀, hsaves⟩ := hc.fire
    have hmem : 0 ∈ 1 :: L ↔ 0 ∈ L := by simp
    refine ⟨t₀, ?_, ?_⟩
    · rw [hts, List.getElem?_set_ne one_ne_zero]
      exact ht₀
    · rw [hmem]
      exact hsaves
  · intro j t' hj ht'
    rw [hts] at ht'
    obtain ⟨rfl, rfl⟩ | ⟨hne, ht'⟩ := System.getElem?_set_cases ht'
    · exact ⟨rfl, .inr (.inr ⟨hp, .inl ⟨List.mem_cons_self, ht⟩⟩)⟩
    · exact absurd (hc.watcher j t' hj ht').1 hne

/-- **Every move of the race keeps the invariant.** -/
theorem RaceInv.next {mv : Move Op Outside} (hfresh : tid ∉ m.thread_history)
    (hc : RaceInv h m tid outcome (savers c) c) (hok : Races m tid outcome c mv)
    (hnext : (missionSystem h).next c mv = some c') :
    RaceInv h m tid outcome (savers c') c' := by
  rcases mv with k | op | e
  · obtain ⟨op, i, f, hk, -, rfl⟩ := System.next_step_eq_some.mp hnext
    have hlt := (List.getElem?_eq_some_iff.mp hk).1
    by_cases hk0 : k = 0
    · -- a step of the fire
      obtain ⟨t, ht, hp⟩ := hc.fire
      rw [hk0, ht] at hk
      obtain rfl := Option.some.inj hk
      obtain ⟨hi, hp⟩ | ⟨a, rfl, ha, hL, hf⟩ := hp.step ((missionSystem h).exec i c.state).1
      · rw [savers_of_spares hi]
        exact hc.spare (missions_of_spares hi) rfl (fun _ => hp) fun hne => absurd hk0 hne
      · subst hk0
        exact hc.fireSave rfl hlt ha hL hf rfl rfl
    · -- a step of the outcome processor
      obtain ⟨hk1, hstage⟩ := hc.watcher k _ hk0 hk
      rcases hstage with ⟨⟨t, ht⟩, hL⟩ | ⟨hp, hi, hf⟩ | ⟨hp, hstage⟩
      · obtain ⟨g, hg, hrest⟩ := @processOutcome_eq h m tid outcome t
        obtain ⟨rfl, hf⟩ := Prog.act.inj (ht.trans hg)
        obtain rfl := eq_of_heq hf
        obtain ⟨r, hr, hstored⟩ := hc.stored
        have hloaded : r = m ∨ FireCopy m tid r := by
          rcases hstored with ⟨-, hrm⟩ | ⟨-, hfire⟩ | ⟨hhead, -⟩
          · exact .inl hrm
          · exact .inr hfire
          · exact absurd (List.mem_of_mem_head? hhead) hL
        have hanswer : ((missionSystem h).exec (.loadMission m.id) c.state).1 = some r := hr
        have hsaves := @saves_outcomeRest h m r tid outcome t hfresh hloaded
        rw [savers_of_spares (i := .loadMission m.id) trivial]
        refine hc.spare (missions_of_spares (h := h) (i := .loadMission m.id) trivial) rfl
          (fun h0 => absurd h0 hk0) fun _ => ⟨hk1, .inr ?_⟩
        dsimp only
        rw [hanswer, hrest]
        cases hpanics : outcome.panics h.to_lowercase with
        | true =>
          rw [hpanics, if_pos rfl] at hsaves
          exact .inl ⟨rfl, hsaves⟩
        | false =>
          rw [hpanics] at hsaves
          exact .inr ⟨rfl, .inr ⟨hL, hsaves⟩⟩
      · rw [savers_of_spares hi]
        exact hc.spare (missions_of_spares hi) rfl (fun h0 => absurd h0 hk0)
          fun _ => ⟨hk1, .inr (.inl ⟨hp, hf _ trivial⟩)⟩
      · obtain ⟨hi, hstage⟩ | ⟨a, rfl, ha, hL, hf⟩ :=
          hstage.step ((missionSystem h).exec i c.state).1
        · rw [savers_of_spares hi]
          exact hc.spare (missions_of_spares hi) rfl (fun h0 => absurd h0 hk0)
            fun _ => ⟨hk1, .inr (.inr ⟨hp, hstage⟩)⟩
        · subst hk1
          exact hc.watcherSave rfl hlt hp ha hL hf rfl rfl
  · obtain ⟨s, hs, rfl⟩ := System.next_start_eq_some.mp hnext
    obtain ⟨hone, t, rfl⟩ := hok
    obtain ⟨ws, rfl, -⟩ := start_missionSystem hs
    refine ⟨hc.stored, hc.nodup, fun k hk => ?_, hc.panics, ?_, fun k t' hk ht' => ?_⟩
    · rw [List.length_append]
      exact Nat.lt_add_right _ (hc.started k hk)
    · obtain ⟨t₀, ht₀, hp⟩ := hc.fire
      exact ⟨t₀, (List.getElem?_append_left (by omega)).trans ht₀, hp⟩
    · obtain ht' | ⟨rfl, rfl⟩ := System.getElem?_append_cases ht'
      · have hlt := (List.getElem?_eq_some_iff.mp ht').1
        omega
      · refine ⟨hone, .inl ⟨⟨t, rfl⟩, fun hin => ?_⟩⟩
        have hlt : 1 < c.tasks.length := hc.started 1 hin
        omega
  · obtain ⟨s, hs, rfl⟩ := System.next_env_eq_some.mp hnext
    have hm := (missions_env hs).1
    refine ⟨?_, hc.nodup, hc.started, hc.panics, hc.fire, hc.watcher⟩
    obtain ⟨r, hr, hstored⟩ := hc.stored
    exact ⟨r, by rw [hm]; exact hr, hstored⟩

theorem raceInv_firing {w : World} {user : String} {payload : Option Json}
    (hm : w.missions.get? m.id = some m) :
    RaceInv h m tid outcome [] (firing h w m tid user payload) := by
  refine ⟨⟨m, hm, .inl ⟨rfl, rfl⟩⟩, List.nodup_nil, nofun, fun _ => nofun, ?_, ?_⟩
  · exact ⟨_, rfl, .inr ⟨nofun, Saves.bind saves_recordFire fun _ => trivial⟩⟩
  · intro k t hk ht
    have hlt : k < 1 := (List.getElem?_eq_some_iff.mp ht).1
    omega

/-- An outcome that adds no entry says nothing else either. -/
theorem ThreadOutcome.silent (hs : outcome.approach = none) (to_lowercase : String → String) :
    outcome.focus to_lowercase = none ∧ completesMission to_lowercase outcome = false := by
  rcases outcome with (_ | text) | _ | _ | error | _
  case completed.some => cases hs
  all_goals exact ⟨rfl, rfl⟩

/-- A record without the outcome will do only for an outcome that says nothing. -/
theorem FireCopy.kept_iff (hr : FireCopy m tid r) (hfresh : tid ∉ m.thread_history) :
    OutcomeKept to_lowercase m tid outcome r ↔
      m.threads_today.toNat + 1 < 2 ^ 32 ∧ outcome.approach = none := by
  obtain ⟨hrec, hres⟩ := hr
  have happroach : r.approach_history = m.approach_history := congrArg Prod.fst hres
  constructor
  · intro hkept
    have hlt := r.threads_today.toNat_lt
    rw [hkept.counted] at hlt
    have hentry := happroach.symm.trans hkept.approach
    refine ⟨hlt, ?_⟩
    exact Option.toList_eq_nil_iff.mp (List.self_eq_append_right.mp hentry)
  · rintro ⟨hlt, hs⟩
    obtain ⟨hfocus, hcompletes⟩ := ThreadOutcome.silent hs to_lowercase
    refine ⟨hrec.count hfresh, hrec.counted hlt, ?_, ?_, ?_⟩
    · rw [happroach, hs, Option.toList_none, List.append_nil]
    · intro f hf
      rw [hfocus] at hf
      cases hf
    · intro hc
      rw [hcompletes] at hc
      cases hc

/-- The processor's record has everything, as long as the counter does not overflow. -/
theorem OutcomeCopy.kept_iff (hr : OutcomeCopy to_lowercase m tid outcome r)
    (hfresh : tid ∉ m.thread_history) :
    OutcomeKept to_lowercase m tid outcome r ↔ m.threads_today.toNat + 1 < 2 ^ 32 := by
  obtain ⟨hrec, a, ha, hres⟩ := hr
  obtain ⟨-, happroach, hfocus, hcompleted⟩ := applyOutcome_spec ha
  have hr₁ : r.approach_history = a.approach_history := congrArg Prod.fst hres
  have hr₂ : r.current_focus = a.current_focus := congrArg (fun p => p.2.1) hres
  have hr₃ : r.status = a.status := congrArg (fun p => p.2.2) hres
  constructor
  · intro hkept
    have hlt := r.threads_today.toNat_lt
    rwa [hkept.counted] at hlt
  · intro hlt
    exact ⟨hrec.count hfresh, hrec.counted hlt, hr₁.trans happroach,
      fun f hf => hr₂.trans (hfocus f hf), fun hc => hr₃.trans (hcompleted hc)⟩

/-- **Once both have finished, the outcome is kept exactly when it says nothing, or the
processor does not panic and saves after the fire**, provided the counter does not overflow.
(That the processor has finished too is not needed: before its save it is not the last.) -/
theorem outcome_kept_iff {w : World} {user : String} {payload : Option Json}
    (hm : w.missions.get? m.id = some m) (hfresh : tid ∉ m.thread_history)
    (hrun : (missionSystem h).Reach (Races m tid outcome) (firing h w m tid user payload) c)
    (hfire : Finished c 0) :
    ∃ r, c.state.missions.get? m.id = some r ∧
      (OutcomeKept h.to_lowercase m tid outcome r ↔
        m.threads_today.toNat + 1 < 2 ^ 32 ∧ (outcome.approach = none ∨
          outcome.panics h.to_lowercase = false ∧ (savers c).head? = some 1)) := by
  have hinv : RaceInv h m tid outcome (savers c) c :=
    hrun.induction (J := fun c => RaceInv h m tid outcome (savers c) c) (raceInv_firing hm)
      fun c c' mv hc hok hnext => hc.next hfresh hok hnext
  have hsaved : 0 ∈ savers c := by
    obtain ⟨op, d, h0⟩ := hfire
    obtain ⟨t, ht, hp⟩ := hinv.fire
    obtain rfl := Option.some.inj (ht.symm.trans h0)
    exact hp.elim And.left fun hp => hp.2.elim
  obtain ⟨r, hr, ⟨hnil, -⟩ | ⟨hhead, hcopy⟩ | ⟨hhead, hcopy⟩⟩ := hinv.stored
  · rw [hnil] at hsaved
    cases hsaved
  · refine ⟨r, hr, ?_⟩
    rw [hcopy.kept_iff hfresh, hhead]
    simp
  · refine ⟨r, hr, ?_⟩
    obtain ⟨-, a, ha, -⟩ := id hcopy
    have hpanics : outcome.panics h.to_lowercase = false := by
      by_contra hp
      have hnone := (applyOutcome_eq_none_iff (m := m)).mpr (by simpa using hp)
      rw [hnone] at ha
      cases ha
    rw [hcopy.kept_iff hfresh, hhead]
    simp [hpanics]

end

/-- A mission never fired. -/
def watchMission : Mission := Mission.new ⟨1⟩ 0 ⟨7⟩ "ada" "watch" "watch the log" .manual

/-- Its first fire, the thread just spawned. -/
def watchFired : Conf Op Instr Answer World Done :=
  firing plainHost (World.withMission .manual) watchMission ⟨0⟩ "ada" none

/-- What its thread ends with. -/
def achieved : ThreadOutcome := .completed (some "goal achieved: yes")

/-- The fire to its end, then the outcome. -/
def fireFirst : List (Move Op Outside) :=
  List.replicate 7 (.step 0) ++ .start (.processOutcome ⟨1⟩ ⟨0⟩ achieved 0) ::
    List.replicate 3 (.step 1)

/-- The theorem on a fire that is done before its thread. -/
theorem outcome_kept_fire_first : ∃ c r,
    (missionSystem plainHost).play watchFired fireFirst = some c ∧
      c.state.missions.get? ⟨1⟩ = some r ∧ OutcomeKept id watchMission ⟨0⟩ achieved r := by
  have hallowed : (missionSystem plainHost).Allowed (Races watchMission ⟨0⟩ achieved) watchFired
      fireFirst :=
    ⟨trivial, trivial, trivial, trivial, trivial, trivial, trivial, ⟨rfl, 0, rfl⟩, trivial,
      trivial, trivial, trivial⟩
  obtain ⟨r, hr, hkept⟩ := outcome_kept_iff (h := plainHost) (m := watchMission) rfl
    List.not_mem_nil (System.Reach.init.of_play hallowed rfl) ⟨_, _, rfl⟩
  exact ⟨_, r, rfl, hr, hkept.mpr ⟨by decide, .inr ⟨rfl, rfl⟩⟩⟩

/-- The outcome between the watcher's installation and the fire's save. -/
def outcomeFirst : List (Move Op Outside) :=
  List.replicate 2 (.step 0) ++ .start (.processOutcome ⟨1⟩ ⟨0⟩ achieved 0) ::
    List.replicate 4 (.step 1) ++ List.replicate 5 (.step 0)

/-- **A thread that ends before the fire has saved is lost**: the fire writes its own copy over
the record the processor has completed. -/
theorem fire_overwrites_outcome : ∃ c r,
    (missionSystem plainHost).play watchFired outcomeFirst = some c ∧
      Finished c 0 ∧ Finished c 1 ∧ c.state.missions.get? ⟨1⟩ = some r ∧
      r.approach_history = [] ∧ r.status = .active ∧
      ¬ OutcomeKept id watchMission ⟨0⟩ achieved r := by
  refine ⟨_, _, rfl, ⟨_, _, rfl⟩, ⟨_, _, rfl⟩, rfl, rfl, rfl, fun hkept => ?_⟩
  exact nomatch hkept.approach

end T3Claw
