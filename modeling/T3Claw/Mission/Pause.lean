import T3Claw.Mission.Contract

/-!
# Pausing while others are at work

`pause_mission` promises that "no new threads will be spawned". Its status write is one store
call, but every other operation on the mission loads the whole record, works, and saves the
whole record, with nothing to tell that the record has changed meanwhile; and a tick that has
seen the mission active fires it later without looking at the status again.

`CanRevive` says which tasks those are at a given moment: some answers in which the mission
is never read as active lead the task to write an active record, or, in a tick, to spawn.
`pause_durable` is the theorem over all interleavings: if no other task can revive the
mission at the moment a pause writes its status, the mission is never active again and no
tick spawns for it. The proof is that no operation *started* afterwards can revive it
(`not_canRevive_code`), and that a task which cannot stays so.
-/

namespace T3Claw

open Conc

/-- The operations that may interleave. -/
def Op.Interleaves : Op → Prop
  | .pauseMission .. | .fireMission .. | .tick | .updateMission .. | .bootstrapProject _
  | .processOutcome .. => True
  | _ => False

/-- The answers of a store that has no active record of the mission. -/
def NotReadActive (id : MissionId) : (i : Instr) → Answer i → Prop
  | .loadMission id', r =>
    ∀ m : Mission, r = some m → m.id = id' ∧ (m.id = id → m.status ≠ .active)
  | .listMissions .., r => ∀ m ∈ r, m.id = id → m.status ≠ .active
  | .listAllMissions _, r => ∀ m ∈ r, m.id = id → m.status ≠ .active
  | .newMissionId, r => r ≠ id
  | _, _ => True

/-- Writing an active record of the mission, or spawning for it from a tick. -/
def Revives (id : MissionId) (op : Op) : Instr → Prop
  | .saveMission m => m.id = id ∧ m.status = .active
  | .spawnThread m _ _ => op = .tick ∧ m.id = id
  | _ => False

/-- The task can still revive the mission without reading it as active again. -/
def CanRevive (id : MissionId) (t : Task Op Instr Answer Done) : Prop :=
  t.prog.MayIssue (NotReadActive id) (Revives id t.op)

/-- The status write of a pause. -/
def PauseWrite (id : MissionId) (c : Conf Op Instr Answer World Done) (k : ℕ) : Prop :=
  ∃ op f, c.tasks[k]? = some ⟨op, .act (.updateMissionStatus id .paused) f⟩

/-- The moves of the interleavings: only those operations start, and when a pause writes its
status no other task can revive the mission. -/
def PausesAlone (id : MissionId) (c : Conf Op Instr Answer World Done) :
    Move Op Outside → Prop
  | .start op => op.Interleaves
  | .step k => PauseWrite id c k → ∀ j t, j ≠ k → c.tasks[j]? = some t → ¬ CanRevive id t
  | .env _ => True

/-- A pause of the mission has returned `Ok`. -/
def PauseReturned (id : MissionId) (c : Conf Op Instr Answer World Done) : Prop :=
  ∃ (k : ℕ) (user : String), c.tasks[k]? = some ⟨.pauseMission id user, .done (.ok ())⟩

/-- The mission is not active, and no tick is about to spawn for it. -/
def StaysPaused (id : MissionId) (c : Conf Op Instr Answer World Done) : Prop :=
  (∀ m, c.state.missions.get? id = some m → m.status ≠ .active) ∧
    ∀ (k : ℕ) (m : Mission) prompt user f,
      c.tasks[k]? = some ⟨.tick, .act (.spawnThread m prompt user) f⟩ → m.id ≠ id

/-! ### Two contracts -/

/-- What an interleaving operation does at any time: only a pause writes a status, nobody
makes missions. -/
def interleavingContract (op : Op) : Contract where
  copy _ := True
  status id status := status = .paused ∧ ∃ user, op = .pauseMission id user
  spawn _ := True
  creates := False
  index := True

/-- What it does while the mission is not read as active. -/
def pausedContract (id : MissionId) (op : Op) : Contract where
  copy p := p.id = id → p.status ≠ .active
  status id' status := id' = id → status ≠ .active
  spawn id' := op = .tick → id' ≠ id
  creates := False
  index := True

variable {h : Host} {id : MissionId} {op : Op}

theorem obeyed_interleaving (hop : op.Interleaves) :
    (interleavingContract op).Obeyed (op.code h) := by
  cases op with
  | pauseMission id user =>
    exact Contract.obeyed_pauseMission (C := interleavingContract _) trivial ⟨rfl, user, rfl⟩
  | fireMission => exact (Contract.obeyed_fireMission trivial).asDone
  | tick => exact (Contract.obeyed_tick fun _ _ _ => trivial).asDone
  | updateMission => exact Contract.obeyed_updateMission fun _ _ _ _ _ => trivial
  | bootstrapProject => exact (Contract.obeyed_bootstrapProject trivial).asDone
  | processOutcome => exact (Contract.obeyed_processMissionOutcome fun _ _ _ _ => trivial).asDone
  | _ => exact hop.elim

/-- **An operation that starts while the mission is not active leaves it so.** -/
theorem obeyed_paused (hop : op.Interleaves) : (pausedContract id op).Obeyed (op.code h) := by
  cases op with
  | pauseMission id' user =>
    exact Contract.obeyed_pauseMission trivial fun _ hpaused => nomatch hpaused
  | fireMission => exact (Contract.obeyed_fireMission fun htick => nomatch htick).asDone
  | tick =>
    refine (Contract.obeyed_tick (C := pausedContract id .tick) ?_).asDone
    exact fun p hp hactive _ hid => hp hid hactive
  | updateMission => exact Contract.obeyed_updateMission fun _ _ _ _ hp => hp
  | bootstrapProject => exact (Contract.obeyed_bootstrapProject trivial).asDone
  | processOutcome =>
    refine (Contract.obeyed_processMissionOutcome ?_).asDone
    exact fun _ _ _ _ _ hactive => nomatch hactive
  | _ => exact hop.elim

theorem hears_paused_iff {i : Instr} {r : Answer i} :
    Contract.Hears (pausedContract id op).copy i r ↔ NotReadActive id i r := by
  cases i with
  | newMissionId =>
    constructor
    · rintro hr rfl
      exact hr ⟨r, ⟨0⟩, .active, .manual⟩ rfl rfl rfl
    · rintro hr p rfl hid
      exact absurd hid hr
  | _ => exact Iff.rfl

theorem hears_true_of_notReadActive {i : Instr} {r : Answer i} (hr : NotReadActive id i r) :
    Contract.Hears (fun _ => True) i r := by
  cases i with
  | loadMission id' => exact fun m hm => ⟨(hr m hm).1, trivial⟩
  | listMissions | listAllMissions => exact fun _ _ => trivial
  | newMissionId => exact fun _ _ => trivial
  | _ => trivial

/-- What an interleaving operation may do and does not revive the mission is what it may do
while the mission is paused. -/
theorem issues_paused_iff {i : Instr} (hi : (interleavingContract op).Issues i) :
    (pausedContract id op).Issues i ↔ ¬ Revives id op i := by
  cases i with
  | saveMission m => exact not_and.symm
  | updateMissionStatus id' status =>
    obtain ⟨rfl, -⟩ := hi
    exact ⟨fun _ hf => hf, fun _ _ hactive => nomatch hactive⟩
  | spawnThread m prompt user => exact not_and.symm
  | newMissionId => exact hi.elim
  | _ => exact ⟨fun _ hf => hf, fun _ => trivial⟩

/-- A task that cannot revive the mission keeps to the paused contract. -/
theorem obeyed_of_not_canRevive {t : Task Op Instr Answer Done}
    (hinter : (interleavingContract t.op).Obeyed t.prog) (ht : ¬ CanRevive id t) :
    (pausedContract id t.op).Obeyed t.prog := by
  have hnot : t.prog.Obeys (NotReadActive id) (fun i => ¬ Revives id t.op i) fun _ => True := by
    rw [Prog.obeys_iff_not_mayIssue]
    simp only [not_not]
    exact ht
  have hinter' : t.prog.Obeys (NotReadActive id) (interleavingContract t.op).Issues
      fun _ => True :=
    hinter.weaken (fun _ _ hr => hears_true_of_notReadActive hr) fun _ hi => hi
  refine ((hnot.and hinter').weaken (fun _ _ hr => hears_paused_iff.mp hr) fun i hi => ?_).mono
    fun _ _ => trivial
  exact (issues_paused_iff hi.2).mpr hi.1

/-- **An operation that just starts cannot revive the mission.** -/
theorem not_canRevive_code (hop : op.Interleaves) : ¬ CanRevive id ⟨op, op.code h⟩ := by
  have hinter : (op.code h).Obeys (NotReadActive id) (interleavingContract op).Issues
      fun _ => True := (obeyed_interleaving hop).weaken
    (fun i r hr => hears_true_of_notReadActive hr) fun _ hi => hi
  have hpaused : (op.code h).Obeys (NotReadActive id) (pausedContract id op).Issues
      fun _ => True := (obeyed_paused hop).weaken
    (fun _ _ hr => hears_paused_iff.mpr hr) fun _ hi => hi
  have hboth := (hpaused.and hinter).weaken (H := fun i => ¬ Revives id op i)
    (fun _ _ hr => hr) fun i hi => (issues_paused_iff hi.2).mp hi.1
  have hnot := Prog.obeys_iff_not_mayIssue.mp (hboth.mono fun _ _ => trivial)
  simp only [not_not] at hnot
  exact hnot

/-! ### The run -/

/-- The status write has happened. -/
def PauseWritten (id : MissionId) (c : Conf Op Instr Answer World Done) : Prop :=
  ∃ k, (k, Instr.updateMissionStatus id .paused) ∈ c.log

/-- What is left of a pause after its status write. -/
def pauseRest (id : MissionId) : Act Done := do
  await (.retainActiveNe id)
  await (.removeFireAttempt id)
  pure (.ok ())

/-- A pause loads, and then it fails or writes. -/
theorem pauseMission_eq (id : MissionId) (user : String) : ∃ f,
    pauseMission id user = Prog.act (.loadMission id) f ∧ ∀ r, (∃ e, f r = .done (.error e)) ∨
      f r = Prog.act (.updateMissionStatus id .paused) fun _ => pauseRest id := by
  refine ⟨_, rfl, fun r => ?_⟩
  rcases r with _ | m
  · exact .inl ⟨_, rfl⟩
  · cases hu : m.managedBy user
    · exact .inl ⟨missionDenied id user, by simp [Prog.bind, hu]⟩
    · refine .inr ?_
      simp only [Prog.bind, hu, Bool.not_true, Bool.false_eq_true, if_false]
      rfl

/-- A pause that has neither written nor failed is about to load or about to write. -/
def PausePhases (id : MissionId) (c : Conf Op Instr Answer World Done) : Prop :=
  ∀ (k : ℕ) (user : String) (p : Act Done), c.tasks[k]? = some ⟨.pauseMission id user, p⟩ →
    p = pauseMission id user ∨
      (p = Prog.act (.updateMissionStatus id .paused) fun _ => pauseRest id) ∨
      PauseWritten id c ∨ ∃ e, p = .done (.error e)

/-- What holds in every interleaving, and what the status write adds. -/
structure PauseInv (id : MissionId) (c : Conf Op Instr Answer World Done) : Prop where
  tasks : System.Quiet (Contract.Hears fun _ => True)
    (fun op => (interleavingContract op).Issues) (fun _ => True) c
  phases : PausePhases id c
  quiet : PauseWritten id c → System.Quiet (NotReadActive id)
    (fun op => (pausedContract id op).Issues) (pausedContract id .tick).Copies c

theorem PausePhases.next {c c' : Conf Op Instr Answer World Done} {m : Move Op Outside}
    (hp : PausePhases id c) (hnext : (missionSystem h).next c m = some c') :
    PausePhases id c' := by
  rcases m with k | op | e
  · obtain ⟨op, i, f, hk, -, rfl⟩ := System.next_step_eq_some.mp hnext
    intro j user p hj
    have hwritten : PauseWritten id c → PauseWritten id
        ⟨c.toMemory.after (missionSystem h).toMachine k i,
          c.tasks.set k ⟨op, f ((missionSystem h).exec i c.state).1⟩⟩ :=
      fun ⟨k', hmem⟩ => ⟨k', List.mem_cons_of_mem _ hmem⟩
    obtain ⟨rfl, hjp⟩ | ⟨-, hj⟩ := System.getElem?_set_cases hj
    · obtain ⟨rfl, rfl⟩ := Task.mk.inj hjp
      rcases hp j user _ hk with hcode | hwrite | hw | ⟨e, he⟩
      · obtain ⟨g, hg, hloaded⟩ := pauseMission_eq id user
        obtain ⟨rfl, hf⟩ := Prog.act.inj (hcode.trans hg)
        obtain rfl := eq_of_heq hf
        obtain hfail | hwrite := hloaded ((missionSystem h).exec (.loadMission id) c.state).1
        · exact .inr (.inr (.inr hfail))
        · exact .inr (.inl hwrite)
      · obtain ⟨rfl, -⟩ := Prog.act.inj hwrite
        exact .inr (.inr (.inl ⟨j, List.mem_cons_self⟩))
      · exact .inr (.inr (.inl (hwritten hw)))
      · cases he
    · rcases hp j user p hj with hcode | hwrite | hw | he
      · exact .inl hcode
      · exact .inr (.inl hwrite)
      · exact .inr (.inr (.inl (hwritten hw)))
      · exact .inr (.inr (.inr he))
  · obtain ⟨s, hs, rfl⟩ := System.next_start_eq_some.mp hnext
    intro j user p hj
    obtain hj | ⟨-, hjp⟩ := System.getElem?_append_cases hj
    · exact hp j user p hj
    · obtain ⟨rfl, rfl⟩ := Task.mk.inj hjp
      exact .inl rfl
  · obtain ⟨s, hs, rfl⟩ := System.next_env_eq_some.mp hnext
    exact hp

/-- The status write makes everything quiet when no other task can revive the mission. -/
theorem PauseInv.quiet_of_write {c : Conf Op Instr Answer World Done} {k : ℕ}
    {f : Unit → Act Done} (hc : PauseInv id c) (hwas : ¬ PauseWritten id c)
    (hk : c.tasks[k]? = some ⟨op, .act (.updateMissionStatus id .paused) f⟩)
    (hothers : ∀ j t, j ≠ k → c.tasks[j]? = some t → ¬ CanRevive id t) :
    System.Quiet (NotReadActive id) (fun op => (pausedContract id op).Issues)
      (pausedContract id .tick).Copies
      ⟨c.toMemory.after (missionSystem h).toMachine k (.updateMissionStatus id .paused),
        c.tasks.set k ⟨op, f ()⟩⟩ := by
  obtain ⟨⟨-, user, rfl⟩, -⟩ := hc.tasks.tasks _ (List.mem_of_getElem? hk)
  have hf : f = fun _ => pauseRest id := by
    obtain ⟨g, hg, -⟩ := pauseMission_eq id user
    rcases hc.phases k user _ hk with hcode | hwrite | hw | ⟨e, he⟩
    · exact nomatch hcode.trans hg
    · exact eq_of_heq (Prog.act.inj hwrite).2
    · exact absurd hw hwas
    · cases he
  subst hf
  refine ⟨fun m' hm' hid => ?_, fun t ht => ?_⟩
  · obtain ⟨m, hm, rfl⟩ := World.mem_setStatus.mp hm'
    split
    case isTrue => exact fun hactive => nomatch hactive
    case isFalse hne =>
      rw [if_neg hne] at hid
      exact absurd hid hne
  · obtain ⟨j, hj⟩ := List.mem_iff_getElem?.mp ht
    obtain ⟨-, rfl⟩ | ⟨hjk, hj⟩ := System.getElem?_set_cases hj
    · exact ⟨trivial, fun _ _ => ⟨trivial, fun _ _ => trivial⟩⟩
    · refine (obeyed_of_not_canRevive (hc.tasks.tasks t (List.mem_of_getElem? hj))
        (hothers j t hjk hj)).weaken (fun _ _ hr => hears_paused_iff.mpr hr) fun _ hi => hi

theorem PauseInv.next {c c' : Conf Op Instr Answer World Done} {m : Move Op Outside}
    (hc : PauseInv id c) (hok : PausesAlone id c m)
    (hnext : (missionSystem h).next c m = some c') : PauseInv id c' := by
  have hinter : ∀ op, m = .start op → op.Interleaves := by
    rintro op rfl
    exact hok
  refine ⟨?_, hc.phases.next hnext, fun hw => ?_⟩
  · refine System.Quiet.next (S := missionSystem h) (fun op i w _ hi => ?_)
      (fun _ _ _ _ _ => trivial) (fun _ _ _ _ _ => trivial) (fun _ _ _ _ _ => trivial)
      (fun op hm => obeyed_interleaving (hinter op hm)) hc.tasks hnext
    exact Contract.Copies.hears (C := interleavingContract op) (fun _ _ => trivial)
      (fun hcreates => hcreates.elim) hi
  · by_cases hwas : PauseWritten id c
    · refine System.Quiet.next (S := missionSystem h) (fun op i w hw hi => ?_)
        (fun op i w hw hi => ?_) (fun e w w' hw he => ?_) (fun op w w' hw hs => ?_)
        (fun op hm => ?_) (hc.quiet hwas) hnext
      · exact hears_paused_iff.mp (Contract.Copies.hears (C := pausedContract id op) hw
          (fun hcreates => hcreates.elim) hi)
      · exact Contract.Copies.exec (C := pausedContract id op) hw
          (fun _ _ _ hst hid => hst hid) hi
      · intro m' hm'
        rw [(missions_env he).1] at hm'
        exact hw m' hm'
      · obtain ⟨ws, rfl, -⟩ := start_missionSystem hs
        exact hw
      · exact (obeyed_paused (hinter op hm)).weaken (fun _ _ hr => hears_paused_iff.mpr hr)
          fun _ hi => hi
    · -- the move is the status write itself
      rcases m with k | op | e
      · obtain ⟨op, i, f, hk, -, rfl⟩ := System.next_step_eq_some.mp hnext
        obtain ⟨k', hmem⟩ := hw
        rcases List.mem_cons.mp hmem with heq | hmem
        · obtain rfl : Instr.updateMissionStatus id .paused = i := (Prod.mk.inj heq).2
          exact hc.quiet_of_write hwas hk (hok ⟨op, f, hk⟩)
        · exact absurd ⟨k', hmem⟩ hwas
      · obtain ⟨s, hs, rfl⟩ := System.next_start_eq_some.mp hnext
        exact absurd hw hwas
      · obtain ⟨s, hs, rfl⟩ := System.next_env_eq_some.mp hnext
        exact absurd hw hwas

/-- **A successful pause is durable** in every interleaving in which no other task can revive
the mission when the pause writes its status. -/
theorem pause_durable {w : World} {c : Conf Op Instr Answer World Done}
    (hrun : (missionSystem h).Reach (PausesAlone id) (Conf.idle w) c)
    (hpaused : PauseReturned id c) : StaysPaused id c := by
  have hinv : PauseInv id c := by
    refine hrun.induction (J := PauseInv id) ⟨⟨trivial, ?_⟩, ?_, ?_⟩
      fun c c' m hc hok hnext => hc.next hok hnext
    · exact fun t ht => nomatch ht
    · intro k user p hk
      cases hk
    · rintro ⟨k, hk⟩
      cases hk
  obtain ⟨k, user, hk⟩ := hpaused
  have hwritten : PauseWritten id c := by
    obtain ⟨g, hg, -⟩ := pauseMission_eq id user
    rcases hinv.phases k user _ hk with hcode | hwrite | hw | ⟨e, he⟩
    · exact nomatch hcode.trans hg
    · cases hwrite
    · exact hw
    · exact nomatch Prog.done.inj he
  have hquiet := hinv.quiet hwritten
  refine ⟨fun m hm => ?_, fun j m prompt user' f hj => ?_⟩
  · obtain ⟨hmem, hid⟩ := KeyedStore.get?_eq_some_iff.mp hm
    exact hquiet.inv m hmem hid
  · exact (hquiet.tasks _ (List.mem_of_getElem? hj)).1 rfl

/-- A pause whose write comes between the start of a fire and its loading of the mission. -/
theorem pause_durable_fire : ∃ c,
    (missionSystem plainHost).play (Conf.idle (World.withMission .manual))
      [.start (.fireMission ⟨1⟩ "ada" none), .start (.pauseMission ⟨1⟩ "ada"), .step 1, .step 1,
        .step 0, .step 1, .step 1] = some c ∧ StaysPaused ⟨1⟩ c := by
  let fire : Op := .fireMission ⟨1⟩ "ada" none
  have hfire : ∀ c : Conf Op Instr Answer World Done, c.tasks.length = 2 →
      c.tasks[0]? = some ⟨fire, fire.code plainHost⟩ → PausesAlone ⟨1⟩ c (.step 1) := by
    intro c hlen hzero _ j t hj ht
    have hlt := (List.getElem?_eq_some_iff.mp ht).1
    obtain rfl : j = 0 := by omega
    obtain rfl := Option.some.inj (hzero.symm.trans ht)
    exact not_canRevive_code (show fire.Interleaves from trivial)
  refine ⟨_, rfl, pause_durable (h := plainHost) (w := World.withMission .manual) ?_
    ⟨1, "ada", rfl⟩⟩
  have hstart : (missionSystem plainHost).Reach (PausesAlone ⟨1⟩)
    (Conf.idle (World.withMission .manual)) _ := .init
  have hallowed : ∀ (c : Conf Op Instr Answer World Done) op, op.Interleaves →
      PausesAlone ⟨1⟩ c (.start op) := fun _ _ hop => hop
  have hstarted := (hstart.move (hallowed _ fire trivial) rfl).move
    (hallowed _ (.pauseMission ⟨1⟩ "ada") trivial) rfl
  have hwritten := (hstarted.move (hfire _ rfl rfl) rfl).move (hfire _ rfl rfl) rfl
  -- no later step is a write of a pause
  have hread := hwritten.move (m := .step 0) (by rintro ⟨op, f, hk⟩; cases hk) rfl
  have hrest := hread.move (m := .step 1) (by rintro ⟨op, f, hk⟩; cases hk) rfl
  exact hrest.move (m := .step 1) (by rintro ⟨op, f, hk⟩; cases hk) rfl

/-- **A fire that loaded the mission before the pause makes it active again after it.** The
pause (task 1) runs from its start to its `Ok` while the fire (task 0) is at work. -/
theorem stale_fire_undoes_pause : ∃ c₁ c₂,
    (missionSystem plainHost).play (Conf.idle (World.withMission .manual))
      [.start (.fireMission ⟨1⟩ "ada" none), .step 0, .start (.pauseMission ⟨1⟩ "ada"),
        .step 1, .step 1, .step 1, .step 1] = some c₁ ∧
      PauseReturned ⟨1⟩ c₁ ∧ (c₁.state.missions.get? ⟨1⟩).map Mission.status = some .paused ∧
    (missionSystem plainHost).play c₁ (List.replicate 10 (.step 0)) = some c₂ ∧
      (c₂.state.missions.get? ⟨1⟩).map Mission.status = some .active :=
  ⟨_, _, rfl, ⟨1, "ada", rfl⟩, rfl, rfl, rfl⟩

end T3Claw
