import T3Claw.Mission.Terminal

/-!
# The active index over a restart

`tick` and the `fire_on_*` functions look only at the ids in the in-memory index, and of
those go on with the ones whose record is live: active, or completed and event-driven. The
index is right when it lists every live mission (`Indexed`).

Eight operations maintain it. Two of them take live missions out of it: `complete_mission`
drops an event-driven mission that events may still fire, and `bootstrap_project` replaces
the whole index by the active missions of one project. In two more a mission becomes live
without being listed: an outcome may complete an event-driven mission that was paused, and an
update may make a completed mission event-driven. `KeepsIndex` excludes these four cases and
nothing else, and `restart_transparent_iff` says what a restart then finds.
-/

namespace T3Claw

open Conc

def Profile.isLive (p : Profile) : Bool :=
  p.status == .active || (p.status == .completed && p.cadence.isReactive)


namespace World

/-- The profile stored under an id. -/
def profile? (w : World) (id : MissionId) : Option Profile :=
  (w.missions.get? id).map Mission.profile

/-- The mission is stored and live. -/
def HasLive (w : World) (id : MissionId) : Prop :=
  ∃ m, w.missions.get? id = some m ∧ m.isLive = true

/-- The missions an event is tried on: listed in the index and, when loaded, live. -/
def considers (w : World) : List MissionId :=
  w.active.filter fun id => (w.missions.get? id).any Mission.isLive

/-- A manager just made over the same store. -/
def restart (w : World) : World :=
  { w with
    active := []
    last_fire_attempt := fun _ => none
    dedup_table := fun _ => none
    event_regex_cache := fun _ => none
    user_fire_log := fun _ => []
    watchers := [] }

end World

/-- Every live mission is in the index. -/
def Indexed (w : World) : Prop := ∀ id, w.HasLive id → id ∈ w.active

/-- The call neither takes a live mission out of the index nor makes one live outside it. -/
def KeepsIndex (h : Host) (w : World) : Call → Prop
  | .op (.completeMission id) => ∀ m, w.missions.get? id = some m → m.isEventDriven = false
  | .op (.bootstrapProject pid) =>
    ∀ m ∈ w.missions, m.isLive = true → m.status = .active ∧ m.project_id = pid
  | .op (.processOutcome id _ outcome _) =>
    completesMission h.to_lowercase outcome = true → ∀ m, w.missions.get? id = some m →
      m.isEventDriven = true → id ∈ w.active
  | .op (.updateMission id user updates) =>
    ∀ m, w.missions.get? id = some m → m.managedBy user = true → m.status = .completed →
      updates.cadence.any MissionCadence.isReactive = true → id ∈ w.active
  | _ => True

variable {h : Host} {w : World} {id : MissionId}

theorem World.mem_considers : id ∈ w.considers ↔ id ∈ w.active ∧ w.HasLive id := by
  simp [World.considers, World.HasLive, Option.any_eq_true]

theorem World.hasLive_iff : w.HasLive id ↔ ∃ p, w.profile? id = some p ∧ p.isLive = true := by
  constructor
  · rintro ⟨m, hm, hl⟩
    exact ⟨m.profile, Option.map_eq_some_iff.mpr ⟨m, hm, rfl⟩, hl⟩
  · rintro ⟨p, hp, hl⟩
    obtain ⟨m, hm, rfl⟩ := Option.map_eq_some_iff.mp hp
    exact ⟨m, hm, hl⟩

theorem indexed_iff_considers : Indexed w ↔ ∀ id, id ∈ w.considers ↔ w.HasLive id := by
  constructor
  · intro hw id
    rw [World.mem_considers]
    exact ⟨And.right, fun hl => ⟨hw id hl, hl⟩⟩
  · intro hw id hl
    exact (World.mem_considers.mp ((hw id).mpr hl)).1

/-- A listed mission that is not live is passed over by an event, -/
theorem run_fireOnLoop_of_not_mem {fires : Mission → Act Bool} {user : String}
    {payload : Option Json} {rest : List MissionId} (hid : id ∈ w.active)
    (hnot : id ∉ w.considers) :
    (fireOnLoop h fires user payload (id :: rest)).run (missionMachine h) w =
      (fireOnLoop h fires user payload rest).run (missionMachine h) w := by
  have hlive : ¬ w.HasLive id := fun hl => hnot (World.mem_considers.mpr ⟨hid, hl⟩)
  rw [fireOnLoop, run_await_bind, worldExec]
  rcases hm : w.missions.get? id with _ | m
  · rfl
  · have hl : m.isLive = false := by
      by_contra hne
      exact hlive ⟨m, hm, by simpa using hne⟩
    simp only [hl, Bool.not_false, Bool.true_or, if_true]

/-- and by a tick. -/
theorem run_tickLoop_of_not_mem {now : Time} {rest : List MissionId} (hid : id ∈ w.active)
    (hnot : id ∉ w.considers) :
    (tickLoop h now (id :: rest)).run (missionMachine h) w =
      (tickLoop h now rest).run (missionMachine h) w := by
  have hlive : ¬ w.HasLive id := fun hl => hnot (World.mem_considers.mpr ⟨hid, hl⟩)
  rw [tickLoop, run_await_bind, worldExec]
  rcases hm : w.missions.get? id with _ | m
  · rfl
  · have hactive : m.status ≠ .active := fun hs => hlive ⟨m, hm, by simp [Mission.isLive, hs]⟩
    simp only [hactive, decide_false, Bool.false_and, Bool.false_eq_true, if_false]

/-! ### Calls that leave the index alone -/

/-- Every record written is either not live or listed; `K` is what else is known of it. -/
def indexContract (ids : List MissionId) (K : Profile → Prop) : Contract where
  copy p := (p.isLive = true → p.id ∈ ids) ∧ K p
  status _ _ := False
  spawn _ := True
  creates := False
  index := False

theorem Indexed.run {α : Type} {p : Act α} {K : Profile → Prop}
    (hp : (indexContract w.active K).Obeyed p) (hw : Indexed w)
    (hK : ∀ m ∈ w.missions, K m.profile) : Indexed (p.run (missionMachine h) w).2 := by
  have hstart : (indexContract w.active K).Copies w ∧ w.active = w.active :=
    ⟨fun m hm => ⟨fun hl => hw m.id ⟨m, KeyedStore.get?_key hm, hl⟩, hK m hm⟩, rfl⟩
  have hstep : ∀ (i : Instr) (w' : World),
      (indexContract w.active K).Copies w' ∧ w'.active = w.active →
      (indexContract w.active K).Issues i →
      (indexContract w.active K).Copies ((missionMachine h).exec i w').2 ∧
        ((missionMachine h).exec i w').2.active = w.active := by
    intro i w' hw' hi
    refine ⟨hw'.1.exec (fun _ _ _ hst => hst.elim) hi, ?_⟩
    have hindex : i.touchesIndex = false := by
      cases i with
      | setActive | pushActive | pushActiveIfAbsent | retainActiveNe => exact hi.elim
      | _ => rfl
    rw [exec_missionMachine, active_worldExec hindex]
    exact hw'.2
  obtain ⟨⟨hc, ha⟩, -⟩ := Prog.run_of_obeys (M := missionMachine h)
    (I := fun w' => (indexContract w.active K).Copies w' ∧ w'.active = w.active)
    (fun i w' hw' hi => hw'.1.hears (fun hcreates => hcreates.elim) hi) hstep hp hstart
  rintro id ⟨m, hm, hl⟩
  obtain ⟨hmem, rfl⟩ := KeyedStore.get?_eq_some_iff.mp hm
  rw [ha]
  exact (hc m hmem).1 hl

theorem Indexed.run_fire {op : Op} (hw : Indexed w)
    (hop : (indexContract w.active fun _ => True).Obeyed (op.code h)) :
    Indexed (runOp h op w) :=
  hw.run hop fun _ _ => trivial

theorem Indexed.processOutcome {tid : ThreadId} {outcome : ThreadOutcome} {t : Time}
    (hw : Indexed w) (hk : KeepsIndex h w (.op (.processOutcome id tid outcome t))) :
    Indexed (runOp h (.processOutcome id tid outcome t) w) := by
  refine hw.run (K := fun p => completesMission h.to_lowercase outcome = true → p.id = id →
    p.cadence.isReactive = true → p.id ∈ w.active) ?_ fun m hm hcomplete hid hre => ?_
  · refine (Contract.obeyed_processMissionOutcome fun p hcomplete hid hp => ?_).asDone
    refine ⟨fun hl => ?_, hp.2⟩
    exact hp.2 hcomplete hid (by simpa [Profile.isLive] using hl)
  · have hget : w.missions.get? id = some m := KeyedStore.get?_eq_some_iff.mpr ⟨hm, hid⟩
    have hin : id ∈ w.active := hk hcomplete m hget hre
    exact (show m.profile.id = id from hid) ▸ hin

/-- An update by a stranger, or of no mission, does nothing. -/
theorem runOp_updateMission_eq {user : String} {u : MissionUpdate}
    (hu : ∀ m, w.missions.get? id = some m → m.managedBy user = false) :
    runOp h (.updateMission id user u) w = w := by
  rw [runOp, Op.code, updateMission, await_bind, Prog.run_act, exec_missionMachine, worldExec]
  rcases hm : w.missions.get? id with _ | m
  · rfl
  · simp only [hu m hm]
    rfl

theorem Indexed.updateMission {user : String} {u : MissionUpdate} (hw : Indexed w)
    (hk : KeepsIndex h w (.op (.updateMission id user u))) :
    Indexed (runOp h (.updateMission id user u) w) := by
  by_cases hu : ∃ m, w.missions.get? id = some m ∧ m.managedBy user = true
  · obtain ⟨m, hm, hmanaged⟩ := hu
    refine hw.run (K := fun p => p.id = id → p.status = .completed →
      u.cadence.any MissionCadence.isReactive = true → p.id ∈ w.active) ?_
      fun m' hm' hid hcomplete hre => ?_
    · refine Contract.obeyed_updateMission fun p c hc hid hp => ⟨fun hl => ?_, hp.2⟩
      obtain hactive | hdone : p.status = .active ∨ p.status = .completed ∧ c.isReactive := by
        simpa [Profile.isLive] using hl
      · exact hp.1 (by simp [Profile.isLive, hactive])
      · exact hp.2 hid hdone.1 (by simpa [hc] using hdone.2)
    · have hget : w.missions.get? id = some m' :=
        KeyedStore.get?_eq_some_iff.mpr ⟨hm', hid⟩
      obtain rfl := Option.some.inj (hm.symm.trans hget)
      exact (show m.profile.id = id from hid) ▸ hk m hm hmanaged hcomplete hre
  · rw [runOp_updateMission_eq fun m hm => by_contra fun hne => hu ⟨m, hm, by simpa using hne⟩]
    exact hw

/-! ### Calls that maintain the index -/

/-- The index grown, the missions as they are. -/
theorem Indexed.grow {w' : World} (hw : Indexed w) (hm : w'.missions = w.missions)
    (hin : ∀ id ∈ w.active, id ∈ w'.active) : Indexed w' := by
  intro id hl
  rw [World.HasLive, hm] at hl
  exact hin id (hw id hl)

/-- One mission written, and the index grown or cut at this mission only. -/
theorem Indexed.write {w' : World} (hw : Indexed w) (id : MissionId)
    (hothers : ∀ id', id' ≠ id → w'.missions.get? id' = w.missions.get? id' ∧
      (id' ∈ w.active → id' ∈ w'.active)) (hid : w'.HasLive id → id ∈ w'.active) :
    Indexed w' := by
  intro id' hl
  by_cases heq : id' = id
  · subst heq
    exact hid hl
  · obtain ⟨m, hm, hlive⟩ := hl
    obtain ⟨hget, hin⟩ := hothers id' heq
    exact hin (hw id' ⟨m, hget ▸ hm, hlive⟩)

/-- A record saved, and then listed. -/
theorem Indexed.saved {w' : World} {m : Mission} (hw : Indexed w)
    (hm : w'.missions = w.missions.insert m) (hin : ∀ id ∈ w.active, id ∈ w'.active)
    (hlisted : m.id ∈ w'.active) : Indexed w' :=
  hw.write m.id
    (fun id' hne => ⟨by rw [hm, KeyedStore.get?_insert_of_ne hne], hin id'⟩) fun _ => hlisted

/-- A schedule is found without touching anything. -/
theorem run_scheduled (m : Mission) : ∃ r, (scheduled h m).run (missionMachine h) w = (r, w) ∧
    ∀ m', r = .ok m' → m'.id = m.id := by
  rw [scheduled]
  split
  · rw [await_bind, Prog.run_act, exec_missionMachine, worldExec]
    dsimp only
    split
    · exact ⟨_, rfl, fun _ hr => by cases hr⟩
    · refine ⟨_, rfl, ?_⟩
      rintro m' ⟨⟩
      rfl
  · refine ⟨_, rfl, ?_⟩
    rintro m' ⟨⟩
    rfl

theorem run_asDone {α : Type} {p : Act (Except EngineError α)} :
    ((asDone p).run (missionMachine h) w).2 = (p.run (missionMachine h) w).2 := by
  rw [asDone, Prog.run_bind]
  rfl

theorem Indexed.createMission {pid : ProjectId} {user name goal : String}
    {cadence : MissionCadence} {channels : List String} (hw : Indexed w) :
    Indexed (runOp h (.createMission pid user name goal cadence channels) w) := by
  rw [runOp, Op.code, run_asDone, T3Claw.createMission, run_await_bind, run_await_bind,
    Prog.run_bind]
  obtain ⟨r, hrun, -⟩ := run_scheduled (h := h) (w := w)
    (Mission.new w.freshMissionId w.clock pid user name goal cadence)
  simp only [worldExec, hrun]
  rcases r with e | m
  · exact hw
  · exact hw.saved rfl (fun id hid => List.mem_append_left _ hid)
      (List.mem_append_right _ (List.mem_singleton_self m.id))

/-- Listing an id once more takes nothing away. -/
theorem mem_pushActiveIfAbsent (h : Host) {id' : MissionId} :
    id' ∈ (worldExec h (.pushActiveIfAbsent id) w).2.active ↔ id' = id ∨ id' ∈ w.active := by
  rw [worldExec]
  split
  case isTrue hin => exact ⟨.inr, fun hid => hid.elim (fun heq => heq ▸ hin) fun hid => hid⟩
  case isFalse => simp [or_comm]

theorem Indexed.resumeMission {user : String} (hw : Indexed w) :
    Indexed (runOp h (.resumeMission id user) w) := by
  rw [runOp, Op.code, T3Claw.resumeMission, await_bind, Prog.run_act, exec_missionMachine,
    worldExec]
  rcases hm : w.missions.get? id with _ | m
  · exact hw
  dsimp only
  split
  · exact hw
  split
  · exact hw
  rw [Prog.run_bind]
  obtain ⟨r, hrun, hr⟩ := run_scheduled (h := h) (w := w) { m with status := .active }
  rw [hrun]
  rcases r with e | m'
  · exact hw
  have hid : m'.id = id := (hr m' rfl).trans (KeyedStore.get?_eq_some_iff.mp hm).2
  refine hw.saved (m := { m' with updated_at := w.clock }) ?_ (fun id' hin => ?_) ?_
  · exact missions_worldExec (fun _ h => by cases h) fun _ _ h => by cases h
  · exact (mem_pushActiveIfAbsent h).mpr (.inr hin)
  · exact (mem_pushActiveIfAbsent h).mpr (.inl hid)

theorem Indexed.pauseMission {user : String} (hw : Indexed w) :
    Indexed (runOp h (.pauseMission id user) w) := by
  rw [runOp_pauseMission]
  split
  case h_2 => exact hw
  case h_1 m hm =>
  split
  case isFalse => exact hw
  refine hw.write id (fun id' hne => ⟨?_, fun hin => ?_⟩) ?_
  · exact World.get?_setStatus.trans (if_neg hne)
  · exact List.mem_filter.mpr ⟨hin, by simpa using hne⟩
  · rintro ⟨m', hm', hl⟩
    have hget := World.get?_setStatus.symm.trans hm'
    rw [if_pos rfl, hm, Option.map_some] at hget
    obtain rfl := Option.some.inj hget
    cases hl

theorem Indexed.completeMission (hw : Indexed w)
    (hk : KeepsIndex h w (.op (.completeMission id))) :
    Indexed (runOp h (.completeMission id) w) := by
  refine hw.write id (fun id' hne => ⟨?_, fun hin => ?_⟩) ?_
  · exact World.get?_setStatus.trans (if_neg hne)
  · exact List.mem_filter.mpr ⟨hin, by simpa using hne⟩
  · rintro ⟨m', hm', hl⟩
    have hget := World.get?_setStatus.symm.trans hm'
    rw [if_pos rfl] at hget
    obtain ⟨m, hm, rfl⟩ := Option.map_eq_some_iff.mp hget
    have hre : m.isEventDriven = false := hk m hm
    simp [Mission.isLive, Mission.withStatus, Mission.isEventDriven] at hl hre
    rw [hre] at hl
    cases hl

/-- A learning mission that is there is listed, one that is not is made and listed. -/
theorem Indexed.ensureMission {pid : ProjectId} {user : String} {isOne : Mission → Bool}
    {l : LearningMission} (hw : Indexed w) :
    Indexed ((ensureMission h pid user isOne l).run (missionMachine h) w).2 := by
  rw [T3Claw.ensureMission, await_bind, Prog.run_act, exec_missionMachine, worldExec]
  dsimp only
  split
  case h_1 existing _ =>
    refine hw.grow ?_ fun id' hin => ?_
    · exact missions_worldExec (h := h) (i := .pushActiveIfAbsent existing.id)
        (fun _ h => by cases h) fun _ _ h => by cases h
    · exact (mem_pushActiveIfAbsent h).mpr (.inr hin)
  case h_2 =>
    rw [run_await_bind, run_await_bind, Prog.run_bind]
    simp only [worldExec]
    obtain ⟨r, hrun, hr⟩ := run_scheduled (h := h) (w := w)
      { Mission.new w.freshMissionId w.clock pid user l.name (h.learning_goal l.name)
        (.onSystemEvent l.event_source l.event_type []) with
        success_criteria := some l.success_criteria
        metadata := .obj [(l.metadata_key, .bool true)]
        max_threads_per_day := l.max_per_day }
    rw [hrun]
    rcases r with e | m
    · exact hw
    · refine hw.saved (m := m) rfl (fun id' hin => List.mem_append_left _ hin) ?_
      rw [hr m rfl]
      exact List.mem_append_right _ (List.mem_singleton_self w.freshMissionId)

/-- Two programs in turn. -/
theorem Indexed.bind {α β : Type} {p : Act α} {f : α → Act β}
    (hp : Indexed (p.run (missionMachine h) w).2)
    (hf : ∀ r w', Indexed w' → Indexed ((f r).run (missionMachine h) w').2) :
    Indexed ((p >>= f).run (missionMachine h) w).2 := by
  rw [Prog.run_bind]
  exact hf _ _ hp

theorem Indexed.ensureSelfImprovementMission {pid : ProjectId} {user : String}
    (hw : Indexed w) :
    Indexed ((ensureSelfImprovementMission h pid user).run (missionMachine h) w).2 := by
  refine Indexed.bind hw.ensureMission fun r w' hw' => ?_
  rcases r with e | ⟨id, created⟩
  · exact hw'
  dsimp only
  split
  · exact hw'.grow rfl fun _ hin => hin
  · exact hw'

theorem Indexed.ensureAll {pid : ProjectId} {user : String} {ls : List LearningMission}
    (hw : Indexed w) : Indexed ((ensureAll h pid user ls).run (missionMachine h) w).2 := by
  induction ls generalizing w with
  | nil => exact hw
  | cons l ls ih =>
    have hone : Indexed ((ensureMissionByMetadata h pid user l).run (missionMachine h) w).2 := by
      refine Indexed.bind hw.ensureMission fun r w' hw' => ?_
      rcases r with e | ⟨id, created⟩
      · exact hw'
      · exact hw'
    refine Indexed.bind hone fun r w' hw' => ?_
    rcases r with e | id
    · exact hw'
    · exact ih hw'

theorem Indexed.ensureLearningMissions {pid : ProjectId} {user : String} (hw : Indexed w) :
    Indexed (runOp h (.ensureLearningMissions pid user) w) := by
  refine Indexed.bind (hw.grow rfl fun _ hin => hin) fun _ w' hw' =>
    Indexed.bind hw'.ensureSelfImprovementMission fun r w'' hw'' => ?_
  rcases r with e | id
  · exact hw''
  · exact hw''.ensureAll

/-! ### A bootstrap -/

/-- Nothing but the profiles found in the store is written. -/
def frozen (w : World) : Contract where
  copy p := w.profile? p.id = some p
  status _ _ := False
  spawn _ := True
  creates := False
  index := True

theorem profile?_of_copies {w' : World} (hc : (frozen w).Copies w')
    (hs : ∀ id, (w.missions.get? id).isSome = true → (w'.missions.get? id).isSome = true) :
    w'.profile? id = w.profile? id := by
  rcases hm : w'.missions.get? id with _ | m'
  · rcases hg : w.missions.get? id with _ | m
    · rw [World.profile?, World.profile?, hm, hg]
    · have hsome := hs id (by rw [hg]; rfl)
      rw [hm] at hsome
      cases hsome
  · obtain ⟨hmem, rfl⟩ := KeyedStore.get?_eq_some_iff.mp hm
    rw [World.profile?, hm]
    exact (hc m' hmem).symm

/-- **A bootstrap keeps the profiles and makes the index the active missions of its
project.** -/
theorem runOp_bootstrapProject (pid : ProjectId) :
    (∀ id, (runOp h (.bootstrapProject pid) w).profile? id = w.profile? id) ∧
      ∀ id, id ∈ (runOp h (.bootstrapProject pid) w).active ↔
        ∃ p, w.profile? id = some p ∧ p.status = .active ∧ p.project_id = pid := by
  have hstart : (frozen w).Copies w := fun m hm =>
    congrArg (Option.map Mission.profile) (KeyedStore.get?_key hm)
  obtain ⟨⟨hc, hs⟩, hids⟩ := Prog.run_of_obeys (M := missionMachine h)
    (I := fun w' => (frozen w).Copies w' ∧
      ∀ id, (w.missions.get? id).isSome = true → (w'.missions.get? id).isSome = true)
    (fun i w' hw' hi => hw'.1.hears (fun hcreates => hcreates.elim) hi)
    (fun i w' hw' hi => ⟨hw'.1.exec (fun _ _ _ hst => hst.elim) hi,
      fun id hid => isSome_get?_worldExec (hw'.2 id hid)⟩)
    (Contract.obeyed_bootstrapLoop (h := h) (C := frozen w)
      (w.missions.values.filter fun m => m.project_id = pid)) (s := w)
    ⟨hstart, fun _ hid => hid⟩
  have hrun : runOp h (.bootstrapProject pid) w =
      { ((bootstrapLoop h (w.missions.values.filter fun m => m.project_id = pid)).run
          (missionMachine h) w).2 with
        active := ((bootstrapLoop h (w.missions.values.filter fun m => m.project_id = pid)).run
          (missionMachine h) w).1 } := by
    rw [runOp, Op.code, run_asDone, T3Claw.bootstrapProject, run_await_bind, Prog.run_bind]
    rfl
  rw [hrun]
  refine ⟨fun id => profile?_of_copies hc hs, fun id => ?_⟩
  rw [hids]
  constructor
  · intro hin
    obtain ⟨m, hm, rfl⟩ := List.mem_map.mp hin
    obtain ⟨hproject, hactive⟩ := List.mem_filter.mp hm
    obtain ⟨hmem, hpid⟩ := List.mem_filter.mp hproject
    exact ⟨m.profile, hstart m hmem, of_decide_eq_true hactive, of_decide_eq_true hpid⟩
  · rintro ⟨p, hp, hactive, hpid⟩
    obtain ⟨m, hm, rfl⟩ := Option.map_eq_some_iff.mp hp
    obtain ⟨hmem, rfl⟩ := KeyedStore.get?_eq_some_iff.mp hm
    refine List.mem_map.mpr ⟨m, List.mem_filter.mpr ⟨List.mem_filter.mpr ⟨hmem, ?_⟩, ?_⟩, rfl⟩
    · exact decide_eq_true hpid
    · exact decide_eq_true hactive

theorem Indexed.bootstrapProject {pid : ProjectId}
    (hk : KeepsIndex h w (.op (.bootstrapProject pid))) :
    Indexed (runOp h (.bootstrapProject pid) w) := by
  obtain ⟨hprofile, hactive⟩ := runOp_bootstrapProject (h := h) (w := w) pid
  intro id hl
  obtain ⟨p, hp, hlive⟩ := World.hasLive_iff.mp hl
  rw [hprofile] at hp
  obtain ⟨m, hm, rfl⟩ := Option.map_eq_some_iff.mp hp
  obtain ⟨hstatus, hpid⟩ := hk m (KeyedStore.mem_of_get? hm) hlive
  exact (hactive id).mpr ⟨m.profile, hp, hstatus, hpid⟩

/-! ### Whole sequences -/

/-- **A call that meets `KeepsIndex` keeps the index right.** -/
theorem Indexed.call {c : Call} (hw : Indexed w) (hk : KeepsIndex h w c) :
    Indexed (w.call h c) := by
  rcases c with op | e
  · cases op with
    | createMission => exact hw.createMission
    | updateMission => exact hw.updateMission hk
    | pauseMission => exact hw.pauseMission
    | resumeMission => exact hw.resumeMission
    | completeMission => exact hw.completeMission hk
    | bootstrapProject => exact Indexed.bootstrapProject hk
    | ensureLearningMissions => exact hw.ensureLearningMissions
    | processOutcome => exact hw.processOutcome hk
    | fireMission => exact hw.run_fire (Contract.obeyed_fireMission trivial).asDone
    | tick => exact hw.run_fire (Contract.obeyed_tick fun _ _ _ => trivial).asDone
    | fireOnSystemEvent =>
      exact hw.run_fire <| Contract.Obeyed.asDone <| Contract.Obeyed.await trivial fun _ _ =>
        Contract.obeyed_fireOnLoop (fun _ _ _ => trivial)
          (fun _ => Contract.obeyed_of_neutral silent_systemEventMatches.neutral) _
    | fireOnMessageEvent =>
      exact hw.run_fire <| Contract.Obeyed.asDone <| Contract.Obeyed.await trivial fun _ _ =>
        Contract.obeyed_fireOnLoop (fun _ _ _ => trivial)
          (fun _ => Contract.obeyed_of_neutral silent_messageMatches.neutral) _
    | fireOnWebhook =>
      exact hw.run_fire <| Contract.Obeyed.asDone <| Contract.Obeyed.await trivial fun _ _ =>
        Contract.obeyed_fireOnLoop (fun _ _ _ => trivial)
          (fun _ => Contract.obeyed_of_neutral silent_webhookMatches.neutral) _
  · rw [World.call]
    rcases he : (missionSystem h).env e w with _ | w'
    · exact hw
    · obtain ⟨hmissions, hactive⟩ := missions_env he
      exact hw.grow hmissions fun _ hin => hactive ▸ hin

/-- The bootstraps after a restart. -/
def bootstraps (pids : List ProjectId) : List Call :=
  pids.map fun pid => .op (.bootstrapProject pid)

/-- After bootstraps the profiles are as before, and the index is the last project's. -/
theorem calls_bootstraps (pids : List ProjectId) (hempty : w.active = []) :
    (∀ id, (w.calls h (bootstraps pids)).profile? id = w.profile? id) ∧
      ∀ id, id ∈ (w.calls h (bootstraps pids)).active ↔ ∃ p, w.profile? id = some p ∧
        p.status = .active ∧ pids.getLast? = some p.project_id := by
  induction pids using List.reverseRecOn with
  | nil => exact ⟨fun _ => rfl, fun id => by simp [bootstraps, World.calls, hempty]⟩
  | append_singleton pids pid ih =>
    obtain ⟨hprofile, -⟩ := ih
    have hcalls : w.calls h (bootstraps (pids ++ [pid])) =
        runOp h (.bootstrapProject pid) (w.calls h (bootstraps pids)) := by
      rw [World.calls, bootstraps, List.map_append, List.foldl_append]
      rfl
    obtain ⟨hkeep, hactive⟩ :=
      runOp_bootstrapProject (h := h) (w := w.calls h (bootstraps pids)) pid
    rw [hcalls]
    refine ⟨fun id => (hkeep id).trans (hprofile id), fun id => ?_⟩
    rw [hactive, hprofile, List.getLast?_concat]
    simp only [Option.some.injEq, eq_comm (a := pid)]

/-- **Before a restart the index shows exactly the live missions, and after it exactly when
each live mission is active and of the project bootstrapped last.** -/
theorem restart_transparent_iff {cs : List Call} {pids : List ProjectId} (hw : Indexed w)
    (hcs : w.Along h (KeepsIndex h) cs) :
    (∀ id, id ∈ (w.calls h cs).considers ↔ (w.calls h cs).HasLive id) ∧
      ((∀ id, id ∈ ((w.calls h cs).restart.calls h (bootstraps pids)).considers ↔
          (w.calls h cs).HasLive id) ↔
        ∀ m ∈ (w.calls h cs).missions, m.isLive = true →
          m.status = .active ∧ pids.getLast? = some m.project_id) := by
  have hbefore : Indexed (w.calls h cs) :=
    World.calls_induction (J := Indexed) (fun w c hw hc => hw.call hc) hcs hw
  refine ⟨indexed_iff_considers.mp hbefore, ?_⟩
  obtain ⟨hprofile, hactive⟩ :=
    calls_bootstraps (h := h) (w := (w.calls h cs).restart) pids rfl
  have hlive : ∀ id, ((w.calls h cs).restart.calls h (bootstraps pids)).HasLive id ↔
      (w.calls h cs).HasLive id := by
    intro id
    rw [World.hasLive_iff, hprofile, World.hasLive_iff]
    exact Iff.rfl
  constructor
  · intro hsame m hm hl
    have hget : (w.calls h cs).missions.get? m.id = some m := KeyedStore.get?_key hm
    have hin := (World.mem_considers.mp ((hsame m.id).mpr ⟨m, hget, hl⟩)).1
    obtain ⟨p, hp, hstatus, hpid⟩ := (hactive m.id).mp hin
    obtain rfl : m.profile = p :=
      Option.some.inj ((congrArg (Option.map Mission.profile) hget).symm.trans hp)
    exact ⟨hstatus, hpid⟩
  · intro hall id
    rw [World.mem_considers, hlive]
    refine ⟨And.right, fun hl => ⟨?_, hl⟩⟩
    obtain ⟨m, hm, hl⟩ := hl
    obtain ⟨hstatus, hpid⟩ := hall m (KeyedStore.mem_of_get? hm) hl
    exact (hactive id).mpr
      ⟨m.profile, congrArg (Option.map Mission.profile) hm, hstatus, hpid⟩

/-- Two missions of one project, the second paused. -/
def pausedSecond : List Call :=
  [.op (.createMission ⟨7⟩ "ada" "watch" "watch the log" .manual []),
    .op (.createMission ⟨7⟩ "ada" "sweep" "sweep the log" .manual []),
    .op (.pauseMission ⟨2⟩ "ada")]

/-- The theorem on one project: the mission that is not paused is found again. -/
theorem restart_transparent_one_project :
    ⟨1⟩ ∈ (((World.fresh 0).calls plainHost pausedSecond).restart.calls plainHost
        (bootstraps [⟨7⟩])).considers ∧
      ⟨2⟩ ∉ (((World.fresh 0).calls plainHost pausedSecond).restart.calls plainHost
        (bootstraps [⟨7⟩])).considers := by
  have hfresh : Indexed (World.fresh 0) := by
    rintro id ⟨m, hm, -⟩
    cases hm
  have hcs : (World.fresh 0).Along plainHost (KeepsIndex plainHost) pausedSecond :=
    ⟨trivial, trivial, trivial, trivial⟩
  have hiff := @restart_transparent_iff plainHost (World.fresh 0) pausedSecond [⟨7⟩] hfresh hcs
  have hsame := hiff.2.mpr fun m hm hl => by
    rcases List.mem_cons.mp hm with rfl | hm
    · exact ⟨rfl, rfl⟩
    · obtain rfl := List.mem_singleton.mp hm
      cases hl
  rw [hsame, hsame]
  refine ⟨⟨_, rfl, rfl⟩, ?_⟩
  rintro ⟨m, hm, hl⟩
  obtain rfl := Option.some.inj hm
  cases hl

/-- One mission in each of two projects. -/
def twoProjects : List Call :=
  [.op (.createMission ⟨7⟩ "ada" "watch" "watch the log" .manual []),
    .op (.createMission ⟨8⟩ "ada" "sweep" "sweep the log" .manual [])]

/-- An event-driven mission, completed. -/
def completedEvent : List Call :=
  [.op (.createMission ⟨7⟩ "ada" "watch" "watch the log" (.onSystemEvent "log" "rotated" []) []),
    .op (.completeMission ⟨1⟩)]

/-- **With two projects the first one's missions are gone after a restart**, and a completed
event-driven mission is gone as soon as `complete_mission` returns. -/
theorem restart_loses_missions :
    ((World.fresh 0).calls plainHost twoProjects).considers = [⟨1⟩, ⟨2⟩] ∧
      ((World.fresh 0).calls plainHost twoProjects).HasLive ⟨1⟩ ∧
      (((World.fresh 0).calls plainHost twoProjects).restart.calls plainHost
        (bootstraps [⟨7⟩, ⟨8⟩])).considers = [⟨2⟩] ∧
      ((World.fresh 0).calls plainHost completedEvent).HasLive ⟨1⟩ ∧
      ((World.fresh 0).calls plainHost completedEvent).considers = [] :=
  ⟨rfl, ⟨_, rfl, rfl⟩, rfl, ⟨_, rfl, rfl⟩, rfl⟩

end T3Claw
