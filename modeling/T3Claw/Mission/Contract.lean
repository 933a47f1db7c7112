import T3Claw.Mission.Neutral

/-!
# What the operations do with the records they read

Every operation but the status writes goes *load, change, save*, and most of them change
nothing of a record's profile — id, project, status and cadence. A `Contract` says so without
a word about the store: as long as the records read have profiles `copy` allows, so have the
records written. The lemmas below give, for each operation, what it needs of a contract to
obey it, one operation at a time and whatever else is running.

A contract that says `copy p := p.id = id → p.status ≠ active` speaks of one mission's
status; one that fixes the profile of every id speaks of them all.
-/

namespace T3Claw

open Conc

/-- The part of a record that decides whether and by what the mission is fired. -/
structure Profile where
  id : MissionId
  project_id : ProjectId
  status : MissionStatus
  cadence : MissionCadence

def Mission.profile (m : Mission) : Profile := ⟨m.id, m.project_id, m.status, m.cadence⟩

/-- What a program may do: the profiles it may write (provided those it reads are such), the
status writes, the spawns, and whether it may make missions and touch the index. -/
structure Contract where
  copy : Profile → Prop
  status : MissionId → MissionStatus → Prop
  spawn : MissionId → Prop
  creates : Prop
  index : Prop

namespace Contract

/-- The answers a contract counts on: those of a store whose records have such profiles. -/
def Hears (copy : Profile → Prop) : (i : Instr) → Answer i → Prop
  | .loadMission id, r => ∀ m : Mission, r = some m → m.id = id ∧ copy m.profile
  | .listMissions .., r => ∀ m ∈ r, copy m.profile
  | .listAllMissions _, r => ∀ m ∈ r, copy m.profile
  | .newMissionId, r => ∀ p : Profile, p.id = r → copy p
  | _, _ => True

/-- The instructions the contract allows. -/
def Issues (C : Contract) : Instr → Prop
  | .saveMission m => C.copy m.profile
  | .updateMissionStatus id status => C.status id status
  | .newMissionId => C.creates
  | .spawnThread m _ _ => C.spawn m.id
  | .setActive _ | .pushActive _ | .pushActiveIfAbsent _ | .retainActiveNe _ => C.index
  | _ => True

/-- The program keeps to the contract, and its result meets `Q`. -/
abbrev Obeyed (C : Contract) {α : Type} (p : Act α) (Q : α → Prop := fun _ => True) : Prop :=
  p.Obeys (Hears C.copy) C.Issues Q

variable {C : Contract} {α β : Type} {Q : α → Prop}

/-- An instruction no contract restricts. -/
theorem Obeyed.await {i : Instr} {f : Answer i → Act α} (hi : C.Issues i)
    (hf : ∀ r, Hears C.copy i r → C.Obeyed (f r) Q) : C.Obeyed (await i >>= f) Q := ⟨hi, hf⟩

theorem issues_of_neutral {i : Instr} (hi : i.isNeutral) : C.Issues i := by
  cases i with
  | saveMission | updateMissionStatus | newMissionId | setActive | pushActive
  | pushActiveIfAbsent | retainActiveNe | spawnThread => exact hi.elim
  | _ => trivial

/-- A neutral program keeps to every contract. -/
theorem obeyed_of_neutral {p : Act α} (hp : Neutral p Q) : C.Obeyed p Q :=
  hp.weaken (fun _ _ _ => trivial) fun _ hi => issues_of_neutral hi

theorem Obeyed.asDone {p : Act (Except EngineError α)} (hp : C.Obeyed p) :
    C.Obeyed (asDone p) :=
  Prog.Obeys.bind hp fun _ _ => trivial

/-! ### Contracts and the store -/

/-- The profiles of all stored missions are such that a copy may have them. -/
def Copies (C : Contract) (w : World) : Prop := ∀ m ∈ w.missions, C.copy m.profile

/-- What the store answers is what the contract counts on. -/
theorem Copies.hears {h : Host} {w : World} (hw : C.Copies w)
    (hnew : C.creates → ∀ p : Profile, p.id = w.freshMissionId → C.copy p) {i : Instr}
    (hi : C.Issues i) : Hears C.copy i (worldExec h i w).1 := by
  cases i with
  | loadMission id =>
    intro m hm
    obtain ⟨hmem, hid⟩ := KeyedStore.get?_eq_some_iff.mp hm
    exact ⟨hid, hw m hmem⟩
  | listMissions pid user => exact fun m hm => hw m (List.mem_filter.mp hm).1
  | listAllMissions pid => exact fun m hm => hw m (List.mem_filter.mp hm).1
  | newMissionId => exact hnew hi
  | _ => trivial

/-- What the contract allows keeps the store such. -/
theorem Copies.exec {h : Host} {w : World} (hw : C.Copies w)
    (hstatus : ∀ p status, C.copy p → C.status p.id status →
      C.copy { p with status := status }) {i : Instr} (hi : C.Issues i) :
    C.Copies (worldExec h i w).2 := by
  by_cases hsave : ∃ m, i = .saveMission m
  · obtain ⟨m, rfl⟩ := hsave
    intro m' hm'
    rcases KeyedStore.mem_insert.mp hm' with rfl | ⟨hm', -⟩
    · exact hi
    · exact hw m' hm'
  by_cases hset : ∃ id s, i = .updateMissionStatus id s
  · obtain ⟨id, s, rfl⟩ := hset
    intro m' hm'
    obtain ⟨m, hm, rfl⟩ := World.mem_setStatus.mp hm'
    split
    case isTrue hid =>
      obtain rfl := hid
      exact hstatus m.profile s (hw m hm) hi
    case isFalse => exact hw m hm
  · intro m hm
    rw [missions_worldExec (fun m hi => hsave ⟨m, hi⟩)
      fun id s hi => hset ⟨id, s, hi⟩] at hm
    exact hw m hm

/-! ### Firing -/

section Fire

variable {h : Host} {m : Mission}

/-- **A fire writes back the profile it read**, and spawns for its own mission. -/
theorem obeyed_fireMission {id : MissionId} (hs : C.spawn id) {user : String}
    {payload : Option Json} : C.Obeyed (fireMission h id user payload) := by
  have hprofile : ∀ m m' : Mission, m.FiredFrom m' → m'.profile = m.profile := by
    rintro m _ ⟨_, _, _, _, _, _, rfl⟩
    rfl
  refine FireRules.fireMission (P := fun m => m.id = id ∧ C.copy m.profile) ⟨fun _ hi =>
    issues_of_neutral hi.isNeutral, fun _ _ => ⟨trivial, trivial⟩, fun m hm => hm m rfl,
    fun m m' hm hm' => ?_, fun m hm => hm.2, fun m _ _ hm => ?_, fun _ _ _ _ => trivial,
    fun _ _ _ => trivial⟩
  · have hsame := hprofile m m' hm'
    have hid : m'.id = m.id := congrArg Profile.id hsame
    exact ⟨hid.trans hm.1, hsame ▸ hm.2⟩
  · have hspawn : C.spawn m.id := hm.1 ▸ hs
    exact hspawn

/-- **A tick spawns only for missions it read as active.** -/
theorem obeyed_tick (hs : ∀ p, C.copy p → p.status = .active → C.spawn p.id) :
    C.Obeyed (tick h) := by
  have hloop : ∀ now ids, C.Obeyed (tickLoop h now ids) := by
    intro now ids
    induction ids with
    | nil => trivial
    | cons mid rest ih =>
      refine Obeyed.await trivial fun r hr => ?_
      rcases r with _ | m
      · exact ih
      obtain ⟨hid, hm⟩ := hr m rfl
      dsimp only
      split
      case isTrue hdue =>
        have hactive : m.status = .active := by
          rw [Bool.and_eq_true, decide_eq_true_eq] at hdue
          exact hdue.1
        refine Obeyed.await trivial fun attempt _ => ?_
        split
        · exact ih
        · have hspawn : C.spawn mid := hid ▸ hs m.profile hm hactive
          refine Prog.Obeys.bind (obeyed_fireMission hspawn) fun fired _ => ?_
          split
          · exact Prog.Obeys.bind ih fun _ _ => trivial
          · exact ih
      case isFalse => exact ih
  exact Obeyed.await trivial fun ids _ => Obeyed.await trivial fun now _ =>
    Obeyed.await trivial fun _ _ => Prog.Obeys.bind (hloop now ids) fun _ _ => trivial

/-- An event fires only missions it read as live. -/
theorem obeyed_fireOnLoop (hs : ∀ m : Mission, C.copy m.profile → m.isLive = true →
      C.spawn m.id) {fires : Mission → Act Bool} (hf : ∀ m, C.Obeyed (fires m)) {user : String}
    {payload : Option Json} (ids : List MissionId) :
    C.Obeyed (fireOnLoop h fires user payload ids) := by
  induction ids with
  | nil => trivial
  | cons mid rest ih =>
    refine Obeyed.await trivial fun r hr => ?_
    rcases r with _ | m
    · exact ih
    obtain ⟨rfl, hm⟩ := hr m rfl
    dsimp only
    split
    · exact ih
    case isFalse hskip =>
    have hlive : m.isLive = true := by
      rw [Bool.or_eq_true, not_or] at hskip
      simpa using hskip.1
    refine Prog.Obeys.bind (hf m) fun hit _ => ?_
    split
    · exact ih
    refine Prog.Obeys.bind (obeyed_of_neutral neutral_dedupEvent) fun seen _ => ?_
    split
    · exact ih
    refine Prog.Obeys.bind (obeyed_fireMission (hs m hm hlive)) fun fired _ => ?_
    split
    · trivial
    refine Prog.Obeys.bind ih fun spawned _ => ?_
    split <;> trivial

end Fire

/-! ### The life of a mission -/

section Lifecycle

variable {h : Host}

theorem obeyed_scheduled {m : Mission} : C.Obeyed (scheduled h m) fun r =>
    ∀ m', r = .ok m' → m'.profile = m.profile := by
  refine (obeyed_of_neutral neutral_scheduled).mono fun r hr m' hm' => ?_
  obtain ⟨next, rfl⟩ := hr m' hm'
  rfl

/-- An update keeps the status: it may change the cadence and no more of the profile. -/
theorem obeyed_updateMission {id : MissionId} {user : String} {u : MissionUpdate}
    (hc : ∀ p c, u.cadence = some c → p.id = id → C.copy p → C.copy { p with cadence := c }) :
    C.Obeyed (updateMission h id user u) := by
  refine Obeyed.await trivial fun r hr => ?_
  rcases r with _ | m
  · trivial
  obtain ⟨rfl, hm⟩ := hr m rfl
  dsimp only
  split
  · trivial
  have hre : C.Obeyed (rescheduled h u.cadence (u.apply m)) fun r =>
      ∀ m', r = .ok m' → C.copy m'.profile := by
    refine (obeyed_of_neutral neutral_rescheduled).mono fun r hr m' hm' => ?_
    obtain ⟨next, rfl⟩ := hr m' hm'
    rcases hcadence : u.cadence with _ | cadence
    · exact hm
    · exact hc _ _ hcadence rfl hm
  refine Prog.Obeys.bind hre fun r hr => ?_
  rcases r with e | m'
  · trivial
  · exact Obeyed.await trivial fun _ _ => Obeyed.await (hr m' rfl) fun _ _ =>
      Obeyed.await trivial fun _ _ => trivial

/-- A pause writes its status without a look at the old one. -/
theorem obeyed_pauseMission (hx : C.index) {id : MissionId} (hs : C.status id .paused)
    {user : String} : C.Obeyed (pauseMission id user) := by
  refine Obeyed.await trivial fun r _ => ?_
  rcases r with _ | m
  · trivial
  dsimp only
  split
  · trivial
  · exact Obeyed.await hs fun _ _ => Obeyed.await hx fun _ _ =>
      Obeyed.await trivial fun _ _ => trivial

/-- A resume only ever takes a paused copy to an active one. -/
theorem obeyed_resumeMission (hx : C.index)
    (hr : ∀ p, C.copy p → p.status = .paused → C.copy { p with status := .active })
    {id : MissionId} {user : String} : C.Obeyed (resumeMission h id user) := by
  refine Obeyed.await trivial fun r hload => ?_
  rcases r with _ | m
  · trivial
  obtain ⟨rfl, hm⟩ := hload m rfl
  dsimp only
  split
  · trivial
  split
  · trivial
  case isFalse hpaused =>
  refine Prog.Obeys.bind obeyed_scheduled fun r hsched => ?_
  rcases r with e | m'
  · trivial
  have hsave : C.copy m'.profile := by
    rw [hsched m' rfl]
    exact hr _ hm (not_not.mp hpaused)
  exact Obeyed.await trivial fun _ _ => Obeyed.await hsave fun _ _ =>
    Obeyed.await hx fun _ _ => trivial

theorem obeyed_completeMission (hx : C.index) {id : MissionId} (hs : C.status id .completed) :
    C.Obeyed (completeMission id) :=
  Obeyed.await hs fun _ _ => Obeyed.await hx fun _ _ => Obeyed.await trivial fun _ _ =>
    Obeyed.await trivial fun _ _ => trivial

/-- The backfill writes back the record it loads just before. -/
theorem obeyed_backfill {m : Mission} : C.Obeyed (backfill h m) := by
  rw [backfill]
  split
  case h_2 => trivial
  refine Obeyed.await trivial fun now _ => ?_
  split
  case h_2 => trivial
  refine Obeyed.await trivial fun r hr => ?_
  rcases r with _ | fresh
  · trivial
  dsimp only
  split
  · exact Obeyed.await (hr fresh rfl).2 fun _ _ => trivial
  · trivial

/-- The ids of a bootstrap are those of the missions that were active in the listing. -/
theorem obeyed_bootstrapLoop (missions : List Mission) :
    C.Obeyed (bootstrapLoop h missions) fun ids =>
      ids = (missions.filter fun m => m.status = .active).map Mission.id := by
  induction missions with
  | nil => exact rfl
  | cons m missions ih =>
    rw [bootstrapLoop]
    split
    case isTrue hactive =>
      refine Prog.Obeys.bind obeyed_backfill fun _ _ => Prog.Obeys.bind ih fun ids hids => ?_
      rw [List.filter_cons_of_pos (by simpa using hactive), List.map_cons, ← hids]
      exact rfl
    case isFalse hactive =>
      rw [List.filter_cons_of_neg (by simpa using hactive)]
      exact ih

theorem obeyed_bootstrapProject (hx : C.index) {pid : ProjectId} :
    C.Obeyed (bootstrapProject h pid) :=
  Obeyed.await trivial fun _ _ => Prog.Obeys.bind (obeyed_bootstrapLoop _) fun _ _ =>
    Obeyed.await hx fun _ _ => trivial

theorem obeyed_createMission (hc : C.creates) (hx : C.index) {pid : ProjectId}
    {user name goal : String} {cadence : MissionCadence} {channels : List String} :
    C.Obeyed (createMission h pid user name goal cadence channels) := by
  refine Obeyed.await hc fun id hid => Obeyed.await trivial fun now _ =>
    Prog.Obeys.bind obeyed_scheduled fun r hr => ?_
  rcases r with e | m
  · trivial
  have hsave : C.copy m.profile := hid _ (congrArg Profile.id (hr m rfl))
  exact Obeyed.await hsave fun _ _ => Obeyed.await hx fun _ _ => trivial

theorem obeyed_ensureMission (hc : C.creates) (hx : C.index) {pid : ProjectId}
    {user : String} {isOne : Mission → Bool} {l : LearningMission} :
    C.Obeyed (ensureMission h pid user isOne l) := by
  refine Obeyed.await trivial fun missions _ => ?_
  split
  · exact Obeyed.await hx fun _ _ => trivial
  refine Obeyed.await hc fun id hid => Obeyed.await trivial fun now _ =>
    Prog.Obeys.bind obeyed_scheduled fun r hr => ?_
  rcases r with e | m
  · trivial
  have hsave : C.copy m.profile := hid _ (congrArg Profile.id (hr m rfl))
  exact Obeyed.await hsave fun _ _ => Obeyed.await hx fun _ _ => trivial

theorem obeyed_ensureLearningMissions (hc : C.creates) (hx : C.index) {pid : ProjectId}
    {user : String} : C.Obeyed (ensureLearningMissions h pid user) := by
  have hself : C.Obeyed (ensureSelfImprovementMission h pid user) := by
    refine Prog.Obeys.bind (obeyed_ensureMission hc hx) fun r _ => ?_
    rcases r with e | ⟨id, created⟩
    · trivial
    dsimp only
    split
    · exact Obeyed.await trivial fun _ _ => trivial
    · trivial
  have hall : ∀ ls, C.Obeyed (ensureAll h pid user ls) := by
    intro ls
    induction ls with
    | nil => trivial
    | cons l ls ih =>
      have hone : C.Obeyed (ensureMissionByMetadata h pid user l) := by
        refine Prog.Obeys.bind (obeyed_ensureMission hc hx) fun r _ => ?_
        rcases r with e | ⟨id, created⟩ <;> trivial
      refine Prog.Obeys.bind hone fun r _ => ?_
      rcases r with e | id
      · trivial
      · exact ih
  refine Obeyed.await trivial fun _ _ => Prog.Obeys.bind hself fun r _ => ?_
  rcases r with e | id
  · trivial
  · exact hall _

/-! ### Outcomes -/

theorem obeyed_reconcile {m : Mission} {tid : ThreadId} {t : Time} :
    C.Obeyed (reconcile h m tid t) fun m' => m'.profile = m.profile := by
  refine (obeyed_of_neutral silent_reconcile.neutral).mono fun a ha => ?_
  obtain ⟨-, rfl⟩ | ⟨-, now, next, rfl⟩ := ha
  · rfl
  · rfl

/-- What an outcome does to a profile: nothing, or it completes the mission. -/
theorem profile_applyOutcome {lowercase : String → String} {outcome : ThreadOutcome}
    {m m' : Mission} (hm : applyOutcome lowercase outcome m = some m') :
    m'.profile = if completesMission lowercase outcome then
      { m.profile with status := .completed } else m.profile := by
  rw [applyOutcome.eq_def] at hm
  split at hm
  · dsimp only at hm
    split at hm
    · cases hm
    · obtain rfl := Option.some.inj hm
      rw [Mission.profile, completesMission]
      dsimp only
      split <;> rfl
  all_goals
    obtain rfl := Option.some.inj hm
    rfl

/-- **An outcome writes back the profile it read, or that profile completed.** -/
theorem obeyed_processMissionOutcome {id : MissionId} {tid : ThreadId}
    {outcome : ThreadOutcome} {t : Time}
    (hc : ∀ p, completesMission h.to_lowercase outcome = true → p.id = id → C.copy p →
      C.copy { p with status := .completed }) :
    C.Obeyed (processMissionOutcome h id tid outcome t) := by
  refine Obeyed.await trivial fun r hr => ?_
  rcases r with _ | m
  · trivial
  obtain ⟨hid, hm⟩ := hr m rfl
  refine Prog.Obeys.bind obeyed_reconcile fun m₁ h₁ => ?_
  split
  · trivial
  case h_2 m₂ h₂ =>
  have hsave : C.copy m₂.profile := by
    rw [profile_applyOutcome h₂, h₁]
    split
    case isTrue hcomplete => exact hc _ hcomplete hid hm
    case isFalse => exact hm
  exact Prog.Obeys.bind (obeyed_of_neutral silent_processOutputs.neutral) fun _ _ =>
    Prog.Obeys.bind (obeyed_of_neutral silent_notifyOutcome.neutral) fun _ _ =>
      Obeyed.await trivial fun _ _ => Obeyed.await hsave fun _ _ => trivial

end Lifecycle

end Contract

end T3Claw
