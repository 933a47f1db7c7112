import T3Claw.Mission.Contract

/-!
# Terminal states

`resume_mission` says that `Completed` and `Failed` "are terminal states and must not be
resurrected by a stray resume call", and takes only `Paused` missions. `pause_mission` has no
such guard: it writes `Paused` over whatever is there. So a terminal mission leaves its state
by one call only, a pause by somebody who manages it (`leaves_terminal_iff`), and from there
a resume does the rest.
-/

namespace T3Claw

/-- The persisted status of the mission is terminal. -/
def TerminalAt (id : MissionId) (w : World) : Prop :=
  ∃ m, w.missions.get? id = some m ∧ m.isTerminal = true

/-- A pause of a terminal mission by a user who manages it. -/
def PausesTerminal (id : MissionId) (w : World) : Call → Prop
  | .op (.pauseMission id' user) =>
    id' = id ∧ ∃ m, w.missions.get? id = some m ∧ m.isTerminal = true ∧
      m.managedBy user = true
  | _ => False

/-- One mission's records are terminal, whoever reads or writes them. -/
def terminalContract (id : MissionId) : Contract where
  copy p := p.id = id → p.status = .completed ∨ p.status = .failed
  status id' status := id' = id → status = .completed ∨ status = .failed
  spawn _ := True
  creates := True
  index := True

variable {h : Host} {w : World} {id : MissionId}

theorem Mission.isTerminal_iff {m : Mission} :
    m.isTerminal = true ↔ m.status = .completed ∨ m.status = .failed := by
  simp [Mission.isTerminal]

/-- The store keeps to the contract when it has the mission in a terminal state. -/
theorem terminalAt_iff : TerminalAt id w ↔
    (terminalContract id).Copies w ∧ (w.missions.get? id).isSome = true := by
  constructor
  · rintro ⟨m, hm, ht⟩
    refine ⟨fun m' hm' hid => ?_, by rw [hm]; rfl⟩
    obtain ⟨hmem, hmid⟩ := KeyedStore.get?_eq_some_iff.mp hm
    obtain rfl := KeyedStore.eq_of_mem hm' hmem (hid.trans hmid.symm)
    exact Mission.isTerminal_iff.mp ht
  · rintro ⟨hc, hs⟩
    obtain ⟨m, hm⟩ := Option.isSome_iff_exists.mp hs
    obtain ⟨hmem, hmid⟩ := KeyedStore.get?_eq_some_iff.mp hm
    exact ⟨m, hm, Mission.isTerminal_iff.mpr (hc m hmem hmid)⟩

/-- A program that keeps to the contract leaves a terminal mission terminal. -/
theorem TerminalAt.run {α : Type} {p : Act α} (hp : (terminalContract id).Obeyed p)
    (hw : TerminalAt id w) : TerminalAt id (p.run (missionMachine h) w).2 := by
  refine (Conc.Prog.run_of_obeys (M := missionMachine h) (I := TerminalAt id) ?_ ?_ hp hw).1
  · intro i w hw hi
    obtain ⟨hc, hs⟩ := terminalAt_iff.mp hw
    refine hc.hears (fun _ p hp hid => ?_) hi
    obtain ⟨m, hm⟩ := Option.isSome_iff_exists.mp hs
    obtain ⟨hmem, hmid⟩ := KeyedStore.get?_eq_some_iff.mp hm
    exact absurd (hp.symm.trans (hid.trans hmid.symm)) (World.freshMissionId_ne hmem)
  · intro i w hw hi
    obtain ⟨hc, hs⟩ := terminalAt_iff.mp hw
    exact terminalAt_iff.mpr ⟨hc.exec (fun p status _ hst => hst) hi, isSome_get?_worldExec hs⟩

/-- Every operation but a pause of the mission keeps to the contract. -/
theorem obeyed_terminal {op : Op} (hop : ∀ user, op ≠ .pauseMission id user) :
    (terminalContract id).Obeyed (op.code h) := by
  cases op with
  | createMission => exact (Contract.obeyed_createMission trivial trivial).asDone
  | updateMission => exact Contract.obeyed_updateMission fun _ _ _ _ hp => hp
  | pauseMission id' user =>
    refine Contract.obeyed_pauseMission trivial fun hid => ?_
    subst hid
    exact absurd rfl (hop user)
  | resumeMission =>
    refine Contract.obeyed_resumeMission trivial fun p hp hpaused hid => ?_
    obtain hs | hs := hp hid
    · exact nomatch hpaused.symm.trans hs
    · exact nomatch hpaused.symm.trans hs
  | completeMission => exact Contract.obeyed_completeMission trivial fun _ => .inl rfl
  | bootstrapProject => exact (Contract.obeyed_bootstrapProject trivial).asDone
  | ensureLearningMissions => exact Contract.obeyed_ensureLearningMissions trivial trivial
  | fireMission => exact (Contract.obeyed_fireMission trivial).asDone
  | tick => exact (Contract.obeyed_tick fun _ _ _ => trivial).asDone
  | fireOnSystemEvent =>
    exact Contract.Obeyed.asDone <| Contract.Obeyed.await trivial fun _ _ =>
      Contract.obeyed_fireOnLoop (fun _ _ _ => trivial)
        (fun _ => Contract.obeyed_of_neutral silent_systemEventMatches.neutral) _
  | fireOnMessageEvent =>
    exact Contract.Obeyed.asDone <| Contract.Obeyed.await trivial fun _ _ =>
      Contract.obeyed_fireOnLoop (fun _ _ _ => trivial)
        (fun _ => Contract.obeyed_of_neutral silent_messageMatches.neutral) _
  | fireOnWebhook =>
    exact Contract.Obeyed.asDone <| Contract.Obeyed.await trivial fun _ _ =>
      Contract.obeyed_fireOnLoop (fun _ _ _ => trivial)
        (fun _ => Contract.obeyed_of_neutral silent_webhookMatches.neutral) _
  | processOutcome =>
    exact (Contract.obeyed_processMissionOutcome fun _ _ _ _ _ => .inl rfl).asDone

/-- What a pause does: nothing for a stranger, else it writes `Paused` and takes the mission
off the index. -/
theorem runOp_pauseMission {user : String} : runOp h (.pauseMission id user) w =
    match w.missions.get? id with
    | some m =>
      if m.managedBy user then
        { w.setStatus id .paused with
          active := w.active.filter (· ≠ id)
          last_fire_attempt := Function.update w.last_fire_attempt id none }
      else w
    | none => w := by
  rw [runOp, Op.code, pauseMission, await_bind, Conc.Prog.run_act, exec_missionMachine,
    worldExec]
  rcases hm : w.missions.get? id with _ | m
  · rfl
  · cases hu : m.managedBy user
    · simp only [hu]
      rfl
    · simp only [hu]
      rfl

/-- **A terminal mission leaves its state exactly by a pause of somebody who manages it.** -/
theorem leaves_terminal_iff {c : Call} (hw : TerminalAt id w) :
    ¬ TerminalAt id (w.call h c) ↔ PausesTerminal id w c := by
  obtain ⟨m, hm, ht⟩ := hw
  constructor
  · intro hleft
    rcases c with op | e
    · by_cases hop : ∃ user, op = .pauseMission id user
      · obtain ⟨user, rfl⟩ := hop
        refine ⟨rfl, m, hm, ht, ?_⟩
        by_contra hu
        refine hleft ?_
        rw [World.call, runOp_pauseMission, hm]
        dsimp only
        rw [if_neg hu]
        exact ⟨m, hm, ht⟩
      · exact absurd (TerminalAt.run (obeyed_terminal fun user hu => hop ⟨user, hu⟩)
          ⟨m, hm, ht⟩) hleft
    · refine absurd ?_ hleft
      rw [World.call]
      rcases he : (missionSystem h).env e w with _ | w'
      · exact ⟨m, hm, ht⟩
      · exact ⟨m, by rw [Option.getD_some, (missions_env he).1]; exact hm, ht⟩
  · intro hp
    rcases c with (_ | _ | ⟨id', user⟩ | _ | _ | _ | _ | _ | _ | _ | _ | _ | _) | e
    case op.pauseMission =>
      obtain ⟨rfl, m', hm', -, hu⟩ := hp
      rintro ⟨m'', hm'', ht''⟩
      rw [World.call, runOp_pauseMission, hm'] at hm''
      dsimp only at hm''
      rw [if_pos hu] at hm''
      rw [World.get?_setStatus, if_pos rfl, hm', Option.map_some] at hm''
      obtain rfl := Option.some.inj hm''
      cases ht''
    all_goals exact hp.elim

/-- **Terminal states are final in every sequence of calls without such a pause.** -/
theorem terminal_final {cs : List Call} (hw : TerminalAt id w)
    (hcs : w.Along h (fun w c => ¬ PausesTerminal id w c) cs) :
    TerminalAt id (w.calls h cs) := by
  refine World.calls_induction (J := TerminalAt id) (fun w c hw hc => ?_) hcs hw
  by_contra hleft
  exact hc ((leaves_terminal_iff hw).mp hleft)

/-- A manual mission is made and completed. -/
def completedCalls : List Call :=
  [.op (.createMission ⟨7⟩ "ada" "watch" "watch the log" .manual []),
    .op (.completeMission ⟨1⟩)]

/-- A host, a mission and a sequence on which the theorem speaks: a fire, an update and a
resume of a completed mission. -/
theorem terminal_final_completed :
    TerminalAt ⟨1⟩ (((World.fresh 0).calls plainHost completedCalls).calls plainHost
      [.op (.fireMission ⟨1⟩ "ada" none), .op (.updateMission ⟨1⟩ "ada" {}),
        .op (.resumeMission ⟨1⟩ "ada")]) :=
  terminal_final ⟨_, rfl, rfl⟩ ⟨id, id, id, trivial⟩

/-- **A pause and a resume bring a completed mission back.** -/
theorem completed_mission_revives :
    TerminalAt ⟨1⟩ ((World.fresh 0).calls plainHost completedCalls) ∧
      ((((World.fresh 0).calls plainHost completedCalls).calls plainHost
        [.op (.pauseMission ⟨1⟩ "ada"), .op (.resumeMission ⟨1⟩ "ada")]).missions.get? ⟨1⟩).map
          Mission.status = some .active :=
  ⟨⟨_, rfl, rfl⟩, rfl⟩

end T3Claw
