import T3Claw.Conc.Interference
import T3Claw.Data.Cooldown
import T3Claw.Mission.Neutral

/-!
# The ticker and its cooldown

`tick` fires a cron mission whose `next_fire_at` has come. A fire moves `next_fire_at` on, but
its save may fail, and so may `next_cron_fire`; `last_fire_attempt` is there to keep the
ticker from firing again for the same time. Outcome reconciliation writes the instant of a
fire whose save failed, and tries to move `next_fire_at` on.

The ticks, the fires and the reconciliations of one mission come one after another here, each
under a host of its own, so that `next_cron_fire` may fail in one and not in the next. Any
save may fail, and between any two instructions the rest of the system goes on, leaving alone
the record, the attempt and the watchers of the mission (`World.LeavesAlone`).

What each operation does to the mission is a step of `Cooldown` (`World.cooldown`).
-/

namespace T3Claw

open Conc

/-- A fire by the ticker: the `next_fire_at` it saw and the instant of the fire. -/
structure TickFire where
  mission_id : MissionId
  saw : Option Time
  fired_at : Time
  deriving DecidableEq

/-- The fire instant, which the outcome watcher is given. -/
def fireInstant : (i : Instr) → Answer i → List Time
  | .spawnOutcomeWatcher _ _ original_fire_at, _ => [original_fire_at]
  | _, _ => []

section

variable (h : Host)

/-- `tickLoop`, with its fires. -/
def tickFiresLoop (now : Time) : List MissionId → Act (List ThreadId × List TickFire)
  | [] => pure ([], [])
  | mid :: rest => do
    match ← await (.loadMission mid) with
    | none => tickFiresLoop now rest
    | some mission =>
      if mission.status = .active && cronDue mission now then do
        let attempt ← await (.fireAttempt mid)
        if attempt.any fun last =>
            now - last < FIRE_COOLDOWN && mission.last_fire_at ≠ some last then
          tickFiresLoop now rest
        else do
          let fired ← (fireMission h mid mission.user_id none).noting fireInstant
          let later ← tickFiresLoop now rest
          let fires := fired.2.map fun t => ⟨mid, mission.next_fire_at, t⟩
          match fired.1 with
          | .ok (some tid) => pure (tid :: later.1, fires ++ later.2)
          | _ => pure (later.1, fires ++ later.2)
      else tickFiresLoop now rest

/-- `tick`, with its fires. -/
def tickFires : Act (Except EngineError (List ThreadId) × List TickFire) := do
  let active_ids ← await .readActive
  let now ← await .now
  await (.pruneFireAttempts now FIRE_COOLDOWN)
  let spawned ← tickFiresLoop h now active_ids
  pure (.ok spawned.1, spawned.2)

theorem tickFiresLoop_fst (now : Time) (ids : List MissionId) :
    (tickFiresLoop h now ids >>= fun r => pure r.1) = tickLoop h now ids := by
  induction ids with
  | nil => rfl
  | cons mid rest ih =>
    rw [tickFiresLoop, tickLoop, Prog.bind_bind]
    refine congrArg _ (funext fun r => ?_)
    rcases r with _ | mission
    · exact ih
    dsimp only
    by_cases hdue : (mission.status = .active && cronDue mission now) = true
    case neg => rw [if_neg hdue, if_neg hdue, ih]
    rw [if_pos hdue, if_pos hdue, Prog.bind_bind]
    refine congrArg _ (funext fun attempt => ?_)
    by_cases hcool : (attempt.any fun last =>
        now - last < FIRE_COOLDOWN && mission.last_fire_at ≠ some last) = true
    · rw [if_pos hcool, if_pos hcool, ih]
    rw [if_neg hcool, if_neg hcool, Prog.bind_bind]
    conv_rhs => rw [← Prog.noting_fst fireInstant (fireMission h mid mission.user_id none),
      Prog.bind_bind]
    refine congrArg _ (funext fun fired => ?_)
    rw [Prog.done_bind, Prog.bind_bind, ← ih]
    rcases fired with ⟨e | _ | tid, notes⟩
    · rfl
    · rfl
    · dsimp only
      rw [Prog.bind_bind]
      rfl

/-- Leaving the fires out gives the code back. -/
theorem tickFires_fst : (tickFires h >>= fun r => pure r.1) = tick h := by
  rw [tickFires, tick, Prog.bind_bind]
  refine congrArg _ (funext fun active_ids => ?_)
  rw [Prog.bind_bind]
  refine congrArg _ (funext fun now => ?_)
  rw [Prog.bind_bind]
  refine congrArg _ (funext fun _ => ?_)
  rw [Prog.bind_bind, ← tickFiresLoop_fst, Prog.bind_bind]
  rfl

end

/-! ### One mission among everything else -/

/-- Others go on, and leave the mission alone. -/
structure World.LeavesAlone (id : MissionId) (w w' : World) : Prop where
  clock : w.clock ≤ w'.clock
  mission : w'.missions.get? id = w.missions.get? id
  attempt : w'.last_fire_attempt id = w.last_fire_attempt id
  watchers : ∀ x ∈ w'.watchers, x.mission_id = id → x ∈ w.watchers

/-- An instruction, after what others did. A save may fail. -/
def missionStep (h : Host) (id : MissionId) (i : Instr) (w : World) (r : Answer i)
    (w'' : World) : Prop :=
  ∃ w', w.LeavesAlone id w' ∧
    (r = (worldExec h i w').1 ∧ w'' = (worldExec h i w').2 ∨
      (∃ m, i = .saveMission m) ∧ w'' = w')

/-- `Schedule::upcoming` gives instants that are still to come. -/
def Host.CronAhead (h : Host) : Prop :=
  ∀ expression timezone now next,
    nextCronFire h.cron expression timezone now = .ok (some next) → now < next

/-- What is done with the mission. -/
inductive MissionOp where
  | tick
  | fire (user_id : String) (trigger_payload : Option Json)
  | outcome (thread_id : ThreadId) (result : ThreadOutcome) (original_fire_at : Time)

/-- An operation comes to its end, with the fires of the mission by the ticker. -/
def MissionOp.Ends (h : Host) (id : MissionId) :
    MissionOp → World → List TickFire → World → Prop
  | .tick, w, fires, w' => ∃ r all, (tickFires h).Ends (missionStep h id) w (r, all) w' ∧
      fires = all.filter fun f => f.mission_id = id
  | .fire user_id trigger_payload, w, fires, w' => fires = [] ∧
      ∃ r, (fireMission h id user_id trigger_payload).Ends (missionStep h id) w r w'
  | .outcome thread_id result original_fire_at, w, fires, w' => fires = [] ∧
      ⟨id, thread_id, original_fire_at⟩ ∈ w.watchers ∧
      ∃ r, (processMissionOutcome h id thread_id result original_fire_at).Ends
        (missionStep h id) w r w'

/-- An outcome that brings the record of the latest fire, whose `next_fire_at` has come, is
given another by `next_cron_fire`. -/
def MissionOp.Reschedules (h : Host) (id : MissionId) : MissionOp → World → World → Prop
  | .outcome thread_id _ original_fire_at, w, w' =>
    w.last_fire_attempt id = some original_fire_at →
      ∀ m, w.missions.get? id = some m → thread_id ∉ m.thread_history →
        ∀ expression timezone, m.cadence = .cron expression timezone →
          ∀ next now, m.next_fire_at = some next → next ≤ now → w.clock ≤ now →
            now ≤ w'.clock →
              ∃ later, nextCronFire h.cron expression timezone now = .ok (some later)
  | _, _, _ => True

/-- Operations on the mission one after another, each with a host of its own, and the fires by
the ticker. -/
inductive MissionRun (id : MissionId)
    (ok : Host → MissionOp → World → World → Prop) (w : World) : List TickFire → World → Prop
  | start : MissionRun id ok w [] w
  | op {fires new : List TickFire} {w₁ w₂ w₃ : World} {h : Host} {op : MissionOp}
      (hrun : MissionRun id ok w fires w₁) (hmeanwhile : w₁.LeavesAlone id w₂)
      (hcron : h.CronAhead) (hends : op.Ends h id w₂ new w₃) (hok : ok h op w₂ w₃) :
    MissionRun id ok w (fires ++ new) w₃

/-- Fires less than `FIRE_COOLDOWN` apart saw different times. -/
def SawDifferent (fires : List TickFire) : Prop :=
  fires.Pairwise fun f g => g.fired_at - f.fired_at < FIRE_COOLDOWN → f.saw ≠ g.saw

/-- When the ticker finds the mission due. -/
def Mission.due (m : Mission) : Option Time :=
  match m.cadence with
  | .cron .. => m.next_fire_at
  | _ => none

/-- What the cooldown of a mission depends on. -/
def World.cooldown (w : World) (id : MissionId) : Cooldown.State where
  clock := w.clock
  attempt := w.last_fire_attempt id
  last := (w.missions.get? id).bind Mission.last_fire_at
  next := (w.missions.get? id).bind Mission.due
  pending t := ∃ thread_id, ⟨id, thread_id, t⟩ ∈ w.watchers

/-! ### What leaves the mission alone -/

section

variable {h : Host} {id : MissionId} {w w' w'' : World} {m : Mission} {α : Type} {Q : α → Prop}

theorem World.LeavesAlone.refl (id : MissionId) (w : World) : w.LeavesAlone id w :=
  ⟨le_rfl, rfl, rfl, fun _ hx _ => hx⟩

theorem World.LeavesAlone.trans (hw : w.LeavesAlone id w') (hw' : w'.LeavesAlone id w'') :
    w.LeavesAlone id w'' :=
  ⟨hw.clock.trans hw'.clock, hw'.mission.trans hw.mission, hw'.attempt.trans hw.attempt,
    fun x hx hid => hw.watchers x (hw'.watchers x hx hid) hid⟩

theorem World.LeavesAlone.passes (hw : w.LeavesAlone id w') :
    Cooldown.Passes FIRE_COOLDOWN (w.cooldown id) (w'.cooldown id) where
  clock := hw.clock
  attempt := .inl hw.attempt
  last := congrArg (Option.bind · Mission.last_fire_at) hw.mission
  next := congrArg (Option.bind · Mission.due) hw.mission
  pending := fun _ ⟨thread_id, hx⟩ => ⟨thread_id, hw.watchers _ hx rfl⟩

/-- The instruction does not touch the mission. -/
def Instr.leavesMission (id : MissionId) : Instr → Prop
  | .saveMission m => m.id ≠ id
  | .updateMissionStatus k _ | .insertFireAttempt k _ | .removeFireAttempt k
  | .spawnOutcomeWatcher k _ _ => k ≠ id
  | .pruneFireAttempts .. => False
  | _ => True

/-- A record that is loaded has the id it was asked for. -/
def HearsId : (i : Instr) → Answer i → Prop
  | .loadMission id, r => ∀ m : Mission, r = some m → m.id = id
  | _, _ => True

theorem leavesAlone_worldExec {i : Instr} (hi : i.leavesMission id) :
    w.LeavesAlone id (worldExec h i w).2 := by
  cases i with
  | saveMission m =>
    exact ⟨le_rfl, KeyedStore.get?_insert_of_ne (Ne.symm hi), rfl, fun _ hx _ => hx⟩
  | updateMissionStatus k status =>
    refine ⟨le_rfl, ?_, rfl, fun _ hx _ => hx⟩
    rw [worldExec, World.get?_setStatus, if_neg (Ne.symm hi)]
  | insertFireAttempt k t =>
    exact ⟨le_rfl, rfl, Function.update_of_ne (Ne.symm hi) _ _, fun _ hx _ => hx⟩
  | removeFireAttempt k =>
    exact ⟨le_rfl, rfl, Function.update_of_ne (Ne.symm hi) _ _, fun _ hx _ => hx⟩
  | spawnOutcomeWatcher k tid t =>
    refine ⟨le_rfl, rfl, rfl, fun x hx hid => ?_⟩
    rcases List.mem_append.mp hx with hx | hx
    · exact hx
    · obtain rfl := List.mem_singleton.mp hx
      exact absurd hid hi
  | pruneFireAttempts => exact hi.elim
  | pushActiveIfAbsent | dedupEvent | spawnThread =>
    simp only [worldExec]
    split <;> exact ⟨le_rfl, rfl, rfl, fun _ hx _ => hx⟩
  | compileRegex =>
    simp only [worldExec]
    split
    · exact .refl id w
    · split <;> exact ⟨le_rfl, rfl, rfl, fun _ hx _ => hx⟩
  | _ => exact ⟨le_rfl, rfl, rfl, fun _ hx _ => hx⟩

theorem hearsId_worldExec (i : Instr) : HearsId i (worldExec h i w).1 := by
  cases i with
  | loadMission k => exact fun m hm => KeyedStore.key_of_get? hm
  | _ => trivial

/-- An instruction that can not fail is performed on what others have left. -/
theorem missionStep_exec {i : Instr} {r : Answer i} (hi : ∀ m, i ≠ .saveMission m)
    (hstep : missionStep h id i w r w'') :
    ∃ w', w.LeavesAlone id w' ∧ r = (worldExec h i w').1 ∧ w'' = (worldExec h i w').2 := by
  obtain ⟨w', hw, hexec | ⟨⟨m, hsave⟩, -⟩⟩ := hstep
  · exact ⟨w', hw, hexec⟩
  · exact absurd hsave (hi m)

theorem missionStep_leaves {i : Instr} {r : Answer i} (hi : i.leavesMission id)
    (hstep : missionStep h id i w r w'') : HearsId i r ∧ w.LeavesAlone id w'' := by
  obtain ⟨w', hw, ⟨rfl, rfl⟩ | ⟨⟨m, rfl⟩, rfl⟩⟩ := hstep
  · exact ⟨hearsId_worldExec i, hw.trans (leavesAlone_worldExec hi)⟩
  · exact ⟨trivial, hw⟩

/-- The program does not touch the mission. -/
abbrev LeavesMission (id : MissionId) (p : Act α) (Q : α → Prop := fun _ => True) : Prop :=
  p.Obeys HearsId (Instr.leavesMission id) Q

theorem LeavesMission.ends {p : Act α} {a : α} (hp : LeavesMission id p Q)
    (h' : p.Ends (missionStep h id) w a w') : w.LeavesAlone id w' ∧ Q a := by
  refine Prog.Ends.of_obeys (fun i s r s' hs hi hstep => ?_) hp (.refl id w) h'
  obtain ⟨hr, hleaves⟩ := missionStep_leaves hi hstep
  exact ⟨hr, hs.trans hleaves⟩

theorem Instr.isSilent.leavesMission {i : Instr} (hi : i.isSilent) : i.leavesMission id := by
  cases i with
  | saveMission | updateMissionStatus | insertFireAttempt | removeFireAttempt
  | pruneFireAttempts | spawnOutcomeWatcher => exact hi.elim
  | _ => trivial

theorem Silent.leavesMission {p : Act α} (hp : Silent p Q) : LeavesMission id p Q :=
  hp.weaken (fun _ _ _ => trivial) fun _ hi => hi.leavesMission

/-- A fire of another mission. -/
theorem leavesMission_fireMission {k : MissionId} (hk : k ≠ id) {user : String}
    {payload : Option Json} : LeavesMission id (fireMission h k user payload) := by
  refine FireRules.fireMission (P := fun m => m.id = k) ⟨fun _ hi => hi.leavesMission,
    fun _ _ => ⟨trivial, trivial⟩, fun m hm => hm m rfl, ?_, ?_, fun _ _ _ _ => trivial, ?_, ?_⟩
  · rintro m _ hm ⟨_, _, _, _, _, _, rfl⟩
    exact hm
  · rintro m rfl
    exact hk
  · rintro m tid t rfl
    exact hk
  · rintro m t rfl
    exact hk

/-! ### What a fire does -/

/-- A step of a fire, with the fire instant noted. -/
abbrev firingStep (h : Host) (id : MissionId) :=
  Prog.Noted (missionStep h id) fireInstant

theorem ends_instr {σ : Type} {E : (i : Instr) → σ → Answer i → σ → Prop} {s s'' : σ}
    {i : Instr} {f : Answer i → Act α} {a : α} (hends : (await i >>= f).Ends E s a s'') :
    ∃ r s', E i s r s' ∧ (f r).Ends E s' a s'' :=
  Prog.ends_act.mp hends

theorem ends_await {i : Instr} {f : Answer i → Act α} {a : α} {s'' : World × List Time}
    {notes : List Time} (hends : (await i >>= f).Ends (firingStep h id) (w, notes) a s'') :
    ∃ r w', missionStep h id i w r w' ∧
      (f r).Ends (firingStep h id) (w', notes ++ fireInstant i r) a s'' := by
  obtain ⟨r, ⟨w', notes'⟩, ⟨hstep, hnotes⟩, hrest⟩ := ends_instr hends
  have hsame : notes' = notes ++ fireInstant i r := hnotes
  exact ⟨r, w', hstep, hsame ▸ hrest⟩

/-- An instruction at which nothing is noted. -/
theorem ends_await_quiet {i : Instr} {f : Answer i → Act α} {a : α} {s'' : World × List Time}
    {notes : List Time} (hnote : ∀ r, fireInstant i r = [])
    (hends : (await i >>= f).Ends (firingStep h id) (w, notes) a s'') :
    ∃ r w', missionStep h id i w r w' ∧ (f r).Ends (firingStep h id) (w', notes) a s'' := by
  obtain ⟨r, w', hstep, hrest⟩ := ends_await hends
  rw [hnote, List.append_nil] at hrest
  exact ⟨r, w', hstep, hrest⟩

/-- The instruction does not touch the mission, and nothing is noted at it. -/
def Instr.passesBy (id : MissionId) (i : Instr) : Prop :=
  i.leavesMission id ∧ ∀ r, fireInstant i r = []

theorem ends_passing {p : Act α} {a : α} {s' : World × List Time} {notes : List Time}
    (hp : p.Obeys HearsId (Instr.passesBy id) Q)
    (hends : p.Ends (firingStep h id) (w, notes) a s') :
    ∃ w', s' = (w', notes) ∧ w.LeavesAlone id w' ∧ Q a := by
  have hkept := Prog.Ends.of_obeys (I := fun s => w.LeavesAlone id s.1 ∧ s.2 = notes)
    (fun i s r s' hs hi hstep => ?_) hp ⟨.refl id w, rfl⟩ hends
  · exact ⟨s'.1, Prod.ext rfl hkept.1.2, hkept.1.1, hkept.2⟩
  · obtain ⟨hanswer, hnotes⟩ := hstep
    rw [hi.2, List.append_nil] at hnotes
    obtain ⟨hr, hleaves⟩ := missionStep_leaves hi.1 hanswer
    exact ⟨hr, hs.1.trans hleaves, hnotes.trans hs.2⟩

theorem Silent.ends {p : Act α} {a : α} {s' : World × List Time} {notes : List Time}
    (hp : Silent p Q) (hends : p.Ends (firingStep h id) (w, notes) a s') :
    ∃ w', s' = (w', notes) ∧ w.LeavesAlone id w' ∧ Q a := by
  refine ends_passing (hp.weaken (fun _ _ _ => trivial) fun i hi => ⟨hi.leavesMission, ?_⟩) hends
  cases i with
  | spawnOutcomeWatcher => exact hi.elim
  | _ => exact fun _ => rfl

/-- The clock is read after others have acted. -/
theorem missionStep_now {t : Time} (hstep : missionStep h id .now w t w') :
    t = w'.clock ∧ w.LeavesAlone id w' := by
  obtain ⟨w₁, hw, rfl, rfl⟩ := missionStep_exec (fun _ => by simp) hstep
  exact ⟨rfl, hw⟩

/-- A save writes the schedule of its record, or is lost. -/
theorem missionStep_save {r : Unit} (hm : m.id = id)
    (hstep : missionStep h id (.saveMission m) w r w'') :
    ∃ w', w.LeavesAlone id w' ∧ (w''.cooldown id = w'.cooldown id ∨
      w''.cooldown id = { w'.cooldown id with last := m.last_fire_at, next := m.due }) := by
  obtain ⟨w', hw, ⟨-, rfl⟩ | ⟨-, rfl⟩⟩ := hstep
  · have hsaved : (w'.missions.insert m).get? id = some m := by
      rw [← hm, KeyedStore.get?_insert_self]
    refine ⟨w', hw, .inr ?_⟩
    rw [worldExec, World.cooldown, World.cooldown, hsaved]
    rfl
  · exact ⟨w'', hw, .inl rfl⟩

/-- The schedule of a fire at `t`: it has moved on beyond `t`, or is as it was. -/
theorem ends_advanced {t : Time} {notes : List Time} {m' : Mission} {s' : World × List Time}
    (hcron : h.CronAhead) (ht : t ≤ w.clock)
    (hends : (advanced h m t).Ends (firingStep h id) (w, notes) m' s') :
    ∃ w', s' = (w', notes) ∧ w.LeavesAlone id w' ∧ m'.id = m.id ∧
      (m'.last_fire_at = m.last_fire_at ∧ m'.due = m.due ∨
        m'.last_fire_at = some t ∧ ∀ n, m'.due = some n → t < n) := by
  rw [advanced] at hends
  split at hends
  case h_1 expression timezone hcadence =>
    obtain ⟨now, w₁, hnow, hends⟩ := ends_await_quiet (fun _ => rfl) hends
    obtain ⟨rfl, hw₁⟩ := missionStep_now hnow
    split at hends
    case h_1 next hnext =>
      obtain ⟨rfl, rfl⟩ := Prog.ends_done.mp hends
      refine ⟨w₁, rfl, hw₁, rfl, .inr ⟨rfl, fun n hn => ?_⟩⟩
      obtain rfl : next = some n := by
        simpa only [Mission.due, hcadence] using hn
      exact (ht.trans hw₁.clock).trans_lt (hcron _ _ _ _ hnext)
    case h_2 =>
      obtain ⟨rfl, rfl⟩ := Prog.ends_done.mp hends
      exact ⟨w₁, rfl, hw₁, rfl, .inl ⟨rfl, rfl⟩⟩
  case h_2 hcadence =>
    obtain ⟨rfl, rfl⟩ := Prog.ends_done.mp hends
    refine ⟨w, rfl, .refl id w, rfl, .inr ⟨rfl, fun n hn => ?_⟩⟩
    rw [Mission.due] at hn
    split at hn
    case h_1 expression timezone heq => exact (hcadence expression timezone heq).elim
    case h_2 => cases hn

/-- The record has the schedule of the stored one. -/
structure World.Shows (w : World) (k : MissionId) (m : Mission) : Prop where
  id : m.id = k
  last : (w.cooldown k).last = m.last_fire_at
  next : (w.cooldown k).next = m.due

theorem World.LeavesAlone.shows (hw : w.LeavesAlone id w') (hm : w.Shows id m) :
    w'.Shows id m :=
  ⟨hm.id, hw.passes.last.trans hm.last, hw.passes.next.trans hm.next⟩

/-- The log of fires is no matter of one mission. -/
theorem ends_recordUserRate {user : String} {u : Unit} {notes notes' : List Time}
    (hends : (recordUserRate user).Ends (firingStep h id) (w, notes) u (w', notes')) :
    notes' = notes ∧ w.LeavesAlone id w' := by
  have hpasses : (recordUserRate user).Obeys HearsId (Instr.passesBy id) fun _ => True :=
    obeys_await ⟨trivial, fun _ => rfl⟩ fun _ _ => ⟨⟨trivial, fun _ => rfl⟩, fun _ _ => trivial⟩
  obtain ⟨w₁, hsame, hw, -⟩ := ends_passing hpasses hends
  obtain ⟨rfl, rfl⟩ := Prod.mk.inj hsame
  exact ⟨rfl, hw⟩

/-- **A fire that spawned its thread**: the instant is in memory, and what is written of it is
lost, or has the next time beyond the instant, or keeps the schedule as it was. -/
theorem ends_recordFire {tid : ThreadId} {payload : Option Json} {u : Unit}
    {notes notes' : List Time} (hcron : h.CronAhead) (hm : w.Shows id m)
    (hends : (recordFire h m tid payload).Ends (firingStep h id) (w, notes) u (w', notes')) :
    ∃ t, notes' = notes ++ [t] ∧ Cooldown.Fires t (w.cooldown id) (w'.cooldown id) := by
  obtain rfl := hm.id
  rw [recordFire] at hends
  obtain ⟨t, w₁, hnow, hends⟩ := ends_await_quiet (fun _ => rfl) hends
  obtain ⟨ht, hw₁⟩ := missionStep_now hnow
  obtain ⟨_, w₂', hwatch, hends⟩ := ends_await hends
  obtain ⟨w₂, hw₂, -, rfl⟩ := missionStep_exec (fun _ => by simp) hwatch
  obtain ⟨now, w₃, hnow', hends⟩ := ends_await_quiet (fun _ => rfl) hends
  obtain ⟨-, hw₃⟩ := missionStep_now hnow'
  obtain ⟨updated, s₄, hadv, hends⟩ := Prog.ends_bind.mp hends
  have htw : t ≤ w₃.clock := ht.le.trans (hw₂.clock.trans hw₃.clock)
  obtain ⟨w₄, rfl, hw₄, hid, hwritten⟩ := ends_advanced hcron htw hadv
  obtain ⟨_, w₅', hinsert, hends⟩ := ends_await_quiet (fun _ => rfl) hends
  obtain ⟨w₅, hw₅, -, rfl⟩ := missionStep_exec (fun _ => by simp) hinsert
  obtain ⟨_, w₆', hsave, hends⟩ := ends_await_quiet (fun _ => rfl) hends
  obtain ⟨w₆, hw₆, hsaved⟩ := missionStep_save (hid.trans hm.id) hsave
  obtain ⟨rfl, hw'⟩ := ends_recordUserRate hends
  -- up to the save others have left the mission alone; the watcher and the attempt are new
  have hmission : w₆.missions.get? m.id = w.missions.get? m.id :=
    hw₆.mission.trans (hw₅.mission.trans (hw₄.mission.trans (hw₃.mission.trans
      (hw₂.mission.trans hw₁.mission))))
  have hlast : (w₆.cooldown m.id).last = (w.cooldown m.id).last :=
    congrArg (Option.bind · Mission.last_fire_at) hmission
  have hnext : (w₆.cooldown m.id).next = (w.cooldown m.id).next :=
    congrArg (Option.bind · Mission.due) hmission
  have hattempt : (w₆.cooldown m.id).attempt = some t :=
    hw₆.attempt.trans (Function.update_self ..)
  have hclock : t ≤ (w₆.cooldown m.id).clock :=
    htw.trans (hw₄.clock.trans (hw₅.clock.trans hw₆.clock))
  have hpending : ∀ u, (w₆.cooldown m.id).pending u → (w.cooldown m.id).pending u ∨ u = t := by
    rintro u ⟨thread_id, hx⟩
    have hx₂ := hw₃.watchers _ (hw₄.watchers _ (hw₅.watchers _ (hw₆.watchers _ hx rfl) rfl)
      rfl) rfl
    rcases List.mem_append.mp hx₂ with hx₂ | hx₂
    · exact .inl ⟨thread_id, hw₁.watchers _ (hw₂.watchers _ hx₂ rfl) rfl⟩
    · exact .inr (congrArg Watcher.original_fire_at (List.mem_singleton.mp hx₂))
  have hfires : Cooldown.Fires t (w.cooldown m.id) (w₆'.cooldown m.id) := by
    obtain hlost | hsaved := hsaved
    · rw [hlost]
      exact ⟨hw₁.clock.trans ht.ge, hclock, hattempt, .inl ⟨hlast, hnext⟩, hpending⟩
    · rw [hsaved]
      refine ⟨hw₁.clock.trans ht.ge, hclock, hattempt, ?_, hpending⟩
      refine hwritten.imp_left fun ⟨hlast', hdue'⟩ => ?_
      exact ⟨hlast'.trans hm.last.symm, hdue'.trans hm.next.symm⟩
  exact ⟨t, rfl, hfires.passes hw'.attempt hw'.passes⟩

/-- Nothing is fired, or the mission is fired once. -/
def FiresOnce (id : MissionId) (w : World) (notes : List Time) (s' : World × List Time) : Prop :=
  s'.2 = notes ∧ Cooldown.Passes FIRE_COOLDOWN (w.cooldown id) (s'.1.cooldown id) ∨
    ∃ t, s'.2 = notes ++ [t] ∧ Cooldown.Fires t (w.cooldown id) (s'.1.cooldown id)

theorem FiresOnce.after {notes : List Time} {s' : World × List Time}
    (hw : Cooldown.Passes FIRE_COOLDOWN (w.cooldown id) (w'.cooldown id))
    (h' : FiresOnce id w' notes s') : FiresOnce id w notes s' := by
  obtain ⟨hnotes, hpasses⟩ | ⟨t, hnotes, hfires⟩ := h'
  · exact .inl ⟨hnotes, hw.trans hpasses⟩
  · exact .inr ⟨t, hnotes, hw.fires hfires⟩

theorem World.LeavesAlone.firesNone {notes : List Time} (hw : w.LeavesAlone id w') :
    FiresOnce id w notes (w', notes) :=
  .inl ⟨rfl, hw.passes⟩

theorem ends_spawnFire {user : String} {payload : Option Json}
    {r : Except EngineError (Option ThreadId)} {notes : List Time} {s' : World × List Time}
    (hcron : h.CronAhead) (hm : w.Shows id m)
    (hends : (spawnFire h m user payload).Ends (firingStep h id) (w, notes) r s') :
    FiresOnce id w notes s' := by
  rw [spawnFire] at hends
  obtain ⟨blocks, s₁, hblocks, hends⟩ := Prog.ends_bind.mp hends
  obtain ⟨w₁, rfl, hw₁, -⟩ := (silent_contextBlocks _).ends hblocks
  obtain ⟨docs, w₂, hdocs, hends⟩ := ends_await_quiet (fun _ => rfl) hends
  have hw₂ := hw₁.trans (missionStep_leaves (i := .retrieveContext _ _ _ _) trivial hdocs).2
  obtain ⟨spawned, w₃, hspawn, hends⟩ := ends_await_quiet (fun _ => rfl) hends
  have hw₃ := hw₂.trans (missionStep_leaves (i := .spawnThread _ _ _) trivial hspawn).2
  rcases spawned with e | tid
  · obtain ⟨-, rfl⟩ := Prog.ends_done.mp hends
    exact hw₃.firesNone
  · obtain ⟨_, ⟨w', notes'⟩, hrecord, hdone⟩ := Prog.ends_bind.mp hends
    obtain ⟨-, rfl⟩ := Prog.ends_done.mp hdone
    obtain ⟨t, rfl, hfires⟩ := ends_recordFire hcron (hw₃.shows hm) hrecord
    exact .inr ⟨t, rfl, hw₃.passes.fires hfires⟩

/-- The daily reset, written or lost, leaves the schedule as it is. -/
theorem ends_dailyReset {m' : Mission} {notes : List Time} {s' : World × List Time}
    (hm : w.Shows id m)
    (hends : (dailyReset m).Ends (firingStep h id) (w, notes) m' s') :
    ∃ w', s' = (w', notes) ∧ w'.Shows id m' ∧
      Cooldown.Passes FIRE_COOLDOWN (w.cooldown id) (w'.cooldown id) := by
  rw [dailyReset] at hends
  split at hends
  case isFalse =>
    obtain ⟨rfl, rfl⟩ := Prog.ends_done.mp hends
    exact ⟨w, rfl, hm, (World.LeavesAlone.refl id w).passes⟩
  obtain ⟨now, w₁, hnow, hends⟩ := ends_await_quiet (fun _ => rfl) hends
  obtain ⟨-, hw₁⟩ := missionStep_now hnow
  split at hends
  case isFalse =>
    obtain ⟨rfl, rfl⟩ := Prog.ends_done.mp hends
    exact ⟨w₁, rfl, hw₁.shows hm, hw₁.passes⟩
  obtain ⟨_, w₃, hsave, hends⟩ := ends_await_quiet (fun _ => rfl) hends
  obtain ⟨rfl, rfl⟩ := Prog.ends_done.mp hends
  obtain ⟨w₂, hw₂, hsaved⟩ := missionStep_save (m := { m with threads_today := 0 }) hm.id hsave
  have hw := hw₁.trans hw₂
  have hm₂ := hw.shows hm
  have hsame : w₃.cooldown id = w₂.cooldown id := by
    refine hsaved.elim (fun hlost => hlost) fun hsaved => hsaved.trans ?_
    have hlast : m.last_fire_at = (w₂.cooldown id).last := hm₂.last.symm
    have hnext : m.due = (w₂.cooldown id).next := hm₂.next.symm
    exact congrArg₂ (fun last next => { w₂.cooldown id with last := last, next := next })
      hlast hnext
  refine ⟨w₃, rfl, ⟨hm.id, ?_, ?_⟩, ?_⟩
  · rw [hsame]
    exact hm₂.last
  · rw [hsame]
    exact hm₂.next
  · rw [hsame]
    exact hw.passes

theorem ends_checkedFire {user : String} {payload : Option Json}
    {r : Except EngineError (Option ThreadId)} {notes : List Time} {s' : World × List Time}
    (hcron : h.CronAhead) (hm : w.Shows id m)
    (hends : (checkedFire h m user payload).Ends (firingStep h id) (w, notes) r s') :
    FiresOnce id w notes s' := by
  rw [checkedFire] at hends
  obtain ⟨m', s₀, hreset, hends⟩ := Prog.ends_bind.mp hends
  obtain ⟨w₀, rfl, hm', hpasses⟩ := ends_dailyReset hm hreset
  refine FiresOnce.after hpasses ?_
  split at hends
  · obtain ⟨-, rfl⟩ := Prog.ends_done.mp hends
    exact (World.LeavesAlone.refl id w₀).firesNone
  obtain ⟨cooling, s₁, hcooling, hends⟩ := Prog.ends_bind.mp hends
  obtain ⟨w₁, rfl, hw₁, -⟩ := silent_onCooldown.ends hcooling
  split at hends
  · obtain ⟨-, rfl⟩ := Prog.ends_done.mp hends
    exact hw₁.firesNone
  obtain ⟨full, s₂, hfull, hends⟩ := Prog.ends_bind.mp hends
  obtain ⟨w₂, rfl, hw₂, -⟩ := silent_concurrencyReached.ends hfull
  have hw₂ := hw₁.trans hw₂
  split at hends
  · obtain ⟨-, rfl⟩ := Prog.ends_done.mp hends
    exact hw₂.firesNone
  obtain ⟨rate_ok, s₃, hrate, hends⟩ := Prog.ends_bind.mp hends
  have hchecks : (checkUserRate m'.user_id).Obeys HearsId (Instr.passesBy id) fun _ => True :=
    obeys_await ⟨trivial, fun _ => rfl⟩ fun _ _ => ⟨⟨trivial, fun _ => rfl⟩, fun _ _ => trivial⟩
  obtain ⟨w₃, rfl, hw₃, -⟩ := ends_passing hchecks hrate
  have hw₃ := hw₂.trans hw₃
  split at hends
  · obtain ⟨-, rfl⟩ := Prog.ends_done.mp hends
    exact hw₃.firesNone
  obtain ⟨allowed, w₄, hallowed, hends⟩ := ends_await_quiet (fun _ => rfl) hends
  have hw₄ := hw₃.trans (missionStep_leaves (i := .budgetAllows _ _) trivial hallowed).2
  split at hends
  · obtain ⟨-, rfl⟩ := Prog.ends_done.mp hends
    exact hw₄.firesNone
  · exact (ends_spawnFire hcron (hw₄.shows hm') hends).after hw₄.passes

/-- The record that is loaded is the one others have left alone. -/
theorem missionStep_load {r : Option Mission}
    (hstep : missionStep h id (.loadMission id) w r w') :
    w.LeavesAlone id w' ∧ r = w'.missions.get? id ∧ ∀ m, r = some m → w'.Shows id m := by
  obtain ⟨w₁, hw, rfl, rfl⟩ := missionStep_exec (fun _ => by simp) hstep
  refine ⟨hw, rfl, fun m hm => ?_⟩
  have hm' : w'.missions.get? id = some m := hm
  refine ⟨KeyedStore.key_of_get? hm', ?_, ?_⟩
  · exact congrArg (Option.bind · Mission.last_fire_at) hm'
  · exact congrArg (Option.bind · Mission.due) hm'

theorem ends_fireMission {user : String} {payload : Option Json}
    {r : Except EngineError (Option ThreadId)} {notes : List Time} {s' : World × List Time}
    (hcron : h.CronAhead)
    (hends : (fireMission h id user payload).Ends (firingStep h id) (w, notes) r s') :
    FiresOnce id w notes s' := by
  rw [fireMission] at hends
  obtain ⟨loaded, w₁, hload, hends⟩ := ends_await_quiet (fun _ => rfl) hends
  obtain ⟨hw₁, -, hshows⟩ := missionStep_load hload
  rcases loaded with _ | m
  · obtain ⟨-, rfl⟩ := Prog.ends_done.mp hends
    exact hw₁.firesNone
  dsimp only at hends
  split at hends
  · obtain ⟨-, rfl⟩ := Prog.ends_done.mp hends
    exact hw₁.firesNone
  split at hends
  · obtain ⟨-, rfl⟩ := Prog.ends_done.mp hends
    exact hw₁.firesNone
  · exact (ends_checkedFire hcron (hshows m rfl) hends).after hw₁.passes

/-! ### What a tick does -/

/-- The fire as the cooldown sees it. -/
def TickFire.fire (f : TickFire) : Cooldown.Fire := ⟨f.saw, f.fired_at⟩

/-- The fires of one mission. -/
def firesOf (id : MissionId) (fires : List TickFire) : List Cooldown.Fire :=
  (fires.filter fun f => f.mission_id = id).map TickFire.fire

theorem firesOf_append (fires fires' : List TickFire) :
    firesOf id (fires ++ fires') = firesOf id fires ++ firesOf id fires' := by
  rw [firesOf, List.filter_append, List.map_append, firesOf, firesOf]

theorem due_of_cronDue {now : Time} (hdue : cronDue m now = true) :
    ∃ n, m.due = some n ∧ m.next_fire_at = some n ∧ n ≤ now := by
  rw [cronDue] at hdue
  split at hdue
  case h_1 expression timezone hcadence =>
    obtain ⟨n, hn, hle⟩ := (Option.any_eq_true _ _).mp hdue
    have hnext : m.due = m.next_fire_at := by simp only [Mission.due, hcadence]
    exact ⟨n, hnext.trans hn, hn, of_decide_eq_true hle⟩
  case h_2 => cases hdue

/-- The attempts that are pruned have left the window. -/
theorem passes_prune {now : Time} (hnow : now ≤ w.clock) :
    Cooldown.Passes FIRE_COOLDOWN (w.cooldown id)
      ((worldExec h (.pruneFireAttempts now FIRE_COOLDOWN) w).2.cooldown id) := by
  have hpruned : ((worldExec h (.pruneFireAttempts now FIRE_COOLDOWN) w).2.cooldown id).attempt =
      (w.last_fire_attempt id).filter fun last => now - last < FIRE_COOLDOWN := rfl
  refine ⟨le_rfl, ?_, rfl, rfl, fun _ ht => ht⟩
  rw [hpruned]
  cases hattempt : w.last_fire_attempt id with
  | none => exact .inl hattempt.symm
  | some last =>
    by_cases hlast : now - last < FIRE_COOLDOWN
    · rw [Option.filter_some, if_pos (decide_eq_true hlast)]
      exact .inl hattempt.symm
    · rw [Option.filter_some, if_neg (by simpa using hlast)]
      refine .inr ⟨rfl, fun t ht => ?_⟩
      obtain rfl : last = t := Option.some.inj (hattempt.symm.trans ht)
      have hpast := Int.not_lt.mp hlast
      exact hpast.trans (Int.sub_le_sub_right hnow last)

/-- **The visit of a tick to the mission.** -/
theorem inv_visit {past : List Cooldown.Fire} {now : Time} {user : String}
    {fired : Except EngineError (Option ThreadId) × List Time} (hcron : h.CronAhead)
    (hinv : Cooldown.Inv FIRE_COOLDOWN past (w.cooldown id)) (hnow : now ≤ w.clock)
    (hm : w.Shows id m) (hdue : cronDue m now = true)
    (hcool : ∀ t, w.last_fire_attempt id = some t → now - t < FIRE_COOLDOWN →
      m.last_fire_at = some t)
    (hends : ((fireMission h id user none).noting fireInstant).Ends (missionStep h id) w fired
      w') :
    Cooldown.Inv FIRE_COOLDOWN
      (past ++ firesOf id (fired.2.map fun t => ⟨id, m.next_fire_at, t⟩)) (w'.cooldown id) ∧
      w.clock ≤ w'.clock := by
  have hwindow : 0 < FIRE_COOLDOWN := by decide
  obtain ⟨hnone, hpasses⟩ | ⟨t, hone, hfires⟩ := ends_fireMission hcron (hends.noted [])
  · rw [show fired.2 = [] from hnone, List.map_nil]
    exact ⟨(List.append_nil past).symm ▸ hinv.passes hwindow hpasses, hpasses.clock⟩
  · rw [show fired.2 = [t] from hone]
    obtain ⟨n, hn, hnext, hle⟩ := due_of_cronDue hdue
    have hstep := hinv.fires_due ⟨hm.next.trans hn, hle, fun t ht hlt =>
      hm.last.trans (hcool t ht hlt)⟩ (hnow.trans hfires.clock) hfires
    have hof : firesOf id ([t].map fun t => ⟨id, m.next_fire_at, t⟩) = [⟨some n, t⟩] := by
      simp [firesOf, TickFire.fire, hnext]
    rw [hof]
    exact ⟨hstep, hfires.clock.trans hfires.clock'⟩

/-- The loop over the missions, by induction on the index. -/
theorem inv_tickFiresLoop {now : Time} (hcron : h.CronAhead) (ids : List MissionId) :
    ∀ (w : World) (past : List Cooldown.Fire) (r : List ThreadId × List TickFire) (w' : World),
      Cooldown.Inv FIRE_COOLDOWN past (w.cooldown id) → now ≤ w.clock →
      (tickFiresLoop h now ids).Ends (missionStep h id) w r w' →
      Cooldown.Inv FIRE_COOLDOWN (past ++ firesOf id r.2) (w'.cooldown id) := by
  have hwindow : 0 < FIRE_COOLDOWN := by decide
  induction ids with
  | nil =>
    intro w past r w' hinv _ hends
    obtain ⟨rfl, rfl⟩ := Prog.ends_done.mp hends
    exact (List.append_nil past).symm ▸ hinv
  | cons mid rest ih =>
    intro w past r w' hinv hnow hends
    -- what leaves the mission alone, and then the rest
    have hskip : ∀ w₁, w.LeavesAlone id w₁ →
        (tickFiresLoop h now rest).Ends (missionStep h id) w₁ r w' →
        Cooldown.Inv FIRE_COOLDOWN (past ++ firesOf id r.2) (w'.cooldown id) :=
      fun w₁ hw hrest => ih w₁ past r w' (hinv.passes hwindow hw.passes) (hnow.trans hw.clock) hrest
    rw [tickFiresLoop] at hends
    obtain ⟨loaded, w₁, hload, hends⟩ := ends_instr hends
    obtain ⟨-, hw₁⟩ := missionStep_leaves (i := .loadMission mid) trivial hload
    rcases loaded with _ | m
    · exact hskip w₁ hw₁ hends
    dsimp only at hends
    split_ifs at hends with hdue
    case neg => exact hskip w₁ hw₁ hends
    obtain ⟨attempt, w₂, hattempt, hends⟩ := ends_instr hends
    obtain ⟨w₂, hw₂, rfl, rfl⟩ := missionStep_exec (fun _ => by simp) hattempt
    have hw := hw₁.trans hw₂
    split_ifs at hends with hcool
    · exact hskip w₂ hw hends
    obtain ⟨fired, w₃, hfire, hends⟩ := Prog.ends_bind.mp hends
    obtain ⟨later, w₄, hlater, hdone⟩ := Prog.ends_bind.mp hends
    obtain ⟨hfires, rfl⟩ : r.2 = (fired.2.map fun t => ⟨mid, m.next_fire_at, t⟩) ++ later.2 ∧
        w' = w₄ := by
      rcases fired with ⟨e | _ | tid, notes⟩
      all_goals
        obtain ⟨rfl, rfl⟩ := Prog.ends_done.mp hdone
        exact ⟨rfl, rfl⟩
    have hinv₂ := hinv.passes hwindow hw.passes
    have hnow₂ : now ≤ w₂.clock := hnow.trans hw.clock
    obtain ⟨hinv₃, hclock⟩ : Cooldown.Inv FIRE_COOLDOWN
        (past ++ firesOf id (fired.2.map fun t => ⟨mid, m.next_fire_at, t⟩)) (w₃.cooldown id) ∧
        w₂.clock ≤ w₃.clock := by
      by_cases hid : mid = id
      · obtain rfl := hid
        obtain ⟨-, -, hshows⟩ := missionStep_load hload
        rw [Bool.and_eq_true] at hdue
        refine inv_visit hcron hinv₂ hnow₂ (hw₂.shows (hshows m rfl)) hdue.2 (fun t ht hlt => ?_)
          hfire
        by_contra hne
        refine hcool ((Option.any_eq_true _ _).mpr ⟨t, ht, ?_⟩)
        rw [Bool.and_eq_true]
        exact ⟨decide_eq_true hlt, decide_eq_true hne⟩
      · have hw₃ := ((leavesMission_fireMission hid).ends hfire.of_noting).1
        have hnone : firesOf id (fired.2.map fun t => ⟨mid, m.next_fire_at, t⟩) = [] := by
          simp [firesOf, hid]
        rw [hnone, List.append_nil]
        exact ⟨hinv₂.passes hwindow hw₃.passes, hw₃.clock⟩
    rw [hfires, firesOf_append, ← List.append_assoc]
    exact ih w₃ _ later w' hinv₃ (hnow₂.trans hclock) hlater

theorem inv_tickFires {past : List Cooldown.Fire}
    {r : Except EngineError (List ThreadId) × List TickFire} (hcron : h.CronAhead)
    (hinv : Cooldown.Inv FIRE_COOLDOWN past (w.cooldown id))
    (hends : (tickFires h).Ends (missionStep h id) w r w') :
    Cooldown.Inv FIRE_COOLDOWN (past ++ firesOf id r.2) (w'.cooldown id) := by
  have hwindow : 0 < FIRE_COOLDOWN := by decide
  rw [tickFires] at hends
  obtain ⟨active_ids, w₁, hactive, hends⟩ := ends_instr hends
  obtain ⟨-, hw₁⟩ := missionStep_leaves (i := .readActive) trivial hactive
  obtain ⟨now, w₂, hnow, hends⟩ := ends_instr hends
  obtain ⟨hnow, hw₂⟩ := missionStep_now hnow
  obtain ⟨_, w₃', hprune, hends⟩ := ends_instr hends
  obtain ⟨w₃, hw₃, -, rfl⟩ := missionStep_exec (fun _ => by simp) hprune
  obtain ⟨spawned, w₄, hloop, hdone⟩ := Prog.ends_bind.mp hends
  obtain ⟨rfl, rfl⟩ := Prog.ends_done.mp hdone
  have hclock : now ≤ w₃.clock := hnow.le.trans hw₃.clock
  have hinv₃ := hinv.passes hwindow ((hw₁.trans hw₂).trans hw₃).passes
  exact inv_tickFiresLoop hcron active_ids _ past spawned w'
    (hinv₃.passes hwindow (passes_prune hclock)) hclock hloop

/-! ### What an outcome does -/

/-- An outcome does not touch the schedule. -/
theorem schedule_applyOutcome {to_lowercase : String → String} {outcome : ThreadOutcome}
    {a : Mission} (ha : applyOutcome to_lowercase outcome m = some a) :
    a.id = m.id ∧ a.last_fire_at = m.last_fire_at ∧ a.due = m.due := by
  rw [applyOutcome.eq_def] at ha
  split at ha
  case h_1 text =>
    dsimp only at ha
    split at ha
    · cases ha
    · obtain rfl := Option.some.inj ha
      exact ⟨rfl, rfl, rfl⟩
  all_goals
    obtain rfl := Option.some.inj ha
    exact ⟨rfl, rfl, rfl⟩

/-- `next_cron_fire` gives no time, although the next fire of the record has come. -/
def Stuck (h : Host) (m : Mission) (from' to' : Time) : Prop :=
  ∃ expression timezone next now, m.cadence = .cron expression timezone ∧
    m.next_fire_at = some next ∧ next ≤ now ∧ from' ≤ now ∧ now ≤ to' ∧
    ∀ later, nextCronFire h.cron expression timezone now ≠ .ok (some later)

/-- What reconciling does to the schedule of the record. -/
theorem ends_reconcile {tid : ThreadId} {t : Time} {m' : Mission} (hcron : h.CronAhead)
    (ht : t ≤ w.clock) (hends : (reconcile h m tid t).Ends (missionStep h id) w m' w') :
    w.LeavesAlone id w' ∧ m'.id = m.id ∧
      (m'.last_fire_at = m.last_fire_at ∧ m'.due = m.due ∨
        tid ∉ m.thread_history ∧ m'.last_fire_at = some t ∧
          ((∀ n, m'.due = some n → t < n) ∨ Stuck h m w.clock w'.clock)) := by
  rw [reconcile] at hends
  split at hends
  case isTrue =>
    obtain ⟨rfl, rfl⟩ := Prog.ends_done.mp hends
    exact ⟨.refl id w', rfl, .inl ⟨rfl, rfl⟩⟩
  case isFalse hmissing =>
    obtain ⟨now₁, w₁, hnow₁, hends⟩ := ends_instr hends
    obtain ⟨-, hw₁⟩ := missionStep_now hnow₁
    dsimp only at hends
    split at hends
    case h_2 hcadence =>
      obtain ⟨rfl, rfl⟩ := Prog.ends_done.mp hends
      refine ⟨hw₁, rfl, .inr ⟨hmissing, rfl, .inl fun n hn => ?_⟩⟩
      rw [Mission.due] at hn
      split at hn
      case h_1 expression timezone heq => exact (hcadence expression timezone heq).elim
      case h_2 => cases hn
    case h_1 expression timezone hcadence =>
      obtain ⟨now₂, w₂, hnow₂, hends⟩ := ends_instr hends
      obtain ⟨rfl, hw₂⟩ := missionStep_now hnow₂
      have hw := hw₁.trans hw₂
      split at hends
      case isFalse hlater =>
        obtain ⟨rfl, rfl⟩ := Prog.ends_done.mp hends
        refine ⟨hw, rfl, .inr ⟨hmissing, rfl, .inl fun n hn => ?_⟩⟩
        -- the fire time stood ahead of the clock already
        have hn' : m.next_fire_at = some n := by
          simpa only [Mission.due, Mission.recordThread, hcadence] using hn
        rw [hn', Option.all_some, decide_eq_true_eq] at hlater
        exact (ht.trans hw.clock).trans_lt (Int.not_le.mp hlater)
      case isTrue hcome =>
        obtain ⟨now₃, w₃, hnow₃, hends⟩ := ends_instr hends
        obtain ⟨rfl, hw₃⟩ := missionStep_now hnow₃
        have hw' := hw.trans hw₃
        split at hends
        case h_1 next hnext =>
          obtain ⟨rfl, rfl⟩ := Prog.ends_done.mp hends
          refine ⟨hw', rfl, .inr ⟨hmissing, rfl, .inl fun n hn => ?_⟩⟩
          obtain rfl : next = n := by
            simpa only [Mission.due, Mission.recordThread, hcadence, Option.some.injEq] using hn
          exact (ht.trans hw'.clock).trans_lt (hcron _ _ _ _ hnext)
        case h_2 hnone =>
          obtain ⟨rfl, rfl⟩ := Prog.ends_done.mp hends
          refine ⟨hw', rfl, .inr ⟨hmissing, rfl, ?_⟩⟩
          cases hold : m.next_fire_at with
          | none =>
            refine .inl fun n hn => ?_
            simp only [Mission.due, Mission.recordThread, hcadence, hold, reduceCtorEq] at hn
          | some next =>
            rw [hold, Option.all_some, decide_eq_true_eq] at hcome
            exact .inr ⟨expression, timezone, next, _, hcadence, hold,
              hcome.trans hw₃.clock, hw'.clock, le_rfl, hnone⟩

theorem inv_outcome {past : List Cooldown.Fire} {tid : ThreadId} {result : ThreadOutcome}
    {t : Time} {r : Except EngineError Bool} (hcron : h.CronAhead)
    (hinv : Cooldown.Inv FIRE_COOLDOWN past (w.cooldown id)) (hwatch : ⟨id, tid, t⟩ ∈ w.watchers)
    (hok : (MissionOp.outcome tid result t).Reschedules h id w w')
    (hends : (processMissionOutcome h id tid result t).Ends (missionStep h id) w r w') :
    Cooldown.Inv FIRE_COOLDOWN past (w'.cooldown id) := by
  have hwindow : 0 < FIRE_COOLDOWN := by decide
  have ht : t ≤ w.clock := (hinv.pending t ⟨tid, hwatch⟩).1
  rw [processMissionOutcome] at hends
  obtain ⟨loaded, w₁, hload, hends⟩ := ends_instr hends
  obtain ⟨hw₁, hloaded, hshows⟩ := missionStep_load hload
  rcases loaded with _ | m
  · obtain ⟨-, rfl⟩ := Prog.ends_done.mp hends
    exact hinv.passes hwindow hw₁.passes
  obtain ⟨m', w₂, hreconcile, hends⟩ := Prog.ends_bind.mp hends
  obtain ⟨hw₂, hid, hschedule⟩ := ends_reconcile hcron (ht.trans hw₁.clock) hreconcile
  split at hends
  case h_1 =>
    obtain ⟨-, rfl⟩ := Prog.ends_done.mp hends
    exact hinv.passes hwindow (hw₁.trans hw₂).passes
  case h_2 a ha =>
    obtain ⟨haid, halast, hadue⟩ := schedule_applyOutcome ha
    obtain ⟨_, w₃, houtputs, hends⟩ := Prog.ends_bind.mp hends
    obtain ⟨hw₃, -⟩ := silent_processOutputs.leavesMission.ends houtputs
    obtain ⟨_, w₄, hnotify, hends⟩ := Prog.ends_bind.mp hends
    obtain ⟨hw₄, -⟩ := silent_notifyOutcome.leavesMission.ends hnotify
    obtain ⟨now, w₅, hnow, hends⟩ := ends_instr hends
    obtain ⟨-, hw₅⟩ := missionStep_now hnow
    obtain ⟨_, w₇, hsave, hends⟩ := ends_instr hends
    obtain ⟨-, rfl⟩ := Prog.ends_done.mp hends
    have hm := hshows m rfl
    obtain ⟨w₆, hw₆, hsaved⟩ := missionStep_save (m := { a with updated_at := now })
      (haid.trans (hid.trans hm.id)) hsave
    have hw := hw₁.trans (hw₂.trans (hw₃.trans (hw₄.trans (hw₅.trans hw₆))))
    -- a write that another one has overtaken leaves the mission's schedule as it was
    have hlost : w'.cooldown id = w₆.cooldown id →
        Cooldown.Inv FIRE_COOLDOWN past (w'.cooldown id) := fun hsame =>
      hsame ▸ hinv.passes hwindow hw.passes
    obtain hsame | hsaved := hsaved
    · exact hlost hsame
    have hm₆ := (hw₂.trans (hw₃.trans (hw₄.trans (hw₅.trans hw₆)))).shows hm
    obtain ⟨hlast', hdue'⟩ | ⟨hmissing, hlast', hmoved⟩ := hschedule
    · refine hlost (hsaved.trans ?_)
      have hlast : a.last_fire_at = (w₆.cooldown id).last :=
        halast.trans (hlast'.trans hm₆.last.symm)
      have hnext : a.due = (w₆.cooldown id).next := hadue.trans (hdue'.trans hm₆.next.symm)
      exact congrArg₂ (fun last next => { w₆.cooldown id with last := last, next := next })
        hlast hnext
    · refine hinv.reconciles (t := t) ?_
      rw [hsaved]
      refine ⟨hw.clock, hw.attempt, ⟨tid, hwatch⟩, halast.trans hlast', ?_, hw.passes.pending⟩
      obtain hmoved | ⟨expression, timezone, next, at', hcadence, hnext, hle, hfrom, hto, hstuck⟩ :=
        hmoved
      · exact .inl fun n hn => hmoved n (hadue.symm.trans hn)
      · refine .inr fun hattempt => ?_
        -- the reconciled time has to lie ahead unless the schedule has no later one
        have hstored : w.missions.get? id = some m := hw₁.mission.symm.trans hloaded.symm
        have hclock : w₂.clock ≤ w'.clock := by
          have hsame : w'.clock = w₆.clock := congrArg Cooldown.State.clock hsaved
          rw [hsame]
          exact (hw₃.trans (hw₄.trans (hw₅.trans hw₆))).clock
        obtain ⟨later, hlater⟩ := hok hattempt m hstored hmissing expression timezone hcadence
          next at' hnext hle (hw₁.clock.trans hfrom) (hto.trans hclock)
        exact hstuck later hlater

/-! ### Runs -/

theorem inv_op {past : List Cooldown.Fire} {op : MissionOp} {new : List TickFire}
    (hcron : h.CronAhead) (hinv : Cooldown.Inv FIRE_COOLDOWN past (w.cooldown id))
    (hends : op.Ends h id w new w') (hok : op.Reschedules h id w w') :
    Cooldown.Inv FIRE_COOLDOWN (past ++ new.map TickFire.fire) (w'.cooldown id) := by
  have hwindow : 0 < FIRE_COOLDOWN := by decide
  cases op with
  | tick =>
    obtain ⟨r, all, hends, rfl⟩ := hends
    exact inv_tickFires hcron hinv hends
  | fire user payload =>
    obtain ⟨rfl, r, hends⟩ := hends
    rw [List.map_nil, List.append_nil]
    obtain ⟨notes, hnotes⟩ := hends.exists_noting fireInstant
    obtain ⟨-, hpasses⟩ | ⟨t, -, hfires⟩ := ends_fireMission hcron (hnotes.noted [])
    · exact hinv.passes hwindow hpasses
    · exact hinv.fires hfires
  | outcome tid result t =>
    obtain ⟨rfl, hwatch, r, hends⟩ := hends
    rw [List.map_nil, List.append_nil]
    exact inv_outcome hcron hinv hwatch hok hends

theorem MissionRun.inv {fires : List TickFire}
    (hinv : Cooldown.Inv FIRE_COOLDOWN [] (w.cooldown id))
    (hrun : MissionRun id (fun h op w w' => op.Reschedules h id w w') w fires w') :
    Cooldown.Inv FIRE_COOLDOWN (fires.map TickFire.fire) (w'.cooldown id) := by
  have hwindow : 0 < FIRE_COOLDOWN := by decide
  induction hrun with
  | start => exact hinv
  | op hrun hmeanwhile hcron hends hok ih =>
    rw [List.map_append]
    exact inv_op hcron (ih.passes hwindow hmeanwhile.passes) hends hok

end

/-- **No runaway re-fire.** From a new manager on, two fires by the ticker less than
`FIRE_COOLDOWN` apart saw different times, if each reconciliation of the latest fire finds
the next time when the one in the record has come. -/
theorem saw_different {id : MissionId} {w w' : World} {fires : List TickFire}
    (hnew : w.last_fire_attempt id = none) (hwatch : ∀ x ∈ w.watchers, x.mission_id ≠ id)
    (hpast : ∀ m, w.missions.get? id = some m → ∀ t, m.last_fire_at = some t → t < w.clock)
    (hrun : MissionRun id (fun h op w w' => op.Reschedules h id w w') w fires w') :
    SawDifferent fires := by
  have hinv : Cooldown.Inv FIRE_COOLDOWN [] (w.cooldown id) := by
    refine ⟨fun t ht => ?_, ?_, fun t n hlast _ => ?_, nofun, nofun, .nil⟩
    · rw [World.cooldown, hnew] at ht
      cases ht
    · rintro t ⟨thread_id, hx⟩
      exact absurd rfl (hwatch _ hx)
    · obtain ⟨m, hm, hlast⟩ := Option.bind_eq_some_iff.mp hlast
      refine .inr ⟨hpast m hm t hlast, ?_⟩
      rw [World.cooldown, hnew]
      exact nofun
  exact List.pairwise_map.mp (hrun.inv hinv).apart

/-! ### A save that is lost -/

section LostSave

/-- A mission to be fired once, at ten seconds. -/
private def onceMission : Mission :=
  { Mission.new ⟨1⟩ 0 ⟨1⟩ "ada" "report" "write the report" (.cron "0 0 9 1 1 * 2026" none) with
    next_fire_at := some (10 * SECOND) }

private def onceWorld : World :=
  { World.fresh (10 * SECOND) with
    missions := KeyedStore.empty.insert onceMission, active := [⟨1⟩] }

/-- A year that has passed: after the one instant there is no other. -/
private def onceHost : Host :=
  { plainHost with cron := fun _ => .ok fun _ now =>
      if now < 10 * SECOND then some (10 * SECOND) else none }

/-- A schedule that goes on. -/
private def steadyHost : Host :=
  { plainHost with cron := fun _ => .ok fun _ now => some (now + 50 * SECOND) }

private def cronExpression (m : Mission) : Option String :=
  match m.cadence with
  | .cron expression _ => some expression
  | _ => none

/-- The world at another time. -/
private def laterOn (w : World) (now : Time) : World := { w with clock := now }

private def lossyExec (h : Host) : (i : Instr) → World → Answer i × World
  | .saveMission _, w => ((), w)
  | i, w => worldExec h i w

/-- No save succeeds. -/
private def lossyMachine (h : Host) : Machine Instr Answer World where
  exec := lossyExec h

private def lostTick (h : Host) := (tickFires h).run (lossyMachine h) onceWorld

private def reconciled (h : Host) :=
  (processMissionOutcome h ⟨1⟩ ⟨0⟩ (.completed none) (10 * SECOND)).run (missionMachine h)
    (laterOn (lostTick h).2 (20 * SECOND))

private def nextTick (h : Host) :=
  (tickFires h).run (missionMachine h) (laterOn (reconciled h).2 (70 * SECOND))

private theorem cronAhead_of {h : Host} {schedule : Option ValidTimezone → Time → Option Time}
    (hcron : h.cron = fun _ => .ok schedule)
    (hahead : ∀ timezone now next, schedule timezone now = some next → now < next) :
    h.CronAhead := by
  intro expression timezone now next hnext
  rw [nextCronFire, parseCron, hcron] at hnext
  split at hnext
  case h_1 => cases hnext
  case h_2 => exact hahead timezone now next (Except.ok.inj hnext)

private theorem leavesAlone_laterOn {id : MissionId} {w : World} {now : Time} (h : w.clock ≤ now) :
    w.LeavesAlone id (laterOn w now) :=
  ⟨h, rfl, rfl, fun _ hx _ => hx⟩

private theorem lossyMachine_step (h : Host) (id : MissionId) (i : Instr) (w : World) :
    missionStep h id i w ((lossyMachine h).exec i w).1 ((lossyMachine h).exec i w).2 := by
  cases i with
  | saveMission m => exact ⟨w, .refl id w, .inr ⟨⟨m, rfl⟩, rfl⟩⟩
  | _ => exact ⟨w, .refl id w, .inl ⟨rfl, rfl⟩⟩

private theorem missionMachine_step (h : Host) (id : MissionId) (i : Instr) (w : World) :
    missionStep h id i w ((missionMachine h).exec i w).1 ((missionMachine h).exec i w).2 :=
  ⟨w, .refl id w, .inl ⟨rfl, rfl⟩⟩

private theorem tick_ends {h : Host} {id : MissionId} {M : Machine Instr Answer World}
    (hM : ∀ i w, missionStep h id i w (M.exec i w).1 (M.exec i w).2) (w : World) :
    MissionOp.tick.Ends h id w
      (((tickFires h).run M w).1.2.filter fun f => f.mission_id = id)
      ((tickFires h).run M w).2 :=
  ⟨_, _, Prog.ends_of_run hM (tickFires h) w, rfl⟩

private theorem reconciled_ends (h : Host)
    (hwatch : ⟨⟨1⟩, ⟨0⟩, 10 * SECOND⟩ ∈ (lostTick h).2.watchers) :
    (MissionOp.outcome ⟨0⟩ (.completed none) (10 * SECOND)).Ends h ⟨1⟩
      (laterOn (lostTick h).2 (20 * SECOND)) [] (reconciled h).2 := by
  have hends := Prog.ends_of_run (missionMachine_step h ⟨1⟩)
    (processMissionOutcome h ⟨1⟩ ⟨0⟩ (.completed none) (10 * SECOND))
    (laterOn (lostTick h).2 (20 * SECOND))
  exact ⟨rfl, hwatch, (reconciled h).1, hends⟩

/-- The first save is lost, the outcome comes at twenty seconds, the next tick at seventy. -/
private theorem lostSave_run (ok : Host → MissionOp → World → World → Prop) {h : Host}
    (hcron : h.CronAhead) (htick : ∀ w w', ok h .tick w w')
    (hok : ok h (.outcome ⟨0⟩ (.completed none) (10 * SECOND))
      (laterOn (lostTick h).2 (20 * SECOND)) (reconciled h).2)
    (hwatch : ⟨⟨1⟩, ⟨0⟩, 10 * SECOND⟩ ∈ (lostTick h).2.watchers)
    (hclock : (lostTick h).2.clock ≤ 20 * SECOND) (hclock' : (reconciled h).2.clock ≤ 70 * SECOND) :
    MissionRun ⟨1⟩ ok onceWorld
      (((lostTick h).1.2 ++ (nextTick h).1.2).filter fun f => f.mission_id = ⟨1⟩)
      (nextTick h).2 := by
  have hfirst : MissionOp.tick.Ends h ⟨1⟩ onceWorld
      ((lostTick h).1.2.filter fun f => f.mission_id = ⟨1⟩) (lostTick h).2 := by
    rw [lostTick]
    exact tick_ends (lossyMachine_step h ⟨1⟩) onceWorld
  have hlast : MissionOp.tick.Ends h ⟨1⟩ (laterOn (reconciled h).2 (70 * SECOND))
      ((nextTick h).1.2.filter fun f => f.mission_id = ⟨1⟩) (nextTick h).2 := by
    rw [nextTick]
    exact tick_ends (missionMachine_step h ⟨1⟩) _
  have hrun := ((MissionRun.start.op (.refl ⟨1⟩ onceWorld) hcron hfirst (htick _ _)).op
    (leavesAlone_laterOn hclock) hcron (reconciled_ends h hwatch) hok).op
      (leavesAlone_laterOn hclock') hcron hlast (htick _ _)
  rw [List.append_nil, List.nil_append, ← List.filter_append] at hrun
  exact hrun

private theorem onceWorld_new : onceWorld.last_fire_attempt ⟨1⟩ = none ∧
    (∀ x ∈ onceWorld.watchers, x.mission_id ≠ ⟨1⟩) ∧
    ∀ m, onceWorld.missions.get? ⟨1⟩ = some m → ∀ t, m.last_fire_at = some t →
      t < onceWorld.clock := by
  refine ⟨rfl, nofun, fun m hm t ht => ?_⟩
  obtain rfl : onceMission = m := Option.some.inj hm
  cases ht

private theorem onceHost_ahead : onceHost.CronAhead := by
  refine cronAhead_of rfl fun timezone now next hnext => ?_
  split_ifs at hnext with hnow
  rwa [← Option.some.inj hnext]

private theorem steadyHost_ahead : steadyHost.CronAhead := by
  refine cronAhead_of rfl fun timezone now next hnext => ?_
  have hlater : 0 < 50 * SECOND := by decide
  rw [← Option.some.inj hnext]
  exact Int.lt_add_of_pos_right now hlater

/-- The reconciliation finds no other time and leaves the one that has come: a minute after the
first fire the ticker fires for it again. -/
theorem exhausted_schedule_fires_again : ¬ ∀ id w w' fires,
    w.last_fire_attempt id = none → (∀ x ∈ w.watchers, x.mission_id ≠ id) →
    (∀ m, w.missions.get? id = some m → ∀ t, m.last_fire_at = some t → t < w.clock) →
    MissionRun id (fun _ _ _ _ => True) w fires w' → SawDifferent fires := by
  intro hall
  obtain ⟨hnew, hwatch, hpast⟩ := onceWorld_new
  have hdifferent := hall ⟨1⟩ onceWorld _ _ hnew hwatch hpast
    (lostSave_run (fun _ _ _ _ => True) onceHost_ahead (fun _ _ => trivial) trivial
      (by decide +kernel) (by decide +kernel) (by decide +kernel))
  have hfires : (((lostTick onceHost).1.2 ++ (nextTick onceHost).1.2).filter
      fun f => f.mission_id = ⟨1⟩) =
        [⟨⟨1⟩, some (10 * SECOND), 10 * SECOND⟩, ⟨⟨1⟩, some (10 * SECOND), 70 * SECOND⟩] := by
    decide +kernel
  rw [hfires, SawDifferent, List.pairwise_pair] at hdifferent
  exact hdifferent (by decide) rfl

theorem saw_different_sample : ∃ w',
    MissionRun ⟨1⟩ (fun h op w w' => op.Reschedules h ⟨1⟩ w w') onceWorld
      [⟨⟨1⟩, some (10 * SECOND), 10 * SECOND⟩, ⟨⟨1⟩, some (70 * SECOND), 70 * SECOND⟩] w' ∧
      SawDifferent
        [⟨⟨1⟩, some (10 * SECOND), 10 * SECOND⟩, ⟨⟨1⟩, some (70 * SECOND), 70 * SECOND⟩] := by
  obtain ⟨hnew, hwatch, hpast⟩ := onceWorld_new
  have hrun := lostSave_run (fun h op w w' => op.Reschedules h ⟨1⟩ w w') steadyHost_ahead
    (fun _ _ => trivial) ?_ (by decide +kernel) (by decide +kernel) (by decide +kernel)
  · have hfires : (((lostTick steadyHost).1.2 ++ (nextTick steadyHost).1.2).filter
        fun f => f.mission_id = ⟨1⟩) =
          [⟨⟨1⟩, some (10 * SECOND), 10 * SECOND⟩, ⟨⟨1⟩, some (70 * SECOND), 70 * SECOND⟩] := by
      decide +kernel
    rw [hfires] at hrun
    exact ⟨_, hrun, saw_different hnew hwatch hpast hrun⟩
  · intro _ m hm _ expression timezone hcadence next now _ _ _ _
    have hkept : ((laterOn (lostTick steadyHost).2 (20 * SECOND)).missions.get? ⟨1⟩).bind
        cronExpression = some "0 0 9 1 1 * 2026" := by decide +kernel
    rw [hm, Option.bind_some, cronExpression, hcadence] at hkept
    obtain rfl := Option.some.inj hkept
    have hfields : (normalizeCronExpression "0 0 9 1 1 * 2026").isOk = true := by decide +kernel
    rw [nextCronFire, parseCron]
    cases hnormal : normalizeCronExpression "0 0 9 1 1 * 2026" with
    | error e =>
      rw [hnormal] at hfields
      cases hfields
    | ok normalized => exact ⟨_, rfl⟩

end LostSave

end T3Claw
