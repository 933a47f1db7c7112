import T3Claw.Conc.System
import T3Claw.Mission.Fire
import T3Claw.Types.Step

/-!
# What a finished thread leaves behind

`process_mission_outcome_and_notify`, run by the outcome watcher of a mission thread: load
the record, put the thread into its accounts if the fire has not done so yet (`reconcile`),
apply the outcome (`applyOutcome`), write the record back.

The last section puts all operations together as one `System`: the environment moves the
clock and the threads, and an outcome processor starts when the watcher it belongs to has
joined its thread.
-/

namespace T3Claw

open Conc

/-- `u32::saturating_add(1)`. -/
def saturatingSucc (n : UInt32) : UInt32 := if n.toNat + 1 < 2 ^ 32 then n + 1 else n

@[simp] theorem toNat_saturatingSucc (n : UInt32) :
    (saturatingSucc n).toNat = min (n.toNat + 1) (2 ^ 32 - 1) := by
  have hn := n.toNat_lt
  rw [saturatingSucc]
  split
  · rw [UInt32.toNat_add, UInt32.toNat_one, Nat.mod_eq_of_lt (by omega)]
    omega
  · omega

def MAX_NOTIFICATION_RESPONSE_BYTES : ℕ := 4000

/-- `truncate_notification_text`. -/
def truncateNotificationText (text : String) : String :=
  if text.utf8ByteSize ≤ MAX_NOTIFICATION_RESPONSE_BYTES then text
  else String.ofList (takeBytes MAX_NOTIFICATION_RESPONSE_BYTES text.toList) ++ "…"

/-- The response says the goal is achieved. -/
def goalAchieved (lower : List Char) : Bool :=
  Text.contains "goal has been achieved: yes".toList lower ||
    Text.contains "goal achieved: yes".toList lower ||
    Text.contains "mission complete".toList lower

/-- The text after `next focus:`, to the end of its line. The offset is one into the
lower-cased text and the cut is made in the text itself: `none` when that cut panics. -/
def nextFocus (lower text : List Char) : Option (Option (List Char)) :=
  match Text.find? "next focus:".toList lower with
  | none => some none
  | some start =>
    match Text.dropBytes (start + "next focus:".length) text with
    | none => none
    | some after =>
      let next_focus := Text.trim (Text.firstLine after)
      some (if next_focus.isEmpty then none else some next_focus)

/-- What an outcome puts in the record, `none` when the processor panics. -/
def applyOutcome (to_lowercase : String → String) (outcome : ThreadOutcome) (m : Mission) :
    Option Mission :=
  match outcome with
  | .completed (some text) =>
    let lower := (to_lowercase text).toList
    match nextFocus lower text.toList with
    | none => none
    | some focus => some { m with
        status := if goalAchieved lower then .completed else m.status
        current_focus := (focus.map String.ofList).orElse fun _ => m.current_focus
        approach_history := m.approach_history ++ [text] }
  | .failed error => some { m with approach_history := m.approach_history ++ ["FAILED: " ++ error] }
  | .maxIterations => some { m with
      approach_history := m.approach_history ++ ["Hit max iterations without completing"] }
  | .completed none | .stopped | .gatePaused .. => some m

/-- The outcome completes its mission. -/
def completesMission (to_lowercase : String → String) : ThreadOutcome → Bool
  | .completed (some text) => goalAchieved (to_lowercase text).toList
  | _ => false

/-- The text a notification carries, and whether it reports an error. -/
def notifyResponse : ThreadOutcome → Option (String × Bool)
  | .completed (some text) => some (text, false)
  | .failed error => some ("Mission failed: " ++ error, true)
  | .maxIterations => some ("Mission thread hit max iterations without completing", true)
  | _ => none

section

variable (h : Host)

/-- Put the thread into the accounts of a record that lacks it. -/
def reconcile (m : Mission) (thread_id : ThreadId) (original_fire_at : Time) : Act Mission :=
  if thread_id ∈ m.thread_history then pure m
  else do
    let now ← await .now
    let recorded := m.recordThread thread_id now
    let recorded := { recorded with
      threads_today := saturatingSucc recorded.threads_today
      last_fire_at := some original_fire_at }
    match m.cadence with
    | .cron expression timezone => do
      let now ← await .now
      if m.next_fire_at.all fun next => next ≤ now then do
        let now ← await .now
        match nextCronFire h.cron expression timezone now with
        | .ok (some next) => pure { recorded with next_fire_at := some next }
        | _ => pure recorded
      else pure recorded
    | _ => pure recorded

/-- The structured output of a learning mission of one kind. -/
def processOutputIf (kind : Bool) (m : Mission) (text : String) : Act Unit :=
  if kind then await (.processOutput m text) else pure ()

/-- The structured output of a learning mission. -/
def processOutputs (m : Mission) (outcome : ThreadOutcome) : Act Unit :=
  match outcome with
  | .completed (some text) => do
    processOutputIf m.isSelfImprovement m text
    processOutputIf m.isSkillRepair m text
  | _ => pure ()

/-- Tell the channels, if there are any. -/
def notifyOutcome (m : Mission) (thread_id : ThreadId) (outcome : ThreadOutcome) : Act Unit :=
  match notifyResponse outcome with
  | some (text, is_error) =>
    if m.notify_channels.isEmpty then pure ()
    else await (.notify ⟨m.id, m.name, thread_id, m.user_id, m.notify_channels, m.notify_user,
      some (truncateNotificationText text), is_error⟩)
  | none => pure ()

/-- `process_mission_outcome_and_notify`. The answer says whether it ran to its end. -/
def processMissionOutcome (mission_id : MissionId) (thread_id : ThreadId)
    (outcome : ThreadOutcome) (original_fire_at : Time) : Act (Except EngineError Bool) := do
  match ← await (.loadMission mission_id) with
  | none => pure (.ok true)
  | some mission => do
    let mission ← reconcile h mission thread_id original_fire_at
    match applyOutcome h.to_lowercase outcome mission with
    | none => pure (.ok false)
    | some mission => do
      processOutputs mission outcome
      notifyOutcome mission thread_id outcome
      let now ← await .now
      await (.saveMission { mission with updated_at := now })
      pure (.ok true)

end

/-! ### The manager as a whole -/

/-- An operation of `MissionManager`, with its arguments. -/
inductive Op where
  | createMission (project_id : ProjectId) (user_id name goal : String)
      (cadence : MissionCadence) (notify_channels : List String)
  | updateMission (id : MissionId) (user_id : String) (updates : MissionUpdate)
  | pauseMission (id : MissionId) (user_id : String)
  | resumeMission (id : MissionId) (user_id : String)
  | completeMission (id : MissionId)
  | bootstrapProject (project_id : ProjectId)
  | ensureLearningMissions (project_id : ProjectId) (user_id : String)
  | fireMission (id : MissionId) (user_id : String) (trigger_payload : Option Json)
  | tick
  | fireOnSystemEvent (source event_type user_id : String) (payload : Option Json)
  | fireOnMessageEvent (channel text user_id : String) (payload : Option Json)
  | fireOnWebhook (webhook_path user_id : String) (payload : Option Json)
  | processOutcome (mission_id : MissionId) (thread_id : ThreadId) (outcome : ThreadOutcome)
      (original_fire_at : Time)

/-- An operation returned `Ok`, or it returned an error. -/
abbrev Done := Except EngineError Unit

/-- Forget what an operation returned besides its success. -/
def asDone {α : Type} (p : Act (Except EngineError α)) : Act Done :=
  p >>= fun r => pure (r.map fun _ => ())

/-- The program of an operation. -/
def Op.code (h : Host) : Op → Act Done
  | .createMission pid user name goal cadence channels =>
    asDone (T3Claw.createMission h pid user name goal cadence channels)
  | .updateMission id user updates => T3Claw.updateMission h id user updates
  | .pauseMission id user => T3Claw.pauseMission id user
  | .resumeMission id user => T3Claw.resumeMission h id user
  | .completeMission id => T3Claw.completeMission id
  | .bootstrapProject pid => asDone (T3Claw.bootstrapProject h pid)
  | .ensureLearningMissions pid user => T3Claw.ensureLearningMissions h pid user
  | .fireMission id user payload => asDone (T3Claw.fireMission h id user payload)
  | .tick => asDone (T3Claw.tick h)
  | .fireOnSystemEvent source event_type user payload =>
    asDone (T3Claw.fireOnSystemEvent h source event_type user payload)
  | .fireOnMessageEvent channel text user payload =>
    asDone (T3Claw.fireOnMessageEvent h channel text user payload)
  | .fireOnWebhook path user payload => asDone (T3Claw.fireOnWebhook h path user payload)
  | .processOutcome id tid outcome fired_at =>
    asDone (T3Claw.processMissionOutcome h id tid outcome fired_at)

/-- What happens outside the manager. -/
inductive Outside where
  | clock (now : Time)
  | thread (id : ThreadId) (state : ThreadState)

/-- A thread moves along its state machine. -/
def World.moveThread (w : World) (id : ThreadId) (state : ThreadState) : Option World :=
  match w.thread? id with
  | some t =>
    if t.state.canTransitionTo state then
      some { w with threads := w.threads.set id.uuid { t with state := state } }
    else none
  | none => none

/-- The mission manager, its environment and its watchers. -/
def missionSystem (h : Host) : Conc.System Op Outside Instr Answer World Done where
  toMachine := missionMachine h
  code := Op.code h
  start op w :=
    match op with
    | .processOutcome id tid _ fired_at =>
      if ⟨id, tid, fired_at⟩ ∈ w.watchers then
        some { w with watchers := w.watchers.erase ⟨id, tid, fired_at⟩ }
      else none
    | _ => some w
  env e w :=
    match e with
    | .clock now => if w.clock ≤ now then some { w with clock := now } else none
    | .thread id state => w.moveThread id state

/-- A host that refuses nothing: the default rate limit, no budget gate, no workspace, and
crates that accept no expression. -/
def plainHost : Host where
  cron _ := .error "no schedules here"
  regex _ := none
  to_lowercase := id
  to_string_pretty _ := ""
  payload_dedup_key _ := ""
  rate_limit := ⟨100, 3600000000000⟩
  budget_gate := none
  workspace := none
  retrieve_context _ _ _ _ _ := []
  spawn_refusal _ _ := none
  DEFAULT_ORCHESTRATOR := ""
  SEED_FIX_PATTERNS := ""
  learning_goal _ := ""

/-- A manager just made over an empty store. -/
def World.fresh (now : Time) : World where
  clock := now
  missions := KeyedStore.empty
  threads := []
  docs _ := ⟨KeyedStore.empty, 0⟩
  active := []
  last_fire_attempt _ := none
  dedup_table _ := none
  event_regex_cache _ := none
  user_fire_log _ := []
  watchers := []
  notifications := []
  structured_outputs := []

/-- What happens outside leaves the missions alone, and the index. -/
theorem missions_env {h : Host} {e : Outside} {w w' : World}
    (he : (missionSystem h).env e w = some w') :
    w'.missions = w.missions ∧ w'.active = w.active := by
  rcases e with now | ⟨id, state⟩
  · dsimp only [missionSystem] at he
    split at he
    · obtain rfl := Option.some.inj he
      exact ⟨rfl, rfl⟩
    · cases he
  · dsimp only [missionSystem, World.moveThread] at he
    split at he
    · split at he
      · obtain rfl := Option.some.inj he
        exact ⟨rfl, rfl⟩
      · cases he
    · cases he

/-- Starting an operation takes its watcher, and nothing else. -/
theorem start_missionSystem {h : Host} {op : Op} {w w' : World}
    (hs : (missionSystem h).start op w = some w') :
    ∃ ws, w' = { w with watchers := ws } ∧ (∀ x ∈ ws, x ∈ w.watchers) ∧
      ∀ id tid outcome t, op = .processOutcome id tid outcome t → ⟨id, tid, t⟩ ∈ w.watchers := by
  cases op with
  | processOutcome id tid outcome t =>
    dsimp only [missionSystem] at hs
    split at hs
    case isFalse => cases hs
    case isTrue hin =>
      refine ⟨_, (Option.some.inj hs).symm, fun x hx => List.mem_of_mem_erase hx, ?_⟩
      rintro _ _ _ _ ⟨⟩
      exact hin
  | _ =>
    obtain rfl : w = w' := Option.some.inj hs
    refine ⟨w.watchers, rfl, fun _ hx => hx, ?_⟩
    rintro _ _ _ _ ⟨⟩

/-! ### One call after another -/

/-- An operation run with nothing in between. -/
def runOp (h : Host) (op : Op) (w : World) : World :=
  ((op.code h).run (missionMachine h) w).2

/-- An operation that runs to its end, or a step outside. -/
inductive Call where
  | op (op : Op)
  | outside (e : Outside)

namespace World

def call (h : Host) (w : World) : Call → World
  | .op op => runOp h op w
  | .outside e => ((missionSystem h).env e w).getD w

/-- The state after a sequence of calls. -/
def calls (h : Host) (w : World) (cs : List Call) : World := cs.foldl (fun w c => w.call h c) w

/-- Every call of the sequence is `ok` in the state it is made in. -/
def Along (h : Host) (ok : World → Call → Prop) : World → List Call → Prop
  | _, [] => True
  | w, c :: cs => ok w c ∧ Along h ok (w.call h c) cs

/-- What every such call keeps, the sequence keeps. -/
theorem calls_induction {h : Host} {ok : World → Call → Prop} {J : World → Prop}
    (hJ : ∀ w c, J w → ok w c → J (w.call h c)) {w : World} {cs : List Call}
    (hcs : w.Along h ok cs) (hw : J w) : J (w.calls h cs) := by
  induction cs generalizing w with
  | nil => exact hw
  | cons c cs ih => exact ih hcs.2 (hJ w c hw hcs.1)

/-- A store with one mission, made by its owner. -/
def withMission (cadence : MissionCadence) : World :=
  (World.fresh 0).call plainHost
    (.op (.createMission ⟨7⟩ "ada" "watch" "watch the log" cadence []))

end World

end T3Claw
