import T3Claw.Data.KeyedStore
import T3Claw.Data.Text
import T3Claw.Types.Error

/-!
# Missions

`types/mission.rs`: the mission record, what fires it, and the schedule of cron missions.
A mission record is read and written whole. Its status, its accounts (`thread_history`,
`threads_today`, `last_fire_at`) and its results (`approach_history`, `current_focus`) all
sit in the one record, so whoever writes one of them writes back its own copy of the others.

The `cron` crate is a parameter (`CronCrate`): a parsed expression is the function that
finds its next instant in a time zone. Normalising the expression is the engine's own and is
modelled here.
-/

namespace T3Claw

/-- `t3claw_common::ValidTimezone`. -/
structure ValidTimezone where
  name : String
  deriving DecidableEq

/-- `types/mission.rs::MissionStatus`. -/
inductive MissionStatus where
  | active
  | paused
  | completed
  | failed
  deriving DecidableEq, Repr

/-- The `Debug` name of a status. -/
def MissionStatus.debug : MissionStatus → String
  | .active => "Active"
  | .paused => "Paused"
  | .completed => "Completed"
  | .failed => "Failed"

/-- `types/mission.rs::MissionCadence`. -/
inductive MissionCadence where
  | cron (expression : String) (timezone : Option ValidTimezone)
  | onEvent (event_pattern : String) (channel : Option String)
  | onSystemEvent (source event_type : String) (filters : List (String × Json))
  | webhook (path : String) (secret : Option String)
  | manual

/-- `types/mission.rs::Mission`. -/
structure Mission where
  id : MissionId
  project_id : ProjectId
  user_id : String
  name : String
  description : Option String
  goal : String
  status : MissionStatus
  cadence : MissionCadence
  current_focus : Option String
  approach_history : List String
  thread_history : List ThreadId
  success_criteria : Option String
  notify_channels : List String
  notify_user : Option String
  context_paths : List String
  max_threads_per_day : UInt32
  threads_today : UInt32
  cooldown_secs : ℕ
  max_concurrent : UInt32
  dedup_window_secs : ℕ
  last_fire_at : Option Time
  last_trigger_payload : Option Json
  metadata : Json
  created_at : Time
  updated_at : Time
  next_fire_at : Option Time

/-- A cadence that answers outside stimuli. -/
def MissionCadence.isReactive : MissionCadence → Bool
  | .onEvent .. | .onSystemEvent .. | .webhook .. => true
  | .cron .. | .manual => false

namespace Mission

/-- `Mission::new`; the id and the instant are the fresh UUID and the clock. -/
def new (id : MissionId) (now : Time) (project_id : ProjectId) (user_id name goal : String)
    (cadence : MissionCadence) : Mission where
  id := id
  project_id := project_id
  user_id := user_id
  name := name
  description := none
  goal := goal
  status := .active
  cadence := cadence
  current_focus := none
  approach_history := []
  thread_history := []
  success_criteria := none
  notify_channels := []
  notify_user := none
  context_paths := []
  max_threads_per_day := if cadence.isReactive then 24 else 10
  threads_today := 0
  cooldown_secs := if cadence.isReactive then 300 else 0
  max_concurrent := if cadence.isReactive then 1 else 0
  dedup_window_secs := 0
  last_fire_at := none
  last_trigger_payload := none
  metadata := .obj []
  created_at := now
  updated_at := now
  next_fire_at := none

def ownerId (m : Mission) : OwnerId := OwnerId.fromUserId m.user_id

def isOwnedBy (m : Mission) (user_id : String) : Bool := m.ownerId.matchesUser user_id

/-- `Mission::record_thread`. -/
def recordThread (m : Mission) (thread_id : ThreadId) (now : Time) : Mission :=
  { m with thread_history := m.thread_history ++ [thread_id], updated_at := now }

def isTerminal (m : Mission) : Bool := m.status == .completed || m.status == .failed

def isEventDriven (m : Mission) : Bool := m.cadence.isReactive

/-- A mission some event can still fire: it is active, or completed and event-driven. -/
def isLive (m : Mission) : Bool :=
  m.status == .active || (m.status == .completed && m.isEventDriven)

/-- `is_self_improvement_mission` and `is_skill_repair_mission`: a flag in the metadata. -/
def hasFlag (m : Mission) (key : String) : Bool :=
  ((m.metadata.get? key).bind Json.asBool?).getD false

def isSelfImprovement (m : Mission) : Bool := m.hasFlag "self_improvement"

def isSkillRepair (m : Mission) : Bool := m.hasFlag "skill_repair"

/-- Who may manage a mission: its owner, for a shared one the shared owner. -/
def managedBy (m : Mission) (user_id : String) : Bool :=
  if m.ownerId.isShared then isSharedOwner user_id else m.isOwnedBy user_id

/-- Who may fire a mission: its owner, for a shared one anybody. -/
def firedBy (m : Mission) (user_id : String) : Bool :=
  m.ownerId.isShared || m.isOwnedBy user_id

end Mission

/-- The persisted missions. -/
abbrev MissionStore := KeyedStore MissionId Mission Mission.id

/-! ### Schedules -/

/-- The `cron` crate: an expression parses to the function that finds the next instant. -/
abbrev CronCrate := String → Except String (Option ValidTimezone → Time → Option Time)

/-- `is_year_field`. -/
def isYearField (field : List Char) : Bool :=
  field.length == 4 && field.all Char.isDigit &&
    let y := field.foldl (fun n c => 10 * n + (c.toNat - '0'.toNat)) 0
    1970 ≤ y && y ≤ 2099

/-- `normalize_cron_expression`: the seven-field form. -/
def normalizeCronExpression (expression : String) : Except EngineError String :=
  let trimmed := Text.trim expression.toList
  match Text.splitWhitespace trimmed with
  | [a, b, c, d, e] =>
    .ok ("0 " ++ String.intercalate " " ([a, b, c, d, e].map String.ofList) ++ " *")
  | [a, b, c, d, e, last] =>
    if isYearField last then
      -- the reading `min hr dom mon dow year` is refused, not guessed
      .error <| .invalidCadence <|
        "ambiguous 6-field cron expression '" ++ expression ++ "': the trailing '" ++
        String.ofList last ++ "' looks like a year. The 6-field form is `sec min hr dom mon " ++
        "dow`, NOT the Quartz `min hr dom mon dow year`. Use the explicit 7-field form `0 " ++
        String.intercalate " " ([a, b, c, d, e, last].map String.ofList) ++
        "` to mean 'at the given time in " ++ String.ofList last ++ "'."
    else .ok (String.intercalate " " ([a, b, c, d, e, last].map String.ofList) ++ " *")
  | [_, _, _, _, _, _, _] => .ok (String.ofList trimmed)
  | fields =>
    .error <| .invalidCadence <| "invalid cron expression '" ++ expression ++
      "': expected 5, 6, or 7 fields, got " ++ toString fields.length

/-- The schedule of an expression. -/
def parseCron (cron : CronCrate) (expression : String) :
    Except EngineError (Option ValidTimezone → Time → Option Time) :=
  match normalizeCronExpression expression with
  | .error e => .error e
  | .ok normalized =>
    match cron normalized with
    | .error e => .error <| .invalidCadence <|
        "invalid cron expression '" ++ expression ++ "': " ++ e
    | .ok schedule => .ok schedule

/-- `next_cron_fire` at an instant. -/
def nextCronFire (cron : CronCrate) (expression : String) (timezone : Option ValidTimezone)
    (now : Time) : Except EngineError (Option Time) :=
  (parseCron cron expression).map fun schedule => schedule timezone now

/-- `next_cron_fire_required` at an instant. -/
def nextCronFireRequired (cron : CronCrate) (expression : String)
    (timezone : Option ValidTimezone) (now : Time) : Except EngineError Time :=
  match nextCronFire cron expression timezone now with
  | .error e => .error e
  | .ok (some next) => .ok next
  | .ok none => .error <| .invalidCadence <| "cron expression '" ++ expression ++
      "' has no upcoming fire time (year-locked or otherwise unschedulable)"

/-- Whether a schedule is found depends on the expression, not on the instant. -/
theorem isOk_nextCronFire {cron : CronCrate} {expression : String} {tz : Option ValidTimezone}
    {now : Time} :
    (nextCronFire cron expression tz now).isOk = (parseCron cron expression).isOk := by
  rw [nextCronFire]
  cases parseCron cron expression <;> rfl

end T3Claw
