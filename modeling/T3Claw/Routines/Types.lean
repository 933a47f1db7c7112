import Mathlib.Data.List.Sort
import T3Claw.Data.Text
import T3Claw.Jobs.State

/-!
# Routines

`agent/routine.rs`: a routine with its trigger, action and guardrails, the runs recorded for it,
and the verification record kept in its `state`. A routine counts as verified when the record
names the fingerprint of the definition it has now, as current and as verified.

Durations are nanoseconds, as instants are.
-/

namespace T3Claw.Routines

open T3Claw.Jobs (JobId JobState)

/-- The `Uuid` of a routine. -/
structure RoutineId where
  uuid : ℕ
  deriving DecidableEq, Repr

/-- The `Uuid` of a run. -/
structure RunId where
  uuid : ℕ
  deriving DecidableEq, Repr

/-- When a routine should fire. -/
inductive Trigger where
  | cron (schedule : String) (timezone : Option String)
  | event (channel : Option String) (pattern : String)
  | systemEvent (source event_type : String) (filters : List (String × String))
  | webhook (path secret : Option String)
  | manual
  deriving DecidableEq

/-- `json!` of an optional string. -/
def optStr : Option String → Json
  | some s => .str s
  | none => .null

namespace Trigger

/-- The string tag stored in the `trigger_type` column. -/
def typeTag : Trigger → String
  | cron .. => "cron"
  | event .. => "event"
  | systemEvent .. => "system_event"
  | webhook .. => "webhook"
  | manual => "manual"

/-- Serialize trigger-specific config to JSON for DB storage. -/
def toConfigJson : Trigger → Json
  | cron schedule timezone =>
    .obj [("schedule", .str schedule), ("timezone", optStr timezone)]
  | event channel pattern => .obj [("pattern", .str pattern), ("channel", optStr channel)]
  | systemEvent source event_type filters =>
    .obj [("source", .str source), ("event_type", .str event_type),
      ("filters", .obj (filters.map fun f => (f.1, .str f.2)))]
  | webhook path secret => .obj [("path", optStr path), ("secret", optStr secret)]
  | manual => .obj []

/-- `routine_engine.rs::trigger_uses_event_cache`. -/
def usesEventCache : Trigger → Bool
  | event .. | systemEvent .. => true
  | _ => false

end Trigger

/-- What happens when a routine fires. -/
inductive RoutineAction where
  | lightweight (prompt : String) (context_paths : List String) (max_tokens : ℕ)
      (use_tools : Bool) (max_tool_rounds : ℕ)
  | fullJob (title description : String) (max_iterations : ℕ)
  deriving DecidableEq

namespace RoutineAction

def typeTag : RoutineAction → String
  | lightweight .. => "lightweight"
  | fullJob .. => "full_job"

def toConfigJson : RoutineAction → Json
  | lightweight prompt context_paths max_tokens use_tools max_tool_rounds =>
    .obj [("prompt", .str prompt), ("context_paths", .arr (context_paths.map .str)),
      ("max_tokens", .num max_tokens), ("use_tools", .bool use_tools),
      ("max_tool_rounds", .num max_tool_rounds)]
  | fullJob title description max_iterations =>
    .obj [("title", .str title), ("description", .str description),
      ("max_iterations", .num max_iterations)]

end RoutineAction

/-- Guardrails to prevent runaway execution. -/
structure RoutineGuardrails where
  cooldown : ℕ
  max_concurrent : ℕ
  dedup_window : Option ℕ
  deriving DecidableEq

/-- A routine, with its runtime state. -/
structure Routine where
  id : RoutineId
  name : String
  user_id : String
  enabled : Bool
  trigger : Trigger
  action : RoutineAction
  guardrails : RoutineGuardrails
  last_run_at : Option Time
  next_fire_at : Option Time
  run_count : ℕ
  consecutive_failures : ℕ
  state : Json

/-- Status of a routine run. -/
inductive RunStatus where
  | running
  | ok
  | attention
  | failed
  deriving DecidableEq, Repr

/-- `Display`. -/
def RunStatus.display : RunStatus → String
  | running => "running"
  | ok => "ok"
  | attention => "attention"
  | failed => "failed"

/-- A single execution of a routine. -/
structure RoutineRun where
  id : RunId
  routine_id : RoutineId
  trigger_type : String
  trigger_detail : Option String
  started_at : Time
  completed_at : Option Time
  status : RunStatus
  result_summary : Option String
  tokens_used : Option ℤ
  job_id : Option JobId

/-- `RoutineError`, the variants the engine produces. -/
inductive RoutineError where
  | invalidCron (reason : String)
  | disabled (name : String)
  | notFound (id : RoutineId)
  | notAuthorized (id : RoutineId)
  | cooldown (name : String)
  | maxConcurrent (name : String)
  | database (reason : String)
  | llmFailed (reason : String) (partial_tokens : Option ℤ) (retryable : Bool)
  | jobDispatchFailed (reason : String)
  | emptyResponse (partial_tokens : Option ℤ)
  | truncatedResponse (partial_tokens : Option ℤ)

namespace RoutineError

/-- `Display`. -/
def display : RoutineError → String
  | invalidCron reason => "Invalid cron expression: " ++ reason
  | disabled name => "Routine " ++ name ++ " is disabled"
  | notFound id => "Routine not found: " ++ uuidText id.uuid
  | notAuthorized id => "Not authorized to trigger routine " ++ uuidText id.uuid
  | cooldown name => "Routine " ++ name ++ " is in cooldown period"
  | maxConcurrent name => "Routine " ++ name ++ " at max concurrent runs"
  | database reason => "Database error: " ++ reason
  | llmFailed reason .. => "LLM call failed: " ++ reason
  | jobDispatchFailed reason => "Failed to dispatch full job: " ++ reason
  | emptyResponse _ => "LLM returned empty content"
  | truncatedResponse _ => "LLM response truncated (finish_reason=length) with no content"

def isRetryable : RoutineError → Bool
  | llmFailed _ _ retryable => retryable
  | emptyResponse _ | truncatedResponse _ => true
  | _ => false

/-- `execute_routine::extract_partial_tokens`. -/
def extractPartialTokens : RoutineError → Option ℤ
  | llmFailed _ partial_tokens _ => partial_tokens
  | emptyResponse partial_tokens | truncatedResponse partial_tokens => partial_tokens
  | _ => none

end RoutineError

/-! ### Third-party code -/

mutual

/-- `util.rs::canonicalize_json_value`: objects in the order of their keys, at every level. -/
def canonicalizeJsonValue : Json → Json
  | .arr items => .arr (canonicalizeItems items)
  | .obj fields => .obj (canonicalizeFields fields)
  | other => other
  termination_by structural value => value

def canonicalizeItems : List Json → List Json
  | [] => []
  | item :: items => canonicalizeJsonValue item :: canonicalizeItems items
  termination_by structural items => items

def canonicalizeField : String × Json → String × Json
  | (key, value) => (key, canonicalizeJsonValue value)
  termination_by structural field => field

def canonicalizeFields : List (String × Json) → List (String × Json)
  | [] => []
  | field :: fields =>
    (canonicalizeFields fields).orderedInsert (fun f g => f.1 ≤ g.1) (canonicalizeField field)
  termination_by structural fields => fields

end

/-- The libraries the engine calls: `cron` (a parsed schedule answers the first instant after a
given one, in a time zone or in UTC), `chrono_tz`, `regex`, the printed SHA-256 of a value's
text, and `chrono`'s RFC 3339 form, which reads back what it writes. -/
structure Crates where
  cron : String → Except String (Option String → Time → Option Time)
  parse_timezone : String → Bool
  regex : String → Option (String → Bool)
  sha256 : Json → String
  rfc3339 : Time → String
  parse_rfc3339 : String → Option Time
  parse_print : ∀ t, parse_rfc3339 (rfc3339 t) = some t

/-- `normalize_cron_expression`. -/
def normalizeCronExpression (schedule : String) : String :=
  let trimmed := Text.trim schedule.toList
  let fields := (Text.splitWhitespace trimmed).map String.ofList
  match fields.length with
  | 5 => "0 " ++ String.intercalate " " fields ++ " *"
  | 6 => String.intercalate " " fields ++ " *"
  | _ => String.ofList trimmed

/-- `next_cron_fire`, at the instant it reads from the clock. -/
def nextCronFire (crates : Crates) (schedule : String) (timezone : Option String) (now : Time) :
    Except RoutineError (Option Time) :=
  match crates.cron (normalizeCronExpression schedule) with
  | .error e => .error (.invalidCron e)
  | .ok upcoming => .ok (upcoming (timezone.filter crates.parse_timezone) now)

/-- `chrono::Duration::from_std`. -/
def chronoFromStd (duration : ℕ) : Option ℤ :=
  if duration ≤ (2 ^ 63 - 1) * 10 ^ 6 then some duration else none

/-! ### The verification record -/

def ROUTINE_VERIFICATION_STATE_KEY : String := "_verification"

structure RoutineVerificationRecord where
  current_fingerprint : String
  verified_fingerprint : Option String
  last_verified_at : Option Time

namespace RoutineVerificationRecord

/-- `to_value`. -/
def toJson (crates : Crates) (record : RoutineVerificationRecord) : Json :=
  .obj [("current_fingerprint", .str record.current_fingerprint),
    ("verified_fingerprint", optStr record.verified_fingerprint),
    ("last_verified_at", optStr (record.last_verified_at.map crates.rfc3339))]

/-- Reading a field with a default; `none` is an error. -/
def optField (value : Json) (name : String) : Option (Option String) :=
  match value.get? name with
  | none | some .null => some none
  | some (.str s) => some (some s)
  | some _ => none

/-- `from_value`. -/
def fromJson (crates : Crates) (value : Json) : Option RoutineVerificationRecord := do
  let current_fingerprint ← (value.get? "current_fingerprint").bind Json.asStr?
  let verified_fingerprint ← optField value "verified_fingerprint"
  let last_verified_at ← match ← optField value "last_verified_at" with
    | none => some none
    | some text => (crates.parse_rfc3339 text).map some
  some ⟨current_fingerprint, verified_fingerprint, last_verified_at⟩

end RoutineVerificationRecord

/-- `routine_state_as_object`. -/
def routineStateAsObject : Json → List (String × Json)
  | .obj fields => fields
  | _ => []

/-- `routine_verification_record`. -/
def routineVerificationRecord (crates : Crates) (state : Json) :
    Option RoutineVerificationRecord :=
  (state.get? ROUTINE_VERIFICATION_STATE_KEY).bind (RoutineVerificationRecord.fromJson crates)

/-- `Map::insert`. -/
def insertField (fields : List (String × Json)) (key : String) (value : Json) :
    List (String × Json) :=
  if fields.any fun f => f.1 == key then
    fields.map fun f => if f.1 == key then (key, value) else f
  else fields ++ [(key, value)]

/-- `write_routine_verification_record`. -/
def writeRoutineVerificationRecord (crates : Crates) (state : Json)
    (record : RoutineVerificationRecord) : Json :=
  .obj (insertField (routineStateAsObject state) ROUTINE_VERIFICATION_STATE_KEY
    (record.toJson crates))

/-- `Duration::as_secs`. -/
def asSecs (duration : ℕ) : ℕ := duration / 10 ^ 9

/-- `routine_verification_fingerprint`. -/
def routineVerificationFingerprint (crates : Crates) (routine : Routine) : String :=
  crates.sha256 (canonicalizeJsonValue (.obj
    [("trigger_type", .str routine.trigger.typeTag),
      ("trigger", routine.trigger.toConfigJson),
      ("action_type", .str routine.action.typeTag),
      ("action", routine.action.toConfigJson),
      ("guardrails", .obj
        [("cooldown_secs", .num (asSecs routine.guardrails.cooldown)),
          ("max_concurrent", .num routine.guardrails.max_concurrent),
          ("dedup_window_secs", match routine.guardrails.dedup_window with
            | some window => .num (asSecs window)
            | none => .null)])]))

/-- `reset_routine_verification_state`. -/
def resetRoutineVerificationState (crates : Crates) (state : Json)
    (current_fingerprint : String) : Json :=
  let record := (routineVerificationRecord crates state).getD ⟨current_fingerprint, none, none⟩
  writeRoutineVerificationRecord crates state { record with current_fingerprint }

/-- `apply_routine_verification_result`. -/
def applyRoutineVerificationResult (crates : Crates) (state : Json)
    (current_fingerprint : String) (status : RunStatus) (now : Time) : Json :=
  match routineVerificationRecord crates state with
  | some record =>
    let record := { record with current_fingerprint }
    let record := if status = .ok then
        { record with
          verified_fingerprint := some current_fingerprint, last_verified_at := some now }
      else record
    writeRoutineVerificationRecord crates state record
  | none =>
    if status = .ok then
      writeRoutineVerificationRecord crates state
        ⟨current_fingerprint, some current_fingerprint, some now⟩
    else state

end T3Claw.Routines
