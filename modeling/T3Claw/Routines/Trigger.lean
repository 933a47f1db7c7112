import Mathlib.Logic.Equiv.Nat
import T3Claw.Routines.Execute

/-!
# Firing routines

The five ways a routine is fired (`check_cron_triggers`, `check_event_triggers`,
`emit_system_event`, `fire_manual`, `fire_webhook`) with the checks each of them makes, the
event cache, and the `routine_update` tool. The automatic ones hand a future to
`tokio::spawn` (`spawn_fire`) that records the run and then executes it; the other two record
the run themselves.
-/

namespace T3Claw.Routines

open Conc

/-! ### The checks -/

/-- `is_owned_by`. -/
def Routine.isOwnedBy (routine : Routine) (user_id : String) : Bool := routine.user_id == user_id

/-- The cooldown in force. -/
def RoutineGuardrails.cooldownDuration (guardrails : RoutineGuardrails) : ℤ :=
  (chronoFromStd guardrails.cooldown).getD (300 * SECOND)

/-- `check_cooldown`. -/
def checkCooldown (routine : Routine) : EngineProg Bool :=
  match routine.last_run_at with
  | some last_run => do
    let now ← EngineInstr.utcNow.act
    pure (!(now - last_run < routine.guardrails.cooldownDuration))
  | none => pure true

/-- `check_concurrent`, and what had been recorded then. -/
def checkConcurrent (routine : Routine) : EngineProg (Bool × ℕ) := do
  match ← (EngineInstr.countRunning routine.id).act with
  | .ok count => pure (count.value < routine.guardrails.max_concurrent, count.seen)
  | .error _ => pure (false, 0)

/-- `truncate`. -/
def truncate (s : String) (max : ℕ) : String :=
  if Text.byteLength s.toList ≤ max then s
  else String.ofList (Text.floorCharBoundary max s.toList) ++ "..."

/-! ### Recording and spawning -/

/-- The run a fire makes. -/
def newRun (id : RunId) (routine : Routine) (trigger_type : String)
    (trigger_detail : Option String) (started_at : Time) : RoutineRun where
  id := id
  routine_id := routine.id
  trigger_type := trigger_type
  trigger_detail := trigger_detail
  started_at := started_at
  completed_at := none
  status := .running
  result_summary := none
  tokens_used := none
  job_id := none

/-- `spawn_fire`. -/
def spawnFire (routine : Routine) (trigger_type : String) (trigger_detail : Option String)
    (checks : Checks) : EngineProg Unit := do
  let id ← EngineInstr.newRunId.act
  let started_at ← EngineInstr.utcNow.act
  let run := newRun id routine trigger_type trigger_detail started_at
  (EngineInstr.spawn (.fire routine run checks)).act

/-- The end of `fire_manual` and `fire_webhook`: the run is recorded, then executed by a task of
its own. -/
def recordAndSpawn (routine : Routine) (trigger_type : String) (trigger_detail : Option String)
    (checks : Checks) : EngineProg (Except RoutineError RunId) := do
  let run_id ← EngineInstr.newRunId.act
  let started_at ← EngineInstr.utcNow.act
  let run := newRun run_id routine trigger_type trigger_detail started_at
  match ← (EngineInstr.createRoutineRun run checks).act with
  | .error e => pure (.error (.database ("failed to create run record: " ++ e)))
  | .ok () =>
    (EngineInstr.spawn (.execute routine run checks)).act
    pure (.ok run_id)

/-- What a spawned future does. -/
def Spawned.execution (h : Engine) : Spawned → EngineProg Unit
  | fire routine run checks => do
    match ← (EngineInstr.createRoutineRun run checks).act with
    | .error _ => pure ()
    | .ok () => executeRoutine h routine run checks
  | execute routine run checks => executeRoutine h routine run checks

/-! ### Cron -/

/-- `check_cron_triggers`, the due routines in turn. -/
def fireDue (h : Engine) : List Routine → EngineProg Unit
  | [] => pure ()
  | routine :: rest => do
    let load ← EngineInstr.loadRunningCount.act
    if load.value ≥ h.config.max_concurrent_routines then pure ()
    else
      let cool ← checkCooldown routine
      if !cool then fireDue h rest
      else
        let (free, counted) ← checkConcurrent routine
        if !free then fireDue h rest
        else
          let detail := match routine.trigger with
            | .cron schedule _ => some schedule
            | _ => none
          spawnFire routine "cron" detail ⟨counted, load.seen⟩
          fireDue h rest

/-- `check_cron_triggers`. -/
def checkCronTriggers (h : Engine) : EngineProg Unit := do
  match ← EngineInstr.listDueCronRoutines.act with
  | .error _ => pure ()
  | .ok routines => fireDue h routines

/-! ### Events -/

/-- What is read of an `IncomingMessage`. -/
structure IncomingMessage where
  user_id : String
  channel : String

/-- `routine_matches_message`. -/
def routineMatchesMessage (routine : Routine) (message : IncomingMessage) : Bool :=
  match routine.trigger with
  | .event channel _ =>
    routine.isOwnedBy message.user_id &&
      channel.all fun ch => eqIgnoreAsciiCase ch message.channel
  | _ => false

/-- `TriggeredRoutine`, with what it was admitted on. -/
structure TriggeredRoutine where
  routine : Routine
  detail : String
  checks : Checks

/-- The checks on a routine that an event is for: cooldown, the counts loaded for the whole
batch, the capacity. -/
def admitEvent (h : Engine) (counts : RoutineId → Reading) (routine : Routine) :
    EngineProg (Option Checks) := do
  let cool ← checkCooldown routine
  if !cool then pure none
  else if (counts routine.id).value ≥ routine.guardrails.max_concurrent then pure none
  else
    let load ← EngineInstr.loadRunningCount.act
    if load.value ≥ h.config.max_concurrent_routines then pure none
    else pure (some ⟨(counts routine.id).seen, load.seen⟩)

/-- `matching_event_triggers`, the matchers in turn. -/
def matchEach (h : Engine) (message : IncomingMessage) (content : String)
    (counts : RoutineId → Reading) : List EventMatcher → EngineProg (List TriggeredRoutine)
  | [] => pure []
  | .system _ :: rest => matchEach h message content counts rest
  | .message routine regex :: rest =>
    if !routineMatchesMessage routine message || !regex content then
      matchEach h message content counts rest
    else do
      let admitted ← admitEvent h counts routine
      let triggered ← matchEach h message content counts rest
      match admitted with
      | none => pure triggered
      | some checks => pure (⟨routine, truncate content 200, checks⟩ :: triggered)

/-- The routines of the matchers for messages, or of those for system events. -/
def EventMatcher.messageRoutine : EventMatcher → Option RoutineId
  | message routine _ => some routine.id
  | system _ => none

def EventMatcher.systemRoutine : EventMatcher → Option RoutineId
  | message .. => none
  | system routine => some routine.id

/-- `matching_event_triggers`. -/
def matchingEventTriggers (h : Engine) (message : IncomingMessage) (content : String) :
    EngineProg (List TriggeredRoutine) := do
  let cache ← EngineInstr.readEventCache.act
  let routine_ids := cache.filterMap EventMatcher.messageRoutine
  if routine_ids.isEmpty then pure []
  else
    match ← (EngineInstr.countRunningBatch routine_ids).act with
    | .error _ => pure []
    | .ok counts => matchEach h message content counts cache

/-- `check_event_triggers`, the fires. -/
def fireTriggered : List TriggeredRoutine → EngineProg Unit
  | [] => pure ()
  | triggered :: rest => do
    spawnFire triggered.routine "event" (some triggered.detail) triggered.checks
    fireTriggered rest

/-- `check_event_triggers`; waiting for the spawned executions adds nothing to
`check_event_triggers_and_wait`. -/
def checkEventTriggers (h : Engine) (message : IncomingMessage) (content : String) :
    EngineProg ℕ := do
  let triggered ← matchingEventTriggers h message content
  fireTriggered triggered
  pure triggered.length

/-- `json_value_as_filter_string`. -/
def jsonValueAsFilterString : Json → Option String
  | .str s => some s
  | .num n => some (toString n)
  | .bool b => some (toString b)
  | _ => none

/-- A system event. -/
structure SystemEvent where
  source : String
  event_type : String
  payload : Json
  user_id : Option String

/-- Whether the routine waits for the event. -/
def SystemEvent.isFor (event : SystemEvent) (routine : Routine) : Bool :=
  match routine.trigger with
  | .systemEvent source event_type filters =>
    eqIgnoreAsciiCase source event.source && eqIgnoreAsciiCase event_type event.event_type &&
      (event.user_id.all fun uid => routine.isOwnedBy uid) &&
      filters.all fun (key, expected) =>
        ((event.payload.get? key).bind jsonValueAsFilterString).any fun actual =>
          eqIgnoreAsciiCase actual expected
  | _ => false

/-- `emit_system_event`, the matchers in turn, and how many have fired. -/
def emitEach (h : Engine) (event : SystemEvent) (counts : RoutineId → Reading) :
    List EventMatcher → EngineProg ℕ
  | [] => pure 0
  | .message .. :: rest => emitEach h event counts rest
  | .system routine :: rest =>
    if !event.isFor routine then emitEach h event counts rest
    else do
      match ← admitEvent h counts routine with
      | none => emitEach h event counts rest
      | some checks =>
        spawnFire routine "system_event"
          (some (truncate (event.source ++ ":" ++ event.event_type) 200)) checks
        let fired ← emitEach h event counts rest
        pure (fired + 1)

/-- `emit_system_event`. -/
def emitSystemEvent (h : Engine) (event : SystemEvent) : EngineProg ℕ := do
  let cache ← EngineInstr.readEventCache.act
  let routine_ids := cache.filterMap EventMatcher.systemRoutine
  if routine_ids.isEmpty then pure 0
  else
    match ← (EngineInstr.countRunningBatch routine_ids).act with
    | .error _ => pure 0
    | .ok counts => emitEach h event counts cache

/-! ### By hand and by webhook -/

/-- `fire_manual`. -/
def fireManual (routine_id : RoutineId) (user_id : Option String) :
    EngineProg (Except RoutineError RunId) := do
  match ← (EngineInstr.getRoutine routine_id).act with
  | .error e => pure (.error (.database e))
  | .ok none => pure (.error (.notFound routine_id))
  | .ok (some routine) =>
    if user_id.any fun uid => !routine.isOwnedBy uid then
      pure (.error (.notAuthorized routine_id))
    else if !routine.enabled then pure (.error (.disabled routine.name))
    else
      let (free, counted) ← checkConcurrent routine
      if !free then pure (.error (.maxConcurrent routine.name))
      else recordAndSpawn routine "manual" none ⟨counted, 0⟩

/-- `fire_webhook`. -/
def fireWebhook (h : Engine) (routine_id : RoutineId) (webhook_path : String) :
    EngineProg (Except RoutineError RunId) := do
  match ← (EngineInstr.getRoutine routine_id).act with
  | .error e => pure (.error (.database e))
  | .ok none => pure (.error (.notFound routine_id))
  | .ok (some routine) =>
    if !routine.enabled then pure (.error (.disabled routine.name))
    else
      let cool ← checkCooldown routine
      if !cool then pure (.error (.cooldown routine.name))
      else
        let (free, counted) ← checkConcurrent routine
        if !free then pure (.error (.maxConcurrent routine.name))
        else
          let load ← EngineInstr.loadRunningCount.act
          if load.value ≥ h.config.max_concurrent_routines then
            pure (.error (.maxConcurrent routine.name))
          else recordAndSpawn routine "webhook" (some webhook_path) ⟨counted, load.seen⟩

/-! ### The cache and edits -/

/-- The matcher of a routine, if it has one. -/
def eventMatcher (crates : Crates) (routine : Routine) : Option EventMatcher :=
  match routine.trigger with
  | .event _ pattern => (crates.regex pattern).map (.message routine)
  | .systemEvent .. => some (.system routine)
  | _ => none

/-- `refresh_event_cache`. -/
def refreshEventCache (h : Engine) : EngineProg Unit := do
  match ← EngineInstr.listEventRoutines.act with
  | .error _ => pure ()
  | .ok routines =>
    (EngineInstr.writeEventCache (routines.filterMap (eventMatcher h.crates))).act

/-- What `routine_update` may be asked to change. -/
structure RoutineUpdate where
  enabled : Option Bool
  prompt : Option String
  max_iterations : Option ℕ
  timezone : Option String
  schedule : Option String

/-- The action with a new prompt and a new number of iterations. -/
def RoutineUpdate.action (params : RoutineUpdate) : RoutineAction → RoutineAction
  | .lightweight prompt context_paths max_tokens use_tools max_tool_rounds =>
    .lightweight (params.prompt.getD prompt) context_paths max_tokens use_tools max_tool_rounds
  | .fullJob title description max_iterations =>
    .fullJob title (params.prompt.getD description)
      (match params.max_iterations with
        | some iters => max 1 (min 200 iters)
        | none => max_iterations)

/-- A new schedule or time zone, with the next fire. -/
def reschedule (h : Engine) (params : RoutineUpdate) (routine : Routine) :
    EngineProg (Except String Routine) :=
  if params.schedule.isNone && params.timezone.isNone then pure (.ok routine)
  else
    match routine.trigger with
    | .cron old_schedule old_tz => do
      let schedule := (params.schedule.map normalizeCronExpression).getD old_schedule
      let timezone := params.timezone.orElse fun _ => old_tz
      let now ← EngineInstr.utcNow.act
      match nextCronFire h.crates schedule timezone now with
      | .error e => pure (.error ("invalid cron schedule: " ++ e.display))
      | .ok _ =>
        let next_fire_at ← nextFire h (.cron schedule timezone)
        pure (.ok { routine with trigger := .cron schedule timezone, next_fire_at })
    | _ => pure (.error "Cannot update schedule or timezone on a non-cron routine.")

/-- An edit that changes what the routine does starts its verification anew. -/
def Routine.reverified (crates : Crates) (original routine : Routine) : Routine :=
  let updated := routineVerificationFingerprint crates routine
  if updated ≠ routineVerificationFingerprint crates original then
    { routine with state := resetRoutineVerificationState crates routine.state updated }
  else routine

/-- `RoutineUpdateTool::execute`; the name stands for the id it is looked up by. -/
def routineUpdate (h : Engine) (routine_id : RoutineId) (name : String)
    (params : RoutineUpdate) : EngineProg (Except String Unit) := do
  match ← (EngineInstr.getRoutine routine_id).act with
  | .error e => pure (.error ("DB error: " ++ e))
  | .ok none => pure (.error ("routine '" ++ name ++ "' not found"))
  | .ok (some original) =>
    let routine := { original with
      enabled := params.enabled.getD original.enabled, action := params.action original.action }
    match params.timezone.filter fun tz => !h.crates.parse_timezone tz with
    | some tz => pure (.error ("invalid IANA timezone: '" ++ tz ++ "'"))
    | none =>
      match ← reschedule h params routine with
      | .error e => pure (.error e)
      | .ok routine =>
        match ← (EngineInstr.updateRoutine original
          (routine.reverified h.crates original)).act with
        | .error e => pure (.error ("failed to update: " ++ e))
        | .ok () =>
          refreshEventCache h
          pure (.ok ())

/-! ### The system -/

/-- What is started: a call on the engine, an edit, or a task that takes a spawned future. -/
inductive EngineCall where
  | checkCronTriggers
  | checkEventTriggers (message : IncomingMessage) (content : String)
  | emitSystemEvent (event : SystemEvent)
  | fireManual (routine_id : RoutineId) (user_id : Option String)
  | fireWebhook (routine_id : RoutineId) (webhook_path : String)
  | syncDispatchedRuns
  | refreshEventCache
  | routineUpdate (routine_id : RoutineId) (name : String) (params : RoutineUpdate)
  | poll (n : ℕ)

/-- What it returns. -/
inductive EngineResult where
  | done
  | fired (n : ℕ)
  | started (result : Except RoutineError RunId)
  | updated (result : Except String Unit)

/-- A task that takes a spawned future. -/
def pollSpawned (h : Engine) (n : ℕ) : EngineProg Unit := do
  match ← (EngineInstr.poll n).act with
  | none => pure ()
  | some future => future.execution h

/-- The code of a call. -/
def EngineCall.code (h : Engine) : EngineCall → EngineProg EngineResult
  | checkCronTriggers => do
    Routines.checkCronTriggers h
    pure .done
  | checkEventTriggers message content => do
    let fired ← Routines.checkEventTriggers h message content
    pure (.fired fired)
  | emitSystemEvent event => do
    let fired ← Routines.emitSystemEvent h event
    pure (.fired fired)
  | fireManual routine_id user_id => do
    let result ← Routines.fireManual routine_id user_id
    pure (.started result)
  | fireWebhook routine_id webhook_path => do
    let result ← Routines.fireWebhook h routine_id webhook_path
    pure (.started result)
  | syncDispatchedRuns => do
    Routines.syncDispatchedRuns h
    pure .done
  | refreshEventCache => do
    Routines.refreshEventCache h
    pure .done
  | routineUpdate routine_id name params => do
    let result ← Routines.routineUpdate h routine_id name params
    pure (.updated result)
  | poll n => do
    pollSpawned h n
    pure .done

/-- Any number of calls on one engine, in any order of their steps. -/
def engineSystem (h : Engine) : System EngineCall EngineEvent EngineInstr EngineInstr.Answer
    EngineState EngineResult where
  exec := EngineState.exec
  code := EngineCall.code h
  env event s := some (event.happen s)

/-- A configuration of the engine. -/
abbrev EngineConf : Type :=
  Conf EngineCall EngineInstr EngineInstr.Answer EngineState EngineResult

/-- The memory of the engine. -/
abbrev EngineMemory : Type := Memory EngineInstr EngineState

/-- One move of it. -/
abbrev EngineMove : Type := Move EngineCall EngineEvent

/-! ### A small instance -/

/-- A call, as the `k`-th task, and the first steps it takes. -/
def call (op : EngineCall) (k n : ℕ) : List EngineMove := .start op :: List.replicate n (.step k)

/-- An hourly schedule, patterns that match everything, a fingerprint that is the schedule
itself, and instants written in unary. -/
def Crates.sample : Crates where
  cron _ := .ok fun _ now => some ((now / (3600 * SECOND) + 1) * (3600 * SECOND))
  parse_timezone _ := false
  regex _ := some fun _ => true
  sha256 value := (((value.get? "trigger").bind (·.get? "schedule")).bind Json.asStr?).getD ""
  rfc3339 t := String.ofList (List.replicate (Equiv.intEquivNat t) 'Z')
  parse_rfc3339 text := some (Equiv.intEquivNat.symm text.length)
  parse_print t := by simp

def Engine.sample (boot_time : Time) : Engine where
  crates := .sample
  config := ⟨10, false⟩
  scheduler := true
  sandbox_readiness := .available
  boot_time := boot_time

/-- A lightweight routine, due every hour. -/
def Routine.sample : Routine where
  id := ⟨1⟩
  name := "digest"
  user_id := "alice"
  enabled := true
  trigger := .cron "0 0 * * * *" none
  action := .lightweight "Summarise the inbox." [] 4096 false 3
  guardrails := ⟨300 * 10 ^ 9, 1, none⟩
  last_run_at := none
  next_fire_at := some 0
  run_count := 0
  consecutive_failures := 0
  state := .obj []

/-- The tables with that routine alone, and a model that has nothing to report. -/
def EngineState.sample : EngineState where
  routines := KeyedStore.empty.insert Routine.sample
  runs := .empty
  jobs _ := none
  store_error := none
  running_count := 0
  event_cache := []
  spawned := []
  reply := .ok (.ok none)
  dispatched := .error "not scheduled"
  now := 0
  drawn := 0
  begun := 0

end T3Claw.Routines
