import T3Claw.Mission.Lifecycle

/-!
# Firing a mission

`fire_mission` with its checks, and what calls it: `tick` for cron missions and
`fire_on_system_event`, `fire_on_message_event` and `fire_on_webhook` for events.

A fire works on one copy of the record from its load to its last save. Every limit is checked
on that copy, the thread is spawned, and only then is the copy, with the thread recorded in
it, written back (`recordFire`); the outcome watcher is installed in between.
-/

namespace T3Claw

open Conc

/-- `FIRE_COOLDOWN`. -/
def FIRE_COOLDOWN : Time := 90 * SECOND

/-- `last_fire_at` lies on an earlier UTC day, or is unknown. -/
def dailyStale (m : Mission) (now : Time) : Bool :=
  match m.last_fire_at with
  | some last => day last < day now
  | none => true

/-- The daily reset: a stale counter is cleared, in the store too. -/
def dailyReset (m : Mission) : Act Mission :=
  if 0 < m.threads_today then do
    let now ← await .now
    if dailyStale m now then do
      await (.saveMission { m with threads_today := 0 })
      pure { m with threads_today := 0 }
    else pure m
  else pure m

/-- The daily budget is used up. -/
def budgetExhausted (m : Mission) : Bool :=
  0 < m.max_threads_per_day && m.max_threads_per_day ≤ m.threads_today

/-- The last fire is less than `cooldown_secs` ago. -/
def onCooldown (m : Mission) : Act Bool :=
  match m.last_fire_at with
  | some last =>
    if 0 < m.cooldown_secs then do
      let now ← await .now
      let elapsed := (now - last).tdiv SECOND
      pure (0 ≤ elapsed && elapsed < m.cooldown_secs)
    else pure false
  | none => pure false

/-- `count_running_threads`, over the reversed history. -/
def countRunningThreads : List ThreadId → Act ℕ
  | [] => pure 0
  | tid :: rest => do
    let thread ← await (.loadThread tid)
    let running ← countRunningThreads rest
    pure (if thread.any fun t => !t.state.isTerminal then running + 1 else running)

/-- `max_concurrent` threads of the mission are running. -/
def concurrencyReached (m : Mission) : Act Bool :=
  if 0 < m.max_concurrent then do
    let running ← countRunningThreads m.thread_history.reverse
    pure (m.max_concurrent.toNat ≤ running)
  else pure false

/-- `check_user_rate`. -/
def checkUserRate (user_id : String) : Act Bool := do
  let now ← await .now
  await (.checkUserRate user_id now)

/-- `record_user_rate`. -/
def recordUserRate (user_id : String) : Act Unit := do
  let now ← await .now
  await (.recordUserRate user_id now)

/-- The workspace documents named in `context_paths` that could be read. -/
def contextBlocks : List String → Act (List (String × String))
  | [] => pure []
  | path :: paths => do
    let content ← await (.readDoc path)
    let blocks ← contextBlocks paths
    match content with
    | some (.ok text) => pure ((path, text) :: blocks)
    | _ => pure blocks

section

variable (h : Host)

/-- The first 500 characters of a document, with an ellipsis when there are more. -/
def docPreview (content : String) : String :=
  String.ofList (content.toList.take 500) ++ if 500 < content.length then "..." else ""

/-- `build_meta_prompt`. -/
def buildMetaPrompt (m : Mission) (project_docs : List KnowledgeDoc)
    (trigger_payload : Option Json) (context_blocks : List (String × String)) : String :=
  let parts :=
    ["# Mission: " ++ m.name ++ "\n\nGoal: " ++ m.goal] ++
    (m.description.map fun text => "\n" ++ text).toList ++
    (m.success_criteria.map fun criteria => "Success criteria: " ++ criteria).toList ++
    (if context_blocks.isEmpty then [] else
      "\n## Loaded Context" ::
        context_blocks.map fun (path, content) => "### " ++ path ++ "\n\n" ++ content) ++
    (match m.current_focus with
      | some focus => ["\n## Current Focus\n" ++ focus]
      | none =>
        if m.thread_history.isEmpty then
          ["\n## Current Focus\nThis is the first run. Start by understanding the goal and " ++
            "determining the first step."]
        else []) ++
    (if m.approach_history.isEmpty then [] else
      "\n## Previous Approaches" ::
        m.approach_history.mapIdx fun i approach => toString (i + 1) ++ ". " ++ approach) ++
    (if project_docs.isEmpty then [] else
      "\n## Knowledge from Prior Threads" :: project_docs.map fun doc =>
        "[" ++ doc.doc_type.label ++ "] " ++ doc.title ++ ": " ++ docPreview doc.content) ++
    (trigger_payload.map fun payload =>
      "\n## Trigger Payload\n```json\n" ++
        String.ofList ((h.to_string_pretty payload).toList.take 1000) ++ "\n```").toList ++
    ["\nThis is thread #" ++ toString (m.thread_history.length + 1) ++ " for this mission.",
      "\n## Instructions\nBased on the above context, take the next step toward the goal. " ++
        "Use tools to gather information, analyze data, or take actions. When done, call " ++
        "FINAL() with your response. Include:\n1. What you accomplished in this step\n" ++
        "2. What the next focus should be (for the next thread)\n" ++
        "3. Whether the goal has been achieved (yes/no)"]
  String.intercalate "\n" parts

/-- The schedule after a fire. An expression that does not parse leaves `next_fire_at` and
`last_fire_at` as they are. -/
def advanced (m : Mission) (fire_instant : Time) : Act Mission :=
  match m.cadence with
  | .cron expression timezone => do
    let now ← await .now
    match nextCronFire h.cron expression timezone now with
    | .ok next => pure { m with next_fire_at := next, last_fire_at := some fire_instant }
    | .error _ => pure m
  | _ => pure { m with last_fire_at := some fire_instant }

/-- `fire_mission` from the spawn on: install the watcher, record the thread in the copy at
hand, arm the cooldown, write the copy back, count the fire for the user. -/
def recordFire (m : Mission) (thread_id : ThreadId) (trigger_payload : Option Json) :
    Act Unit := do
  let fire_instant ← await .now
  await (.spawnOutcomeWatcher m.id thread_id fire_instant)
  let now ← await .now
  let recorded := m.recordThread thread_id now
  let updated ← advanced h { recorded with
    threads_today := recorded.threads_today + 1
    last_trigger_payload := trigger_payload } fire_instant
  await (.insertFireAttempt m.id fire_instant)
  await (.saveMission updated)
  recordUserRate m.user_id

/-- `fire_mission` once every check has passed. -/
def spawnFire (m : Mission) (user_id : String) (trigger_payload : Option Json) :
    Act (Except EngineError (Option ThreadId)) := do
  let context_blocks ← contextBlocks m.context_paths
  let project_docs ← await (.retrieveContext m.project_id m.user_id m.goal 10)
  let meta_prompt := buildMetaPrompt h m project_docs trigger_payload context_blocks
  match ← await (.spawnThread m meta_prompt user_id) with
  | .error e => pure (.error e)
  | .ok thread_id => do
    recordFire h m thread_id trigger_payload
    pure (.ok (some thread_id))

/-- The checks of `fire_mission` on its copy, then the spawn. -/
def checkedFire (m : Mission) (user_id : String) (trigger_payload : Option Json) :
    Act (Except EngineError (Option ThreadId)) := do
  let m ← dailyReset m
  if budgetExhausted m then pure (.ok none)
  else do
    let cooling ← onCooldown m
    if cooling then pure (.ok none)
    else do
      let full ← concurrencyReached m
      if full then pure (.ok none)
      else do
        let rate_ok ← checkUserRate m.user_id
        if !rate_ok then pure (.ok none)
        else do
          let allowed ← await (.budgetAllows m.user_id m.id)
          if !allowed then pure (.ok none)
          else spawnFire h m user_id trigger_payload

/-- `fire_mission`. A paused mission can be fired. -/
def fireMission (id : MissionId) (user_id : String) (trigger_payload : Option Json) :
    Act (Except EngineError (Option ThreadId)) := do
  match ← await (.loadMission id) with
  | none => pure (.error (missionNotFound id))
  | some mission =>
    if !mission.firedBy user_id then pure (.error (missionDenied id user_id))
    else if mission.isTerminal && !(mission.status == .completed && mission.isEventDriven) then
      pure (.ok none)
    else checkedFire h mission user_id trigger_payload

/-! ### What fires missions -/

/-- A cron mission whose next fire has come. -/
def cronDue (m : Mission) (now : Time) : Bool :=
  match m.cadence with
  | .cron .. => m.next_fire_at.any fun next => next ≤ now
  | _ => false

/-- `tick` over the ids of the index. -/
def tickLoop (now : Time) : List MissionId → Act (List ThreadId)
  | [] => pure []
  | mid :: rest => do
    match ← await (.loadMission mid) with
    | none => tickLoop now rest
    | some mission =>
      if mission.status = .active && cronDue mission now then do
        let attempt ← await (.fireAttempt mid)
        -- an attempt the record does not show: its save failed, or its schedule stood still
        if attempt.any fun last =>
            now - last < FIRE_COOLDOWN && mission.last_fire_at ≠ some last then
          tickLoop now rest
        else do
          match ← fireMission h mid mission.user_id none with
          | .ok (some tid) => do
            let spawned ← tickLoop now rest
            pure (tid :: spawned)
          | _ => tickLoop now rest
      else tickLoop now rest

/-- `tick`; an error of one mission never stops the others. -/
def tick : Act (Except EngineError (List ThreadId)) := do
  let active_ids ← await .readActive
  let now ← await .now
  await (.pruneFireAttempts now FIRE_COOLDOWN)
  let spawned ← tickLoop h now active_ids
  pure (.ok spawned)

/-- `payload_matches_filters`. -/
def payloadMatchesFilters (filters : List (String × Json)) (payload : Option Json) : Bool :=
  filters.isEmpty ||
    match payload with
    | some (.obj fields) => filters.all fun f =>
        ((Json.obj fields).get? f.1).any fun actual => actual.eqv f.2
    | _ => false

/-- `as i64`. -/
def asI64 (n : ℕ) : ℤ :=
  if n % 2 ^ 64 < 2 ^ 63 then (n % 2 ^ 64 : ℕ) else (n % 2 ^ 64 : ℕ) - 2 ^ 64

/-- `dedup_event`: the key was seen within the mission's window. -/
def dedupEvent (id : MissionId) (key : String) (window_secs : ℕ) : Act Bool :=
  if window_secs = 0 then pure false
  else do
    let now ← await .now
    await (.dedupEvent id key (asI64 window_secs * SECOND) now)

/-- `event_regex_matches`. -/
def eventRegexMatches (m : Mission) (text : String) : Act Bool :=
  match m.cadence with
  | .onEvent event_pattern _ => do
    match ← await (.cachedRegex m.id) with
    | some cached => pure ((h.regex cached).any fun matches' => matches' text)
    | none => do
      match ← await (.compileRegex m.id event_pattern) with
      | some cached => pure ((h.regex cached).any fun matches' => matches' text)
      | none => pure false
  | _ => pure false

/-- The loop `fire_on_system_event`, `fire_on_message_event` and `fire_on_webhook` share.
`fires` says whether the event is one the mission waits for. -/
def fireOnLoop (fires : Mission → Act Bool) (user_id : String) (payload : Option Json) :
    List MissionId → Act (Except EngineError (List ThreadId))
  | [] => pure (.ok [])
  | mid :: rest => do
    match ← await (.loadMission mid) with
    | none => fireOnLoop fires user_id payload rest
    | some mission =>
      if !mission.isLive || !mission.firedBy user_id then fireOnLoop fires user_id payload rest
      else do
        let hit ← fires mission
        if !hit then fireOnLoop fires user_id payload rest
        else do
          let seen ← dedupEvent mid (h.payload_dedup_key payload) mission.dedup_window_secs
          if seen then fireOnLoop fires user_id payload rest
          else do
            match ← fireMission h mid user_id payload with
            | .error e => pure (.error e)
            | .ok fired => do
              match ← fireOnLoop fires user_id payload rest with
              | .error e => pure (.error e)
              | .ok spawned => pure (.ok (fired.toList ++ spawned))

/-- The mission waits for this system event. -/
def systemEventMatches (source event_type : String) (payload : Option Json) (m : Mission) :
    Act Bool :=
  match m.cadence with
  | .onSystemEvent s et filters =>
    pure (s == source && et == event_type && payloadMatchesFilters filters payload)
  | _ => pure false

/-- The mission waits for messages like this one. -/
def messageMatches (channel text : String) (m : Mission) : Act Bool :=
  match m.cadence with
  | .onEvent _ cadence_channel =>
    if cadence_channel.all fun c => eqIgnoreAsciiCase c channel then eventRegexMatches h m text
    else pure false
  | _ => pure false

/-- The mission is registered at this path. -/
def webhookMatches (webhook_path : String) (m : Mission) : Act Bool :=
  match m.cadence with
  | .webhook path _ => pure (path == webhook_path)
  | _ => pure false

/-- `fire_on_system_event`. -/
def fireOnSystemEvent (source event_type user_id : String) (payload : Option Json) :
    Act (Except EngineError (List ThreadId)) := do
  let active_ids ← await .readActive
  fireOnLoop h (systemEventMatches source event_type payload) user_id payload active_ids

/-- `fire_on_message_event`. -/
def fireOnMessageEvent (channel text user_id : String) (payload : Option Json) :
    Act (Except EngineError (List ThreadId)) := do
  let active_ids ← await .readActive
  fireOnLoop h (messageMatches h channel text) user_id payload active_ids

/-- `fire_on_webhook`. -/
def fireOnWebhook (webhook_path user_id : String) (payload : Option Json) :
    Act (Except EngineError (List ThreadId)) := do
  let active_ids ← await .readActive
  fireOnLoop h (webhookMatches webhook_path) user_id payload active_ids

end

end T3Claw
