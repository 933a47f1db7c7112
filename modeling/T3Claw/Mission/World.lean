import Mathlib.Logic.Function.Basic
import T3Claw.Conc.Program
import T3Claw.Executor.Rollback
import T3Claw.Types.Mission
import T3Claw.Types.Thread

/-!
# The state behind the mission manager

What the mission code reads and writes between its awaits: the store (missions, threads,
documents), the in-memory maps of one `MissionManager`, and the clock. One instruction is one
store call or one pass through a lock; `worldExec` says what each answers and does.

`spawn_thread` is one instruction. Its own awaits save a thread record and leases that no
mission operation reads before the id is returned. A thread is known by its position in
`threads`, which only grows, and the record keeps the mission it was spawned for — the source
has that link only from the mission's side.

`Host` collects what the manager is given from outside: the `cron` and `regex` crates,
Unicode case mapping, the JSON printers, the rate limit, the budget gate, the workspace, the
retrieval engine, and the compiled-in texts.
-/

namespace T3Claw

/-- `FireRateLimit`; the window is in nanoseconds. -/
structure FireRateLimit where
  max_fires : UInt32
  window : ℕ

/-- `types/memory.rs::DocType`. -/
inductive DocType where
  | summary
  | lesson
  | issue
  | spec
  | note
  | skill
  | plan
  deriving DecidableEq

/-- The upper-cased `Debug` name of a document type. -/
def DocType.label : DocType → String
  | .summary => "SUMMARY"
  | .lesson => "LESSON"
  | .issue => "ISSUE"
  | .spec => "SPEC"
  | .note => "NOTE"
  | .skill => "SKILL"
  | .plan => "PLAN"

/-- What a prompt shows of a retrieved document. -/
structure KnowledgeDoc where
  doc_type : DocType
  title : String
  content : String

/-- What the manager is built over. -/
structure Host where
  cron : CronCrate
  regex : String → Option (String → Bool)
  to_lowercase : String → String
  to_string_pretty : Json → String
  payload_dedup_key : Option Json → String
  rate_limit : FireRateLimit
  budget_gate : Option (Time → String → MissionId → Bool)
  workspace : Option (Time → String → Except EngineError String)
  retrieve_context : Time → ProjectId → String → String → ℕ → List KnowledgeDoc
  /-- The error a spawn fails with, if it does. -/
  spawn_refusal : Time → String → Option EngineError
  DEFAULT_ORCHESTRATOR : String
  SEED_FIX_PATTERNS : String
  /-- The goal text compiled in for a learning mission, by its name. -/
  learning_goal : String → String

/-- A thread `spawn_thread` made. -/
structure SpawnedThread where
  mission : Option MissionId
  project_id : ProjectId
  user_id : String
  goal : String
  state : ThreadState
  created_at : Time

/-- `MissionNotification`. -/
structure MissionNotification where
  mission_id : MissionId
  mission_name : String
  thread_id : ThreadId
  user_id : String
  notify_channels : List String
  notify_user : Option String
  response : Option String
  is_error : Bool

/-- An outcome watcher waiting for its thread. -/
structure Watcher where
  mission_id : MissionId
  thread_id : ThreadId
  original_fire_at : Time
  deriving DecidableEq

/-- The store and one manager's memory. -/
structure World where
  clock : Time
  missions : MissionStore
  threads : List SpawnedThread
  docs : ProjectId → DocStore
  active : List MissionId
  last_fire_attempt : MissionId → Option Time
  dedup_table : MissionId × String → Option Time
  event_regex_cache : MissionId → Option String
  user_fire_log : String → List Time
  watchers : List Watcher
  notifications : List MissionNotification
  /-- The responses handed to `process_self_improvement_output` and
  `process_skill_repair_output`, which write documents only. -/
  structured_outputs : List (Mission × String)

/-- One await of the mission code. -/
inductive Instr where
  | now
  | loadMission (id : MissionId)
  | saveMission (mission : Mission)
  | updateMissionStatus (id : MissionId) (status : MissionStatus)
  | listMissions (project_id : ProjectId) (user_id : String)
  | listAllMissions (project_id : ProjectId)
  | newMissionId
  | loadThread (id : ThreadId)
  | readActive
  | setActive (ids : List MissionId)
  | pushActive (id : MissionId)
  | pushActiveIfAbsent (id : MissionId)
  | retainActiveNe (id : MissionId)
  | fireAttempt (id : MissionId)
  | insertFireAttempt (id : MissionId) (at' : Time)
  | removeFireAttempt (id : MissionId)
  | pruneFireAttempts (now cooldown : Time)
  | dedupEvent (id : MissionId) (key : String) (window now : Time)
  | cachedRegex (id : MissionId)
  | compileRegex (id : MissionId) (pattern : String)
  | evictRegex (id : MissionId)
  | checkUserRate (user_id : String) (now : Time)
  | recordUserRate (user_id : String) (now : Time)
  | budgetAllows (user_id : String) (id : MissionId)
  | readDoc (path : String)
  | retrieveContext (project_id : ProjectId) (user_id goal : String) (limit : ℕ)
  | spawnThread (mission : Mission) (meta_prompt user_id : String)
  | spawnOutcomeWatcher (id : MissionId) (thread_id : ThreadId) (original_fire_at : Time)
  | processOutput (mission : Mission) (response : String)
  | notify (notification : MissionNotification)
  | seedOrchestrator (project_id : ProjectId)
  | seedFixPatterns (project_id : ProjectId)

/-- What an instruction is answered with. -/
@[reducible] def Answer : Instr → Type
  | .now => Time
  | .loadMission _ => Option Mission
  | .listMissions .. => List Mission
  | .listAllMissions _ => List Mission
  | .newMissionId => MissionId
  | .loadThread _ => Option SpawnedThread
  | .readActive => List MissionId
  | .fireAttempt _ => Option Time
  | .dedupEvent .. => Bool
  | .cachedRegex _ => Option String
  | .compileRegex .. => Option String
  | .checkUserRate .. => Bool
  | .budgetAllows .. => Bool
  | .readDoc _ => Option (Except EngineError String)
  | .retrieveContext .. => List KnowledgeDoc
  | .spawnThread .. => Except EngineError ThreadId
  | _ => Unit

/-- A program of the mission code. -/
abbrev Act := Conc.Prog Instr Answer

def FIX_PATTERN_DB_TITLE : String := "fix_pattern_database"

def FIX_PATTERN_DB_TAG : String := "fix_patterns"

/-- A record with a new status. -/
def Mission.withStatus (m : Mission) (status : MissionStatus) (now : Time) : Mission :=
  { m with status := status, updated_at := now }

@[simp] theorem Mission.id_withStatus (status : MissionStatus) (now : Time) (m : Mission) :
    (m.withStatus status now).id = m.id := rfl

namespace World

/-- An id no mission has, stored or indexed. -/
def freshMissionId (w : World) : MissionId :=
  ⟨((w.missions.values.map fun m => m.id.uuid) ++ w.active.map MissionId.uuid).foldr max 0 + 1⟩

/-- The thread with an id. -/
def thread? (w : World) (id : ThreadId) : Option SpawnedThread := w.threads[id.uuid]?

/-- `Store::update_mission_status`. -/
def setStatus (w : World) (id : MissionId) (status : MissionStatus) : World :=
  { w with
    missions := w.missions.modify id (fun m => m.withStatus status w.clock)
      (Mission.id_withStatus status w.clock) }

theorem mem_setStatus {w : World} {id : MissionId} {status : MissionStatus} {m' : Mission} :
    m' ∈ (w.setStatus id status).missions ↔
      ∃ m ∈ w.missions, (if m.id = id then m.withStatus status w.clock else m) = m' :=
  KeyedStore.mem_modify (Mission.id_withStatus status w.clock)

theorem get?_setStatus {w : World} {id k : MissionId} {status : MissionStatus} :
    (w.setStatus id status).missions.get? k =
      if k = id then (w.missions.get? id).map fun m => m.withStatus status w.clock
      else w.missions.get? k := by
  split
  case isTrue hk =>
    subst hk
    exact KeyedStore.get?_modify_self (Mission.id_withStatus status w.clock)
  case isFalse hk =>
    exact KeyedStore.get?_modify_of_ne (Mission.id_withStatus status w.clock) hk

/-- The log of a user with what has left the window taken off its front. -/
def evicted (w : World) (user_id : String) (cutoff : Time) : List Time :=
  (w.user_fire_log user_id).dropWhile fun ts => ts < cutoff

end World

/-- `mission.rs`: seeding the fix pattern database when a project has none. -/
def seedFixPatterns (seed : String) (s : DocStore) : DocStore :=
  if s.docs.values.any fun d =>
      d.title == FIX_PATTERN_DB_TITLE && d.tags.contains FIX_PATTERN_DB_TAG then s
  else s.create FIX_PATTERN_DB_TITLE [FIX_PATTERN_DB_TAG] (.text seed) (.obj [])

/-- What an instruction answers and does. -/
def worldExec (h : Host) : (i : Instr) → World → Answer i × World
  | .now, w => (w.clock, w)
  | .loadMission id, w => (w.missions.get? id, w)
  | .saveMission m, w => ((), { w with missions := w.missions.insert m })
  | .updateMissionStatus id status, w => ((), w.setStatus id status)
  | .listMissions pid user, w =>
    (w.missions.values.filter fun m => m.project_id = pid && m.user_id == user, w)
  | .listAllMissions pid, w => (w.missions.values.filter fun m => m.project_id = pid, w)
  | .newMissionId, w => (w.freshMissionId, w)
  | .loadThread id, w => (w.thread? id, w)
  | .readActive, w => (w.active, w)
  | .setActive ids, w => ((), { w with active := ids })
  | .pushActive id, w => ((), { w with active := w.active ++ [id] })
  | .pushActiveIfAbsent id, w =>
    ((), if id ∈ w.active then w else { w with active := w.active ++ [id] })
  | .retainActiveNe id, w => ((), { w with active := w.active.filter (· ≠ id) })
  | .fireAttempt id, w => (w.last_fire_attempt id, w)
  | .insertFireAttempt id t, w =>
    ((), { w with last_fire_attempt := Function.update w.last_fire_attempt id (some t) })
  | .removeFireAttempt id, w =>
    ((), { w with last_fire_attempt := Function.update w.last_fire_attempt id none })
  | .pruneFireAttempts now cooldown, w =>
    ((), { w with last_fire_attempt := fun id =>
      (w.last_fire_attempt id).filter fun last => now - last < cooldown })
  | .dedupEvent id key window now, w =>
    if (w.dedup_table (id, key)).any fun last => now - last < window then (true, w)
    else (false, { w with dedup_table := Function.update w.dedup_table (id, key) (some now) })
  | .cachedRegex id, w => (w.event_regex_cache id, w)
  | .compileRegex id pattern, w =>
    -- another task may have compiled first; a pattern that does not compile is not kept
    match w.event_regex_cache id with
    | some cached => (some cached, w)
    | none =>
      if (h.regex pattern).isSome then
        (some pattern,
          { w with event_regex_cache := Function.update w.event_regex_cache id (some pattern) })
      else (none, w)
  | .evictRegex id, w =>
    ((), { w with event_regex_cache := Function.update w.event_regex_cache id none })
  | .checkUserRate user now, w =>
    -- the length is cast to 32 bits before it is compared
    (decide ((w.evicted user (now - h.rate_limit.window)).length % 2 ^ 32 <
        h.rate_limit.max_fires.toNat),
      { w with
        user_fire_log := Function.update w.user_fire_log user
          (w.evicted user (now - h.rate_limit.window)) })
  | .recordUserRate user now, w =>
    ((), { w with
      user_fire_log := Function.update w.user_fire_log user (w.user_fire_log user ++ [now]) })
  | .budgetAllows user id, w =>
    ((h.budget_gate.map fun gate => gate w.clock user id).getD true, w)
  | .readDoc path, w => (h.workspace.map fun reader => reader w.clock path, w)
  | .retrieveContext pid user goal limit, w => (h.retrieve_context w.clock pid user goal limit, w)
  | .spawnThread m goal user, w =>
    match h.spawn_refusal w.clock user with
    | some e =>
      -- the record is saved before a spawn can fail; no mission lists it
      (.error e, { w with threads :=
        w.threads ++ [⟨none, m.project_id, user, goal, .created, w.clock⟩] })
    | none =>
      (.ok ⟨w.threads.length⟩, { w with threads :=
        w.threads ++ [⟨some m.id, m.project_id, user, goal, .created, w.clock⟩] })
  | .spawnOutcomeWatcher id tid t, w => ((), { w with watchers := w.watchers ++ [⟨id, tid, t⟩] })
  | .processOutput m response, w =>
    ((), { w with structured_outputs := w.structured_outputs ++ [(m, response)] })
  | .notify n, w => ((), { w with notifications := w.notifications ++ [n] })
  | .seedOrchestrator pid, w =>
    ((), { w with
      docs := Function.update w.docs pid
        (seedOrchestratorV0 h.DEFAULT_ORCHESTRATOR (w.docs pid)) })
  | .seedFixPatterns pid, w =>
    ((), { w with
      docs := Function.update w.docs pid (seedFixPatterns h.SEED_FIX_PATTERNS (w.docs pid)) })

/-- The machine the mission code runs on. -/
def missionMachine (h : Host) : Conc.Machine Instr Answer World where
  exec := worldExec h

@[simp] theorem exec_missionMachine (h : Host) (i : Instr) (w : World) :
    (missionMachine h).exec i w = worldExec h i w := rfl

/-! ### Which instructions touch what -/

/-- Only two instructions write missions. -/
theorem missions_worldExec {h : Host} {i : Instr} {w : World}
    (hsave : ∀ m, i ≠ .saveMission m) (hstatus : ∀ id s, i ≠ .updateMissionStatus id s) :
    (worldExec h i w).2.missions = w.missions := by
  cases i with
  | saveMission m => exact absurd rfl (hsave m)
  | updateMissionStatus id s => exact absurd rfl (hstatus id s)
  | pushActiveIfAbsent | dedupEvent | spawnThread =>
    simp only [worldExec]
    split <;> rfl
  | compileRegex =>
    simp only [worldExec]
    split
    · rfl
    · split <;> rfl
  | _ => rfl

/-- The instructions on the index. -/
def Instr.touchesIndex : Instr → Bool
  | .setActive _ | .pushActive _ | .pushActiveIfAbsent _ | .retainActiveNe _ => true
  | _ => false

theorem active_worldExec {h : Host} {i : Instr} {w : World} (hi : i.touchesIndex = false) :
    (worldExec h i w).2.active = w.active := by
  cases i with
  | setActive | pushActive | pushActiveIfAbsent | retainActiveNe => cases hi
  | dedupEvent | spawnThread =>
    simp only [worldExec]
    split <;> rfl
  | compileRegex =>
    simp only [worldExec]
    split
    · rfl
    · split <;> rfl
  | _ => rfl

/-- A mission that is stored stays stored. -/
theorem isSome_get?_worldExec {h : Host} {i : Instr} {w : World} {id : MissionId}
    (hs : (w.missions.get? id).isSome = true) :
    ((worldExec h i w).2.missions.get? id).isSome = true := by
  by_cases hsave : ∃ m, i = .saveMission m
  · obtain ⟨m, rfl⟩ := hsave
    rw [worldExec, KeyedStore.get?_insert]
    split
    · rfl
    · exact hs
  by_cases hset : ∃ id s, i = .updateMissionStatus id s
  · obtain ⟨id', s, rfl⟩ := hset
    rw [worldExec, World.get?_setStatus]
    split
    case isTrue hid =>
      rw [Option.isSome_map, ← hid]
      exact hs
    case isFalse => exact hs
  · rw [missions_worldExec (fun m hi => hsave ⟨m, hi⟩) fun id s hi => hset ⟨id, s, hi⟩]
    exact hs

/-- The fresh id is the id of no mission. -/
theorem World.freshMissionId_ne {w : World} {m : Mission} (hm : m ∈ w.missions) :
    w.freshMissionId ≠ m.id := by
  intro h
  have hle : ∀ (l : List ℕ) (n : ℕ), n ∈ l → n ≤ l.foldr max 0 := by
    intro l n hn
    induction l with
    | nil => cases hn
    | cons a l ih =>
      rcases List.mem_cons.mp hn with rfl | hn
      · exact Nat.le_max_left _ _
      · exact (ih hn).trans (Nat.le_max_right _ _)
  have hmem : m.id.uuid ∈ (w.missions.values.map fun m => m.id.uuid) ++
      w.active.map MissionId.uuid :=
    List.mem_append_left _ (List.mem_map_of_mem (f := fun m : Mission => m.id.uuid) hm)
  have hbound := hle _ _ hmem
  have huuid : w.freshMissionId.uuid = m.id.uuid := congrArg MissionId.uuid h
  rw [World.freshMissionId] at huuid
  dsimp only at huuid
  omega

end T3Claw
