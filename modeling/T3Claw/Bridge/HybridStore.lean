import Mathlib.Data.List.Sort
import T3Claw.Bridge.Paths
import T3Claw.Data.KeyedStore

/-!
# The engine store

`HybridStore`: a map in memory for each kind of record, and the pass through the lock of a map
that each of its operations makes before it writes a file. What a pass leaves behind, a
`Record`, is what the operation goes on to write.
-/

namespace T3Claw.Bridge

/-! ### Records -/

/-- `types/thread.rs::Thread`; `rest` is what the store neither reads nor changes. -/
structure Thread where
  id : ThreadId
  goal : String
  project_id : ProjectId
  user_id : String
  state : ThreadState
  created_at : Time
  updated_at : Time
  completed_at : Option Time
  step_count : ℕ
  total_tokens_used : ℕ
  rest : Json

/-- `types/step.rs::Step`. -/
structure Step where
  id : StepId
  thread_id : ThreadId
  sequence : ℕ
  rest : Json

/-- `types/event.rs::ThreadEvent`; the id is an `EventId`. -/
structure ThreadEvent where
  id : ℕ
  thread_id : ThreadId
  timestamp : Time
  rest : Json

/-- `types/project.rs::Project`. -/
structure Project where
  id : ProjectId
  user_id : String
  name : String
  rest : Json

/-- `types/conversation.rs::ConversationSurface`. -/
structure ConversationSurface where
  id : ConversationId
  user_id : String
  rest : Json

/-- What one file holds. The steps and the events of a thread share a file. -/
inductive Record where
  | thread (thread : Thread)
  | steps (thread_id : ThreadId) (steps : List Step)
  | events (thread_id : ThreadId) (events : List ThreadEvent)
  | project (project : Project)
  | conversation (conversation : ConversationSurface)
  | lease (lease : CapabilityLease)
  | mission (mission : Mission)

/-- What a record is of. -/
inductive RecordKey where
  | thread (id : ThreadId)
  | steps (id : ThreadId)
  | events (id : ThreadId)
  | project (id : ProjectId)
  | conversation (id : ConversationId)
  | lease (id : LeaseId)
  | mission (id : MissionId)
  deriving DecidableEq

def Record.key : Record → RecordKey
  | thread t => .thread t.id
  | steps id _ => .steps id
  | events id _ => .events id
  | project p => .project p.id
  | conversation c => .conversation c.id
  | lease l => .lease l.id
  | mission m => .mission m.id

/-! ### The maps -/

/-- The maps of `HybridStore` that hold runtime state. -/
structure HybridStore where
  threads : KeyedStore ThreadId Thread (·.id)
  steps : KeyedStore ThreadId (ThreadId × List Step) Prod.fst
  events : KeyedStore ThreadId (ThreadId × List ThreadEvent) Prod.fst
  projects : KeyedStore ProjectId Project (·.id)
  conversations : KeyedStore ConversationId ConversationSurface (·.id)
  leases : KeyedStore LeaseId CapabilityLease (·.id)
  missions : KeyedStore MissionId Mission (·.id)

namespace HybridStore

/-- `HybridStore::new`. -/
def new : HybridStore := ⟨.empty, .empty, .empty, .empty, .empty, .empty, .empty⟩

/-- The record in memory. -/
def get? (store : HybridStore) : RecordKey → Option Record
  | .thread id => (store.threads.get? id).map .thread
  | .steps id => (store.steps.get? id).map fun entry => .steps id entry.2
  | .events id => (store.events.get? id).map fun entry => .events id entry.2
  | .project id => (store.projects.get? id).map .project
  | .conversation id => (store.conversations.get? id).map .conversation
  | .lease id => (store.leases.get? id).map .lease
  | .mission id => (store.missions.get? id).map .mission

section Insert

variable (store : HybridStore) (key : RecordKey)

theorem get?_insertThread (t : Thread) :
    { store with threads := store.threads.insert t }.get? key =
      if key = .thread t.id then some (.thread t) else store.get? key := by
  cases key with
  | thread id => by_cases h : id = t.id <;> simp [get?, KeyedStore.get?_insert, h]
  | _ => simp [get?]

theorem get?_insertSteps (id : ThreadId) (steps : List Step) :
    { store with steps := store.steps.insert (id, steps) }.get? key =
      if key = .steps id then some (.steps id steps) else store.get? key := by
  cases key with
  | steps other => by_cases h : other = id <;> simp [get?, KeyedStore.get?_insert, h]
  | _ => simp [get?]

theorem get?_insertEvents (id : ThreadId) (events : List ThreadEvent) :
    { store with events := store.events.insert (id, events) }.get? key =
      if key = .events id then some (.events id events) else store.get? key := by
  cases key with
  | events other => by_cases h : other = id <;> simp [get?, KeyedStore.get?_insert, h]
  | _ => simp [get?]

theorem get?_insertProject (p : Project) :
    { store with projects := store.projects.insert p }.get? key =
      if key = .project p.id then some (.project p) else store.get? key := by
  cases key with
  | project id => by_cases h : id = p.id <;> simp [get?, KeyedStore.get?_insert, h]
  | _ => simp [get?]

theorem get?_insertConversation (c : ConversationSurface) :
    { store with conversations := store.conversations.insert c }.get? key =
      if key = .conversation c.id then some (.conversation c) else store.get? key := by
  cases key with
  | conversation id => by_cases h : id = c.id <;> simp [get?, KeyedStore.get?_insert, h]
  | _ => simp [get?]

theorem get?_insertLease (l : CapabilityLease) :
    { store with leases := store.leases.insert l }.get? key =
      if key = .lease l.id then some (.lease l) else store.get? key := by
  cases key with
  | lease id => by_cases h : id = l.id <;> simp [get?, KeyedStore.get?_insert, h]
  | _ => simp [get?]

theorem get?_insertMission (m : Mission) :
    { store with missions := store.missions.insert m }.get? key =
      if key = .mission m.id then some (.mission m) else store.get? key := by
  cases key with
  | mission id => by_cases h : id = m.id <;> simp [get?, KeyedStore.get?_insert, h]
  | _ => simp [get?]

end Insert

theorem key_of_get? {store : HybridStore} {key : RecordKey} {record : Record}
    (h : store.get? key = some record) : record.key = key := by
  cases key <;> obtain ⟨v, hv, rfl⟩ := Option.map_eq_some_iff.mp h
  case steps | events => rfl
  all_goals rw [Record.key, ← KeyedStore.key_of_get? hv]

/-- All records in memory. -/
def records (store : HybridStore) : List Record :=
  store.threads.values.map .thread ++ store.steps.values.map (fun e => .steps e.1 e.2) ++
    store.events.values.map (fun e => .events e.1 e.2) ++ store.projects.values.map .project ++
    store.conversations.values.map .conversation ++ store.leases.values.map .lease ++
    store.missions.values.map .mission

theorem mem_records_of_get? {store : HybridStore} {key : RecordKey} {record : Record}
    (h : store.get? key = some record) : record ∈ store.records := by
  simp only [records, List.mem_append]
  cases key <;> obtain ⟨v, hv, rfl⟩ := Option.map_eq_some_iff.mp h <;>
    have hmem := KeyedStore.mem_of_get? hv <;> have hkey := KeyedStore.key_of_get? hv
  · simp [KeyedStore.mem_def.mp hmem]
  · subst hkey
    simp only [List.mem_map]
    exact .inl (.inl (.inl (.inl (.inl (.inr ⟨v, hmem, rfl⟩)))))
  · subst hkey
    simp only [List.mem_map]
    exact .inl (.inl (.inl (.inl (.inr ⟨v, hmem, rfl⟩))))
  · simp [KeyedStore.mem_def.mp hmem]
  · simp [KeyedStore.mem_def.mp hmem]
  · simp [KeyedStore.mem_def.mp hmem]
  · simp [KeyedStore.mem_def.mp hmem]

/-- `project_slug`. -/
def projectSlug (lowercase : List Char → List Char) (store : HybridStore) (id : ProjectId) :
    List Char :=
  match store.projects.get? id with
  | some p => slugify lowercase p.name p.id.uuid
  | none => "unknown--".toList ++ shortId id.uuid

/-- The file of a record: that of a mission depends on the project it belongs to. -/
def recordPath (lowercase : List Char → List Char) (store : HybridStore) : Record → Path
  | .thread t => threadPath t.id
  | .steps id _ => stepPath id
  | .events id _ => eventPath id
  | .project p => projectPath lowercase p.name
  | .conversation c => conversationPath c.id
  | .lease l => leasePath l.id
  | .mission m => missionPath lowercase (store.projectSlug lowercase m.project_id) m.name m.id

theorem recordPath_congr {lowercase : List Char → List Char} {store store' : HybridStore}
    (h : store'.projects = store.projects) :
    store'.recordPath lowercase = store.recordPath lowercase := by
  funext record
  cases record <;> simp only [recordPath, projectSlug, h]

end HybridStore

/-! ### Passes through a lock -/

/-- What an operation does to a map while it holds its lock. -/
inductive Update where
  | insertThread (thread : Thread)
  | setThreadState (id : ThreadId) (state : ThreadState)
  | upsertStep (step : Step)
  | addEvents (thread_id : ThreadId) (events : List ThreadEvent)
  | insertProject (project : Project)
  | insertConversation (conversation : ConversationSurface)
  | insertLease (lease : CapabilityLease)
  | revokeLease (id : LeaseId)
  | insertMission (mission : Mission)
  | setMissionStatus (id : MissionId) (status : MissionStatus) (now : Time)

namespace Update

/-- The record an update is of. -/
def key : Update → RecordKey
  | insertThread t => .thread t.id
  | setThreadState id _ => .thread id
  | upsertStep step => .steps step.thread_id
  | addEvents id _ => .events id
  | insertProject p => .project p.id
  | insertConversation c => .conversation c.id
  | insertLease l => .lease l.id
  | revokeLease id => .lease id
  | insertMission m => .mission m.id
  | setMissionStatus id _ _ => .mission id

/-- The steps with the one of this id replaced, if there is one. -/
def replaceStep (step : Step) : List Step → Option (List Step)
  | [] => none
  | existing :: rest =>
    if existing.id = step.id then some (step :: rest)
    else (replaceStep step rest).map (existing :: ·)

/-- The steps of a thread with one of them saved: in its place, or behind those with no later
sequence number. -/
def saveStep (step : Step) (steps : List Step) : List Step :=
  match replaceStep step steps with
  | some replaced => replaced
  | none => (steps ++ [step]).insertionSort fun a b => a.sequence ≤ b.sequence

/-- The events of a thread with those appended that are not there, by time. -/
def appendNew (events new : List ThreadEvent) : List ThreadEvent :=
  (new.foldl (fun events event =>
    if events.any fun existing => existing.id = event.id then events else events ++ [event])
    events).insertionSort fun a b => a.timestamp ≤ b.timestamp

/-- The maps after an update, and the record a task goes on to write, if there is one. -/
def run (store : HybridStore) : Update → Option Record × HybridStore
  | insertThread t => (some (.thread t), { store with threads := store.threads.insert t })
  | setThreadState id state =>
    match store.threads.get? id with
    | some t =>
      let t := { t with state := state }
      (some (.thread t), { store with threads := store.threads.insert t })
    | none => (none, store)
  | upsertStep step =>
    let steps := saveStep step (((store.steps.get? step.thread_id).map Prod.snd).getD [])
    (some (.steps step.thread_id steps),
      { store with steps := store.steps.insert (step.thread_id, steps) })
  | addEvents id new =>
    let events := appendNew (((store.events.get? id).map Prod.snd).getD []) new
    (some (.events id events), { store with events := store.events.insert (id, events) })
  | insertProject p => (some (.project p), { store with projects := store.projects.insert p })
  | insertConversation c =>
    (some (.conversation c), { store with conversations := store.conversations.insert c })
  | insertLease l => (some (.lease l), { store with leases := store.leases.insert l })
  | revokeLease id =>
    match store.leases.get? id with
    | some l =>
      let l := { l with revoked := true }
      (some (.lease l), { store with leases := store.leases.insert l })
    | none => (none, store)
  | insertMission m => (some (.mission m), { store with missions := store.missions.insert m })
  | setMissionStatus id status now =>
    match store.missions.get? id with
    | some m =>
      let m := { m with status := status, updated_at := now }
      (some (.mission m), { store with missions := store.missions.insert m })
    | none => (none, store)

/-- **What an update does**: it changes the record it is of, and answers what is there then, or
it finds no record and changes nothing. -/
theorem run_spec (store : HybridStore) (u : Update) :
    match u.run store with
    | (some record, later) => record.key = u.key ∧
        ∀ key, later.get? key = if key = u.key then some record else store.get? key
    | (none, later) => later = store ∧ store.get? u.key = none := by
  cases u with
  | insertThread t => exact ⟨rfl, fun key => store.get?_insertThread key t⟩
  | setThreadState id state =>
    cases ht : store.threads.get? id with
    | none => simp [run, ht, key, HybridStore.get?]
    | some t =>
      obtain rfl : t.id = id := KeyedStore.key_of_get? ht
      simp only [run, ht]
      exact ⟨rfl, fun key => store.get?_insertThread key { t with state := state }⟩
  | upsertStep step => exact ⟨rfl, fun key => store.get?_insertSteps key step.thread_id _⟩
  | addEvents id new => exact ⟨rfl, fun key => store.get?_insertEvents key id _⟩
  | insertProject p => exact ⟨rfl, fun key => store.get?_insertProject key p⟩
  | insertConversation c => exact ⟨rfl, fun key => store.get?_insertConversation key c⟩
  | insertLease l => exact ⟨rfl, fun key => store.get?_insertLease key l⟩
  | revokeLease id =>
    cases hl : store.leases.get? id with
    | none => simp [run, hl, key, HybridStore.get?]
    | some l =>
      obtain rfl : l.id = id := KeyedStore.key_of_get? hl
      simp only [run, hl]
      exact ⟨rfl, fun key => store.get?_insertLease key { l with revoked := true }⟩
  | insertMission m => exact ⟨rfl, fun key => store.get?_insertMission key m⟩
  | setMissionStatus id status now =>
    cases hm : store.missions.get? id with
    | none => simp [run, hm, key, HybridStore.get?]
    | some m =>
      obtain rfl : m.id = id := KeyedStore.key_of_get? hm
      simp only [run, hm]
      exact ⟨rfl, fun key => store.get?_insertMission key
        { m with status := status, updated_at := now }⟩

/-- Only saving a project changes the projects. -/
theorem projects_run {u : Update} (h : ∀ p, u ≠ insertProject p) (store : HybridStore) :
    (u.run store).2.projects = store.projects := by
  cases u with
  | insertProject p => exact absurd rfl (h p)
  | setThreadState id state => cases ht : store.threads.get? id <;> simp [run, ht]
  | revokeLease id => cases hl : store.leases.get? id <;> simp [run, hl]
  | setMissionStatus id status now => cases hm : store.missions.get? id <;> simp [run, hm]
  | _ => rfl

end Update

end T3Claw.Bridge
