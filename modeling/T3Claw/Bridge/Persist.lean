import T3Claw.Bridge.HybridStore
import T3Claw.Conc.System

/-!
# Calls on the engine store at once

Every call changes a map under its lock, lets the lock go, and then writes the record it left
there to the workspace. Two calls on one record may write in the other order than they changed
the map, and the file then keeps what the earlier one saw. The files agree with the memory
after any number of calls when each write finds no later version of its record in the file, no
other record with the same file, and its record in no other file (`filesAgree_of_returned`).
-/

namespace T3Claw.Bridge

open Conc

/-! ### Instructions -/

/-- A record as an update left it. The version is for statements only: the code writes the
record. -/
structure Snapshot where
  record : Record
  version : ℕ

structure StoredFile where
  path : Path
  snapshot : Snapshot

/-- The maps, the files, and how often each record has been changed. -/
structure StoreState where
  store : HybridStore
  files : KeyedStore Path StoredFile (·.path)
  versions : RecordKey → ℕ

inductive StoreInstr where
  | update (u : Update)
  | projectSlug (id : ProjectId)
  | persist (path : Path) (snapshot : Snapshot)

abbrev StoreReply : StoreInstr → Type
  | .update _ => Option Snapshot
  | .projectSlug _ => List Char
  | .persist .. => Unit

namespace StoreState

variable (lowercase : List Char → List Char)

/-- A pass through the lock of a map. -/
def update (s : StoreState) (u : Update) : Option Snapshot × StoreState :=
  match u.run s.store with
  | (some record, store) =>
    let version := s.versions u.key + 1
    (some ⟨record, version⟩,
      { s with store := store, versions := Function.update s.versions u.key version })
  | (none, store) => (none, { s with store := store })

/-- `persist_json`. -/
def persist (s : StoreState) (path : Path) (snapshot : Snapshot) : StoreState :=
  { s with files := s.files.insert ⟨path, snapshot⟩ }

def exec : (i : StoreInstr) → StoreState → StoreReply i × StoreState
  | .update u, s => s.update u
  | .projectSlug id, s => (s.store.projectSlug lowercase id, s)
  | .persist path snapshot, s => ((), s.persist path snapshot)

end StoreState

/-! ### Calls -/

abbrev StoreProg : Type := Prog StoreInstr StoreReply Unit

def perform (i : StoreInstr) : Prog StoreInstr StoreReply (StoreReply i) := Prog.perform i

/-- Write what an update has left, if it found its record. -/
def persistJson (path : Path) : Option Snapshot → StoreProg
  | some snapshot => perform (.persist path snapshot)
  | none => pure ()

/-- The events of a thread, for each thread there are events of. `order` stands for the order
the hash map is iterated in. -/
def groupEvents (events : List ThreadEvent) (order : List ThreadId) :
    List (ThreadId × List ThreadEvent) :=
  let ids := events.map (·.thread_id)
  ((order.filter (· ∈ ids)) ++ ids).eraseDups.map fun id =>
    (id, events.filter fun event => event.thread_id = id)

inductive StoreCall where
  | saveThread (thread : Thread)
  | updateThreadState (id : ThreadId) (state : ThreadState)
  | saveStep (step : Step)
  | appendEvents (events : List ThreadEvent) (order : List ThreadId)
  | saveLease (lease : CapabilityLease)
  | revokeLease (id : LeaseId)
  | saveMission (mission : Mission)
  | updateMissionStatus (id : MissionId) (status : MissionStatus) (now : Time)

namespace StoreCall

variable (lowercase : List Char → List Char)

/-- `save_thread`. -/
def save_thread (thread : Thread) : StoreProg := do
  let saved ← perform (.update (.insertThread thread))
  persistJson (threadPath thread.id) saved

/-- `update_thread_state`. -/
def update_thread_state (id : ThreadId) (state : ThreadState) : StoreProg := do
  let updated ← perform (.update (.setThreadState id state))
  persistJson (threadPath id) updated

/-- `save_step`. -/
def save_step (step : Step) : StoreProg := do
  let snapshot ← perform (.update (.upsertStep step))
  persistJson (stepPath step.thread_id) snapshot

/-- The loop of `append_events`. -/
def appendGroups : List (ThreadId × List ThreadEvent) → StoreProg
  | [] => pure ()
  | (thread_id, new_events) :: grouped => do
    let snapshot ← perform (.update (.addEvents thread_id new_events))
    persistJson (eventPath thread_id) snapshot
    appendGroups grouped

/-- `append_events`. -/
def append_events (events : List ThreadEvent) (order : List ThreadId) : StoreProg :=
  appendGroups (groupEvents events order)

/-- `save_lease`. -/
def save_lease (lease : CapabilityLease) : StoreProg := do
  let saved ← perform (.update (.insertLease lease))
  persistJson (leasePath lease.id) saved

/-- `revoke_lease`. -/
def revoke_lease (id : LeaseId) : StoreProg := do
  let updated ← perform (.update (.revokeLease id))
  persistJson (leasePath id) updated

/-- `save_mission`. -/
def save_mission (mission : Mission) : StoreProg := do
  let proj_slug ← perform (.projectSlug mission.project_id)
  let saved ← perform (.update (.insertMission mission))
  persistJson (missionPath lowercase proj_slug mission.name mission.id) saved

/-- `update_mission_status`. -/
def update_mission_status (id : MissionId) (status : MissionStatus) (now : Time) : StoreProg := do
  let updated ← perform (.update (.setMissionStatus id status now))
  match updated with
  | some ⟨.mission mission, _⟩ =>
    let proj_slug ← perform (.projectSlug mission.project_id)
    persistJson (missionPath lowercase proj_slug mission.name id) updated
  | _ => pure ()

def code : StoreCall → StoreProg
  | saveThread thread => save_thread thread
  | updateThreadState id state => update_thread_state id state
  | saveStep step => save_step step
  | appendEvents events order => append_events events order
  | saveLease lease => save_lease lease
  | revokeLease id => revoke_lease id
  | saveMission mission => save_mission lowercase mission
  | updateMissionStatus id status now => update_mission_status lowercase id status now

end StoreCall

/-- Calls over one store. -/
def storeSystem (lowercase : List Char → List Char) :
    System StoreCall Empty StoreInstr StoreReply StoreState Unit where
  exec := StoreState.exec lowercase
  code := StoreCall.code lowercase
  env e _ := e.elim

abbrev StoreConf : Type := Conf StoreCall StoreInstr StoreReply StoreState Unit

/-! ### What is to hold, and when it does -/

section

variable (lowercase : List Char → List Char)

/-- The file of a record holds it as it is, and no other file holds it otherwise. -/
def StoreState.Settled (s : StoreState) (record : Record) : Prop :=
  s.files.get? (s.store.recordPath lowercase record) =
      some ⟨s.store.recordPath lowercase record, record, s.versions record.key⟩ ∧
    ∀ file ∈ s.files, file.snapshot.record.key = record.key → file.snapshot.record = record

/-- The files agree with the memory. -/
def StoreState.FilesAgree (s : StoreState) : Prop :=
  ∀ key record, s.store.get? key = some record → s.Settled lowercase record

/-- A write that finds no later version of its record in the file, no other record in memory
with the same file, and its record in no other file. -/
def StoreState.LandsInOrder (s : StoreState) (path : Path) (snapshot : Snapshot) : Prop :=
  (∀ file ∈ s.files, file.snapshot.record.key = snapshot.record.key →
      file.path = path ∧ file.snapshot.version ≤ snapshot.version) ∧
    ∀ record ∈ s.store.records, s.store.recordPath lowercase record = path →
      record.key = snapshot.record.key

instance (s : StoreState) (path : Path) (snapshot : Snapshot) :
    Decidable (s.LandsInOrder lowercase path snapshot) :=
  inferInstanceAs (Decidable ((∀ file ∈ s.files.values, _ → _) ∧ _))

/-- Every write lands in order. -/
def writesInOrder (c : StoreConf) : Move StoreCall Empty → Bool
  | .step k =>
    match c.tasks[k]? with
    | some ⟨_, .act (.persist path snapshot) _⟩ =>
      decide (c.state.LandsInOrder lowercase path snapshot)
    | _ => true
  | _ => true

end

/-! ### What a task still has to write -/

variable {lowercase : List Char → List Char} {base : HybridStore}

/-- The snapshot a task has taken and not yet written, the projects being those of `base`. -/
inductive Owes (lowercase : List Char → List Char) (base : HybridStore) :
    Option Snapshot → StoreProg → Prop
  | done : Owes lowercase base none (.done ())
  | update {u : Update} {f : Option Snapshot → StoreProg} (hu : ∀ p, u ≠ .insertProject p)
      (hsome : ∀ {store store' : HybridStore} {record : Record} (version : ℕ),
        u.run store = (some record, store') →
          Owes lowercase base (some ⟨record, version⟩) (f (some ⟨record, version⟩)))
      (hnone : Owes lowercase base none (f none)) : Owes lowercase base none (.act (.update u) f)
  | projectSlug {owed : Option Snapshot} {id : ProjectId} {f : List Char → StoreProg}
      (h : Owes lowercase base owed (f (base.projectSlug lowercase id))) :
      Owes lowercase base owed (.act (.projectSlug id) f)
  | persist {path : Path} {snapshot : Snapshot} {f : Unit → StoreProg}
      (hpath : path = base.recordPath lowercase snapshot.record)
      (h : Owes lowercase base none (f ())) :
      Owes lowercase base (some snapshot) (.act (.persist path snapshot) f)

namespace Owes

/-- Writing what has been taken, and going on. -/
theorem persistJson {path : Path} {saved : Option Snapshot} {f : Unit → StoreProg}
    (hpath : ∀ snapshot, saved = some snapshot →
      path = base.recordPath lowercase snapshot.record)
    (hf : Owes lowercase base none (f ())) :
    Owes lowercase base saved (Bridge.persistJson path saved >>= f) := by
  cases saved with
  | none => exact hf
  | some snapshot => exact .persist (hpath snapshot rfl) hf

/-- The calls that change one map and write to a path known from the record's key. -/
theorem update_persist {u : Update} {path : Path} {f : Unit → StoreProg}
    (hu : ∀ p, u ≠ .insertProject p)
    (hpath : ∀ record : Record, record.key = u.key → path = base.recordPath lowercase record)
    (hf : Owes lowercase base none (f ())) :
    Owes lowercase base none
      (perform (.update u) >>= fun saved => Bridge.persistJson path saved >>= f) := by
  refine .update hu (fun {store store' record} version hrun => ?_) hf
  have hspec := u.run_spec store
  rw [hrun] at hspec
  refine .persistJson (fun snapshot h => ?_) hf
  obtain rfl := Option.some.inj h
  exact hpath record hspec.1

theorem save {u : Update} {path : Path} (hu : ∀ p, u ≠ .insertProject p)
    (hpath : ∀ record : Record, record.key = u.key → path = base.recordPath lowercase record) :
    Owes lowercase base none (perform (.update u) >>= Bridge.persistJson path) := by
  have hpure : ∀ saved, (Bridge.persistJson path saved >>= pure) = Bridge.persistJson path saved :=
    fun saved => by cases saved <;> rfl
  have howes := update_persist (f := pure) hu hpath .done
  simpa only [hpure] using howes

/-- The loop of `append_events`. -/
theorem appendGroups (grouped : List (ThreadId × List ThreadEvent)) :
    Owes lowercase base none (StoreCall.appendGroups grouped) := by
  induction grouped with
  | nil => exact .done
  | cons group grouped ih =>
    refine update_persist (fun p => by simp) (fun record hkey => ?_) ih
    cases record <;> cases hkey
    rfl

/-- **What a call has still to write, at its start**: nothing. -/
theorem code (call : StoreCall) : Owes lowercase base none (call.code lowercase) := by
  cases call with
  | appendEvents events order => exact appendGroups _
  | saveMission mission =>
    refine .projectSlug (.update (by simp) (fun {store store' record} version hrun => ?_) .done)
    obtain rfl : .mission mission = record := by
      simpa [Update.run] using congrArg Prod.fst hrun
    exact .persist rfl .done
  | updateMissionStatus id status now =>
    refine .update (by simp) (fun {store store' record} version hrun => ?_) .done
    have hspec := (Update.setMissionStatus id status now).run_spec store
    rw [hrun] at hspec
    cases record with
    | mission m =>
      obtain rfl : m.id = id := by simpa [Record.key, Update.key] using hspec.1
      exact .projectSlug (.persist rfl .done)
    | _ => cases hspec.1
  | _ =>
    refine save (fun p => by simp) fun record hkey => ?_
    cases record <;> simp only [Record.key, Update.key, reduceCtorEq, RecordKey.thread.injEq,
      RecordKey.steps.injEq, RecordKey.lease.injEq] at hkey
    rw [HybridStore.recordPath, hkey]

/-- A task owes one snapshot at most. -/
theorem unique {owed owed' : Option Snapshot} {prog : StoreProg}
    (h : Owes lowercase base owed prog) (h' : Owes lowercase base owed' prog) : owed = owed' := by
  induction h with
  | done => cases h'; rfl
  | update => cases h'; rfl
  | projectSlug _ ih =>
    cases h' with
    | projectSlug h' => exact ih h'
  | persist => cases h'; rfl

end Owes

/-! ### The invariant -/

/-- A snapshot is of the record as it is, or of an earlier version. -/
def StoreState.Taken (s : StoreState) (snapshot : Snapshot) : Prop :=
  snapshot.version ≤ s.versions snapshot.record.key ∧
    (snapshot.version = s.versions snapshot.record.key →
      s.store.get? snapshot.record.key = some snapshot.record)

section Update

variable {s : StoreState} {u : Update} {record : Record} {store : HybridStore}

/-- What has been taken of a record is of an earlier version once the record has changed. -/
theorem taken_update (hrun : u.run s.store = (some record, store)) {snapshot : Snapshot}
    (h : s.Taken snapshot) : (s.update u).2.Taken snapshot := by
  have hspec := u.run_spec s.store
  rw [hrun] at hspec
  obtain ⟨hle, heq⟩ := h
  by_cases hkey : snapshot.record.key = u.key
  · rw [hkey] at hle
    simp only [StoreState.Taken, StoreState.update, hrun, hkey, Function.update_self]
    exact ⟨by omega, fun h => by omega⟩
  · simp only [StoreState.Taken, StoreState.update, hrun, Function.update_of_ne hkey]
    refine ⟨hle, fun h => ?_⟩
    rw [hspec.2, if_neg hkey]
    exact heq h

/-- The snapshot an update takes is of the record as it is then. -/
theorem taken_update_self (hrun : u.run s.store = (some record, store)) :
    (s.update u).2.Taken ⟨record, s.versions u.key + 1⟩ := by
  have hspec := u.run_spec s.store
  rw [hrun] at hspec
  obtain ⟨hkey, hget⟩ := hspec
  simp only [StoreState.Taken, StoreState.update, hrun, hkey, Function.update_self, le_refl,
    true_and]
  intro _
  rw [hget, if_pos rfl]

/-- An update of another record leaves a file as it is. -/
theorem settled_update (hu : ∀ p, u ≠ .insertProject p)
    (hrun : u.run s.store = (some record, store)) {other : Record} (hkey : other.key ≠ u.key)
    (h : s.Settled lowercase other) : (s.update u).2.Settled lowercase other := by
  have hprojects : store.projects = s.store.projects := by
    have hkeeps := Update.projects_run hu s.store
    rwa [hrun] at hkeeps
  simp only [StoreState.Settled, StoreState.update, hrun, Function.update_of_ne hkey,
    HybridStore.recordPath_congr hprojects]
  exact h

end Update

section Persist

variable {s : StoreState} {path : Path} {snapshot : Snapshot}

/-- A write that lands in order puts the record into its file. -/
theorem settled_persist_self (hpath : s.store.recordPath lowercase snapshot.record = path)
    (hversion : snapshot.version = s.versions snapshot.record.key)
    (hlands : s.LandsInOrder lowercase path snapshot) :
    (s.persist path snapshot).Settled lowercase snapshot.record := by
  subst hpath
  refine ⟨?_, fun file hfile hkey => ?_⟩
  · simp only [StoreState.persist, KeyedStore.get?_insert, if_pos, ← hversion]
  · obtain rfl | ⟨hfile, hne⟩ := KeyedStore.mem_insert.mp hfile
    · rfl
    · exact absurd (hlands.1 file hfile hkey).1 hne

/-- And leaves what is in another file, or is the same, as it is. -/
theorem settled_persist {key : RecordKey} {record : Record}
    (hget : s.store.get? key = some record) (htaken : s.Taken snapshot)
    (hpath : s.store.recordPath lowercase snapshot.record = path)
    (hlands : s.LandsInOrder lowercase path snapshot) (h : s.Settled lowercase record) :
    (s.persist path snapshot).Settled lowercase record := by
  have hkey : record.key = key := HybridStore.key_of_get? hget
  subst hkey
  obtain ⟨hfile, hall⟩ := h
  have hmem := KeyedStore.mem_of_get? hfile
  by_cases hsame : record.key = snapshot.record.key
  · -- the file is the one written, and the snapshot is of the version it holds
    obtain ⟨hp, hle⟩ := hlands.1 _ hmem hsame
    have hversion : snapshot.version = s.versions snapshot.record.key :=
      le_antisymm htaken.1 (by rw [← hsame]; exact hle)
    obtain rfl : snapshot.record = record :=
      Option.some.inj ((htaken.2 hversion).symm.trans (by rw [← hsame]; exact hget))
    exact settled_persist_self hpath hversion hlands
  · have hne : s.store.recordPath lowercase record ≠ path := fun hp =>
      hsame (hlands.2 record (HybridStore.mem_records_of_get? hget) hp)
    refine ⟨?_, fun file hf hk => ?_⟩
    · exact (KeyedStore.get?_insert_of_ne hne).trans hfile
    · obtain rfl | ⟨hf, -⟩ := KeyedStore.mem_insert.mp hf
      · exact absurd hk.symm hsame
      · exact hall file hf hk

end Persist

/-- Task `k` is about to write the snapshot. -/
def StoreConf.Pending (lowercase : List Char → List Char) (base : HybridStore) (c : StoreConf)
    (snapshot : Snapshot) (k : ℕ) : Prop :=
  ∃ (call : StoreCall) (prog : StoreProg), c.tasks[k]? = some ⟨call, prog⟩ ∧
    Owes lowercase base (some snapshot) prog

/-- Every record in memory is in its file or a task is about to write it. -/
structure Backed (lowercase : List Char → List Char) (base : HybridStore) (c : StoreConf) :
    Prop where
  projects : c.state.store.projects = base.projects
  tasks : ∀ t ∈ c.tasks, ∃ owed, Owes lowercase base owed t.prog ∧
    ∀ snapshot, owed = some snapshot → c.state.Taken snapshot
  records : ∀ key record, c.state.store.get? key = some record →
    c.state.Settled lowercase record ∨
      ∃ k, c.Pending lowercase base ⟨record, c.state.versions record.key⟩ k

namespace Backed

variable {c : StoreConf} {k : ℕ} {call : StoreCall}

/-- A step of task `k`, which owes `owed` afterwards. -/
theorem step {i : StoreInstr} {f : StoreReply i → StoreProg} {prog : StoreProg}
    {owed : Option Snapshot} {m : Memory StoreInstr StoreState} (h : Backed lowercase base c)
    (hk : c.tasks[k]? = some ⟨call, .act i f⟩)
    (hprojects : m.state.store.projects = base.projects)
    (htaken : ∀ snapshot, c.state.Taken snapshot → m.state.Taken snapshot)
    (howes : Owes lowercase base owed prog)
    (hnew : ∀ snapshot, owed = some snapshot → m.state.Taken snapshot)
    (hrecords : ∀ key record, m.state.store.get? key = some record →
      m.state.Settled lowercase record ∨ owed = some ⟨record, m.state.versions record.key⟩ ∨
        ∃ j, j ≠ k ∧ c.Pending lowercase base ⟨record, m.state.versions record.key⟩ j) :
    Backed lowercase base ⟨m, c.tasks.set k ⟨call, prog⟩⟩ := by
  refine ⟨hprojects, fun t ht => ?_, fun key record hget => ?_⟩
  · obtain ht | rfl := List.mem_or_eq_of_mem_set ht
    · obtain ⟨owed', howes', hold⟩ := h.tasks t ht
      exact ⟨owed', howes', fun snapshot hs => htaken snapshot (hold snapshot hs)⟩
    · exact ⟨owed, howes, hnew⟩
  · obtain hsettled | rfl | ⟨j, hj, call', prog', hj', howes'⟩ := hrecords key record hget
    · exact .inl hsettled
    · have hlt : k < c.tasks.length := (List.getElem?_eq_some_iff.mp hk).1
      exact .inr ⟨k, call, prog, by rw [List.getElem?_set_self hlt], howes⟩
    · exact .inr ⟨j, call', prog', by rw [List.getElem?_set_ne hj.symm]; exact hj', howes'⟩

/-- Who takes care of a record: its file, task `k`, or another task. -/
theorem records_cases {i : StoreInstr} {f : StoreReply i → StoreProg}
    (h : Backed lowercase base c) (hk : c.tasks[k]? = some ⟨call, .act i f⟩) {key : RecordKey}
    {record : Record} (hget : c.state.store.get? key = some record) :
    c.state.Settled lowercase record ∨
      Owes lowercase base (some ⟨record, c.state.versions record.key⟩) (.act i f) ∨
        ∃ j, j ≠ k ∧ c.Pending lowercase base ⟨record, c.state.versions record.key⟩ j := by
  obtain hsettled | ⟨j, call', prog', hj, howes⟩ := h.records key record hget
  · exact .inl hsettled
  · by_cases hjk : j = k
    · subst hjk
      obtain ⟨-, rfl⟩ := Task.mk.inj (Option.some.inj (hj.symm.trans hk))
      exact .inr (.inl howes)
    · exact .inr (.inr ⟨j, hjk, call', prog', hj, howes⟩)

theorem update_step {u : Update} {f : Option Snapshot → StoreProg}
    {log : List (ℕ × StoreInstr)} (h : Backed lowercase base c)
    (hk : c.tasks[k]? = some ⟨call, .act (.update u) f⟩) :
    Backed lowercase base
      ⟨⟨(c.state.update u).2, log⟩, c.tasks.set k ⟨call, f (c.state.update u).1⟩⟩ := by
  obtain ⟨owed, howes, -⟩ := h.tasks _ (List.mem_of_getElem? hk)
  obtain ⟨hu, hsome, hnone⟩ : (∀ p, u ≠ .insertProject p) ∧
      (∀ {store store' record} (version : ℕ), u.run store = (some record, store') →
        Owes lowercase base (some ⟨record, version⟩) (f (some ⟨record, version⟩))) ∧
      Owes lowercase base none (f none) := by
    cases howes with
    | update hu hsome hnone => exact ⟨hu, hsome, hnone⟩
  have hspec := u.run_spec c.state.store
  have hprojects := Update.projects_run hu c.state.store
  cases hrun : u.run c.state.store with
  | mk answer store =>
    rw [hrun] at hspec hprojects
    cases answer with
    | none =>
      -- nothing is stored under the key: the update changes nothing
      have hupdate : c.state.update u = (none, c.state) := by
        simp only [StoreState.update, hrun, hspec.1]
      rw [hupdate]
      refine h.step hk h.projects (fun _ => id) hnone (by simp) fun key record hget => ?_
      obtain hsettled | howes | hpending := h.records_cases hk hget
      · exact .inl hsettled
      · cases howes
      · exact .inr (.inr hpending)
    | some record =>
      have hupdate : (c.state.update u).1 = some ⟨record, c.state.versions u.key + 1⟩ := by
        simp only [StoreState.update, hrun]
      have hstore : (c.state.update u).2.store = store := by
        simp only [StoreState.update, hrun]
      have hversions : (c.state.update u).2.versions =
          Function.update c.state.versions u.key (c.state.versions u.key + 1) := by
        simp only [StoreState.update, hrun]
      rw [hupdate]
      refine h.step hk (by rw [hstore, hprojects, h.projects]) (fun _ => taken_update hrun)
        (hsome _ hrun) (fun snapshot hs => ?_) fun key other hget => ?_
      · obtain rfl := Option.some.inj hs
        exact taken_update_self hrun
      · rw [hstore, hspec.2] at hget
        by_cases hkey : key = u.key
        · rw [if_pos hkey] at hget
          obtain rfl := Option.some.inj hget
          refine .inr (.inl ?_)
          rw [hversions, hspec.1, Function.update_self]
        · rw [if_neg hkey] at hget
          have hother : other.key ≠ u.key := by rwa [HybridStore.key_of_get? hget]
          rw [hversions, Function.update_of_ne hother]
          obtain hsettled | howes | hpending := h.records_cases hk hget
          · exact .inl (settled_update hu hrun hother hsettled)
          · cases howes
          · exact .inr (.inr hpending)

theorem projectSlug_step {id : ProjectId} {f : List Char → StoreProg}
    {log : List (ℕ × StoreInstr)} (h : Backed lowercase base c)
    (hk : c.tasks[k]? = some ⟨call, .act (.projectSlug id) f⟩) :
    Backed lowercase base ⟨⟨c.state, log⟩,
      c.tasks.set k ⟨call, f (c.state.store.projectSlug lowercase id)⟩⟩ := by
  have hslug : c.state.store.projectSlug lowercase id = base.projectSlug lowercase id := by
    rw [HybridStore.projectSlug, HybridStore.projectSlug, h.projects]
  obtain ⟨owed, howes, htaken⟩ := h.tasks _ (List.mem_of_getElem? hk)
  have hf : Owes lowercase base owed (f (base.projectSlug lowercase id)) := by
    cases howes with
    | projectSlug hf => exact hf
  rw [hslug]
  refine h.step hk h.projects (fun _ h => h) hf htaken fun key record hget => ?_
  obtain hsettled | howes' | hpending := h.records_cases hk hget
  · exact .inl hsettled
  · exact .inr (.inl (howes.unique howes'))
  · exact .inr (.inr hpending)

theorem persist_step {path : Path} {snapshot : Snapshot} {f : Unit → StoreProg}
    {log : List (ℕ × StoreInstr)} (h : Backed lowercase base c)
    (hk : c.tasks[k]? = some ⟨call, .act (.persist path snapshot) f⟩)
    (hlands : c.state.LandsInOrder lowercase path snapshot) :
    Backed lowercase base
      ⟨⟨c.state.persist path snapshot, log⟩, c.tasks.set k ⟨call, f ()⟩⟩ := by
  obtain ⟨owed, howes, htaken⟩ := h.tasks _ (List.mem_of_getElem? hk)
  obtain ⟨rfl, rfl, hf⟩ : owed = some snapshot ∧
      path = base.recordPath lowercase snapshot.record ∧ Owes lowercase base none (f ()) := by
    cases howes with
    | persist hpath hf => exact ⟨rfl, hpath, hf⟩
  have htaken : c.state.Taken snapshot := htaken snapshot rfl
  have hpath : c.state.store.recordPath lowercase snapshot.record =
      base.recordPath lowercase snapshot.record := by
    rw [HybridStore.recordPath_congr h.projects]
  refine h.step hk h.projects (fun _ => id) hf (by simp) fun key record hget => ?_
  obtain hsettled | howes | hpending := h.records_cases hk hget
  · exact .inl (settled_persist hget htaken hpath hlands hsettled)
  · cases howes with
    | persist => exact .inl (settled_persist_self hpath rfl hlands)
  · exact .inr (.inr hpending)

/-- Every move keeps what is in the files. -/
theorem next {c' : StoreConf} {m : Move StoreCall Empty} (h : Backed lowercase base c)
    (horder : writesInOrder lowercase c m = true)
    (hnext : (storeSystem lowercase).next c m = some c') : Backed lowercase base c' := by
  rcases m with k | call | e
  · obtain ⟨call, i, f, hk, -, rfl⟩ := System.next_step_eq_some.mp hnext
    cases i with
    | update u => exact h.update_step hk
    | projectSlug id => exact h.projectSlug_step hk
    | persist path snapshot =>
      rw [writesInOrder, hk] at horder
      exact h.persist_step hk (of_decide_eq_true horder)
  · obtain ⟨s, hs, rfl⟩ := System.next_start_eq_some.mp hnext
    obtain rfl := Option.some.inj hs
    refine ⟨h.projects, fun t ht => ?_, fun key record hget => ?_⟩
    · obtain ht | ht := List.mem_append.mp ht
      · exact h.tasks t ht
      · obtain rfl := List.mem_singleton.mp ht
        exact ⟨none, Owes.code call, by simp⟩
    · obtain hsettled | ⟨k, call', prog, hk, howes⟩ := h.records key record hget
      · exact .inl hsettled
      · have hlt : k < c.tasks.length := (List.getElem?_eq_some_iff.mp hk).1
        exact .inr ⟨k, call', prog, by rw [List.getElem?_append_left hlt]; exact hk, howes⟩
  · exact e.elim

end Backed

/-- **The files agree with the memory.** Once all calls have returned, every record in memory
is in its file as it is, and no file holds it otherwise. -/
theorem filesAgree_of_returned {s : StoreState} {c : StoreConf} (hstart : s.FilesAgree lowercase)
    (hreach : (storeSystem lowercase).Reach (fun c m => writesInOrder lowercase c m = true)
      (.idle s) c)
    (hreturned : c.returned = true) : c.state.FilesAgree lowercase := by
  have hbacked : Backed lowercase s.store c := by
    refine hreach.induction ⟨rfl, by simp [Conf.idle], fun key record hget => ?_⟩
      fun _ _ _ hbacked horder hnext => hbacked.next horder hnext
    exact .inl (hstart key record hget)
  intro key record hget
  obtain hsettled | ⟨k, call, prog, hk, howes⟩ := hbacked.records key record hget
  · exact hsettled
  · have hdone := List.all_eq_true.mp hreturned _ (List.mem_of_getElem? hk)
    cases howes <;> cases hdone

/-! ### A revocation overtaken -/

def shellLease : CapabilityLease :=
  ⟨⟨1⟩, ⟨2⟩, "shell", .all, 0, none, none, none, false, none⟩

/-- The lease is saved and revoked, each call writing before the other changes the map. -/
def savedThenRevoked : List (Move StoreCall Empty) :=
  [.start (.saveLease shellLease), .start (.revokeLease shellLease.id), .step 0, .step 0,
    .step 1, .step 1]

theorem filesAgree_of_returned_lease : ∃ c,
    (storeSystem (List.map Char.toLower)).play (.idle ⟨.new, .empty, fun _ => 0⟩)
      savedThenRevoked = some c ∧
    c.state.FilesAgree (List.map Char.toLower) := by
  have hallowed : System.Allowed (storeSystem (List.map Char.toLower))
      (fun c m => writesInOrder (List.map Char.toLower) c m = true)
      (.idle ⟨.new, .empty, fun _ => 0⟩) savedThenRevoked := by
    decide +kernel
  refine ⟨_, rfl, ?_⟩
  refine filesAgree_of_returned (fun key record hget => ?_)
    (System.Reach.init.of_play hallowed rfl) (by decide +kernel)
  cases key <;> cases hget

/-- The lease is revoked before its first write, which then lands last. -/
def revokedBeforeSaved : List (Move StoreCall Empty) :=
  [.start (.saveLease shellLease), .start (.revokeLease shellLease.id), .step 0, .step 1,
    .step 1, .step 0]

/-- All calls have returned, the lease in memory is revoked, and its file says it is not. -/
theorem revocation_lost : ∃ c,
    (storeSystem (List.map Char.toLower)).play (.idle ⟨.new, .empty, fun _ => 0⟩)
      revokedBeforeSaved = some c ∧
    c.returned = true ∧
    c.state.store.get? (.lease shellLease.id) = some (.lease { shellLease with revoked := true }) ∧
    (c.state.files.get? (leasePath shellLease.id)).map (·.snapshot.record) =
      some (.lease shellLease) :=
  ⟨_, rfl, by decide +kernel, rfl, rfl⟩

end T3Claw.Bridge
