import T3Claw.Data.Text
import T3Claw.Gate.Store

/-!
# Gates in a file

`gate/persistence.rs`: the gates as one JSON document. An update reads the document, edits
its list of gates and writes it over itself: cut to nothing, then written anew. Every I/O call
on the way can fail; how the calls end is given with the disk.

The store changes its maps before it calls the backend, and does not change them back. So an
`insert` or a `discard` that fails has left everything as it was exactly when it was refused
under the lock (`registration_atomic_iff`).
-/

namespace T3Claw

/-- `PendingGateFile`. -/
structure PendingGateFile where
  version : ℕ
  gates : List PendingGate

/-- What `serde_json` makes of the document. -/
structure GateFileJson where
  to_vec_pretty : PendingGateFile → Except String (List UInt8)
  from_str : String → Except String PendingGateFile

/-- A failed I/O call: the text of the error, and the bytes a `write_all` had written. -/
structure IoFault where
  error : String
  written : ℕ

/-- The content of the file, and how the I/O calls to come end; those not listed succeed. -/
structure Disk where
  content : List UInt8
  calls : List (Option IoFault)

/-- Code that uses the disk and can fail. -/
def DiskM (α : Type) : Type := Disk → Except GateStoreError α × Disk

namespace DiskM

variable {α β : Type}

instance : Monad DiskM where
  pure a := fun d => (.ok a, d)
  bind x f := fun d => match x d with
    | (.ok a, d) => f a d
    | (.error e, d) => (.error e, d)

/-- `Result::map_err(..)?` on a value. -/
def ofExcept (x : Except GateStoreError α) : DiskM α := fun d => (x, d)

/-- An I/O call: `onOk` and `onFault` say what it does to the content. -/
def call (what path : String) (onOk : List UInt8 → List UInt8)
    (onFault : ℕ → List UInt8 → List UInt8) : DiskM Unit := fun d =>
  match d.calls.head?.join with
  | none => (.ok (), ⟨onOk d.content, d.calls.tail⟩)
  | some fault =>
    (.error (.persistence (what ++ " '" ++ path ++ "': " ++ fault.error)),
      ⟨onFault fault.written d.content, d.calls.tail⟩)

/-- An I/O call that leaves the content alone. -/
def io (what path : String) : DiskM Unit := call what path id fun _ => id

/-- The content that is read. -/
def content : DiskM (List UInt8) := fun d => (.ok d.content, d)

/-! ### Success, and the content left behind -/

variable {x : DiskM α} {f : α → DiskM β} {g : Unit → DiskM β} {b : β} {d : Disk}
  {what path : String} {onOk : List UInt8 → List UInt8}
  {onFault : ℕ → List UInt8 → List UInt8}

theorem bind_apply : (x >>= f) d =
    match x d with
    | (.ok a, d) => f a d
    | (.error e, d) => (.error e, d) := rfl

theorem bind_assoc {γ : Type} {h : β → DiskM γ} :
    x >>= f >>= h = x >>= fun a => f a >>= h := by
  funext d
  rw [bind_apply, bind_apply, bind_apply]
  rcases x d with ⟨e | a, d'⟩ <;> rfl

theorem call_ok_iff : (call what path onOk onFault d).1 = .ok () ↔
    d.calls.head?.join = none := by
  rw [call]
  cases d.calls.head?.join with
  | none => exact iff_of_true rfl rfl
  | some fault => exact iff_of_false (nomatch ·) (nomatch ·)

theorem call_bind_ok_iff : ((call what path onOk onFault >>= g) d).1 = .ok b ↔
    d.calls.head?.join = none ∧ (g () ⟨onOk d.content, d.calls.tail⟩).1 = .ok b := by
  rw [bind_apply, call]
  cases d.calls.head?.join with
  | none => exact (and_iff_right rfl).symm
  | some fault => exact iff_of_false (nomatch ·) (nomatch ·.1)

theorem io_bind_ok_iff : ((io what path >>= g) d).1 = .ok b ↔
    d.calls.head?.join = none ∧ (g () ⟨d.content, d.calls.tail⟩).1 = .ok b :=
  call_bind_ok_iff

theorem ofExcept_bind_ok_iff {r : Except GateStoreError α} :
    ((ofExcept r >>= f) d).1 = .ok b ↔ ∃ a, r = .ok a ∧ (f a d).1 = .ok b := by
  cases r with
  | error e => exact iff_of_false (nomatch ·) fun ⟨_, h, _⟩ => nomatch h
  | ok a => exact ⟨fun h => ⟨a, rfl, h⟩, fun ⟨_, ha, h⟩ => by rwa [Except.ok.inj ha]⟩

theorem call_content_of_ok (h : (call what path onOk onFault d).1 = .ok ()) :
    (call what path onOk onFault d).2.content = onOk d.content := by
  rw [call, call_ok_iff.mp h]

theorem content_bind {k : List UInt8 → DiskM β} : (content >>= k) d = k d.content d := rfl

/-- Whatever holds of the content after `x`, and is kept by what follows, holds at the end. -/
theorem bind_content {P : List UInt8 → Prop} (hx : P (x d).2.content)
    (hf : ∀ a, (x d).1 = .ok a → P (f a (x d).2).2.content) : P ((x >>= f) d).2.content := by
  rw [bind_apply]
  revert hx hf
  rcases x d with ⟨e | a, d'⟩
  · exact fun hx _ => hx
  · exact fun _ hf => hf a rfl

/-- `x` keeps a property of the content. -/
def Keeps (P : List UInt8 → Prop) (x : DiskM α) : Prop := ∀ d, P d.content → P (x d).2.content

theorem Keeps.bind {P : List UInt8 → Prop} (hx : Keeps P x) (hf : ∀ a, Keeps P (f a)) :
    Keeps P (x >>= f) := fun d hd => bind_content (hx d hd) fun a _ => hf a _ (hx d hd)

theorem keeps_call {P : List UInt8 → Prop} (hok : ∀ c, P c → P (onOk c))
    (hfault : ∀ n c, P c → P (onFault n c)) : Keeps P (call what path onOk onFault) := by
  intro d hd
  rw [call]
  cases d.calls.head?.join with
  | none => exact hok _ hd
  | some fault => exact hfault _ _ hd

theorem keeps_io {P : List UInt8 → Prop} : Keeps P (io what path) :=
  keeps_call (fun _ => id) fun _ _ => id

end DiskM

/-- None of the next `n` I/O calls fails. -/
def Disk.Quiet (n : ℕ) (d : Disk) : Prop := ∀ outcome ∈ d.calls.take n, outcome = none

theorem Disk.quiet_zero {d : Disk} : d.Quiet 0 := fun _ h => nomatch h

theorem Disk.quiet_succ {n : ℕ} {d : Disk} :
    d.Quiet (n + 1) ↔ d.calls.head?.join = none ∧ Disk.Quiet n ⟨d.content, d.calls.tail⟩ := by
  rcases d with ⟨content, calls⟩
  cases calls with
  | nil => simp [Quiet]
  | cons outcome calls => cases outcome <;> simp [Quiet]

theorem Disk.quiet_add {m n : ℕ} {d : Disk} :
    d.Quiet (m + n) ↔ d.Quiet m ∧ Disk.Quiet n ⟨d.content, d.calls.drop m⟩ := by
  simp only [Quiet, List.take_add, List.mem_append, or_imp, forall_and]

/-- JSON-file persistence for pending gates. `parent` is `Path::parent` of the path. -/
structure FileGatePersistence where
  path : String
  parent : Option String

/-- What the bytes of the file say. -/
def GateFileJson.decode (serde : GateFileJson) (path : String) (content : List UInt8) :
    Except GateStoreError PendingGateFile :=
  match String.fromUTF8? ⟨content.toArray⟩ with
  | none => .error (.persistence
      ("read '" ++ path ++ "': stream did not contain valid UTF-8"))
  | some text =>
    if text.toList.all Text.isWhitespace then .ok ⟨1, []⟩
    else match serde.from_str text with
      | .error e => .error (.persistence ("parse '" ++ path ++ "': " ++ e))
      | .ok state => .ok state

namespace FileGatePersistence

/-- `FileGatePersistence::open_locked_file`. -/
def openLockedFile (file : FileGatePersistence) : DiskM Unit := do
  match file.parent with
  | none => pure ()
  | some parent => DiskM.io "create parent dir" parent
  DiskM.io "open" file.path
  DiskM.io "lock" file.path

/-- `FileGatePersistence::read_state`. -/
def readState (file : FileGatePersistence) (serde : GateFileJson) : DiskM PendingGateFile := do
  DiskM.io "seek" file.path
  DiskM.io "read" file.path
  let content ← DiskM.content
  DiskM.ofExcept (serde.decode file.path content)

/-- `FileGatePersistence::write_state`. The document is written at the start of the file. -/
def writeState (file : FileGatePersistence) (serde : GateFileJson) (state : PendingGateFile) :
    DiskM Unit := do
  let json ← DiskM.ofExcept ((serde.to_vec_pretty state).mapError fun e =>
    .persistence ("serialize '" ++ file.path ++ "': " ++ e))
  DiskM.call "truncate" file.path (fun _ => []) fun _ => id
  DiskM.io "seek" file.path
  DiskM.call "write" file.path (fun content => json ++ content.drop json.length)
    fun n content => json.take n ++ content.drop n
  DiskM.io "write" file.path
  DiskM.io "write" file.path

/-- Read the document, edit its gates, write it. -/
def update (file : FileGatePersistence) (serde : GateFileJson)
    (edit : List PendingGate → List PendingGate) : DiskM Unit := do
  file.openLockedFile
  let state ← file.readState serde
  file.writeState serde { state with gates := edit state.gates }

/-- The gates of a document without those under `key`. -/
def retainOthers (key : PendingGateKey) (gates : List PendingGate) : List PendingGate :=
  gates.filter fun existing => existing.key ≠ key

/-- `FileGatePersistence::save`. -/
def save (file : FileGatePersistence) (serde : GateFileJson) (gate : PendingGate) :
    DiskM Unit :=
  file.update serde fun gates => retainOthers gate.key gates ++ [gate]

/-- `FileGatePersistence::remove`. -/
def remove (file : FileGatePersistence) (serde : GateFileJson) (key : PendingGateKey) :
    DiskM Unit :=
  file.update serde (retainOthers key)

/-- `FileGatePersistence::load_all`. -/
def loadAll (file : FileGatePersistence) (serde : GateFileJson) :
    DiskM (List PendingGate) := do
  file.openLockedFile
  let state ← file.readState serde
  pure state.gates

/-- The file as a backend. -/
def backend (file : FileGatePersistence) (serde : GateFileJson) : GatePersistence Disk where
  save := file.save serde
  remove := file.remove serde
  load_all := file.loadAll serde

/-! ### Updates -/

variable {file : FileGatePersistence} {serde : GateFileJson} {d : Disk} {α : Type} {a : α}
  {edit : List PendingGate → List PendingGate}

/-- The I/O calls of `open_locked_file`. -/
def openCalls (file : FileGatePersistence) : ℕ :=
  match file.parent with
  | none => 2
  | some _ => 3

theorem openLockedFile_bind_ok_iff {g : Unit → DiskM α} :
    ((file.openLockedFile >>= g) d).1 = .ok a ↔ d.Quiet file.openCalls ∧
      (g () ⟨d.content, d.calls.drop file.openCalls⟩).1 = .ok a := by
  rw [openLockedFile, openCalls]
  cases file.parent with
  | none =>
    simp only [DiskM.bind_assoc, DiskM.io_bind_ok_iff, Disk.quiet_succ, Disk.quiet_zero,
      ← List.drop_one, List.drop_drop, Nat.reduceAdd, and_assoc, true_and]
  | some parent =>
    simp only [DiskM.bind_assoc, DiskM.io_bind_ok_iff, Disk.quiet_succ, Disk.quiet_zero,
      ← List.drop_one, List.drop_drop, Nat.reduceAdd, and_assoc, true_and]

theorem readState_bind_ok_iff {g : PendingGateFile → DiskM α} :
    ((file.readState serde >>= g) d).1 = .ok a ↔ d.Quiet 2 ∧
      ∃ state, serde.decode file.path d.content = .ok state ∧
        (g state ⟨d.content, d.calls.drop 2⟩).1 = .ok a := by
  simp only [readState, DiskM.bind_assoc, DiskM.io_bind_ok_iff, DiskM.content_bind,
    DiskM.ofExcept_bind_ok_iff, Disk.quiet_succ, Disk.quiet_zero, ← List.drop_one, List.drop_drop,
    Nat.reduceAdd, and_assoc, true_and]

theorem writeState_ok_iff {state : PendingGateFile} :
    (file.writeState serde state d).1 = .ok () ↔ d.Quiet 5 ∧
      ∃ json, serde.to_vec_pretty state = .ok json := by
  have hjson (json : List UInt8) : ((serde.to_vec_pretty state).mapError fun e =>
      GateStoreError.persistence ("serialize '" ++ file.path ++ "': " ++ e)) = .ok json ↔
        serde.to_vec_pretty state = .ok json := by
    cases serde.to_vec_pretty state <;> simp [Except.mapError]
  simp only [writeState, DiskM.ofExcept_bind_ok_iff, DiskM.call_bind_ok_iff, DiskM.io,
    DiskM.call_ok_iff, hjson, Disk.quiet_succ, Disk.quiet_zero, and_true]
  rw [exists_and_right, and_comm]

/-- The disk lets an update through: no I/O call fails, the content is a document, and the
edited document can be written. -/
def Updates (file : FileGatePersistence) (serde : GateFileJson)
    (edit : List PendingGate → List PendingGate) (d : Disk) : Prop :=
  d.Quiet (file.openCalls + 7) ∧ ∃ state, serde.decode file.path d.content = .ok state ∧
    ∃ json, serde.to_vec_pretty { state with gates := edit state.gates } = .ok json

/-- An update goes through exactly when the disk lets it. -/
theorem update_ok_iff : (file.update serde edit d).1 = .ok () ↔ file.Updates serde edit d := by
  rw [update, openLockedFile_bind_ok_iff, readState_bind_ok_iff, Updates, Disk.quiet_add,
    Disk.quiet_add (m := 2) (n := 5)]
  simp only [writeState_ok_iff, List.drop_drop]
  constructor
  · rintro ⟨hopen, hread, state, hstate, hwrite, hjson⟩
    exact ⟨⟨hopen, hread, hwrite⟩, state, hstate, hjson⟩
  · rintro ⟨⟨hopen, hread, hwrite⟩, state, hstate, hjson⟩
    exact ⟨hopen, hread, state, hstate, hwrite, hjson⟩

/-! ### What a failed update leaves in the file -/

theorem keeps_openLockedFile {P : List UInt8 → Prop} : DiskM.Keeps P file.openLockedFile := by
  have hopen : DiskM.Keeps P (do DiskM.io "open" file.path; DiskM.io "lock" file.path) :=
    DiskM.keeps_io.bind fun _ => DiskM.keeps_io
  rw [openLockedFile]
  cases file.parent with
  | none => exact hopen
  | some parent => exact DiskM.keeps_io.bind fun _ => hopen

theorem keeps_readState {P : List UInt8 → Prop} : DiskM.Keeps P (file.readState serde) :=
  DiskM.keeps_io.bind fun _ => DiskM.keeps_io.bind fun _ => fun _ => id

theorem decode_of_readState {state : PendingGateFile}
    (h : (file.readState serde d).1 = .ok state) :
    serde.decode file.path d.content = .ok state := by
  rw [readState, DiskM.io_bind_ok_iff, DiskM.io_bind_ok_iff] at h
  exact h.2.2

/-- Writing a document over a beginning of it. -/
private theorem write_prefix {json c : List UInt8} (n : ℕ) (hc : c <+: json) :
    json.take n ++ c.drop n <+: json := by
  obtain ⟨rest, rfl⟩ := hc
  obtain hn | hn := le_total n c.length
  · rw [List.take_append_of_le_length hn, List.take_append_drop]
    exact List.prefix_append c rest
  · rw [List.drop_eq_nil_of_le hn, List.append_nil]
    exact List.take_prefix n _

theorem writeState_content {state : PendingGateFile} :
    (file.writeState serde state d).2.content = d.content ∨
      ∃ json, serde.to_vec_pretty state = .ok json ∧
        (file.writeState serde state d).2.content <+: json := by
  let P : List UInt8 → Prop := fun c => c = d.content ∨
    ∃ json, serde.to_vec_pretty state = .ok json ∧ c <+: json
  change P _
  refine DiskM.bind_content (.inl rfl) fun json hmap => ?_
  have hjson : serde.to_vec_pretty state = .ok json := by
    cases hser : serde.to_vec_pretty state with
    | error e =>
      rw [hser] at hmap
      cases hmap
    | ok json' =>
      rw [hser] at hmap
      exact congrArg Except.ok (Except.ok.inj hmap)
  refine DiskM.bind_content ?_ fun _ htrunc => ?_
  · exact DiskM.keeps_call (fun _ _ => .inr ⟨json, hjson, List.nil_prefix⟩) (fun _ _ => id) d
      (.inl rfl)
  · -- from here on the file holds a beginning of the document, at first an empty one
    refine .inr ⟨json, hjson, ?_⟩
    have hwrite : DiskM.Keeps (· <+: json) (DiskM.call "write" file.path
        (fun content => json ++ content.drop json.length)
        fun n content => json.take n ++ content.drop n) :=
      DiskM.keeps_call (fun c hc => by simpa using write_prefix json.length hc) fun n _ =>
        write_prefix n
    refine DiskM.Keeps.bind (P := (· <+: json)) DiskM.keeps_io (fun _ => hwrite.bind fun _ =>
      DiskM.keeps_io.bind fun _ => DiskM.keeps_io) _ ?_
    rw [DiskM.call_content_of_ok htrunc]
    exact List.nil_prefix

/-- Whether or not it goes through, an update leaves the content as it was or a beginning of
the edited document. -/
theorem update_content : (file.update serde edit d).2.content = d.content ∨
    ∃ state json, serde.decode file.path d.content = .ok state ∧
      serde.to_vec_pretty { state with gates := edit state.gates } = .ok json ∧
      (file.update serde edit d).2.content <+: json := by
  have hopen : (file.openLockedFile d).2.content = d.content :=
    keeps_openLockedFile (P := (· = d.content)) d rfl
  let P : List UInt8 → Prop := fun c => c = d.content ∨ ∃ state json,
    serde.decode file.path d.content = .ok state ∧
      serde.to_vec_pretty { state with gates := edit state.gates } = .ok json ∧ c <+: json
  change P _
  refine DiskM.bind_content (.inl hopen) fun _ _ => ?_
  refine DiskM.bind_content (keeps_readState _ (.inl hopen)) fun state hstate => ?_
  have hdecode := decode_of_readState hstate
  rw [hopen] at hdecode
  have hread : (file.readState serde (file.openLockedFile d).2).2.content = d.content :=
    keeps_readState (P := (· = d.content)) _ hopen
  obtain hkept | ⟨json, hjson, hpre⟩ := @writeState_content file serde
    (file.readState serde (file.openLockedFile d).2).2 { state with gates := edit state.gates }
  · exact .inl (hkept.trans hread)
  · exact .inr ⟨state, json, hdecode, hjson, hpre⟩

end FileGatePersistence

/-! ### Registration -/

/-- A call that registers a gate or drops one. -/
inductive Registration where
  | insert (gate : PendingGate)
  | discard (key : PendingGateKey)

/-- A store in front of a file, or without a backend. -/
def PendingGateStore.onDisk (serde : GateFileJson) (file : Option FileGatePersistence)
    (inner : StoreInner) (disk : Disk) : PendingGateStore Disk :=
  ⟨inner, file.map (·.backend serde), disk⟩

namespace Registration

/-- `PendingGateStore::insert` and `PendingGateStore::discard`. -/
def perform (st : PendingGateStore Disk) :
    Registration → Except GateStoreError Unit × PendingGateStore Disk
  | insert gate => st.insert gate
  | discard key => st.discard key

/-- The lock section turns the call away: the place is taken, or there is nothing to drop. -/
def Refused (inner : StoreInner) : Registration → Prop
  | insert gate => gate.key ∈ inner.by_key
  | discard key => key ∉ inner.by_key

/-- What the call makes of the gates in the file. -/
def edit : Registration → List PendingGate → List PendingGate
  | insert gate => fun gates => FileGatePersistence.retainOthers gate.key gates ++ [gate]
  | discard key => FileGatePersistence.retainOthers key

end Registration

/-- The gates the file holds, if it can be read. -/
def GateFileJson.persistedGates (serde : GateFileJson) (file : Option FileGatePersistence)
    (disk : Disk) : Option (List PendingGate) :=
  file.bind fun f => (serde.decode f.path disk.content).toOption.map PendingGateFile.gates

/-- A call on a store that returns an error has left every gate as it was, in memory and in the
file. -/
structure Registration.Atomic (serde : GateFileJson) (file : Option FileGatePersistence)
    (inner : StoreInner) (disk : Disk) (call : Registration) : Prop where
  memory : ∀ e, (call.perform (.onDisk serde file inner disk)).1 = .error e → ∀ key,
    (call.perform (.onDisk serde file inner disk)).2.inner.by_key.lookup key =
      inner.by_key.lookup key
  persisted : ∀ e, (call.perform (.onDisk serde file inner disk)).1 = .error e →
    serde.persistedGates file (call.perform (.onDisk serde file inner disk)).2.medium =
      serde.persistedGates file disk

namespace Registration

variable {serde : GateFileJson} {file : Option FileGatePersistence} {inner : StoreInner}
  {disk : Disk} {call : Registration}

/-- A refused call touches nothing. -/
theorem perform_of_refused (h : call.Refused inner) :
    (call.perform (.onDisk serde file inner disk)).2 = .onDisk serde file inner disk := by
  cases call with
  | insert gate =>
    have hins : inner.insert gate = .error .alreadyExists := if_pos h
    rw [perform, PendingGateStore.insert, PendingGateStore.onDisk, hins]
  | discard key =>
    have hdis : inner.discard key = .error .notFound := by
      rw [StoreInner.discard, StoreInner.remove, AList.lookup_eq_none.mpr h]
    rw [perform, PendingGateStore.discard, PendingGateStore.onDisk, hdis]

/-- The maps after a pass through the lock that is not refused. -/
def commit (inner : StoreInner) : Registration → StoreInner
  | insert gate => inner.put gate
  | discard key => (inner.remove key).2

/-- What the call asks of the file. -/
def request (serde : GateFileJson) (file : FileGatePersistence) : Registration → DiskM Unit
  | insert gate => file.save serde gate
  | discard key => file.remove serde key

/-- A call that is not refused changes the maps and then lets the file decide. -/
theorem perform_of_not_refused (h : ¬call.Refused inner) :
    call.perform (.onDisk serde file inner disk) =
      match file with
      | none => (.ok (), .onDisk serde file (call.commit inner) disk)
      | some f => ((call.request serde f disk).1,
          .onDisk serde file (call.commit inner) (call.request serde f disk).2) := by
  cases call with
  | insert gate =>
    have hins : inner.insert gate = .ok (inner.put gate) := if_neg h
    rw [perform, PendingGateStore.insert, PendingGateStore.onDisk, hins]
    cases file <;> rfl
  | discard key =>
    have hmem : key ∈ inner.by_key := not_not.mp h
    obtain ⟨gate, hgate⟩ := Option.isSome_iff_exists.mp (AList.lookup_isSome.mpr hmem)
    have hdis : inner.discard key = .ok (inner.remove key).2 := by
      rw [StoreInner.discard, StoreInner.remove, hgate]
    rw [perform, PendingGateStore.discard, PendingGateStore.onDisk, hdis]
    cases file <;> rfl

theorem commit_changes (h : ¬call.Refused inner) : ∃ key,
    (call.commit inner).by_key.lookup key ≠ inner.by_key.lookup key := by
  cases call with
  | insert gate =>
    refine ⟨gate.key, ?_⟩
    rw [commit, StoreInner.lookup_put, if_pos rfl, AList.lookup_eq_none.mpr h]
    exact Option.some_ne_none gate
  | discard key =>
    have hmem : key ∈ inner.by_key := not_not.mp h
    obtain ⟨gate, hgate⟩ := Option.isSome_iff_exists.mp (AList.lookup_isSome.mpr hmem)
    refine ⟨key, ?_⟩
    rw [commit, StoreInner.lookup_remove, if_pos rfl, hgate]
    exact (Option.some_ne_none gate).symm

theorem request_ok_iff {f : FileGatePersistence} :
    (call.request serde f disk).1 = .ok () ↔ f.Updates serde call.edit disk := by
  cases call <;> exact FileGatePersistence.update_ok_iff

end Registration

/-- **A call that fails has left the gates as they were exactly when it fails under the lock:
with a file behind the store, a call that is not refused has to get through to it.** -/
theorem registration_atomic_iff (serde : GateFileJson) (file : Option FileGatePersistence)
    (inner : StoreInner) (disk : Disk) (call : Registration) :
    call.Atomic serde file inner disk ↔
      call.Refused inner ∨ ∀ f ∈ file, f.Updates serde call.edit disk := by
  by_cases hrefused : call.Refused inner
  · have hsame : (call.perform (.onDisk serde file inner disk)).2 =
        .onDisk serde file inner disk := Registration.perform_of_refused hrefused
    refine iff_of_true ⟨fun _ _ key => ?_, fun _ _ => ?_⟩ (.inl hrefused)
    · rw [hsame]
      rfl
    · rw [hsame]
      rfl
  rw [or_iff_right hrefused]
  have hperform : call.perform (.onDisk serde file inner disk) = _ :=
    Registration.perform_of_not_refused hrefused
  cases file with
  | none => exact iff_of_true ⟨by simp [hperform], by simp [hperform]⟩ (by simp)
  | some f =>
    have hres : (call.perform (.onDisk serde (some f) inner disk)).1 =
        (call.request serde f disk).1 := by rw [hperform]
    have hinner : (call.perform (.onDisk serde (some f) inner disk)).2.inner =
        call.commit inner := by rw [hperform]; rfl
    simp only [Option.mem_some_iff, forall_eq', ← Registration.request_ok_iff, ← hres]
    constructor
    · intro hatomic
      cases hr : (call.perform (.onDisk serde (some f) inner disk)).1 with
      | ok => rfl
      | error e =>
        obtain ⟨key, hkey⟩ := Registration.commit_changes hrefused
        rw [← hinner] at hkey
        exact absurd (hatomic.memory e hr key) hkey
    · intro hok
      constructor
      · intro e he
        rw [hok] at he
        cases he
      · intro e he
        rw [hok] at he
        cases he

/-- The directory of the file cannot be made: the insert fails, and the gate is pending. -/
theorem failed_insert_registers : ¬∀ (serde : GateFileJson) (file : Option FileGatePersistence)
    (inner : StoreInner) (disk : Disk) (call : Registration),
    call.Atomic serde file inner disk := by
  intro h
  have hserde : GateFileJson := ⟨fun _ => .ok [], fun _ => .error ""⟩
  have hmem := (h hserde (some ⟨"gates/pending-gates.json", some "gates"⟩) .new
    ⟨[], [some ⟨"Read-only file system (os error 30)", 0⟩]⟩ (.insert (shellGate 0))).memory _ rfl
    (shellGate 0).key
  cases hmem

end T3Claw
