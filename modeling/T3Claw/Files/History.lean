import T3Claw.Files.Path

/-!
# The history of file edits

`file_history.rs`: what a file held before an edit is pushed as a snapshot, and taken off when
the edit is undone. Every step on the file system can fail; a write that fails may have
opened the file already, and then leaves it with other bytes.
-/

namespace T3Claw.Files

/-! ### Steps that can fail -/

/-- A write that fails, and what it leaves in the file when it has opened it. -/
structure WriteFault where
  text : String
  left : Option (List UInt8)

/-- `fs::write`. -/
def writeFile (disk : Disk) (fault : Option WriteFault) (path : Path) (bytes : List UInt8)
    (now : ℤ) : Disk × Except IoError Unit :=
  match disk.write path ((fault.bind WriteFault.left).getD bytes) now, fault with
  | .ok later, none => (later, .ok ())
  | .ok later, some fault => (if fault.left.isSome then later else disk, .error ⟨false, fault.text⟩)
  | .error e, _ => (disk, .error e)

/-- A failure of `create_dir_all` behind the first `made` directories. -/
structure CreateFault where
  text : String
  made : ℕ

/-- `fs::create_dir_all`. -/
def createDirAll (disk : Disk) (fault : Option CreateFault) (path : Path) :
    Disk × Except IoError Unit :=
  match fault with
  | none =>
    match disk.createDirAll path with
    | .ok later => (later, .ok ())
    | .error e => (disk, .error e)
  | some fault =>
    match disk.ensureDirs (path.inits.take fault.made) with
    | .ok later => (later, .error ⟨false, fault.text⟩)
    | .error e => (disk, .error e)

section Steps

variable {disk : Disk} {path : Path} {now : ℤ}

theorem writeFile_of_never {bytes : List UInt8} {later : Disk}
    (h : disk.write path bytes now = .ok later) :
    writeFile disk none path bytes now = (later, .ok ()) := by
  simp [writeFile, h]

theorem write_of_writeFile {fault : Option WriteFault} {bytes : List UInt8}
    (h : (writeFile disk fault path bytes now).2 = .ok ()) :
    fault = none ∧ disk.write path bytes now = .ok (writeFile disk fault path bytes now).1 := by
  unfold writeFile at h ⊢
  cases fault with
  | none =>
    cases hwrite : disk.write path bytes now with
    | ok later => exact ⟨rfl, by simp [hwrite]⟩
    | error e => simp [hwrite] at h
  | some fault =>
    split at h
    case h_1 hnone => cases hnone
    case h_2 => cases h
    case h_3 => cases h

theorem keeps_of_writeFile (disk : Disk) (fault : Option WriteFault) (path : Path)
    (bytes : List UInt8) (now : ℤ) :
    disk.Keeps (writeFile disk fault path bytes now).1 := by
  unfold writeFile
  split
  case h_1 hwrite => exact Disk.keeps_of_write hwrite
  case h_2 hwrite =>
    split
    · exact Disk.keeps_of_write hwrite
    · exact .refl disk
  case h_3 => exact .refl disk

theorem grows_of_createDirAll (disk : Disk) (fault : Option CreateFault) (path : Path) :
    disk.Grows (createDirAll disk fault path).1 := by
  unfold createDirAll
  split
  · split
    case h_1 hcreate => exact Disk.grows_of_createDirAll hcreate
    case h_2 => exact .refl disk
  · split
    case h_1 hcreate => exact Disk.grows_of_ensureDirs hcreate
    case h_2 => exact .refl disk

theorem createDirAll_eq_ok {fault : Option CreateFault}
    (h : (createDirAll disk fault path).2 = .ok ()) :
    fault = none ∧ disk.createDirAll path = .ok (createDirAll disk fault path).1 := by
  unfold createDirAll at h ⊢
  cases fault with
  | none =>
    cases hcreate : disk.createDirAll path with
    | ok later => exact ⟨rfl, rfl⟩
    | error e =>
      rw [hcreate] at h
      cases h
  | some fault =>
    dsimp only at h
    split at h <;> cases h

theorem createDirAll_of_never {later : Disk} (h : disk.createDirAll path = .ok later) :
    createDirAll disk none path = (later, .ok ()) := by
  simp [createDirAll, h]

end Steps

/-- The failures of the steps of one call. -/
structure Faults where
  validate : Path → Bool
  sensitive : Path → Bool
  metadata : Option String
  read : Option String
  canonicalize : Path → Bool
  snapshot_metadata : Bool
  snapshot_read : Option String
  create_dir_all : Option CreateFault
  write : Option WriteFault
  modified : Bool
  remove : Option String

/-- A call of which no step fails. -/
def Faults.never : Faults :=
  ⟨fun _ => false, fun _ => false, none, none, fun _ => false, false, none, none, none, false, none⟩

/-! ### Snapshots -/

/-- `MAX_SNAPSHOT_FILE_SIZE`. -/
def MAX_SNAPSHOT_FILE_SIZE : ℕ := 10 * 1024 * 1024

/-- `FileSnapshot`. -/
structure FileSnapshot where
  id : ℕ
  job_id : ℕ
  path : Path
  content_before : Option (List UInt8)
  timestamp : ℤ
  tool_name : String
  sequence_number : ℕ

/-- `FileHistory`; the newest snapshot is the last. -/
structure FileHistory where
  snapshots : List FileSnapshot
  max_snapshots : ℕ
  next_sequence : ℕ

/-- `Iterator::rposition`. -/
def rposition {α : Type*} (p : α → Bool) : List α → Option ℕ
  | [] => none
  | a :: as =>
    match rposition p as with
    | some i => some (i + 1)
    | none => if p a then some 0 else none

theorem rposition_eq_none {α : Type*} {p : α → Bool} {l : List α} (h : rposition p l = none) :
    ∀ a ∈ l, p a = false := by
  induction l with
  | nil => exact nofun
  | cons a l ih =>
    rw [rposition] at h
    split at h
    case h_1 => cases h
    case h_2 hnone =>
      split at h
      case isTrue => cases h
      case isFalse ha =>
        intro b hb
        obtain rfl | hb := List.mem_cons.mp hb
        · exact Bool.eq_false_iff.mpr ha
        · exact ih hnone b hb

/-- Where the last is, it stands, and none behind it. -/
theorem rposition_eq_some {α : Type*} {p : α → Bool} {l : List α} {i : ℕ}
    (h : rposition p l = some i) :
    ∃ front a back, l = front ++ a :: back ∧ i = front.length ∧ p a = true ∧
      ∀ b ∈ back, p b = false := by
  induction l generalizing i with
  | nil => cases h
  | cons a l ih =>
    rw [rposition] at h
    split at h
    case h_1 j hj =>
      obtain ⟨front, b, back, rfl, rfl, hb, hback⟩ := ih hj
      exact ⟨a :: front, b, back, rfl, (Option.some.inj h).symm, hb, hback⟩
    case h_2 hnone =>
      split at h
      case isTrue ha =>
        exact ⟨[], a, l, rfl, (Option.some.inj h).symm, ha, rposition_eq_none hnone⟩
      case isFalse => cases h

theorem rposition_map {α β : Type*} (p : β → Bool) (f : α → β) (l : List α) :
    rposition p (l.map f) = rposition (fun a => p (f a)) l := by
  induction l with
  | nil => rfl
  | cons a l ih => rw [List.map_cons, rposition, rposition, ih]

namespace FileHistory

/-- `with_max_snapshots`. -/
def withMaxSnapshots (max_snapshots : ℕ) : FileHistory := ⟨[], max_snapshots, 1⟩

/-- `canonical`. -/
def canonical (look : Path → Option Path) (path : Path) : Path :=
  match look path with
  | some found => found
  | none =>
    match fileName path with
    | some name => (look path.dropLast).getD path.dropLast ++ [name]
    | none => path

/-- Whether the file is skipped for its size. -/
def skips (disk : Disk) (faults : Faults) (path : Path) : Bool :=
  match disk.metadata path with
  | .ok found => !faults.snapshot_metadata && found.is_file && MAX_SNAPSHOT_FILE_SIZE < found.len
  | .error _ => false

/-- What `snapshot` records as the content before the change. -/
def contentBefore (disk : Disk) (faults : Faults) (path : Path) :
    Except IoError (Option (List UInt8)) :=
  match faults.snapshot_read, disk.read path with
  | some text, _ => .error ⟨false, text⟩
  | none, .ok bytes => .ok (some bytes)
  | none, .error e => if e.not_found then .ok none else .error e

/-- The oldest snapshots make room. -/
def evict (history : FileHistory) : FileHistory :=
  { history with
    snapshots := history.snapshots.drop (history.snapshots.length - history.max_snapshots) }

/-- `snapshot`. -/
def snapshot (history : FileHistory) (disk : Disk) (faults : Faults) (id job_id : ℕ) (path : Path)
    (tool_name : String) (now : ℤ) : FileHistory × Except ToolError (Option ℕ) :=
  let path := canonical (lookUp disk faults.canonicalize) path
  if skips disk faults path then (history, .ok none)
  else
    match contentBefore disk faults path with
    | .error e => (history,
        .error (.ExecutionFailed s!"Failed to snapshot file before modification: {e.text}"))
    | .ok content_before =>
      let taken : FileSnapshot :=
        ⟨id, job_id, path, content_before, now, tool_name, history.next_sequence⟩
      (evict
        { history with
          snapshots := history.snapshots ++ [taken]
          next_sequence := history.next_sequence + 1 },
        .ok (some id))

/-- Whether a snapshot is of a file and a job. -/
def isOf (job_id : ℕ) (path : Path) (taken : FileSnapshot) : Bool :=
  taken.job_id = job_id && taken.path = path

/-- The restoring step of `restore_latest`. -/
def restore (disk : Disk) (faults : Faults) (taken : FileSnapshot) (now : ℤ) :
    Disk × Except ToolError Unit :=
  match taken.content_before with
  | some content =>
    match writeFile disk faults.write taken.path content now with
    | (disk, .ok ()) => (disk, .ok ())
    | (disk, .error e) => (disk, .error (.ExecutionFailed s!"Failed to restore file: {e.text}"))
  | none =>
    match faults.remove, disk.removeFile taken.path with
    | some text, _ =>
      (disk, .error (.ExecutionFailed s!"Failed to remove file during restore: {text}"))
    | none, .ok disk => (disk, .ok ())
    | none, .error e =>
      if e.not_found then (disk, .ok ())
      else (disk, .error (.ExecutionFailed s!"Failed to remove file during restore: {e.text}"))

/-- `restore_latest`: the snapshot is removed before the file is restored. -/
def restoreLatest (history : FileHistory) (disk : Disk) (faults : Faults) (job_id : ℕ) (path : Path)
    (now : ℤ) : FileHistory × Disk × Except ToolError (Option FileSnapshot) :=
  let path := canonical (lookUp disk faults.canonicalize) path
  match rposition (isOf job_id path) history.snapshots with
  | none => (history, disk, .ok none)
  | some idx =>
    match history.snapshots[idx]? with
    | none => (history, disk, .ok none)
    | some taken =>
      let history := { history with snapshots := history.snapshots.eraseIdx idx }
      match restore disk faults taken now with
      | (disk, .ok ()) => (history, disk, .ok (some taken))
      | (disk, .error e) => (history, disk, .error e)

end FileHistory

end T3Claw.Files
