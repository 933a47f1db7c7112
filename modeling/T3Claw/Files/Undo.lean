import T3Claw.Files.Tools

/-!
# Undoing edits

Beside a run of the file tools stands the list of the edits that succeeded and are not undone:
the job, the file, and what the file held before. An undo should take the last edit of the job
and the file off that list and give the file these bytes back.

The history is that list as long as every call is `clean`: an edit takes a snapshot exactly
when it goes on to change the file, the snapshot is of the file that is changed, and the file
can be restored. A snapshot of an edit that then fails, of a file that is too large to be
copied, or that is taken off before the file is restored leaves the two apart.
-/

namespace T3Claw.Files

/-- A call of one of the tools; `read_file` comes with what it notes. -/
inductive Op where
  | read_file (entry : ReadEntry)
  | write_file (call : ToolCall)
  | apply_patch (call : ToolCall)
  | file_undo (call : ToolCall)

/-- The state after a call, and whether it returns `Ok`. -/
def Op.exec (place : Place) (s : FileTools) : Op → FileTools × Bool
  | read_file entry => ({ s with read_state := s.read_state.recordRead entry }, true)
  | write_file call =>
    ((WriteFileTool.execute place s call).1, (WriteFileTool.execute place s call).2.isOk)
  | apply_patch call =>
    ((ApplyPatchTool.execute place s call).1, (ApplyPatchTool.execute place s call).2.isOk)
  | file_undo call =>
    ((FileUndoTool.execute place s call).1, (FileUndoTool.execute place s call).2.isOk)

/-! ### The edits that can be undone -/

/-- An edit that succeeded: whose, of which file, and what the file held before. -/
structure Edit where
  job_id : ℕ
  file : Path
  before : Option (List UInt8)
  deriving DecidableEq

/-- Whether an edit is of a job and a file. -/
def Edit.isOf (job_id : ℕ) (file : Path) (edit : Edit) : Bool :=
  edit.job_id = job_id && edit.file = file

/-- The most recent of the edits of a job and a file. -/
def latest? (edits : List Edit) (job_id : ℕ) (file : Path) : Option Edit :=
  (rposition (Edit.isOf job_id file) edits).bind fun i => edits[i]?

/-- The edits without that one. -/
def withoutLatest (edits : List Edit) (job_id : ℕ) (file : Path) : List Edit :=
  match rposition (Edit.isOf job_id file) edits with
  | some i => edits.eraseIdx i
  | none => edits

/-- The edits with one more, which left its file where the path leads now. -/
def withEdit (edits : List Edit) (s later : FileTools) (job_id : ℕ) (path : Path) : List Edit :=
  match later.disk.canonicalize path with
  | some file => edits ++ [⟨job_id, file, s.disk.bytes file⟩]
  | none => edits

/-- The edits that can be undone after a call. -/
def Op.edits (place : Place) (s : FileTools) (edits : List Edit) (op : Op) : List Edit :=
  if (op.exec place s).2 then
    match op with
    | read_file _ => edits
    | write_file call =>
      match WriteFileTool.target place s call with
      | .ok (path, _) => withEdit edits s (op.exec place s).1 call.job_id path
      | .error _ => edits
    | apply_patch call =>
      match ApplyPatchTool.target place s call with
      | .ok patch => withEdit edits s (op.exec place s).1 call.job_id patch.path
      | .error _ => edits
    | file_undo call =>
      match FileUndoTool.target place s call with
      | .ok path => ((s.disk.location path).map (withoutLatest edits call.job_id)).getD edits
      | .error _ => edits
  else edits

/-- A state of the tools, and the edits that can be undone in it. -/
structure Situation where
  tools : FileTools
  edits : List Edit

/-- The situation after a call. -/
def Situation.after (place : Place) (now : Situation) (op : Op) : Situation :=
  ⟨(op.exec place now.tools).1, op.edits place now.tools now.edits⟩

/-- The situations each call of a run is made in. -/
def Situation.trace (place : Place) : Situation → List Op → List (Situation × Op)
  | _, [] => []
  | now, op :: ops => (now, op) :: trace place (now.after place op) ops

/-- The start: whatever the disk holds and was read, no edit can be undone. -/
def Situation.start (disk : Disk) (read_state : ReadFileState) (max_snapshots : ℕ) : Situation :=
  ⟨⟨disk, .withMaxSnapshots max_snapshots, read_state⟩, []⟩

/-- **What a call should do**: an undo that succeeds gives the file back what it held before the
job's last edit of it, and a call that fails without changing a file leaves the history. -/
structure Exact (place : Place) (now : Situation) (op : Op) : Prop where
  restores : ∀ call path, op = .file_undo call → (op.exec place now.tools).2 = true →
    FileUndoTool.target place now.tools call = .ok path →
    ∃ file edit, now.tools.disk.location path = some file ∧
      latest? now.edits call.job_id file = some edit ∧
      (op.exec place now.tools).1.disk.bytes file = edit.before
  keeps : (op.exec place now.tools).2 = false →
    (∀ file, (op.exec place now.tools).1.disk.bytes file = now.tools.disk.bytes file) →
    (op.exec place now.tools).1.history.snapshots = now.tools.history.snapshots

/-! ### Calls that keep the history in step -/

/-- The path under which a snapshot is looked for and stored. -/
def snapshotPath (s : FileTools) (call : ToolCall) (path : Path) : Path :=
  FileHistory.canonical (lookUp s.disk call.faults.canonicalize) path

/-- Whether a snapshot is stored: the file is not too large, and can be read or is not there. -/
def stores (s : FileTools) (call : ToolCall) (path : Path) : Bool :=
  !FileHistory.skips s.disk call.faults (snapshotPath s call path) &&
    (FileHistory.contentBefore s.disk call.faults (snapshotPath s call path)).isOk

/-- Where `write_file` writes, once the directories are there. -/
def writtenFile (s : FileTools) (path : Path) : Option Path :=
  match s.disk.createDirAll path.dropLast with
  | .ok disk => disk.location path
  | .error _ => none

/-- Whether the file of a snapshot can be restored. -/
def restores (s : FileTools) (call : ToolCall) (taken : FileSnapshot) : Bool :=
  match taken.content_before with
  | some content =>
    call.faults.write.isNone && (s.disk.write taken.path content call.now).isOk
  | none =>
    call.faults.remove.isNone &&
      match s.disk.removeFile taken.path with
      | .ok _ => true
      | .error e => e.not_found

/-- **A clean call**: an edit that gets as far as its snapshot stores it if and only if it goes on
to succeed, and stores it under the path of the file it writes; an undo can restore the file of
the snapshot it finds. -/
def clean (place : Place) (s : FileTools) : Op → Bool
  | .read_file _ => true
  | .write_file call =>
    match WriteFileTool.target place s call with
    | .error _ => true
    | .ok (path, bytes) =>
      stores s call path == WriteFileTool.finishes s call path bytes &&
        (!stores s call path || writtenFile s path == some (snapshotPath s call path))
  | .apply_patch call =>
    match ApplyPatchTool.target place s call with
    | .error _ => true
    | .ok patch =>
      stores s call patch.path == ApplyPatchTool.finishes s call patch &&
        (!stores s call patch.path ||
          s.disk.location patch.path == some (snapshotPath s call patch.path))
  | .file_undo call =>
    match FileUndoTool.target place s call with
    | .error _ => true
    | .ok path =>
      ((rposition (FileHistory.isOf call.job_id (snapshotPath s call path))
        s.history.snapshots).bind fun i => s.history.snapshots[i]?).all (restores s call)

section

variable {place : Place} {s : FileTools} {call : ToolCall}

theorem clean_write_file {path : Path} {bytes : List UInt8}
    (h : clean place s (.write_file call) = true)
    (htarget : WriteFileTool.target place s call = .ok (path, bytes)) :
    stores s call path = WriteFileTool.finishes s call path bytes ∧
      (stores s call path = true → writtenFile s path = some (snapshotPath s call path)) := by
  rw [clean, htarget] at h
  simp only [Bool.and_eq_true, beq_iff_eq, Bool.or_eq_true, Bool.not_eq_true'] at h
  exact ⟨h.1, fun hstores => h.2.resolve_left (by rw [hstores]; exact nofun)⟩

theorem clean_apply_patch {patch : ApplyPatchTool.Patch}
    (h : clean place s (.apply_patch call) = true)
    (htarget : ApplyPatchTool.target place s call = .ok patch) :
    stores s call patch.path = ApplyPatchTool.finishes s call patch ∧
      (stores s call patch.path = true →
        s.disk.location patch.path = some (snapshotPath s call patch.path)) := by
  rw [clean, htarget] at h
  simp only [Bool.and_eq_true, beq_iff_eq, Bool.or_eq_true, Bool.not_eq_true'] at h
  exact ⟨h.1, fun hstores => h.2.resolve_left (by rw [hstores]; exact nofun)⟩

theorem clean_file_undo {path : Path} {i : ℕ} {taken : FileSnapshot}
    (h : clean place s (.file_undo call) = true)
    (htarget : FileUndoTool.target place s call = .ok path)
    (hi : rposition (FileHistory.isOf call.job_id (snapshotPath s call path))
      s.history.snapshots = some i) (hget : s.history.snapshots[i]? = some taken) :
    restores s call taken = true := by
  rw [clean, htarget] at h
  simpa [hi, hget] using h

end

/-! ### The history is the list of edits -/

/-- The edit a snapshot stands for. -/
def FileSnapshot.edit (taken : FileSnapshot) : Edit :=
  ⟨taken.job_id, taken.path, taken.content_before⟩

/-- The history stands for the edits, each under the path of its file. -/
structure Mirrors (max_snapshots : ℕ) (now : Situation) : Prop where
  same : now.tools.history.snapshots.map FileSnapshot.edit = now.edits
  settled : ∀ taken ∈ now.tools.history.snapshots, now.tools.disk.Settled taken.path
  capacity : now.tools.history.max_snapshots = max_snapshots

variable {place : Place} {now : Situation} {s later : FileTools} {call : ToolCall} {path : Path}
  {max_snapshots : ℕ}

theorem Mirrors.start (disk : Disk) (read_state : ReadFileState) (max_snapshots : ℕ) :
    Mirrors max_snapshots (.start disk read_state max_snapshots) :=
  ⟨rfl, nofun, rfl⟩

/-- A call that leaves the history. -/
theorem Mirrors.keep (h : Mirrors max_snapshots now) (hdisk : now.tools.disk.Keeps later.disk)
    (hhistory : later.history = now.tools.history) :
    Mirrors max_snapshots ⟨later, now.edits⟩ := by
  refine ⟨?_, fun taken htaken => ?_, ?_⟩
  · rw [← h.same, ← hhistory]
  · exact (h.settled taken (hhistory ▸ htaken)).mono hdisk
  · rw [← h.capacity, ← hhistory]

theorem takeSnapshot_of_not_stores (tool_name : String) (h : stores s call path = false) :
    (takeSnapshot s call path tool_name).history = s.history := by
  rw [stores, Bool.and_eq_false_iff, Bool.not_eq_false'] at h
  rw [takeSnapshot]
  change (s.history.snapshot _ _ _ _ _ _ _).1 = s.history
  rw [FileHistory.snapshot, ← snapshotPath]
  obtain hskips | hread := h
  · rw [if_pos hskips]
  · split
    · rfl
    · cases hcontent : FileHistory.contentBefore s.disk call.faults (snapshotPath s call path) with
      | error e => rfl
      | ok content =>
        rw [hcontent] at hread
        cases hread

/-- A snapshot that is stored is the newest, and where there is room it takes no other's
place. -/
theorem takeSnapshot_of_stores (tool_name : String) (h : stores s call path = true) :
    ∃ taken : FileSnapshot, taken.job_id = call.job_id ∧ taken.path = snapshotPath s call path ∧
      FileHistory.contentBefore s.disk call.faults taken.path = .ok taken.content_before ∧
      (takeSnapshot s call path tool_name).history.max_snapshots = s.history.max_snapshots ∧
      (s.history.snapshots.length < s.history.max_snapshots →
        (takeSnapshot s call path tool_name).history.snapshots =
          s.history.snapshots ++ [taken]) := by
  rw [stores, Bool.and_eq_true, Bool.not_eq_true'] at h
  obtain ⟨hskips, hread⟩ := h
  cases hcontent : FileHistory.contentBefore s.disk call.faults (snapshotPath s call path) with
  | error e =>
    rw [hcontent] at hread
    cases hread
  | ok content =>
    refine ⟨⟨call.snapshot_id, call.job_id, snapshotPath s call path, content, call.now, tool_name,
      s.history.next_sequence⟩, rfl, rfl, hcontent, ?_⟩
    have htake : (takeSnapshot s call path tool_name).history =
        (s.history.snapshot s.disk call.faults call.snapshot_id call.job_id path tool_name
          call.now).1 := rfl
    rw [htake, FileHistory.snapshot, ← snapshotPath, hskips, if_neg Bool.false_ne_true, hcontent]
    refine ⟨rfl, fun hroom => ?_⟩
    change List.drop (List.length (s.history.snapshots ++ [_]) - s.history.max_snapshots) _ = _
    rw [List.length_append, List.length_singleton, Nat.sub_eq_zero_of_le hroom, List.drop_zero]

/-- What a stored snapshot holds is what the file held. -/
theorem content_of_contentBefore {disk : Disk} {faults : Faults} {content : Option (List UInt8)}
    (h : FileHistory.contentBefore disk faults path = .ok content) (hdirect : disk.Direct path) :
    content = disk.bytes path := by
  obtain ⟨hok, herror⟩ := Disk.read_of_direct hdirect
  unfold FileHistory.contentBefore at h
  split at h
  case h_1 => cases h
  case h_2 bytes _ hread => rw [hok bytes hread, ← Except.ok.inj h]
  case h_3 e _ hread =>
    split at h
    case isTrue hnot => rw [herror e hread hnot, ← Except.ok.inj h]
    case isFalse => cases h

/-- **An edit that succeeds** adds itself to the history. -/
theorem Mirrors.push (h : Mirrors max_snapshots now) {disk : Disk} {bytes : List UInt8}
    {tool_name : String} (hstores : stores now.tools call path = true)
    (hgrows : now.tools.disk.Grows disk) (hwrite : disk.write path bytes call.now = .ok later.disk)
    (hlocation : disk.location path = some (snapshotPath now.tools call path))
    (hhistory : later.history = (takeSnapshot now.tools call path tool_name).history)
    (hroom : (withEdit now.edits now.tools later call.job_id path).length ≤ max_snapshots) :
    Mirrors max_snapshots ⟨later, withEdit now.edits now.tools later call.job_id path⟩ := by
  obtain ⟨taken, hjob, hpath, hcontent, hcapacity, hpush⟩ :=
    takeSnapshot_of_stores tool_name hstores
  have hsettled : disk.Settled taken.path := hpath ▸ Disk.settled_of_location hlocation
  have hbefore := content_of_contentBefore hcontent (hgrows.direct hsettled)
  have hedit : withEdit now.edits now.tools later call.job_id path = now.edits ++ [taken.edit] := by
    rw [withEdit, Disk.canonicalize_of_write hwrite, hlocation, FileSnapshot.edit, hjob, hpath,
      hbefore, hpath]
  have hlength : now.tools.history.snapshots.length = now.edits.length := by
    rw [← h.same, List.length_map]
  rw [hedit] at hroom ⊢
  rw [List.length_append, List.length_singleton, ← h.capacity] at hroom
  have hsnapshots := hpush (by omega)
  rw [← hhistory] at hsnapshots hcapacity
  refine ⟨?_, fun older holder => ?_, hcapacity.trans h.capacity⟩
  · rw [hsnapshots, List.map_append, h.same]
    rfl
  · have hkeeps := hgrows.keeps.trans (Disk.keeps_of_write hwrite)
    rw [hsnapshots] at holder
    obtain hmem | hlast := List.mem_append.mp holder
    · exact (h.settled older hmem).mono hkeeps
    · obtain rfl := List.mem_singleton.mp hlast
      exact hsettled.mono (Disk.keeps_of_write hwrite)

/-! ### Undoing -/

/-- A settled path under which a snapshot is looked for is where the path leads. -/
theorem location_of_snapshotPath (h : s.disk.Settled (snapshotPath s call path)) :
    s.disk.location path = some (snapshotPath s call path) := by
  have hlook : ∀ p q, lookUp s.disk call.faults.canonicalize p = some q →
      s.disk.canonicalize p = some q := by
    intro p q hq
    unfold lookUp at hq
    split at hq
    · cases hq
    · exact hq
  rw [snapshotPath, FileHistory.canonical] at h ⊢
  cases hself : lookUp s.disk call.faults.canonicalize path with
  | some found =>
    have hfound := hlook path found hself
    unfold Disk.canonicalize at hfound
    split at hfound
    case h_1 p hplace => exact Disk.location_eq_some.mpr (.inl (hplace.trans (by simp_all)))
    case h_2 => cases hfound
  | none =>
    simp only [hself] at h ⊢
    cases hname : fileName path with
    | none =>
      simp only [hname] at h
      exact Disk.location_of_settled h
    | some name =>
      simp only [hname] at h
      obtain ⟨hlast, hup⟩ := Option.filter_eq_some_iff.mp hname
      have hpath : path.dropLast ++ [name] = path := by
        obtain ⟨front, rfl⟩ := List.getLast?_eq_some_iff.mp hlast
        rw [List.dropLast_concat]
      cases hparent : lookUp s.disk call.faults.canonicalize path.dropLast with
      | none =>
        rw [hparent, Option.getD_none, hpath] at h
        simpa only [hparent, Option.getD_none, hpath] using Disk.location_of_settled h
      | some up =>
        rw [hparent, Option.getD_some] at h
        have happend := Disk.location_append (by simpa using hup) (hlook _ _ hparent) h
        rwa [hpath] at happend

/-- A file that can be restored gets the bytes of the snapshot. -/
theorem restore_of_restores {taken : FileSnapshot} (hsettled : s.disk.Settled taken.path)
    (h : restores s call taken = true) :
    ∃ disk, FileHistory.restore s.disk call.faults taken call.now = (disk, .ok ()) ∧
      s.disk.Keeps disk ∧ disk.bytes taken.path = taken.content_before := by
  unfold restores at h
  unfold FileHistory.restore
  cases hcontent : taken.content_before with
  | some content =>
    simp only [hcontent] at h ⊢
    rw [Bool.and_eq_true] at h
    obtain ⟨hfault, hok⟩ := h
    cases hwrite : s.disk.write taken.path content call.now with
    | error e =>
      rw [hwrite] at hok
      cases hok
    | ok disk =>
      obtain ⟨p, hlocation, -, hnode⟩ := Disk.write_eq_ok hwrite
      obtain rfl : taken.path = p :=
        Option.some.inj ((Disk.location_of_settled hsettled).symm.trans hlocation)
      rw [Option.isNone_iff_eq_none.mp hfault, writeFile_of_never hwrite]
      exact ⟨disk, rfl, Disk.keeps_of_write hwrite,
        by rw [Disk.bytes, hnode, Function.update_self]⟩
  | none =>
    simp only [hcontent] at h ⊢
    rw [Bool.and_eq_true] at h
    obtain ⟨hfault, hok⟩ := h
    obtain ⟨hremoved, hmissing⟩ := Disk.removeFile_of_settled hsettled
    rw [Option.isNone_iff_eq_none.mp hfault]
    cases hremove : s.disk.removeFile taken.path with
    | error e =>
      simp only [hremove] at hok ⊢
      exact ⟨s.disk, by rw [if_pos hok], .refl _,
        by rw [Disk.bytes, hmissing e hremove hok]⟩
    | ok disk =>
      obtain ⟨hdir, hnode⟩ := hremoved disk hremove
      exact ⟨disk, rfl, Disk.keeps_of_update hdir (fun _ _ => by simp) hnode,
        by rw [Disk.bytes, hnode, Function.update_self]⟩

/-- What an undo does that finds a snapshot. -/
theorem undo_of_restores (hsettled : ∀ taken ∈ s.history.snapshots, s.disk.Settled taken.path)
    (htarget : FileUndoTool.target place s call = .ok path) {i : ℕ}
    (hi : rposition (FileHistory.isOf call.job_id (snapshotPath s call path))
      s.history.snapshots = some i)
    (hclean : clean place s (.file_undo call) = true) :
    ∃ taken disk, s.history.snapshots[i]? = some taken ∧
      taken.job_id = call.job_id ∧ taken.path = snapshotPath s call path ∧
      (FileUndoTool.execute place s call).2.isOk = true ∧
      (FileUndoTool.execute place s call).1 =
        { s with disk, history := { s.history with snapshots := s.history.snapshots.eraseIdx i } } ∧
      s.disk.Keeps disk ∧ disk.bytes taken.path = taken.content_before := by
  obtain ⟨front, taken, back, hsnapshots, rfl, hof, -⟩ := rposition_eq_some hi
  have hget : s.history.snapshots[front.length]? = some taken := by simp [hsnapshots]
  rw [FileHistory.isOf, Bool.and_eq_true, decide_eq_true_eq, decide_eq_true_eq] at hof
  obtain ⟨disk, hrestore, hkeeps, hbytes⟩ :=
    restore_of_restores (hsettled taken (by simp [hsnapshots]))
      (clean_file_undo hclean htarget hi hget)
  have hlatest : s.history.restoreLatest s.disk call.faults call.job_id path call.now =
      ({ s.history with snapshots := s.history.snapshots.eraseIdx front.length }, disk,
        .ok (some taken)) := by
    rw [FileHistory.restoreLatest, ← snapshotPath, hi]
    simp only [hget, hrestore]
  refine ⟨taken, disk, hget, hof.1, hof.2, ?_, ?_, hkeeps, hbytes⟩
  · rw [FileUndoTool.execute, htarget]
    simp only [hlatest]
    rfl
  · rw [FileUndoTool.execute, htarget]
    simp only [hlatest]

/-- An undo that finds no snapshot changes nothing. -/
theorem undo_of_none (htarget : FileUndoTool.target place s call = .ok path)
    (hnone : rposition (FileHistory.isOf call.job_id (snapshotPath s call path))
      s.history.snapshots = none) :
    (FileUndoTool.execute place s call).1 = s ∧
      (FileUndoTool.execute place s call).2.isOk = false := by
  have hlatest : s.history.restoreLatest s.disk call.faults call.job_id path call.now =
      (s.history, s.disk, .ok none) := by
    rw [FileHistory.restoreLatest, ← snapshotPath, hnone]
  rw [FileUndoTool.execute, htarget]
  simp only [hlatest]
  exact ⟨trivial, rfl⟩

/-! ### One call -/

/-- The edits after a call that fails. -/
theorem after_of_not_ok {op : Op} (h : (op.exec place now.tools).2 = false) :
    now.after place op = ⟨(op.exec place now.tools).1, now.edits⟩ := by
  have hedits : op.edits place now.tools now.edits = now.edits := by
    unfold Op.edits
    rw [if_neg (Bool.eq_false_iff.mp h)]
  rw [Situation.after, hedits]

/-- **A clean edit** keeps the history in step: it is stored when it succeeds, and only then. -/
theorem edit_step {op : Op} {tool_name : String} (hundo : ∀ call, op ≠ .file_undo call)
    (h : Mirrors max_snapshots now)
    (hlater : (op.exec place now.tools).1 = later)
    (hedits : (op.exec place now.tools).2 = true →
      op.edits place now.tools now.edits = withEdit now.edits now.tools later call.job_id path)
    (hkeeps : now.tools.disk.Keeps later.disk)
    (hhistory : later.history = (takeSnapshot now.tools call path tool_name).history)
    (hstores : stores now.tools call path = (op.exec place now.tools).2)
    (hwritten : (op.exec place now.tools).2 = true → ∃ disk bytes, now.tools.disk.Grows disk ∧
      disk.write path bytes call.now = .ok later.disk ∧
      disk.location path = some (snapshotPath now.tools call path))
    (hroom : (now.after place op).edits.length ≤ max_snapshots) :
    Mirrors max_snapshots (now.after place op) ∧ Exact place now op := by
  cases hok : (op.exec place now.tools).2 with
  | false =>
    have hsame : later.history = now.tools.history :=
      hhistory.trans (takeSnapshot_of_not_stores tool_name (hstores.trans hok))
    rw [after_of_not_ok hok, hlater]
    refine ⟨h.keep hkeeps hsame, fun call _ hop => absurd hop (hundo call), fun _ _ => ?_⟩
    rw [hlater, hsame]
  | true =>
    obtain ⟨disk, bytes, hgrows, hwrite, hlocation⟩ := hwritten hok
    have hafter : now.after place op =
        ⟨later, withEdit now.edits now.tools later call.job_id path⟩ := by
      rw [Situation.after, hedits hok, hlater]
    rw [hafter] at hroom ⊢
    refine ⟨h.push (hstores.trans hok) hgrows hwrite hlocation hhistory hroom,
      fun call _ hop => absurd hop (hundo call), fun hfail => ?_⟩
    rw [hok] at hfail
    cases hfail

theorem isOk_map {ε α β : Type*} (f : α → β) (r : Except ε α) : (r.map f).isOk = r.isOk := by
  cases r <;> rfl

theorem isOk_unit {ε : Type*} {r : Except ε Unit} : r.isOk = true ↔ r = .ok () := by
  cases r with
  | error e => exact iff_of_false nofun nofun
  | ok u => exact iff_of_true rfl rfl

theorem write_step (h : Mirrors max_snapshots now)
    (hclean : clean place now.tools (.write_file call) = true)
    (hroom : (now.after place (.write_file call)).edits.length ≤ max_snapshots) :
    Mirrors max_snapshots (now.after place (.write_file call)) ∧
      Exact place now (.write_file call) := by
  cases htarget : WriteFileTool.target place now.tools call with
  | error e =>
    have hexec : (Op.write_file call).exec place now.tools = (now.tools, false) := by
      simp only [Op.exec, WriteFileTool.execute, htarget]
      rfl
    rw [after_of_not_ok (by rw [hexec]), hexec]
    exact ⟨h.keep (.refl _) rfl, fun _ _ hop => Op.noConfusion hop, fun _ _ => by rw [hexec]⟩
  | ok target =>
    obtain ⟨path, bytes⟩ := target
    obtain ⟨hfinishes, hlocated⟩ := clean_write_file hclean htarget
    have hexec : (Op.write_file call).exec place now.tools =
        ((WriteFileTool.edit (takeSnapshot now.tools call path "write_file") call path bytes).1,
          (WriteFileTool.edit (takeSnapshot now.tools call path "write_file") call path
            bytes).2.isOk) := by
      simp only [Op.exec, WriteFileTool.execute, htarget, isOk_map]
    have hstores : stores now.tools call path =
        ((Op.write_file call).exec place now.tools).2 := by
      rw [hfinishes, hexec, Bool.eq_iff_iff, isOk_unit]
      exact ⟨WriteFileTool.edit_of_finishes (s := takeSnapshot now.tools call path "write_file"),
        fun hok => (WriteFileTool.edit_eq_ok hok).1⟩
    refine edit_step (fun _ hop => Op.noConfusion hop) h (congrArg Prod.fst hexec) (fun hok => ?_)
      (WriteFileTool.keeps_of_edit (s := takeSnapshot now.tools call path "write_file"))
      WriteFileTool.edit_history hstores (fun hok => ?_) hroom
    · rw [Op.edits, hok, if_pos rfl, htarget, hexec]
    · rw [hexec, isOk_unit] at hok
      obtain ⟨-, disk, hcreate, hwrite⟩ := WriteFileTool.edit_eq_ok hok
      have hwritten := hlocated (hstores.trans (by rw [hexec, isOk_unit]; exact hok))
      rw [writtenFile] at hwritten
      change now.tools.disk.createDirAll path.dropLast = .ok disk at hcreate
      rw [hcreate] at hwritten
      exact ⟨disk, bytes, Disk.grows_of_createDirAll hcreate, hwrite, hwritten⟩

theorem patch_step (h : Mirrors max_snapshots now)
    (hclean : clean place now.tools (.apply_patch call) = true)
    (hroom : (now.after place (.apply_patch call)).edits.length ≤ max_snapshots) :
    Mirrors max_snapshots (now.after place (.apply_patch call)) ∧
      Exact place now (.apply_patch call) := by
  cases htarget : ApplyPatchTool.target place now.tools call with
  | error e =>
    have hexec : (Op.apply_patch call).exec place now.tools = (now.tools, false) := by
      simp only [Op.exec, ApplyPatchTool.execute, htarget]
      rfl
    rw [after_of_not_ok (by rw [hexec]), hexec]
    exact ⟨h.keep (.refl _) rfl, fun _ _ hop => Op.noConfusion hop, fun _ _ => by rw [hexec]⟩
  | ok patch =>
    obtain ⟨hfinishes, hlocated⟩ := clean_apply_patch hclean htarget
    have hexec : (Op.apply_patch call).exec place now.tools =
        ((ApplyPatchTool.edit (takeSnapshot now.tools call patch.path "apply_patch") call patch).1,
          (ApplyPatchTool.edit (takeSnapshot now.tools call patch.path "apply_patch") call
            patch).2.isOk) := by
      simp only [Op.exec, ApplyPatchTool.execute, htarget, isOk_map]
    have hstores : stores now.tools call patch.path =
        ((Op.apply_patch call).exec place now.tools).2 := by
      rw [hfinishes, hexec, Bool.eq_iff_iff, isOk_unit]
      exact ⟨ApplyPatchTool.edit_of_finishes
        (s := takeSnapshot now.tools call patch.path "apply_patch"),
        fun hok => (ApplyPatchTool.edit_eq_ok hok).1⟩
    refine edit_step (fun _ hop => Op.noConfusion hop) h (congrArg Prod.fst hexec) (fun hok => ?_)
      (ApplyPatchTool.keeps_of_edit (s := takeSnapshot now.tools call patch.path "apply_patch"))
      ApplyPatchTool.edit_history hstores (fun hok => ?_) hroom
    · rw [Op.edits, hok, if_pos rfl, htarget, hexec]
    · rw [hexec, isOk_unit] at hok
      obtain ⟨-, bytes, hwrite⟩ := ApplyPatchTool.edit_eq_ok hok
      have hwritten := hlocated (hstores.trans (by rw [hexec, isOk_unit]; exact hok))
      exact ⟨now.tools.disk, bytes, .refl _, hwrite, hwritten⟩

theorem undo_step (h : Mirrors max_snapshots now)
    (hclean : clean place now.tools (.file_undo call) = true) :
    Mirrors max_snapshots (now.after place (.file_undo call)) ∧
      Exact place now (.file_undo call) := by
  cases htarget : FileUndoTool.target place now.tools call with
  | error e =>
    have hexec : (Op.file_undo call).exec place now.tools = (now.tools, false) := by
      simp only [Op.exec, FileUndoTool.execute, htarget]
      rfl
    rw [after_of_not_ok (by rw [hexec]), hexec]
    refine ⟨h.keep (.refl _) rfl, fun call' path hcall hok => ?_, fun _ _ => by rw [hexec]⟩
    rw [hexec] at hok
    cases hok
  | ok path =>
    cases hi : rposition (FileHistory.isOf call.job_id (snapshotPath now.tools call path))
        now.tools.history.snapshots with
    | none =>
      obtain ⟨hsame, hfail⟩ := undo_of_none htarget hi
      have hexec : (Op.file_undo call).exec place now.tools = (now.tools, false) :=
        Prod.ext hsame hfail
      rw [after_of_not_ok (by rw [hexec]), hexec]
      refine ⟨h.keep (.refl _) rfl, fun call' path hcall hok => ?_, fun _ _ => by rw [hexec]⟩
      rw [hexec] at hok
      cases hok
    | some i =>
      obtain ⟨taken, disk, hget, hjob, hpath, hok, hlater, hkeeps, hbytes⟩ :=
        undo_of_restores h.settled htarget hi hclean
      have hmem : taken ∈ now.tools.history.snapshots := List.mem_of_getElem? hget
      have hlocation : now.tools.disk.location path = some taken.path :=
        hpath ▸ location_of_snapshotPath (hpath ▸ h.settled taken hmem)
      -- the snapshot and the edit stand at the same place of their lists
      have hplace : rposition (Edit.isOf call.job_id taken.path) now.edits = some i := by
        rw [← h.same, rposition_map, hpath]
        exact hi
      have hedits : (now.after place (.file_undo call)).edits = now.edits.eraseIdx i := by
        rw [Situation.after, Op.edits, Op.exec, hok, if_pos rfl, htarget]
        simp only [hlocation, Option.map_some, Option.getD_some, withoutLatest, hplace]
      refine ⟨⟨?_, fun older holder => ?_, ?_⟩, fun call' path' hcall _ htarget' => ?_,
        fun hfail => absurd hok (Bool.eq_false_iff.mp hfail)⟩
      · rw [hedits, ← h.same, List.eraseIdx_map]
        change ((FileUndoTool.execute place now.tools call).1.history.snapshots.map _) = _
        rw [hlater]
      · change older ∈ (FileUndoTool.execute place now.tools call).1.history.snapshots at holder
        change (FileUndoTool.execute place now.tools call).1.disk.Settled older.path
        rw [hlater] at holder ⊢
        exact (h.settled older (List.mem_of_mem_eraseIdx holder)).mono hkeeps
      · change (FileUndoTool.execute place now.tools call).1.history.max_snapshots = _
        rw [hlater]
        exact h.capacity
      · obtain rfl := Op.file_undo.inj hcall
        obtain rfl := Except.ok.inj (htarget.symm.trans htarget')
        refine ⟨taken.path, taken.edit, hlocation, ?_, ?_⟩
        · rw [latest?, hplace, Option.bind_some, ← h.same, List.getElem?_map, hget]
          rfl
        · change (FileUndoTool.execute place now.tools call).1.disk.bytes taken.path = _
          rw [hlater]
          exact hbytes

/-- What one clean call does. -/
theorem mirrors_after {op : Op} (h : Mirrors max_snapshots now)
    (hclean : clean place now.tools op = true)
    (hroom : (now.after place op).edits.length ≤ max_snapshots) :
    Mirrors max_snapshots (now.after place op) ∧ Exact place now op := by
  cases op with
  | read_file entry =>
    have hkeep : Mirrors max_snapshots (now.after place (.read_file entry)) := h.keep (.refl _) rfl
    exact ⟨hkeep, fun _ _ hop => Op.noConfusion hop, fun hfail => Bool.noConfusion hfail⟩
  | write_file call => exact write_step h hclean hroom
  | apply_patch call => exact patch_step h hclean hroom
  | file_undo call => exact undo_step h hclean

/-! ### Runs -/

theorem exact_of_mirrors {ops : List Op} (h : Mirrors max_snapshots now)
    (hclean : ∀ step ∈ now.trace place ops, clean place step.1.tools step.2 = true)
    (hroom : ∀ step ∈ now.trace place ops,
      (step.1.after place step.2).edits.length ≤ max_snapshots) :
    ∀ step ∈ now.trace place ops, Exact place step.1 step.2 := by
  induction ops generalizing now with
  | nil => exact fun step hstep => absurd hstep List.not_mem_nil
  | cons op ops ih =>
    have hfirst : (now, op) ∈ now.trace place (op :: ops) := List.mem_cons_self
    have hcall : clean place now.tools op = true := hclean (now, op) hfirst
    have hspace : (now.after place op).edits.length ≤ max_snapshots := hroom (now, op) hfirst
    obtain ⟨hafter, hexact⟩ := mirrors_after h hcall hspace
    intro step hstep
    obtain rfl | hlater := List.mem_cons.mp hstep
    · exact hexact
    · exact ih hafter (fun step hstep => hclean step (List.mem_cons_of_mem _ hstep))
        (fun step hstep => hroom step (List.mem_cons_of_mem _ hstep)) step hlater

/-- **Undo is an exact inverse** in every run whose calls are clean, of no more edits than there
is room for. -/
theorem undo_exact (place : Place) (disk : Disk) (read_state : ReadFileState) (max_snapshots : ℕ)
    (ops : List Op)
    (hroom : ∀ step ∈ (Situation.start disk read_state max_snapshots).trace place ops,
      (step.1.after place step.2).edits.length ≤ max_snapshots)
    (hclean : ∀ step ∈ (Situation.start disk read_state max_snapshots).trace place ops,
      clean place step.1.tools step.2 = true) :
    ∀ step ∈ (Situation.start disk read_state max_snapshots).trace place ops,
      Exact place step.1 step.2 :=
  exact_of_mirrors (.start disk read_state max_snapshots) hclean hroom

/-- A job writes, reads, patches and undoes twice. -/
def sampleRun : List Op :=
  [ .write_file ⟨1, .obj [("path", .str "/a.txt"), ("content", .str "one")], 0, .never, 1⟩,
    .read_file ⟨1, ["a.txt"], 0, false⟩,
    .apply_patch ⟨1, .obj [("path", .str "/a.txt"), ("old_string", .str "on"),
      ("new_string", .str "an")], 0, .never, 2⟩,
    .file_undo ⟨1, .obj [("path", .str "/a.txt")], 0, .never, 3⟩,
    .file_undo ⟨1, .obj [("path", .str "/a.txt")], 0, .never, 4⟩ ]

theorem undo_exact_sample :
    ((Situation.start .empty ⟨.empty⟩ 50).trace ⟨[], none⟩ sampleRun).length = 5 ∧
      ∀ step ∈ (Situation.start .empty ⟨.empty⟩ 50).trace ⟨[], none⟩ sampleRun,
        Exact ⟨[], none⟩ step.1 step.2 :=
  ⟨by decide +kernel, undo_exact ⟨[], none⟩ .empty ⟨.empty⟩ 50 sampleRun (by decide +kernel)
    (by decide +kernel)⟩

/-- A patch that replaces all of several variants finds more than it counted, and fails behind its
snapshot. The undo that follows takes that snapshot off and restores nothing. -/
def failedPatch : List Op :=
  [ .write_file ⟨1, .obj [("path", .str "/a.txt"), ("content", .str "it's it’s")], 0, .never, 1⟩,
    .read_file ⟨1, ["a.txt"], 0, false⟩,
    .apply_patch ⟨1, .obj [("path", .str "/a.txt"), ("old_string", .str "it's"),
      ("new_string", .str "x"), ("replace_all", .bool true)], 0, .never, 2⟩ ]

/-- The situation behind the failed patch. -/
def behindFailedPatch : Situation :=
  failedPatch.foldl (Situation.after ⟨[], none⟩) (.start .empty ⟨.empty⟩ 50)

theorem failed_patch_undone : ¬∀ (place : Place) (disk : Disk) (read_state : ReadFileState)
    (max_snapshots : ℕ) (ops : List Op),
    (∀ step ∈ (Situation.start disk read_state max_snapshots).trace place ops,
      (step.1.after place step.2).edits.length ≤ max_snapshots) →
    ∀ step ∈ (Situation.start disk read_state max_snapshots).trace place ops,
      Exact place step.1 step.2 := by
  intro h
  have hexact := h ⟨[], none⟩ .empty ⟨.empty⟩ 50
    (failedPatch ++ [.file_undo ⟨1, .obj [("path", .str "/a.txt")], 0, .never, 3⟩])
    (by decide +kernel) (behindFailedPatch, _) (.tail _ (.tail _ (.tail _ (.head _))))
  obtain ⟨file, edit, hlocation, hlatest, hbytes⟩ :=
    hexact.restores _ ["a.txt"] rfl (by decide +kernel) (by decide +kernel)
  have hfile : behindFailedPatch.tools.disk.location ["a.txt"] = some ["a.txt"] := by
    decide +kernel
  obtain rfl := Option.some.inj (hfile.symm.trans hlocation)
  have hedit : latest? behindFailedPatch.edits 1 ["a.txt"] = some ⟨1, ["a.txt"], none⟩ := by
    decide +kernel
  obtain rfl := Option.some.inj (hedit.symm.trans hlatest)
  revert hbytes
  decide +kernel

end T3Claw.Files
