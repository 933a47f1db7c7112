import T3Claw.Files.EditGuard
import T3Claw.Files.History
import T3Claw.Types.Basic

/-!
# The tools that change files

`WriteFileTool`, `ApplyPatchTool` and `FileUndoTool` over one disk, one history and one record
of what was read. An editing tool first makes sure of its file and of what to write (`target`),
then takes the snapshot, and then changes the file; only the last part changes anything.
-/

namespace T3Claw.Files

/-- `MAX_PATCH_SIZE`. -/
def MAX_PATCH_SIZE : ℕ := 10 * 1024 * 1024

/-- `MAX_WRITE_SIZE`. -/
def MAX_WRITE_SIZE : ℕ := 5 * 1024 * 1024

/-- What the tools share. -/
structure FileTools where
  disk : Disk
  history : FileHistory
  read_state : ReadFileState

/-- A call's job, its parameters, when it runs, which of its steps fail, and the id a snapshot
gets. -/
structure ToolCall where
  job_id : ℕ
  params : Json
  now : ℤ
  faults : Faults
  snapshot_id : ℕ

/-- What the tools return. -/
inductive ToolOutput where
  | written (path : String) (bytes_written : ℕ)
  | patched (path : String) (replacements : ℕ) (match_method : Option MatchMethod)
  | restored (path : String) (restored_from_snapshot : ℕ) (tool_that_modified : String)
    (snapshot_timestamp : ℤ)

/-- `require_str`. -/
def requireStr (params : Json) (name : String) : Except ToolError String :=
  match (params.get? name).bind Json.asStr? with
  | some text => .ok text
  | none => .error (.InvalidParameters s!"missing '{name}' parameter")

/-- What an edit ends with: the file is written and its time noted. -/
def finishEdit (s : FileTools) (call : ToolCall) (path : Path) (bytes : List UInt8) :
    FileTools × Except ToolError Unit :=
  match writeFile s.disk call.faults.write path bytes call.now with
  | (disk, .ok ()) =>
    let read_state :=
      if call.faults.modified then s.read_state
      else s.read_state.updateMtime call.job_id path call.now
    ({ s with disk := disk, read_state := read_state }, .ok ())
  | (disk, .error e) =>
    ({ s with disk := disk }, .error (.ExecutionFailed s!"Failed to write file: {e.text}"))

section FinishEdit

variable {s : FileTools} {call : ToolCall} {path : Path} {bytes : List UInt8}

@[simp] theorem finishEdit_history : (finishEdit s call path bytes).1.history = s.history := by
  unfold finishEdit
  split <;> rfl

theorem keeps_of_finishEdit : s.disk.Keeps (finishEdit s call path bytes).1.disk := by
  have hkeeps := keeps_of_writeFile s.disk call.faults.write path bytes call.now
  unfold finishEdit
  split
  case h_1 hwrite => rwa [hwrite] at hkeeps
  case h_2 hwrite => rwa [hwrite] at hkeeps

theorem finishEdit_eq_ok (h : (finishEdit s call path bytes).2 = .ok ()) :
    call.faults.write = none ∧
      s.disk.write path bytes call.now = .ok (finishEdit s call path bytes).1.disk := by
  unfold finishEdit at h ⊢
  split at h
  case h_1 disk hwrite =>
    have hspec := write_of_writeFile (congrArg Prod.snd hwrite)
    simp only [hwrite] at hspec ⊢
    exact hspec
  case h_2 => cases h

theorem finishEdit_of_write {later : Disk} (hfault : call.faults.write = none)
    (hwrite : s.disk.write path bytes call.now = .ok later) :
    (finishEdit s call path bytes).2 = .ok () := by
  rw [finishEdit, hfault, writeFile_of_never hwrite]

end FinishEdit

/-- The snapshot an edit takes; that it fails stops nothing. -/
def takeSnapshot (s : FileTools) (call : ToolCall) (path : Path) (tool_name : String) :
    FileTools :=
  { s with
    history := (s.history.snapshot s.disk call.faults call.snapshot_id call.job_id path tool_name
      call.now).1 }

/-! ### `write_file` -/

namespace WriteFileTool

/-- The checks before the snapshot: the file and the bytes to write. -/
def target (place : Place) (s : FileTools) (call : ToolCall) :
    Except ToolError (Path × List UInt8) := do
  let path_str ← requireStr call.params "path"
  if isWorkspacePath path_str then
    .error (.InvalidParameters
      (s!"'{path_str}' is a workspace memory file. Use the memory_write tool instead of " ++
        "write_file. For HEARTBEAT.md use target='heartbeat', for MEMORY.md use target='memory'."))
  else
    let content ← requireStr call.params "content"
    let bytes := encodeUtf8 content.toList
    if MAX_WRITE_SIZE < bytes.length then
      .error (.InvalidParameters (s!"Content too large ({bytes.length} bytes). " ++
        s!"Maximum is {MAX_WRITE_SIZE} bytes."))
    else
      let path ← validatePath (lookUp s.disk call.faults.validate) place path_str
      if isSensitivePath (lookUp s.disk call.faults.sensitive) path then
        .error (.ExecutionFailed ("Access denied: cannot write to credential files. " ++
          "Use `secret_list` and `secret_create` to manage credentials securely."))
      else .ok (path, bytes)

/-- The part behind the snapshot. -/
def edit (s : FileTools) (call : ToolCall) (path : Path) (bytes : List UInt8) :
    FileTools × Except ToolError Unit :=
  if path = [] then finishEdit s call path bytes
  else
    match createDirAll s.disk call.faults.create_dir_all path.dropLast with
    | (disk, .ok ()) => finishEdit { s with disk := disk } call path bytes
    | (disk, .error e) =>
      ({ s with disk := disk },
        .error (.ExecutionFailed s!"Failed to create directories: {e.text}"))

/-- Whether nothing fails behind the snapshot. -/
def finishes (s : FileTools) (call : ToolCall) (path : Path) (bytes : List UInt8) : Bool :=
  call.faults.create_dir_all.isNone && call.faults.write.isNone &&
    match s.disk.createDirAll path.dropLast with
    | .ok disk => (disk.write path bytes call.now).isOk
    | .error _ => false

section

variable {s : FileTools} {call : ToolCall} {path : Path} {bytes : List UInt8}

@[simp] theorem edit_history : (edit s call path bytes).1.history = s.history := by
  unfold edit
  split
  · exact finishEdit_history
  · split
    · exact finishEdit_history
    · rfl

theorem keeps_of_edit : s.disk.Keeps (edit s call path bytes).1.disk := by
  have hgrows := grows_of_createDirAll s.disk call.faults.create_dir_all path.dropLast
  unfold edit
  split
  · exact keeps_of_finishEdit
  · split
    case h_1 hcreate =>
      rw [hcreate] at hgrows
      exact hgrows.keeps.trans (keeps_of_finishEdit (s := { s with disk := _ }))
    case h_2 hcreate =>
      rw [hcreate] at hgrows
      exact hgrows.keeps

/-- **An edit that succeeds** made the directories that were missing and wrote the file. -/
theorem edit_eq_ok (h : (edit s call path bytes).2 = .ok ()) :
    finishes s call path bytes = true ∧ ∃ disk, s.disk.createDirAll path.dropLast = .ok disk ∧
      disk.write path bytes call.now = .ok (edit s call path bytes).1.disk := by
  unfold edit at h ⊢
  split at h
  case isTrue hnil =>
    obtain ⟨hfault, hwrite⟩ := finishEdit_eq_ok h
    obtain ⟨p, hlocation, hdir, -⟩ := Disk.write_eq_ok hwrite
    rw [hnil] at hlocation
    obtain rfl : [] = p := Option.some.inj hlocation
    exact absurd s.disk.root hdir
  case isFalse hnil =>
    rw [if_neg hnil]
    split at h
    case h_1 disk hcreate =>
      obtain ⟨hmkdir, hmade⟩ := createDirAll_eq_ok (congrArg Prod.snd hcreate)
      obtain ⟨hfault, hwrite⟩ := finishEdit_eq_ok h
      rw [hcreate] at hmade
      refine ⟨?_, disk, hmade, hwrite⟩
      rw [finishes, hmkdir, hfault, hmade]
      change Except.isOk (disk.write path bytes call.now) = true
      rw [hwrite]
      rfl
    case h_2 => cases h

theorem edit_of_finishes (h : finishes s call path bytes = true) :
    (edit s call path bytes).2 = .ok () := by
  rw [finishes, Bool.and_eq_true, Bool.and_eq_true] at h
  obtain ⟨⟨hmkdir, hfault⟩, hok⟩ := h
  have hmkdir := Option.isNone_iff_eq_none.mp hmkdir
  have hfault := Option.isNone_iff_eq_none.mp hfault
  cases hmade : s.disk.createDirAll path.dropLast with
  | error e =>
    rw [hmade] at hok
    cases hok
  | ok disk =>
    rw [hmade] at hok
    cases hwrite : disk.write path bytes call.now with
    | error e =>
      simp only [hwrite] at hok
      cases hok
    | ok later =>
      have hnil : path ≠ [] := by
        rintro rfl
        obtain ⟨p, hlocation, hdir, -⟩ := Disk.write_eq_ok hwrite
        obtain rfl : [] = p := Option.some.inj hlocation
        exact hdir disk.root
      rw [edit, if_neg hnil, hmkdir, createDirAll_of_never hmade]
      exact finishEdit_of_write (s := { s with disk := disk }) hfault hwrite

end

/-- `WriteFileTool::execute`. -/
def execute (place : Place) (s : FileTools) (call : ToolCall) :
    FileTools × Except ToolError ToolOutput :=
  match target place s call with
  | .error e => (s, .error e)
  | .ok (path, bytes) =>
    let (s, result) := edit (takeSnapshot s call path "write_file") call path bytes
    (s, result.map fun _ => .written path.display bytes.length)

end WriteFileTool

/-! ### `apply_patch` -/

namespace ApplyPatchTool

/-- What a patch replaces by what, and where. -/
structure Patch where
  path : Path
  old_string : List Char
  new_string : List Char
  replace_all : Bool
  content : List Char
  encoding : FileEncoding
  line_ending : LineEnding
  match_count : ℕ
  match_method : MatchMethod

/-- The checks before the snapshot. -/
def target (place : Place) (s : FileTools) (call : ToolCall) : Except ToolError Patch := do
  let path_str ← requireStr call.params "path"
  if isWorkspacePath path_str then
    .error (.InvalidParameters (s!"'{path_str}' is a workspace memory file. " ++
      "Use the memory_write tool instead of apply_patch."))
  else
    let old_string ← requireStr call.params "old_string"
    let new_string ← requireStr call.params "new_string"
    if old_string = new_string then
      .error (.InvalidParameters "old_string and new_string are identical. No edit needed.")
    else
      let replace_all := ((call.params.get? "replace_all").bind Json.asBool?).getD false
      let path ← validatePath (lookUp s.disk call.faults.validate) place path_str
      if isSensitivePath (lookUp s.disk call.faults.sensitive) path then
        .error (.ExecutionFailed ("Access denied: cannot modify credential files. " ++
          "Use `secret_list` and `secret_create` to manage credentials securely."))
      else
        let metadata ← (match call.faults.metadata, s.disk.metadata path with
          | some text, _ => .error (.ExecutionFailed s!"Cannot access file: {text}")
          | none, .error e => .error (.ExecutionFailed s!"Cannot access file: {e.text}")
          | none, .ok metadata => .ok metadata)
        if MAX_PATCH_SIZE < metadata.len then
          .error (.ExecutionFailed (s!"File too large ({metadata.len} bytes). " ++
            s!"Maximum for apply_patch is {MAX_PATCH_SIZE} bytes."))
        else
          s.read_state.checkBeforeEdit call.job_id path metadata.modified
          let bytes ← (match call.faults.read, s.disk.read path with
            | some text, _ => .error (.ExecutionFailed s!"Failed to read file: {text}")
            | none, .error e => .error (.ExecutionFailed s!"Failed to read file: {e.text}")
            | none, .ok bytes => .ok bytes)
          let (content, encoding, line_ending) ← decodeFile bytes
          let (match_count, match_method) := countMatches content old_string.toList
          if match_count = 0 then
            let preview := if 200 < (encodeUtf8 old_string.toList).length then
              String.ofList (old_string.toList.take 200) ++ "..." else old_string
            .error (.ExecutionFailed (s!"String to replace not found in {path.display}.\n" ++
              s!"old_string:\n{preview}\n\n" ++ "Make sure old_string matches the file content " ++
              "exactly, including whitespace and indentation."))
          else if !replace_all && 1 < match_count then
            .error (.ExecutionFailed (s!"Found {match_count} matches for the specified text in " ++
              s!"{path.display}. Provide more context in old_string to make it unique, or set " ++
              "replace_all=true."))
          else
            .ok ⟨path, old_string.toList, new_string.toList, replace_all, content, encoding,
              line_ending, match_count, match_method⟩

/-- The loop that collects the matches of `replace_all`, over no more than `fuel` of them. -/
def collectMatches (content old_string : List Char) :
    (fuel search_offset : ℕ) → Except ToolError (List (ℕ × ℕ))
  | 0, _ => .ok []
  | fuel + 1, search_offset =>
    match findMatchFrom content old_string search_offset with
    | none => .ok []
    | some m =>
      if m.stop ≤ m.start then
        .error (.ExecutionFailed "Internal error: apply_patch produced an empty match.")
      else (collectMatches content old_string fuel m.stop).map ((m.start, m.stop) :: ·)

/-- The loop ends before its fuel does: each match stops behind the one before. -/
theorem collectMatches_fuel {content old_string : List Char} {fuel search_offset : ℕ}
    (h : content.length < search_offset + fuel) :
    collectMatches content old_string (fuel + 1) search_offset =
      collectMatches content old_string fuel search_offset := by
  induction fuel generalizing search_offset with
  | zero =>
    rw [Nat.add_zero] at h
    simp only [collectMatches, findMatchFrom, if_pos h]
  | succ fuel ih =>
    rw [collectMatches, collectMatches]
    cases hfound : findMatchFrom content old_string search_offset with
    | none => rfl
    | some m =>
      have hstart : search_offset ≤ m.start := start_of_findMatchFrom hfound
      by_cases hempty : m.stop ≤ m.start
      · simp only [hempty, if_pos]
      · simp only [hempty, if_neg, not_false_eq_true]
        rw [ih (by omega)]

/-- The content with each match replaced. -/
def rebuild (content new_string : List Char) : (last : ℕ) → List (ℕ × ℕ) → List Char
  | last, [] => content.drop last
  | last, (start, stop) :: rest =>
    (content.drop last).take (start - last) ++ new_string ++ rebuild content new_string stop rest

/-- The content after the replacement. -/
def newContent (patch : Patch) : Except ToolError (List Char) :=
  if patch.replace_all then do
    let found ← collectMatches patch.content patch.old_string (patch.content.length + 1) 0
    if found.length ≠ patch.match_count then
      .error (.ExecutionFailed (s!"Internal error: expected {patch.match_count} matches in " ++
        s!"{patch.path.display}, but found {found.length} while applying replacements."))
    else .ok (rebuild patch.content patch.new_string 0 found)
  else
    match findMatch patch.content patch.old_string with
    | none => .error (.ExecutionFailed
        s!"String to replace not found in {patch.path.display} while applying the edit.")
    | some m => .ok (rebuild patch.content patch.new_string 0 [(m.start, m.stop)])

/-- The part behind the snapshot. -/
def edit (s : FileTools) (call : ToolCall) (patch : Patch) : FileTools × Except ToolError Unit :=
  match newContent patch with
  | .error e => (s, .error e)
  | .ok new_content =>
    finishEdit s call patch.path (encodeFile new_content patch.encoding patch.line_ending)

/-- Whether nothing fails behind the snapshot. -/
def finishes (s : FileTools) (call : ToolCall) (patch : Patch) : Bool :=
  call.faults.write.isNone &&
    match newContent patch with
    | .ok content =>
      (s.disk.write patch.path (encodeFile content patch.encoding patch.line_ending) call.now).isOk
    | .error _ => false

section

variable {s : FileTools} {call : ToolCall} {patch : Patch}

@[simp] theorem edit_history : (edit s call patch).1.history = s.history := by
  unfold edit
  split
  · rfl
  · exact finishEdit_history

theorem keeps_of_edit : s.disk.Keeps (edit s call patch).1.disk := by
  unfold edit
  split
  · exact .refl s.disk
  · exact keeps_of_finishEdit

theorem edit_eq_ok (h : (edit s call patch).2 = .ok ()) :
    finishes s call patch = true ∧
      ∃ bytes, s.disk.write patch.path bytes call.now = .ok (edit s call patch).1.disk := by
  unfold edit at h ⊢
  split at h
  case h_1 => cases h
  case h_2 content hcontent =>
    obtain ⟨hfault, hwrite⟩ := finishEdit_eq_ok h
    refine ⟨?_, _, hwrite⟩
    rw [finishes, hfault, hcontent]
    change Except.isOk (s.disk.write _ _ call.now) = true
    rw [hwrite]
    rfl

theorem edit_of_finishes (h : finishes s call patch = true) :
    (edit s call patch).2 = .ok () := by
  rw [finishes, Bool.and_eq_true] at h
  obtain ⟨hfault, hok⟩ := h
  have hfault := Option.isNone_iff_eq_none.mp hfault
  cases hcontent : newContent patch with
  | error e =>
    rw [hcontent] at hok
    cases hok
  | ok content =>
    simp only [hcontent] at hok
    cases hwrite : s.disk.write patch.path
        (encodeFile content patch.encoding patch.line_ending) call.now with
    | error e =>
      rw [hwrite] at hok
      cases hok
    | ok later =>
      rw [edit, hcontent]
      exact finishEdit_of_write hfault hwrite

end

/-- `ApplyPatchTool::execute`. -/
def execute (place : Place) (s : FileTools) (call : ToolCall) :
    FileTools × Except ToolError ToolOutput :=
  match target place s call with
  | .error e => (s, .error e)
  | .ok patch =>
    let (s, result) := edit (takeSnapshot s call patch.path "apply_patch") call patch
    let replacements := if patch.replace_all then patch.match_count else 1
    let match_method := if patch.match_method = .Exact then none else some patch.match_method
    (s, result.map fun _ => .patched patch.path.display replacements match_method)

end ApplyPatchTool

/-! ### `file_undo` -/

namespace FileUndoTool

/-- The file that is asked for. -/
def target (place : Place) (s : FileTools) (call : ToolCall) : Except ToolError Path := do
  let path_str ← requireStr call.params "path"
  validatePath (lookUp s.disk call.faults.validate) place path_str

/-- `FileUndoTool::execute`. -/
def execute (place : Place) (s : FileTools) (call : ToolCall) :
    FileTools × Except ToolError ToolOutput :=
  match target place s call with
  | .error e => (s, .error e)
  | .ok path =>
    let (history, disk, restored) :=
      s.history.restoreLatest s.disk call.faults call.job_id path call.now
    let s := { s with history := history, disk := disk }
    match restored with
    | .error e => (s, .error e)
    | .ok (some taken) =>
      (s, .ok (.restored path.display taken.sequence_number taken.tool_name taken.timestamp))
    | .ok none => (s, .error (.ExecutionFailed
        (s!"No file history found for {path.display}. Only changes made by apply_patch or " ++
          "write_file in the current session can be undone.")))

end FileUndoTool

end T3Claw.Files
