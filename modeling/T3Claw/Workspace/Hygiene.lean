import T3Claw.Workspace.Listing

/-!
# Memory hygiene

`workspace/hygiene.rs`: a pass goes through the `.config` documents of the primary scope, deletes
the stale documents of each directory they enable hygiene for, and then prunes the versions of what
is left there. The directory is listed over every scope that is read. A deletion reaches the
primary scope only, but the pruning reads a document wherever it is found; and a directory below
`.system/` is cleaned like any other. Where the tables are SQLite's, a document called `.CONFIG` is
taken for a `.config` (`OwnConfigs`).
-/

namespace T3Claw

namespace Workspace

open Conc Conc.Prog
open scoped List

/-- Root prefix for all machine-managed system state. -/
def system_paths.SYSTEM_PREFIX : List Char := ".system/".toList

/-- The clock counts milliseconds. -/
def HOUR : ℕ := 3600000

def DAY : ℕ := 24 * HOUR

/-- Configuration for workspace hygiene. -/
structure HygieneConfig where
  enabled : Bool
  version_keep_count : ℕ
  cadence_hours : ℕ

/-- Summary of what a hygiene pass cleaned up. -/
structure HygieneReport where
  directories_cleaned : List (List Char × ℕ)
  versions_pruned : ℕ
  skipped : Bool

/-- What a pass finds: the tables, whether another pass is running, and when the last one was. -/
structure HygieneWorld where
  db : Db
  running : Bool
  last_run : Option ℕ

/-- Paths that must never be deleted by hygiene, regardless of directory. -/
def HYGIENE_PROTECTED_PATHS : List (List Char) :=
  [ paths.MEMORY, paths.IDENTITY, paths.SOUL, paths.AGENTS, paths.USER, paths.HEARTBEAT,
    paths.README, paths.TOOLS, paths.BOOTSTRAP ]

section

variable (toLowercase : List Char → List Char) (ws : Workspace)

/-- `is_protected_document`. -/
def isProtectedDocument (path : List Char) : Bool :=
  let file_name_lower := toLowercase (fileName path)
  (HYGIENE_PROTECTED_PATHS ++ IDENTITY_PATHS).any fun p => toLowercase p == file_name_lower

/-- The path of an entry of a listing of `directory`. -/
def entryPath (directory : List Char) (entry : WorkspaceEntry) : List Char :=
  if directory <+: entry.path then entry.path else directory ++ entry.path

/-- The checks `cleanup_directory` makes of an entry, with the time that is too old. -/
def isStale (cutoff : ℤ) (entry : WorkspaceEntry) : Bool :=
  !entry.is_directory && !isConfigPath entry.path &&
    !isProtectedDocument toLowercase entry.path &&
    entry.updated_at.any fun updated_at : ℕ => (updated_at : ℤ) < cutoff

/-- The body of the loop of `cleanup_directory`. -/
def cleanupEntry (directory : List Char) (cutoff : ℤ) (state : ℕ × Db) (entry : WorkspaceEntry) :
    ℕ × Db :=
  if isStale toLowercase cutoff entry then
    match ws.delete (entryPath directory entry) state.2 with
    | none => state
    | some db => (state.1 + 1, db)
  else state

/-- `cleanup_directory`. -/
def cleanupDirectory (directory : List Char) (retention_days : ℕ) (db : Db) : ℕ × Db :=
  let cutoff : ℤ := db.now - (retention_days * DAY : ℕ)
  (ws.list directory db).foldl (cleanupEntry toLowercase ws directory cutoff) (0, db)

/-- The directory a `.config` document enables hygiene for, and for how long its documents are
kept; a `.config` at the root enables it for none. -/
def hygieneDirectory? (doc : MemoryDocument) : Option (List Char × ℕ) :=
  match (DocumentMetadata.fromValue doc.metadata).hygiene, directoryOf? doc.path with
  | some hygiene, some directory =>
    if hygiene.enabled then some (directory, hygiene.retention_days) else none
  | _, _ => none

/-- One directory of the first loop of `run_if_due`. -/
def cleanupStep (state : List (List Char × ℕ) × Db) (target : List Char × ℕ) :
    List (List Char × ℕ) × Db :=
  let result := cleanupDirectory toLowercase ws target.1 target.2 state.2
  (state.1 ++ [(target.1, result.1)], result.2)

/-- One entry of the second loop of `run_if_due`. -/
def pruneEntry (directory : List Char) (keep_count : ℕ) (state : ℕ × Db)
    (entry : WorkspaceEntry) : ℕ × Db :=
  if entry.is_directory || isConfigPath entry.path then state
  else
    match ((ws.read (entryPath directory entry)).run storageMachine state.2).1 with
    | none => state
    | some doc =>
      let result := state.2.pruneVersions doc.id keep_count
      (state.1 + result.1, result.2)

/-- One directory of the second loop of `run_if_due`. -/
def pruneStep (keep_count : ℕ) (state : ℕ × Db) (directory : List Char) : ℕ × Db :=
  (ws.list directory state.2).foldl (pruneEntry ws directory keep_count) state

/-- A pass is made: hygiene is enabled, none is running, and the cadence has elapsed. -/
def isDue (config : HygieneConfig) (w : HygieneWorld) : Bool :=
  config.enabled && !w.running &&
    !w.last_run.any fun last_run => w.db.now < last_run + config.cadence_hours * HOUR

/-- `run_if_due`. -/
def runIfDue (config : HygieneConfig) (w : HygieneWorld) : HygieneReport × HygieneWorld :=
  if isDue config w then
    let targets := (w.db.findConfigDocuments ws.user_id ws.agent_id).filterMap hygieneDirectory?
    let cleaned := targets.foldl (cleanupStep toLowercase ws) ([], w.db)
    let pruned :=
      if 0 < config.version_keep_count then
        (cleaned.1.map (·.1)).foldl
          (pruneStep ws (min config.version_keep_count (2 ^ 31 - 1))) (0, cleaned.2)
      else (0, cleaned.2)
    (⟨cleaned.1, pruned.1, false⟩, ⟨pruned.2, false, some w.db.now⟩)
  else (⟨[], 0, true⟩, w)

end

/-- Only a `.config` enables hygiene for a directory, no document of another spelling. -/
def OwnConfigs (ws : Workspace) (db : Db) : Prop :=
  ∀ doc ∈ db.findConfigDocuments ws.user_id ws.agent_id, (hygieneDirectory? doc).isSome →
    isConfigPath doc.path = true

instance (ws : Workspace) (db : Db) : Decidable (OwnConfigs ws db) :=
  inferInstanceAs (Decidable (∀ doc ∈ db.findConfigDocuments ws.user_id ws.agent_id, _))

/-! ### What is promised -/

/-- The `.config` of a directory of a scope enables hygiene. -/
def Enables (db : Db) (user_id : String) (agent_id : Option ℕ) (dir : List Char) (days : ℕ) :
    Prop :=
  ∃ c ∈ db.rows, c.user_id = user_id ∧ c.agent_id = agent_id ∧
    c.path = dir ++ '/' :: CONFIG_FILE_NAME ∧
    (DocumentMetadata.fromValue c.metadata).hygiene = some ⟨true, days⟩

/-- A path is that of a file directly in a directory. -/
def IsIn (dir path : List Char) : Prop := ∃ name, path = dir ++ '/' :: name ∧ '/' ∉ name

/-- The document is directly in a directory of its scope whose `.config` enables hygiene. -/
def InHygieneDirectory (db : Db) (d : MemoryDocument) : Prop :=
  ∃ dir days, Enables db d.user_id d.agent_id dir days ∧ IsIn dir d.path

/-- A document that hygiene may delete. -/
structure MayDelete (toLowercase : List Char → List Char) (ws : Workspace) (db : Db)
    (d : MemoryDocument) : Prop where
  primary : d.user_id = ws.user_id ∧ d.agent_id = ws.agent_id
  expired : ∃ dir days, Enables db ws.user_id ws.agent_id dir days ∧ IsIn dir d.path ∧
    d.updated_at + days * DAY < db.now
  config : fileName d.path ≠ CONFIG_FILE_NAME
  unprotected : ∀ p ∈ HYGIENE_PROTECTED_PATHS ++ IDENTITY_PATHS,
    toLowercase p ≠ toLowercase (fileName d.path)
  system : ¬system_paths.SYSTEM_PREFIX <+: d.path

/-- Only what may be deleted is, and a document that is in no directory with hygiene keeps all its
versions. -/
structure Hygienic (toLowercase : List Char → List Char) (ws : Workspace) (db db' : Db) :
    Prop where
  deleted : ∀ d ∈ db.rows, (∀ d' ∈ db'.rows, d'.id ≠ d.id) → MayDelete toLowercase ws db d
  versions : ∀ d ∈ db.documents, ¬InHygieneDirectory db d.toMemoryDocument →
    ∃ d' ∈ db'.documents, d'.id = d.id ∧ d'.versions = d.versions

/-! ### Names in a path -/

theorem takeWhile_reverse_append {dir name : List Char} (h : '/' ∉ name) :
    (dir ++ '/' :: name).reverse.takeWhile (· ≠ '/') = name.reverse ∧
      (dir ++ '/' :: name).reverse.dropWhile (· ≠ '/') = '/' :: dir.reverse := by
  have hall : ∀ c ∈ name.reverse, decide (c ≠ '/') = true := fun c hc =>
    decide_eq_true (ne_of_mem_of_not_mem (List.mem_reverse.mp hc) h)
  have hrev : (dir ++ '/' :: name).reverse = name.reverse ++ '/' :: dir.reverse := by simp
  rw [hrev, List.takeWhile_append_of_pos hall, List.dropWhile_append_of_pos hall]
  simp

theorem fileName_append {dir name : List Char} (h : '/' ∉ name) :
    fileName (dir ++ '/' :: name) = name := by
  rw [fileName, (takeWhile_reverse_append h).1, List.reverse_reverse]

theorem directoryOf?_append {dir name : List Char} (h : '/' ∉ name) :
    directoryOf? (dir ++ '/' :: name) = some (dir ++ ['/']) := by
  rw [directoryOf?, if_pos (by simp), (takeWhile_reverse_append h).2, List.reverse_cons,
    List.reverse_reverse]

theorem slash_notMem_config : '/' ∉ CONFIG_FILE_NAME := by decide

theorem isConfigPath_append {dir name : List Char} (h : '/' ∉ name) :
    isConfigPath (dir ++ '/' :: name) = true ↔ name = CONFIG_FILE_NAME := by
  rw [isConfigPath, fileName_append h, beq_iff_eq]

/-- A file below a path lies in a directory that the path is, or that lies below it. -/
theorem prefix_directory {p dir name : List Char} (hname : '/' ∉ name)
    (h : p ++ ['/'] <+: dir ++ '/' :: name) (other : List Char) :
    p ++ ['/'] <+: dir ++ '/' :: other := by
  have hdir : dir ++ ['/'] <+: dir ++ '/' :: name := ⟨name, by simp⟩
  obtain hle | hle := List.prefix_or_prefix_of_prefix h hdir
  · exact hle.trans ⟨other, by simp⟩
  · -- a longer path would have its last slash in the name of the file
    obtain ⟨rest, hrest⟩ := hle
    obtain ⟨tail, htail⟩ := h
    have hsplit : rest ++ tail = name := by
      rw [← hrest] at htail
      simpa using htail
    obtain rfl | ⟨front, c, rfl⟩ := rest.eq_nil_or_concat
    · rw [← hrest, List.append_nil]
      exact ⟨other, by simp⟩
    · have hc : c = '/' := by
        have hlast := congrArg List.getLast? hrest
        rw [List.concat_eq_append, ← List.append_assoc, List.getLast?_concat,
          List.getLast?_concat] at hlast
        exact Option.some.inj hlast
      exact absurd (by rw [← hsplit, hc]; simp) hname

variable {toLowercase : List Char → List Char} {ws : Workspace}

theorem isProtectedDocument_eq_false {path : List Char} :
    isProtectedDocument toLowercase path = false ↔
      ∀ p ∈ HYGIENE_PROTECTED_PATHS ++ IDENTITY_PATHS,
        toLowercase p ≠ toLowercase (fileName path) := by
  rw [isProtectedDocument, List.any_eq_false]
  simp only [beq_iff_eq]

/-- A path with a directory ends in a name behind its last slash. -/
theorem exists_append_fileName {path : List Char} (h : '/' ∈ path) :
    ∃ dir, path = dir ++ '/' :: fileName path := by
  have hmem : '/' ∈ path.reverse := List.mem_reverse.mpr h
  obtain ⟨rest, hrest⟩ : ∃ rest, path.reverse.dropWhile (· ≠ '/') = '/' :: rest := by
    have hne : path.reverse.dropWhile (· ≠ '/') ≠ [] := fun hnil => by
      simpa using List.dropWhile_eq_nil_iff.mp hnil '/' hmem
    obtain ⟨c, rest, hcons⟩ := List.exists_cons_of_ne_nil hne
    have hc := List.head_dropWhile_not (· ≠ '/') hne
    simp only [hcons, List.head_cons, ne_eq, decide_eq_false_iff_not, not_not] at hc
    exact ⟨rest, hc ▸ hcons⟩
  refine ⟨rest.reverse, ?_⟩
  rw [fileName, ← List.singleton_append, ← List.append_assoc, ← List.reverse_cons, ← hrest,
    ← List.reverse_append, List.takeWhile_append_dropWhile, List.reverse_reverse]

/-- The targets of a pass are the directories whose `.config` enables hygiene. -/
theorem mem_targets {db : Db} (hown : OwnConfigs ws db) {directory : List Char} {days : ℕ} :
    (directory, days) ∈
        (db.findConfigDocuments ws.user_id ws.agent_id).filterMap hygieneDirectory? ↔
      ∃ dir, directory = dir ++ ['/'] ∧ Enables db ws.user_id ws.agent_id dir days := by
  rw [List.mem_filterMap]
  constructor
  · rintro ⟨doc, hdoc, htarget⟩
    have hconfig := hown doc hdoc (by rw [htarget, Option.isSome_some])
    obtain ⟨d, hd, rfl⟩ := List.mem_map.mp hdoc
    obtain ⟨hd, hat⟩ := List.mem_filter.mp hd
    obtain ⟨huser, hagent, -⟩ := of_decide_eq_true hat
    rw [hygieneDirectory?] at htarget
    split at htarget
    case h_2 => exact nomatch htarget
    case h_1 hygiene directory' hhygiene hdir =>
      split at htarget
      case isFalse => exact nomatch htarget
      case isTrue henabled =>
        obtain ⟨rfl, rfl⟩ := Prod.mk.inj (Option.some.inj htarget)
        -- the enabling `.config` lies in a directory of its own
        have hslash : '/' ∈ d.path := by
          by_contra hnone
          rw [directoryOf?, if_neg hnone] at hdir
          cases hdir
        obtain ⟨dir, hpath⟩ := exists_append_fileName hslash
        rw [beq_iff_eq.mp hconfig] at hpath
        rw [hpath, directoryOf?_append slash_notMem_config] at hdir
        refine ⟨dir, (Option.some.inj hdir).symm, d.toMemoryDocument,
          List.mem_map_of_mem hd, huser, hagent, hpath, ?_⟩
        rw [hhygiene, ← henabled]
  · rintro ⟨dir, rfl, c, hc, huser, hagent, hpath, hmeta⟩
    obtain ⟨d, hd, rfl⟩ := List.mem_map.mp hc
    -- both backends find a path that ends in the very name
    have hlikes : db.backend.LikesConfig d.path := by
      rw [hpath]
      cases db.backend with
      | postgres => exact ⟨dir, rfl⟩
      | libsql =>
        have hfold : (dir ++ '/' :: CONFIG_FILE_NAME).map Char.toLower =
            dir.map Char.toLower ++ '/' :: CONFIG_FILE_NAME := by
          rw [List.map_append]
          rfl
        exact ⟨dir.map Char.toLower, hfold.symm⟩
    refine ⟨d.toMemoryDocument, List.mem_map_of_mem (List.mem_filter.mpr ⟨hd, ?_⟩), ?_⟩
    · exact decide_eq_true ⟨huser, hagent, .inl hlikes⟩
    · rw [hygieneDirectory?, hmeta, hpath, directoryOf?_append slash_notMem_config]
      rfl

/-! ### What is deleted -/

/-- Some rows were deleted: those with `R`. -/
def Deletes (R : MemoryDocument → Prop) (db db' : Db) : Prop :=
  db'.now = db.now ∧ ∃ q : StoredDocument → Bool,
    db'.documents.values = db.documents.values.filter q ∧
      ∀ d ∈ db.documents, q d = false ↔ R d.toMemoryDocument

section

variable {R R' : MemoryDocument → Prop} {db db' db'' : Db}

theorem deletes_refl (db : Db) : Deletes (fun _ => False) db db :=
  ⟨rfl, fun _ => true, (List.filter_eq_self.mpr fun _ _ => rfl).symm, by simp⟩

theorem Deletes.congr (h : Deletes R db db') (heq : ∀ d ∈ db.rows, R d ↔ R' d) :
    Deletes R' db db' := by
  obtain ⟨hnow, q, hvalues, hq⟩ := h
  exact ⟨hnow, q, hvalues, fun d hd => (hq d hd).trans (heq _ (List.mem_map_of_mem hd))⟩

theorem Deletes.mem_documents (h : Deletes R db db') {d : StoredDocument} :
    d ∈ db'.documents ↔ d ∈ db.documents ∧ ¬R d.toMemoryDocument := by
  obtain ⟨-, q, hvalues, hq⟩ := h
  rw [KeyedStore.mem_def, hvalues, List.mem_filter]
  refine and_congr_right fun hd => ?_
  rw [← hq d hd, Bool.not_eq_false]

theorem Deletes.mem_rows (h : Deletes R db db') {d : MemoryDocument} :
    d ∈ db'.rows ↔ d ∈ db.rows ∧ ¬R d := by
  simp only [Db.rows, List.mem_map]
  constructor
  · rintro ⟨x, hx, rfl⟩
    obtain ⟨hx, hR⟩ := h.mem_documents.mp hx
    exact ⟨⟨x, hx, rfl⟩, hR⟩
  · rintro ⟨⟨x, hx, rfl⟩, hR⟩
    exact ⟨x, h.mem_documents.mpr ⟨hx, hR⟩, rfl⟩

theorem Deletes.reads (h : Deletes R db db') {d : MemoryDocument} :
    Reads ws db' d ↔ Reads ws db d ∧ ¬R d := by
  rw [Reads, Reads, h.mem_rows, and_right_comm]

theorem Deletes.trans (h : Deletes R db db') (h' : Deletes R' db' db'') :
    Deletes (fun d => R d ∨ R' d) db db'' := by
  have hmem := @h.mem_documents
  obtain ⟨hnow, q, hvalues, hq⟩ := h
  obtain ⟨hnow', q', hvalues', hq'⟩ := h'
  refine ⟨hnow'.trans hnow, fun d => q' d && q d, ?_, fun d hd => ?_⟩
  · rw [hvalues', hvalues, List.filter_filter]
  · rw [Bool.and_eq_false_iff]
    by_cases hR : R d.toMemoryDocument
    · simp [hR, (hq d hd).mpr hR]
    · have hkept : q d = true := by rwa [← Bool.not_eq_false, hq d hd]
      simp [hkept, hR, hq' d (hmem.mpr ⟨hd, hR⟩)]

end

variable (ws) in
/-- Deleting a path deletes the rows of the primary scope there. -/
theorem deletes_delete (path : List Char) (db : Db) :
    Deletes (fun d => d.user_id = ws.user_id ∧ d.agent_id = ws.agent_id ∧
        d.path = normalizePath path) db ((ws.delete path db).getD db) := by
  rw [delete, Db.deleteDocumentByPath, Db.getDocumentByPath]
  cases hrow : db.rowAt ws.user_id ws.agent_id (normalizePath path) with
  | none =>
    refine (deletes_refl db).congr fun d hd => iff_of_false id fun hat => ?_
    obtain ⟨x, hx, rfl⟩ := List.mem_map.mp hd
    exact absurd (decide_eq_true hat) (List.find?_eq_none.mp hrow x hx)
  | some d =>
    exact ⟨rfl, _, rfl, fun x _ => by
      rw [Bool.not_eq_false', decide_eq_true_eq]
      rfl⟩

/-- An entry of a listing has a document deleted. -/
def Hits (toLowercase : List Char → List Char) (ws : Workspace) (directory : List Char)
    (cutoff : ℤ) (e : WorkspaceEntry) (d : MemoryDocument) : Prop :=
  isStale toLowercase cutoff e = true ∧ d.user_id = ws.user_id ∧ d.agent_id = ws.agent_id ∧
    d.path = normalizePath (entryPath directory e)

theorem deletes_cleanupEntry (directory : List Char) (cutoff : ℤ) (state : ℕ × Db)
    (e : WorkspaceEntry) : Deletes (Hits toLowercase ws directory cutoff e) state.2
      (cleanupEntry toLowercase ws directory cutoff state e).2 := by
  rw [cleanupEntry]
  split
  case isTrue hstale =>
    have hdel := (deletes_delete ws (entryPath directory e) state.2).congr
      fun d _ => (and_iff_right hstale).symm
    cases hdelete : ws.delete (entryPath directory e) state.2 with
    | none => rwa [hdelete] at hdel
    | some db => rwa [hdelete] at hdel
  case isFalse hstale =>
    exact (deletes_refl _).congr fun d _ => iff_of_false id fun h => hstale h.1

theorem deletes_cleanupEntries (directory : List Char) (cutoff : ℤ)
    (entries : List WorkspaceEntry) (state : ℕ × Db) :
    Deletes (fun d => ∃ e ∈ entries, Hits toLowercase ws directory cutoff e d) state.2
      (entries.foldl (cleanupEntry toLowercase ws directory cutoff) state).2 := by
  induction entries generalizing state with
  | nil => exact (deletes_refl _).congr (by simp)
  | cons e entries ih =>
    exact ((deletes_cleanupEntry directory cutoff state e).trans (ih _)).congr (by simp)

/-- A document directly in a directory that is too old to be kept, is a file in every scope that is
read, and is nowhere newer. -/
structure Cleanable (toLowercase : List Char → List Char) (ws : Workspace) (db : Db)
    (dir : List Char) (days : ℕ) (d : MemoryDocument) : Prop where
  primary : d.user_id = ws.user_id ∧ d.agent_id = ws.agent_id
  inside : IsIn dir d.path
  config : isConfigPath d.path = false
  unprotected : isProtectedDocument toLowercase d.path = false
  file : ∀ x, Reads ws db x → ¬d.path ++ ['/'] <+: x.path
  stale : ∀ x, Reads ws db x → x.path = d.path → x.updated_at + days * DAY < db.now

/-- Every path is one that `normalize_path` leaves as it is. -/
def Normal (db : Db) : Prop := ∀ d ∈ db.rows, IsNormal d.path

instance : DecidablePred Normal := fun db => inferInstanceAs (Decidable (∀ d ∈ db.rows, _))

theorem Deletes.normal {R : MemoryDocument → Prop} {db db' : Db} (h : Deletes R db db')
    (hnormal : Normal db) : Normal db' := fun d hd => hnormal d (h.mem_rows.mp hd).1

/-- The directory of a `.config`, where paths are normal. -/
theorem Enables.directory {db : Db} (hnormal : Normal db) {user_id : String}
    {agent_id : Option ℕ} {dir : List Char} {days : ℕ} (h : Enables db user_id agent_id dir days) :
    dir ≠ [] ∧ dir.getLast? ≠ some '/' ∧ normalizeDirectory (dir ++ ['/']) = dir := by
  obtain ⟨c, hc, -, -, hpath, -⟩ := h
  have hcnormal := hnormal c hc
  rw [hpath] at hcnormal
  exact hcnormal.directory

theorem reads_of_primary {db : Db} {d : MemoryDocument} (hd : d ∈ db.rows)
    (h : d.user_id = ws.user_id ∧ d.agent_id = ws.agent_id) : Reads ws db d :=
  ⟨hd, h.1 ▸ List.mem_cons_self, h.2⟩

/-- An entry that is not a directory is that of a document. -/
theorem Lists.exists_file {db : Db} {dir : List Char} {entries : List WorkspaceEntry}
    (h : Lists (Reads ws db) dir entries) {e : WorkspaceEntry} (he : e ∈ entries)
    (hfile : e.is_directory = false) : ∃ d, Reads ws db d ∧ d.path = e.path := by
  obtain ⟨d, hd, hat | hbelow⟩ := (h.exists_iff (h.child e he)).mp ⟨e, he, rfl⟩
  · exact ⟨d, hd, hat⟩
  · exact absurd ((h.isDirectory he).mpr ⟨d, hd, hbelow⟩) (by simp [hfile])

theorem entryPath_child {directory : List Char} {e : WorkspaceEntry}
    (h : IsChild directory e.path) : entryPath directory e = e.path := by
  obtain ⟨name, -, -, hpath⟩ := h
  rw [entryPath, if_pos ⟨name, hpath.symm⟩]

theorem isIn_iff_isChild {dir path : List Char} (hnormal : IsNormal path) :
    IsIn dir path ↔ IsChild (dir ++ ['/']) path := by
  constructor
  · rintro ⟨name, rfl, hname⟩
    refine ⟨name, ?_, hname, by simp⟩
    rintro rfl
    exact hnormal.ne_append_slash dir rfl
  · rintro ⟨name, -, hname, rfl⟩
    exact ⟨name, by simp, hname⟩

/-- What the checks of an entry come to, for an entry that is not a directory. -/
theorem isStale_iff {db : Db} {dir : List Char} {entries : List WorkspaceEntry}
    (h : Lists (Reads ws db) dir entries) {e : WorkspaceEntry} (he : e ∈ entries) (now span : ℕ) :
    isStale toLowercase ((now : ℤ) - (span : ℕ)) e = true ↔
      e.is_directory = false ∧ isConfigPath e.path = false ∧
        isProtectedDocument toLowercase e.path = false ∧
        ∀ x, Reads ws db x → AtOrBelow e.path x.path → x.updated_at + span < now := by
  obtain ⟨u, hu⟩ := Option.isSome_iff_exists.mp (h.timed e he)
  have hold : (∀ x, Reads ws db x → AtOrBelow e.path x.path → x.updated_at + span < now) ↔
      (u : ℤ) < (now : ℤ) - (span : ℕ) := by
    have hnew := not_congr (h.isNotBefore he (now - span))
    have hleft : ¬e.NotBefore (now - span) ↔ (u : ℤ) < (now : ℤ) - (span : ℕ) := by
      simp only [WorkspaceEntry.NotBefore, hu, Option.some.injEq, exists_eq_left']
      omega
    rw [← hleft, hnew]
    simp only [not_exists, not_and, not_le]
    refine forall_congr' fun x => forall₂_congr fun _ _ => ?_
    omega
  rw [hold, isStale, hu]
  simp only [Bool.and_eq_true, Bool.not_eq_true', Option.any_some, decide_eq_true_eq, and_assoc]

variable (toLowercase ws) in
/-- Cleaning a directory deletes its documents that are cleanable. -/
theorem deletes_cleanupDirectory {db : Db} (hnormal : Normal db) {dir : List Char}
    (hdir : dir ≠ [] ∧ dir.getLast? ≠ some '/' ∧ normalizeDirectory (dir ++ ['/']) = dir)
    (days : ℕ) : Deletes (Cleanable toLowercase ws db dir days) db
      (cleanupDirectory toLowercase ws (dir ++ ['/']) days db).2 := by
  have hlist := lists_list ws db hdir.1 hdir.2.1 hdir.2.2
  refine (deletes_cleanupEntries _ _ _ _).congr fun d hd => ?_
  constructor
  · rintro ⟨e, he, hstale, huser, hagent, hpath⟩
    obtain ⟨hfile, hconfig, hprotected, hold⟩ := (isStale_iff hlist he _ _).mp hstale
    obtain ⟨x, hx, hxpath⟩ := hlist.exists_file he hfile
    have hchild := hlist.child e he
    have henormal : IsNormal e.path := hxpath ▸ hnormal x hx.1
    rw [entryPath_child hchild, henormal] at hpath
    refine ⟨⟨huser, hagent⟩, hpath ▸ (isIn_iff_isChild henormal).mpr hchild, hpath ▸ hconfig,
      hpath ▸ hprotected, fun y hy hbelow => ?_, fun y hy hat => hold y hy (.inl (hat.trans hpath))⟩
    rw [hpath] at hbelow
    exact absurd ((hlist.isDirectory he).mpr ⟨y, hy, hbelow⟩) (by simp [hfile])
  · intro h
    have hchild := (isIn_iff_isChild (hnormal d hd)).mp h.inside
    obtain ⟨e, he, hpath⟩ := (hlist.exists_iff hchild).mpr
      ⟨d, reads_of_primary hd h.primary, .inl rfl⟩
    refine ⟨e, he, (isStale_iff hlist he _ _).mpr ⟨?_, hpath ▸ h.config, hpath ▸ h.unprotected,
      fun x hx hat => ?_⟩, h.primary.1, h.primary.2, ?_⟩
    · refine Bool.eq_false_iff.mpr fun hisdir => ?_
      obtain ⟨x, hx, hbelow⟩ := (hlist.isDirectory he).mp hisdir
      exact h.file x hx (hpath ▸ hbelow)
    · rw [hpath] at hat
      exact hat.elim (h.stale x hx) fun hbelow => absurd hbelow (h.file x hx)
    · rw [entryPath_child (hpath ▸ hchild), hpath]
      exact (hnormal d hd).symm

/-- A document that one of some targets has deleted. -/
def CleanedBy (toLowercase : List Char → List Char) (ws : Workspace) (db : Db)
    (targets : List (List Char × ℕ)) (d : MemoryDocument) : Prop :=
  ∃ dir days, (dir ++ ['/'], days) ∈ targets ∧ Cleanable toLowercase ws db dir days d

section

variable {db db' : Db} {targets : List (List Char × ℕ)}

/-- The targets are directories with hygiene. -/
def Enabled (ws : Workspace) (db : Db) (targets : List (List Char × ℕ)) : Prop :=
  ∀ target ∈ targets, ∃ dir, target.1 = dir ++ ['/'] ∧
    Enables db ws.user_id ws.agent_id dir target.2

/-- The `.config` of a cleaned directory stays, so that what was a directory is one. -/
theorem below_iff (henabled : Enabled ws db targets)
    (h : Deletes (CleanedBy toLowercase ws db targets) db db') (p : List Char) :
    (∃ x, Reads ws db' x ∧ p ++ ['/'] <+: x.path) ↔ ∃ x, Reads ws db x ∧ p ++ ['/'] <+: x.path := by
  constructor
  · rintro ⟨x, hx, hbelow⟩
    exact ⟨x, (h.reads.mp hx).1, hbelow⟩
  · rintro ⟨x, hx, hbelow⟩
    by_cases hcleaned : CleanedBy toLowercase ws db targets x
    · obtain ⟨dir, days, htarget, hclean⟩ := hcleaned
      obtain ⟨name, hpath, hname⟩ := hclean.inside
      obtain ⟨dir', hdir, c, hc, huser, hagent, hcpath, -⟩ := henabled _ htarget
      obtain rfl := List.append_cancel_right hdir
      refine ⟨c, h.reads.mpr ⟨reads_of_primary hc ⟨huser, hagent⟩, ?_⟩, ?_⟩
      · rintro ⟨_, _, _, hcclean⟩
        have hconfig := hcclean.config
        rw [hcpath, Bool.eq_false_iff] at hconfig
        exact hconfig ((isConfigPath_append slash_notMem_config).mpr rfl)
      · rw [hpath] at hbelow
        rw [hcpath]
        exact prefix_directory hname hbelow _
    · exact ⟨x, h.reads.mpr ⟨hx, hcleaned⟩, hbelow⟩

/-- What is cleanable stays so while other directories are cleaned. -/
theorem cleanable_iff (henabled : Enabled ws db targets)
    (h : Deletes (CleanedBy toLowercase ws db targets) db db') {d : MemoryDocument}
    (hkept : ¬CleanedBy toLowercase ws db targets d) (dir : List Char) (days : ℕ) :
    Cleanable toLowercase ws db' dir days d ↔ Cleanable toLowercase ws db dir days d := by
  have hbelow := not_congr (below_iff henabled h d.path)
  simp only [not_exists, not_and] at hbelow
  constructor
  · intro hclean
    refine ⟨hclean.primary, hclean.inside, hclean.config, hclean.unprotected,
      hbelow.mp hclean.file, fun x hx hat => ?_⟩
    rw [← h.1]
    refine hclean.stale x (h.reads.mpr ⟨hx, ?_⟩) hat
    -- what deletes a document deletes those of the primary scope with its path
    rintro ⟨dir', days', htarget, hx'⟩
    refine hkept ⟨dir', days', htarget, hclean.primary, hat ▸ hx'.inside, hclean.config,
      hclean.unprotected, hbelow.mp hclean.file, fun y hy hyat => ?_⟩
    exact hx'.stale y hy (hyat.trans hat.symm)
  · intro hclean
    refine ⟨hclean.primary, hclean.inside, hclean.config, hclean.unprotected,
      hbelow.mpr hclean.file, fun x hx hat => ?_⟩
    rw [h.1]
    exact hclean.stale x (h.reads.mp hx).1 hat

variable (toLowercase) in
/-- The first loop deletes what is cleanable in one of the directories. -/
theorem deletes_targets (hnormal : Normal db) (targets : List (List Char × ℕ))
    (henabled : Enabled ws db targets) :
    Deletes (CleanedBy toLowercase ws db targets) db
        (targets.foldl (cleanupStep toLowercase ws) ([], db)).2 ∧
      (targets.foldl (cleanupStep toLowercase ws) ([], db)).1.map (·.1) = targets.map (·.1) := by
  induction targets using List.reverseRecOn with
  | nil => exact ⟨(deletes_refl db).congr (by simp [CleanedBy]), rfl⟩
  | append_singleton targets target ih =>
    obtain ⟨hdel, hnames⟩ := ih fun t ht => henabled t (List.mem_append_left _ ht)
    rw [List.foldl_append, List.foldl_cons, List.foldl_nil]
    set state := targets.foldl (cleanupStep toLowercase ws) ([], db) with hstate
    refine ⟨?_, by rw [cleanupStep, List.map_append, List.map_append, hnames]; rfl⟩
    obtain ⟨dir, hdir, henables⟩ := henabled target (List.mem_append_right _ List.mem_cons_self)
    have hstep := deletes_cleanupDirectory toLowercase ws
      (hdel.normal hnormal) (henables.directory hnormal) target.2
    rw [cleanupStep, hdir]
    refine (hdel.trans hstep).congr fun d hd => ?_
    have hsplit : CleanedBy toLowercase ws db (targets ++ [target]) d ↔
        CleanedBy toLowercase ws db targets d ∨ Cleanable toLowercase ws db dir target.2 d := by
      simp only [CleanedBy, List.mem_append, List.mem_singleton, or_and_right, exists_or]
      refine or_congr_right ⟨?_, fun hclean => ⟨dir, target.2, by rw [← hdir], hclean⟩⟩
      rintro ⟨dir', days', heq, hclean⟩
      rw [← heq] at hdir ⊢
      rwa [← List.append_cancel_right hdir]
    rw [hsplit]
    by_cases hkept : CleanedBy toLowercase ws db targets d
    · simp [hkept]
    · rw [cleanable_iff (fun t ht => henabled t (List.mem_append_left _ ht)) hdel hkept]

end

/-! ### What is pruned -/

/-- Of the documents with `found` the older versions were deleted, and nothing else happened. -/
def Prunes (keep_count : ℕ) (found : MemoryDocument → Prop) (db db' : Db) : Prop :=
  ∃ F : StoredDocument → StoredDocument,
    db'.documents.values = db.documents.values.map F ∧
      ∀ d ∈ db.documents, (F d).toMemoryDocument = d.toMemoryDocument ∧
        (F d).versions <+ d.versions ∧
        ((F d).versions = d.versions ↔
          (found d.toMemoryDocument → newestVersions keep_count d.versions = d.versions))

section

variable {keep_count : ℕ} {found found' : MemoryDocument → Prop} {db db' db'' : Db}

theorem prunes_refl (db : Db) : Prunes keep_count (fun _ => False) db db :=
  ⟨id, (List.map_id _).symm, fun _ _ => ⟨rfl, .refl _, by simp⟩⟩

theorem Prunes.congr (h : Prunes keep_count found db db')
    (heq : ∀ d ∈ db.rows, found d ↔ found' d) : Prunes keep_count found' db db' := by
  obtain ⟨F, hvalues, hF⟩ := h
  refine ⟨F, hvalues, fun d hd => ?_⟩
  rw [← heq _ (List.mem_map_of_mem hd)]
  exact hF d hd

/-- Pruning leaves the documents as they are. -/
theorem Prunes.rows_eq (h : Prunes keep_count found db db') : db'.rows = db.rows := by
  obtain ⟨F, hvalues, hF⟩ := h
  rw [Db.rows, hvalues, List.map_map]
  exact List.map_congr_left fun d hd => (hF d hd).1

theorem Prunes.trans (h : Prunes keep_count found db db')
    (h' : Prunes keep_count found' db' db'') :
    Prunes keep_count (fun d => found d ∨ found' d) db db'' := by
  obtain ⟨F, hvalues, hF⟩ := h
  obtain ⟨G, hvalues', hG⟩ := h'
  refine ⟨G ∘ F, by rw [hvalues', hvalues, List.map_map], fun d hd => ?_⟩
  obtain ⟨hrow, hsub, hiff⟩ := hF d hd
  have hmem : F d ∈ db'.documents := by
    rw [KeyedStore.mem_def, hvalues]
    exact List.mem_map_of_mem hd
  obtain ⟨hrow', hsub', hiff'⟩ := hG (F d) hmem
  refine ⟨hrow'.trans hrow, hsub'.trans hsub, ?_⟩
  rw [hrow] at hiff'
  simp only [Function.comp_apply]
  constructor
  · intro heq
    -- what is not lost by both is lost by neither
    have hfirst : (F d).versions = d.versions := hsub.antisymm (heq ▸ hsub')
    rw [hfirst] at hiff'
    exact fun hor => hor.elim (hiff.mp hfirst) (hiff'.mp heq)
  · intro hnone
    have hfirst := hiff.mpr fun hd => hnone (.inl hd)
    rw [hfirst] at hiff'
    exact hiff'.mpr fun hd => hnone (.inr hd)

theorem prunes_pruneVersions (db : Db) (id : ℕ) :
    Prunes keep_count (fun d => d.id = id) db (db.pruneVersions id keep_count).2 := by
  refine ⟨fun d => if d.id = id then d.withNewest keep_count else d, rfl, fun d _ => ?_⟩
  by_cases hid : d.id = id
  · dsimp only
    rw [if_pos hid]
    exact ⟨rfl, List.filter_sublist, by simp [StoredDocument.withNewest, hid]⟩
  · dsimp only
    rw [if_neg hid]
    exact ⟨rfl, .refl _, by simp [hid]⟩

end

/-- A document is looked up among the rows. -/
theorem getDocumentByPath_eq (db : Db) (user_id : String) (agent_id : Option ℕ)
    (path : List Char) : db.getDocumentByPath user_id agent_id path = db.rows.find? fun d =>
      decide (d.user_id = user_id ∧ d.agent_id = agent_id ∧ d.path = path) := by
  rw [Db.rows, List.find?_map]
  rfl

theorem of_getDocumentByPath {db : Db} {user_id : String} {agent_id : Option ℕ}
    {path : List Char} {d : MemoryDocument}
    (h : db.getDocumentByPath user_id agent_id path = some d) :
    d ∈ db.rows ∧ d.user_id = user_id ∧ d.agent_id = agent_id ∧ d.path = path := by
  rw [getDocumentByPath_eq] at h
  have hat := List.find?_some h
  exact ⟨List.mem_of_find?_eq_some h, of_decide_eq_true hat⟩

/-- What a workspace reads at a path. -/
def readAt (ws : Workspace) (db : Db) (path : List Char) : Option MemoryDocument :=
  ((ws.read path).run storageMachine db).1

theorem readAt_congr {db db' : Db} (h : db.rows = db'.rows) (path : List Char) :
    readAt ws db path = readAt ws db' path := by
  have hget (uid : String) (p : List Char) :
      db.getDocumentByPath uid ws.agent_id p = db'.getDocumentByPath uid ws.agent_id p := by
    rw [getDocumentByPath_eq, getDocumentByPath_eq, h]
  have hquery (p : List Char) :
      ((query (.getDocumentByPath ws.user_id ws.agent_id p)).run storageMachine db).1 =
        ((query (.getDocumentByPath ws.user_id ws.agent_id p)).run storageMachine db').1 :=
    hget ws.user_id p
  simp only [readAt, read]
  split
  · exact hquery _
  · split
    · rw [run_getDocumentByPathMulti, run_getDocumentByPathMulti]
      simp only [hget]
    · exact hquery _

/-- A path in a directory is read in the scopes in turn. -/
theorem readAt_eq (db : Db) {path : List Char} (hnormal : IsNormal path) (hslash : '/' ∈ path) :
    readAt ws db path =
      ws.readUserIds.findSome? fun uid => db.getDocumentByPath uid ws.agent_id path := by
  simp only [readAt, read, show normalizePath path = path from hnormal,
    not_isIdentityPath hslash, Bool.and_false]
  split
  case isTrue h => exact absurd h (by simp)
  case isFalse =>
    split
    case isTrue => rw [run_getDocumentByPathMulti]
    case isFalse hmulti =>
      have hnone : ws.additional_read_scopes = [] := by
        simpa [isMultiScope, readUserIds] using hmulti
      rw [readUserIds, hnone, List.findSome?_singleton, show normalizePath path = path from hnormal]
      rfl

/-- An entry has a document pruned. -/
def Finds (ws : Workspace) (db : Db) (directory : List Char) (e : WorkspaceEntry)
    (d : MemoryDocument) : Prop :=
  e.is_directory = false ∧ isConfigPath e.path = false ∧
    ∃ x, readAt ws db (entryPath directory e) = some x ∧ d.id = x.id

variable (ws) in
theorem prunes_pruneEntry {db : Db} (directory : List Char) (keep_count : ℕ) (state : ℕ × Db)
    (hrows : state.2.rows = db.rows) (e : WorkspaceEntry) :
    Prunes keep_count (Finds ws db directory e) state.2
      (pruneEntry ws directory keep_count state e).2 := by
  have hread : ((ws.read (entryPath directory e)).run storageMachine state.2).1 =
    readAt ws db (entryPath directory e) := readAt_congr hrows _
  rw [pruneEntry, hread]
  split
  case isTrue hskip =>
    refine (prunes_refl _).congr fun d _ => iff_of_false id fun h => ?_
    simp [h.1, h.2.1] at hskip
  case isFalse hskip =>
    simp only [Bool.or_eq_true, not_or, Bool.not_eq_true] at hskip
    cases hx : readAt ws db (entryPath directory e) with
    | none => exact (prunes_refl _).congr fun d _ => by simp [Finds, hx]
    | some x =>
      exact (prunes_pruneVersions state.2 x.id).congr fun d _ => by simp [Finds, hx, hskip]

variable (ws) in
theorem prunes_pruneEntries {db : Db} (directory : List Char) (keep_count : ℕ)
    (entries : List WorkspaceEntry) (state : ℕ × Db) (hrows : state.2.rows = db.rows) :
    Prunes keep_count (fun d => ∃ e ∈ entries, Finds ws db directory e d) state.2
      (entries.foldl (pruneEntry ws directory keep_count) state).2 := by
  induction entries generalizing state with
  | nil => exact (prunes_refl _).congr (by simp)
  | cons e entries ih =>
    have hstep := prunes_pruneEntry ws directory keep_count state hrows e
    exact (hstep.trans (ih _ (hstep.rows_eq.trans hrows))).congr (by simp)

theorem list_congr {db db' : Db} (h : db.rows = db'.rows) (directory : List Char) :
    ws.list directory db = ws.list directory db' := by
  simp only [list, Db.listDirectory, h]

/-- The second loop prunes what is found in one of the directories. -/
theorem prunes_directories {db : Db} (keep_count : ℕ) (directories : List (List Char))
    (state : ℕ × Db) (hrows : state.2.rows = db.rows) :
    Prunes keep_count (fun d => ∃ directory ∈ directories, ∃ e ∈ ws.list directory db,
      Finds ws db directory e d) state.2
      (directories.foldl (pruneStep ws keep_count) state).2 := by
  induction directories generalizing state with
  | nil => exact (prunes_refl _).congr (by simp)
  | cons directory directories ih =>
    have hstep := prunes_pruneEntries ws directory keep_count (ws.list directory db) state
      hrows
    rw [← list_congr hrows] at hstep
    refine (hstep.trans (ih _ (hstep.rows_eq.trans hrows))).congr fun d _ => ?_
    rw [list_congr hrows]
    simp

/-! ### When a pass keeps the promise -/

/-- A pass deletes the document: it is cleanable in a directory with hygiene. -/
def Cleaned (toLowercase : List Char → List Char) (ws : Workspace) (db : Db)
    (d : MemoryDocument) : Prop :=
  ∃ dir days, Enables db ws.user_id ws.agent_id dir days ∧
    Cleanable toLowercase ws db dir days d

/-- A document of another scope that a pass prunes: it is in a directory with hygiene, a file in
every scope that is read, and the first of its path once the primary scope has none there. -/
structure Exposed (toLowercase : List Char → List Char) (ws : Workspace) (db : Db)
    (d : MemoryDocument) : Prop where
  inside : ∃ dir days, Enables db ws.user_id ws.agent_id dir days ∧ IsIn dir d.path
  config : isConfigPath d.path = false
  file : ∀ x, Reads ws db x → ¬d.path ++ ['/'] <+: x.path
  uncovered : ∀ x ∈ db.rows, x.user_id = ws.user_id → x.agent_id = ws.agent_id →
    x.path = d.path → Cleaned toLowercase ws db x
  first : (ws.additional_read_scopes.findSome? fun scope =>
    db.getDocumentByPath scope ws.agent_id d.path) = some d

/-- How many versions a pass keeps. -/
def HygieneConfig.keepCount (config : HygieneConfig) : ℕ :=
  min config.version_keep_count (2 ^ 31 - 1)

/-- Tables that a pass does no harm to. -/
structure Tidy (toLowercase : List Char → List Char) (ws : Workspace) (config : HygieneConfig)
    (db : Db) : Prop where
  system : ∀ d ∈ db.rows, Cleaned toLowercase ws db d → ¬system_paths.SYSTEM_PREFIX <+: d.path
  exposed : 0 < config.version_keep_count → ∀ d ∈ db.documents,
    Exposed toLowercase ws db d.toMemoryDocument → ¬InHygieneDirectory db d.toMemoryDocument →
      newestVersions config.keepCount d.versions = d.versions

section

variable {db db₁ : Db}

theorem eq_of_id {d d' : MemoryDocument} (hd : d ∈ db.rows) (hd' : d' ∈ db.rows)
    (h : d.id = d'.id) : d = d' := by
  obtain ⟨x, hx, rfl⟩ := List.mem_map.mp hd
  obtain ⟨y, hy, rfl⟩ := List.mem_map.mp hd'
  rw [KeyedStore.eq_of_mem hx hy h]

variable (ws) in
/-- The targets of a pass. -/
theorem enabled_targets {db : Db} (hown : OwnConfigs ws db) : Enabled ws db
    ((db.findConfigDocuments ws.user_id ws.agent_id).filterMap hygieneDirectory?) :=
  fun _ htarget => (mem_targets hown).mp htarget

theorem cleanedBy_targets (hown : OwnConfigs ws db) {d : MemoryDocument} : CleanedBy toLowercase ws db
    ((db.findConfigDocuments ws.user_id ws.agent_id).filterMap hygieneDirectory?) d ↔
      Cleaned toLowercase ws db d := by
  refine exists_congr fun dir => exists_congr fun days => and_congr_left fun _ => ?_
  rw [mem_targets hown]
  refine ⟨?_, fun h => ⟨dir, rfl, h⟩⟩
  rintro ⟨dir', heq, h⟩
  rwa [List.append_cancel_right heq]

/-- What is cleaned is in a directory with hygiene. -/
theorem Cleaned.inHygieneDirectory {d : MemoryDocument} (h : Cleaned toLowercase ws db d) :
    InHygieneDirectory db d := by
  obtain ⟨dir, days, henables, hclean⟩ := h
  exact ⟨dir, days, hclean.primary.1 ▸ hclean.primary.2 ▸ henables, hclean.inside⟩

/-- What is cleaned may be deleted, but for what is below `.system/`. -/
theorem Cleaned.mayDelete_iff {d : MemoryDocument} (hd : d ∈ db.rows)
    (h : Cleaned toLowercase ws db d) :
    MayDelete toLowercase ws db d ↔ ¬system_paths.SYSTEM_PREFIX <+: d.path := by
  refine ⟨fun hmay => hmay.system, fun hsystem => ?_⟩
  obtain ⟨dir, days, henables, hclean⟩ := h
  refine ⟨hclean.primary, ⟨dir, days, henables, hclean.inside,
    hclean.stale d (reads_of_primary hd hclean.primary) rfl⟩, fun hconfig => ?_,
    isProtectedDocument_eq_false.mp hclean.unprotected, hsystem⟩
  have hno := hclean.config
  rw [isConfigPath, hconfig] at hno
  exact absurd hno (by simp)

variable (hnormal : Normal db) (h₁ : Deletes (Cleaned toLowercase ws db) db db₁)

include hnormal h₁

/-- What the second loop finds in the directories, once they are cleaned. -/
theorem exists_finds_iff {d : MemoryDocument} (hd : d ∈ db₁.rows) {dir : List Char} {days : ℕ}
    (henables : Enables db ws.user_id ws.agent_id dir days) :
    (∃ e ∈ ws.list (dir ++ ['/']) db₁, Finds ws db₁ (dir ++ ['/']) e d) ↔
      IsIn dir d.path ∧ isConfigPath d.path = false ∧
        (∀ x, Reads ws db₁ x → ¬d.path ++ ['/'] <+: x.path) ∧ readAt ws db₁ d.path = some d := by
  have hdir := henables.directory hnormal
  have hlist := lists_list ws db₁ hdir.1 hdir.2.1 hdir.2.2
  have hnormal₁ := h₁.normal hnormal
  constructor
  · rintro ⟨e, he, hfile, hconfig, x, hx, hid⟩
    have hchild := hlist.child e he
    obtain ⟨y, hy, hypath⟩ := hlist.exists_file he hfile
    have henormal : IsNormal e.path := hypath ▸ hnormal₁ y hy.1
    have hin := (isIn_iff_isChild henormal).mpr hchild
    have hslash : '/' ∈ e.path := by
      obtain ⟨name, hpath, -⟩ := hin
      simp [hpath]
    rw [entryPath_child hchild] at hx
    have hfound := hx
    rw [readAt_eq db₁ henormal hslash] at hfound
    obtain ⟨uid, -, hget⟩ := List.exists_of_findSome?_eq_some hfound
    obtain ⟨hx₁, -, -, hxpath⟩ := of_getDocumentByPath hget
    -- the entry is read back by its path: the document found is this one
    have hxd : d = x := eq_of_id hd hx₁ hid
    have hpath : d.path = e.path := hxd ▸ hxpath
    rw [hpath]
    refine ⟨hin, hconfig, fun z hz hbelow => ?_, hxd ▸ hx⟩
    exact absurd ((hlist.isDirectory he).mpr ⟨z, hz, hbelow⟩) (by simp [hfile])
  · rintro ⟨hin, hconfig, hfile, hread⟩
    have hchild := (isIn_iff_isChild (hnormal₁ d hd)).mp hin
    have hslash : '/' ∈ d.path := by
      obtain ⟨name, hpath, -⟩ := hin
      simp [hpath]
    have hreads : Reads ws db₁ d := by
      have hfound := hread
      rw [readAt_eq db₁ (hnormal₁ d hd) hslash] at hfound
      obtain ⟨uid, huid, hget⟩ := List.exists_of_findSome?_eq_some hfound
      obtain ⟨-, huser, hagent, -⟩ := of_getDocumentByPath hget
      exact ⟨hd, huser ▸ huid, hagent⟩
    obtain ⟨e, he, hpath⟩ := (hlist.exists_iff hchild).mpr ⟨d, hreads, .inl rfl⟩
    refine ⟨e, he, Bool.eq_false_iff.mpr fun hisdir => ?_, hpath ▸ hconfig, d, ?_, rfl⟩
    · obtain ⟨x, hx, hbelow⟩ := (hlist.isDirectory he).mp hisdir
      exact hfile x hx (hpath ▸ hbelow)
    · rw [entryPath_child (hpath ▸ hchild), hpath, hread]

omit hnormal in
/-- What is read in another scope stays. -/
theorem getDocumentByPath_cleaned {scope : String} (hscope : scope ≠ ws.user_id)
    (agent_id : Option ℕ) (path : List Char) :
    db₁.getDocumentByPath scope agent_id path = db.getDocumentByPath scope agent_id path := by
  obtain ⟨-, q, hvalues, hq⟩ := h₁
  rw [Db.getDocumentByPath, Db.getDocumentByPath, Db.rowAt, Db.rowAt, hvalues, List.find?_filter]
  congr 1
  refine List.find?_congr fun d hd => ?_
  by_cases hat : StoredDocument.IsAt scope agent_id path d
  · have hkept : q d = true := by
      rw [← Bool.not_eq_false, hq d hd]
      rintro ⟨_, _, _, hclean⟩
      exact hscope (hat.1.symm.trans hclean.primary.1)
    simp [hat, hkept]
  · simp [hat]

/-- Another scope is read after the primary one, where what was cleaned is gone. -/
theorem readAt_cleaned {d : MemoryDocument} (hd : d ∈ db.rows) (hslash : '/' ∈ d.path)
    (hother : ¬(d.user_id = ws.user_id ∧ d.agent_id = ws.agent_id)) :
    readAt ws db₁ d.path = some d ↔
      (∀ x ∈ db.rows, x.user_id = ws.user_id → x.agent_id = ws.agent_id → x.path = d.path →
        Cleaned toLowercase ws db x) ∧
      (ws.additional_read_scopes.findSome? fun scope =>
        db.getDocumentByPath scope ws.agent_id d.path) = some d := by
  have hadd : (ws.additional_read_scopes.findSome? fun scope =>
      db₁.getDocumentByPath scope ws.agent_id d.path) =
      ws.additional_read_scopes.findSome? fun scope =>
        db.getDocumentByPath scope ws.agent_id d.path := by
    have hne := (List.nodup_cons.mp ws.scopes_nodup).1
    have hmap (db : Db) : (ws.additional_read_scopes.findSome? fun scope =>
        db.getDocumentByPath scope ws.agent_id d.path) =
        (ws.additional_read_scopes.map fun scope =>
          db.getDocumentByPath scope ws.agent_id d.path).findSome? id := by
      rw [List.findSome?_map]
      rfl
    rw [hmap, hmap]
    exact congrArg (List.findSome? id) (List.map_congr_left fun scope hscope =>
      getDocumentByPath_cleaned h₁ (ne_of_mem_of_not_mem hscope hne) _ _)
  rw [readAt_eq db₁ (hnormal d hd) hslash, readUserIds, List.findSome?_cons, hadd]
  cases hget : db₁.getDocumentByPath ws.user_id ws.agent_id d.path with
  | some x =>
    obtain ⟨hx₁, huser, hagent, hpath⟩ := of_getDocumentByPath hget
    obtain ⟨hx, hkept⟩ := h₁.mem_rows.mp hx₁
    refine iff_of_false (fun heq => hother ?_) fun h => hkept (h.1 x hx huser hagent hpath)
    rw [← Option.some.inj heq]
    exact ⟨huser, hagent⟩
  | none =>
    rw [getDocumentByPath_eq, List.find?_eq_none] at hget
    refine (and_iff_right fun x hx huser hagent hpath => ?_).symm
    by_contra hkept
    exact hget x (h₁.mem_rows.mpr ⟨hx, hkept⟩) (decide_eq_true ⟨huser, hagent, hpath⟩)

omit hnormal in
/-- What was below a path is still there once directories are cleaned. -/
theorem below_cleaned (hown : OwnConfigs ws db) (p : List Char) :
    (∀ x, Reads ws db₁ x → ¬p ++ ['/'] <+: x.path) ↔
      ∀ x, Reads ws db x → ¬p ++ ['/'] <+: x.path := by
  have hdel := h₁.congr fun d _ => (cleanedBy_targets hown (d := d)).symm
  have hbelow := not_congr (below_iff (enabled_targets ws hown) hdel p)
  simpa only [not_exists, not_and] using hbelow

/-- A document in no directory with hygiene is pruned if it is exposed. -/
theorem finds_iff_exposed (hown : OwnConfigs ws db) {d : MemoryDocument} (hd : d ∈ db.rows)
    (hout : ¬InHygieneDirectory db d) :
    (∃ directory ∈ ((db.findConfigDocuments ws.user_id ws.agent_id).filterMap
        hygieneDirectory?).map (·.1),
      ∃ e ∈ ws.list directory db₁, Finds ws db₁ directory e d) ↔ Exposed toLowercase ws db d := by
  have hkept : d ∈ db₁.rows :=
    h₁.mem_rows.mpr ⟨hd, fun hclean => hout hclean.inHygieneDirectory⟩
  constructor
  · rintro ⟨directory, hdirectory, hfinds⟩
    obtain ⟨⟨directory, days⟩, htarget, rfl⟩ := List.mem_map.mp hdirectory
    obtain ⟨dir, rfl, henables⟩ := (mem_targets hown).mp htarget
    obtain ⟨hin, hconfig, hfile, hread⟩ := (exists_finds_iff hnormal h₁ hkept henables).mp hfinds
    have hother : ¬(d.user_id = ws.user_id ∧ d.agent_id = ws.agent_id) := fun h =>
      hout ⟨dir, days, h.1 ▸ h.2 ▸ henables, hin⟩
    have hslash : '/' ∈ d.path := by
      obtain ⟨name, hpath, -⟩ := hin
      simp [hpath]
    obtain ⟨huncovered, hfirst⟩ := (readAt_cleaned hnormal h₁ hd hslash hother).mp hread
    exact ⟨⟨dir, days, henables, hin⟩, hconfig, (below_cleaned h₁ hown _).mp hfile, huncovered,
      hfirst⟩
  · intro h
    obtain ⟨dir, days, henables, hin⟩ := h.inside
    have hother : ¬(d.user_id = ws.user_id ∧ d.agent_id = ws.agent_id) := fun h =>
      hout ⟨dir, days, h.1 ▸ h.2 ▸ henables, hin⟩
    have hslash : '/' ∈ d.path := by
      obtain ⟨name, hpath, -⟩ := hin
      simp [hpath]
    refine ⟨dir ++ ['/'], List.mem_map.mpr ⟨_, (mem_targets hown).mpr ⟨dir, rfl, henables⟩, rfl⟩,
      ?_⟩
    exact (exists_finds_iff hnormal h₁ hkept henables).mpr ⟨hin, h.config,
      (below_cleaned h₁ hown _).mpr h.file,
      (readAt_cleaned hnormal h₁ hd hslash hother).mpr ⟨h.uncovered, h.first⟩⟩

end

variable (toLowercase ws) in
/-- What a pass that is made does to the tables. -/
theorem runIfDue_spec {config : HygieneConfig} {w : HygieneWorld} (hnormal : Normal w.db)
    (hown : OwnConfigs ws w.db) (hdue : isDue config w = true) : ∃ db₁,
      Deletes (Cleaned toLowercase ws w.db) w.db db₁ ∧
      Prunes config.keepCount (fun d => 0 < config.version_keep_count ∧
        ∃ directory ∈ ((w.db.findConfigDocuments ws.user_id ws.agent_id).filterMap
          hygieneDirectory?).map (·.1),
          ∃ e ∈ ws.list directory db₁, Finds ws db₁ directory e d)
        db₁ (runIfDue toLowercase ws config w).2.db := by
  obtain ⟨hdel, hnames⟩ := deletes_targets toLowercase hnormal _
    (enabled_targets ws hown)
  refine ⟨_, hdel.congr fun _ _ => cleanedBy_targets hown, ?_⟩
  rw [runIfDue, if_pos hdue]
  by_cases hkeep : 0 < config.version_keep_count
  · simp only [hkeep, true_and]
    rw [hnames]
    exact prunes_directories _ _ (0, _) rfl
  · simp only [hkeep, false_and]
    exact prunes_refl _

section

variable {config : HygieneConfig} {w : HygieneWorld} (hnormal : Normal w.db)
  (hown : OwnConfigs ws w.db) (hdue : isDue config w = true)

include hnormal hown hdue

/-- What is gone after a pass was cleaned. -/
theorem gone_iff_cleaned {d : MemoryDocument} (hd : d ∈ w.db.rows) :
    (∀ d' ∈ (runIfDue toLowercase ws config w).2.db.rows, d'.id ≠ d.id) ↔
      Cleaned toLowercase ws w.db d := by
  obtain ⟨db₁, hdel, hprune⟩ := runIfDue_spec toLowercase ws hnormal hown hdue
  rw [hprune.rows_eq]
  constructor
  · intro hnone
    by_contra hkept
    exact hnone d (hdel.mem_rows.mpr ⟨hd, hkept⟩) rfl
  · intro hclean d' hd' hid
    obtain ⟨hd'', hkept⟩ := hdel.mem_rows.mp hd'
    exact hkept (eq_of_id hd'' hd hid ▸ hclean)

/-- A document in no directory with hygiene loses versions when it is exposed. -/
theorem keeps_iff {d : StoredDocument} (hd : d ∈ w.db.documents)
    (hout : ¬InHygieneDirectory w.db d.toMemoryDocument) :
    (∃ d' ∈ (runIfDue toLowercase ws config w).2.db.documents,
      d'.id = d.id ∧ d'.versions = d.versions) ↔
      (0 < config.version_keep_count → Exposed toLowercase ws w.db d.toMemoryDocument →
        newestVersions config.keepCount d.versions = d.versions) := by
  obtain ⟨db₁, hdel, hprune⟩ := runIfDue_spec toLowercase ws hnormal hown hdue
  have hd₁ : d ∈ db₁.documents :=
    hdel.mem_documents.mpr ⟨hd, fun hclean => hout hclean.inHygieneDirectory⟩
  rw [← finds_iff_exposed hnormal hdel hown (List.mem_map_of_mem hd) hout, ← and_imp]
  obtain ⟨F, hvalues, hF⟩ := hprune
  obtain ⟨hrow, -, hiff⟩ := hF d hd₁
  rw [← hiff]
  constructor
  · rintro ⟨d', hd', hid, hversions⟩
    rw [KeyedStore.mem_def, hvalues, List.mem_map] at hd'
    obtain ⟨x, hx, rfl⟩ := hd'
    have hxd : x = d := by
      refine KeyedStore.eq_of_mem hx hd₁ ?_
      rw [← congrArg MemoryDocument.id (hF x hx).1]
      exact hid
    rwa [hxd] at hversions
  · intro hversions
    refine ⟨F d, ?_, congrArg MemoryDocument.id hrow, hversions⟩
    rw [KeyedStore.mem_def, hvalues]
    exact List.mem_map_of_mem hd₁

end

/-- The `.config` of a directory keeps its documents for a day, and two days have gone by since its
one document was written. -/
def directoryDb (dir : List Char) : Db where
  backend := .libsql
  documents := ⟨[⟨⟨0, "u", none, dir ++ '/' :: CONFIG_FILE_NAME, [], 0,
      .obj [("hygiene", .obj [("enabled", .bool true), ("retention_days", .num 1)])]⟩, [], []⟩,
    ⟨⟨1, "u", none, dir ++ "/a".toList, [], 0, .obj []⟩, [], []⟩], by simp⟩
  next_id := 2
  now := 2 * DAY
  fresh := by simp [KeyedStore.mem_def]

/-- Every document of a day is pruned to one version. -/
def dailyConfig : HygieneConfig := ⟨true, 1, 12⟩

/-- One document, and one beside it that is called `.CONFIG`. -/
def capitalsDb : Db where
  backend := .libsql
  documents := ⟨[⟨⟨0, "u", none, "daily/.CONFIG".toList, [], 0,
      .obj [("hygiene", .obj [("enabled", .bool true), ("retention_days", .num 1)])]⟩, [], []⟩,
    ⟨⟨1, "u", none, "daily/a".toList, [], 0, .obj []⟩, [], []⟩], by simp⟩
  next_id := 2
  now := 2 * DAY
  fresh := by simp [KeyedStore.mem_def]

/-- A `.CONFIG` has its directory cleaned, which has no `.config`. -/
theorem capitals_deleted :
    ¬Hygienic (List.map Char.toLower) (new "u") capitalsDb
      (runIfDue (List.map Char.toLower) (new "u") dailyConfig ⟨capitalsDb, false, none⟩).2.db := by
  intro h
  have hgone : ∀ d ∈ (runIfDue (List.map Char.toLower) (new "u") dailyConfig
      ⟨capitalsDb, false, none⟩).2.db.rows, d.id ≠ 1 := by decide +kernel
  obtain ⟨dir, days, ⟨c, hc, -, -, hpath, -⟩, -⟩ :=
    (h.deleted _ (List.mem_cons_of_mem _ List.mem_cons_self) hgone).expired
  have hnone : ∀ c ∈ capitalsDb.rows, ¬('/' :: CONFIG_FILE_NAME) <:+ c.path := by decide
  exact hnone c hc ⟨dir, hpath.symm⟩

end Workspace

end T3Claw
