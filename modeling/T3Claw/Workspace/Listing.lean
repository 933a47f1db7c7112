import Mathlib.Data.Char
import Mathlib.Data.List.DropRight
import Mathlib.Data.List.Lex
import Mathlib.Data.List.Sort
import Mathlib.Order.Lattice.Nat
import T3Claw.Data.Grouped
import T3Claw.Workspace.Read

/-!
# Listing, deleting and pruning documents

`list_directory`, `delete_document_by_path` and `prune_versions` of the storage, and `list` and
`delete` of a workspace. A listing has an entry for each child of a directory: of the documents
at the child or below it, in every scope that is read, it keeps the newest time, and it calls the
child a directory as soon as one of them lies below (`Traces`).
-/

namespace T3Claw

namespace Workspace

open Conc Conc.Prog
open scoped List

/-! ### Names in a path -/

def paths.README : List Char := "README.md".toList

/-- The file name of a path: `path.rsplit('/').next()`. -/
def fileName (path : List Char) : List Char := (path.reverse.takeWhile (· ≠ '/')).reverse

/-- The directory of a path with its slash, `none` at the root: the front of `rsplit_once('/')`. -/
def directoryOf? (path : List Char) : Option (List Char) :=
  if '/' ∈ path then some (path.reverse.dropWhile (· ≠ '/')).reverse else none

/-- `is_config_path`. -/
def isConfigPath (path : List Char) : Bool := fileName path == CONFIG_FILE_NAME

/-- `normalize_directory`. -/
def normalizeDirectory (path : List Char) : List Char :=
  (normalizePath path).rdropWhile (· = '/')

/-! ### Entries of a listing -/

/-- An entry in a workspace directory listing. -/
structure WorkspaceEntry where
  path : List Char
  is_directory : Bool
  updated_at : Option ℕ
  content_preview : Option (List Char)

namespace WorkspaceEntry

/-- What `list_directory` makes of one more row of a child. -/
def joinRow (e row : WorkspaceEntry) : WorkspaceEntry where
  path := e.path
  is_directory := e.is_directory || row.is_directory
  updated_at := match e.updated_at, row.updated_at with
    | some existing, some new => if existing < new then some new else some existing
    | updated_at, _ => updated_at
  content_preview := if row.is_directory then none else e.content_preview

/-- What `merge_workspace_entries` makes of one more entry with a path. -/
def mergeEntry (existing entry : WorkspaceEntry) : WorkspaceEntry :=
  let newest := match existing.updated_at, entry.updated_at with
    | some existing_ts, some new_ts =>
      if existing_ts < new_ts then (some new_ts, entry.content_preview)
      else (some existing_ts, existing.content_preview)
    | none, updated_at => (updated_at, entry.content_preview)
    | updated_at, none => (updated_at, existing.content_preview)
  { path := existing.path
    is_directory := existing.is_directory || entry.is_directory
    updated_at := newest.1
    content_preview := if entry.is_directory then none else newest.2 }

/-- Entries by their paths. -/
def sortByPath (entries : List WorkspaceEntry) : List WorkspaceEntry :=
  entries.insertionSort fun a b => a.path ≤ b.path

/-- The entry of the child of a directory, given with its slash, that a document is at or
below. -/
def ofRow (dir : List Char) (d : MemoryDocument) : Option WorkspaceEntry :=
  if dir <+: d.path then
    let relative := d.path.drop dir.length
    let child_name := relative.takeWhile (· ≠ '/')
    let is_dir := decide ('/' ∈ relative)
    if child_name = [] then none
    else some ⟨dir ++ child_name, is_dir, some d.updated_at,
      if is_dir then none else some (d.content.take 200)⟩
  else none

end WorkspaceEntry

open WorkspaceEntry

/-- `merge_workspace_entries`. -/
def mergeWorkspaceEntries (entries : List WorkspaceEntry) : List WorkspaceEntry :=
  sortByPath (Grouped.group WorkspaceEntry.path mergeEntry entries)

/-! ### Operations of the storage -/

namespace Db

/-- The documents, without what refers to them. -/
def rows (db : Db) : List MemoryDocument := db.documents.values.map (·.toMemoryDocument)

/-- `list_directory`. -/
def listDirectory (db : Db) (user_id : String) (agent_id : Option ℕ) (directory : List Char) :
    List WorkspaceEntry :=
  let dir := if directory ≠ [] ∧ directory.getLast? ≠ some '/' then directory ++ ['/']
    else directory
  let rows := (db.rows.filter fun d => d.user_id = user_id ∧ d.agent_id = agent_id).insertionSort
    fun a b => a.path ≤ b.path
  sortByPath (Grouped.group WorkspaceEntry.path joinRow (rows.filterMap (ofRow dir)))

/-- The rows a predicate keeps. -/
def retain (db : Db) (p : StoredDocument → Bool) : Db where
  backend := db.backend
  documents := db.documents.retain p
  next_id := db.next_id
  now := db.now
  fresh d hd := db.fresh d (KeyedStore.mem_retain.mp hd).1

/-- `delete_document_by_path`, `none` when there is no such document. -/
def deleteDocumentByPath (db : Db) (user_id : String) (agent_id : Option ℕ)
    (path : List Char) : Option Db :=
  (db.getDocumentByPath user_id agent_id path).map fun _ =>
    db.retain fun d => !decide (StoredDocument.IsAt user_id agent_id path d)

end Db

/-- The versions with the highest numbers. -/
def newestVersions (keep_count : ℕ) (versions : List DocumentVersion) : List DocumentVersion :=
  let kept := ((versions.map (·.version)).insertionSort (· ≥ ·)).take keep_count
  versions.filter fun v => v.version ∈ kept

/-- The older versions of the row are deleted. -/
def StoredDocument.withNewest (keep_count : ℕ) (d : StoredDocument) : StoredDocument :=
  { d with versions := newestVersions keep_count d.versions }

theorem StoredDocument.sameFile_withNewest (keep_count : ℕ) :
    StoredDocument.SameFile (StoredDocument.withNewest keep_count) :=
  ⟨fun _ => rfl, fun _ => rfl, fun _ => rfl, fun _ => rfl, fun _ => rfl⟩

/-- `prune_versions`: it answers how many were deleted. -/
def Db.pruneVersions (db : Db) (document_id keep_count : ℕ) : ℕ × Db :=
  ((db.documents.get? document_id).elim 0 fun d =>
      d.versions.length - (newestVersions keep_count d.versions).length,
    db.modify document_id (StoredDocument.withNewest keep_count)
      (StoredDocument.sameFile_withNewest keep_count))

section

variable (ws : Workspace)

/-- `list`. -/
def list (directory : List Char) (db : Db) : List WorkspaceEntry :=
  let directory := normalizeDirectory directory
  if ws.isMultiScope then
    mergeWorkspaceEntries (db.listDirectory ws.user_id ws.agent_id directory ++
      ws.additional_read_scopes.flatMap fun scope =>
        (db.listDirectory scope ws.agent_id directory).filter fun e => !isIdentityPath e.path)
  else db.listDirectory ws.user_id ws.agent_id directory

/-- `delete`, `none` when there is no such document. -/
def delete (path : List Char) (db : Db) : Option Db :=
  db.deleteDocumentByPath ws.user_id ws.agent_id (normalizePath path)

end

/-! ### Paths that are normal -/

theorem trimMatches_sublist (c : Char) (cs : List Char) : Text.trimMatches c cs <+ cs := by
  have h := (List.dropWhile_sublist (· = c) (l := (cs.dropWhile (· = c)).reverse)).reverse
  rw [List.reverse_reverse] at h
  exact h.trans (List.dropWhile_sublist _)

theorem trim_sublist (cs : List Char) : Text.trim cs <+ cs := by
  have h := (List.dropWhile_sublist Text.isWhitespace
    (l := (cs.dropWhile Text.isWhitespace).reverse)).reverse
  rw [List.reverse_reverse] at h
  exact h.trans (List.dropWhile_sublist _)

theorem collapseSlashes_sublist (b : Bool) (cs : List Char) : collapseSlashes b cs <+ cs := by
  induction cs generalizing b with
  | nil => rw [collapseSlashes]
  | cons c cs ih =>
    rw [collapseSlashes]
    split_ifs
    · exact (ih true).cons _
    · exact (ih true).cons_cons _
    · exact (ih false).cons_cons _

/-- The front of a text that stays as it is stays as it is. -/
theorem collapseSlashes_append (b : Bool) (front back : List Char) :
    ∃ b', collapseSlashes b (front ++ back) =
      collapseSlashes b front ++ collapseSlashes b' back := by
  induction front generalizing b with
  | nil => exact ⟨b, by rw [collapseSlashes]; rfl⟩
  | cons c cs ih =>
    rw [List.cons_append, collapseSlashes, collapseSlashes]
    split_ifs
    · exact ih true
    · exact (ih true).imp fun _ h => by rw [h, List.cons_append]
    · exact (ih false).imp fun _ h => by rw [h, List.cons_append]

/-- The path is one that `normalize_path` leaves as it is. -/
def IsNormal (path : List Char) : Prop := normalizePath path = path

instance : DecidablePred IsNormal := fun path => inferInstanceAs (Decidable (_ = path))

section

variable {path : List Char}

theorem IsNormal.trim (h : IsNormal path) : Text.trim path = path := by
  refine (trim_sublist path).antisymm ?_
  have hsub := (collapseSlashes_sublist false _).trans (trimMatches_sublist '/' (Text.trim path))
  rwa [show collapseSlashes false _ = path from h] at hsub

theorem IsNormal.trimMatches (h : IsNormal path) : Text.trimMatches '/' path = path := by
  refine (trimMatches_sublist '/' path).antisymm ?_
  have hsub := collapseSlashes_sublist false (Text.trimMatches '/' (Text.trim path))
  rwa [show collapseSlashes false _ = path from h, h.trim] at hsub

theorem IsNormal.collapse (h : IsNormal path) : collapseSlashes false path = path := by
  have heq : collapseSlashes false (Text.trimMatches '/' (Text.trim path)) = path := h
  rwa [h.trim, h.trimMatches] at heq

/-- A normal path begins with no slash. -/
theorem IsNormal.ne_slash (h : IsNormal path) (rest : List Char) : path ≠ '/' :: rest := by
  rintro rfl
  have hsub : Text.trimMatches '/' ('/' :: rest) <+ rest := by
    have hdrop : Text.trimMatches '/' ('/' :: rest) = Text.trimMatches '/' rest := by
      simp [Text.trimMatches]
    rw [hdrop]
    exact trimMatches_sublist _ _
  rw [h.trimMatches] at hsub
  exact absurd hsub.length_le (by simp)

/-- A normal path ends with no slash. -/
theorem IsNormal.ne_append_slash (h : IsNormal path) (front : List Char) :
    path ≠ front ++ ['/'] := by
  rintro rfl
  have hfront : (front ++ ['/']).dropWhile (· = '/') = front ++ ['/'] := by
    cases front with
    | nil => exact absurd rfl (h.ne_slash [])
    | cons c rest =>
      have hc : c ≠ '/' := fun hc => h.ne_slash (rest ++ ['/']) (by rw [hc]; rfl)
      rw [List.cons_append, List.dropWhile_cons_of_neg (by simp [hc])]
  have hlen := congrArg List.length h.trimMatches
  have hle := (List.dropWhile_sublist (· = '/') (l := front.reverse)).length_le
  rw [Text.trimMatches, hfront, List.reverse_append, List.reverse_singleton,
    List.singleton_append, List.dropWhile_cons_of_pos (by simp), List.length_reverse,
    List.length_append, List.length_singleton] at hlen
  rw [List.length_reverse] at hle
  omega

/-- A normal path begins with no white space. -/
theorem IsNormal.not_isWhitespace {c : Char} {rest : List Char} (h : IsNormal (c :: rest)) :
    Text.isWhitespace c = false := by
  by_contra hc
  have hsub : Text.trim (c :: rest) <+ rest := by
    have hdrop : Text.trim (c :: rest) = Text.trim rest := by
      simp [Text.trim, Bool.eq_true_of_not_eq_false hc]
    rw [hdrop]
    exact trim_sublist _
  rw [h.trim] at hsub
  exact absurd hsub.length_le (by simp)

/-- No two slashes follow one another in a normal path. -/
theorem IsNormal.ne_slashes (h : IsNormal path) (front back : List Char) :
    path ≠ front ++ '/' :: '/' :: back := by
  rintro rfl
  obtain ⟨b, hb⟩ := collapseSlashes_append false front ('/' :: '/' :: back)
  have hshort : (collapseSlashes b ('/' :: '/' :: back)).length ≤ back.length + 1 := by
    have hback := (collapseSlashes_sublist true back).length_le
    cases b <;> simp [collapseSlashes] <;> omega
  have hfront := (collapseSlashes_sublist false front).length_le
  have hlen := congrArg List.length (h.collapse.symm.trans hb)
  simp only [List.length_append, List.length_cons] at hlen hshort
  omega

/-- The directory of a normal path is normal, without its slash. -/
theorem IsNormal.directory {dir name : List Char} (h : IsNormal (dir ++ '/' :: name)) :
    dir ≠ [] ∧ dir.getLast? ≠ some '/' ∧ normalizeDirectory (dir ++ ['/']) = dir := by
  have hne : dir ≠ [] := by
    rintro rfl
    exact h.ne_slash name rfl
  have hlast : dir.getLast? ≠ some '/' := by
    intro hlast
    obtain ⟨front, rfl⟩ := List.getLast?_eq_some_iff.mp hlast
    exact h.ne_slashes front name (by simp)
  obtain ⟨c, rest, rfl⟩ := List.exists_cons_of_ne_nil hne
  have hws := h.not_isWhitespace
  have hslash : c ≠ '/' := fun hc => h.ne_slash _ (by rw [hc]; rfl)
  have hrlast : ∀ d cs, (c :: rest).reverse = d :: cs → d ≠ '/' := by
    intro d cs hd hslash
    refine hlast ?_
    rw [← List.head?_reverse, hd, hslash, List.head?_cons]
  refine ⟨hne, hlast, ?_⟩
  have htrim : Text.trim (c :: rest ++ ['/']) = c :: rest ++ ['/'] := by
    have hlastws : Text.isWhitespace '/' = false := by decide
    rw [Text.trim, List.cons_append, List.dropWhile_cons_of_neg (by simp [hws]),
      ← List.cons_append, List.reverse_append, List.reverse_singleton, List.singleton_append,
      List.dropWhile_cons_of_neg (by simp [hlastws])]
    simp
  have hmatch : Text.trimMatches '/' (c :: rest ++ ['/']) = c :: rest := by
    rw [Text.trimMatches, List.cons_append, List.dropWhile_cons_of_neg (by simp [hslash]),
      ← List.cons_append, List.reverse_append, List.reverse_singleton, List.singleton_append,
      List.dropWhile_cons_of_pos (by simp)]
    obtain ⟨d, cs, hd⟩ := List.exists_cons_of_ne_nil (List.reverse_ne_nil_iff.mpr hne)
    rw [hd, List.dropWhile_cons_of_neg (by simp [hrlast d cs hd]), ← hd, List.reverse_reverse]
  have hcollapse : collapseSlashes false (c :: rest) = c :: rest := by
    obtain ⟨b, hb⟩ := collapseSlashes_append false (c :: rest) ('/' :: name)
    have hfront := collapseSlashes_sublist false (c :: rest)
    have hback := (collapseSlashes_sublist b ('/' :: name)).length_le
    have hlen := congrArg List.length (h.collapse.symm.trans hb)
    simp only [List.length_append] at hlen
    exact hfront.eq_of_length (le_antisymm hfront.length_le (by omega))
  rw [normalizeDirectory, normalizePath, htrim, hmatch, hcollapse, List.rdropWhile_eq_self_iff]
  intro hl hlast'
  refine hlast ?_
  rw [List.getLast?_eq_some_getLast hl]
  simpa using hlast'

end

/-! ### What a listing shows -/

/-- A path directly in a directory, which is given with its slash. -/
def IsChild (dir p : List Char) : Prop := ∃ name, name ≠ [] ∧ '/' ∉ name ∧ p = dir ++ name

/-- A path is another one, or leads below it. -/
def AtOrBelow (p path : List Char) : Prop := path = p ∨ p ++ ['/'] <+: path

/-- The entry has a time, and it is not before `t`. -/
def WorkspaceEntry.NotBefore (t : ℕ) (e : WorkspaceEntry) : Prop :=
  ∃ u, e.updated_at = some u ∧ t ≤ u

/-- What the entry of a document says. -/
theorem ofRow_spec {dir : List Char} {d : MemoryDocument} {e : WorkspaceEntry}
    (h : ofRow dir d = some e) :
    IsChild dir e.path ∧ e.updated_at = some d.updated_at ∧ AtOrBelow e.path d.path ∧
      (e.is_directory = true ↔ e.path ++ ['/'] <+: d.path) := by
  rw [ofRow] at h
  split at h
  case isFalse => exact nomatch h
  case isTrue hdir =>
    obtain ⟨relative, hpath⟩ := hdir
    rw [← hpath, List.drop_left] at h
    simp only at h
    split at h
    case isTrue => exact nomatch h
    case isFalse hname =>
      obtain rfl := Option.some.inj h
      have hslash : '/' ∉ relative.takeWhile (· ≠ '/') := fun hmem => by
        simpa using List.mem_takeWhile_imp hmem
      have hsplit := List.takeWhile_append_dropWhile (p := (· ≠ '/')) (l := relative)
      refine ⟨⟨_, hname, hslash, rfl⟩, rfl, ?_⟩
      simp only [AtOrBelow, ← hpath, List.append_assoc, List.append_cancel_left_eq,
        List.prefix_append_right_inj, decide_eq_true_eq]
      cases hrest : relative.dropWhile (· ≠ '/') with
      | nil =>
        rw [hrest, List.append_nil] at hsplit
        rw [hsplit] at hslash ⊢
        refine ⟨.inl rfl, fun hmem => absurd hmem hslash, fun hpre => ?_⟩
        exact absurd hpre.length_le (by simp)
      | cons c rest =>
        have hc : c = '/' := by
          have hnone := List.dropWhile_idempotent (· ≠ '/') relative
          by_contra hc
          rw [hrest, List.dropWhile_cons_of_pos (by simpa using hc)] at hnone
          have hle := (List.dropWhile_sublist (· ≠ '/') (l := rest)).length_le
          rw [hnone] at hle
          exact absurd hle (by simp)
        have hpre : relative.takeWhile (· ≠ '/') ++ ['/'] <+: relative := by
          refine ⟨rest, ?_⟩
          rw [hrest, hc] at hsplit
          simpa using hsplit
        exact ⟨.inr hpre, fun _ => hpre, fun _ => hpre.subset (by simp)⟩

/-- Each document at a child of a directory, or below it, has an entry. -/
theorem exists_ofRow {dir p : List Char} {d : MemoryDocument} (hp : IsChild dir p)
    (hd : AtOrBelow p d.path) : ∃ e, ofRow dir d = some e ∧ e.path = p := by
  obtain ⟨name, hne, hslash, rfl⟩ := hp
  have htake : ∃ relative, d.path = dir ++ relative ∧ relative.takeWhile (· ≠ '/') = name := by
    have hall : ∀ c ∈ name, decide (c ≠ '/') = true := fun c hc =>
      decide_eq_true (ne_of_mem_of_not_mem hc hslash)
    obtain hd | ⟨rest, hd⟩ := hd
    · exact ⟨name, hd, List.takeWhile_eq_self_iff.mpr hall⟩
    · refine ⟨name ++ '/' :: rest, by rw [← hd]; simp, ?_⟩
      rw [List.takeWhile_append_of_pos hall]
      simp
  obtain ⟨relative, hpath, hname⟩ := htake
  rw [ofRow, if_pos ⟨relative, hpath.symm⟩, hpath, List.drop_left]
  simp only [hname, if_neg hne]
  exact ⟨_, rfl, rfl⟩

/-- Entries that together show some documents: the children of the directory at or below which
there is one, below which there is one, and how new they are. -/
structure Traces (docs : MemoryDocument → Prop) (dir : List Char) (entries : List WorkspaceEntry) :
    Prop where
  timed : ∀ e ∈ entries, e.updated_at.isSome
  child : ∀ e ∈ entries, IsChild dir e.path
  directory : ∀ p, IsChild dir p → ((∃ e ∈ entries, e.path = p ∧ e.is_directory = true) ↔
    ∃ d, docs d ∧ p ++ ['/'] <+: d.path)
  notBefore : ∀ p, IsChild dir p → ∀ t, ((∃ e ∈ entries, e.path = p ∧ e.NotBefore t) ↔
    ∃ d, docs d ∧ AtOrBelow p d.path ∧ t ≤ d.updated_at)

variable {docs docs' : MemoryDocument → Prop} {dir : List Char} {entries : List WorkspaceEntry}

theorem traces_rows (dir : List Char) (rows : List MemoryDocument) :
    Traces (· ∈ rows) dir (rows.filterMap (ofRow dir)) where
  timed e he := by
    obtain ⟨d, -, hrow⟩ := List.mem_filterMap.mp he
    rw [(ofRow_spec hrow).2.1, Option.isSome_some]
  child e he := by
    obtain ⟨d, -, hrow⟩ := List.mem_filterMap.mp he
    exact (ofRow_spec hrow).1
  directory p hp := by
    constructor
    · rintro ⟨e, he, rfl, hdir⟩
      obtain ⟨d, hd, hrow⟩ := List.mem_filterMap.mp he
      exact ⟨d, hd, (ofRow_spec hrow).2.2.2.mp hdir⟩
    · rintro ⟨d, hd, hbelow⟩
      obtain ⟨e, hrow, rfl⟩ := exists_ofRow hp (.inr hbelow)
      exact ⟨e, List.mem_filterMap.mpr ⟨d, hd, hrow⟩, rfl, (ofRow_spec hrow).2.2.2.mpr hbelow⟩
  notBefore p hp t := by
    constructor
    · rintro ⟨e, he, rfl, u, hu, ht⟩
      obtain ⟨d, hd, hrow⟩ := List.mem_filterMap.mp he
      have hspec := ofRow_spec hrow
      exact ⟨d, hd, hspec.2.2.1, (Option.some.inj (hspec.2.1.symm.trans hu)).symm ▸ ht⟩
    · rintro ⟨d, hd, hat, ht⟩
      obtain ⟨e, hrow, rfl⟩ := exists_ofRow hp hat
      exact ⟨e, List.mem_filterMap.mpr ⟨d, hd, hrow⟩, rfl, _, (ofRow_spec hrow).2.1, ht⟩

theorem Traces.congr (h : Traces docs dir entries) (heq : ∀ d, docs d ↔ docs' d) :
    Traces docs' dir entries := by
  rwa [show docs' = docs from funext fun d => propext (heq d).symm]

theorem Traces.append {entries' : List WorkspaceEntry} (h : Traces docs dir entries)
    (h' : Traces docs' dir entries') :
    Traces (fun d => docs d ∨ docs' d) dir (entries ++ entries') where
  timed e he := (List.mem_append.mp he).elim (h.timed e) (h'.timed e)
  child e he := (List.mem_append.mp he).elim (h.child e) (h'.child e)
  directory p hp := by
    simp only [List.mem_append, or_and_right, exists_or]
    rw [h.directory p hp, h'.directory p hp]
  notBefore p hp t := by
    simp only [List.mem_append, or_and_right, exists_or]
    rw [h.notBefore p hp t, h'.notBefore p hp t]

theorem traces_nil (dir : List Char) : Traces (fun _ => False) dir [] := by
  constructor <;> simp

/-- The entries of several listings show the documents of each. -/
theorem traces_flatMap {ι : Type} {docsOf : ι → MemoryDocument → Prop}
    {listing : ι → List WorkspaceEntry} {l : List ι}
    (h : ∀ i ∈ l, Traces (docsOf i) dir (listing i)) :
    Traces (fun d => ∃ i ∈ l, docsOf i d) dir (l.flatMap listing) := by
  induction l with
  | nil => exact (traces_nil dir).congr (by simp)
  | cons i l ih =>
    have hrest := ih fun j hj => h j (List.mem_cons_of_mem _ hj)
    exact ((h i List.mem_cons_self).append hrest).congr (by simp)

/-- A way of joining two entries of one child that keeps the newest time. -/
structure Newest (join : WorkspaceEntry → WorkspaceEntry → WorkspaceEntry) : Prop where
  path : ∀ a b, (join a b).path = a.path
  is_directory : ∀ a b, (join a b).is_directory = (a.is_directory || b.is_directory)
  updated_at : ∀ a b u v, a.updated_at = some u → b.updated_at = some v →
    (join a b).updated_at = some (max u v)

theorem newest_joinRow : Newest joinRow where
  path _ _ := rfl
  is_directory _ _ := rfl
  updated_at a b u v hu hv := by
    simp only [joinRow, hu, hv]
    split_ifs with h
    · rw [max_eq_right h.le]
    · rw [max_eq_left (not_lt.mp h)]

theorem newest_mergeEntry : Newest mergeEntry where
  path _ _ := rfl
  is_directory _ _ := rfl
  updated_at a b u v hu hv := by
    simp only [mergeEntry, hu, hv]
    split_ifs with h
    · rw [max_eq_right h.le]
    · rw [max_eq_left (not_lt.mp h)]

section

variable {join : WorkspaceEntry → WorkspaceEntry → WorkspaceEntry} (hjoin : Newest join)

include hjoin

theorem Newest.isSome {a b : WorkspaceEntry} (ha : a.updated_at.isSome)
    (hb : b.updated_at.isSome) : (join a b).updated_at.isSome := by
  obtain ⟨u, hu⟩ := Option.isSome_iff_exists.mp ha
  obtain ⟨v, hv⟩ := Option.isSome_iff_exists.mp hb
  rw [hjoin.updated_at a b u v hu hv, Option.isSome_some]

theorem Newest.joins_directory : Grouped.Joins join (fun e => e.updated_at.isSome = true)
    fun e => e.is_directory = true where
  keeps _ _ := hjoin.isSome
  iff a b _ _ := by rw [hjoin.is_directory, Bool.or_eq_true]

theorem Newest.joins_notBefore (t : ℕ) : Grouped.Joins join
    (fun e => e.updated_at.isSome = true) (NotBefore t) where
  keeps _ _ := hjoin.isSome
  iff a b ha hb := by
    obtain ⟨u, hu⟩ := Option.isSome_iff_exists.mp ha
    obtain ⟨v, hv⟩ := Option.isSome_iff_exists.mp hb
    simp [NotBefore, hjoin.updated_at a b u v hu hv, hu, hv]

/-- Joining the entries of each child shows the same documents. -/
theorem Traces.group (h : Traces docs dir entries) :
    Traces docs dir (Grouped.group WorkspaceEntry.path join entries) := by
  have hdir := Grouped.holds_group hjoin.path hjoin.joins_directory h.timed
  have hsome {P : WorkspaceEntry → Prop}
      (hholds : Grouped.Holds WorkspaceEntry.path (fun e => e.updated_at.isSome = true) P entries
        (Grouped.group WorkspaceEntry.path join entries)) (p : List Char) :
      (∃ e ∈ Grouped.group WorkspaceEntry.path join entries, e.path = p ∧ P e) ↔
        ∃ a ∈ entries, a.path = p ∧ P a := by
    constructor
    · rintro ⟨e, he, rfl, hP⟩
      exact (hholds.iff e he).mp hP
    · rintro ⟨a, ha, rfl, hP⟩
      obtain ⟨e, he, hpath⟩ := (hholds.keys a.path).mpr ⟨a, ha, rfl⟩
      exact ⟨e, he, hpath, (hholds.iff e he).mpr ⟨a, ha, hpath.symm, hP⟩⟩
  refine ⟨hdir.inv, fun e he => ?_, fun p hp => ?_, fun p hp t => ?_⟩
  · obtain ⟨a, ha, hpath⟩ := (hdir.keys e.path).mp ⟨e, he, rfl⟩
    exact hpath ▸ h.child a ha
  · rw [hsome hdir, h.directory p hp]
  · rw [hsome (Grouped.holds_group hjoin.path (hjoin.joins_notBefore t) h.timed),
      h.notBefore p hp t]

end

theorem Traces.sort (h : Traces docs dir entries) : Traces docs dir (sortByPath entries) := by
  have hmem (e : WorkspaceEntry) : e ∈ sortByPath entries ↔ e ∈ entries :=
    List.mem_insertionSort _
  refine ⟨fun e he => h.timed e ((hmem e).mp he), fun e he => h.child e ((hmem e).mp he),
    fun p hp => ?_, fun p hp t => ?_⟩
  · simpa only [hmem] using h.directory p hp
  · simpa only [hmem] using h.notBefore p hp t

/-- The entries have different paths. -/
theorem nodup_group {join : WorkspaceEntry → WorkspaceEntry → WorkspaceEntry}
    (hjoin : Newest join) (h : Traces docs dir entries) :
    ((sortByPath (Grouped.group WorkspaceEntry.path join entries)).map
      WorkspaceEntry.path).Nodup :=
  ((List.perm_insertionSort _ _).map _).nodup_iff.mpr
    (Grouped.holds_group hjoin.path hjoin.joins_directory h.timed).nodup

/-- A listing of a directory: its entries have different paths, and show some documents. -/
structure Lists (docs : MemoryDocument → Prop) (dir : List Char) (entries : List WorkspaceEntry) :
    Prop extends Traces docs dir entries where
  nodup : (entries.map WorkspaceEntry.path).Nodup

theorem Traces.lists {join : WorkspaceEntry → WorkspaceEntry → WorkspaceEntry}
    (h : Traces docs dir entries) (hjoin : Newest join) :
    Lists docs dir (sortByPath (Grouped.group WorkspaceEntry.path join entries)) :=
  ⟨(h.group hjoin).sort, nodup_group hjoin h⟩

theorem Lists.isDirectory (h : Lists docs dir entries) {e : WorkspaceEntry} (he : e ∈ entries) :
    e.is_directory = true ↔ ∃ d, docs d ∧ e.path ++ ['/'] <+: d.path := by
  rw [← h.directory e.path (h.child e he)]
  refine ⟨fun hdir => ⟨e, he, rfl, hdir⟩, ?_⟩
  rintro ⟨e', he', hpath, hdir⟩
  rwa [← List.inj_on_of_nodup_map h.nodup he' he hpath]

theorem Lists.isNotBefore (h : Lists docs dir entries) {e : WorkspaceEntry} (he : e ∈ entries)
    (t : ℕ) : e.NotBefore t ↔ ∃ d, docs d ∧ AtOrBelow e.path d.path ∧ t ≤ d.updated_at := by
  rw [← h.notBefore e.path (h.child e he)]
  refine ⟨fun hnew => ⟨e, he, rfl, hnew⟩, ?_⟩
  rintro ⟨e', he', hpath, hnew⟩
  rwa [← List.inj_on_of_nodup_map h.nodup he' he hpath]

/-- The children with an entry are those at or below which there is a document. -/
theorem Traces.exists_iff (h : Traces docs dir entries) {p : List Char} (hp : IsChild dir p) :
    (∃ e ∈ entries, e.path = p) ↔ ∃ d, docs d ∧ AtOrBelow p d.path := by
  have hiff := h.notBefore p hp 0
  simp only [Nat.zero_le, and_true] at hiff
  rw [← hiff]
  refine exists_congr fun e => and_congr_right fun he => ?_
  obtain ⟨u, hu⟩ := Option.isSome_iff_exists.mp (h.timed e he)
  exact (and_iff_left ⟨u, hu, Nat.zero_le u⟩).symm

theorem Db.lists_listDirectory (db : Db) (user_id : String) (agent_id : Option ℕ)
    {dir : List Char} (hne : dir ≠ []) (hlast : dir.getLast? ≠ some '/') :
    Lists (fun d => d ∈ db.rows ∧ d.user_id = user_id ∧ d.agent_id = agent_id) (dir ++ ['/'])
      (db.listDirectory user_id agent_id dir) := by
  rw [Db.listDirectory, if_pos ⟨hne, hlast⟩]
  refine ((traces_rows _ _).congr fun d => ?_).lists newest_joinRow
  rw [List.mem_insertionSort, List.mem_filter, decide_eq_true_eq]

/-- A document that a workspace reads. -/
def Reads (ws : Workspace) (db : Db) (d : MemoryDocument) : Prop :=
  d ∈ db.rows ∧ d.user_id ∈ ws.readUserIds ∧ d.agent_id = ws.agent_id

/-- A path with a directory is not that of an identity file. -/
theorem not_isIdentityPath {path : List Char} (h : '/' ∈ path) : isIdentityPath path = false := by
  refine Bool.eq_false_iff.mpr fun hid => ?_
  have hall : ∀ p ∈ IDENTITY_PATHS, '/' ∉ p := by decide
  exact hall path (List.contains_iff_mem.mp hid) h

/-- The listing of a directory shows the documents of every scope that is read. -/
theorem lists_list (ws : Workspace) (db : Db) {dir : List Char} (hne : dir ≠ [])
    (hlast : dir.getLast? ≠ some '/') (hdir : normalizeDirectory (dir ++ ['/']) = dir) :
    Lists (Reads ws db) (dir ++ ['/']) (ws.list (dir ++ ['/']) db) := by
  have hscope (scope : String) := db.lists_listDirectory scope ws.agent_id hne hlast
  simp only [list, hdir]
  split
  case isTrue =>
    have hadd := traces_flatMap (l := ws.additional_read_scopes)
      fun scope _ => (hscope scope).toTraces
    have hfilter (scope : String) : ((db.listDirectory scope ws.agent_id dir).filter
        fun e => !isIdentityPath e.path) = db.listDirectory scope ws.agent_id dir := by
      refine List.filter_eq_self.mpr fun e he => ?_
      obtain ⟨name, -, -, hpath⟩ := (hscope scope).child e he
      rw [not_isIdentityPath (by simp [hpath]), Bool.not_false]
    simp only [hfilter]
    refine (((hscope ws.user_id).toTraces.append hadd).congr fun d => ?_).lists newest_mergeEntry
    simp only [Reads, readUserIds, List.mem_cons]
    constructor
    · rintro (⟨hd, hu, ha⟩ | ⟨scope, hs, hd, hu, ha⟩)
      · exact ⟨hd, .inl hu, ha⟩
      · exact ⟨hd, .inr (hu ▸ hs), ha⟩
    · rintro ⟨hd, hu | hs, ha⟩
      · exact .inl ⟨hd, hu, ha⟩
      · exact .inr ⟨_, hs, hd, rfl, ha⟩
  case isFalse hmulti =>
    have hnone : ws.additional_read_scopes = [] := by
      simpa [isMultiScope, readUserIds] using hmulti
    refine ⟨(hscope ws.user_id).toTraces.congr fun d => ?_, (hscope ws.user_id).nodup⟩
    simp [Reads, readUserIds, hnone]

end Workspace

end T3Claw
