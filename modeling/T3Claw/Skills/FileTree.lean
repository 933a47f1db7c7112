import T3Claw.Data.KeyedStore
import T3Claw.Data.Text

/-!
# Directory trees

The part of `std::fs` the skill registry uses. A tree is a list of entries with pairwise
different paths, in the order `read_dir` gives the entries of a directory, where nothing lies
below a path that is missing or a file. Symbolic links are entries of their own and are not
followed below a directory that is read.
-/

namespace T3Claw.Skills

/-- An absolute path: its components. -/
abbrev Path : Type := List String

/-- `Path::display`. -/
def Path.display (path : Path) : String := "/" ++ String.intercalate "/" path

/-- What a file holds: a text in UTF-8, or bytes that are none. -/
inductive Contents where
  | text (chars : List Char)
  | binary (size : ℕ)
  deriving DecidableEq

/-- The number of bytes. -/
def Contents.size : Contents → ℕ
  | text chars => Text.byteLength chars
  | binary size => size

/-- What an entry is; of a symbolic link, whether it leads somewhere. -/
inductive EntryKind where
  | file (contents : Contents)
  | dir
  | symlink (resolves : Bool)
  deriving DecidableEq

/-- Whether nothing lies below an entry of this kind. -/
def EntryKind.isFile : EntryKind → Bool
  | file _ => true
  | _ => false

structure Entry where
  path : Path
  kind : EntryKind
  deriving DecidableEq

/-- A directory tree. -/
structure FileTree where
  entries : KeyedStore Path Entry Entry.path
  closed : ∀ entry ∈ entries.values, entry.path ≠ [] →
    ∃ up ∈ entries.values, up.path = entry.path.dropLast ∧ up.kind.isFile = false

namespace FileTree

variable (fs : FileTree)

/-- `symlink_metadata`, and what is there. -/
def get? (path : Path) : Option Entry := fs.entries.get? path

theorem mem_of_get? {fs : FileTree} {path : Path} {entry : Entry}
    (h : fs.get? path = some entry) : entry ∈ fs.entries.values :=
  KeyedStore.mem_of_get? h

theorem path_of_get? {fs : FileTree} {path : Path} {entry : Entry}
    (h : fs.get? path = some entry) : entry.path = path :=
  KeyedStore.key_of_get? h

theorem get?_path {fs : FileTree} {entry : Entry} (h : entry ∈ fs.entries.values) :
    fs.get? entry.path = some entry :=
  KeyedStore.get?_key h

/-- Above an entry there is an entry that is no file. -/
theorem get?_dropLast {fs : FileTree} {path : Path} {entry : Entry}
    (h : fs.get? path = some entry) (hpath : path ≠ []) :
    ∃ up, fs.get? path.dropLast = some up ∧ up.kind.isFile = false := by
  have hkey := path_of_get? h
  obtain ⟨up, hup, hdrop, hkind⟩ := fs.closed entry (mem_of_get? h) (hkey ▸ hpath)
  refine ⟨up, ?_, hkind⟩
  rw [← hkey, ← hdrop]
  exact get?_path hup

/-- The entries of a directory. -/
def children (dir : Path) : List Entry :=
  fs.entries.values.filter fun entry => entry.path ≠ [] && entry.path.dropLast = dir

theorem mem_children {fs : FileTree} {dir : Path} {entry : Entry} :
    entry ∈ fs.children dir ↔
      entry ∈ fs.entries.values ∧ entry.path ≠ [] ∧ entry.path.dropLast = dir := by
  simp [children]

/-- `read_dir`, `none` where it fails. -/
def readDir (dir : Path) : Option (List Entry) :=
  match fs.get? dir with
  | some ⟨_, .dir⟩ => some (fs.children dir)
  | _ => none

theorem readDir_eq_some {fs : FileTree} {dir : Path} {found : List Entry}
    (h : fs.readDir dir = some found) :
    fs.get? dir = some ⟨dir, .dir⟩ ∧ found = fs.children dir := by
  unfold readDir at h
  split at h
  · rename_i path hget
    obtain rfl : path = dir := path_of_get? hget
    exact ⟨hget, (Option.some.inj h).symm⟩
  · cases h

/-- `try_exists`. -/
def tryExists (path : Path) : Bool :=
  match fs.get? path with
  | some ⟨_, .symlink resolves⟩ => resolves
  | some _ => true
  | none => false

/-! ### Removing a directory -/

/-- `remove_dir_all`. -/
def removeDirAll (path : Path) : FileTree where
  entries := fs.entries.retain fun entry => ¬path <+: entry.path
  closed := by
    intro entry hentry hne
    obtain ⟨hentry, hkeep⟩ := KeyedStore.mem_retain.mp hentry
    obtain ⟨up, hup, hdrop, hkind⟩ := fs.closed entry hentry hne
    refine ⟨up, KeyedStore.mem_retain.mpr ⟨hup, ?_⟩, hdrop, hkind⟩
    rw [decide_eq_true_eq] at hkeep ⊢
    exact fun h => hkeep (h.trans (hdrop ▸ List.dropLast_prefix _))

theorem get?_removeDirAll (path q : Path) :
    (fs.removeDirAll path).get? q = if path <+: q then none else fs.get? q := by
  rw [get?, removeDirAll, KeyedStore.get?_retain, ← get?]
  refine Option.ext fun entry => ?_
  rw [Option.filter_eq_some_iff]
  constructor
  · rintro ⟨hget, hkeep⟩
    rw [decide_eq_true_eq, path_of_get? hget] at hkeep
    rw [if_neg hkeep, hget]
  · intro h
    split at h
    · cases h
    · rename_i hq
      refine ⟨h, ?_⟩
      rw [decide_eq_true_eq, path_of_get? h]
      exact hq

theorem children_removeDirAll (path dir : Path) :
    (fs.removeDirAll path).children dir =
      (fs.children dir).filter fun entry => ¬path <+: entry.path := by
  change (fs.entries.values.filter _).filter _ = (fs.entries.values.filter _).filter _
  rw [List.filter_filter, List.filter_filter]
  exact List.filter_congr fun entry _ => Bool.and_comm _ _

/-! ### Writing -/

/-- Whether an entry can be put where its path says. -/
def Fits (entry : Entry) : Prop :=
  (entry.path ≠ [] →
    ∃ up ∈ fs.entries.values, up.path = entry.path.dropLast ∧ up.kind.isFile = false) ∧
  (entry.kind.isFile = true →
    ∀ old ∈ fs.entries.values, old.path = entry.path → old.kind.isFile = true)

instance (entry : Entry) : Decidable (fs.Fits entry) := by unfold Fits; infer_instance

/-- An entry in its place. -/
def put (entry : Entry) : Except String FileTree :=
  if h : fs.Fits entry then
    .ok
      { entries := fs.entries.insert entry
        closed := by
          intro e he hne
          obtain ⟨up, hup, hdrop, hkind⟩ : ∃ up ∈ fs.entries.values,
              up.path = e.path.dropLast ∧ up.kind.isFile = false := by
            obtain rfl | ⟨he, -⟩ := KeyedStore.mem_insert.mp he
            · exact h.1 hne
            · exact fs.closed e he hne
          by_cases hput : up.path = entry.path
          · refine ⟨entry, KeyedStore.mem_insert.mpr (.inl rfl), hput ▸ hdrop, ?_⟩
            by_contra hfile
            rw [h.2 (by simpa using hfile) up hup hput] at hkind
            cases hkind
          · exact ⟨up, KeyedStore.mem_insert.mpr (.inr ⟨hup, hput⟩), hdrop, hkind⟩ }
  else .error "No such file or directory (os error 2)"

/-- `create_dir_all`, the ancestors from the top. -/
def createDirs : FileTree → Path → List String → Except String FileTree
  | fs, _, [] => .ok fs
  | fs, parent, name :: rest =>
    let path := parent ++ [name]
    match fs.get? path with
    | some ⟨_, .dir⟩ | some ⟨_, .symlink true⟩ => createDirs fs path rest
    | some _ => .error "Not a directory (os error 20)"
    | none =>
      match fs.put ⟨path, .dir⟩ with
      | .ok fs => createDirs fs path rest
      | .error e => .error e

/-- `create_dir_all`. -/
def createDirAll (path : Path) : Except String FileTree := createDirs fs [] path

/-- `fs::write`. What a link leads to is outside the tree. -/
def write (path : Path) (contents : Contents) : Except String FileTree :=
  match fs.get? path with
  | some ⟨_, .dir⟩ => .error "Is a directory (os error 21)"
  | some ⟨_, .symlink _⟩ => fs.put ⟨path, .symlink true⟩
  | _ => fs.put ⟨path, .file contents⟩

end FileTree

end T3Claw.Skills
