import T3Claw.Bridge.Paths
import T3Claw.Files.EditGuard

/-!
# The workspace of a project on the host

`bridge/sandbox/workspace_path.rs`. A project without an override is kept at the projects
directory, the user's id and its own id. An id of several components is joined as it stands, so
that a user can be given a directory inside another user's project (`projects_disjoint_iff`).
-/

namespace T3Claw.Sandbox

open Bridge (hexDigit uuidString)
open Files (encodeUtf8)

/-! ### Paths of the host -/

/-- `std::path::Component`. -/
inductive Component where
  | rootDir
  | curDir
  | parentDir
  | normal (name : List Char)
  deriving DecidableEq

/-- A piece between slashes, if it counts. -/
def Component.ofPiece : List Char → Option Component
  | [] => none
  | ['.'] => none
  | ['.', '.'] => some .parentDir
  | name => some (.normal name)

/-- What stands in front of the names of a path. A `.` counts there only. -/
def front (path : List Char) : List Component :=
  if path.head? = some '/' then [.rootDir]
  else if (path.splitOn '/').head? = some ['.'] then [.curDir]
  else []

/-- `Path::components`. -/
def components (path : List Char) : List Component :=
  front path ++ (path.splitOn '/').filterMap Component.ofPiece

/-- `PathBuf::join`. -/
def join (path more : List Char) : List Char :=
  if more.head? = some '/' then more
  else if path = [] ∨ path.getLast? = some '/' then path ++ more
  else path ++ '/' :: more

/-- `hex::encode`. -/
def hexEncode (bytes : List UInt8) : List Char :=
  bytes.flatMap fun b => [hexDigit (b.toNat / 16), hexDigit b.toNat]

/-! ### The workspace of a project -/

/-- `Project`, as far as it is used here. -/
structure Project where
  id : BitVec 128
  user_id : List Char
  workspace_path : Option (List Char)

/-- `matches!(c, Component::Normal(_))`. -/
def Component.isNormal : Component → Bool
  | normal _ => true
  | rootDir | curDir | parentDir => false

/-- The components are all `Normal`. -/
def isSafe (s : List Char) : Bool := (components s).all Component.isNormal

/-- `sanitize_path_component`. -/
def sanitizePathComponent (s : List Char) : List Char :=
  if s = [] then "_anonymous".toList
  else if isSafe s then s
  else hexEncode (encodeUtf8 s)

def PROJECTS_SUBDIR : List Char := "projects".toList

/-- The projects directory below the base directory. -/
def projectsDir (base_dir : List Char) : List Char := join base_dir PROJECTS_SUBDIR

/-- `default_project_workspace_path`. -/
def defaultProjectWorkspacePath (base_dir user_id : List Char) (project_id : BitVec 128) :
    List Char :=
  join (join (projectsDir base_dir) (sanitizePathComponent user_id)) (uuidString project_id.toNat)

/-- `project_workspace_path`. -/
def projectWorkspacePath (base_dir : List Char) (project : Project) : List Char :=
  project.workspace_path.getD
    (defaultProjectWorkspacePath base_dir project.user_id project.id)

/-- A directory is another one, or an ancestor of it. -/
def Holds (dir dir' : List Char) : Prop := components dir <+: components dir'

/-- What is promised of two projects. -/
structure Disjoint (base_dir : List Char) (p q : Project) : Prop where
  apart : ¬ Holds (projectWorkspacePath base_dir p) (projectWorkspacePath base_dir q)
  apart' : ¬ Holds (projectWorkspacePath base_dir q) (projectWorkspacePath base_dir p)
  below : ∀ project, project = p ∨ project = q →
    Holds (projectsDir base_dir) (projectWorkspacePath base_dir project) ∧
      ¬ Holds (projectWorkspacePath base_dir project) (projectsDir base_dir)

/-- The directories that a user's id names: the components of the id if they are all `Normal`, and
else one directory, with another name. -/
def userDirs (user_id : List Char) : List (List Char) :=
  if user_id = [] then ["_anonymous".toList]
  else if isSafe user_id then
    (user_id.splitOn '/').filter fun name => name ≠ [] ∧ name ≠ ['.']
  else [hexEncode (encodeUtf8 user_id)]

/-- The users name different directories or the projects differ, and no user names a directory in
the other one's project. -/
structure Apart (p q : Project) : Prop where
  differ : userDirs p.user_id = userDirs q.user_id → p.id ≠ q.id
  outside : ¬ userDirs p.user_id ++ [uuidString p.id.toNat] <+: userDirs q.user_id
  outside' : ¬ userDirs q.user_id ++ [uuidString q.id.toNat] <+: userDirs p.user_id

/-! ### Components -/

theorem splitOn_of_notMem {text : List Char} (h : '/' ∉ text) : text.splitOn '/' = [text] :=
  List.splitOnP_eq_singleton fun c hc => by
    simpa using fun heq : c = '/' => h (heq ▸ hc)

theorem splitOn_append (front back : List Char) :
    (front ++ '/' :: back).splitOn '/' = front.splitOn '/' ++ back.splitOn '/' :=
  List.splitOnP_append_cons _ _ (by decide)

/-- A text that is no special component is one component. -/
theorem components_of_notMem {text : List Char} (hslash : '/' ∉ text) (hdot : text.head? ≠ some '.')
    (hne : text ≠ []) : components text = [.normal text] := by
  obtain ⟨c, rest, rfl⟩ := List.exists_cons_of_ne_nil hne
  have hc : c ≠ '/' := fun h => hslash (h ▸ List.mem_cons_self)
  have hc' : c ≠ '.' := fun h => hdot (h ▸ rfl)
  have hpiece : Component.ofPiece (c :: rest) = some (.normal (c :: rest)) := by
    rw [Component.ofPiece] <;> simp [hc']
  simp [components, front, splitOn_of_notMem hslash, hc, hc', hpiece]

theorem front_append {path : List Char} (h : path ≠ []) (more : List Char) :
    front (path ++ '/' :: more) = front path := by
  obtain ⟨c, rest, rfl⟩ := List.exists_cons_of_ne_nil h
  have hne : (c :: rest).splitOn '/' ≠ [] := List.splitOnP_ne_nil _ _
  rw [front, front, splitOn_append, List.head?_append_of_ne_nil _ hne]
  rfl

/-- The components of a joined path. -/
theorem components_join (path : List Char) {more : List Char} (h : front more = []) :
    components (join path more) = components path ++ components more := by
  have hrelative : more.head? ≠ some '/' := fun hroot => by
    rw [front, if_pos hroot] at h
    cases h
  have hmore : components more = (more.splitOn '/').filterMap Component.ofPiece := by
    rw [components, h, List.nil_append]
  -- A slash at the end of the path and one that is put between are the same.
  have hslash {path : List Char} (hne : path ≠ []) :
      components (path ++ '/' :: more) = components path ++ components more := by
    rw [components, components, front_append hne, splitOn_append, List.filterMap_append,
      ← List.append_assoc, hmore]
  rw [join, if_neg hrelative]
  obtain rfl | hne := eq_or_ne path []
  · rw [if_pos (.inl rfl), List.nil_append]
    rfl
  by_cases hlast : path.getLast? = some '/'
  · rw [if_pos (.inr hlast)]
    obtain ⟨path, rfl⟩ := List.getLast?_eq_some_iff.mp hlast
    have hend : components (path ++ ['/']) = front (path ++ ['/']) ++
        (path.splitOn '/').filterMap Component.ofPiece := by
      rw [components, splitOn_append, List.filterMap_append]
      simp [Component.ofPiece]
    have hfront : front (path ++ '/' :: more) = front (path ++ ['/']) := by
      cases path with
      | nil => rfl
      | cons c rest =>
        rw [front_append (List.cons_ne_nil c rest), front_append (List.cons_ne_nil c rest)]
    rw [List.append_assoc, List.singleton_append, hend, List.append_assoc, hmore,
      ← List.filterMap_append, ← splitOn_append, components, hfront]
  · rw [if_neg (not_or.mpr ⟨hne, hlast⟩)]
    exact hslash hne

/-! ### The names of a user and of a project -/

theorem isHexDigit (n : ℕ) : hexDigit n ∈ "0123456789abcdef".toList := by
  have hall : ∀ i < 16, ("0123456789abcdef".toList[i]?).getD '0' ∈ "0123456789abcdef".toList := by
    decide
  exact hall (n % 16) (Nat.mod_lt n (by decide))

theorem hexDigit_ne {c : Char} (hc : c ∉ "0123456789abcdef".toList) (n : ℕ) : c ≠ hexDigit n :=
  fun h => hc (h ▸ isHexDigit n)

theorem notMem_hexEncode {c : Char} (hc : c ∉ "0123456789abcdef".toList) (bytes : List UInt8) :
    c ∉ hexEncode bytes := by
  intro h
  obtain ⟨b, -, hb⟩ := List.mem_flatMap.mp h
  obtain h | h : c = _ ∨ c = _ := by simpa using hb
  · exact hexDigit_ne hc _ h
  · exact hexDigit_ne hc _ h

theorem notMem_hex {c : Char} (hc : c ∉ "0123456789abcdef".toList) (width n : ℕ) :
    c ∉ Bridge.hex width n := by
  induction width generalizing n with
  | zero => exact List.not_mem_nil
  | succ width ih =>
    rw [Bridge.hex, List.mem_append, not_or]
    exact ⟨ih _, by simpa using hexDigit_ne hc n⟩

theorem length_hex (width n : ℕ) : (Bridge.hex width n).length = width := by
  induction width generalizing n with
  | zero => rfl
  | succ width ih => rw [Bridge.hex, List.length_append, ih, List.length_singleton]

/-- The digits of an id without its dashes. -/
theorem filter_uuidString (n : ℕ) : (uuidString n).filter (· ≠ '-') = Bridge.hex 32 n := by
  have hdash : ∀ c ∈ Bridge.hex 32 n, decide (c ≠ '-') = true := fun c hc => by
    simpa using fun h : c = '-' => notMem_hex (c := '-') (by decide) 32 n (h ▸ hc)
  have htake (i j : ℕ) : (((Bridge.hex 32 n).drop i).take j).filter (· ≠ '-') =
      ((Bridge.hex 32 n).drop i).take j :=
    List.filter_eq_self.mpr fun c hc => hdash c (List.mem_of_mem_drop (List.mem_of_mem_take hc))
  have hdrop : ((Bridge.hex 32 n).drop 20).filter (· ≠ '-') = (Bridge.hex 32 n).drop 20 :=
    List.filter_eq_self.mpr fun c hc => hdash c (List.mem_of_mem_drop hc)
  have hfirst := htake 0 8
  rw [List.drop_zero] at hfirst
  have hskip (l : List Char) : ('-' :: l).filter (· ≠ '-') = l.filter (· ≠ '-') := by simp
  have hjoin (i j : ℕ) : ((Bridge.hex 32 n).drop i).take j ++ (Bridge.hex 32 n).drop (i + j) =
      (Bridge.hex 32 n).drop i := by rw [← List.drop_drop, List.take_append_drop]
  simp only [uuidString, List.filter_append, hskip, hfirst, htake, hdrop, List.append_assoc]
  rw [hjoin 16 4, hjoin 12 4, hjoin 8 4, List.take_append_drop]

theorem hexDigit_injective {n m : ℕ} (h : hexDigit n = hexDigit m) : n % 16 = m % 16 := by
  have hall : ∀ i < 16, ∀ j < 16, ("0123456789abcdef".toList[i]?).getD '0' =
      ("0123456789abcdef".toList[j]?).getD '0' → i = j := by decide
  exact hall _ (Nat.mod_lt n (by decide)) _ (Nat.mod_lt m (by decide)) h

theorem hex_injective {width n m : ℕ} (hn : n < 16 ^ width) (hm : m < 16 ^ width)
    (h : Bridge.hex width n = Bridge.hex width m) : n = m := by
  induction width generalizing n m with
  | zero => omega
  | succ width ih =>
    rw [Bridge.hex, Bridge.hex] at h
    obtain ⟨hfront, hdigit⟩ := List.append_inj' h rfl
    have hdiv : n / 16 = m / 16 := by
      refine ih ?_ ?_ hfront
      · exact Nat.div_lt_of_lt_mul (by rwa [← Nat.pow_succ'])
      · exact Nat.div_lt_of_lt_mul (by rwa [← Nat.pow_succ'])
    have hmod := hexDigit_injective (List.singleton_inj.mp hdigit)
    omega

theorem uuidString_injective {a b : BitVec 128} (h : uuidString a.toNat = uuidString b.toNat) :
    a = b := by
  have hpow : 2 ^ 128 = 16 ^ 32 := by decide
  refine BitVec.eq_of_toNat_eq (hex_injective (hpow ▸ a.isLt) (hpow ▸ b.isLt) ?_)
  rw [← filter_uuidString, h, filter_uuidString]

theorem components_uuidString (n : ℕ) : components (uuidString n) = [.normal (uuidString n)] := by
  have hnot {c : Char} (hc : c ∉ "0123456789abcdef".toList) (hdash : c ≠ '-') :
      c ∉ uuidString n := fun h => by
    refine notMem_hex hc 32 n ?_
    rw [← filter_uuidString]
    exact List.mem_filter.mpr ⟨h, by simpa using hdash⟩
  refine components_of_notMem (hnot (by decide) (by decide)) (fun h => ?_) fun h => ?_
  · exact hnot (c := '.') (by decide) (by decide) (List.mem_of_mem_head? h)
  · have hlength := congrArg List.length (filter_uuidString n)
    rw [h, length_hex] at hlength
    cases hlength

theorem front_of_isSafe {path : List Char} (h : isSafe path = true) : front path = [] := by
  rw [isSafe, components, List.all_append, Bool.and_eq_true] at h
  have hfront := h.1
  rw [front] at hfront ⊢
  split at hfront
  · cases hfront
  · rename_i hroot
    rw [if_neg hroot]
    split at hfront
    · cases hfront
    · rename_i hcur
      rw [if_neg hcur]

/-- Components that are all `Normal` are the pieces that count. -/
theorem filterMap_ofPiece {pieces : List (List Char)}
    (h : (pieces.filterMap Component.ofPiece).all Component.isNormal = true) :
    pieces.filterMap Component.ofPiece =
      (pieces.filter fun name => name ≠ [] ∧ name ≠ ['.']).map Component.normal := by
  induction pieces with
  | nil => rfl
  | cons name pieces ih =>
    rw [List.filterMap_cons] at h ⊢
    rw [List.filter_cons]
    by_cases hnil : name = []
    · subst hnil
      exact ih h
    by_cases hdot : name = ['.']
    · subst hdot
      exact ih h
    by_cases hdots : name = ['.', '.']
    · subst hdots
      cases h
    have hpiece : Component.ofPiece name = some (.normal name) := by
      rw [Component.ofPiece] <;> assumption
    rw [hpiece] at h ⊢
    rw [if_pos (by simp [hnil, hdot]), List.map_cons]
    exact congrArg _ (ih h)

/-- What a user's id is made into has the names of the id as its components. -/
theorem components_sanitizePathComponent (user_id : List Char) :
    front (sanitizePathComponent user_id) = [] ∧
      components (sanitizePathComponent user_id) = (userDirs user_id).map .normal := by
  rw [sanitizePathComponent, userDirs]
  split
  · decide
  rename_i hne
  split
  · rename_i hsafe
    have hall := hsafe
    rw [isSafe, components, List.all_append, Bool.and_eq_true] at hall
    refine ⟨front_of_isSafe hsafe, ?_⟩
    rw [components, front_of_isSafe hsafe, List.nil_append]
    exact filterMap_ofPiece hall.2
  · have hdot : (hexEncode (encodeUtf8 user_id)).head? ≠ some '.' := fun h =>
      notMem_hexEncode (c := '.') (by decide) _ (List.mem_of_mem_head? h)
    have hencoded : hexEncode (encodeUtf8 user_id) ≠ [] := by
      obtain ⟨c, rest, rfl⟩ := List.exists_cons_of_ne_nil hne
      have hbytes : String.utf8EncodeChar c ≠ [] := List.ne_nil_of_length_pos (by
        rw [String.length_utf8EncodeChar]
        exact Char.utf8Size_pos c)
      obtain ⟨b, bytes, hb⟩ := List.exists_cons_of_ne_nil hbytes
      simp [encodeUtf8, hexEncode, hb]
    have hcomponents :=
      components_of_notMem (notMem_hexEncode (c := '/') (by decide) _) hdot hencoded
    exact ⟨front_of_isSafe (by rw [isSafe, hcomponents]; rfl), hcomponents⟩

/-! ### The directories of projects -/

theorem components_projectWorkspacePath (base_dir : List Char) {project : Project}
    (h : project.workspace_path = none) :
    components (projectWorkspacePath base_dir project) = components (projectsDir base_dir) ++
      ((userDirs project.user_id).map .normal ++ [.normal (uuidString project.id.toNat)]) := by
  obtain ⟨hfront, hcomponents⟩ := components_sanitizePathComponent project.user_id
  rw [projectWorkspacePath, h, Option.getD_none, defaultProjectWorkspacePath,
    components_join _ (front_of_isSafe ?_), components_join _ hfront, hcomponents,
    components_uuidString, List.append_assoc]
  rw [isSafe, components_uuidString]
  rfl

theorem normal_injective : Function.Injective Component.normal :=
  fun _ _ h => Component.normal.inj h

/-- A project holds another one's directory exactly when its names begin the other one's. -/
theorem holds_iff (base_dir : List Char) {p q : Project} (hp : p.workspace_path = none)
    (hq : q.workspace_path = none) :
    Holds (projectWorkspacePath base_dir p) (projectWorkspacePath base_dir q) ↔
      (userDirs p.user_id = userDirs q.user_id ∧ p.id = q.id) ∨
        userDirs p.user_id ++ [uuidString p.id.toNat] <+: userDirs q.user_id := by
  have hnames (project : Project) : (userDirs project.user_id).map Component.normal ++
      [.normal (uuidString project.id.toNat)] =
        (userDirs project.user_id ++ [uuidString project.id.toNat]).map .normal := by simp
  rw [Holds, components_projectWorkspacePath base_dir hp,
    components_projectWorkspacePath base_dir hq, List.prefix_append_right_inj, hnames, hnames,
    List.prefix_map_iff_of_injective normal_injective, List.prefix_concat_iff]
  refine or_congr_left ⟨fun h => ?_, fun h => by rw [h.1, h.2]⟩
  obtain ⟨hdirs, hid⟩ := List.append_inj' h (by rw [List.length_singleton, List.length_singleton])
  exact ⟨hdirs, uuidString_injective (List.singleton_inj.mp hid)⟩

/-- Two projects without an override are disjoint exactly when their users' ids are apart. -/
theorem projects_disjoint_iff (base_dir : List Char) {p q : Project} (hp : p.workspace_path = none)
    (hq : q.workspace_path = none) : Disjoint base_dir p q ↔ Apart p q := by
  constructor
  · intro h
    have happart := h.apart
    have happart' := h.apart'
    rw [holds_iff base_dir hp hq, not_or] at happart
    rw [holds_iff base_dir hq hp, not_or] at happart'
    exact ⟨fun hdirs hid => happart.1 ⟨hdirs, hid⟩, happart.2, happart'.2⟩
  · intro h
    refine ⟨?_, ?_, fun project hproject => ?_⟩
    · rw [holds_iff base_dir hp hq, not_or]
      exact ⟨fun hsame => h.differ hsame.1 hsame.2, h.outside⟩
    · rw [holds_iff base_dir hq hp, not_or]
      exact ⟨fun hsame => h.differ hsame.1.symm hsame.2.symm, h.outside'⟩
    · have hnone : project.workspace_path = none := by
        obtain rfl | rfl := hproject
        · exact hp
        · exact hq
      rw [Holds, Holds, components_projectWorkspacePath base_dir hnone]
      refine ⟨List.prefix_append _ _, fun hprefix => ?_⟩
      have hle := hprefix.length_le
      simp at hle

/-- A project of a user. -/
def projectOf (user_id : String) (id : BitVec 128) : Project := ⟨id, user_id.toList, none⟩

theorem alice_and_bob :
    Disjoint "/home/me/.t3claw".toList (projectOf "alice" 0) (projectOf "bob" 0) :=
  (projects_disjoint_iff _ rfl rfl).mpr ⟨by decide +kernel, by decide +kernel, by decide +kernel⟩

/-- A user whose id names a directory in the first project of another one. -/
theorem inside_alice : ¬ Disjoint "/home/me/.t3claw".toList (projectOf "alice" 0)
    (projectOf "alice/00000000-0000-0000-0000-000000000000" 1) := by
  intro h
  refine h.apart ?_
  rw [Holds]
  decide +kernel

end T3Claw.Sandbox
