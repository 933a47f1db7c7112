import Mathlib.Data.Int.Notation
import Mathlib.Data.List.Basic
import Mathlib.Data.List.Induction
import Mathlib.Logic.Function.Basic

/-!
# A disk

Directories, files and symbolic links by their absolute path, with the operations of
`std::fs` on them. What stands at a path stands in a directory (`closed`), so a path at which
there is something, or whose directory is there, passes through no link: it is the path
`realpath` gives (`Disk.location_of_settled`).

`resolve` walks a path from the root as the kernel does. `location` is the path of what it
walks to, also when that is not there yet: where a write through the path ends up.
-/

/-- What stands at a path. The target of a link is walked from the root when it is absolute,
and else from the directory of the link. -/
inductive DiskNode where
  | file (bytes : List UInt8) (mtime : ℤ)
  | dir
  | link (absolute : Bool) (target : List String)
  deriving DecidableEq

/-- A disk: what stands at each path. -/
structure Disk where
  node : List String → Option DiskNode
  root : node [] = some .dir
  closed : ∀ path name, node (path ++ [name]) ≠ none → node path = some .dir

/-- The disk on which there is nothing. -/
def Disk.empty : Disk where
  node path := if path = [] then some .dir else none
  root := rfl
  closed path name h :=
    absurd (if_neg (List.append_ne_nil_of_right_ne_nil path (List.cons_ne_nil name []))) h

/-- An error of the operating system; `NotFound` is told from the others. -/
structure IoError where
  not_found : Bool
  text : String
  deriving DecidableEq

namespace IoError

def notFound : IoError := ⟨true, "No such file or directory (os error 2)"⟩

def notADirectory : IoError := ⟨false, "Not a directory (os error 20)"⟩

def isADirectory : IoError := ⟨false, "Is a directory (os error 21)"⟩

def fileExists : IoError := ⟨false, "File exists (os error 17)"⟩

def tooManyLinks : IoError := ⟨false, "Too many levels of symbolic links (os error 40)"⟩

end IoError

namespace Disk

/-! ### Walking a path -/

/-- Where a path leads: to a directory or a file, to a name that is missing in its directory
(with what was to come behind it), or nowhere. -/
inductive Place where
  | found (path : List String)
  | missing (path rest : List String)
  | blocked (error : IoError)
  deriving DecidableEq

/-- Down the directories, up to the first name that is none. -/
def descend (disk : Disk) : List String → List String → List String × List String
  | here, [] => (here, [])
  | here, name :: rest =>
    if name = ".." then disk.descend here.dropLast rest
    else if disk.node (here ++ [name]) = some .dir then disk.descend (here ++ [name]) rest
    else (here, name :: rest)

/-- The walk, over no more than `links` links. -/
def resolve (disk : Disk) : ℕ → List String → List String → Place
  | links, here, path =>
    match disk.descend here path with
    | (here, []) => .found here
    | (here, name :: rest) =>
      match disk.node (here ++ [name]), links with
      | some (.link absolute target), links + 1 =>
        disk.resolve links (if absolute then [] else here) (target ++ rest)
      | some (.link _ _), 0 => .blocked .tooManyLinks
      | some (.file _ _), _ =>
        if rest = [] then .found (here ++ [name]) else .blocked .notADirectory
      | _, _ => .missing (here ++ [name]) rest

/-- The links a walk may cross. -/
def LINKS : ℕ := 40

/-- Where an absolute path leads. -/
def place (disk : Disk) (path : List String) : Place := disk.resolve LINKS [] path

/-- The path, free of links, of what a path names. -/
def location (disk : Disk) (path : List String) : Option (List String) :=
  match disk.place path with
  | .found p => some p
  | .missing p [] => some p
  | _ => none

/-- `canonicalize`. -/
def canonicalize (disk : Disk) (path : List String) : Option (List String) :=
  match disk.place path with
  | .found p => some p
  | _ => none

/-- The bytes of the file at a path without links. -/
def bytes (disk : Disk) (path : List String) : Option (List UInt8) :=
  match disk.node path with
  | some (.file bytes _) => some bytes
  | _ => none

/-! ### Reading -/

/-- What `metadata` gives: of a directory, neither size nor time. -/
structure Metadata where
  is_file : Bool
  len : ℕ
  modified : ℤ

/-- `metadata`. -/
def metadata (disk : Disk) (path : List String) : Except IoError Metadata :=
  match disk.place path with
  | .found p =>
    match disk.node p with
    | some (.file bytes mtime) => .ok ⟨true, bytes.length, mtime⟩
    | _ => .ok ⟨false, 0, 0⟩
  | .missing _ _ => .error .notFound
  | .blocked e => .error e

/-- `read`. -/
def read (disk : Disk) (path : List String) : Except IoError (List UInt8) :=
  match disk.place path with
  | .found p =>
    match disk.node p with
    | some (.file bytes _) => .ok bytes
    | _ => .error .isADirectory
  | .missing _ _ => .error .notFound
  | .blocked e => .error e

/-! ### Changing -/

/-- The disk with another file or directory at `path`, whose directory is there. -/
def put (disk : Disk) (path : List String) (name : String) (node : DiskNode)
    (hup : disk.node path = some .dir) (hnode : disk.node (path ++ [name]) ≠ some .dir) :
    Disk where
  node := Function.update disk.node (path ++ [name]) (some node)
  root := by
    rw [Function.update_of_ne (by simp)]
    exact disk.root
  closed := by
    intro q n hq
    have hold : q = path ++ [name] → disk.node (q ++ [n]) = none := by
      rintro rfl
      by_contra hsome
      exact hnode (disk.closed _ _ hsome)
    have hdir : disk.node q = some .dir := by
      by_cases hn : q ++ [n] = path ++ [name]
      · rw [(List.append_inj' hn rfl).1]
        exact hup
      · rw [Function.update_of_ne hn] at hq
        exact disk.closed q n hq
    rw [Function.update_of_ne ?_, hdir]
    rintro rfl
    exact hnode hdir

/-- The disk without the file or link at a path. -/
def erase (disk : Disk) (path : List String) (hnode : disk.node path ≠ some .dir) : Disk where
  node := Function.update disk.node path none
  root := by
    rw [Function.update_of_ne ?_, disk.root]
    rintro rfl
    exact hnode disk.root
  closed := by
    intro q n hq
    have hne : q ++ [n] ≠ path := by
      rintro rfl
      exact hq (Function.update_self ..)
    rw [Function.update_of_ne hne] at hq
    have hdir := disk.closed q n hq
    rw [Function.update_of_ne ?_, hdir]
    rintro rfl
    exact hnode hdir

/-- A file or directory at the end of a path, where its directory is there and no directory
stands there already. -/
def putAt (disk : Disk) (path : List String) (node : DiskNode) : Option Disk :=
  match path.getLast? with
  | none => none
  | some name =>
    if h : disk.node path.dropLast = some .dir ∧
        disk.node (path.dropLast ++ [name]) ≠ some .dir then
      some (disk.put path.dropLast name node h.1 h.2)
    else none

/-- `write`: the file is replaced, or made in a directory that is there. -/
def write (disk : Disk) (path : List String) (bytes : List UInt8) (now : ℤ) :
    Except IoError Disk :=
  match disk.place path with
  | .found p | .missing p [] =>
    match disk.putAt p (.file bytes now) with
    | some disk => .ok disk
    | none => .error .isADirectory
  | .missing _ _ => .error .notFound
  | .blocked e => .error e

/-- `create_dir`, and nothing where there is a directory already. A link that leads nowhere
is in the way. -/
def ensureDir (disk : Disk) (path : List String) : Except IoError Disk :=
  match disk.place path.dropLast, path.getLast? with
  | .found up, some name =>
    match disk.node (up ++ [name]) with
    | none =>
      match disk.putAt (up ++ [name]) .dir with
      | some disk => .ok disk
      | none => .error .notADirectory
    | some _ =>
      match disk.metadata path with
      | .ok found => if found.is_file then .error .fileExists else .ok disk
      | .error _ => .error .fileExists
  | .found _, none => .ok disk
  | .missing _ _, _ => .error .notFound
  | .blocked e, _ => .error e

/-- The directories of a path, the topmost first. -/
def ensureDirs : Disk → List (List String) → Except IoError Disk
  | disk, [] => .ok disk
  | disk, path :: rest =>
    match disk.ensureDir path with
    | .ok disk => ensureDirs disk rest
    | .error e => .error e

/-- `create_dir_all`. -/
def createDirAll (disk : Disk) (path : List String) : Except IoError Disk :=
  disk.ensureDirs path.inits

/-- `remove_file`: a link goes, not what it leads to. -/
def removeFile (disk : Disk) (path : List String) : Except IoError Disk :=
  match disk.place path.dropLast, path.getLast? with
  | .found up, some name =>
    if h : disk.node (up ++ [name]) = some .dir then .error .isADirectory
    else if disk.node (up ++ [name]) = none then .error .notFound
    else .ok (disk.erase (up ++ [name]) h)
  | .found _, none => .error .isADirectory
  | .missing _ _, _ => .error .notFound
  | .blocked e, _ => .error e

/-! ### Paths without links -/

variable {disk later : Disk} {here path p q : List String} {name : String}

/-- Above something there is a directory. -/
theorem node_of_isPrefix (h : disk.node (p ++ q) ≠ none) (hq : q ≠ []) :
    disk.node p = some .dir := by
  induction q using List.reverseRecOn with
  | nil => exact absurd rfl hq
  | append_singleton q last ih =>
    rw [← List.append_assoc] at h
    have hdir := disk.closed _ _ h
    by_cases hq : q = []
    · rwa [hq, List.append_nil] at hdir
    · exact ih (by rw [hdir]; exact nofun) hq

/-- A path that passes through no link and no file, and is no link itself. -/
structure Direct (disk : Disk) (path : List String) : Prop where
  no_up : ".." ∉ path
  above : ∀ front back, path = front ++ back → back ≠ [] →
    disk.node front = some .dir ∨ disk.node front = none
  no_link : ∀ absolute target, disk.node path ≠ some (.link absolute target)

/-- A path in a directory that is there, which is no link. -/
structure Settled (disk : Disk) (path : List String) : Prop where
  no_up : ".." ∉ path
  above : path = [] ∨ disk.node path.dropLast = some .dir
  no_link : ∀ absolute target, disk.node path ≠ some (.link absolute target)

theorem Settled.direct (h : disk.Settled path) : disk.Direct path := by
  refine ⟨h.no_up, fun front back hpath hback => .inl ?_, h.no_link⟩
  subst hpath
  obtain hnil | hup := h.above
  · exact absurd (List.append_eq_nil_iff.mp hnil).2 hback
  · rw [List.dropLast_append_of_ne_nil hback] at hup
    by_cases hdrop : back.dropLast = []
    · rwa [hdrop, List.append_nil] at hup
    · exact node_of_isPrefix (by rw [hup]; exact nofun) hdrop

theorem settled_of_dir (h : disk.node p = some .dir) (hup : ".." ∉ p) : disk.Settled p := by
  refine ⟨hup, ?_, by simp [h]⟩
  rcases List.eq_nil_or_concat' p with rfl | ⟨front, last, rfl⟩
  · exact .inl rfl
  · rw [List.dropLast_concat]
    exact .inr (disk.closed _ last (by simp [h]))

/-! ### What a walk finds -/

/-- A walk goes down from a directory to a directory, and stops at a name that is none. -/
theorem descend_spec {rest : List String} (hhere : disk.node here = some .dir)
    (hup : ".." ∉ here) (h : disk.descend here path = (p, rest)) :
    disk.node p = some .dir ∧ ".." ∉ p ∧ ∀ name tail, rest = name :: tail →
      name ≠ ".." ∧ disk.node (p ++ [name]) ≠ some .dir := by
  induction path generalizing here with
  | nil =>
    obtain ⟨rfl, rfl⟩ := Prod.mk.inj h
    exact ⟨hhere, hup, nofun⟩
  | cons name tail ih =>
    rw [descend] at h
    split at h
    case isTrue =>
      refine ih ?_ (fun h => hup (List.dropLast_subset _ h)) h
      rcases List.eq_nil_or_concat' here with rfl | ⟨front, last, rfl⟩
      · exact disk.root
      · rw [List.dropLast_concat]
        exact disk.closed _ _ (by rw [hhere]; exact nofun)
    case isFalse hname =>
      split at h
      case isTrue hdir => exact ih hdir (by simp [hup, Ne.symm hname]) h
      case isFalse hdir =>
        obtain ⟨rfl, rfl⟩ := Prod.mk.inj h
        refine ⟨hhere, hup, fun name' tail' h => ?_⟩
        obtain ⟨rfl, rfl⟩ := List.cons.inj h
        exact ⟨hname, hdir⟩

/-- A walk along directories goes on behind them; one that stops stops whatever comes
behind. -/
theorem descend_append (q : List String) :
    disk.descend here (path ++ q) =
      if (disk.descend here path).2 = [] then disk.descend (disk.descend here path).1 q
      else ((disk.descend here path).1, (disk.descend here path).2 ++ q) := by
  induction path generalizing here with
  | nil => rfl
  | cons name rest ih =>
    simp only [List.cons_append, descend]
    split
    · exact ih
    · split
      · exact ih
      · rfl

/-- What a walk finds is settled, and so is the name it misses. -/
theorem resolve_settled (path : List String) (links : ℕ) (hhere : disk.node here = some .dir)
    (hup : ".." ∉ here) :
    match disk.resolve links here path with
    | .found p => disk.Settled p ∧ disk.node p ≠ none
    | .missing p _ => disk.Settled p ∧ disk.node p = none
    | .blocked _ => True := by
  fun_induction disk.resolve links here path with
  | case1 links here path stop hstop =>
    obtain ⟨hdir, hup, -⟩ := descend_spec hhere hup hstop
    exact ⟨settled_of_dir hdir hup, by simp [hdir]⟩
  | case2 here path stop name rest hstop absolute target links hlink ih =>
    obtain ⟨hdir, hup, -⟩ := descend_spec hhere hup hstop
    refine ih ?_ ?_
    · split
      · exact disk.root
      · exact hdir
    · split
      · exact List.not_mem_nil
      · exact hup
  | case3 => trivial
  | case4 links here path stop name bytes mtime hfile hstop =>
    obtain ⟨hdir, hup, hname⟩ := descend_spec hhere hup hstop
    have hname := (hname name [] rfl).1
    exact ⟨⟨by simp [hup, Ne.symm hname], .inr (by rwa [List.dropLast_concat]), by simp [hfile]⟩,
      by simp [hfile]⟩
  | case5 => trivial
  | case6 links here path stop name rest hstop hfile hlink hloop =>
    obtain ⟨hdir, hup, hname⟩ := descend_spec hhere hup hstop
    obtain ⟨hname, hnodir⟩ := hname name rest rfl
    -- neither a file nor a directory, and links have cases of their own
    have hnone : disk.node (stop ++ [name]) = none := by
      cases hnode : disk.node (stop ++ [name]) with
      | none => rfl
      | some node =>
        cases node with
        | file bytes mtime => exact (hfile bytes mtime hnode).elim
        | dir => exact absurd hnode hnodir
        | link absolute target =>
          cases links with
          | zero => exact (hloop absolute target hnode rfl).elim
          | succ links => exact (hlink absolute target links hnode rfl).elim
    exact ⟨⟨by simp [hup, Ne.symm hname], .inr (by rwa [List.dropLast_concat]), by simp [hnone]⟩,
      hnone⟩

theorem settled_of_found (h : disk.place path = .found p) :
    disk.Settled p ∧ disk.node p ≠ none := by
  have hsettled := resolve_settled path LINKS disk.root List.not_mem_nil
  rwa [← place, h] at hsettled

theorem settled_of_missing {rest : List String} (h : disk.place path = .missing p rest) :
    disk.Settled p ∧ disk.node p = none := by
  have hsettled := resolve_settled path LINKS disk.root List.not_mem_nil
  rwa [← place, h] at hsettled

theorem settled_of_location (h : disk.location path = some p) : disk.Settled p := by
  unfold location at h
  split at h
  case h_1 hplace =>
    obtain rfl := Option.some.inj h
    exact (settled_of_found hplace).1
  case h_2 hplace =>
    obtain rfl := Option.some.inj h
    exact (settled_of_missing hplace).1
  case h_3 => cases h

/-- A walk along a direct path goes down its directories to its end, or to a file at its end,
or to a name that is missing. -/
theorem descend_direct (here : List String) (hhere : disk.node here = some .dir)
    (h : disk.Direct (here ++ path)) :
    disk.descend here path = (here ++ path, []) ∧ disk.node (here ++ path) = some .dir ∨
      ∃ front name rest, path = front ++ name :: rest ∧
        disk.descend here path = (here ++ front, name :: rest) ∧
        (disk.node (here ++ front ++ [name]) = none ∨
          rest = [] ∧ ∃ bytes mtime,
            disk.node (here ++ front ++ [name]) = some (.file bytes mtime)) := by
  induction path generalizing here with
  | nil =>
    rw [List.append_nil]
    exact .inl ⟨rfl, hhere⟩
  | cons name rest ih =>
    have hname : name ≠ ".." := fun hup => h.no_up (by simp [hup])
    have hsplit : here ++ name :: rest = here ++ [name] ++ rest := by simp
    rw [descend, if_neg hname]
    cases hnode : disk.node (here ++ [name]) with
    | none => exact .inr ⟨[], name, rest, rfl, by simp, .inl (by simpa using hnode)⟩
    | some node =>
      -- on a direct path only a directory has something below it
      have hlast : node ≠ .dir → rest = [] := by
        intro hdir
        by_contra hrest
        obtain habove | habove := h.above _ _ hsplit hrest
        · rw [hnode] at habove
          exact hdir (Option.some.inj habove)
        · rw [hnode] at habove
          cases habove
      cases node with
      | dir =>
        rw [if_pos rfl, hsplit]
        rw [hsplit] at h
        obtain hend | ⟨front, n, rest, rfl, hstop, hkind⟩ := ih (here ++ [name]) hnode h
        · exact .inl hend
        · refine .inr ⟨name :: front, n, rest, rfl, ?_, ?_⟩
          · simpa using hstop
          · simpa using hkind
      | file bytes mtime =>
        obtain rfl := hlast nofun
        exact .inr ⟨[], name, [], rfl, by simp, .inr ⟨rfl, bytes, mtime, by simpa using hnode⟩⟩
      | link absolute target =>
        obtain rfl := hlast nofun
        exact absurd hnode (h.no_link absolute target)

/-- **A direct path is its own location**, and a walk to it misses nothing but itself. -/
theorem place_of_direct (h : disk.Direct path) :
    (disk.node path ≠ none → disk.place path = .found path) ∧
      (disk.node path = none → ∃ q rest, disk.place path = .missing q rest) := by
  obtain ⟨hend, hdir⟩ | ⟨front, name, rest, rfl, hstop, hkind⟩ :=
    descend_direct [] disk.root h
  · have hplace : disk.place path = .found path := by
      rw [place, LINKS, resolve, hend]
      rfl
    exact ⟨fun _ => hplace, fun hnone => by rw [List.nil_append, hnone] at hdir; cases hdir⟩
  · rw [List.nil_append] at hstop hkind
    obtain hnone | ⟨rfl, bytes, mtime, hfile⟩ := hkind
    · have hplace : disk.place (front ++ name :: rest) = .missing (front ++ [name]) rest := by
        rw [place, LINKS, resolve, hstop]
        simp only [hnone]
      refine ⟨fun hsome => ?_, fun _ => ⟨_, _, hplace⟩⟩
      by_cases hrest : rest = []
      · exact absurd (hrest ▸ hnone) hsome
      · have hdir : disk.node (front ++ [name]) = some .dir :=
          node_of_isPrefix (q := rest) (by simpa using hsome) hrest
        rw [hnone] at hdir
        cases hdir
    · have hplace : disk.place (front ++ [name]) = .found (front ++ [name]) := by
        rw [place, LINKS, resolve, hstop]
        simp only [hfile, if_pos]
      exact ⟨fun _ => hplace, fun hnone => by rw [hfile] at hnone; cases hnone⟩

/-- What is read through a direct path is what stands there. -/
theorem read_of_direct (h : disk.Direct path) :
    (∀ bytes, disk.read path = .ok bytes → disk.bytes path = some bytes) ∧
      (∀ e, disk.read path = .error e → e.not_found = true → disk.bytes path = none) := by
  obtain ⟨hfound, hmissing⟩ := place_of_direct h
  cases hnode : disk.node path with
  | none =>
    obtain ⟨q, rest, hplace⟩ := hmissing hnode
    refine ⟨fun bytes hread => ?_, fun _ _ _ => by rw [Disk.bytes, hnode]⟩
    rw [read, hplace] at hread
    cases hread
  | some node =>
    have hplace := hfound (by rw [hnode]; exact nofun)
    rw [read, hplace]
    simp only [hnode, Disk.bytes]
    cases node with
    | file bytes mtime =>
      exact ⟨fun _ hread => congrArg some (Except.ok.inj hread), nofun⟩
    | dir => exact ⟨nofun, fun _ _ _ => rfl⟩
    | link => exact ⟨nofun, fun _ _ _ => rfl⟩

/-- A settled path is its own location. -/
theorem place_of_settled (h : disk.Settled path) :
    disk.place path = if disk.node path = none then .missing path [] else .found path := by
  obtain ⟨hfound, -⟩ := place_of_direct h.direct
  split
  case isFalse hsome => exact hfound hsome
  case isTrue hnone =>
    obtain hend | ⟨front, name, rest, rfl, hstop, hkind⟩ :=
      descend_direct [] disk.root h.direct
    · rw [List.nil_append, hnone] at hend
      cases hend.2
    · rw [List.nil_append] at hstop hkind
      obtain habsent | ⟨rfl, bytes, mtime, hfile⟩ := hkind
      · obtain rfl : rest = [] := by
          by_contra hrest
          have hup := h.above.resolve_left (by simp)
          rw [List.dropLast_append_of_ne_nil (List.cons_ne_nil _ _),
            List.dropLast_cons_of_ne_nil hrest] at hup
          by_cases hdrop : rest.dropLast = []
          · rw [hdrop, habsent] at hup
            cases hup
          · have hdir : disk.node (front ++ [name]) = some .dir :=
              node_of_isPrefix (q := rest.dropLast) (by simp [hup]) hdrop
            rw [habsent] at hdir
            cases hdir
        rw [place, LINKS, resolve, hstop]
        simp only [habsent]
      · rw [hfile] at hnone
        cases hnone

theorem location_of_settled (h : disk.Settled path) : disk.location path = some path := by
  rw [location, place_of_settled h]
  by_cases hnone : disk.node path = none
  · rw [if_pos hnone]
  · rw [if_neg hnone]

/-- A name in a directory. -/
theorem resolve_name (links : ℕ) (hname : name ≠ "..") (hsettled : disk.Settled (q ++ [name])) :
    disk.resolve links q [name] =
      if disk.node (q ++ [name]) = none then .missing (q ++ [name]) []
      else .found (q ++ [name]) := by
  cases hnode : disk.node (q ++ [name]) with
  | none => simp [resolve, descend, hname, hnode]
  | some node =>
    cases node with
    | file bytes mtime => simp [resolve, descend, hname, hnode]
    | dir => simp [resolve, descend, hname, hnode]
    | link absolute target => exact absurd hnode (hsettled.no_link absolute target)

/-- A name in a directory that a path leads to. -/
theorem resolve_append {links : ℕ} (hname : name ≠ "..") (hdir : disk.node q = some .dir)
    (hsettled : disk.Settled (q ++ [name])) (hup : disk.resolve links here path = .found q) :
    disk.resolve links here (path ++ [name]) =
      if disk.node (q ++ [name]) = none then .missing (q ++ [name]) []
      else .found (q ++ [name]) := by
  fun_induction disk.resolve links here path with
  | case1 links here path stop hstop =>
    obtain rfl := Place.found.inj hup
    rw [← resolve_name links hname hsettled, resolve, descend_append, hstop, if_pos rfl,
      ← resolve]
  | case2 here path stop n rest hstop absolute target links hlink ih =>
    rw [resolve, descend_append, hstop, if_neg (List.cons_ne_nil _ _)]
    simp only [List.cons_append, hlink]
    rw [← List.append_assoc]
    exact ih hup
  | case3 => cases hup
  | case4 links here path stop n bytes mtime hfile hstop =>
    obtain rfl := Place.found.inj hup
    rw [hfile] at hdir
    cases hdir
  | case5 => cases hup
  | case6 => cases hup

theorem location_append (hname : name ≠ "..") (hup : disk.canonicalize path = some q)
    (hsettled : disk.Settled (q ++ [name])) :
    disk.location (path ++ [name]) = some (q ++ [name]) := by
  have hdir : disk.node q = some .dir := by
    have habove := hsettled.above.resolve_left (by simp)
    rwa [List.dropLast_concat] at habove
  have hplace : disk.place path = .found q := by
    unfold canonicalize at hup
    split at hup
    · rwa [← Option.some.inj hup]
    · cases hup
  rw [location, place, resolve_append hname hdir hsettled hplace]
  by_cases hnone : disk.node (q ++ [name]) = none
  · rw [if_pos hnone]
  · rw [if_neg hnone]

/-! ### What the changes change -/

/-- Directories stay and no link is made. -/
structure Keeps (disk later : Disk) : Prop where
  dirs : ∀ p, disk.node p = some .dir → later.node p = some .dir
  links : ∀ p absolute target, later.node p = some (.link absolute target) →
    disk.node p = some (.link absolute target)

theorem Keeps.refl (disk : Disk) : disk.Keeps disk := ⟨fun _ h => h, fun _ _ _ h => h⟩

theorem Keeps.trans {last : Disk} (h : disk.Keeps later) (h' : later.Keeps last) :
    disk.Keeps last :=
  ⟨fun p hdir => h'.dirs p (h.dirs p hdir), fun p a t hlink => h.links p a t (h'.links p a t hlink)⟩

theorem Settled.mono (h : disk.Keeps later) (hsettled : disk.Settled path) :
    later.Settled path :=
  ⟨hsettled.no_up, hsettled.above.imp_right (h.dirs _),
    fun absolute target hlink => hsettled.no_link absolute target (h.links _ _ _ hlink)⟩

theorem putAt_eq_some {node : DiskNode} (h : disk.putAt path node = some later) :
    later.node = Function.update disk.node path (some node) ∧ disk.node path ≠ some .dir := by
  unfold putAt at h
  split at h
  · cases h
  · rename_i name hlast
    split at h
    case isTrue hput =>
      have hpath : path.dropLast ++ [name] = path := by
        rw [List.getLast?_eq_some_iff] at hlast
        obtain ⟨front, rfl⟩ := hlast
        rw [List.dropLast_concat]
      obtain rfl := Option.some.inj h
      have hnode : (disk.put path.dropLast name node hput.1 hput.2).node =
          Function.update disk.node (path.dropLast ++ [name]) (some node) := rfl
      refine ⟨hnode.trans (by rw [hpath]), fun hdir => hput.2 ?_⟩
      rw [hpath, hdir]
    case isFalse => cases h

/-- **What a write does**: the file at the location of the path is the one written. -/
theorem write_eq_ok {bytes : List UInt8} {now : ℤ} (h : disk.write path bytes now = .ok later) :
    ∃ p, disk.location path = some p ∧ disk.node p ≠ some .dir ∧
      later.node = Function.update disk.node p (some (.file bytes now)) := by
  have hput : ∀ p, (match disk.putAt p (.file bytes now) with
      | some disk => .ok disk
      | none => .error .isADirectory) = (Except.ok later : Except IoError Disk) →
      disk.node p ≠ some .dir ∧
        later.node = Function.update disk.node p (some (.file bytes now)) := by
    intro p h
    split at h
    case h_1 hput =>
      obtain rfl := Except.ok.inj h
      exact (putAt_eq_some hput).symm
    case h_2 => cases h
  unfold write at h
  split at h
  case h_1 p hplace => exact ⟨p, by rw [location, hplace], hput p h⟩
  case h_2 p hplace => exact ⟨p, by rw [location, hplace], hput p h⟩
  case h_3 => cases h
  case h_4 => cases h

theorem keeps_of_update {node : Option DiskNode} (hdir : disk.node p ≠ some .dir)
    (hnode : ∀ absolute target, node ≠ some (.link absolute target))
    (h : later.node = Function.update disk.node p node) : disk.Keeps later := by
  refine ⟨fun q hq => ?_, fun q absolute target hq => ?_⟩
  · have hne : q ≠ p := fun h => hdir (h ▸ hq)
    rw [h, Function.update_of_ne hne, hq]
  · by_cases hqp : q = p
    · rw [h, hqp, Function.update_self] at hq
      exact absurd hq (hnode absolute target)
    · rwa [h, Function.update_of_ne hqp] at hq

theorem keeps_of_write {bytes : List UInt8} {now : ℤ}
    (h : disk.write path bytes now = .ok later) : disk.Keeps later := by
  obtain ⟨p, -, hdir, hnode⟩ := write_eq_ok h
  exact keeps_of_update hdir (fun _ _ => by simp) hnode

/-- After a change of the file at the end of a walk the walk finds that file. -/
theorem resolve_after {links : ℕ} {bytes : List UInt8} {now : ℤ} (hdir : disk.node p ≠ some .dir)
    (hnolink : ∀ absolute target, disk.node p ≠ some (.link absolute target))
    (hlater : later.node = Function.update disk.node p (some (.file bytes now)))
    (hplace : disk.resolve links here path = .found p ∨
      disk.resolve links here path = .missing p []) :
    later.resolve links here path = .found p := by
  have hself : later.node p = some (.file bytes now) := by rw [hlater, Function.update_self]
  have hother : ∀ q, q ≠ p → later.node q = disk.node q := fun q hq => by
    rw [hlater, Function.update_of_ne hq]
  have hdirs : ∀ q, later.node q = some .dir ↔ disk.node q = some .dir := by
    intro q
    by_cases hq : q = p
    · simp [hq, hself, hdir]
    · rw [hother q hq]
  have hdescend : ∀ here path, later.descend here path = disk.descend here path := by
    intro here path
    induction path generalizing here with
    | nil => rfl
    | cons name rest ih => simp only [descend, ih, hdirs]
  fun_induction disk.resolve links here path with
  | case1 links here path stop hstop =>
    obtain rfl := Place.found.inj (hplace.resolve_right nofun)
    rw [resolve, hdescend, hstop]
  | case2 here path stop n rest hstop absolute target links hlink ih =>
    have hne : stop ++ [n] ≠ p := fun h => hnolink absolute target (h ▸ hlink)
    rw [resolve, hdescend, hstop]
    simp only [hother _ hne, hlink]
    exact ih hplace
  | case3 => obtain h | h := hplace <;> cases h
  | case4 links here path stop n file mtime hfile hstop =>
    obtain rfl := Place.found.inj (hplace.resolve_right nofun)
    rw [resolve, hdescend, hstop]
    simp only [hself, if_pos]
  | case5 => obtain h | h := hplace <;> cases h
  | case6 links here path stop n rest hstop hfile hlink hloop =>
    obtain ⟨rfl, rfl⟩ := Place.missing.inj (hplace.resolve_left nofun)
    rw [resolve, hdescend, hstop]
    simp only [hself, if_pos]

theorem location_eq_some :
    disk.location path = some p ↔ disk.place path = .found p ∨ disk.place path = .missing p [] := by
  unfold location
  split <;> simp_all

/-- A file that was written is where its path leads. -/
theorem canonicalize_of_write {bytes : List UInt8} {now : ℤ}
    (h : disk.write path bytes now = .ok later) :
    later.canonicalize path = disk.location path := by
  obtain ⟨p, hlocation, hdir, hnode⟩ := write_eq_ok h
  have hplace := resolve_after hdir (settled_of_location hlocation).no_link hnode
    (location_eq_some.mp hlocation)
  rw [hlocation, canonicalize, place, hplace]

/-- **What a removal does** through a settled path: the file there goes, if there is one. -/
theorem removeFile_of_settled (h : disk.Settled path) :
    (∀ later, disk.removeFile path = .ok later →
      disk.node path ≠ some .dir ∧ later.node = Function.update disk.node path none) ∧
      (∀ e, disk.removeFile path = .error e → e.not_found = true → disk.node path = none) := by
  rcases List.eq_nil_or_concat' path with rfl | ⟨up, name, rfl⟩
  · have hremove : disk.removeFile [] = .error .isADirectory := by
      have hplace : disk.place [] = .found [] := by
        rw [place_of_settled h, disk.root, if_neg (Option.some_ne_none _)]
      rw [removeFile, List.dropLast_nil, hplace, List.getLast?_nil]
    rw [hremove]
    refine ⟨nofun, fun e he hnot => ?_⟩
    obtain rfl := Except.error.inj he
    cases hnot
  · have hdir : disk.node up = some .dir := by
      have habove := h.above.resolve_left (by simp)
      rwa [List.dropLast_concat] at habove
    have hup : disk.Settled up :=
      settled_of_dir hdir fun hmem => h.no_up (List.mem_append_left _ hmem)
    have hplace : disk.place up = .found up := by
      rw [place_of_settled hup, hdir, if_neg (Option.some_ne_none _)]
    rw [removeFile, List.dropLast_concat, hplace, List.getLast?_concat]
    simp only
    refine ⟨fun later hok => ?_, fun e he hnot => ?_⟩
    · split at hok
      · cases hok
      · rename_i hnodir
        split at hok
        · cases hok
        · obtain rfl := Except.ok.inj hok
          exact ⟨hnodir, rfl⟩
    · split at he
      · obtain rfl := Except.error.inj he
        cases hnot
      · split at he
        · assumption
        · cases he

/-- Only directories come, where there was nothing. -/
def Grows (disk later : Disk) : Prop :=
  ∀ p, later.node p = disk.node p ∨ disk.node p = none ∧ later.node p = some .dir

namespace Grows

theorem refl (disk : Disk) : disk.Grows disk := fun _ => .inl rfl

theorem trans {last : Disk} (h : disk.Grows later) (h' : later.Grows last) :
    disk.Grows last := by
  intro p
  obtain hlast | ⟨hnone, hdir⟩ := h' p
  · rw [hlast]
    exact h p
  · obtain hsame | ⟨hbefore, hlater⟩ := h p
    · exact .inr ⟨hsame ▸ hnone, hdir⟩
    · rw [hnone] at hlater
      cases hlater

theorem keeps (h : disk.Grows later) : disk.Keeps later := by
  refine ⟨fun p hp => ?_, fun p absolute target hp => ?_⟩
  · obtain hsame | ⟨hnone, -⟩ := h p
    · rw [hsame, hp]
    · rw [hnone] at hp
      cases hp
  · obtain hsame | ⟨-, hdir⟩ := h p
    · rw [← hsame, hp]
    · rw [hdir] at hp
      cases hp

theorem bytes (h : disk.Grows later) (p : List String) : later.bytes p = disk.bytes p := by
  obtain hsame | ⟨hnone, hdir⟩ := h p
  · rw [Disk.bytes, hsame, Disk.bytes]
  · rw [Disk.bytes, hdir, Disk.bytes, hnone]

/-- A path that is settled once the directories are there was direct before. -/
theorem direct (h : disk.Grows later) (hsettled : later.Settled path) : disk.Direct path := by
  refine ⟨hsettled.no_up, fun front back hpath hback => ?_, fun absolute target hlink => ?_⟩
  · obtain hsame | ⟨hnone, -⟩ := h front
    · rw [← hsame]
      exact hsettled.direct.above front back hpath hback
    · exact .inr hnone
  · obtain hsame | ⟨hnone, -⟩ := h path
    · exact hsettled.no_link absolute target (hsame.trans hlink)
    · rw [hnone] at hlink
      cases hlink

end Grows

theorem grows_of_ensureDir (h : disk.ensureDir path = .ok later) : disk.Grows later := by
  unfold ensureDir at h
  split at h
  case h_1 up name _ _ =>
    split at h
    case h_1 hnone =>
      split at h
      case h_1 hput =>
        obtain rfl := Except.ok.inj h
        obtain ⟨hnode, -⟩ := putAt_eq_some hput
        intro p
        by_cases hp : p = up ++ [name]
        · exact .inr ⟨hp ▸ hnone, by rw [hnode, hp, Function.update_self]⟩
        · exact .inl (by rw [hnode, Function.update_of_ne hp])
      case h_2 => cases h
    case h_2 =>
      split at h
      case h_1 =>
        split at h
        · cases h
        · obtain rfl := Except.ok.inj h
          exact .refl disk
      case h_2 => cases h
  case h_2 =>
    obtain rfl := Except.ok.inj h
    exact .refl disk
  case h_3 => cases h
  case h_4 => cases h

theorem grows_of_ensureDirs {paths : List (List String)} (h : disk.ensureDirs paths = .ok later) :
    disk.Grows later := by
  induction paths generalizing disk with
  | nil =>
    obtain rfl := Except.ok.inj h
    exact .refl disk
  | cons path rest ih =>
    rw [ensureDirs] at h
    split at h
    case h_1 hdir => exact (grows_of_ensureDir hdir).trans (ih h)
    case h_2 => cases h

theorem grows_of_createDirAll (h : disk.createDirAll path = .ok later) : disk.Grows later :=
  grows_of_ensureDirs h

end Disk
