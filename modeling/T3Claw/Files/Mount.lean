import T3Claw.Data.DiskWalk
import T3Claw.Files.Path

/-!
# The file system behind a mount

A `FilesystemBackend` gives the paths of a mount a place under its root on the host. It refuses
absolute paths and `..`, makes the longest prefix of the path that is there free of links,
compares it with the root, and appends the rest again. What is appended is walked once more
only when the whole path leads to something: a link in it that leads nowhere yet is returned as
it stands, and a write through it makes the file at the link's target.
-/

namespace T3Claw.Files

/-- `MountError`, as far as the file system backend returns it. -/
inductive MountError where
  | NotFound (path : String)
  | InvalidPath (path reason : String)
  | Io (path reason : String)
  deriving DecidableEq

/-- `MountError::io`. -/
def MountError.io (path : Path) (error : IoError) : MountError :=
  if error.not_found then .NotFound path.display else .Io path.display error.text

structure FilesystemBackend where
  root : Path

namespace FilesystemBackend

/-- `safe_join`. -/
def safeJoin (backend : FilesystemBackend) (rel_path : String) : Except MountError Path :=
  if isAbsolute rel_path then
    .error (.InvalidPath rel_path
      "absolute paths are not allowed; pass a path relative to the mount")
  else if ".." ∈ components rel_path then
    .error (.InvalidPath rel_path "\x60..\x60 components are not allowed")
  else .ok (backend.root ++ components rel_path)

/-- The loop of `canonicalize_under_root`: the longest prefix that is there, and the rest. -/
def existingPrefix (disk : Disk) : (reversed tail : Path) → Path × Path
  | [], tail => ([], tail)
  | name :: up, tail =>
    if (disk.canonicalize (up.reverse ++ [name])).isSome then (up.reverse ++ [name], tail)
    else if name = ".." then (up.reverse ++ [name], tail)
    else existingPrefix disk up (name :: tail)

/-- `canonicalize_under_root`. -/
def canonicalizeUnderRoot (disk : Disk) (backend : FilesystemBackend) (joined : Path) :
    Except MountError Path :=
  match disk.canonicalize backend.root with
  | none => .ok joined
  | some canonical_root =>
    match existingPrefix disk joined.reverse [] with
    | (existing, tail) =>
      let canonical := (disk.canonicalize existing).getD existing
      if ¬ canonical_root <+: canonical then
        .error (.InvalidPath joined.display "resolved path escapes the mount root via symlink")
      else
        match disk.canonicalize (canonical ++ tail) with
        | some final_canonical =>
          if ¬ canonical_root <+: final_canonical then
            .error (.InvalidPath joined.display
              "resolved path escapes the mount root via symlink (post-assembly check)")
          else .ok final_canonical
        | none => .ok (canonical ++ tail)

def resolve (disk : Disk) (backend : FilesystemBackend) (rel_path : String) :
    Except MountError Path :=
  match backend.safeJoin rel_path with
  | .error e => .error e
  | .ok joined => canonicalizeUnderRoot disk backend joined

def read (disk : Disk) (backend : FilesystemBackend) (rel_path : String) :
    Except MountError (List UInt8) :=
  match resolve disk backend rel_path with
  | .error e => .error e
  | .ok full =>
    match disk.read full with
    | .ok bytes => .ok bytes
    | .error e => .error (.io full e)

def write (disk : Disk) (backend : FilesystemBackend) (rel_path : String) (content : List UInt8)
    (now : ℤ) : Except MountError Disk :=
  match resolve disk backend rel_path with
  | .error e => .error e
  | .ok full =>
    match if full = [] then .ok disk else disk.createDirAll full.dropLast with
    | .error e => .error (.io full.dropLast e)
    | .ok disk =>
      match disk.write full content now with
      | .ok disk => .ok disk
      | .error e => .error (.io full e)

variable {disk : Disk} {backend : FilesystemBackend} {rel_path : String}
  {root canonical_root cp path up rest tail : Path} {name : String}

theorem safeJoin_eq_ok : backend.safeJoin rel_path = .ok path ↔
    isAbsolute rel_path = false ∧ ".." ∉ components rel_path ∧
      backend.root ++ components rel_path = path := by
  unfold safeJoin
  split
  case isTrue habsolute => exact iff_of_false nofun fun h => by simp [habsolute] at h
  case isFalse habsolute =>
    split
    case isTrue hup => exact iff_of_false nofun fun h => h.2.1 hup
    case isFalse hup => simp [habsolute, hup]

theorem resolve_eq_ok : resolve disk backend rel_path = .ok path ↔
    isAbsolute rel_path = false ∧ ".." ∉ components rel_path ∧
      canonicalizeUnderRoot disk backend (backend.root ++ components rel_path) = .ok path := by
  unfold resolve
  split
  case h_1 e herror =>
    refine iff_of_false nofun fun h => ?_
    rw [safeJoin_eq_ok.mpr ⟨h.1, h.2.1, rfl⟩] at herror
    cases herror
  case h_2 joined hjoined =>
    obtain ⟨hrel, hup, rfl⟩ := safeJoin_eq_ok.mp hjoined
    exact ⟨fun h => ⟨hrel, hup, h⟩, fun h => h.2.2⟩

/-! ### The longest prefix that is there -/

/-- A path leads to something up to a first name that does not. -/
theorem exists_longest (hroot : (disk.canonicalize root).isSome) (path : Path) :
    ∃ up rest, path = up ++ rest ∧ (disk.canonicalize (root ++ up)).isSome ∧
      ∀ name tail, rest = name :: tail → disk.canonicalize (root ++ up ++ [name]) = none := by
  induction path using List.reverseRecOn with
  | nil => exact ⟨[], [], rfl, by rwa [List.append_nil], nofun⟩
  | append_singleton path last ih =>
    obtain ⟨up, rest, rfl, hthere, hnext⟩ := ih
    cases rest with
    | cons name tail =>
      refine ⟨up, name :: tail ++ [last], by simp, hthere, fun name' tail' htail => ?_⟩
      obtain ⟨rfl, -⟩ := List.cons.inj htail
      exact hnext name tail rfl
    | nil =>
      rw [List.append_nil]
      cases hlast : disk.canonicalize (root ++ up ++ [last]) with
      | some p =>
        refine ⟨up ++ [last], [], by simp, ?_, nofun⟩
        rw [← List.append_assoc, hlast, Option.isSome_some]
      | none =>
        refine ⟨up, [last], rfl, hthere, fun name' tail' htail => ?_⟩
        obtain ⟨rfl, -⟩ := List.cons.inj htail
        exact hlast

/-- The search stops at the longest prefix that is there. -/
theorem existingPrefix_eq (hup : ".." ∉ rest) (hthere : (disk.canonicalize path).isSome)
    (hnext : ∀ name tail, rest = name :: tail → disk.canonicalize (path ++ [name]) = none) :
    existingPrefix disk (path ++ rest).reverse tail = (path, rest ++ tail) := by
  induction rest using List.reverseRecOn generalizing tail with
  | nil =>
    rw [List.append_nil, List.nil_append]
    rcases List.eq_nil_or_concat' path with rfl | ⟨front, last, rfl⟩
    · rfl
    · rw [List.reverse_append, List.reverse_singleton, List.singleton_append, existingPrefix,
        List.reverse_reverse, if_pos hthere]
  | append_singleton rest last ih =>
    have hnone : disk.canonicalize (path ++ rest ++ [last]) = none := by
      cases rest with
      | nil => simpa using hnext last [] rfl
      | cons name rest =>
        have hname := hnext name (rest ++ [last]) rfl
        simpa using Disk.canonicalize_append_eq_none (q := rest ++ [last]) hname
    have hlast : last ≠ ".." := fun h => hup (by simp [h])
    rw [← List.append_assoc, List.reverse_append, List.reverse_singleton, List.singleton_append,
      existingPrefix, List.reverse_reverse, hnone, Option.isSome_none, if_neg Bool.false_ne_true,
      if_neg hlast, ih (fun h => hup (List.mem_append_left _ h)), List.append_cons rest]
    rintro name tail rfl
    exact hnext name (tail ++ [last]) rfl

/-- `canonicalize_under_root` of a path taken apart at its longest prefix that is there. -/
theorem canonicalizeUnderRoot_eq (hroot : disk.canonicalize backend.root = some canonical_root)
    (hup : ".." ∉ rest) (hthere : disk.canonicalize path = some cp)
    (hnext : ∀ name tail, rest = name :: tail → disk.canonicalize (path ++ [name]) = none) :
    canonicalizeUnderRoot disk backend (path ++ rest) =
      if ¬ canonical_root <+: cp then
        .error (.InvalidPath (Path.display (path ++ rest))
          "resolved path escapes the mount root via symlink")
      else
        match disk.canonicalize (cp ++ rest) with
        | some final_canonical =>
          if ¬ canonical_root <+: final_canonical then
            .error (.InvalidPath (Path.display (path ++ rest))
              "resolved path escapes the mount root via symlink (post-assembly check)")
          else .ok final_canonical
        | none => .ok (cp ++ rest) := by
  have hsplit : existingPrefix disk (path ++ rest).reverse [] = (path, rest ++ []) :=
    existingPrefix_eq hup (by rw [hthere, Option.isSome_some]) hnext
  rw [List.append_nil] at hsplit
  rw [canonicalizeUnderRoot, hroot]
  simp only [hsplit, hthere, Option.getD_some]

/-! ### Where a resolved path leads -/

/-- The first name of the path that leads to nothing is a link in the root, and through it the
path leads to a name that is missing in a directory outside the root. -/
def LeadsOutside (disk : Disk) (backend : FilesystemBackend) (canonical_root : Path)
    (rel_path : String) : Prop :=
  ∃ up name rest cp absolute target q, isAbsolute rel_path = false ∧
    ".." ∉ components rel_path ∧ components rel_path = up ++ name :: rest ∧
    disk.canonicalize (backend.root ++ up) = some cp ∧ canonical_root <+: cp ∧
    disk.canonicalize (backend.root ++ up ++ [name]) = none ∧
    disk.node (cp ++ [name]) = some (.link absolute target) ∧
    disk.place (cp ++ name :: rest) = .missing q [] ∧ ¬ canonical_root <+: q

/-- The appended rest leads out of the root only over a link at its first name. -/
theorem link_of_outside (hthere : disk.canonicalize path = some cp)
    (hname : name ≠ "..") (hnext : disk.canonicalize (path ++ [name]) = none)
    {q : Path} (hplace : disk.place (cp ++ name :: rest) = .missing q []) (hq : ¬ cp <+: q) :
    ∃ absolute target, disk.node (cp ++ [name]) = some (.link absolute target) := by
  obtain ⟨hsettled, hthing⟩ := Disk.settled_of_found (Disk.canonicalize_eq_some.mp hthere)
  have hself : disk.place cp = .found cp := by
    rw [Disk.place_of_settled hsettled, if_neg hthing]
  have hdir : disk.node cp = some .dir := by
    cases hnode : disk.node cp with
    | none => exact absurd hnode hthing
    | some node =>
      cases node with
      | dir => rfl
      | link absolute target => exact absurd hnode (hsettled.no_link absolute target)
      | file bytes mtime =>
        have hblocked := Disk.resolve_behind_file hnode hself disk.root List.not_mem_nil
          (List.cons_ne_nil name rest)
        rw [← Disk.place, hplace] at hblocked
        cases hblocked
  obtain ⟨links, hon⟩ := Disk.resolve_through hdir (Disk.canonicalize_eq_some.mp hthere)
  by_contra hnolink
  have hsettled' : disk.Settled (cp ++ [name]) := by
    refine ⟨by simp [hsettled.no_up, Ne.symm hname], .inr (by rwa [List.dropLast_concat]), ?_⟩
    exact fun absolute target hlink => hnolink ⟨absolute, target, hlink⟩
  have hnone : disk.node (cp ++ [name]) = none := by
    by_contra hsome
    have hfound : disk.place (path ++ [name]) = .found (cp ++ [name]) := by
      rw [Disk.place, hon, Disk.resolve_name links hname hsettled', if_neg hsome]
    rw [Disk.canonicalize_eq_some.mpr hfound] at hnext
    cases hnext
  have hmissing : disk.place (cp ++ name :: rest) = .missing (cp ++ [name]) rest := by
    rw [Disk.place, Disk.resolve_dir Disk.LINKS hdir hsettled.no_up, Disk.resolve,
      Disk.descend, if_neg hname, hnone]
    simp only [reduceCtorEq, if_false, hnone]
  rw [hmissing] at hplace
  obtain ⟨rfl, -⟩ := Disk.Place.missing.inj hplace
  exact hq (List.prefix_append _ _)

/-- **What `resolve` gives**: something under the root by its own path, or a path that leads
to nothing, of which the first name is missing in the root or a link. -/
theorem resolve_cases (hroot : disk.canonicalize backend.root = some canonical_root)
    (hresolve : resolve disk backend rel_path = .ok path) :
    disk.canonicalize path = some path ∧ canonical_root <+: path ∨
      ∃ up name rest cp, components rel_path = up ++ name :: rest ∧
        disk.canonicalize (backend.root ++ up) = some cp ∧ canonical_root <+: cp ∧
        disk.canonicalize (backend.root ++ up ++ [name]) = none ∧
        path = cp ++ name :: rest ∧ disk.canonicalize path = none := by
  have hself : ∀ p q, disk.canonicalize p = some q → disk.canonicalize q = some q := by
    intro p q hq
    obtain ⟨hsettled, hthing⟩ := Disk.settled_of_found (Disk.canonicalize_eq_some.mp hq)
    rw [Disk.canonicalize, Disk.place_of_settled hsettled, if_neg hthing]
  obtain ⟨-, hnoup, hjoined⟩ := resolve_eq_ok.mp hresolve
  have hstart : (disk.canonicalize backend.root).isSome := by rw [hroot, Option.isSome_some]
  obtain ⟨up, rest, hsplit, hthere, hnext⟩ := exists_longest hstart (components rel_path)
  obtain ⟨cp, hcp⟩ := Option.isSome_iff_exists.mp hthere
  have htail : ".." ∉ rest := fun h => hnoup (hsplit ▸ List.mem_append_right _ h)
  rw [hsplit, ← List.append_assoc, canonicalizeUnderRoot_eq hroot htail hcp hnext] at hjoined
  split at hjoined
  case isTrue => cases hjoined
  case isFalse hunder =>
    split at hjoined
    case h_1 final hfinal =>
      split at hjoined
      case isTrue => cases hjoined
      case isFalse hfinal_under =>
        obtain rfl := Except.ok.inj hjoined
        exact .inl ⟨hself _ _ hfinal, not_not.mp hfinal_under⟩
    case h_2 hnone =>
      obtain rfl := Except.ok.inj hjoined
      cases rest with
      | nil =>
        rw [List.append_nil, hself _ _ hcp] at hnone
        cases hnone
      | cons name rest =>
        exact .inr ⟨up, name, rest, cp, hsplit, hcp, not_not.mp hunder, hnext name rest rfl, rfl,
          hnone⟩

/-- What is there and can be read through a resolved path lies under the root. -/
theorem contained_of_found (hroot : disk.canonicalize backend.root = some canonical_root)
    (hresolve : resolve disk backend rel_path = .ok path) {q : Path}
    (hplace : disk.place path = .found q) : canonical_root <+: q := by
  have hfound := Disk.canonicalize_eq_some.mpr hplace
  obtain ⟨hself, hunder⟩ | ⟨_, _, _, _, -, -, -, -, -, hnone⟩ := resolve_cases hroot hresolve
  · rw [hself] at hfound
    rwa [← Option.some.inj hfound]
  · rw [hnone] at hfound
    cases hfound

/-- **A resolved path stays in the mount**: whatever is read or written through it lies under
the root, exactly when the path does not lead out of the root over a link to a name that is
missing there. -/
theorem resolve_contained (hroot : disk.canonicalize backend.root = some canonical_root) :
    (∀ p q, resolve disk backend rel_path = .ok p → disk.location p = some q →
      canonical_root <+: q) ↔ ¬ LeadsOutside disk backend canonical_root rel_path := by
  constructor
  · rintro hinside ⟨up, name, rest, cp, absolute, target, q, hrel, hnoup, hsplit, hthere, hcp,
      hnext, -, hplace, hq⟩
    have htail : ".." ∉ name :: rest := fun h => hnoup (hsplit ▸ List.mem_append_right _ h)
    have hnone : disk.canonicalize (cp ++ name :: rest) = none := by
      rw [Disk.canonicalize, hplace]
    refine hq (hinside (cp ++ name :: rest) q (resolve_eq_ok.mpr ⟨hrel, hnoup, ?_⟩) ?_)
    · rw [hsplit, ← List.append_assoc, canonicalizeUnderRoot_eq hroot htail hthere,
        if_neg (not_not_intro hcp), hnone]
      rintro name' tail' heq
      obtain ⟨rfl, -⟩ := List.cons.inj heq
      exact hnext
    · exact Disk.location_eq_some.mpr (.inr hplace)
  · intro hstays p q hresolve hlocation
    obtain hfound | hmissing := Disk.location_eq_some.mp hlocation
    · exact contained_of_found hroot hresolve hfound
    obtain ⟨hself, -⟩ | ⟨up, name, rest, cp, hsplit, hthere, hcp, hnext, rfl, -⟩ :=
      resolve_cases hroot hresolve
    · rw [Disk.canonicalize, hmissing] at hself
      cases hself
    obtain ⟨hrel, hnoup, -⟩ := resolve_eq_ok.mp hresolve
    have hname : name ≠ ".." := fun h => hnoup (hsplit ▸ by simp [h])
    by_contra hout
    obtain ⟨absolute, target, hlink⟩ := link_of_outside hthere hname hnext hmissing
      fun h => hout (hcp.trans h)
    exact hstays ⟨up, name, rest, cp, absolute, target, q, hrel, hnoup, hsplit, hthere, hcp,
      hnext, hlink, hmissing, hout⟩

/-- A link in the project to a file that is not there yet, in another directory. -/
def linkedOut : Disk :=
  ((Disk.empty.put [] "project" .dir rfl (by decide)).put [] "home" .dir rfl (by decide)).put
    ["project"] "out" (.link true ["home", "x"]) (by decide) (by decide)

theorem write_through_dangling_link :
    linkedOut.canonicalize ["project"] = some ["project"] ∧
      resolve linkedOut ⟨["project"]⟩ "out" = .ok ["project", "out"] ∧
      linkedOut.location ["project", "out"] = some ["home", "x"] ∧
      ¬ ["project"] <+: ["home", "x"] ∧
      ((write linkedOut ⟨["project"]⟩ "out" [104, 105] 1).toOption.bind (·.bytes ["home", "x"])) =
        some [104, 105] := by
  decide +kernel

theorem resolve_contained_sample : LeadsOutside linkedOut ⟨["project"]⟩ ["project"] "out" := by
  by_contra hstays
  have hroot : linkedOut.canonicalize ["project"] = some ["project"] := by decide +kernel
  have hresolve : resolve linkedOut ⟨["project"]⟩ "out" = .ok ["project", "out"] := by
    decide +kernel
  have hlocation : linkedOut.location ["project", "out"] = some ["home", "x"] := by
    decide +kernel
  have hinside := (resolve_contained hroot).mpr hstays ["project", "out"] ["home", "x"] hresolve
    hlocation
  exact absurd hinside (by decide)

/-- What the mount reads lies under the root, whatever links there are. -/
theorem read_contained (hroot : disk.canonicalize backend.root = some canonical_root)
    {bytes : List UInt8} (hread : read disk backend rel_path = .ok bytes) :
    ∃ q, canonical_root <+: q ∧ disk.bytes q = some bytes := by
  unfold read at hread
  split at hread
  case h_1 => cases hread
  case h_2 full hfull =>
    split at hread
    case h_2 => cases hread
    case h_1 found hfound =>
      obtain rfl := Except.ok.inj hread
      obtain ⟨q, hplace, hbytes⟩ := Disk.read_eq_ok hfound
      exact ⟨q, contained_of_found hroot hfull hplace, hbytes⟩

/-- A link in the project to a file of it. -/
def linkedIn : Disk :=
  ((Disk.empty.put [] "project" .dir rfl (by decide)).put ["project"] "a" (.file [104] 0) (by decide)
    (by decide)).put ["project"] "in" (.link true ["project", "a"]) (by decide) (by decide)

theorem read_contained_linkedIn : ∃ q, ["project"] <+: q ∧ linkedIn.bytes q = some [104] :=
  @read_contained linkedIn ⟨["project"]⟩ "in" ["project"] (by decide +kernel) _ (by decide +kernel)

end FilesystemBackend

end T3Claw.Files
