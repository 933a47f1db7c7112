import T3Claw.Data.Disk

/-!
# Walks over a disk, taken apart

A walk along `path ++ q` is a walk along `path`, and from what it finds a walk along `q` that
may cross no more links than the first left over.
-/

namespace Disk

variable {disk : Disk} {here path p q : List String} {name : String}

theorem canonicalize_eq_some : disk.canonicalize path = some p ↔ disk.place path = .found p := by
  unfold canonicalize
  split
  case h_1 found hplace => rw [hplace, Option.some.injEq, Place.found.injEq]
  case h_2 hother => exact iff_of_false nofun fun hplace => hother p hplace

/-- What is read through a path stands where the path leads. -/
theorem read_eq_ok {bytes : List UInt8} (h : disk.read path = .ok bytes) :
    ∃ p, disk.place path = .found p ∧ disk.bytes p = some bytes := by
  unfold read at h
  split at h
  case h_1 p hplace =>
    refine ⟨p, hplace, ?_⟩
    split at h
    case h_1 found mtime hnode => rw [Disk.bytes, hnode, Except.ok.inj h]
    case h_2 => cases h
  case h_2 => cases h
  case h_3 => cases h

/-- Down a directory one comes from the root as from anywhere. -/
theorem descend_dir (hdir : disk.node p = some .dir) (hup : ".." ∉ p) :
    disk.descend [] p = (p, []) := by
  obtain ⟨hend, -⟩ | ⟨front, name, rest, rfl, -, hkind⟩ :=
    descend_direct [] disk.root (settled_of_dir hdir hup).direct
  · exact hend
  · rw [List.nil_append] at hkind
    obtain hnone | ⟨rfl, bytes, mtime, hfile⟩ := hkind
    · rw [List.append_cons] at hdir
      by_cases hrest : rest = []
      · rw [hrest, List.append_nil, hnone] at hdir
        cases hdir
      · have habove := node_of_isPrefix (by rw [hdir]; exact nofun) hrest
        rw [hnone] at habove
        cases habove
    · rw [hfile] at hdir
      cases hdir

/-- A walk from the root through a directory. -/
theorem resolve_dir (links : ℕ) (hdir : disk.node p = some .dir) (hup : ".." ∉ p) :
    disk.resolve links [] (p ++ q) = disk.resolve links p q := by
  rw [resolve, descend_append, descend_dir hdir hup, if_pos rfl, ← resolve]

/-- Behind a directory that a walk finds the walk goes on, with the links left over. -/
theorem resolve_through {links : ℕ} (hdir : disk.node p = some .dir)
    (hfound : disk.resolve links here path = .found p) :
    ∃ k, ∀ q, disk.resolve links here (path ++ q) = disk.resolve k p q := by
  fun_induction disk.resolve links here path with
  | case1 links here path stop hstop =>
    obtain rfl := Place.found.inj hfound
    refine ⟨links, fun q => ?_⟩
    rw [resolve, descend_append, hstop, if_pos rfl, ← resolve]
  | case2 here path stop n rest hstop absolute target links hlink ih =>
    obtain ⟨k, hrest⟩ := ih hfound
    refine ⟨k, fun q => ?_⟩
    rw [resolve, descend_append, hstop, if_neg (List.cons_ne_nil _ _)]
    simp only [List.cons_append, hlink]
    rw [← List.append_assoc]
    exact hrest q
  | case3 => cases hfound
  | case4 links here path stop n bytes mtime hfile hstop =>
    obtain rfl := Place.found.inj hfound
    rw [hfile] at hdir
    cases hdir
  | case5 => cases hfound
  | case6 => cases hfound

/-- Behind a file there is nothing. -/
theorem resolve_behind_file {links : ℕ} {bytes : List UInt8} {mtime : ℤ}
    (hfile : disk.node p = some (.file bytes mtime))
    (hfound : disk.resolve links here path = .found p)
    (hhere : disk.node here = some .dir) (hup : ".." ∉ here) (hq : q ≠ []) :
    disk.resolve links here (path ++ q) = .blocked .notADirectory := by
  fun_induction disk.resolve links here path with
  | case1 links here path stop hstop =>
    obtain rfl := Place.found.inj hfound
    obtain ⟨hdir, -, -⟩ := descend_spec hhere hup hstop
    rw [hfile] at hdir
    cases hdir
  | case2 here path stop n rest hstop absolute target links hlink ih =>
    obtain ⟨hdir, hup, -⟩ := descend_spec hhere hup hstop
    rw [resolve, descend_append, hstop, if_neg (List.cons_ne_nil _ _)]
    simp only [List.cons_append, hlink]
    rw [← List.append_assoc]
    refine ih hfound ?_ ?_
    · split
      · exact disk.root
      · exact hdir
    · split
      · exact List.not_mem_nil
      · exact hup
  | case3 => cases hfound
  | case4 links here path stop n bytes mtime hnode hstop =>
    rw [resolve, descend_append, hstop, if_neg (List.cons_ne_nil _ _)]
    simp only [List.cons_append, List.nil_append, hnode, if_neg hq]
  | case5 => cases hfound
  | case6 => cases hfound

/-- What is found on the way to something. -/
theorem resolve_found_of_append {links : ℕ}
    (hfound : disk.resolve links here (path ++ q) = .found p) :
    ∃ p', disk.resolve links here path = .found p' := by
  fun_induction disk.resolve links here path with
  | case1 links here path stop hstop => exact ⟨stop, rfl⟩
  | case2 here path stop n rest hstop absolute target links hlink ih =>
    rw [resolve, descend_append, hstop, if_neg (List.cons_ne_nil _ _)] at hfound
    simp only [List.cons_append, hlink] at hfound
    rw [← List.append_assoc] at hfound
    exact ih hfound
  | case3 here path stop n rest hstop absolute target hlink =>
    rw [resolve, descend_append, hstop, if_neg (List.cons_ne_nil _ _)] at hfound
    simp only [List.cons_append, hlink] at hfound
    cases hfound
  | case4 links here path stop n bytes mtime hfile hstop => exact ⟨stop ++ [n], rfl⟩
  | case5 links here path stop n rest hstop bytes mtime hfile hrest =>
    rw [resolve, descend_append, hstop, if_neg (List.cons_ne_nil _ _)] at hfound
    simp only [List.cons_append, hfile] at hfound
    rw [if_neg (by simp [hrest])] at hfound
    cases hfound
  | case6 links here path stop n rest hstop hfile hlink hloop =>
    rw [resolve, descend_append, hstop, if_neg (List.cons_ne_nil _ _)] at hfound
    simp only [List.cons_append] at hfound
    cases hfound

/-- What leads to something has prefixes that lead to something. -/
theorem canonicalize_append_eq_none (h : disk.canonicalize path = none) :
    disk.canonicalize (path ++ q) = none := by
  by_contra hsome
  obtain ⟨p, hp⟩ := Option.ne_none_iff_exists'.mp hsome
  obtain ⟨p', hp'⟩ := resolve_found_of_append (canonicalize_eq_some.mp hp)
  rw [canonicalize_eq_some.mpr hp'] at h
  cases h

end Disk
