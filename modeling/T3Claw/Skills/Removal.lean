import T3Claw.Skills.Discovery

/-!
# Removing a skill

`remove_skill` deletes the directory that discovery recorded as the skill's source, with all that
is in it. For a skill in a directory of its own that is the skill; for a flat one it is the
directory that was scanned. So a removal leaves the other skills as they are exactly when none of
their files lies in that directory (`removeSkill_removesOnly`).
-/

namespace T3Claw.Skills

/-- Whether a path belongs to a skill: its skill file, and for one in a directory of its own all
that is in it. -/
def Candidate.Owns (c : Candidate) (path : Path) : Prop :=
  path = c.file ∨ c.flat = false ∧ c.source_dir <+: path

/-- The directory `remove_skill` deletes. -/
def SkillSource.removable : SkillSource → Option Path
  | .user path | .installed path => some path
  | .workspace _ | .bundled _ => none

namespace SkillRegistry

/-- A registry as `discover_all` and `reload` leave it. -/
inductive Obtained (host : SkillHost) (fs : FileTree) : SkillRegistry → Prop
  | discovered {r : SkillRegistry} : r.skills = [] → Obtained host fs (r.discoverAll host fs).2
  | again {r : SkillRegistry} : Obtained host fs r → Obtained host fs (r.discoverAll host fs).2
  | reloaded (r : SkillRegistry) : Obtained host fs (r.reload host fs).2

/-- `find_by_name`. -/
def findByName (r : SkillRegistry) (name : String) : Option LoadedSkill :=
  r.skills.find? fun s => s.manifest.name = name

/-- What a skill that was loaded from a file had shadowed: the next of its name in the
directories, or else what is bundled under that name. -/
def shadowed (host : SkillHost) (fs : FileTree) (r : SkillRegistry) (name : String)
    (file : Path) : List LoadedSkill :=
  match (r.sightings host fs).find? fun s => s.1.file ≠ file && s.2.1 = name with
  | some sighting => [sighting.2.2]
  | none => (r.bundled_content.filter fun entry => entry.1 = name).filterMap (bundledSkill host)

/-- What the removal of `removed`, whose directory is `path`, should leave: every file of every
other skill, and for the next reload the other skills and those it had shadowed. -/
structure RemovesOnly (host : SkillHost) (fs fs' : FileTree) (r r' : SkillRegistry)
    (removed : LoadedSkill) (path : Path) : Prop where
  untouched : ∀ sighting ∈ r.sightings host fs, sighting.1.source_dir ≠ path →
    ∀ q, sighting.1.Owns q → fs'.get? q = fs.get? q
  reloaded : ∀ skill, skill ∈ (r'.reload host fs').2.skills ↔
    (skill ∈ r.skills ∧ skill ≠ removed) ∨
      skill ∈ r.shadowed host fs removed.manifest.name (path ++ [SKILL_MD])

/-- Whether a directory holds no file of a skill that is not its own, nor lies in another
skill's. -/
def Apart (host : SkillHost) (fs : FileTree) (r : SkillRegistry) (path : Path) : Prop :=
  ∀ sighting ∈ r.sightings host fs, sighting.1.source_dir ≠ path →
    ¬path <+: sighting.1.file ∧ (sighting.1.flat = false → ¬sighting.1.source_dir <+: path)

/-! ### What is loaded, and what it was loaded from -/

variable {host : SkillHost} {fs : FileTree} {r : SkillRegistry}

theorem mem_skills_of_obtained (hcap : r.WithinCap host fs) (h : Obtained host fs r)
    {skill : LoadedSkill} : skill ∈ r.skills ↔ r.Discovers host fs skill := by
  induction h with
  | @discovered r hnone =>
    have hcap : r.WithinCap host fs := hcap
    rw [mem_discoverAll hcap, hnone]
    exact or_iff_right List.not_mem_nil
  | @again r h ih =>
    have hcap : r.WithinCap host fs := hcap
    rw [mem_discoverAll hcap, ih hcap]
    exact or_self_iff
  | reloaded r => exact mem_reload hcap

/-- Whatever the cap, what is loaded comes from a file that offers it, or is bundled. -/
theorem sighting_of_discoverAll {skill : LoadedSkill}
    (hskill : skill ∈ (r.discoverAll host fs).2.skills) :
    skill ∈ r.skills ∨ (∃ sighting ∈ r.sightings host fs, sighting.2.2 = skill) ∨
      ∃ entry ∈ r.bundled_content, bundledSkill host entry = some skill := by
  obtain ⟨all, hall, heq⟩ := discoverDirs_sublist host fs r
  rw [discoverAll] at hskill
  dsimp only at hskill
  rw [List.mem_append, mem_loadBundledSkills, heq, (Discovery.absorb_spec _ _).1,
    List.mem_append] at hskill
  obtain (hold | hfound) | ⟨entry, hentry, hbundled, -⟩ := hskill
  · exact .inl hold
  · obtain ⟨found, hfirst, rfl⟩ := List.mem_map.mp hfound
    have hmem := hall.subset (List.mem_of_find?_eq_some (mem_firsts.mp hfirst).2)
    obtain ⟨sighting, hsighting, rfl⟩ := List.mem_map.mp hmem
    exact .inr (.inl ⟨sighting, hsighting, rfl⟩)
  · exact .inr (.inr ⟨entry, hentry, hbundled⟩)

theorem sighting_of_obtained (h : Obtained host fs r) {skill : LoadedSkill}
    (hskill : skill ∈ r.skills) :
    (∃ sighting ∈ r.sightings host fs, sighting.2.2 = skill) ∨
      ∃ entry ∈ r.bundled_content, bundledSkill host entry = some skill := by
  induction h with
  | @discovered r hnone =>
    refine (sighting_of_discoverAll hskill).resolve_left ?_
    rw [hnone]
    exact List.not_mem_nil
  | @again r h ih => exact (sighting_of_discoverAll hskill).elim ih id
  | reloaded r => exact (sighting_of_discoverAll hskill).resolve_left List.not_mem_nil

theorem mem_sightings {c : Candidate} {found : Found} :
    (c, found) ∈ r.sightings host fs ↔ ∃ place ∈ r.places,
      c ∈ candidates fs r.max_scan_depth place.dir ∧ place.load host fs c = some found := by
  rw [sightings, List.mem_flatMap]
  exact exists_congr fun place => and_congr_right fun _ => Place.mem_sightings

/-- A bundled skill says so. -/
theorem source_of_bundledSkill {entry : String × String} {skill : LoadedSkill}
    (h : bundledSkill host entry = some skill) : skill.source = .bundled entry.1 := by
  obtain ⟨found, hfound, rfl⟩ := Option.map_eq_some_iff.mp h
  cases hload : loadFromContent host entry.2 .trusted (.bundled entry.1) with
  | error e =>
    rw [hload] at hfound
    cases hfound
  | ok f =>
    rw [hload] at hfound
    cases hfound
    exact (loadFromContent_spec hload).2.2

/-- A place records the directory it is given, whatever kind of place it is. -/
theorem source_dir_of_removable {place : Place} (hplace : place ∈ r.places) {dir path : Path}
    (h : (place.make_source dir).removable = some path) : dir = path := by
  unfold places at hplace
  rw [List.mem_append, List.mem_cons, Option.mem_toList, Option.mem_toList] at hplace
  obtain hws | rfl | hinst := hplace
  · obtain ⟨ws, -, rfl⟩ := Option.map_eq_some_iff.mp hws
    cases h
  · exact Option.some.inj h
  · obtain ⟨inst, -, rfl⟩ := Option.map_eq_some_iff.mp hinst
    exact Option.some.inj h

/-! ### What a removal takes away -/

/-- Trust and source are only recorded. -/
theorem buildLoadedSkill_source {content : List Char} {label : String} {trust trust' : SkillTrust}
    {source source' : SkillSource} {found : Found}
    (h : buildLoadedSkill host content label trust source = .ok found) :
    buildLoadedSkill host content label trust' source' =
      .ok (found.1, { found.2 with trust := trust', source := source' }) := by
  unfold buildLoadedSkill at h ⊢
  split at h
  · cases h
  · dsimp only at h ⊢
    split at h
    · cases h
    · rename_i hgated
      rw [if_neg hgated]
      split at h
      · cases h
      · rename_i hbudget
        rw [if_neg hbudget]
        cases h
        rfl

/-- A file is loaded under one name, wherever it was found. -/
theorem name_of_file {place place' : Place} {c c' : Candidate} {found found' : Found}
    (hfile : c.file = c'.file) (h : place.load host fs c = some found)
    (h' : place'.load host fs c' = some found') : found.1 = found'.1 := by
  unfold Place.load at h h'
  rw [hfile] at h
  unfold loadAndValidateSkill at h h'
  split at h
  · cases h
  · cases h
  · cases h
  · rename_i hget
    rw [hget] at h'
    dsimp only at h'
    split at h
    · cases h
    · rename_i hsize
      rw [if_neg hsize] at h'
      split at h
      · cases h
      · dsimp only at h'
        cases hbuild : buildLoadedSkill host (normalizeLineEndings _) c'.file.display
            place'.trust (place'.make_source c'.source_dir) with
        | error e =>
          rw [hbuild] at h'
          cases h'
        | ok f =>
          rw [hbuild] at h'
          rw [buildLoadedSkill_source hbuild] at h
          cases h
          cases h'
          rfl

/-- A file that is not removed loads as before. -/
theorem load_removeDirAll {place : Place} {c : Candidate} {path : Path}
    (h : ¬path <+: c.file) : place.load host (fs.removeDirAll path) c = place.load host fs c := by
  unfold Place.load loadAndValidateSkill
  rw [FileTree.get?_removeDirAll, if_neg h]

/-- Removing a directory takes away the skills whose files lie in it. -/
theorem sightings_removeDirAll {path : Path} (h : ∀ c ∈ r.offers fs, c.file ≠ path) :
    r.sightings host (fs.removeDirAll path) =
      (r.sightings host fs).filter fun sighting => ¬path <+: sighting.1.file := by
  unfold sightings
  rw [List.filter_flatMap]
  refine List.flatMap_congr fun place hplace => ?_
  unfold Place.sightings
  rw [candidates_removeDirAll fun c hc => h c (List.mem_flatMap_of_mem hplace hc),
    List.filterMap_filter, List.filter_filterMap]
  refine List.filterMap_congr fun c _ => ?_
  by_cases hc : path <+: c.file
  · cases hload : place.load host fs c <;> simp [hc, Option.filter]
  · rw [load_removeDirAll hc]
    cases hload : place.load host fs c <;> simp [hc, Option.filter]

/-! ### The cap after a removal -/

/-- What a directory holds after a removal it held before. -/
theorem found_removeDirAll {place : Place} {path dir : Path} {depth : ℕ}
    (h : ∀ c ∈ candidates fs depth dir, c.file ≠ path) :
    ((candidates (fs.removeDirAll path) depth dir).filterMap
        (place.load host (fs.removeDirAll path))).Sublist
      ((candidates fs depth dir).filterMap (place.load host fs)) := by
  rw [candidates_removeDirAll h, List.filterMap_congr fun c hc =>
    load_removeDirAll (of_decide_eq_true (List.mem_filter.mp hc).2)]
  exact List.filter_sublist.filterMap _

theorem entriesNeed_filter_le {need need' count count' : Entry → ℕ} {p : Entry → Bool}
    {entries : List Entry}
    (h : ∀ entry ∈ entries, p entry = true → need' entry ≤ need entry ∧
      count' entry ≤ count entry) :
    entriesNeed need' count' (entries.filter p) ≤ entriesNeed need count entries := by
  induction entries with
  | nil => exact le_refl _
  | cons entry rest ih =>
    obtain ⟨hentry, hrest⟩ := List.forall_mem_cons.mp h
    have hrest := ih hrest
    rw [List.filter_cons]
    split
    · rename_i hkept
      obtain ⟨hneed, hcount⟩ := hentry hkept
      exact max_le_max hneed (Nat.add_le_add hcount hrest)
    · exact (hrest.trans (Nat.le_add_left _ _)).trans (le_max_right _ _)

/-- One entry that is left needs no more than before, and counts no more. -/
theorem entryNeed_removeDirAll_le {place : Place} {path dir : Path} {depth : ℕ} {entry : Entry}
    (hleft : ¬path <+: entry.path)
    (hfile : ∀ c ∈ entryCandidates fs (deeper fs depth) dir entry, c.file ≠ path)
    (hneed : ∀ below, depth = below + 1 →
      (∀ c ∈ candidates fs below entry.path, c.file ≠ path) →
        capNeeded host (fs.removeDirAll path) place below entry.path ≤
          capNeeded host fs place below entry.path) :
    entryNeed (fs.removeDirAll path) (deeperNeed host (fs.removeDirAll path) place depth) entry ≤
        entryNeed fs (deeperNeed host fs place depth) entry ∧
      entryCount host (fs.removeDirAll path) place (deeper (fs.removeDirAll path) depth) entry ≤
        entryCount host fs place (deeper fs depth) entry := by
  unfold entryCandidates at hfile
  unfold entryNeed entryCount
  cases hkind : entry.kind with
  | symlink resolves => exact ⟨le_refl _, le_refl _⟩
  | dir =>
    rw [hkind] at hfile
    dsimp only at hfile ⊢
    rw [tryExists_removeDirAll]
    by_cases hexists : fs.tryExists (entry.path ++ [SKILL_MD]) = true
    · rw [if_pos hexists] at hfile
      have hne : entry.path ++ [SKILL_MD] ≠ path := hfile _ (List.mem_singleton_self _)
      have hfree : ¬path <+: entry.path ++ [SKILL_MD] := by
        rw [List.prefix_concat_iff, not_or]
        exact ⟨fun h => hne h.symm, hleft⟩
      simp only [if_neg hfree, if_pos hexists]
      exact ⟨le_refl _, le_refl _⟩
    · rw [if_neg hexists] at hfile
      simp only [hexists, ite_self, Bool.false_eq_true, if_false]
      cases depth with
      | zero => exact ⟨le_refl _, le_refl _⟩
      | succ depth => exact ⟨hneed depth rfl hfile, (found_removeDirAll hfile).length_le⟩
  | file contents => exact ⟨le_refl _, le_refl _⟩

/-- A removal raises the cap of no scan. -/
theorem capNeeded_removeDirAll_le {place : Place} {path dir : Path} {depth : ℕ}
    (h : ∀ c ∈ candidates fs depth dir, c.file ≠ path) :
    capNeeded host (fs.removeDirAll path) place depth dir ≤ capNeeded host fs place depth dir := by
  induction depth using Nat.strong_induction_on generalizing dir with
  | h depth ih =>
    rw [capNeeded_eq, capNeeded_eq, readDir_removeDirAll]
    split
    · exact Nat.zero_le _
    · rw [candidates_eq] at h
      cases hread : fs.readDir dir with
      | none => exact le_refl _
      | some entries =>
        rw [hread, Option.getD_some] at h
        rw [Option.map_some, Option.getD_some, Option.getD_some]
        refine entriesNeed_filter_le fun entry hentry hleft => ?_
        refine entryNeed_removeDirAll_le (of_decide_eq_true hleft)
          (fun c hc => h c (List.mem_flatMap_of_mem hentry hc)) ?_
        rintro below rfl hbelow
        exact ih below (Nat.lt_succ_self _) hbelow

/-- A removal makes no scan come to its cap that did not. -/
theorem withinCapFrom_removeDirAll {path : Path} {depth : ℕ} {all left : List Found}
    {places : List Place} (hleft : left.Sublist all)
    (h : ∀ c ∈ places.flatMap (candidates fs depth ·.dir), c.file ≠ path)
    (hcap : WithinCapFrom host fs depth all places) :
    WithinCapFrom host (fs.removeDirAll path) depth left places := by
  induction places generalizing all left with
  | nil => trivial
  | cons place rest ih =>
    rw [List.flatMap_cons, List.forall_mem_append] at h
    obtain ⟨hplace, hrest⟩ := h
    obtain ⟨hneed, hcap⟩ := hcap
    have hfewer := length_firsts_le hleft.subset
    have hneed' : capNeeded host (fs.removeDirAll path) place depth place.dir ≤
        capNeeded host fs place depth place.dir := capNeeded_removeDirAll_le hplace
    refine ⟨by omega, ih (hleft.append ?_) hrest hcap⟩
    rw [Place.map_sightings, Place.map_sightings]
    exact found_removeDirAll hplace

/-! ### A removal that succeeds -/

/-- What `remove_skill` did: the first skill of the name has a directory, and that is gone. -/
theorem removeSkill_cases {fs' : FileTree} {r' : SkillRegistry} {name : String}
    (h : r.removeSkill fs name = ((fs', r'), .ok ())) :
    ∃ removed path, r.findByName name = some removed ∧ removed.source.removable = some path ∧
      fs' = deleteSkillFiles fs path ∧ r' = { r with skills := r'.skills } := by
  unfold removeSkill at h
  split at h
  · cases h
  · rename_i path hvalid
    unfold validateRemove at hvalid
    split at hvalid
    · cases hvalid
    · rename_i removed hfind
      refine ⟨removed, path, hfind, ?_⟩
      have hpath : removed.source.removable = some path := by
        cases hsource : removed.source with
        | user | installed =>
          rw [hsource] at hvalid
          exact congrArg some (Except.ok.inj hvalid)
        | workspace | bundled =>
          rw [hsource] at hvalid
          cases hvalid
      refine ⟨hpath, ?_⟩
      dsimp only at h
      unfold commitRemove at h
      split at h
      · rename_i herr
        split at herr <;> cases h
      · rename_i hok
        split at hok
        · cases hok
        · cases hok
          cases h
          exact ⟨rfl, rfl⟩

/-- The removed skill was found in the directory it is removed with. -/
theorem sighting_of_removed (h : Obtained host fs r) {name : String} {removed : LoadedSkill}
    {path : Path} (hfind : r.findByName name = some removed)
    (hpath : removed.source.removable = some path) :
    ∃ c, c.source_dir = path ∧ (c, (removed.manifest.name, removed)) ∈ r.sightings host fs := by
  obtain ⟨⟨c, found⟩, hmem, rfl⟩ | ⟨entry, -, hbundled⟩ :=
    sighting_of_obtained h (List.mem_of_find?_eq_some hfind)
  · obtain ⟨place, hplace, -, hload⟩ := mem_sightings.mp hmem
    obtain ⟨hname, -, hsource⟩ := Place.load_spec hload
    refine ⟨c, source_dir_of_removable hplace (hsource ▸ hpath), ?_⟩
    rw [← hname]
    exact hmem
  · rw [source_of_bundledSkill hbundled] at hpath
    cases hpath

theorem offered_of_mem_sightings {c : Candidate} {found : Found}
    (h : (c, found) ∈ r.sightings host fs) :
    fs.get? c.source_dir = some ⟨c.source_dir, .dir⟩ ∧ fs.tryExists c.file = true := by
  obtain ⟨place, -, hc, -⟩ := mem_sightings.mp h
  have hoffered := offered_of_mem hc
  exact ⟨hoffered.is_dir, hoffered.exists_file⟩

/-- The directory is there to be deleted. -/
theorem deleteSkillFiles_eq {path : Path} (h : fs.get? path = some ⟨path, .dir⟩) :
    deleteSkillFiles fs path = fs.removeDirAll path := by
  rw [deleteSkillFiles, if_pos]
  rw [FileTree.tryExists, h]

theorem apart_of_untouched {path : Path} (hdir : fs.get? path = some ⟨path, .dir⟩)
    (h : ∀ sighting ∈ r.sightings host fs, sighting.1.source_dir ≠ path →
      ∀ q, sighting.1.Owns q → (fs.removeDirAll path).get? q = fs.get? q) :
    r.Apart host fs path := by
  intro sighting hmem hne
  refine ⟨fun hbelow => ?_, fun hflat hbelow => ?_⟩
  · have hgone := h sighting hmem hne _ (.inl rfl)
    rw [FileTree.get?_removeDirAll, if_pos hbelow] at hgone
    have hexists := (offered_of_mem_sightings hmem).2
    rw [FileTree.tryExists, ← hgone] at hexists
    cases hexists
  · have hgone := h sighting hmem hne path (.inr ⟨hflat, hbelow⟩)
    rw [FileTree.get?_removeDirAll, if_pos (List.prefix_refl _), hdir] at hgone
    cases hgone

theorem untouched_of_apart {path : Path} (h : r.Apart host fs path) :
    ∀ sighting ∈ r.sightings host fs, sighting.1.source_dir ≠ path →
      ∀ q, sighting.1.Owns q → (fs.removeDirAll path).get? q = fs.get? q := by
  intro sighting hmem hne q howns
  obtain ⟨hfile, hwithin⟩ := h sighting hmem hne
  rw [FileTree.get?_removeDirAll, if_neg]
  obtain rfl | ⟨hflat, hbelow⟩ := howns
  · exact hfile
  · -- two directories above one path lie one above the other
    intro hgone
    obtain habove | habove := List.prefix_or_prefix_of_prefix hgone hbelow
    · exact hfile (habove.trans sighting.1.source_dir_isPrefix)
    · exact hwithin hflat habove

/-- The skill files left when a directory apart from the others goes. -/
theorem sightings_of_apart {path : Path} (hapart : r.Apart host fs path)
    (hfile : ∀ c ∈ r.offers fs, c.file ≠ path) :
    r.sightings host (fs.removeDirAll path) =
      (r.sightings host fs).filter fun sighting => sighting.1.file ≠ path ++ [SKILL_MD] := by
  rw [sightings_removeDirAll hfile]
  refine List.filter_congr fun sighting hmem => ?_
  rw [decide_eq_decide, not_iff_not]
  constructor
  · intro hbelow
    by_contra hne
    refine (hapart sighting hmem fun hdir => hne ?_).1 hbelow
    rw [Candidate.file, hdir]
  · intro heq
    rw [heq]
    exact List.prefix_append _ _

/-- The next of a name when the first file that has it goes. -/
theorem find?_other {file : Path} {name other : String}
    (hfile : ∀ sighting ∈ r.sightings host fs, sighting.1.file = file → sighting.2.1 = name)
    (hne : other ≠ name) :
    ((r.sightings host fs).filter fun s => s.1.file ≠ file).find? (fun s => s.2.1 = other) =
      (r.sightings host fs).find? fun s => s.2.1 = other := by
  rw [List.find?_filter]
  refine List.find?_congr fun sighting hmem => ?_
  by_cases hother : sighting.2.1 = other
  · have : sighting.1.file ≠ file := fun h => hne (hother.symm.trans (hfile sighting hmem h))
    simp [hother, this]
  · simp [hother]

/-- What discovery loads when the file of the first skill of a name goes: the other skills, and
what that one had shadowed. -/
theorem discovers_without {fs' : FileTree} {file : Path} {removed : LoadedSkill}
    (hfirst : ∃ sighting,
      (r.sightings host fs).find? (fun s => s.2.1 = removed.manifest.name) = some sighting ∧
        sighting.2.2 = removed)
    (hfile : ∀ sighting ∈ r.sightings host fs, sighting.1.file = file →
      sighting.2.1 = removed.manifest.name)
    (hsource : ∀ key, removed.source ≠ .bundled key)
    (hleft : r.sightings host fs' = (r.sightings host fs).filter fun s => s.1.file ≠ file)
    {skill : LoadedSkill} :
    r.Discovers host fs' skill ↔
      (r.Discovers host fs skill ∧ skill ≠ removed) ∨
        skill ∈ r.shadowed host fs removed.manifest.name file := by
  have hname : ∀ sighting ∈ r.sightings host fs, sighting.2.1 = sighting.2.2.manifest.name := by
    intro sighting hmem
    obtain ⟨place, -, -, hload⟩ := mem_sightings.mp hmem
    exact (Place.load_spec hload).1
  -- the next sighting of the name is the first one left after the removal
  have hnext : (r.sightings host fs).find?
      (fun s => s.1.file ≠ file && s.2.1 = removed.manifest.name) =
        (r.sightings host fs').find? fun s => s.2.1 = removed.manifest.name := by
    rw [hleft, List.find?_filter]
    simp only [Bool.decide_and, Bool.decide_eq_true]
  unfold Discovers shadowed
  rw [hnext]
  constructor
  · rintro (⟨sighting, hfind, rfl⟩ | ⟨entry, hentry, hbundled, hnone⟩)
    · by_cases hother : sighting.2.1 = removed.manifest.name
      · rw [hother] at hfind
        rw [hfind]
        exact .inr (List.mem_singleton_self _)
      · rw [hleft, find?_other hfile hother] at hfind
        refine .inl ⟨.inl ⟨sighting, hfind, rfl⟩, fun heq => hother ?_⟩
        rw [hname sighting (List.mem_of_find?_eq_some hfind), heq]
    · by_cases hkey : entry.1 = removed.manifest.name
      · have hgone : (r.sightings host fs').find?
            (fun s => s.2.1 = removed.manifest.name) = none :=
          List.find?_eq_none.mpr fun s hs => by simpa [← hkey] using hnone s hs
        rw [hgone]
        exact .inr (List.mem_filterMap.mpr
          ⟨entry, List.mem_filter.mpr ⟨hentry, decide_eq_true hkey⟩, hbundled⟩)
      · refine .inl ⟨.inr ⟨entry, hentry, hbundled, fun sighting hmem hsame => ?_⟩, ?_⟩
        · by_cases hgone : sighting.1.file = file
          · exact hkey (hsame ▸ hfile sighting hmem hgone)
          · refine hnone sighting ?_ hsame
            rw [hleft]
            exact List.mem_filter.mpr ⟨hmem, decide_eq_true hgone⟩
        · rintro rfl
          exact hsource entry.1 (source_of_bundledSkill hbundled)
  · rintro (⟨⟨sighting, hfind, rfl⟩ | ⟨entry, hentry, hbundled, hnone⟩, hne⟩ | hshadowed)
    · by_cases hother : sighting.2.1 = removed.manifest.name
      · obtain ⟨first, hfirst, rfl⟩ := hfirst
        rw [hother, hfirst] at hfind
        cases hfind
        exact absurd rfl hne
      · refine .inl ⟨sighting, ?_, rfl⟩
        rw [hleft, find?_other hfile hother]
        exact hfind
    · refine .inr ⟨entry, hentry, hbundled, fun sighting hmem => hnone sighting ?_⟩
      rw [hleft] at hmem
      exact List.mem_of_mem_filter hmem
    · split at hshadowed
      · rename_i sighting hfind
        obtain rfl := List.mem_singleton.mp hshadowed
        refine .inl ⟨sighting, ?_, rfl⟩
        have hsame : sighting.2.1 = removed.manifest.name := by
          simpa using List.find?_some hfind
        rw [hsame]
        exact hfind
      · rename_i hfind
        obtain ⟨entry, hentry, hbundled⟩ := List.mem_filterMap.mp hshadowed
        obtain ⟨hentry, hkey⟩ := List.mem_filter.mp hentry
        refine .inr ⟨entry, hentry, hbundled, fun sighting hmem => ?_⟩
        have := List.find?_eq_none.mp hfind sighting hmem
        rw [of_decide_eq_true hkey]
        simpa using this

/-- A removal leaves the other skills as they are only where their files lie outside the
directory it deletes; and there it does, so long as no scan comes to its cap and that directory
is not itself what stands for a skill file. -/
theorem removeSkill_removesOnly {fs' : FileTree} {r' : SkillRegistry} {name : String}
    (hr : Obtained host fs r) (h : r.removeSkill fs name = ((fs', r'), .ok ())) :
    ∃ removed path, r.findByName name = some removed ∧ removed.source.removable = some path ∧
      (RemovesOnly host fs fs' r r' removed path → r.Apart host fs path) ∧
      (r.Apart host fs path → r.WithinCap host fs → (∀ c ∈ r.offers fs, c.file ≠ path) →
        RemovesOnly host fs fs' r r' removed path) := by
  obtain ⟨removed, path, hfind, hpath, rfl, hr'⟩ := removeSkill_cases h
  obtain ⟨c, rfl, hmem⟩ := sighting_of_removed hr hfind hpath
  obtain ⟨hdir, -⟩ := offered_of_mem_sightings hmem
  rw [deleteSkillFiles_eq hdir]
  refine ⟨removed, c.source_dir, hfind, hpath, fun hones => ?_, fun hapart hcap hfile => ?_⟩
  · exact apart_of_untouched hdir hones.untouched
  · refine ⟨untouched_of_apart hapart, fun skill => ?_⟩
    have hcap' : r.WithinCap host (fs.removeDirAll c.source_dir) :=
      withinCapFrom_removeDirAll (List.Sublist.refl _) hfile hcap
    have hreload : skill ∈ (r'.reload host (fs.removeDirAll c.source_dir)).2.skills ↔
        r.Discovers host (fs.removeDirAll c.source_dir) skill := by
      rw [hr']
      exact mem_reload hcap'
    rw [hreload, mem_skills_of_obtained hcap hr]
    have hsource : ∀ key, removed.source ≠ .bundled key := by
      intro key hkey
      rw [hkey] at hpath
      cases hpath
    refine discovers_without ?_ ?_ hsource (sightings_of_apart hapart hfile)
    · have hdiscovered := (mem_skills_of_obtained hcap hr).mp (List.mem_of_find?_eq_some hfind)
      obtain ⟨first, hfirst, rfl⟩ | ⟨entry, -, hbundled, -⟩ := hdiscovered
      · refine ⟨first, ?_, rfl⟩
        obtain ⟨place, -, -, hload⟩ := mem_sightings.mp (List.mem_of_find?_eq_some hfirst)
        rw [← (Place.load_spec hload).1]
        exact hfirst
      · exact absurd (source_of_bundledSkill hbundled) (hsource entry.1)
    · intro sighting hsighting heq
      obtain ⟨place, -, -, hload⟩ := mem_sightings.mp hsighting
      obtain ⟨place', -, -, hload'⟩ := mem_sightings.mp hmem
      exact name_of_file heq hload hload'

/-! ### Two trees -/

/-- A host that knows frontmatter with a name alone. -/
def nameOnlyHost : SkillHost where
  manifest_from_yaml yaml :=
    match yaml.toList with
    | 'n' :: 'a' :: 'm' :: 'e' :: ':' :: ' ' :: rest =>
      .ok ⟨String.ofList (rest.takeWhile (· ≠ '\n')), "0.0.0", ⟨[], [], [], [], 2000, none⟩,
        ⟨[], [], [], []⟩⟩
    | _ => .error "missing field \x60name\x60"
  value_from_yaml yaml :=
    match yaml.toList with
    | 'n' :: 'a' :: 'm' :: 'e' :: ':' :: ' ' :: rest =>
      .ok (.mapping [(.string "name", .string (String.ofList (rest.takeWhile (· ≠ '\n'))))])
    | _ => .error "not a name"
  yaml_to_string value :=
    match value with
    | .mapping [(.string "name", .string name)] => .ok ("name: " ++ name ++ "\n")
    | _ => .error "not a name"
  pattern_compiles _ := true
  lowercase text := text
  sha256 text := text
  binary_exists _ := false
  env_var_set _ := false
  config_exists _ := false

/-- A skill file. -/
def skillFile (dir : Path) (name : String) : Entry :=
  ⟨dir ++ [SKILL_MD], .file (.text ("---\nname: ".toList ++ name.toList ++ "\n---\nDo.\n".toList))⟩

/-- A registry with a user directory, and nothing else. -/
def userOnly : SkillRegistry := ⟨[], ["s"], none, none, [], DEFAULT_MAX_SCAN_DEPTH⟩

/-- The user directory holds a flat skill and one in a directory of its own. -/
def flatTree : FileTree where
  entries := ⟨[⟨[], .dir⟩, ⟨["s"], .dir⟩, skillFile ["s"] "a", ⟨["s", "b"], .dir⟩,
    skillFile ["s", "b"] "b"], by decide +kernel⟩
  closed := by decide +kernel

/-- Each skill has a directory of its own. -/
def ownDirsTree : FileTree where
  entries := ⟨[⟨[], .dir⟩, ⟨["s"], .dir⟩, ⟨["s", "a"], .dir⟩, skillFile ["s", "a"] "a",
    ⟨["s", "b"], .dir⟩, skillFile ["s", "b"] "b"], by decide +kernel⟩
  closed := by decide +kernel

/-- A result that is a success. -/
theorem eq_ok_of_isOk {α ε : Type} {result : α × Except ε Unit} (h : result.2.isOk = true) :
    result = (result.1, .ok ()) := by
  obtain ⟨state, r⟩ := result
  cases r with
  | error e => cases h
  | ok u => rfl

/-- **A flat skill takes its neighbours with it.** -/
theorem flat_removes_neighbours :
    ∃ r fs' r' removed path, Obtained nameOnlyHost flatTree r ∧
      r.removeSkill flatTree "a" = ((fs', r'), .ok ()) ∧ r.findByName "a" = some removed ∧
      removed.source.removable = some path ∧
      ¬RemovesOnly nameOnlyHost flatTree fs' r r' removed path := by
  have hremove : ((userOnly.reload nameOnlyHost flatTree).2.removeSkill flatTree "a").2.isOk =
      true := by decide +kernel
  have hdir : ((userOnly.reload nameOnlyHost flatTree).2.findByName "a").bind
      (·.source.removable) = some ["s"] := by decide +kernel
  have hother : ((userOnly.reload nameOnlyHost flatTree).2.sightings nameOnlyHost flatTree).any
      (fun s => s.1 = ⟨["s", "b"], false⟩) = true := by decide +kernel
  obtain ⟨removed, path, hfind, hpath, -, -⟩ := removeSkill_cases (eq_ok_of_isOk hremove)
  rw [hfind, Option.bind_some, hpath, Option.some.injEq] at hdir
  obtain ⟨sighting, hmem, hc⟩ := List.any_eq_true.mp hother
  refine ⟨_, _, _, removed, path, .reloaded userOnly, eq_ok_of_isOk hremove, hfind, hpath, ?_⟩
  intro honly
  have hfile : sighting.1 = ⟨["s", "b"], false⟩ := of_decide_eq_true hc
  have hkept := honly.untouched sighting hmem (by rw [hfile, hdir]; decide)
    ["s", "b", SKILL_MD] (.inl (by rw [hfile]; rfl))
  revert hkept
  decide +kernel

/-- One skill of two, each in a directory of its own. -/
theorem ownDir_removes_one :
    ∃ r fs' r' removed path, r.removeSkill ownDirsTree "a" = ((fs', r'), .ok ()) ∧
      RemovesOnly nameOnlyHost ownDirsTree fs' r r' removed path := by
  have hremove : ((userOnly.reload nameOnlyHost ownDirsTree).2.removeSkill ownDirsTree
      "a").2.isOk = true := by decide +kernel
  have hdir : ((userOnly.reload nameOnlyHost ownDirsTree).2.findByName "a").bind
      (·.source.removable) = some ["s", "a"] := by decide +kernel
  have hfiles : ((userOnly.reload nameOnlyHost ownDirsTree).2.sightings nameOnlyHost
      ownDirsTree).map Prod.fst = [⟨["s", "a"], false⟩, ⟨["s", "b"], false⟩] := by decide +kernel
  obtain ⟨removed, path, hfind, hpath, -, honly⟩ :=
    removeSkill_removesOnly (.reloaded userOnly) (eq_ok_of_isOk hremove)
  rw [hfind, Option.bind_some, hpath, Option.some.injEq] at hdir
  subst hdir
  refine ⟨_, _, _, removed, ["s", "a"], eq_ok_of_isOk hremove, honly ?_ ?_ ?_⟩
  · have hboth : ∀ c ∈ [(⟨["s", "a"], false⟩ : Candidate), ⟨["s", "b"], false⟩],
        c.source_dir ≠ ["s", "a"] → ¬["s", "a"] <+: c.file ∧
          (c.flat = false → ¬c.source_dir <+: ["s", "a"]) := by decide +kernel
    intro sighting hmem
    exact hboth sighting.1 (hfiles ▸ List.mem_map_of_mem hmem)
  · decide +kernel
  · decide +kernel

end SkillRegistry

end T3Claw.Skills
