import T3Claw.Skills.Removal

/-!
# What writing a skill changes

An install makes directories and writes one file. A tree that grows at some paths, none of them a
directory before, offers new skill files at these paths only (`candidates_of_grows`), so making
directories offers no skill, and writing a file at most the one in it
(`sighting_of_prepareInstallToDisk`).
-/

namespace T3Claw.Skills

namespace FileTree

variable {fs fs' : FileTree}

/-- What is there when something is put in its place. -/
theorem get?_put {entry : Entry} (h : fs.put entry = .ok fs') (q : Path) :
    fs'.get? q = if q = entry.path then some entry else fs.get? q := by
  unfold put at h
  split at h
  · cases h
    exact KeyedStore.get?_insert fs.entries entry q
  · cases h

/-- `create_dir_all` makes directories where there was nothing, on the way to the one asked
for. -/
theorem get?_createDirs {parent : Path} {names : List String}
    (h : fs.createDirs parent names = .ok fs') (q : Path) :
    fs'.get? q = fs.get? q ∨
      fs.get? q = none ∧ fs'.get? q = some ⟨q, .dir⟩ ∧ q <+: parent ++ names := by
  induction names generalizing fs parent with
  | nil =>
    rw [createDirs] at h
    cases h
    exact .inl rfl
  | cons name rest ih =>
    have hpath : parent ++ [name] ++ rest = parent ++ name :: rest := by simp
    rw [createDirs.eq_def] at h
    dsimp only at h
    split at h
    · exact hpath ▸ ih h
    · exact hpath ▸ ih h
    · cases h
    · rename_i hnone
      split at h
      · rename_i made hput
        have hmade := get?_put hput
        by_cases hq : q = parent ++ [name]
        · subst hq
          refine .inr ⟨hnone, ?_, hpath ▸ List.prefix_append _ _⟩
          obtain hsame | ⟨hmissing, -, -⟩ := ih h
          · rw [hsame, hmade, if_pos rfl]
          · rw [hmade, if_pos rfl] at hmissing
            cases hmissing
        · rw [← hpath]
          have hrest := ih h
          rw [hmade, if_neg hq] at hrest
          exact hrest
      · cases h

/-- `fs::write` changes one path, which was no directory. -/
theorem get?_write {path : Path} {contents : Contents} (h : fs.write path contents = .ok fs') :
    (∀ q, q ≠ path → fs'.get? q = fs.get? q) ∧
      (fs'.get? path = some ⟨path, .file contents⟩ ∨ fs'.get? path = some ⟨path, .symlink true⟩) ∧
      ∀ entry, fs.get? path = some entry → entry.kind ≠ .dir := by
  unfold write at h
  split at h
  · cases h
  · rename_i hget
    refine ⟨fun q hq => ?_, .inr ?_, fun entry hentry hkind => ?_⟩
    · rw [get?_put h, if_neg hq]
    · rw [get?_put h, if_pos rfl]
    · rw [hget] at hentry
      cases hentry
      cases hkind
  · rename_i hdir hlink
    refine ⟨fun q hq => ?_, .inl ?_, fun entry hentry hkind => ?_⟩
    · rw [get?_put h, if_neg hq]
    · rw [get?_put h, if_pos rfl]
    · obtain ⟨p, kind⟩ := entry
      cases hkind
      exact hdir p hentry

end FileTree

/-! ### Trees that grow -/

/-- A tree that grows at some paths: what is new there was no directory before, and nothing was
below. -/
structure Grows (fs fs' : FileTree) (new : Path → Prop) : Prop where
  same : ∀ q, ¬new q → fs'.get? q = fs.get? q
  exists_new : ∀ q, new q → fs'.tryExists q = true
  not_dir : ∀ q, new q → fs.get? q ≠ some ⟨q, .dir⟩
  empty : ∀ q, new q → fs'.get? q = some ⟨q, .dir⟩ → fs.get? q = none

variable {fs fs' : FileTree}

namespace Grows

variable {new : Path → Prop}

theorem tryExists (h : Grows fs fs' new) {q : Path} (hq : fs'.tryExists q = true) :
    new q ∨ fs.tryExists q = true := by
  by_cases hnew : new q
  · exact .inl hnew
  · right
    rw [FileTree.tryExists, ← h.same q hnew]
    exact hq

/-- A directory that was there offers what it did, but for what is new. -/
theorem mem_children (h : Grows fs fs' new) {dir : Path} {entry : Entry}
    (hentry : entry ∈ fs'.children dir) : new entry.path ∨ entry ∈ fs.children dir := by
  obtain ⟨hmem, hne, hdir⟩ := FileTree.mem_children.mp hentry
  by_cases hnew : new entry.path
  · exact .inl hnew
  · have hget := FileTree.get?_path hmem
    rw [h.same _ hnew] at hget
    exact .inr (FileTree.mem_children.mpr ⟨FileTree.mem_of_get? hget, hne, hdir⟩)

/-- Below a path where there was nothing, all is new. -/
theorem new_of_parent (h : Grows fs fs' new) {q : Path} (hq : q ≠ [])
    (hparent : fs.get? q.dropLast = none) (hexists : fs'.tryExists q = true) : new q := by
  refine (h.tryExists hexists).resolve_right fun hold => ?_
  cases hget : fs.get? q with
  | none =>
    rw [FileTree.tryExists, hget] at hold
    cases hold
  | some entry =>
    obtain ⟨up, hup, -⟩ := FileTree.get?_dropLast hget hq
    rw [hparent] at hup
    cases hup

end Grows

theorem candidates_of_missing {depth : ℕ} {dir : Path} (h : fs.get? dir = none) :
    candidates fs depth dir = [] := by
  rw [candidates_eq, FileTree.readDir, h]
  rfl

/-- The skill files a tree offers after it has grown are those it offered, and new ones. -/
theorem candidates_of_grows {new : Path → Prop} (h : Grows fs fs' new) {depth : ℕ} {dir : Path}
    {c : Candidate} (hc : c ∈ candidates fs' depth dir) :
    c ∈ candidates fs depth dir ∨ new c.file := by
  induction depth using Nat.strong_induction_on generalizing dir with
  | h depth ih =>
    rw [candidates_eq] at hc ⊢
    obtain ⟨entry, hentry, hc⟩ := List.mem_flatMap.mp hc
    cases hread : fs'.readDir dir with
    | none =>
      rw [hread] at hentry
      cases hentry
    | some entries =>
      rw [hread] at hentry
      obtain ⟨hget, rfl⟩ := FileTree.readDir_eq_some hread
      obtain ⟨hmem, hne, hdir⟩ := FileTree.mem_children.mp hentry
      have hchild := FileTree.get?_path hmem
      by_cases hnew : new entry.path
      · -- a new directory has nothing in it that is not new
        obtain ⟨hkind, hexists, rfl⟩ | ⟨hkind, -, scan, hscan, hin⟩ | ⟨-, hname, rfl⟩ :=
          mem_entryCandidates.mp hc
        · have hempty := h.empty _ hnew (by rw [hchild, ← hkind])
          exact .inr (h.new_of_parent (by simp [Candidate.file])
            (by simpa [Candidate.file] using hempty) hexists)
        · have hempty := h.empty _ hnew (by rw [hchild, ← hkind])
          cases depth with
          | zero => cases hscan
          | succ depth =>
            cases hscan
            refine (ih depth (Nat.lt_succ_self _) hin).imp (fun hold => ?_) id
            rw [candidates_of_missing hempty] at hold
            cases hold
        · exact .inr (file_of_flat hdir hname ▸ hnew)
      · -- an entry that was there lies in a directory that was there
        have hold := (h.mem_children hentry).resolve_left hnew
        have hdir_old : ¬new dir := by
          intro hdir_new
          rw [h.same _ hnew] at hchild
          obtain ⟨up, hup, -⟩ := FileTree.get?_dropLast hchild hne
          rw [hdir, h.empty dir hdir_new hget] at hup
          cases hup
        have hread_old : fs.readDir dir = some (fs.children dir) := by
          rw [FileTree.readDir, ← h.same dir hdir_old, hget]
        rw [hread_old]
        have hmem_of : c ∈ entryCandidates fs (deeper fs depth) dir entry →
            c ∈ (fs.children dir).flatMap (entryCandidates fs (deeper fs depth) dir) :=
          fun hin => List.mem_flatMap_of_mem hold hin
        obtain ⟨hkind, hexists, rfl⟩ | ⟨hkind, hmissing, scan, hscan, hin⟩ |
          ⟨hkind, hname, rfl⟩ := mem_entryCandidates.mp hc
        · refine (h.tryExists hexists).symm.imp_left fun hexists => hmem_of ?_
          exact mem_entryCandidates.mpr (.inl ⟨hkind, hexists, rfl⟩)
        · cases depth with
          | zero => cases hscan
          | succ depth =>
            cases hscan
            refine (ih depth (Nat.lt_succ_self _) hin).imp_left fun hin => hmem_of ?_
            have hmissing_old : fs.tryExists (entry.path ++ [SKILL_MD]) = false := by
              have hnot : ¬new (entry.path ++ [SKILL_MD]) := fun hnew_file => by
                rw [h.exists_new _ hnew_file] at hmissing
                cases hmissing
              rw [FileTree.tryExists, ← h.same _ hnot]
              exact hmissing
            exact mem_entryCandidates.mpr (.inr (.inl ⟨hkind, hmissing_old, _, rfl, hin⟩))
        · exact .inl (hmem_of (mem_entryCandidates.mpr (.inr (.inr ⟨hkind, hname, rfl⟩))))

/-- Making directories offers no new skill. -/
theorem sightings_createDirAll {host : SkillHost} {r : SkillRegistry} {path : Path}
    (h : fs.createDirAll path = .ok fs') {c : Candidate} {found : Found}
    (hmem : (c, found) ∈ r.sightings host fs') : (c, found) ∈ r.sightings host fs := by
  have hmade := FileTree.get?_createDirs h
  have hgrows : Grows fs fs' fun q => fs.get? q = none ∧ fs'.get? q = some ⟨q, .dir⟩ := by
    refine ⟨fun q hq => ?_, fun q hq => ?_, fun q hq hdir => ?_, fun q hq _ => hq.1⟩
    · exact (hmade q).resolve_right fun hnew => hq ⟨hnew.1, hnew.2.1⟩
    · rw [FileTree.tryExists, hq.2]
    · rw [hq.1] at hdir
      cases hdir
  obtain ⟨place, hplace, hc, hload⟩ := SkillRegistry.mem_sightings.mp hmem
  -- a new directory in a skill file's place does not load
  have hfile : ¬(fs.get? c.file = none ∧ fs'.get? c.file = some ⟨c.file, .dir⟩) := by
    rintro ⟨-, hdir⟩
    unfold Place.load loadAndValidateSkill at hload
    rw [hdir] at hload
    cases hload
  refine SkillRegistry.mem_sightings.mpr
    ⟨place, hplace, (candidates_of_grows hgrows hc).resolve_right hfile, ?_⟩
  unfold Place.load loadAndValidateSkill at hload ⊢
  rw [← hgrows.same _ hfile]
  exact hload

/-- Writing a file offers no skill but the one in it. -/
theorem sightings_write {host : SkillHost} {r : SkillRegistry} {path : Path} {contents : Contents}
    (h : fs.write path contents = .ok fs') {c : Candidate} {found : Found}
    (hmem : (c, found) ∈ r.sightings host fs') :
    (c, found) ∈ r.sightings host fs ∨ c.file = path := by
  obtain ⟨hsame, hpath, hnot⟩ := FileTree.get?_write h
  have hgrows : Grows fs fs' (· = path) := by
    refine ⟨hsame, ?_, ?_, ?_⟩
    · rintro q rfl
      obtain hpath | hpath := hpath <;> rw [FileTree.tryExists, hpath]
    · rintro q rfl hdir
      exact hnot _ hdir rfl
    · rintro q rfl hdir
      obtain hpath | hpath := hpath <;> rw [hpath] at hdir <;> cases hdir
  obtain ⟨place, hplace, hc, hload⟩ := SkillRegistry.mem_sightings.mp hmem
  by_cases hfile : c.file = path
  · exact .inr hfile
  · refine .inl (SkillRegistry.mem_sightings.mpr
      ⟨place, hplace, (candidates_of_grows hgrows hc).resolve_right hfile, ?_⟩)
    unfold Place.load loadAndValidateSkill at hload ⊢
    rw [← hsame _ hfile]
    exact hload

/-! ### An install on disk -/

/-- The name a text is loaded under. -/
def contentName (host : SkillHost) (content : List Char) : Option String :=
  (parseSkillMd host (normalizeLineEndings content)).toOption.map (·.manifest.name)

theorem contentName_of_load {host : SkillHost} {path : Path} {trust : SkillTrust}
    {source : SkillSource} {content : List Char} {found : Found}
    (hload : loadAndValidateSkill host fs path trust source = .ok found)
    (hget : fs.get? path = some ⟨path, .file (.text content)⟩) :
    contentName host content = some found.1 := by
  unfold loadAndValidateSkill at hload
  rw [hget] at hload
  dsimp only at hload
  split at hload
  · cases hload
  · unfold buildLoadedSkill at hload
    unfold contentName
    split at hload
    · cases hload
    · rename_i hparse
      rw [hparse]
      dsimp only at hload
      split at hload
      · cases hload
      · split at hload
        · cases hload
        · cases hload
          rfl

/-- What is loaded from the file an install wrote has the name of the text that was written. -/
theorem contentName_of_write {host : SkillHost} {path : Path} {trust : SkillTrust}
    {source : SkillSource} {content : List Char} {found : Found}
    (h : fs.write path (.text content) = .ok fs')
    (hload : loadAndValidateSkill host fs' path trust source = .ok found) :
    contentName host content = some found.1 := by
  obtain hfile | hlink := (FileTree.get?_write h).2.1
  · exact contentName_of_load hload hfile
  · unfold loadAndValidateSkill at hload
    rw [hlink] at hload
    cases hload

theorem ok_of_writing {path : Path} {result : Except String FileTree}
    (h : writing path result = .ok fs') : result = .ok fs' := by
  cases result with
  | error e => cases h
  | ok made =>
    cases h
    rfl

/-- An install leaves on disk the skills there were, and the one it wrote. -/
theorem sighting_of_prepareInstallToDisk {host : SkillHost} {r : SkillRegistry} {dir : Path}
    {name : String} {content : List Char} {result : Except SkillRegistryError Found}
    (h : prepareInstallToDisk host fs dir name content = (fs', result)) {c : Candidate}
    {found : Found} (hmem : (c, found) ∈ r.sightings host fs') :
    (c, found) ∈ r.sightings host fs ∨
      c.source_dir = dir ++ [name] ∧ contentName host content = some found.1 := by
  unfold prepareInstallToDisk at h
  dsimp only at h
  split at h
  · cases h
    exact .inl hmem
  · rename_i made hmade
    have hkeep : (c, found) ∈ r.sightings host made → (c, found) ∈ r.sightings host fs :=
      sightings_createDirAll (ok_of_writing hmade)
    split at h
    · cases h
      exact .inl (hkeep hmem)
    · rename_i written hwritten
      cases h
      have hwrite := ok_of_writing hwritten
      obtain hold | hfile := sightings_write hwrite hmem
      · exact .inl (hkeep hold)
      · refine .inr ⟨(List.append_left_inj [SKILL_MD]).mp hfile, ?_⟩
        obtain ⟨place, -, -, hload⟩ := SkillRegistry.mem_sightings.mp hmem
        unfold Place.load at hload
        rw [hfile] at hload
        cases hok : loadAndValidateSkill host fs' (dir ++ [name] ++ [SKILL_MD]) place.trust
            (place.make_source c.source_dir) with
        | error e =>
          rw [hok] at hload
          cases hload
        | ok f =>
          rw [hok] at hload
          cases hload
          exact contentName_of_write hwrite hok

/-- The skill an install has prepared. -/
theorem prepared_spec {host : SkillHost} {dir : Path} {name : String} {content : List Char}
    {found : Found} (h : prepareInstallToDisk host fs dir name content = (fs', .ok found)) :
    contentName host content = some found.1 ∧ found.1 = found.2.manifest.name ∧
      found.2.trust = .installed ∧ found.2.source = .installed (dir ++ [name]) := by
  unfold prepareInstallToDisk at h
  dsimp only at h
  split at h
  · cases h
  · split at h
    · cases h
    · rename_i written hwritten
      obtain ⟨rfl, hload⟩ := Prod.mk.inj h
      exact ⟨contentName_of_write (ok_of_writing hwritten) hload, loadAndValidateSkill_spec hload⟩

end T3Claw.Skills
