import T3Claw.Skills.Writing

/-!
# What an install may be trusted with

A skill is loaded as trusted or not by the directory its file is in. So one that an install wrote
stays untrusted over all reloads where the install wrote it outside the workspace and user
directories; `install_skill` writes into the user directory. Names are distinct, and come from
the first place that has them, on the conditions stated with each (`trust_of_runs`).
-/

namespace T3Claw.Skills

/-- The directory a skill was loaded from. -/
def SkillSource.dir : SkillSource → Option Path
  | .workspace path | .user path | .installed path => some path
  | .bundled _ => none

/-- The order of the places. -/
def SkillSource.rank : SkillSource → ℕ
  | .workspace _ => 0
  | .user _ => 1
  | .installed _ => 2
  | .bundled _ => 3

/-- The registry and the disk. `installed` lists the directories of the skills that installs have
added. -/
structure World where
  fs : FileTree
  registry : SkillRegistry
  installed : List Path

/-- What is done to a registry. -/
inductive Op where
  | discoverAll
  | reload
  | installSkill (content : List Char)
  | installTarget (skill_name : String) (install_content : List Char)
  | removeSkill (name : String)

/-- What an install writes: into which directory, under which name, and what. -/
def Op.writes (host : SkillHost) (r : SkillRegistry) : Op → Option (Path × String × List Char)
  | .installSkill content =>
    match normalizeInstallContent host (normalizeLineEndings content) none with
    | .error _ => none
    | .ok (skill_name, install_content) =>
      if r.has skill_name then none else some (r.user_dir, skill_name, install_content)
  | .installTarget skill_name install_content =>
    some (r.installTargetDir, skill_name, install_content)
  | _ => none

/-- Whether an operation is an install. -/
def Op.installs : Op → Bool
  | .installSkill _ | .installTarget _ _ => true
  | _ => false

namespace World

open SkillRegistry

/-- An install's outcome. -/
def record (w : World) (writes : Option (Path × String × List Char))
    (outcome : (FileTree × SkillRegistry) × Except SkillRegistryError String) : World where
  fs := outcome.1.1
  registry := outcome.1.2
  installed :=
    match outcome.2, writes with
    | .ok _, some (dir, skill_name, _) => (dir ++ [skill_name]) :: w.installed
    | _, _ => w.installed

/-- One operation. -/
def run (host : SkillHost) (w : World) (op : Op) : World :=
  match op with
  | .discoverAll => { w with registry := (w.registry.discoverAll host w.fs).2 }
  | .reload => { w with registry := (w.registry.reload host w.fs).2 }
  | .installSkill content =>
    w.record (op.writes host w.registry) (w.registry.installSkill host w.fs content)
  | .installTarget skill_name install_content =>
    w.record (op.writes host w.registry)
      (w.registry.installTarget host w.fs skill_name install_content)
  | .removeSkill name =>
    let outcome := w.registry.removeSkill w.fs name
    { w with fs := outcome.1.1, registry := outcome.1.2 }

/-- The worlds that operations lead to, each of which meets a condition where it is done. -/
inductive Run (host : SkillHost) (meets : World → Op → Prop) (w₀ : World) : World → Prop
  | start : Run host meets w₀ w₀
  | step {w : World} (op : Op) :
    Run host meets w₀ w → meets w op → Run host meets w₀ (w.run host op)

/-! ### What is promised -/

/-- A skill that an install added is not trusted. -/
def InstalledStays (w : World) : Prop :=
  ∀ skill ∈ w.registry.skills, ∀ dir ∈ w.installed, skill.source.dir = some dir →
    skill.trust = .installed

/-- No two loaded skills have one name. -/
def NamesDistinct (w : World) : Prop := (w.registry.skills.map (·.manifest.name)).Nodup

/-- No place before the one a skill was loaded from has its name. -/
def FirstPlace (host : SkillHost) (w : World) : Prop :=
  ∀ skill ∈ w.registry.skills, ∀ sighting ∈ w.registry.sightings host w.fs,
    sighting.2.1 = skill.manifest.name → skill.source.rank ≤ sighting.2.2.source.rank

/-! ### On what condition -/

/-- A path in neither the workspace nor the user directory. -/
def Outside (r : SkillRegistry) (path : Path) : Prop :=
  ¬r.user_dir <+: path ∧ ∀ ws_dir, r.workspace_dir = some ws_dir → ¬ws_dir <+: path

/-- An install writes outside the workspace and user directories. -/
def WritesOutside (host : SkillHost) (w : World) (op : Op) : Prop :=
  ∀ dir skill_name content, op.writes host w.registry = some (dir, skill_name, content) →
    Outside w.registry (dir ++ [skill_name])

/-- `discover_all` fills an empty registry. -/
def DiscoversAnew (w : World) (op : Op) : Prop := op = .discoverAll → w.registry.skills = []

/-- Bundled skills are compiled in under the names they have, no two under one. -/
def BundledNamed (host : SkillHost) (r : SkillRegistry) : Prop :=
  (∀ entry ∈ r.bundled_content, ∀ skill, bundledSkill host entry = some skill →
    skill.manifest.name = entry.1) ∧ (r.bundled_content.map Prod.fst).Nodup

/-- No scan comes to its cap; an install writes outside the workspace and user directories, a
name that is not loaded and that these do not have; and what a removal deletes does not stand for
a skill file. -/
def KeepsOrder (host : SkillHost) (w : World) (op : Op) : Prop :=
  match op with
  | .discoverAll | .reload => w.registry.WithinCap host w.fs
  | .installSkill _ | .installTarget _ _ =>
    WritesOutside host w op ∧
      ∀ dir skill_name content, op.writes host w.registry = some (dir, skill_name, content) →
        ∀ name, contentName host content = some name → w.registry.has name = false ∧
          ∀ sighting ∈ w.registry.sightings host w.fs, sighting.2.1 = name →
            2 ≤ sighting.2.2.source.rank
  | .removeSkill name =>
    ∀ path, w.registry.validateRemove name = .ok path →
      ∀ c ∈ w.registry.offers w.fs, c.file ≠ path

/-! ### One operation -/

variable {host : SkillHost} {w : World}

/-- What an install does to the registry, if anything. -/
theorem installInto_cases (r : SkillRegistry) (fs : FileTree) (dir : Path) (skill_name : String)
    (content : List Char) :
    ∃ fs' result, prepareInstallToDisk host fs dir skill_name content = (fs', result) ∧
      ((∃ e, r.installInto host fs dir skill_name content = ((fs', r), .error e)) ∨
        ∃ found, result = .ok found ∧ r.has found.1 = false ∧
          r.installInto host fs dir skill_name content =
            ((fs', { r with skills := r.skills ++ [found.2] }), .ok found.1)) := by
  cases hprepare : prepareInstallToDisk host fs dir skill_name content with
  | mk fs' result =>
    refine ⟨fs', result, rfl, ?_⟩
    unfold SkillRegistry.installInto
    rw [hprepare]
    cases result with
    | error e => exact .inl ⟨e, rfl⟩
    | ok found =>
      obtain ⟨name, skill⟩ := found
      dsimp only [SkillRegistry.commitInstall]
      cases hhas : r.has name with
      | true => exact .inl ⟨_, rfl⟩
      | false => exact .inr ⟨_, rfl, hhas, rfl⟩

/-- `install_skill` fails before it writes, or goes on as an install into the user directory. -/
theorem installSkill_cases (host : SkillHost) (r : SkillRegistry) (fs : FileTree)
    (content : List Char) :
    (Op.writes host r (.installSkill content) = none ∧
        ∃ e, r.installSkill host fs content = ((fs, r), .error e)) ∨
      ∃ dir skill_name install_content,
        Op.writes host r (.installSkill content) = some (dir, skill_name, install_content) ∧
        r.installSkill host fs content = r.installInto host fs dir skill_name install_content := by
  unfold SkillRegistry.installSkill
  dsimp only [Op.writes]
  cases normalizeInstallContent host (normalizeLineEndings content) none with
  | error e => exact .inl ⟨rfl, e, rfl⟩
  | ok resolved =>
    obtain ⟨skill_name, install_content⟩ := resolved
    dsimp only
    cases r.has skill_name with
    | true => exact .inl ⟨rfl, _, rfl⟩
    | false => exact .inr ⟨_, _, _, rfl, rfl⟩

/-- What an install does to a world: nothing, or it prepares a skill on disk, and may add it. -/
theorem install_cases {op : Op} (h : op.installs = true) :
    w.run host op = w ∨
      ∃ dir skill_name content fs' result,
        op.writes host w.registry = some (dir, skill_name, content) ∧
        prepareInstallToDisk host w.fs dir skill_name content = (fs', result) ∧
        (w.run host op = { w with fs := fs' } ∨
          ∃ found, result = .ok found ∧ w.registry.has found.1 = false ∧
            w.run host op =
              ⟨fs', { w.registry with skills := w.registry.skills ++ [found.2] },
                (dir ++ [skill_name]) :: w.installed⟩) := by
  have hinto : w.run host op = w ∨ ∃ dir skill_name content,
      op.writes host w.registry = some (dir, skill_name, content) ∧
      w.run host op = w.record (some (dir, skill_name, content))
        (w.registry.installInto host w.fs dir skill_name content) := by
    cases op with
    | installSkill content =>
      have hrun : w.run host (.installSkill content) =
          w.record (Op.writes host w.registry (.installSkill content))
            (w.registry.installSkill host w.fs content) := rfl
      rw [hrun]
      obtain ⟨hwrites, e, hfailed⟩ | ⟨dir, skill_name, install_content, hwrites, hinto⟩ :=
        installSkill_cases host w.registry w.fs content
      · rw [hwrites, hfailed]
        exact .inl rfl
      · rw [hwrites, hinto]
        exact .inr ⟨_, _, _, rfl, rfl⟩
    | installTarget skill_name content => exact .inr ⟨_, _, _, rfl, rfl⟩
    | discoverAll => cases h
    | reload => cases h
    | removeSkill name => cases h
  refine hinto.imp_right ?_
  rintro ⟨dir, skill_name, content, hwrites, hrun⟩
  obtain ⟨fs', result, hprepare, ⟨e, houtcome⟩ | ⟨found, hok, hhas, houtcome⟩⟩ :=
    installInto_cases w.registry w.fs dir skill_name content
  · refine ⟨dir, skill_name, content, fs', result, hwrites, hprepare, .inl ?_⟩
    rw [hrun, houtcome]
    rfl
  · refine ⟨dir, skill_name, content, fs', result, hwrites, hprepare,
      .inr ⟨found, hok, hhas, ?_⟩⟩
    rw [hrun, houtcome]
    rfl

/-- A removal's outcome. -/
theorem removeSkill_outcome (fs : FileTree) (r : SkillRegistry) (name : String) :
    (∃ e, r.removeSkill fs name = ((fs, r), .error e)) ∨
      ∃ path idx, r.validateRemove name = .ok path ∧
        r.removeSkill fs name =
          ((deleteSkillFiles fs path, { r with skills := r.skills.eraseIdx idx }), .ok ()) := by
  unfold SkillRegistry.removeSkill
  cases hvalid : r.validateRemove name with
  | error e => exact .inl ⟨e, rfl⟩
  | ok path =>
    right
    unfold SkillRegistry.validateRemove at hvalid
    split at hvalid
    · cases hvalid
    · rename_i skill hfind
      have hsome : (r.skills.findIdx? fun s => s.manifest.name = name).isSome = true := by
        have hname := List.find?_some hfind
        rw [List.findIdx?_isSome]
        exact List.any_eq_true.mpr ⟨skill, List.mem_of_find?_eq_some hfind, hname⟩
      obtain ⟨idx, hidx⟩ := Option.isSome_iff_exists.mp hsome
      refine ⟨path, idx, rfl, ?_⟩
      dsimp only [SkillRegistry.commitRemove]
      rw [hidx]

/-- An operation leaves the configuration alone. -/
theorem registry_run (host : SkillHost) (w : World) (op : Op) : (w.run host op).registry =
    { w.registry with skills := (w.run host op).registry.skills } := by
  have hinstall : op.installs = true → (w.run host op).registry =
      { w.registry with skills := (w.run host op).registry.skills } := by
    intro h
    obtain hsame | ⟨dir, skill_name, content, fs', result, -, -, hsame | ⟨found, -, -, hadded⟩⟩ :=
      install_cases h
    · rw [hsame]
    · rw [hsame]
    · rw [hadded]
  cases op with
  | discoverAll => rfl
  | reload => rfl
  | installSkill content => exact hinstall rfl
  | installTarget skill_name content => exact hinstall rfl
  | removeSkill name =>
    unfold run
    dsimp only
    obtain ⟨e, houtcome⟩ | ⟨path, idx, -, houtcome⟩ := removeSkill_outcome w.fs w.registry name <;>
      rw [houtcome]

/-! ### Trust -/

/-- A loaded skill says where it was found, and is trusted only in the workspace and user
directories. -/
def Located (r : SkillRegistry) (skill : LoadedSkill) : Prop :=
  match skill.source with
  | .workspace path => ∃ ws_dir, r.workspace_dir = some ws_dir ∧ ws_dir <+: path
  | .user path => r.user_dir <+: path
  | .installed _ => skill.trust = .installed
  | .bundled _ => True

theorem located_of_load {r : SkillRegistry} {fs : FileTree} {place : Place} {c : Candidate}
    {found : Found} (hplace : place ∈ r.places)
    (hc : c ∈ candidates fs r.max_scan_depth place.dir)
    (hload : place.load host fs c = some found) : Located r found.2 := by
  obtain ⟨-, htrust, hsource⟩ := Place.load_spec hload
  have hbelow := (offered_of_mem hc).below
  unfold Located
  unfold places at hplace
  rw [List.mem_append, List.mem_cons, Option.mem_toList, Option.mem_toList] at hplace
  obtain hws | rfl | hinst := hplace
  · obtain ⟨ws_dir, hsome, rfl⟩ := Option.map_eq_some_iff.mp hws
    rw [hsource]
    exact ⟨ws_dir, hsome, hbelow⟩
  · rw [hsource]
    exact hbelow
  · obtain ⟨inst_dir, -, rfl⟩ := Option.map_eq_some_iff.mp hinst
    rw [hsource]
    exact htrust

theorem located_of_discoverAll {r : SkillRegistry} {fs : FileTree}
    (hall : ∀ skill ∈ r.skills, Located r skill) :
    ∀ skill ∈ (r.discoverAll host fs).2.skills, Located r skill := by
  intro skill hskill
  obtain hold | ⟨⟨c, found⟩, hmem, rfl⟩ | ⟨entry, -, hbundled⟩ := sighting_of_discoverAll hskill
  · exact hall skill hold
  · obtain ⟨place, hplace, hc, hload⟩ := mem_sightings.mp hmem
    exact located_of_load hplace hc hload
  · unfold Located
    rw [source_of_bundledSkill hbundled]
    trivial

theorem located_run {op : Op} (hall : ∀ skill ∈ w.registry.skills, Located w.registry skill) :
    ∀ skill ∈ (w.run host op).registry.skills, Located w.registry skill := by
  have hinstall : op.installs = true →
      ∀ skill ∈ (w.run host op).registry.skills, Located w.registry skill := by
    intro h
    obtain hsame | ⟨dir, skill_name, content, fs', result, -, hprepare, hsame | hadded⟩ :=
      install_cases h
    · rw [hsame]
      exact hall
    · rw [hsame]
      exact hall
    · obtain ⟨found, rfl, -, hadded⟩ := hadded
      rw [hadded]
      intro skill hskill
      obtain hold | hnew := List.mem_append.mp hskill
      · exact hall skill hold
      · obtain rfl := List.mem_singleton.mp hnew
        obtain ⟨-, -, htrust, hsource⟩ := prepared_spec hprepare
        unfold Located
        rw [hsource]
        exact htrust
  cases op with
  | discoverAll => exact located_of_discoverAll hall
  | reload => exact located_of_discoverAll fun skill hskill => absurd hskill List.not_mem_nil
  | installSkill content => exact hinstall rfl
  | installTarget skill_name content => exact hinstall rfl
  | removeSkill name =>
    unfold run
    dsimp only
    obtain ⟨e, houtcome⟩ | ⟨path, idx, -, houtcome⟩ := removeSkill_outcome w.fs w.registry name
    · rw [houtcome]
      exact hall
    · rw [houtcome]
      exact fun skill hskill => hall skill (List.mem_of_mem_eraseIdx hskill)

/-- Where each loaded skill is, and that what installs have added lies elsewhere than the trusted
directories. -/
structure Kept (w : World) : Prop where
  located : ∀ skill ∈ w.registry.skills, Located w.registry skill
  outside : ∀ dir ∈ w.installed, Outside w.registry dir

theorem installedStays_of_kept (h : Kept w) : InstalledStays w := by
  intro skill hskill dir hdir hsource
  have hlocated := h.located skill hskill
  obtain ⟨huser, hws⟩ := h.outside dir hdir
  unfold Located at hlocated
  cases hkind : skill.source with
  | workspace path =>
    rw [hkind] at hlocated hsource
    cases hsource
    obtain ⟨ws_dir, hsome, hbelow⟩ := hlocated
    exact absurd hbelow (hws ws_dir hsome)
  | user path =>
    rw [hkind] at hlocated hsource
    cases hsource
    exact absurd hlocated huser
  | installed path =>
    rw [hkind] at hlocated
    exact hlocated
  | bundled name =>
    rw [hkind] at hsource
    cases hsource

theorem installed_run {op : Op} {dir : Path} (h : dir ∈ (w.run host op).installed) :
    dir ∈ w.installed ∨ ∃ parent skill_name content,
      op.writes host w.registry = some (parent, skill_name, content) ∧
        dir = parent ++ [skill_name] := by
  have hinstall : op.installs = true → dir ∈ w.installed ∨ ∃ parent skill_name content,
      op.writes host w.registry = some (parent, skill_name, content) ∧
        dir = parent ++ [skill_name] := by
    intro hop
    obtain hsame | ⟨parent, skill_name, content, fs', result, hwrites, -, hsame | hadded⟩ :=
      install_cases hop
    · rw [hsame] at h
      exact .inl h
    · rw [hsame] at h
      exact .inl h
    · obtain ⟨found, -, -, hadded⟩ := hadded
      rw [hadded] at h
      obtain rfl | h := List.mem_cons.mp h
      · exact .inr ⟨parent, skill_name, content, hwrites, rfl⟩
      · exact .inl h
  cases op with
  | discoverAll => exact .inl h
  | reload => exact .inl h
  | installSkill content => exact hinstall rfl
  | installTarget skill_name content => exact hinstall rfl
  | removeSkill name => exact .inl h

theorem kept_run {op : Op} (h : Kept w) (hmeets : WritesOutside host w op) :
    Kept (w.run host op) := by
  have hconfig := registry_run host w op
  refine ⟨fun skill hskill => ?_, fun dir hdir => ?_⟩
  · rw [hconfig]
    exact located_run h.located skill hskill
  · rw [hconfig]
    obtain hold | ⟨parent, skill_name, content, hwrites, rfl⟩ := installed_run hdir
    · exact h.outside dir hold
    · exact hmeets parent skill_name content hwrites

/-! ### Names -/

theorem names_loadBundledSkills {seen : List String} {bundled : List (String × String)}
    (h : ∀ entry ∈ bundled, ∀ skill, bundledSkill host entry = some skill →
      skill.manifest.name = entry.1) :
    (((loadBundledSkills host seen bundled).map Prod.snd).map (·.manifest.name)).Sublist
      (bundled.map Prod.fst) := by
  induction bundled with
  | nil => exact List.Sublist.refl _
  | cons entry rest ih =>
    have hrest := ih fun e he => h e (List.mem_cons_of_mem _ he)
    obtain ⟨key, content⟩ := entry
    have hname := h (key, content) (List.mem_cons_self ..)
    unfold bundledSkill at hname
    unfold loadBundledSkills at hrest ⊢
    rw [List.filterMap_cons]
    dsimp only at hname ⊢
    by_cases hseen : key ∈ seen
    · rw [if_pos hseen]
      exact hrest.cons key
    · rw [if_neg hseen]
      cases hload : loadFromContent host content .trusted (.bundled key) with
      | error e => exact hrest.cons key
      | ok found =>
        rw [hload] at hname
        have hkey : found.2.manifest.name = key := hname found.2 rfl
        exact hkey ▸ hrest.cons_cons found.2.manifest.name

theorem nodup_discoverAll {r : SkillRegistry} {fs : FileTree} (hnone : r.skills = [])
    (hbundled : BundledNamed host r) :
    ((r.discoverAll host fs).2.skills.map (·.manifest.name)).Nodup := by
  obtain ⟨all, hall, heq⟩ := discoverDirs_sublist host fs r
  rw [hnone] at heq
  obtain ⟨hskills, -, hseen⟩ := Discovery.absorb_spec ⟨[], [], []⟩ all
  have hname : ∀ found ∈ firsts [] all, found.2.manifest.name = found.1 := by
    intro found hfound
    have hmem := hall.subset (List.mem_of_find?_eq_some (mem_firsts.mp hfound).2)
    obtain ⟨⟨c, f⟩, hsighting, rfl⟩ := List.mem_map.mp hmem
    obtain ⟨place, -, -, hload⟩ := mem_sightings.mp hsighting
    exact (Place.load_spec hload).1.symm
  have hfirsts : ((firsts [] all).map Prod.snd).map (·.manifest.name) =
      (firsts [] all).map Prod.fst := by
    rw [List.map_map]
    exact List.map_congr_left hname
  rw [SkillRegistry.discoverAll]
  dsimp only
  rw [heq, List.map_append, hskills, List.nil_append, hfirsts, List.nodup_append]
  refine ⟨firsts_nodup _ _, hbundled.2.sublist (names_loadBundledSkills hbundled.1), ?_⟩
  rintro name hfound _ hloaded rfl
  -- a bundled skill has the name of its key, which no directory has
  obtain ⟨skill, hskill, rfl⟩ := List.mem_map.mp hloaded
  obtain ⟨entry, hentry, hbundled_skill, hnot⟩ := mem_loadBundledSkills.mp hskill
  rw [hbundled.1 entry hentry skill hbundled_skill] at hfound
  obtain ⟨found, hfound, hkey⟩ := List.mem_map.mp hfound
  refine hnot ((hseen _).mpr (.inr ?_))
  rw [← hkey]
  exact List.mem_map_of_mem (List.mem_of_find?_eq_some (mem_firsts.mp hfound).2)

theorem namesDistinct_run {op : Op} (hbundled : BundledNamed host w.registry)
    (h : NamesDistinct w) (hmeets : DiscoversAnew w op) : NamesDistinct (w.run host op) := by
  have hinstall : op.installs = true → NamesDistinct (w.run host op) := by
    intro hop
    obtain hsame | ⟨dir, skill_name, content, fs', result, -, hprepare, hsame | hadded⟩ :=
      install_cases hop
    · rw [hsame]
      exact h
    · rw [hsame]
      exact h
    · obtain ⟨found, rfl, hhas, hadded⟩ := hadded
      obtain ⟨-, hname, -, -⟩ := prepared_spec hprepare
      rw [hadded]
      unfold NamesDistinct
      rw [List.map_append, List.nodup_append]
      refine ⟨h, List.nodup_singleton _, ?_⟩
      rintro name hold _ hnew rfl
      obtain rfl := List.mem_singleton.mp hnew
      obtain ⟨skill, hskill, hsame⟩ := List.mem_map.mp hold
      have hfalse := List.any_eq_false.mp hhas skill hskill
      rw [hname] at hfalse
      exact hfalse (decide_eq_true hsame)
  cases op with
  | discoverAll => exact nodup_discoverAll (hmeets rfl) hbundled
  | reload => exact nodup_discoverAll rfl hbundled
  | installSkill content => exact hinstall rfl
  | installTarget skill_name content => exact hinstall rfl
  | removeSkill name =>
    unfold run
    dsimp only
    obtain ⟨e, houtcome⟩ | ⟨path, idx, -, houtcome⟩ := removeSkill_outcome w.fs w.registry name
    · rw [houtcome]
      exact h
    · rw [houtcome]
      exact List.Nodup.sublist ((List.eraseIdx_sublist ..).map _) h

/-! ### The first place -/

theorem sightings_sorted (host : SkillHost) (fs : FileTree) (r : SkillRegistry) :
    (r.sightings host fs).Pairwise fun a b => a.2.2.source.rank ≤ b.2.2.source.rank := by
  have hrank : ∀ place ∈ r.places, ∀ sighting ∈ place.sightings host fs r.max_scan_depth,
      sighting.2.2.source.rank = (place.make_source place.dir).rank := by
    rintro place hplace ⟨c, found⟩ hmem
    rw [(Place.load_spec (Place.mem_sightings.mp hmem).2).2.2]
    unfold places at hplace
    rw [List.mem_append, List.mem_cons, Option.mem_toList, Option.mem_toList] at hplace
    obtain hws | rfl | hinst := hplace
    · obtain ⟨dir, -, rfl⟩ := Option.map_eq_some_iff.mp hws
      rfl
    · rfl
    · obtain ⟨dir, -, rfl⟩ := Option.map_eq_some_iff.mp hinst
      rfl
  have hplaces : r.places.Pairwise fun p q =>
      (p.make_source p.dir).rank ≤ (q.make_source q.dir).rank := by
    unfold places
    cases r.workspace_dir <;> cases r.installed_dir <;> simp [SkillSource.rank]
  rw [sightings, List.pairwise_flatMap]
  refine ⟨fun place hplace => ?_, hplaces.imp_of_mem fun hp hq hle x hx y hy => ?_⟩
  · refine List.pairwise_of_forall_mem_list fun x hx y hy => ?_
    rw [hrank place hplace x hx, hrank place hplace y hy]
  · rw [hrank _ hp x hx, hrank _ hq y hy]
    exact hle

/-- What discovery loads is the first of its name. -/
theorem first_of_discovers {r : SkillRegistry} {fs : FileTree} (hbundled : BundledNamed host r)
    {skill : LoadedSkill} (h : r.Discovers host fs skill) :
    ∀ sighting ∈ r.sightings host fs, sighting.2.1 = skill.manifest.name →
      skill.source.rank ≤ sighting.2.2.source.rank := by
  intro sighting hmem hname
  obtain ⟨first, hfirst, rfl⟩ | ⟨entry, hentry, hskill, hnone⟩ := h
  · obtain ⟨place, -, -, hload⟩ := mem_sightings.mp (List.mem_of_find?_eq_some hfirst)
    rw [← (Place.load_spec hload).1] at hname
    obtain ⟨-, before, after, hsplit, hbefore⟩ := List.find?_eq_some_iff_append.mp hfirst
    have hsorted := sightings_sorted host fs r
    rw [hsplit] at hmem hsorted
    obtain hmem | hmem := List.mem_append.mp hmem
    · have := hbefore sighting hmem
      rw [decide_eq_true hname] at this
      cases this
    · obtain rfl | hmem := List.mem_cons.mp hmem
      · exact le_refl _
      · exact (List.pairwise_cons.mp (List.pairwise_append.mp hsorted).2.1).1 sighting hmem
  · rw [hbundled.1 entry hentry skill hskill] at hname
    exact absurd hname (hnone sighting hmem)

theorem firstPlace_install {op : Op} (hinstalls : op.installs = true) (h : FirstPlace host w)
    (houtside : WritesOutside host w op)
    (hnew : ∀ dir skill_name content,
      op.writes host w.registry = some (dir, skill_name, content) →
        ∀ name, contentName host content = some name → w.registry.has name = false ∧
          ∀ sighting ∈ w.registry.sightings host w.fs, sighting.2.1 = name →
            2 ≤ sighting.2.2.source.rank) :
    FirstPlace host (w.run host op) := by
  obtain hsame | ⟨dir, skill_name, content, fs', result, hwrites, hprepare, hrun⟩ :=
    install_cases hinstalls
  · rw [hsame]
    exact h
  · have hnew := hnew dir skill_name content hwrites
    -- what was loaded has not the name that is written
    have hold : ∀ skill ∈ w.registry.skills, ∀ sighting ∈ w.registry.sightings host fs',
        sighting.2.1 = skill.manifest.name → skill.source.rank ≤ sighting.2.2.source.rank := by
      rintro skill hskill ⟨c, found⟩ hmem hname
      obtain hmem | ⟨-, hcontent⟩ := sighting_of_prepareInstallToDisk hprepare hmem
      · exact h skill hskill (c, found) hmem hname
      · have hfalse := List.any_eq_false.mp (hnew found.1 hcontent).1 skill hskill
        exact absurd (decide_eq_true hname.symm) hfalse
    obtain hsame | ⟨found, rfl, -, hadded⟩ := hrun
    · rw [hsame]
      exact hold
    · rw [hadded]
      intro skill hskill
      obtain hskill | hskill := List.mem_append.mp hskill
      · exact hold skill hskill
      · obtain rfl := List.mem_singleton.mp hskill
        obtain ⟨hcontent, hfound, -, hsource⟩ := prepared_spec hprepare
        rw [hsource]
        rintro ⟨c, other⟩ hmem hname
        obtain hmem | ⟨hdir, -⟩ := sighting_of_prepareInstallToDisk hprepare hmem
        · exact (hnew found.1 hcontent).2 (c, other) hmem (hname.trans hfound.symm)
        · -- the file that was written lies in neither of the earlier places
          obtain ⟨place, hplace, hc, hload⟩ := mem_sightings.mp hmem
          have hbelow := (offered_of_mem hc).below
          obtain ⟨huser, hws⟩ := houtside dir skill_name content hwrites
          rw [hdir] at hbelow
          rw [(Place.load_spec hload).2.2]
          unfold places at hplace
          rw [List.mem_append, List.mem_cons, Option.mem_toList, Option.mem_toList] at hplace
          obtain hplace | rfl | hplace := hplace
          · obtain ⟨ws_dir, hsome, rfl⟩ := Option.map_eq_some_iff.mp hplace
            exact absurd hbelow (hws ws_dir hsome)
          · exact absurd hbelow huser
          · obtain ⟨inst_dir, -, rfl⟩ := Option.map_eq_some_iff.mp hplace
            exact le_refl _

theorem sightings_deleteSkillFiles {r : SkillRegistry} {fs : FileTree} {path : Path}
    (h : ∀ c ∈ r.offers fs, c.file ≠ path) {sighting : Candidate × Found}
    (hmem : sighting ∈ r.sightings host (deleteSkillFiles fs path)) :
    sighting ∈ r.sightings host fs := by
  unfold deleteSkillFiles at hmem
  split at hmem
  · rw [sightings_removeDirAll h] at hmem
    exact List.mem_of_mem_filter hmem
  · exact hmem

theorem firstPlace_run {op : Op} (hbundled : BundledNamed host w.registry)
    (h : FirstPlace host w) (hmeets : KeepsOrder host w op) : FirstPlace host (w.run host op) := by
  cases op with
  | discoverAll =>
    intro skill hskill
    obtain hold | hnew := (mem_discoverAll hmeets).mp hskill
    · exact h skill hold
    · exact first_of_discovers hbundled hnew
  | reload => exact fun skill hskill => first_of_discovers hbundled ((mem_reload hmeets).mp hskill)
  | installSkill content => exact firstPlace_install rfl h hmeets.1 hmeets.2
  | installTarget skill_name content => exact firstPlace_install rfl h hmeets.1 hmeets.2
  | removeSkill name =>
    unfold run
    dsimp only
    obtain ⟨e, houtcome⟩ | ⟨path, idx, hvalid, houtcome⟩ :=
      removeSkill_outcome w.fs w.registry name
    · rw [houtcome]
      exact h
    · rw [houtcome]
      intro skill hskill sighting hmem
      exact h skill (List.mem_of_mem_eraseIdx hskill) sighting
        (sightings_deleteSkillFiles (hmeets path hvalid) hmem)

/-! ### Runs -/

variable {w₀ : World}

theorem kept_of_run (h : Run host (WritesOutside host) w₀ w) (h₀ : Kept w₀) : Kept w := by
  induction h with
  | start => exact h₀
  | step op _ hmeets ih => exact kept_run ih hmeets

theorem bundledNamed_run (op : Op) (h : BundledNamed host w.registry) :
    BundledNamed host (w.run host op).registry := by
  rw [registry_run]
  exact h

theorem namesDistinct_of_run (h : Run host DiscoversAnew w₀ w)
    (hbundled : BundledNamed host w₀.registry) (h₀ : NamesDistinct w₀) :
    BundledNamed host w.registry ∧ NamesDistinct w := by
  induction h with
  | start => exact ⟨hbundled, h₀⟩
  | step op _ hmeets ih => exact ⟨bundledNamed_run op ih.1, namesDistinct_run ih.1 ih.2 hmeets⟩

theorem firstPlace_of_run (h : Run host (KeepsOrder host) w₀ w)
    (hbundled : BundledNamed host w₀.registry) (h₀ : FirstPlace host w₀) :
    BundledNamed host w.registry ∧ FirstPlace host w := by
  induction h with
  | start => exact ⟨hbundled, h₀⟩
  | step op _ hmeets ih => exact ⟨bundledNamed_run op ih.1, firstPlace_run ih.1 ih.2 hmeets⟩

/-- **Trust, names and places over whole runs.** From an empty registry over any tree: where
installs write outside the workspace and user directories, what they added stays untrusted; where
`discover_all` starts from an empty registry, names are distinct; and with the order kept by each
operation, every skill comes from the first place that has its name. -/
theorem trust_of_runs (hempty : w₀.registry.skills = []) (hnone : w₀.installed = []) :
    (Run host (WritesOutside host) w₀ w → InstalledStays w) ∧
      (BundledNamed host w₀.registry → Run host DiscoversAnew w₀ w → NamesDistinct w) ∧
      (BundledNamed host w₀.registry → Run host (KeepsOrder host) w₀ w → FirstPlace host w) := by
  refine ⟨fun hrun => ?_, fun hbundled hrun => ?_, fun hbundled hrun => ?_⟩
  · refine installedStays_of_kept (kept_of_run hrun ⟨?_, ?_⟩)
    · rw [hempty]
      exact fun skill hskill => absurd hskill List.not_mem_nil
    · rw [hnone]
      exact fun dir hdir => absurd hdir List.not_mem_nil
  · refine (namesDistinct_of_run hrun hbundled ?_).2
    unfold NamesDistinct
    rw [hempty]
    exact List.nodup_nil
  · refine (firstPlace_of_run hrun hbundled ?_).2
    unfold FirstPlace
    rw [hempty]
    exact fun skill hskill => absurd hskill List.not_mem_nil

/-- An empty registry with a user and an installed directory, over an empty tree. -/
def freshWorld (bundled : List (String × String)) : World where
  fs := ⟨⟨[⟨[], .dir⟩], by decide⟩, by decide⟩
  registry := ⟨[], ["s"], some ["i"], none, bundled, DEFAULT_MAX_SCAN_DEPTH⟩
  installed := []

/-- A skill's text. -/
def skillText (name : String) : List Char :=
  "---\nname: ".toList ++ name.toList ++ "\n---\nDo.\n".toList

/-- An install through the tools, and a reload. -/
theorem trust_of_install_and_reload :
    let w := ((freshWorld []).run nameOnlyHost (.installTarget "a" (skillText "a"))).run
      nameOnlyHost .reload
    w.registry.skills.map (·.trust) = [.installed] ∧ w.installed = [["i", "a"]] ∧
      InstalledStays w ∧ NamesDistinct w ∧ FirstPlace nameOnlyHost w := by
  intro w
  obtain ⟨htrust, hnames, hplace⟩ :=
    @trust_of_runs nameOnlyHost w (freshWorld []) rfl rfl
  have houtside : WritesOutside nameOnlyHost (freshWorld [])
      (.installTarget "a" (skillText "a")) := by
    intro dir skill_name content h
    cases h
    exact ⟨by decide, fun ws_dir hws => nomatch hws⟩
  have hnothing : (freshWorld []).registry.sightings nameOnlyHost (freshWorld []).fs = [] := by
    decide +kernel
  have hbundled : BundledNamed nameOnlyHost (freshWorld []).registry :=
    ⟨fun entry hentry => absurd hentry List.not_mem_nil, List.nodup_nil⟩
  refine ⟨by decide +kernel, by decide +kernel,
    htrust (.step _ (.step _ .start houtside) ?_),
    hnames hbundled (.step _ (.step _ .start ?_) ?_),
    hplace hbundled (.step _ (.step _ .start ⟨houtside, ?_⟩) ?_)⟩
  · intro dir skill_name content h
    cases h
  · intro h
    cases h
  · intro h
    cases h
  · intro dir skill_name content h name hname
    cases h
    exact ⟨rfl, fun sighting hmem => absurd (hnothing ▸ hmem) List.not_mem_nil⟩
  · show SkillRegistry.WithinCap _ _ _
    decide +kernel

/-- What `install_skill` added is trusted after a reload; discovering twice loads a skill twice;
and a skill bundled under another's key is loaded beside the one of its name. -/
theorem installed_gains_trust :
    ¬InstalledStays (((freshWorld []).run nameOnlyHost (.installSkill (skillText "a"))).run
        nameOnlyHost .reload) ∧
      ¬NamesDistinct ((((freshWorld []).run nameOnlyHost (.installTarget "a" (skillText "a"))).run
        nameOnlyHost .reload).run nameOnlyHost .discoverAll) ∧
      ¬FirstPlace nameOnlyHost (((freshWorld [("b", String.ofList (skillText "a"))]).run
        nameOnlyHost (.installTarget "a" (skillText "a"))).run nameOnlyHost .reload) := by
  unfold InstalledStays NamesDistinct FirstPlace
  decide +kernel

end World

end T3Claw.Skills
