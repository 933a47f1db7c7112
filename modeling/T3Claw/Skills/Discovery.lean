import T3Claw.Skills.Registry

/-!
# What discovery finds

A scan takes entries up to a cap that its own finds use up. Without the cap it is the list of the
skill files a directory offers (`candidates`), each loaded on its own: a capped scan finds a
sublist of these (`discoverFromDir_sublist`), and all of them when it does not come to its cap
(`discoverFromDir_eq`). What `absorb` keeps of such a list is the first of each name.
-/

namespace T3Claw.Skills

/-- A skill file a scan comes to, by what it records as the source: the skill's own directory,
or, for a flat one, the directory that is scanned. -/
structure Candidate where
  source_dir : Path
  flat : Bool
  deriving DecidableEq

/-- The skill file. -/
def Candidate.file (c : Candidate) : Path := c.source_dir ++ [SKILL_MD]

theorem Candidate.source_dir_isPrefix (c : Candidate) : c.source_dir <+: c.file :=
  List.prefix_append _ _

/-! ### The candidates of a directory -/

section

variable (fs : FileTree)

/-- What one entry of `dir` offers. -/
def entryCandidates (nested : Option (Path → List Candidate)) (dir : Path) (entry : Entry) :
    List Candidate :=
  match entry.kind with
  | .symlink _ => []
  | .dir =>
    if fs.tryExists (entry.path ++ [SKILL_MD]) then [⟨entry.path, false⟩]
    else
      match nested with
      | some scan => scan entry.path
      | none => []
  | .file _ => if entry.path.getLast? = some SKILL_MD then [⟨dir, true⟩] else []

/-- What the scan of a directory offers, with the levels that may still be descended. -/
def candidates : ℕ → Path → List Candidate
  | 0, dir => ((fs.readDir dir).getD []).flatMap (entryCandidates fs none dir)
  | depth + 1, dir =>
    ((fs.readDir dir).getD []).flatMap (entryCandidates fs (some (candidates depth)) dir)

end

/-- A directory that is scanned, and how. -/
structure Place where
  trust : SkillTrust
  make_source : Path → SkillSource
  dir : Path

/-- A candidate's skill, if it loads. -/
def Place.load (host : SkillHost) (fs : FileTree) (place : Place) (c : Candidate) :
    Option Found :=
  (loadAndValidateSkill host fs c.file place.trust (place.make_source c.source_dir)).toOption

/-- The name a skill is found under is that of its manifest. -/
theorem buildLoadedSkill_spec {host : SkillHost} {content : List Char} {label : String}
    {trust : SkillTrust} {source : SkillSource} {found : Found}
    (h : buildLoadedSkill host content label trust source = .ok found) :
    found.1 = found.2.manifest.name ∧ found.2.trust = trust ∧ found.2.source = source := by
  unfold buildLoadedSkill at h
  split at h
  · cases h
  · dsimp only at h
    split at h
    · cases h
    · split at h
      · cases h
      · cases h
        exact ⟨rfl, rfl, rfl⟩

theorem loadAndValidateSkill_spec {host : SkillHost} {fs : FileTree} {path : Path}
    {trust : SkillTrust} {source : SkillSource} {found : Found}
    (h : loadAndValidateSkill host fs path trust source = .ok found) :
    found.1 = found.2.manifest.name ∧ found.2.trust = trust ∧ found.2.source = source := by
  unfold loadAndValidateSkill at h
  split at h
  · cases h
  · cases h
  · cases h
  · split at h
    · cases h
    · split at h
      · cases h
      · exact buildLoadedSkill_spec h

theorem loadFromContent_spec {host : SkillHost} {content : String} {trust : SkillTrust}
    {source : SkillSource} {found : Found}
    (h : loadFromContent host content trust source = .ok found) :
    found.1 = found.2.manifest.name ∧ found.2.trust = trust ∧ found.2.source = source := by
  unfold loadFromContent at h
  split at h
  · cases h
  · exact buildLoadedSkill_spec h

/-! ### A capped scan -/

section

variable (host : SkillHost) (fs : FileTree) (place : Place)

/-- What one entry adds to the count of a scan, and to its finds. -/
def entryScan (nested : Option (Path → ℕ → List Found)) (dir : Path) (cap : ℕ) (entry : Entry) :
    ℕ × List Found :=
  match entry.kind with
  | .symlink _ => (0, [])
  | .dir =>
    if fs.tryExists (entry.path ++ [SKILL_MD]) then
      (1, (place.load host fs ⟨entry.path, false⟩).toList)
    else
      match nested with
      | some scan => ((scan entry.path cap).length, scan entry.path cap)
      | none => (0, [])
  | .file _ =>
    if entry.path.getLast? = some SKILL_MD then (1, (place.load host fs ⟨dir, true⟩).toList)
    else (0, [])

end

section

variable {host : SkillHost} {fs : FileTree} {place : Place}
  {nested : Option (Path → ℕ → List Found)} {dir : Path}

/-- The entries in turn. -/
theorem scanEntries_cons (cap count : ℕ) {entry : Entry} (rest : List Entry)
    (hflat : entry.path.dropLast = dir) :
    scanEntries host fs place.trust place.make_source nested dir cap count (entry :: rest) =
      if cap ≤ count then []
      else
        (entryScan host fs place nested dir (cap - count) entry).2 ++
          scanEntries host fs place.trust place.make_source nested dir cap
            (count + (entryScan host fs place nested dir (cap - count) entry).1) rest := by
  rw [scanEntries.eq_def]
  dsimp only
  refine if_congr Iff.rfl rfl ?_
  have hload : ∀ c : Candidate, place.load host fs c =
    (loadAndValidateSkill host fs c.file place.trust (place.make_source c.source_dir)).toOption :=
    fun _ => rfl
  unfold entryScan
  cases entry.kind with
  | symlink resolves => rfl
  | dir =>
    dsimp only
    by_cases hexists : fs.tryExists (entry.path ++ [SKILL_MD]) = true
    · rw [if_pos hexists, if_pos hexists, hload, Candidate.file]
      dsimp only
      cases loadAndValidateSkill host fs (entry.path ++ [SKILL_MD]) place.trust
        (place.make_source entry.path) <;> rfl
    · rw [if_neg hexists, if_neg hexists]
      cases nested <;> rfl
  | file contents =>
    dsimp only
    by_cases hname : entry.path.getLast? = some SKILL_MD
    · have hfile : dir ++ [SKILL_MD] = entry.path := by
        rw [← hflat]
        exact List.dropLast_append_getLast? _ hname
      rw [if_pos hname, if_pos hname, hload, Candidate.file]
      dsimp only
      rw [hfile]
      cases loadAndValidateSkill host fs entry.path place.trust (place.make_source dir) <;> rfl
    · rw [if_neg hname, if_neg hname]
      rfl

/-- The scan of a nested directory finds some of what that directory offers. -/
def Scans (host : SkillHost) (fs : FileTree) (place : Place) :
    Option (Path → ℕ → List Found) → Option (Path → List Candidate) → Prop :=
  Option.Rel fun scan offers => ∀ dir cap,
    (scan dir cap).Sublist ((offers dir).filterMap (place.load host fs))

theorem entryScan_sublist {offers : Option (Path → List Candidate)}
    (h : Scans host fs place nested offers) (cap : ℕ) (entry : Entry) :
    (entryScan host fs place nested dir cap entry).2.Sublist
      ((entryCandidates fs offers dir entry).filterMap (place.load host fs)) := by
  unfold entryScan entryCandidates
  cases entry.kind with
  | symlink resolves => exact List.Sublist.refl _
  | dir =>
    dsimp only
    split
    · cases hload : place.load host fs ⟨entry.path, false⟩ <;> simp [hload]
    · cases h with
      | none => exact List.Sublist.refl _
      | some h => exact h entry.path cap
  | file contents =>
    dsimp only
    split
    · cases hload : place.load host fs ⟨dir, true⟩ <;> simp [hload]
    · exact List.Sublist.refl _

/-- The entries of `dir`. -/
def Below (dir : Path) (entries : List Entry) : Prop :=
  ∀ entry ∈ entries, entry.path.dropLast = dir

theorem scanEntries_sublist {offers : Option (Path → List Candidate)}
    (h : Scans host fs place nested offers) (cap count : ℕ) {entries : List Entry} (hbelow : Below dir entries) :
    (scanEntries host fs place.trust place.make_source nested dir cap count entries).Sublist
      ((entries.flatMap (entryCandidates fs offers dir)).filterMap (place.load host fs)) := by
  induction entries generalizing count with
  | nil => rw [scanEntries.eq_def]; exact List.nil_sublist _
  | cons entry rest ih =>
    rw [scanEntries_cons cap count rest (hbelow entry (List.mem_cons_self ..)),
      List.flatMap_cons, List.filterMap_append]
    split
    · exact List.nil_sublist _
    · exact (entryScan_sublist h _ entry).append
        (ih _ fun e he => hbelow e (List.mem_cons_of_mem _ he))

theorem below_readDir {entries : List Entry} (h : fs.readDir dir = some entries) :
    Below dir entries := by
  obtain ⟨-, rfl⟩ := FileTree.readDir_eq_some h
  exact fun entry hentry => (FileTree.mem_children.mp hentry).2.2

/-- A scan finds candidates that load, in their order. -/
theorem discoverFromDir_sublist (depth : ℕ) (dir : Path) (cap : ℕ) :
    (discoverFromDir host fs place.trust place.make_source depth dir cap).Sublist
      ((candidates fs depth dir).filterMap (place.load host fs)) := by
  induction depth generalizing dir cap with
  | zero =>
    rw [discoverFromDir, candidates]
    split
    · exact List.nil_sublist _
    · rename_i entries hread
      rw [hread]
      exact scanEntries_sublist .none cap 0 (below_readDir hread)
  | succ depth ih =>
    rw [discoverFromDir, candidates]
    split
    · exact List.nil_sublist _
    · rename_i entries hread
      rw [hread]
      exact scanEntries_sublist (.some ih) cap 0 (below_readDir hread)

end

/-! ### A scan that does not come to its cap -/

section

variable (host : SkillHost) (fs : FileTree) (place : Place)

/-- What one entry adds to the count of a scan: a skill file counts whether it loads or not, and a
bundle directory as the skills that were found in it. -/
def entryCount (nested : Option (Path → List Candidate)) (entry : Entry) : ℕ :=
  match entry.kind with
  | .symlink _ => 0
  | .dir =>
    if fs.tryExists (entry.path ++ [SKILL_MD]) then 1
    else
      match nested with
      | some offers => ((offers entry.path).filterMap (place.load host fs)).length
      | none => 0
  | .file _ => if entry.path.getLast? = some SKILL_MD then 1 else 0

/-- The cap that is needed for one entry. -/
def entryNeed (nested : Option (Path → ℕ)) (entry : Entry) : ℕ :=
  match entry.kind with
  | .symlink _ => 0
  | .dir =>
    if fs.tryExists (entry.path ++ [SKILL_MD]) then 1
    else
      match nested with
      | some need => need entry.path
      | none => 0
  | .file _ => if entry.path.getLast? = some SKILL_MD then 1 else 0

/-- The cap that is needed for entries in turn. -/
def entriesNeed (need count : Entry → ℕ) : List Entry → ℕ
  | [] => 0
  | entry :: rest => max (need entry) (count entry + entriesNeed need count rest)

/-- The least cap that the scan of a directory does not come to. -/
def capNeeded : ℕ → Path → ℕ
  | 0, dir =>
    entriesNeed (entryNeed fs none) (entryCount host fs place none) ((fs.readDir dir).getD [])
  | depth + 1, dir =>
    entriesNeed (entryNeed fs (some (capNeeded depth)))
      (entryCount host fs place (some (candidates fs depth))) ((fs.readDir dir).getD [])

/-- The caps that its nested scans need. -/
def deeperNeed : ℕ → Option (Path → ℕ)
  | 0 => none
  | depth + 1 => some (capNeeded host fs place depth)

/-- A scan against what its directory offers and the cap that it needs: without a cap there is
nothing to find, and with one all is found. -/
structure Finds (all : Path → List Found) (need : Path → ℕ) (scan : Path → ℕ → List Found) :
    Prop where
  nothing : ∀ dir, need dir = 0 → all dir = []
  everything : ∀ dir cap, need dir ≤ cap → scan dir cap = all dir

end

section

variable {host : SkillHost} {fs : FileTree} {place : Place} {dir : Path}

/-- The nested scans of an entry find all there is. -/
inductive FindsNested (host : SkillHost) (fs : FileTree) (place : Place) :
    Option (Path → List Candidate) → Option (Path → ℕ) → Option (Path → ℕ → List Found) → Prop
  | none : FindsNested host fs place none none none
  | some {offers : Path → List Candidate} {need : Path → ℕ} {scan : Path → ℕ → List Found} :
    Finds (fun dir => (offers dir).filterMap (place.load host fs)) need scan →
      FindsNested host fs place (some offers) (some need) (some scan)

variable {offers : Option (Path → List Candidate)} {need : Option (Path → ℕ)}
  {nested : Option (Path → ℕ → List Found)}

theorem entryCandidates_of_need (h : FindsNested host fs place offers need nested)
    {entry : Entry} (hneed : entryNeed fs need entry = 0) :
    (entryCandidates fs offers dir entry).filterMap (place.load host fs) = [] := by
  unfold entryNeed at hneed
  unfold entryCandidates
  cases hkind : entry.kind with
  | symlink resolves => rfl
  | dir =>
    rw [hkind] at hneed
    dsimp only at hneed ⊢
    split
    · rename_i hexists
      rw [if_pos hexists] at hneed
      cases hneed
    · rename_i hexists
      rw [if_neg hexists] at hneed
      cases h with
      | none => rfl
      | some h => exact h.nothing entry.path hneed
  | file contents =>
    rw [hkind] at hneed
    dsimp only at hneed ⊢
    split
    · rename_i hname
      rw [if_pos hname] at hneed
      cases hneed
    · rfl

/-- An entry for which the cap is enough adds all it offers. -/
theorem entryScan_eq (h : FindsNested host fs place offers need nested) {cap : ℕ} {entry : Entry}
    (hcap : entryNeed fs need entry ≤ cap) :
    entryScan host fs place nested dir cap entry =
      (entryCount host fs place offers entry,
        (entryCandidates fs offers dir entry).filterMap (place.load host fs)) := by
  unfold entryNeed at hcap
  unfold entryScan entryCount entryCandidates
  cases hkind : entry.kind with
  | symlink resolves => rfl
  | dir =>
    rw [hkind] at hcap
    dsimp only at hcap ⊢
    split
    · cases hload : place.load host fs ⟨entry.path, false⟩ <;> simp [hload]
    · rename_i hexists
      rw [if_neg hexists] at hcap
      cases h with
      | none => rfl
      | some h =>
        dsimp only at hcap ⊢
        rw [h.everything entry.path cap hcap]
  | file contents =>
    dsimp only
    split
    · cases hload : place.load host fs ⟨dir, true⟩ <;> simp [hload]
    · rfl

theorem entries_of_need (h : FindsNested host fs place offers need nested) {entries : List Entry}
    (hneed : entriesNeed (entryNeed fs need) (entryCount host fs place offers) entries = 0) :
    (entries.flatMap (entryCandidates fs offers dir)).filterMap (place.load host fs) = [] := by
  induction entries with
  | nil => rfl
  | cons entry rest ih =>
    rw [entriesNeed, Nat.max_eq_zero_iff] at hneed
    rw [List.flatMap_cons, List.filterMap_append, entryCandidates_of_need h hneed.1,
      ih (Nat.add_eq_zero_iff.mp hneed.2).2, List.append_nil]

theorem scanEntries_eq (h : FindsNested host fs place offers need nested) {cap count : ℕ}
    {entries : List Entry} (hbelow : Below dir entries)
    (hcap : count + entriesNeed (entryNeed fs need) (entryCount host fs place offers) entries ≤
      cap) :
    scanEntries host fs place.trust place.make_source nested dir cap count entries =
      (entries.flatMap (entryCandidates fs offers dir)).filterMap (place.load host fs) := by
  induction entries generalizing count with
  | nil => rw [scanEntries.eq_def]; rfl
  | cons entry rest ih =>
    have hneed := hcap
    rw [entriesNeed] at hneed
    rw [scanEntries_cons cap count rest (hbelow entry (List.mem_cons_self ..))]
    split
    · -- nothing is left to be found
      exact (entries_of_need h (by omega)).symm
    · rw [entryScan_eq h (show entryNeed fs need entry ≤ cap - count by omega), List.flatMap_cons,
        List.filterMap_append, ih (fun e he => hbelow e (List.mem_cons_of_mem _ he)) (by omega)]

/-- A scan that does not come to its cap finds every candidate that loads. -/
theorem finds_discoverFromDir (depth : ℕ) :
    Finds (fun dir => (candidates fs depth dir).filterMap (place.load host fs))
      (capNeeded host fs place depth)
      (discoverFromDir host fs place.trust place.make_source depth) := by
  induction depth with
  | zero =>
    refine ⟨fun dir hneed => entries_of_need .none hneed, fun dir cap hcap => ?_⟩
    rw [capNeeded] at hcap
    rw [discoverFromDir, candidates]
    cases hread : fs.readDir dir with
    | none => rfl
    | some entries =>
      rw [hread] at hcap
      exact scanEntries_eq .none (below_readDir hread) ((Nat.zero_add _).trans_le hcap)
  | succ depth ih =>
    refine ⟨fun dir hneed => entries_of_need (.some ih) hneed, fun dir cap hcap => ?_⟩
    rw [capNeeded] at hcap
    rw [discoverFromDir, candidates]
    cases hread : fs.readDir dir with
    | none => rfl
    | some entries =>
      rw [hread] at hcap
      exact scanEntries_eq (.some ih) (below_readDir hread) ((Nat.zero_add _).trans_le hcap)

end

section

variable {fs : FileTree}

/-! ### Where candidates lie -/

/-- What a scan descends with. -/
def deeper (fs : FileTree) : ℕ → Option (Path → List Candidate)
  | 0 => none
  | depth + 1 => some (candidates fs depth)

theorem candidates_eq (depth : ℕ) (dir : Path) :
    candidates fs depth dir =
      ((fs.readDir dir).getD []).flatMap (entryCandidates fs (deeper fs depth) dir) := by
  cases depth <;> rfl

/-- The three layouts: a directory with a skill file, one without that is descended, a skill
file by itself. -/
theorem mem_entryCandidates {nested : Option (Path → List Candidate)} {dir : Path}
    {entry : Entry} {c : Candidate} :
    c ∈ entryCandidates fs nested dir entry ↔
      (entry.kind = .dir ∧ fs.tryExists (entry.path ++ [SKILL_MD]) = true ∧
          c = ⟨entry.path, false⟩) ∨
        (entry.kind = .dir ∧ fs.tryExists (entry.path ++ [SKILL_MD]) = false ∧
          ∃ scan, nested = some scan ∧ c ∈ scan entry.path) ∨
        entry.kind.isFile = true ∧ entry.path.getLast? = some SKILL_MD ∧ c = ⟨dir, true⟩ := by
  unfold entryCandidates
  cases hkind : entry.kind with
  | symlink resolves => simp [EntryKind.isFile]
  | dir =>
    cases hexists : fs.tryExists (entry.path ++ [SKILL_MD]) with
    | true => simp [EntryKind.isFile]
    | false => cases nested <;> simp [EntryKind.isFile]
  | file contents =>
    by_cases hname : entry.path.getLast? = some SKILL_MD
    · simp [EntryKind.isFile, hname]
    · simp [EntryKind.isFile, hname]

/-- The file of a flat skill. -/
theorem file_of_flat {dir : Path} {entry : Entry} (hdir : entry.path.dropLast = dir)
    (hname : entry.path.getLast? = some SKILL_MD) :
    (⟨dir, true⟩ : Candidate).file = entry.path := by
  rw [Candidate.file, ← hdir]
  exact List.dropLast_append_getLast? _ hname

/-- What a candidate is: a skill file there is, in a directory below the one that is scanned. -/
structure Offered (fs : FileTree) (dir : Path) (c : Candidate) : Prop where
  below : dir <+: c.source_dir
  is_dir : fs.get? c.source_dir = some ⟨c.source_dir, .dir⟩
  exists_file : fs.tryExists c.file = true

theorem offered_of_mem {depth : ℕ} {dir : Path} {c : Candidate}
    (h : c ∈ candidates fs depth dir) : Offered fs dir c := by
  induction depth using Nat.strong_induction_on generalizing dir with
  | h depth ih =>
    rw [candidates_eq] at h
    obtain ⟨entry, hentry, h⟩ := List.mem_flatMap.mp h
    cases hread : fs.readDir dir with
    | none =>
      rw [hread] at hentry
      cases hentry
    | some entries =>
      rw [hread] at hentry
      obtain ⟨hget, rfl⟩ := FileTree.readDir_eq_some hread
      obtain ⟨hmem, hne, hdir⟩ := FileTree.mem_children.mp hentry
      have hbelow : dir <+: entry.path := hdir ▸ List.dropLast_prefix _
      obtain ⟨hkind, hexists, rfl⟩ | ⟨-, -, scan, hscan, hc⟩ | ⟨hkind, hname, rfl⟩ :=
        mem_entryCandidates.mp h
      · refine ⟨hbelow, ?_, hexists⟩
        rw [FileTree.get?_path hmem, ← hkind]
      · cases depth with
        | zero => cases hscan
        | succ depth =>
          cases hscan
          have hoffered := ih depth (Nat.lt_succ_self _) hc
          exact ⟨hbelow.trans hoffered.below, hoffered.is_dir, hoffered.exists_file⟩
      · refine ⟨List.prefix_refl _, hget, ?_⟩
        rw [file_of_flat hdir hname, FileTree.tryExists, FileTree.get?_path hmem]
        obtain ⟨path, kind⟩ := entry
        cases kind with
        | file contents => rfl
        | dir => cases hkind
        | symlink resolves => cases hkind

theorem capNeeded_eq {host : SkillHost} {place : Place} (depth : ℕ) (dir : Path) :
    capNeeded host fs place depth dir =
      entriesNeed (entryNeed fs (deeperNeed host fs place depth))
        (entryCount host fs place (deeper fs depth)) ((fs.readDir dir).getD []) := by
  cases depth <;> rfl

/-! ### Candidates when a directory goes -/

theorem tryExists_removeDirAll (path q : Path) :
    (fs.removeDirAll path).tryExists q = if path <+: q then false else fs.tryExists q := by
  rw [FileTree.tryExists, FileTree.get?_removeDirAll]
  by_cases h : path <+: q
  · rw [if_pos h, if_pos h]
  · rw [if_neg h, if_neg h]
    rfl

theorem readDir_removeDirAll (path dir : Path) :
    (fs.removeDirAll path).readDir dir =
      if path <+: dir then none
      else (fs.readDir dir).map (List.filter fun entry => ¬path <+: entry.path) := by
  rw [FileTree.readDir, FileTree.get?_removeDirAll, FileTree.children_removeDirAll]
  by_cases h : path <+: dir
  · rw [if_pos h, if_pos h]
  · rw [if_neg h, if_neg h, FileTree.readDir]
    split <;> rfl

/-- One entry that is left. -/
theorem entryCandidates_removeDirAll {path : Path} {nested nested' : Option (Path → List Candidate)}
    {dir : Path} {entry : Entry} (hdir : entry.path.dropLast = dir)
    (hleft : ¬path <+: entry.path)
    (hfile : ∀ c ∈ entryCandidates fs nested dir entry, c.file ≠ path)
    (hnested : Option.Rel (fun scan' scan => (∀ c ∈ scan entry.path, c.file ≠ path) →
      scan' entry.path = (scan entry.path).filter fun c => ¬path <+: c.file)
      nested' nested) :
    entryCandidates (fs.removeDirAll path) nested' dir entry =
      (entryCandidates fs nested dir entry).filter fun c => ¬path <+: c.file := by
  unfold entryCandidates at hfile ⊢
  cases hkind : entry.kind with
  | symlink resolves => rfl
  | dir =>
    rw [hkind] at hfile
    dsimp only at hfile ⊢
    rw [tryExists_removeDirAll]
    by_cases hexists : fs.tryExists (entry.path ++ [SKILL_MD]) = true
    · rw [if_pos hexists] at hfile ⊢
      have hne : entry.path ++ [SKILL_MD] ≠ path := hfile _ (List.mem_singleton_self _)
      -- a directory that is not removed loses its skill file only when that is what is removed
      have hfree : ¬path <+: entry.path ++ [SKILL_MD] := by
        rw [List.prefix_concat_iff, not_or]
        exact ⟨fun h => hne h.symm, hleft⟩
      rw [if_neg hfree, if_pos hexists, List.filter_singleton]
      simp [Candidate.file, hfree]
    · rw [if_neg hexists] at hfile ⊢
      have hgone : (if path <+: entry.path ++ [SKILL_MD] then false
          else fs.tryExists (entry.path ++ [SKILL_MD])) ≠ true := by
        split
        · exact Bool.false_ne_true
        · exact hexists
      rw [if_neg hgone]
      cases hnested with
      | none => rfl
      | some hnested => exact hnested hfile
  | file contents =>
    rw [hkind] at hfile
    dsimp only at hfile ⊢
    split
    · rename_i hname
      have hpath : dir ++ [SKILL_MD] = entry.path :=
        hdir ▸ List.dropLast_append_getLast? _ hname
      rw [List.filter_singleton, Candidate.file, hpath]
      simp [hleft]
    · rfl

/-- What an entry offers lies below it. -/
theorem entry_prefix_of_mem {depth : ℕ} {dir : Path} {entry : Entry} {c : Candidate}
    (hdir : entry.path.dropLast = dir) (h : c ∈ entryCandidates fs (deeper fs depth) dir entry) :
    entry.path <+: c.file := by
  obtain ⟨-, -, rfl⟩ | ⟨-, -, scan, hscan, hc⟩ | ⟨-, hname, rfl⟩ := mem_entryCandidates.mp h
  · exact Candidate.source_dir_isPrefix ⟨entry.path, false⟩
  · cases depth with
    | zero => cases hscan
    | succ depth =>
      cases hscan
      exact (offered_of_mem hc).below.trans c.source_dir_isPrefix
  · rw [file_of_flat hdir hname]

theorem flatMap_filter_eq {α β : Type*} {l : List α} {p : α → Bool} {f g : α → List β}
    (hkeep : ∀ a ∈ l, p a = true → f a = g a) (hdrop : ∀ a ∈ l, p a = false → g a = []) :
    (l.filter p).flatMap f = l.flatMap g := by
  induction l with
  | nil => rfl
  | cons a l ih =>
    have hrest := ih (fun b hb => hkeep b (List.mem_cons_of_mem _ hb))
      fun b hb => hdrop b (List.mem_cons_of_mem _ hb)
    rw [List.flatMap_cons, List.filter_cons]
    split
    · rename_i ha
      rw [List.flatMap_cons, hkeep a (List.mem_cons_self ..) ha, hrest]
    · rename_i ha
      rw [hdrop a (List.mem_cons_self ..) (by simpa using ha), List.nil_append, hrest]

/-- Removing a directory takes away the candidates below it, unless it is what makes another
directory a skill's own. -/
theorem candidates_removeDirAll {path : Path} {depth : ℕ} {dir : Path}
    (h : ∀ c ∈ candidates fs depth dir, c.file ≠ path) :
    candidates (fs.removeDirAll path) depth dir =
      (candidates fs depth dir).filter fun c => ¬path <+: c.file := by
  by_cases hdir : path <+: dir
  · rw [candidates_eq, readDir_removeDirAll, if_pos hdir]
    refine (List.filter_eq_nil_iff.mpr fun c hc => ?_).symm
    have := (hdir.trans (offered_of_mem hc).below).trans c.source_dir_isPrefix
    simpa using this
  · induction depth using Nat.strong_induction_on generalizing dir with
    | h depth ih =>
      rw [candidates_eq] at h ⊢
      rw [candidates_eq, readDir_removeDirAll, if_neg hdir]
      cases hread : fs.readDir dir with
      | none => rfl
      | some entries =>
        rw [hread] at h
        obtain ⟨-, rfl⟩ := FileTree.readDir_eq_some hread
        rw [Option.map_some, Option.getD_some, Option.getD_some, List.filter_flatMap]
        rw [Option.getD_some] at h
        refine flatMap_filter_eq (fun entry hentry hleft => ?_) fun entry hentry hgone => ?_
        · have hleft : ¬path <+: entry.path := of_decide_eq_true hleft
          refine entryCandidates_removeDirAll (FileTree.mem_children.mp hentry).2.2 hleft
            (fun c hc => h c (List.mem_flatMap_of_mem hentry hc)) ?_
          cases depth with
          | zero => exact .none
          | succ depth => exact .some fun hscan => ih depth (Nat.lt_succ_self _) hscan hleft
        · refine List.filter_eq_nil_iff.mpr fun c hc => ?_
          have hgone : path <+: entry.path := by simpa using hgone
          have hbelow := entry_prefix_of_mem (FileTree.mem_children.mp hentry).2.2 hc
          simpa using hgone.trans hbelow

end

/-! ### The first of each name -/

/-- The first of each name that has not been seen. -/
def firsts : List String → List Found → List Found
  | _, [] => []
  | seen, found :: rest =>
    if found.1 ∈ seen then firsts seen rest else found :: firsts (found.1 :: seen) rest

theorem mem_firsts {seen : List String} {all : List Found} {found : Found} :
    found ∈ firsts seen all ↔
      found.1 ∉ seen ∧ (all.find? fun f => f.1 = found.1) = some found := by
  induction all generalizing seen with
  | nil => simp [firsts]
  | cons f rest ih =>
    rw [firsts, List.find?_cons]
    by_cases hname : f.1 = found.1
    · simp only [hname, decide_true]
      split
      · rename_i hseen
        rw [ih]
        exact ⟨fun h => absurd hseen h.1, fun h => absurd hseen h.1⟩
      · rename_i hseen
        rw [List.mem_cons, ih]
        constructor
        · rintro (rfl | h)
          · exact ⟨hseen, rfl⟩
          · exact absurd (hname ▸ List.mem_cons_self ..) h.1
        · exact fun h => .inl (Option.some.inj h.2).symm
    · have hne : found ≠ f := fun h => hname (h ▸ rfl)
      simp only [hname, decide_false]
      split
      · exact ih
      · rw [List.mem_cons, ih, List.mem_cons, not_or]
        exact ⟨fun h => h.elim (fun h => absurd h hne) fun h => ⟨h.1.2, h.2⟩,
          fun h => .inr ⟨⟨Ne.symm hname, h.1⟩, h.2⟩⟩

/-- No name twice. -/
theorem firsts_nodup (seen : List String) (all : List Found) :
    ((firsts seen all).map Prod.fst).Nodup := by
  induction all generalizing seen with
  | nil => exact List.nodup_nil
  | cons f rest ih =>
    rw [firsts]
    split
    · exact ih seen
    · rw [List.map_cons, List.nodup_cons]
      refine ⟨fun h => ?_, ih _⟩
      obtain ⟨g, hg, hname⟩ := List.mem_map.mp h
      exact (mem_firsts.mp hg).1 (hname ▸ List.mem_cons_self ..)

theorem length_firsts_le {all left : List Found} (h : left ⊆ all) :
    (firsts [] left).length ≤ (firsts [] all).length := by
  have hall : ((firsts [] all).map Prod.fst).length = (firsts [] all).length := List.length_map _
  rw [← List.length_map Prod.fst, ← hall]
  refine ((firsts_nodup [] left).subperm fun name hname => ?_).length_le
  obtain ⟨found, hfound, rfl⟩ := List.mem_map.mp hname
  have hmem := h (List.mem_of_find?_eq_some (mem_firsts.mp hfound).2)
  cases hfirst : all.find? fun f => f.1 = found.1 with
  | none => exact absurd (decide_eq_true rfl) (List.find?_eq_none.mp hfirst found hmem)
  | some first =>
    have hsame : first.1 = found.1 := by simpa using List.find?_some hfirst
    refine List.mem_map.mpr ⟨first, mem_firsts.mpr ⟨List.not_mem_nil, ?_⟩, hsame⟩
    rw [hsame]
    exact hfirst

namespace Discovery

theorem absorb_append (d : Discovery) (all more : List Found) :
    d.absorb (all ++ more) = (d.absorb all).absorb more := by
  induction all generalizing d with
  | nil => rfl
  | cons f rest ih =>
    obtain ⟨name, skill⟩ := f
    rw [List.cons_append, absorb, absorb]
    split
    · exact ih d
    · exact ih _

/-- What absorbing leaves. -/
theorem absorb_spec (d : Discovery) (all : List Found) :
    (d.absorb all).skills = d.skills ++ (firsts d.seen all).map Prod.snd ∧
      (d.absorb all).loaded_names = d.loaded_names ++ (firsts d.seen all).map Prod.fst ∧
      ∀ name, name ∈ (d.absorb all).seen ↔ name ∈ d.seen ∨ name ∈ all.map Prod.fst := by
  induction all generalizing d with
  | nil => simp [absorb, firsts]
  | cons f rest ih =>
    obtain ⟨name, skill⟩ := f
    rw [absorb, firsts]
    split
    · rename_i hseen
      obtain ⟨hskills, hnames, hall⟩ := ih d
      refine ⟨hskills, hnames, fun other => ?_⟩
      rw [hall, List.map_cons, List.mem_cons]
      constructor
      · exact fun h => h.imp_right .inr
      · rintro (h | rfl | h)
        · exact .inl h
        · exact .inl hseen
        · exact .inr h
    · obtain ⟨hskills, hnames, hall⟩ := ih ⟨name :: d.seen, d.loaded_names ++ [name],
        d.skills ++ [skill]⟩
      refine ⟨?_, ?_, fun other => ?_⟩
      · rw [hskills, List.append_assoc, List.map_cons, List.singleton_append]
      · rw [hnames, List.append_assoc, List.map_cons, List.singleton_append]
      · rw [hall, List.map_cons, List.mem_cons, List.mem_cons, or_assoc]
        exact or_left_comm

end Discovery

/-! ### All places -/

/-- What a place holds: its candidates that load. -/
def Place.sightings (host : SkillHost) (fs : FileTree) (depth : ℕ) (place : Place) :
    List (Candidate × Found) :=
  (candidates fs depth place.dir).filterMap fun c => (place.load host fs c).map (c, ·)

theorem Place.map_sightings {host : SkillHost} {fs : FileTree} {depth : ℕ} {place : Place} :
    (place.sightings host fs depth).map Prod.snd =
      (candidates fs depth place.dir).filterMap (place.load host fs) := by
  rw [Place.sightings, List.map_filterMap]
  refine List.filterMap_congr fun c _ => ?_
  cases place.load host fs c <;> rfl

theorem Place.mem_sightings {host : SkillHost} {fs : FileTree} {depth : ℕ} {place : Place}
    {c : Candidate} {found : Found} :
    (c, found) ∈ place.sightings host fs depth ↔
      c ∈ candidates fs depth place.dir ∧ place.load host fs c = some found := by
  rw [Place.sightings, List.mem_filterMap]
  constructor
  · rintro ⟨c', hc, h⟩
    obtain ⟨found', hload, heq⟩ := Option.map_eq_some_iff.mp h
    cases heq
    exact ⟨hc, hload⟩
  · exact fun ⟨hc, hload⟩ => ⟨c, hc, by rw [hload]; rfl⟩

theorem Place.load_spec {host : SkillHost} {fs : FileTree} {place : Place} {c : Candidate}
    {found : Found} (h : place.load host fs c = some found) :
    found.1 = found.2.manifest.name ∧ found.2.trust = place.trust ∧
      found.2.source = place.make_source c.source_dir := by
  unfold Place.load at h
  cases hload : loadAndValidateSkill host fs c.file place.trust
      (place.make_source c.source_dir) with
  | error e =>
    rw [hload] at h
    cases h
  | ok f =>
    rw [hload] at h
    cases h
    exact loadAndValidateSkill_spec hload

namespace SkillRegistry

variable {host : SkillHost} {fs : FileTree} {r : SkillRegistry}

/-- The directories that are scanned, in order. -/
def places (r : SkillRegistry) : List Place :=
  (r.workspace_dir.map fun dir => ⟨.trusted, .workspace, dir⟩).toList ++
    ⟨.trusted, .user, r.user_dir⟩ ::
      (r.installed_dir.map fun dir => ⟨.installed, .installed, dir⟩).toList

/-- The skill files they offer. -/
def offers (fs : FileTree) (r : SkillRegistry) : List Candidate :=
  r.places.flatMap fun place => candidates fs r.max_scan_depth place.dir

/-- The skills they hold. -/
def sightings (host : SkillHost) (fs : FileTree) (r : SkillRegistry) :
    List (Candidate × Found) :=
  r.places.flatMap (Place.sightings host fs r.max_scan_depth)

/-- One place of `discover_all`. -/
def absorbPlace (host : SkillHost) (fs : FileTree) (r : SkillRegistry) (d : Discovery)
    (place : Place) : Discovery :=
  r.absorbDir host fs d place.trust place.make_source place.dir

theorem discoverDirs_eq_foldl :
    r.discoverDirs host fs = r.places.foldl (r.absorbPlace host fs) ⟨[], [], r.skills⟩ := by
  unfold discoverDirs places
  cases r.workspace_dir <;> cases r.installed_dir <;> rfl

/-- A place adds some of what it holds. -/
theorem absorbPlace_sublist (host : SkillHost) (fs : FileTree) (r : SkillRegistry)
    (d : Discovery) (place : Place) :
    ∃ all : List Found, all.Sublist ((place.sightings host fs r.max_scan_depth).map Prod.snd) ∧
      r.absorbPlace host fs d place = d.absorb all := by
  unfold absorbPlace absorbDir
  rw [Place.map_sightings]
  split
  · exact ⟨_, discoverFromDir_sublist _ _ _, rfl⟩
  · exact ⟨[], List.nil_sublist _, rfl⟩

/-- A place whose scan does not come to the cap that is left adds all it holds. -/
theorem absorbPlace_eq {d : Discovery} {place : Place}
    (hcap : d.loaded_names.length + capNeeded host fs place r.max_scan_depth place.dir ≤
      MAX_DISCOVERED_SKILLS) :
    r.absorbPlace host fs d place =
      d.absorb ((place.sightings host fs r.max_scan_depth).map Prod.snd) := by
  have hfinds := @finds_discoverFromDir host fs place r.max_scan_depth
  unfold absorbPlace absorbDir
  rw [Place.map_sightings]
  split
  · rw [hfinds.everything place.dir _ (by omega)]
  · rw [hfinds.nothing place.dir (by omega)]
    rfl

theorem foldl_absorbPlace_sublist (d : Discovery) (places : List Place) :
    ∃ all : List Found, all.Sublist
        ((places.flatMap (Place.sightings host fs r.max_scan_depth)).map Prod.snd) ∧
      places.foldl (r.absorbPlace host fs) d = d.absorb all := by
  induction places generalizing d with
  | nil => exact ⟨[], List.nil_sublist _, rfl⟩
  | cons place rest ih =>
    obtain ⟨all, hall, heq⟩ := absorbPlace_sublist host fs r d place
    obtain ⟨more, hmore, hrest⟩ := ih (d.absorb all)
    refine ⟨all ++ more, ?_, ?_⟩
    · rw [List.flatMap_cons, List.map_append]
      exact hall.append hmore
    · rw [List.foldl_cons, heq, hrest, Discovery.absorb_append]

/-- Whether no scan comes to its cap, which is what the skills found so far leave of
`MAX_DISCOVERED_SKILLS`. -/
def WithinCapFrom (host : SkillHost) (fs : FileTree) (depth : ℕ) : List Found → List Place → Prop
  | _, [] => True
  | all, place :: rest =>
    (firsts [] all).length + capNeeded host fs place depth place.dir ≤ MAX_DISCOVERED_SKILLS ∧
      WithinCapFrom host fs depth (all ++ (place.sightings host fs depth).map Prod.snd) rest

instance decidableWithinCapFrom (host : SkillHost) (fs : FileTree) (depth : ℕ) :
    ∀ all places, Decidable (WithinCapFrom host fs depth all places)
  | _, [] => .isTrue trivial
  | all, place :: rest =>
    have := decidableWithinCapFrom host fs depth
      (all ++ (place.sightings host fs depth).map Prod.snd) rest
    inferInstanceAs (Decidable (_ ∧ _))

/-- Whether no scan of a discovery comes to its cap. -/
def WithinCap (host : SkillHost) (fs : FileTree) (r : SkillRegistry) : Prop :=
  WithinCapFrom host fs r.max_scan_depth [] r.places

instance (host : SkillHost) (fs : FileTree) (r : SkillRegistry) : Decidable (r.WithinCap host fs) :=
  inferInstanceAs (Decidable (WithinCapFrom ..))

theorem foldl_absorbPlace_eq {skills : List LoadedSkill} {all : List Found} {places : List Place}
    (hcap : WithinCapFrom host fs r.max_scan_depth all places) :
    places.foldl (r.absorbPlace host fs) (Discovery.absorb ⟨[], [], skills⟩ all) =
      Discovery.absorb ⟨[], [], skills⟩
        (all ++ (places.flatMap (Place.sightings host fs r.max_scan_depth)).map Prod.snd) := by
  induction places generalizing all with
  | nil => rw [List.flatMap_nil, List.map_nil, List.append_nil, List.foldl_nil]
  | cons place rest ih =>
    have hlength : (Discovery.absorb ⟨[], [], skills⟩ all).loaded_names.length =
        (firsts [] all).length := by
      rw [(Discovery.absorb_spec _ _).2.1, List.nil_append, List.length_map]
    rw [List.foldl_cons, absorbPlace_eq (hlength ▸ hcap.1), ← Discovery.absorb_append, ih hcap.2,
      List.flatMap_cons, List.map_append, List.append_assoc]

theorem discoverDirs_sublist (host : SkillHost) (fs : FileTree) (r : SkillRegistry) :
    ∃ all : List Found, all.Sublist ((r.sightings host fs).map Prod.snd) ∧
      r.discoverDirs host fs = Discovery.absorb ⟨[], [], r.skills⟩ all := by
  rw [discoverDirs_eq_foldl]
  exact foldl_absorbPlace_sublist _ _

theorem discoverDirs_eq (h : r.WithinCap host fs) :
    r.discoverDirs host fs =
      Discovery.absorb ⟨[], [], r.skills⟩ ((r.sightings host fs).map Prod.snd) := by
  rw [discoverDirs_eq_foldl]
  exact foldl_absorbPlace_eq h

/-! ### What is loaded -/

/-- A bundled skill, by the key it is compiled in under. -/
def bundledSkill (host : SkillHost) (entry : String × String) : Option LoadedSkill :=
  ((loadFromContent host entry.2 .trusted (.bundled entry.1)).toOption).map Prod.snd

/-- Whether a skill is what `discover_all` loads: the first of its name in the directories, or
bundled under a name that no directory has. -/
def Discovers (host : SkillHost) (fs : FileTree) (r : SkillRegistry) (skill : LoadedSkill) :
    Prop :=
  (∃ sighting, (r.sightings host fs).find? (fun s => s.2.1 = sighting.2.1) = some sighting ∧
      sighting.2.2 = skill) ∨
    ∃ entry ∈ r.bundled_content, bundledSkill host entry = some skill ∧
      ∀ sighting ∈ r.sightings host fs, sighting.2.1 ≠ entry.1

theorem mem_loadBundledSkills {seen : List String} {bundled : List (String × String)}
    {skill : LoadedSkill} :
    skill ∈ (loadBundledSkills host seen bundled).map Prod.snd ↔
      ∃ entry ∈ bundled, bundledSkill host entry = some skill ∧ entry.1 ∉ seen := by
  rw [loadBundledSkills, List.map_filterMap, List.mem_filterMap]
  refine exists_congr fun entry => and_congr_right fun _ => ?_
  obtain ⟨key, content⟩ := entry
  dsimp only [bundledSkill]
  by_cases hseen : key ∈ seen
  · simp [hseen]
  · rw [if_neg hseen]
    cases loadFromContent host content .trusted (.bundled key) <;> simp [Except.toOption, hseen]

theorem mem_discoverAll (h : r.WithinCap host fs) {skill : LoadedSkill} :
    skill ∈ (r.discoverAll host fs).2.skills ↔
      skill ∈ r.skills ∨ r.Discovers host fs skill := by
  obtain ⟨hskills, -, hseen⟩ :=
    Discovery.absorb_spec ⟨[], [], r.skills⟩ ((r.sightings host fs).map Prod.snd)
  rw [discoverAll]
  dsimp only
  rw [List.mem_append, mem_loadBundledSkills, discoverDirs_eq h, hskills, List.mem_append,
    or_assoc, Discovers]
  refine or_congr_right (or_congr ?_ ?_)
  · rw [List.mem_map]
    constructor
    · rintro ⟨found, hfound, rfl⟩
      have hfind := (mem_firsts.mp hfound).2
      rw [List.find?_map] at hfind
      obtain ⟨sighting, hsighting, rfl⟩ := Option.map_eq_some_iff.mp hfind
      exact ⟨sighting, hsighting, rfl⟩
    · rintro ⟨sighting, hsighting, rfl⟩
      refine ⟨sighting.2, mem_firsts.mpr ⟨List.not_mem_nil, ?_⟩, rfl⟩
      rw [List.find?_map]
      exact Option.map_eq_some_iff.mpr ⟨sighting, hsighting, rfl⟩
  · refine exists_congr fun entry => and_congr_right fun _ => and_congr_right fun _ => ?_
    rw [hseen, List.map_map, List.mem_map, not_or, not_exists]
    exact ⟨fun h sighting hmem hname => h.2 sighting ⟨hmem, hname⟩,
      fun h => ⟨List.not_mem_nil, fun sighting hmem => h sighting hmem.1 hmem.2⟩⟩

theorem mem_reload (h : r.WithinCap host fs) {skill : LoadedSkill} :
    skill ∈ (r.reload host fs).2.skills ↔ r.Discovers host fs skill := by
  have hempty : SkillRegistry.WithinCap host fs { r with skills := [] } := h
  rw [reload, mem_discoverAll hempty]
  exact or_iff_right List.not_mem_nil

end SkillRegistry

end T3Claw.Skills
