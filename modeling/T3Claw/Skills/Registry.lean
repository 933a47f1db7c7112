import T3Claw.Skills.FileTree
import T3Claw.Skills.Parser

/-!
# The skill registry

`registry.rs`: skills are found in the workspace, user and installed directories, flat
(`SKILL.md`), in a directory of their own, or in one of those in a bundle directory, and then
among those compiled into the binary. Earlier ones win. What a skill was loaded from is recorded
as its source: the directory of its own, or, for a flat one, the directory that was scanned.
-/

namespace T3Claw.Skills

/-- Where a skill was loaded from. -/
inductive SkillSource where
  | workspace (path : Path)
  | user (path : Path)
  | installed (path : Path)
  | bundled (name : String)
  deriving DecidableEq

/-- A fully loaded skill. A compiled pattern is known by its text. -/
structure LoadedSkill where
  manifest : SkillManifest
  prompt_content : String
  trust : SkillTrust
  source : SkillSource
  content_hash : String
  compiled_patterns : List String
  lowercased_keywords : List String
  lowercased_exclude_keywords : List String
  lowercased_tags : List String
  deriving DecidableEq

/-- `SkillRegistryError`. -/
inductive SkillRegistryError where
  | notFound (name : String)
  | readError (path reason : String)
  | parseError (name reason : String)
  | fileTooLarge (name : String) (size max : ℕ)
  | symlinkDetected (path : String)
  | gatingFailed (name reason : String)
  | tokenBudgetExceeded (name : String) (approx_tokens declared : ℕ)
  | alreadyExists (name : String)
  | cannotRemove (name reason : String)
  | writeError (path reason : String)

def MAX_DISCOVERED_SKILLS : ℕ := 100
def DEFAULT_MAX_SCAN_DEPTH : ℕ := 3
def SKILL_MD : String := "SKILL.md"

/-! ### Loading a file -/

section

variable (host : SkillHost)

/-- `build_loaded_skill`. -/
def buildLoadedSkill (normalized_content : List Char) (error_label : String) (trust : SkillTrust)
    (source : SkillSource) : Except SkillRegistryError (String × LoadedSkill) :=
  match parseSkillMd host normalized_content with
  | .error e =>
    .error (match e with
      | .invalidName name => .parseError name e.display
      | _ => .parseError error_label e.display)
  | .ok ⟨manifest, prompt_content⟩ =>
    let failures := checkRequirements host manifest.requires
    if !failures.isEmpty then
      .error (.gatingFailed manifest.name (String.intercalate "; " failures))
    else
      let approx_tokens := prompt_content.utf8ByteSize / 4
      let declared := manifest.activation.max_context_tokens
      if 0 < declared ∧ declared * 2 < approx_tokens then
        .error (.tokenBudgetExceeded manifest.name approx_tokens declared)
      else
        .ok (manifest.name,
          { manifest, prompt_content, trust, source
            content_hash := host.sha256 prompt_content
            compiled_patterns := manifest.activation.patterns.filter host.pattern_compiles
            lowercased_keywords := manifest.activation.keywords.map host.lowercase
            lowercased_exclude_keywords := manifest.activation.exclude_keywords.map host.lowercase
            lowercased_tags := manifest.activation.tags.map host.lowercase })

/-- `load_and_validate_skill`. -/
def loadAndValidateSkill (fs : FileTree) (path : Path) (trust : SkillTrust)
    (source : SkillSource) : Except SkillRegistryError (String × LoadedSkill) :=
  match fs.get? path with
  | none => .error (.readError path.display "No such file or directory (os error 2)")
  | some ⟨_, .symlink _⟩ => .error (.symlinkDetected path.display)
  | some ⟨_, .dir⟩ => .error (.readError path.display "Is a directory (os error 21)")
  | some ⟨_, .file contents⟩ =>
    if MAX_PROMPT_FILE_SIZE < contents.size then
      .error (.fileTooLarge path.display contents.size MAX_PROMPT_FILE_SIZE)
    else
      match contents with
      | .binary _ => .error (.readError path.display "Invalid UTF-8")
      | .text chars =>
        buildLoadedSkill host (normalizeLineEndings chars) path.display trust source

/-- `load_from_content`. -/
def loadFromContent (raw_content : String) (trust : SkillTrust) (source : SkillSource) :
    Except SkillRegistryError (String × LoadedSkill) :=
  if MAX_PROMPT_FILE_SIZE < raw_content.utf8ByteSize then
    .error (.fileTooLarge "(bundled)" raw_content.utf8ByteSize MAX_PROMPT_FILE_SIZE)
  else
    buildLoadedSkill host (normalizeLineEndings raw_content.toList) "(bundled)" trust source

end

/-- A skill and the name it was found under. -/
abbrev Found : Type := String × LoadedSkill

/-! ### Discovery -/

section

variable (host : SkillHost) (fs : FileTree) (trust : SkillTrust) (make_source : Path → SkillSource)

/-- `discover_from_dir`, the entries in turn, `count` of which have been counted. `nested` scans
a bundle directory, where the depth allows it. -/
def scanEntries (nested : Option (Path → ℕ → List Found)) (dir : Path) (remaining_cap : ℕ) :
    ℕ → List Entry → List Found
  | _, [] => []
  | count, entry :: rest =>
    if remaining_cap ≤ count then []
    else
      match entry.kind with
      | .symlink _ => scanEntries nested dir remaining_cap count rest
      | .dir =>
        let skill_md := entry.path ++ [SKILL_MD]
        if fs.tryExists skill_md then
          match loadAndValidateSkill host fs skill_md trust (make_source entry.path) with
          | .ok found => found :: scanEntries nested dir remaining_cap (count + 1) rest
          | .error _ => scanEntries nested dir remaining_cap (count + 1) rest
        else
          match nested with
          | some scan =>
            let found := scan entry.path (remaining_cap - count)
            found ++ scanEntries nested dir remaining_cap (count + found.length) rest
          | none => scanEntries nested dir remaining_cap count rest
      | .file _ =>
        if entry.path.getLast? = some SKILL_MD then
          match loadAndValidateSkill host fs entry.path trust (make_source dir) with
          | .ok found => found :: scanEntries nested dir remaining_cap (count + 1) rest
          | .error _ => scanEntries nested dir remaining_cap (count + 1) rest
        else scanEntries nested dir remaining_cap count rest

/-- `discover_from_dir`, with the levels that may still be descended. -/
def discoverFromDir : ℕ → Path → ℕ → List Found
  | 0, dir, remaining_cap =>
    match fs.readDir dir with
    | none => []
    | some entries => scanEntries host fs trust make_source none dir remaining_cap 0 entries
  | depth + 1, dir, remaining_cap =>
    match fs.readDir dir with
    | none => []
    | some entries =>
      scanEntries host fs trust make_source (some (discoverFromDir depth)) dir remaining_cap 0
        entries

end

/-- `SkillRegistry`. -/
structure SkillRegistry where
  skills : List LoadedSkill
  user_dir : Path
  installed_dir : Option Path
  workspace_dir : Option Path
  bundled_content : List (String × String)
  max_scan_depth : ℕ

/-- What `discover_all` has so far. -/
structure Discovery where
  seen : List String
  loaded_names : List String
  skills : List LoadedSkill

/-- `absorb`. -/
def Discovery.absorb : Discovery → List Found → Discovery
  | d, [] => d
  | d, (name, skill) :: rest =>
    if name ∈ d.seen then d.absorb rest
    else absorb ⟨name :: d.seen, d.loaded_names ++ [name], d.skills ++ [skill]⟩ rest

/-- `load_bundled_skills`, and what `discover_all` does with each. -/
def loadBundledSkills (host : SkillHost) (seen : List String) (bundled : List (String × String)) :
    List Found :=
  bundled.filterMap fun (name, content) =>
    if name ∈ seen then none
    else
      match loadFromContent host content .trusted (.bundled name) with
      | .ok found => some found
      | .error _ => none

namespace SkillRegistry

variable (host : SkillHost) (fs : FileTree) (r : SkillRegistry)

/-- One source of `discover_all`. -/
def absorbDir (d : Discovery) (trust : SkillTrust) (make_source : Path → SkillSource)
    (dir : Path) : Discovery :=
  if d.loaded_names.length < MAX_DISCOVERED_SKILLS then
    d.absorb (discoverFromDir host fs trust make_source r.max_scan_depth dir
      (MAX_DISCOVERED_SKILLS - d.loaded_names.length))
  else d

/-- The three directories in turn. -/
def discoverDirs : Discovery :=
  let d : Discovery := ⟨[], [], r.skills⟩
  let d := match r.workspace_dir with
    | some ws_dir => r.absorbDir host fs d .trusted .workspace ws_dir
    | none => d
  let d := r.absorbDir host fs d .trusted .user r.user_dir
  match r.installed_dir with
  | some inst_dir => r.absorbDir host fs d .installed .installed inst_dir
  | none => d

/-- `discover_all`: the names, and the registry. -/
def discoverAll : List String × SkillRegistry :=
  let d := r.discoverDirs host fs
  let bundled := loadBundledSkills host d.seen r.bundled_content
  (d.loaded_names ++ bundled.map Prod.fst,
    { r with skills := d.skills ++ bundled.map Prod.snd })

/-- `reload`. -/
def reload : List String × SkillRegistry := discoverAll host fs { r with skills := [] }

/-- `has`. -/
def has (name : String) : Bool := r.skills.any fun s => s.manifest.name = name

/-- `install_target_dir`. -/
def installTargetDir : Path := r.installed_dir.getD r.user_dir

end SkillRegistry

/-! ### Installing -/

/-- `parse_error_for_install`. -/
def parseErrorForInstall (error_label : String) (e : SkillParseError) : SkillRegistryError :=
  match e with
  | .invalidName name => .parseError name e.display
  | _ => .parseError error_label e.display

/-- `str::strip_suffix`, or the text as it is. -/
def stripSuffix (suffix cs : List Char) : List Char :=
  if suffix.isSuffixOf cs then cs.take (cs.length - suffix.length) else cs

/-- `rewrite_frontmatter_name`. -/
def rewriteFrontmatterName (host : SkillHost) (frontmatter : List Char)
    (new_name error_label : String) : Except SkillRegistryError (List Char) :=
  match host.value_from_yaml (String.ofList frontmatter) with
  | .error e =>
    .error (.parseError error_label ("Failed to parse SKILL.md frontmatter for rewrite: " ++ e))
  | .ok value =>
    match value.asMapping? with
    | none => .error (.parseError error_label "SKILL.md frontmatter is not a YAML mapping")
    | some mapping =>
      match host.yaml_to_string
          (value.withMapping (mapping.insert "name" (.string new_name))) with
      | .error e =>
        .error (.parseError error_label ("Failed to rewrite normalized SKILL.md: " ++ e))
      | .ok yaml =>
        .ok (stripSuffix "...".toList (stripSuffix "...\n".toList yaml.toList))

/-- `assemble_skill_md`. -/
def assembleSkillMd (yaml prompt_content : List Char) : List Char :=
  let rendered := "---\n".toList ++ yaml
  let rendered := if rendered.getLast? = some '\n' then rendered else rendered ++ ['\n']
  rendered ++ "---\n\n".toList ++ prompt_content

/-- `normalize_install_content`. -/
def normalizeInstallContent (host : SkillHost) (normalized_content : List Char)
    (requested_identifier : Option String) : Except SkillRegistryError (String × List Char) :=
  match parseSkillMd host normalized_content with
  | .ok parsed => .ok (parsed.manifest.name, normalized_content)
  | .error (.invalidName _) =>
    match parseSkillMdForInstallRecovery host normalized_content with
    | .error e => .error (parseErrorForInstall "(install)" e)
    | .ok parsed =>
      let original_name := parsed.manifest.name
      match (requested_identifier.bind normalizeSkillIdentifier).orElse
          fun _ => normalizeSkillIdentifier original_name with
      | none =>
        .error (.parseError original_name ("Invalid skill name '" ++ original_name ++
          "' could not be normalized to a safe install name"))
      | some normalized_name =>
        match splitFrontmatter normalized_content with
        | .error e => .error (parseErrorForInstall "(install)" e)
        | .ok (frontmatter, prompt_content) =>
          match rewriteFrontmatterName host frontmatter normalized_name original_name with
          | .error e => .error e
          | .ok yaml => .ok (normalized_name, assembleSkillMd yaml prompt_content)
  | .error e => .error (parseErrorForInstall "(install)" e)

/-- A step of an install on disk. -/
def writing (path : Path) (result : Except String FileTree) :
    Except SkillRegistryError FileTree :=
  result.mapError fun reason => .writeError path.display reason

/-- `prepare_install_to_disk`: the tree it leaves, and what it returns. -/
def prepareInstallToDisk (host : SkillHost) (fs : FileTree) (install_dir : Path)
    (skill_name : String) (normalized_content : List Char) :
    FileTree × Except SkillRegistryError (String × LoadedSkill) :=
  let skill_dir := install_dir ++ [skill_name]
  match writing skill_dir (fs.createDirAll skill_dir) with
  | .error e => (fs, .error e)
  | .ok made =>
    let skill_path := skill_dir ++ [SKILL_MD]
    match writing skill_path (made.write skill_path (.text normalized_content)) with
    | .error e => (made, .error e)
    | .ok written =>
      (written, loadAndValidateSkill host written skill_path .installed (.installed skill_dir))

namespace SkillRegistry

variable (host : SkillHost) (fs : FileTree) (r : SkillRegistry)

/-- `commit_install`. -/
def commitInstall (name : String) (skill : LoadedSkill) :
    Except SkillRegistryError SkillRegistry :=
  if r.has name then .error (.alreadyExists name)
  else .ok { r with skills := r.skills ++ [skill] }

/-- `prepare_install_to_disk` into a directory, then `commit_install`. -/
def installInto (install_dir : Path) (skill_name : String) (normalized_content : List Char) :
    (FileTree × SkillRegistry) × Except SkillRegistryError String :=
  match prepareInstallToDisk host fs install_dir skill_name normalized_content with
  | (fs, .error e) => ((fs, r), .error e)
  | (fs, .ok (name, skill)) =>
    match r.commitInstall name skill with
    | .error e => ((fs, r), .error e)
    | .ok r => ((fs, r), .ok name)

/-- `install_skill`. -/
def installSkill (content : List Char) :
    (FileTree × SkillRegistry) × Except SkillRegistryError String :=
  match normalizeInstallContent host (normalizeLineEndings content) none with
  | .error e => ((fs, r), .error e)
  | .ok (skill_name, install_content) =>
    if r.has skill_name then ((fs, r), .error (.alreadyExists skill_name))
    else r.installInto host fs r.user_dir skill_name install_content

/-- An install as the tools make it, into `install_target_dir`, of what `resolve_install_content`
has given them. -/
def installTarget (skill_name : String) (install_content : List Char) :
    (FileTree × SkillRegistry) × Except SkillRegistryError String :=
  r.installInto host fs r.installTargetDir skill_name install_content

/-! ### Removing -/

/-- `validate_remove`: the path to delete. -/
def validateRemove (name : String) : Except SkillRegistryError Path :=
  match r.skills.find? fun s => s.manifest.name = name with
  | none => .error (.notFound name)
  | some skill =>
    match skill.source with
    | .user path | .installed path => .ok path
    | .workspace _ =>
      .error (.cannotRemove name "workspace skills cannot be removed via this interface")
    | .bundled _ => .error (.cannotRemove name "bundled skills cannot be removed")

end SkillRegistry

/-- `delete_skill_files`. -/
def deleteSkillFiles (fs : FileTree) (path : Path) : FileTree :=
  if fs.tryExists path then fs.removeDirAll path else fs

namespace SkillRegistry

variable (fs : FileTree) (r : SkillRegistry)

/-- `commit_remove`. -/
def commitRemove (name : String) : Except SkillRegistryError SkillRegistry :=
  match r.skills.findIdx? fun s => s.manifest.name = name with
  | none => .error (.notFound name)
  | some idx => .ok { r with skills := r.skills.eraseIdx idx }

/-- `remove_skill`. -/
def removeSkill (name : String) : (FileTree × SkillRegistry) × Except SkillRegistryError Unit :=
  match r.validateRemove name with
  | .error e => ((fs, r), .error e)
  | .ok path =>
    let fs := deleteSkillFiles fs path
    match r.commitRemove name with
    | .error e => ((fs, r), .error e)
    | .ok r => ((fs, r), .ok ())

end SkillRegistry

end T3Claw.Skills
