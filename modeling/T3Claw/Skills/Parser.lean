import T3Claw.Data.Text
import T3Claw.Types.Basic

/-!
# Skill files

`parser.rs`, `validation.rs`, `types.rs` and `gating.rs` of the skills crate: a `SKILL.md` is
YAML frontmatter between two `---` lines and a prompt. The YAML library, regular expressions,
hashes, lower case and the machine that requirements are checked on are parameters.
-/

namespace T3Claw.Skills

/-- Trust state for a skill. -/
inductive SkillTrust where
  | installed
  | trusted
  deriving DecidableEq

/-- Activation criteria. -/
structure ActivationCriteria where
  keywords : List String
  exclude_keywords : List String
  patterns : List String
  tags : List String
  max_context_tokens : ℕ
  setup_marker : Option String
  deriving DecidableEq

/-- Gating requirements. -/
structure GatingRequirements where
  bins : List String
  env : List String
  config : List String
  skills : List String
  deriving DecidableEq

/-- Parsed skill manifest, as far as it is read here. -/
structure SkillManifest where
  name : String
  version : String
  activation : ActivationCriteria
  requires : GatingRequirements
  deriving DecidableEq

/-- `serde_yml::Value`; a number is known by the text it is printed as. -/
inductive YamlValue where
  | null
  | bool (b : Bool)
  | number (printed : String)
  | string (s : String)
  | sequence (items : List YamlValue)
  | mapping (fields : List (YamlValue × YamlValue))
  | tagged (tag : String) (value : YamlValue)

/-- `serde_yml::Mapping`. -/
abbrev YamlMapping := List (YamlValue × YamlValue)

namespace YamlValue

/-- Whether it is a key that is a string. -/
def isKey (key : String) : YamlValue → Bool
  | string s => s == key
  | _ => false

/-- `Value::as_mapping`, which sees through tags. -/
def asMapping? : YamlValue → Option YamlMapping
  | mapping fields => some fields
  | tagged _ value => value.asMapping?
  | _ => none

/-- A value whose mapping was changed in place. -/
def withMapping (fields : YamlMapping) : YamlValue → YamlValue
  | tagged tag value => tagged tag (value.withMapping fields)
  | _ => mapping fields

end YamlValue

namespace YamlMapping

/-- `Mapping::get` with a string key. -/
def get? (fields : YamlMapping) (key : String) : Option YamlValue :=
  (fields.find? fun f => f.1.isKey key).map Prod.snd

/-- `Mapping::insert` with a string key: a value that is there is replaced in its place. -/
def insert (fields : YamlMapping) (key : String) (value : YamlValue) : YamlMapping :=
  if fields.any fun f => f.1.isKey key then
    fields.map fun f => if f.1.isKey key then (f.1, value) else f
  else fields ++ [(.string key, value)]

end YamlMapping

/-- What the crate uses of others, and the machine. A compiled pattern is known by its text. -/
structure SkillHost where
  manifest_from_yaml : String → Except String SkillManifest
  value_from_yaml : String → Except String YamlValue
  yaml_to_string : YamlValue → Except String String
  pattern_compiles : String → Bool
  lowercase : String → String
  sha256 : String → String
  binary_exists : String → Bool
  env_var_set : String → Bool
  config_exists : String → Bool

/-! ### Limits -/

def MAX_KEYWORDS_PER_SKILL : ℕ := 20
def MAX_PATTERNS_PER_SKILL : ℕ := 5
def MAX_TAGS_PER_SKILL : ℕ := 10
def MAX_SETUP_MARKER_LENGTH : ℕ := 256
def MAX_REQUIRED_SKILLS_PER_MANIFEST : ℕ := 10
def MIN_KEYWORD_TAG_LENGTH : ℕ := 3
def MAX_PROMPT_FILE_SIZE : ℕ := 64 * 1024

/-- Entries that are long enough, up to a number. -/
def limited (max : ℕ) (items : List String) : List String :=
  (items.filter fun item => MIN_KEYWORD_TAG_LENGTH ≤ item.utf8ByteSize).take max

/-- `ActivationCriteria::enforce_limits`. -/
def ActivationCriteria.enforceLimits (a : ActivationCriteria) : ActivationCriteria where
  keywords := limited MAX_KEYWORDS_PER_SKILL a.keywords
  exclude_keywords := limited MAX_KEYWORDS_PER_SKILL a.exclude_keywords
  patterns := a.patterns.take MAX_PATTERNS_PER_SKILL
  tags := limited MAX_TAGS_PER_SKILL a.tags
  max_context_tokens := a.max_context_tokens
  setup_marker := a.setup_marker.filter fun marker =>
    marker.utf8ByteSize ≤ MAX_SETUP_MARKER_LENGTH && !Text.contains "..".toList marker.toList

/-- `GatingRequirements::enforce_limits`. -/
def GatingRequirements.enforceLimits (r : GatingRequirements) : GatingRequirements :=
  { r with skills := r.skills.take MAX_REQUIRED_SKILLS_PER_MANIFEST }

/-! ### Names -/

/-- A character of a name, after the first. -/
def isNameChar (c : Char) : Bool := c.isAlphanum || c == '.' || c == '_' || c == '-'

/-- `validate_skill_name`. -/
def validateSkillName (name : String) : Bool :=
  match name.toList with
  | [] => false
  | c :: rest => c.isAlphanum && rest.length ≤ 63 && rest.all isNameChar

/-- `validate_skill_version`. -/
def validateSkillVersion (version : String) : Bool :=
  let cs := version.toList
  1 ≤ cs.length && cs.length ≤ 32 && cs.all fun c => isNameChar c || c == '+' || c == '~'

/-- `normalize_skill_identifier`, the characters in turn: what there is so far, backwards. -/
def sanitizeName : List Char → List Char → List Char
  | sanitized, [] => sanitized
  | sanitized, c :: rest =>
    let last_was_separator := match sanitized with
      | [] => false
      | last :: _ => !last.isAlphanum
    if c.isAlphanum then sanitizeName (c.toLower :: sanitized) rest
    else if sanitized.isEmpty || last_was_separator then sanitizeName sanitized rest
    else if c == '.' || c == '_' || c == '-' then sanitizeName (c :: sanitized) rest
    else sanitizeName ('-' :: sanitized) rest

/-- `normalize_skill_identifier`. -/
def normalizeSkillIdentifier (value : String) : Option String :=
  let trimmed := Text.trim value.toList
  if validateSkillName (String.ofList trimmed) then some (String.ofList trimmed)
  else
    let isSeparator := fun c => c == '-' || c == '_' || c == '.'
    let sanitized := (sanitizeName [] trimmed).dropWhile isSeparator
    let sanitized :=
      if 64 < sanitized.length then (sanitized.reverse.take 64).reverse.dropWhile isSeparator
      else sanitized
    let name := String.ofList sanitized.reverse
    if validateSkillName name then some name else none

/-! ### Parsing -/

/-- `SkillParseError`. -/
inductive SkillParseError where
  | missingFrontmatter
  | invalidYaml (reason : String)
  | emptyPrompt
  | invalidName (name : String)
  | invalidVersion (version : String)

/-- `Display`. -/
def SkillParseError.display : SkillParseError → String
  | missingFrontmatter =>
    "Missing YAML frontmatter delimiters (expected \x60---\x60 at start of file)"
  | invalidYaml reason => "Invalid YAML frontmatter: " ++ reason
  | emptyPrompt => "Prompt body is empty (no content after frontmatter)"
  | invalidName name =>
    "Invalid skill name '" ++ name ++ "': must match [a-zA-Z0-9][a-zA-Z0-9._-]\x7b0,63\x7d"
  | invalidVersion version =>
    "Invalid skill version '" ++ version ++
      "': must match [a-zA-Z0-9._\\-+~]\x7b1,32\x7d " ++
      "(alphanumeric/dot/hyphen/plus/underscore/tilde, 1-32 chars)"

/-- A parsed skill file. -/
structure ParsedSkill where
  manifest : SkillManifest
  prompt_content : String

/-- `normalize_line_endings`. -/
def normalizeLineEndings (cs : List Char) : List Char :=
  (Text.replace ['\r', '\n'] ['\n'] cs).map fun c => if c = '\r' then '\n' else c

/-- `find_closing_delimiter`, in characters. -/
def findClosingDelimiter : ℕ → List (List Char) → Option ℕ
  | _, [] => none
  | pos, line :: rest =>
    if Text.trim line = ['-', '-', '-'] then some pos
    else findClosingDelimiter (pos + line.length + 1) rest

/-- What follows the first line. -/
def afterLine (cs : List Char) : List Char := (cs.dropWhile (· ≠ '\n')).drop 1

/-- `split_skill_md_frontmatter`, and the beginning of `parse_skill_md_impl`. -/
def splitFrontmatter (content : List Char) : Except SkillParseError (List Char × List Char) :=
  let normalized := normalizeLineEndings content
  let stripped := match normalized with
    | c :: rest => if c.toNat = 0xFEFF then rest else normalized
    | [] => []
  let trimmed := stripped.dropWhile fun c => c = '\n' || c = '\r'
  if !(List.isPrefixOf ['-', '-', '-'] trimmed) then .error .missingFrontmatter
  else
    let after_first := trimmed.drop 3
    if '\n' ∉ after_first then .error .missingFrontmatter
    else
      let body := afterLine after_first
      match findClosingDelimiter 0 (Text.lines body) with
      | none => .error .missingFrontmatter
      | some yaml_end =>
        .ok (body.take yaml_end, (afterLine (body.drop yaml_end)).dropWhile (· = '\n'))

/-- `parse_skill_md_impl`. -/
def parseSkillMdImpl (host : SkillHost) (content : List Char) (validate_name : Bool) :
    Except SkillParseError ParsedSkill :=
  match splitFrontmatter content with
  | .error e => .error e
  | .ok (yaml, prompt_content) =>
    match host.manifest_from_yaml (String.ofList yaml) with
    | .error reason => .error (.invalidYaml reason)
    | .ok manifest =>
      if validate_name && !validateSkillName manifest.name then
        .error (.invalidName manifest.name)
      else if !validateSkillVersion manifest.version then
        .error (.invalidVersion manifest.version)
      else if (Text.trim prompt_content).isEmpty then .error .emptyPrompt
      else
        let manifest := { manifest with
          activation := manifest.activation.enforceLimits
          requires := manifest.requires.enforceLimits }
        .ok ⟨manifest, String.ofList prompt_content⟩

/-- `parse_skill_md`. -/
def parseSkillMd (host : SkillHost) (content : List Char) : Except SkillParseError ParsedSkill :=
  parseSkillMdImpl host content true

/-- `parse_skill_md_for_install_recovery`. -/
def parseSkillMdForInstallRecovery (host : SkillHost) (content : List Char) :
    Except SkillParseError ParsedSkill := parseSkillMdImpl host content false

/-! ### Requirements -/

/-- `check_requirements_sync`, the failures. -/
def checkRequirements (host : SkillHost) (r : GatingRequirements) : List String :=
  (r.bins.filter fun bin => !host.binary_exists bin).map ("required binary not found: " ++ ·) ++
    (r.env.filter fun var => !host.env_var_set var).map ("required env var not set: " ++ ·) ++
    (r.config.filter fun path => !host.config_exists path).map ("required config not found: " ++ ·)

end T3Claw.Skills
