import T3Claw.Safety.LeakDetector
import T3Claw.Types.Step

/-!
# The safety layer

`t3claw_safety`: `policy.rs`, `sanitizer.rs` and `SafetyLayer::sanitize_tool_output`. A tool's
output is cut to a length, cleaned of secrets, checked against the policy, and escaped when the
sanitizer finds something critical in it.
-/

namespace T3Claw.Safety

/-- Severity level for safety issues. -/
inductive Severity where
  | low
  | medium
  | high
  | critical
  deriving DecidableEq

/-- `Severity::value`. -/
def Severity.value : Severity → ℕ
  | .low => 1
  | .medium => 2
  | .high => 3
  | .critical => 4

/-- What is used of crates. The sanitizer's matcher ignores the case of ASCII letters. -/
structure SafetyCrates (Re : Type) where
  regex : RegexCrate Re
  aho : AhoCorasick
  aho_case_insensitive : (needles : List (List Char)) → List Char → List (Search.Hit needles)
  to_lowercase : List Char → List Char

variable {Re : Type}

/-! ### The policy -/

/-- Action to take when a policy is violated. -/
inductive PolicyAction where
  | warn
  | block
  | review
  | sanitize
  deriving DecidableEq

/-- A policy rule that defines what content is blocked or flagged. -/
structure PolicyRule (Re : Type) where
  id : String
  description : String
  severity : Severity
  pattern : Re
  action : PolicyAction

/-- Safety policy containing rules. -/
structure Policy (Re : Type) where
  rules : List (PolicyRule Re)

namespace Policy

/-- `Policy::check`. -/
def check (regex : RegexCrate Re) (policy : Policy Re) (content : List Char) :
    List (PolicyRule Re) :=
  policy.rules.filter fun rule => regex.is_match rule.pattern content

/-- `Policy::is_blocked`. -/
def isBlocked (regex : RegexCrate Re) (policy : Policy Re) (content : List Char) : Bool :=
  (policy.check regex content).any (·.action = .block)

/-- `Policy::default`. -/
def default (regex : RegexCrate Re) : Policy Re where
  rules :=
    [ ⟨"system_file_access", "Attempt to access system files", .critical,
        regex.new "(?i)(/etc/passwd|/etc/shadow|\\.ssh/|\\.aws/credentials)", .block⟩,
      ⟨"crypto_private_key", "Potential cryptocurrency private key", .critical,
        regex.new "(?i)(private.?key|seed.?phrase|mnemonic).\x7b0,20\x7d[0-9a-f]\x7b64\x7d",
        .block⟩,
      ⟨"sql_pattern", "SQL-like pattern detected", .medium,
        regex.new "(?i)(DROP\\s+TABLE|DELETE\\s+FROM|INSERT\\s+INTO|UPDATE\\s+\\w+\\s+SET)", .warn⟩,
      ⟨"shell_injection", "Potential shell command injection", .critical,
        regex.new "(?i)(;\\s*rm\\s+-rf|;\\s*curl\\s+.*\\|\\s*sh)", .block⟩,
      ⟨"excessive_urls", "Excessive number of URLs detected", .low,
        regex.new "(https?://[^\\s]+\\s*)\x7b10,\x7d", .warn⟩,
      ⟨"encoded_exploit", "Potential encoded exploit payload", .high,
        regex.new "(?i)(base64_decode|eval\\s*\\(\\s*base64|atob\\s*\\()", .sanitize⟩,
      ⟨"obfuscated_string", "Potential obfuscated content", .medium,
        regex.new "[^\\s]\x7b500,\x7d", .warn⟩ ]

end Policy

/-! ### The sanitizer -/

/-- Warning about a potential injection attempt. -/
structure InjectionWarning where
  pattern : String
  severity : Severity
  location : Range
  description : String

/-- Result of sanitizing external content. -/
structure SanitizedOutput where
  content : List Char
  warnings : List InjectionWarning
  was_modified : Bool

structure PatternInfo where
  pattern : String
  severity : Severity
  description : String

structure RegexPattern (Re : Type) where
  regex : Re
  name : String
  severity : Severity
  description : String

/-- Sanitizer for external data. -/
structure Sanitizer (Re : Type) where
  patterns : List PatternInfo
  regex_patterns : List (RegexPattern Re)

namespace Sanitizer

/-- `Sanitizer::new`. -/
def new (regex : RegexCrate Re) : Sanitizer Re where
  patterns :=
    [ ⟨"ignore previous", .high, "Attempt to override previous instructions"⟩,
      ⟨"ignore all previous", .critical, "Attempt to override all previous instructions"⟩,
      ⟨"disregard", .medium, "Potential instruction override"⟩,
      ⟨"forget everything", .high, "Attempt to reset context"⟩,
      ⟨"you are now", .high, "Attempt to change assistant role"⟩,
      ⟨"act as", .medium, "Potential role manipulation"⟩,
      ⟨"pretend to be", .medium, "Potential role manipulation"⟩,
      ⟨"system:", .critical, "Attempt to inject system message"⟩,
      ⟨"assistant:", .high, "Attempt to inject assistant response"⟩,
      ⟨"user:", .high, "Attempt to inject user message"⟩,
      ⟨"<|", .critical, "Potential special token injection"⟩,
      ⟨"|>", .critical, "Potential special token injection"⟩,
      ⟨"[INST]", .critical, "Potential instruction token injection"⟩,
      ⟨"[/INST]", .critical, "Potential instruction token injection"⟩,
      ⟨"new instructions", .high, "Attempt to provide new instructions"⟩,
      ⟨"updated instructions", .high, "Attempt to update instructions"⟩,
      ⟨"```system", .high, "Potential code block instruction injection"⟩,
      ⟨"```bash\nsudo", .medium, "Potential dangerous command injection"⟩ ]
  regex_patterns :=
    [ ⟨regex.new "(?i)base64[:\\s]+[A-Za-z0-9+/=]\x7b50,\x7d", "base64_payload", .medium,
        "Potential encoded payload"⟩,
      ⟨regex.new "(?i)eval\\s*\\(", "eval_call", .high, "Potential code evaluation attempt"⟩,
      ⟨regex.new "(?i)exec\\s*\\(", "exec_call", .high, "Potential code execution attempt"⟩,
      ⟨regex.new "\\x00", "null_byte", .critical, "Null byte injection attempt"⟩ ]

/-- `Sanitizer::escape_content`. -/
def escapeContent (crates : SafetyCrates Re) (content : List Char) : List Char :=
  let escaped := Text.replace "<|".toList "\\<|".toList content
  let escaped := Text.replace "|>".toList "|\\>".toList escaped
  let escaped := Text.replace "[INST]".toList "\\[INST]".toList escaped
  let escaped := Text.replace "[/INST]".toList "\\[/INST]".toList escaped
  let escaped := escaped.filter (· ≠ '\x00')
  let escaped_lines := (Text.lines escaped).map fun line =>
    let trimmed := crates.to_lowercase (line.dropWhile Text.isWhitespace)
    if "system:".toList.isPrefixOf trimmed ∨ "user:".toList.isPrefixOf trimmed ∨
        "assistant:".toList.isPrefixOf trimmed then "[ESCAPED] ".toList ++ line
    else line
  ['\n'].intercalate escaped_lines

/-- `Sanitizer::sanitize`. -/
def sanitize (crates : SafetyCrates Re) (sanitizer : Sanitizer Re) (content : List Char) :
    SanitizedOutput :=
  let needles := sanitizer.patterns.map fun info => info.pattern.toList
  let found := (crates.aho_case_insensitive needles content).map fun mat =>
    let pattern_info := sanitizer.patterns.get (mat.pattern.cast (List.length_map _))
    InjectionWarning.mk pattern_info.pattern pattern_info.severity ⟨mat.start, mat.stop⟩
      pattern_info.description
  let found_regex := sanitizer.regex_patterns.flatMap fun pattern =>
    (crates.regex.find_iter pattern.regex content).map fun location =>
      InjectionWarning.mk pattern.name pattern.severity location pattern.description
  let warnings := (found ++ found_regex).mergeSort fun a b =>
    b.severity.value ≤ a.severity.value
  if warnings.any (·.severity = .critical) then
    ⟨escapeContent crates content, warnings, true⟩
  else ⟨content, warnings, false⟩

end Sanitizer

/-! ### The layer -/

/-- Safety configuration. -/
structure SafetyConfig where
  max_output_length : ℕ
  injection_check_enabled : Bool

/-- Unified safety layer combining sanitizer, validator, and policy. -/
structure SafetyLayer (Re : Type) where
  sanitizer : Sanitizer Re
  policy : Policy Re
  leak_detector : LeakDetector Re
  config : SafetyConfig

namespace SafetyLayer

/-- `SafetyLayer::new`. -/
def new (crates : SafetyCrates Re) (config : SafetyConfig) : SafetyLayer Re where
  sanitizer := .new crates.regex
  policy := .default crates.regex
  leak_detector := .withPatterns crates.regex crates.aho (defaultPatterns crates.regex)
  config := config

def leakNotice : List Char := "[Output blocked due to potential secret leakage]".toList

def policyNotice : List Char := "[Output blocked by safety policy]".toList

/-- The content with which `SafetyLayer::sanitize_tool_output` begins: the output, or the
beginning of it with a notice. -/
def truncate (S : SafetyLayer Re) (output : List Char) : List Char :=
  if S.config.max_output_length < Text.byteLength output then
    let truncated := takeBytes S.config.max_output_length output
    truncated ++ s!"\n\n[... truncated: showing {Text.byteLength truncated}".toList ++
      s!"/{Text.byteLength output} bytes. Use the json tool with ".toList ++
      "source_tool_call_id to query the full output.]".toList
  else output

/-- `SafetyLayer::sanitize_tool_output`. -/
def sanitizeToolOutput (crates : SafetyCrates Re) (S : SafetyLayer Re) (tool_name : String)
    (output : List Char) : SanitizedOutput :=
  let truncated := decide (S.config.max_output_length < Text.byteLength output)
  let content := S.truncate output
  let extra_warnings := if truncated then
      [InjectionWarning.mk "output_too_large" .low ⟨0, output.length⟩
        s!"Output from tool '{tool_name}' was truncated due to size"]
    else []
  match S.leak_detector.scanAndClean crates.regex content with
  | .error _ => ⟨leakNotice, [], true⟩
  | .ok cleaned =>
    let violations := S.policy.check crates.regex cleaned
    if violations.any (·.action = .block) then ⟨policyNotice, [], true⟩
    else
      let force_sanitize := violations.any (·.action = .sanitize)
      let was_modified := truncated || cleaned ≠ content || force_sanitize
      if S.config.injection_check_enabled || force_sanitize then
        let sanitized := S.sanitizer.sanitize crates cleaned
        ⟨sanitized.content, extra_warnings ++ sanitized.warnings,
          sanitized.was_modified || was_modified⟩
      else ⟨cleaned, extra_warnings, was_modified⟩

end SafetyLayer

/-! ### A small instance -/

/-- The rule about system files, for one of them and in lower case, the pattern of a null
character, and nothing of the others. -/
def fileRegex : RegexCrate String where
  new pattern := pattern
  as_str re := re
  find_iter re content :=
    if re = "\\x00" then
      (Search.search [['\x00']] content).map fun mat => ⟨mat.start, mat.stop⟩
    else []
  is_match re content :=
    re = "(?i)(/etc/passwd|/etc/shadow|\\.ssh/|\\.aws/credentials)" ∧
      Text.contains "/etc/passwd".toList content = true

def fileCrates : SafetyCrates String where
  regex := fileRegex
  aho := fun needles => some (Search.search needles)
  aho_case_insensitive := Search.search
  to_lowercase := List.map Char.toLower

end T3Claw.Safety
