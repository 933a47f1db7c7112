import T3Claw.Data.Search
import T3Claw.Data.Text

/-!
# The leak detector

`t3claw_safety/src/leak_detector.rs`. A scan first looks for the literal texts that some of the
patterns begin with, all of them in one non-overlapping search, and then runs the patterns that
may match: those whose literal text is related to one that was found, and those without any.

A text is a list of characters, and positions are counted in characters where the source counts
bytes. The `regex` and `aho_corasick` crates are parameters.
-/

namespace T3Claw.Safety

/-- A range of a text. -/
structure Range where
  start : ℕ
  stop : ℕ
  deriving DecidableEq

/-- What is used of `regex`. -/
structure RegexCrate (Re : Type) where
  new : String → Re
  as_str : Re → String
  find_iter : Re → List Char → List Range
  is_match : Re → List Char → Bool

/-- What is used of `aho_corasick`: the matcher that is built for some needles, if it can be
built, and its `find_iter`. -/
abbrev AhoCorasick : Type :=
  (needles : List (List Char)) → Option (List Char → List (Search.Hit needles))

/-- The documented behaviour of `find_iter`, for needles that are not empty. -/
def AhoCorasick.Standard (aho : AhoCorasick) : Prop :=
  ∀ needles, (∀ needle ∈ needles, needle ≠ []) → ∀ find_iter, aho needles = some find_iter →
    ∀ content, Search.StandardSearch needles content 0 (find_iter content)

/-- Action to take when a leak is detected. -/
inductive LeakAction where
  | block
  | redact
  | warn
  deriving DecidableEq

/-- Severity of a detected leak. -/
inductive LeakSeverity where
  | low
  | medium
  | high
  | critical
  deriving DecidableEq

/-- A pattern for detecting secret leaks. -/
structure LeakPattern (Re : Type) where
  name : String
  regex : Re
  severity : LeakSeverity
  action : LeakAction

/-- A detected potential secret leak. -/
structure LeakMatch where
  pattern_name : String
  severity : LeakSeverity
  action : LeakAction
  location : Range
  masked_preview : List Char
  deriving DecidableEq

/-- Result of scanning content for leaks. -/
structure LeakScanResult where
  matches_ : List LeakMatch
  should_block : Bool
  redacted_content : Option (List Char)

/-- Error from leak detection. -/
inductive LeakDetectionError where
  | secretLeakBlocked (pattern : String) (preview : List Char)
  deriving DecidableEq

/-- Detector for secret leaks in output data. -/
structure LeakDetector (Re : Type) where
  patterns : List (LeakPattern Re)
  known_prefixes : List (List Char × Fin patterns.length)
  /-- For fast prefix matching of known patterns. -/
  prefix_matcher : Option (List Char → List (Search.Hit (known_prefixes.map Prod.fst)))

/-- Extract a literal prefix from a regex pattern (if one exists). -/
def extractLiteralPrefix (pattern : String) : Option (List Char) :=
  let literal := pattern.toList.takeWhile fun ch =>
    ch ∉ ['[', '(', '.', '*', '+', '?', '{', '|', '^', '$', '\\']
  if 3 ≤ Text.byteLength literal then some literal else none

/-- Mask a secret for safe display. -/
def maskSecret (secret : List Char) : List Char :=
  let len := Text.byteLength secret
  if len ≤ 8 then List.replicate len '*'
  else secret.take 4 ++ List.replicate (min (len - 8) 8) '*' ++ secret.drop (len - 4)

/-- Apply redaction ranges to content. -/
def applyRedactions (content : List Char) (ranges : List Range) : List Char :=
  let (result, last_end) := ranges.foldl (fun (result, last_end) range =>
    (result ++ (content.drop last_end).take (range.start - last_end) ++ "[REDACTED]".toList,
      range.stop)) ([], 0)
  result ++ content.drop last_end

/-- One text begins the other. -/
def Related (literal other : List Char) : Prop := literal <+: other ∨ other <+: literal

instance (literal other : List Char) : Decidable (Related literal other) :=
  inferInstanceAs (Decidable (_ ∨ _))

/-- Appends the indices of what passes the test, those that are not there yet. -/
def collect {β ι : Type} [DecidableEq ι] (test : β → Prop) [DecidablePred test] (index : β → ι)
    (indices : List ι) (bs : List β) : List ι :=
  bs.foldl (fun indices b =>
    if test b ∧ index b ∉ indices then indices ++ [index b] else indices) indices

/-- What a pattern reports of a text. -/
def LeakPattern.matchesIn {Re : Type} (regex : RegexCrate Re) (content : List Char)
    (pattern : LeakPattern Re) : List LeakMatch :=
  (regex.find_iter pattern.regex content).map fun location =>
    { pattern_name := pattern.name
      severity := pattern.severity
      action := pattern.action
      location
      masked_preview :=
        maskSecret ((content.drop location.start).take (location.stop - location.start)) }

/-- Default leak detection patterns. -/
def defaultPatterns {Re : Type} (regex : RegexCrate Re) : List (LeakPattern Re) :=
  [ ⟨"openai_api_key", regex.new "sk-(?:proj-)?[a-zA-Z0-9]\x7b20,\x7d(?:T3BlbkFJ[a-zA-Z0-9_-]*)?",
      .critical, .block⟩,
    ⟨"anthropic_api_key", regex.new "sk-ant-api[a-zA-Z0-9_-]\x7b90,\x7d", .critical, .block⟩,
    ⟨"aws_access_key", regex.new "AKIA[0-9A-Z]\x7b16\x7d", .critical, .block⟩,
    ⟨"github_token", regex.new "gh[pousr]_[A-Za-z0-9_]\x7b36,\x7d", .critical, .block⟩,
    ⟨"github_fine_grained_pat", regex.new "github_pat_[a-zA-Z0-9]\x7b22\x7d_[a-zA-Z0-9]\x7b59\x7d",
      .critical, .block⟩,
    ⟨"stripe_api_key", regex.new "sk_(?:live|test)_[a-zA-Z0-9]\x7b24,\x7d", .critical, .block⟩,
    ⟨"nearai_session", regex.new "sess_[a-zA-Z0-9]\x7b32,\x7d", .critical, .block⟩,
    ⟨"pem_private_key", regex.new "-----BEGIN\\s+(?:RSA\\s+)?PRIVATE\\s+KEY-----",
      .critical, .block⟩,
    ⟨"ssh_private_key", regex.new "-----BEGIN\\s+(?:OPENSSH|EC|DSA)\\s+PRIVATE\\s+KEY-----",
      .critical, .block⟩,
    ⟨"google_api_key", regex.new "AIza[0-9A-Za-z_-]\x7b35\x7d", .high, .block⟩,
    ⟨"slack_token", regex.new "xox[baprs]-[0-9a-zA-Z-]\x7b10,\x7d", .high, .block⟩,
    ⟨"twilio_api_key", regex.new "SK[a-fA-F0-9]\x7b32\x7d", .high, .block⟩,
    ⟨"sendgrid_api_key", regex.new "SG\\.[a-zA-Z0-9_-]\x7b22\x7d\\.[a-zA-Z0-9_-]\x7b43\x7d",
      .high, .block⟩,
    ⟨"bearer_token", regex.new "Bearer\\s+[a-zA-Z0-9_-]\x7b20,\x7d", .high, .redact⟩,
    ⟨"auth_header", regex.new "(?i)authorization:\\s*[a-zA-Z]+\\s+[a-zA-Z0-9_-]\x7b20,\x7d",
      .high, .redact⟩,
    ⟨"openrouter_api_key", regex.new "\\bsk-or-v1-[a-fA-F0-9]\x7b40,\x7d", .critical, .block⟩,
    ⟨"anthropic_oauth_token", regex.new "\\bsk-ant-oat\\d\x7b2\x7d-[a-zA-Z0-9_-]\x7b50,\x7d",
      .critical, .block⟩,
    ⟨"telegram_bot_token", regex.new "\\b\\d\x7b8,12\x7d:AA[A-Za-z0-9_-]\x7b30,\x7d\\b",
      .critical, .block⟩,
    ⟨"groq_api_key", regex.new "\\bgsk_[A-Za-z0-9]\x7b30,\x7d", .critical, .block⟩,
    ⟨"high_entropy_hex", regex.new "\\b[a-fA-F0-9]\x7b64\x7d\\b", .medium, .warn⟩ ]

namespace LeakDetector

variable {Re : Type}

/-- `LeakDetector::with_patterns`. -/
def withPatterns (regex : RegexCrate Re) (aho : AhoCorasick) (patterns : List (LeakPattern Re)) :
    LeakDetector Re :=
  let prefixes := (List.finRange patterns.length).filterMap fun idx =>
    ((extractLiteralPrefix (regex.as_str (patterns.get idx).regex)).filter
      (3 ≤ Text.byteLength ·)).map (·, idx)
  { patterns
    known_prefixes := prefixes
    prefix_matcher := if prefixes.isEmpty then none else aho (prefixes.map Prod.fst) }

/-- The patterns a scan runs. -/
def candidateIndices (d : LeakDetector Re) (content : List Char) :
    List (Fin d.patterns.length) :=
  match d.prefix_matcher with
  | none => List.finRange d.patterns.length
  | some find_iter =>
    let indices := (find_iter content).foldl (fun indices mat =>
      collect (fun known => Related known.1 mat.text) Prod.snd indices d.known_prefixes) []
    collect (fun idx => ∀ known ∈ d.known_prefixes, known.2 ≠ idx) id indices
      (List.finRange d.patterns.length)

/-- `LeakDetector::scan`. -/
def scan (regex : RegexCrate Re) (d : LeakDetector Re) (content : List Char) : LeakScanResult :=
  let matches_ := (d.candidateIndices content).flatMap fun idx =>
    (d.patterns.get idx).matchesIn regex content
  let redact_ranges := (matches_.filter (·.action = .redact)).map LeakMatch.location
  let sorted := redact_ranges.mergeSort fun a b => a.start ≤ b.start
  { matches_ := matches_.mergeSort fun a b => a.location.start ≤ b.location.start
    should_block := matches_.any (·.action = .block)
    redacted_content :=
      if sorted.isEmpty then none else some (applyRedactions content sorted) }

/-- `LeakDetector::scan_and_clean`. -/
def scanAndClean (regex : RegexCrate Re) (d : LeakDetector Re) (content : List Char) :
    Except LeakDetectionError (List Char) :=
  let result := d.scan regex content
  if result.should_block then
    let blocking_match := result.matches_.find? (·.action = .block)
    .error (.secretLeakBlocked ((blocking_match.map LeakMatch.pattern_name).getD "")
      ((blocking_match.map LeakMatch.masked_preview).getD []))
  else .ok (result.redacted_content.getD content)

end LeakDetector

end T3Claw.Safety
