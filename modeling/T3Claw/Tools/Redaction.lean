import Mathlib.Algebra.Order.Group.Nat
import T3Claw.Types.Value

/-!
# Redaction of JSON

`tools/redaction.rs`. A key is sensitive if its lower-cased spelling is listed, or by its words. The
list is of spellings with and without separators, so that words that are sensitive only when they
are run together make a sensitive key of some spellings (`redaction_iff`).
-/

namespace T3Claw.Redaction

/-! ### Keys -/

def REDACTED : String := "[REDACTED]"

def SENSITIVE_EXACT : List (List Char) :=
  ["authorization", "proxy-authorization", "cookie", "set-cookie", "x-api-key", "api-key",
    "api_key", "access_token", "refresh_token", "session_token", "id_token", "token", "password",
    "passwd", "secret", "client_secret", "private_key", "apikey", "apisecret"].map String.toList

def SENSITIVE_PARTS : List (List Char) :=
  ["password", "passwd", "secret", "credential", "authorization", "cookie", "apikey",
    "apisecret"].map String.toList

def TOKEN_PARTS : List (List Char) := ["token", "jwt"].map String.toList

def KEY_PARTS : List (List Char) := ["key"].map String.toList

def CONTEXT_PARTS : List (List Char) :=
  ["auth", "oauth", "authorization", "api", "access", "refresh", "session", "bearer", "private",
    "client", "id", "app", "user", "application", "account"].map String.toList

/-- `boundary`: a part begins with the current character. -/
def boundary (prev cur : Char) (next : Option Char) : Bool :=
  (prev.isLower && cur.isUpper) || (prev.isAlpha && cur.isDigit) || (prev.isDigit && cur.isAlpha) ||
    (prev.isUpper && cur.isUpper && next.any Char.isLower)

/-- The loop of `split_camel_case_key_parts`, from the part so far and its last character. -/
def splitFrom (part : List Char) (prev : Char) : List Char → List (List Char)
  | [] => [part]
  | cur :: rest =>
    if boundary prev cur rest.head? then part :: splitFrom [cur] cur rest
    else splitFrom (part ++ [cur]) cur rest

/-- `split_camel_case_key_parts`. -/
def splitCamelCaseKeyParts : List Char → List (List Char)
  | [] => []
  | c :: rest => splitFrom [c] c rest

/-- `tokenize_key_parts`. -/
def tokenizeKeyParts (key : List Char) : List (List Char) :=
  let segments := (key.splitOnP fun c => !c.isAlphanum).filter (· ≠ [])
  (segments.flatMap splitCamelCaseKeyParts).map (·.map Char.toLower)

/-- `has_exact`. -/
def hasExact (parts candidates : List (List Char)) : Bool :=
  parts.any fun part => candidates.contains part

/-- `has_candidate_or_numbered_variant`. -/
def hasCandidateOrNumberedVariant (parts candidates : List (List Char)) : Bool :=
  parts.any fun part => candidates.any fun candidate =>
    part == candidate || (candidate.isPrefixOf part &&
      part.drop candidate.length != [] && (part.drop candidate.length).all Char.isDigit)

/-- `has_contextual_suffix`. -/
def hasContextualSuffix (parts candidates : List (List Char)) : Bool :=
  parts.any fun part => candidates.any fun candidate =>
    let front := part.take (part.length - candidate.length)
    candidate.isSuffixOf part && front != [] && CONTEXT_PARTS.contains front

/-- What `is_sensitive_key` finds in the parts of a key. -/
def sensitiveParts (parts : List (List Char)) : Bool :=
  let has_token := hasCandidateOrNumberedVariant parts TOKEN_PARTS
  let has_key := hasCandidateOrNumberedVariant parts KEY_PARTS
  hasCandidateOrNumberedVariant parts SENSITIVE_PARTS || (has_token && has_key) ||
    hasContextualSuffix parts TOKEN_PARTS || hasContextualSuffix parts KEY_PARTS ||
    (hasExact parts CONTEXT_PARTS && (has_token || has_key))

/-- `is_sensitive_key`. No parts are not sensitive. -/
def isSensitiveKey (key : List Char) : Bool :=
  SENSITIVE_EXACT.contains (key.map Char.toLower) || sensitiveParts (tokenizeKeyParts key)

/-! ### Values -/

/-- `redact_sensitive_json`. -/
def redactSensitiveJson : Value → Value
  | .array length item => .array length fun i => redactSensitiveJson (item i)
  | .object length key ascending value => .object length key ascending fun i =>
    if isSensitiveKey (key i).toList then .string REDACTED else redactSensitiveJson (value i)
  | value => value

/-- Values that differ in what is stored under sensitive keys only. -/
inductive SameBut : Value → Value → Prop
  | refl (value : Value) : SameBut value value
  | array {length : ℕ} {item item' : Fin length → Value} (h : ∀ i, SameBut (item i) (item' i)) :
      SameBut (.array length item) (.array length item')
  | object {length : ℕ} {key : Fin length → String} {ascending : StrictMono key}
      {value value' : Fin length → Value}
      (h : ∀ i, isSensitiveKey (key i).toList = false → SameBut (value i) (value' i)) :
      SameBut (.object length key ascending value) (.object length key ascending value')

/-- Redaction does not show what is stored under sensitive keys. -/
theorem redact_eq {value value' : Value} (h : SameBut value value') :
    redactSensitiveJson value = redactSensitiveJson value' := by
  induction h with
  | refl value => rfl
  | array h ih => exact congrArg (Value.array _) (funext ih)
  | object h ih =>
    refine congrArg (Value.object _ _ _) (funext fun i => ?_)
    cases hkey : isSensitiveKey _ with
    | true => rfl
    | false => exact ih i hkey

/-- Redaction changes nothing else. -/
theorem sameBut_redact (value : Value) : SameBut value (redactSensitiveJson value) := by
  induction value with
  | null | bool | number | string => exact .refl _
  | array length item ih => exact .array ih
  | object length key ascending value ih =>
    refine .object fun i hkey => ?_
    rw [hkey]
    exact ih i

/-! ### Spellings -/

/-- A word: two lower-case letters, or more. -/
structure Word (word : List Char) : Prop where
  letters : ∀ c ∈ word, c.isLower = true
  length : 2 ≤ word.length

theorem Word.exists_cons {word : List Char} (h : Word word) :
    ∃ c d rest, word = c :: d :: rest := by
  obtain ⟨c, rest, rfl⟩ := List.exists_cons_of_length_pos (Nat.zero_lt_of_lt h.length)
  have hrest : 0 < rest.length := Nat.lt_of_succ_lt_succ h.length
  obtain ⟨d, rest, rfl⟩ := List.exists_cons_of_length_pos hrest
  exact ⟨c, d, rest, rfl⟩

/-- A word with an upper-case letter in front. -/
def capitalize : List Char → List Char
  | [] => []
  | c :: rest => c.toUpper :: rest

def snakeCase (words : List (List Char)) : List Char := ['_'].intercalate words

def kebabCase (words : List (List Char)) : List Char := ['-'].intercalate words

def pascalCase (words : List (List Char)) : List Char := words.flatMap capitalize

def camelCase : List (List Char) → List Char
  | [] => []
  | word :: words => word ++ pascalCase words

def screamingSnakeCase (words : List (List Char)) : List Char := (snakeCase words).map Char.toUpper

/-- The spellings of some words. -/
def spellings (words : List (List Char)) : List (List Char) :=
  [snakeCase words, kebabCase words, camelCase words, pascalCase words, screamingSnakeCase words]

/-- The spellings are classified the same. -/
def SpellingsAgree (words : List (List Char)) : Prop :=
  ∀ key ∈ spellings words, ∀ key' ∈ spellings words, isSensitiveKey key = isSensitiveKey key'

/-! ### The letters -/

theorem exists_of_isLower {c : Char} (h : c.isLower = true) :
    ∃ n < 26, c = Char.ofNat (97 + n) := by
  have hboth : (decide (97 ≤ c.val) && decide (c.val ≤ 122)) = true := h
  rw [Bool.and_eq_true_iff, decide_eq_true_iff, decide_eq_true_iff] at hboth
  obtain ⟨hle, hge⟩ : 97 ≤ c.toNat ∧ c.toNat ≤ 122 := hboth
  refine ⟨c.toNat - 97, by omega, ?_⟩
  rw [Nat.add_sub_cancel' hle, Char.ofNat_toNat]

/-- What is used of lower-case letters. -/
theorem letter_facts {c : Char} (h : c.isLower = true) :
    c.isUpper = false ∧ c.isDigit = false ∧ c.isAlpha = true ∧ c.toLower = c ∧
      c.toUpper.isUpper = true ∧ c.toUpper.isLower = false ∧ c.toUpper.isDigit = false ∧
        c.toUpper.isAlpha = true ∧ c.toUpper.toLower = c := by
  obtain ⟨n, hn, rfl⟩ := exists_of_isLower h
  have hall : ∀ n < 26, let c := Char.ofNat (97 + n)
      c.isUpper = false ∧ c.isDigit = false ∧ c.isAlpha = true ∧ c.toLower = c ∧
        c.toUpper.isUpper = true ∧ c.toUpper.isLower = false ∧ c.toUpper.isDigit = false ∧
          c.toUpper.isAlpha = true ∧ c.toUpper.toLower = c := by decide
  exact hall n hn

theorem boundary_lower {prev cur : Char} (hprev : prev.isDigit = false)
    (hcur : cur.isLower = true) (next : Option Char) : boundary prev cur next = false := by
  obtain ⟨hupper, hdigit, -⟩ := letter_facts hcur
  simp [boundary, hupper, hdigit, hprev]

theorem boundary_capital {prev cur : Char} (hprev : prev.isLower = true)
    (hcur : cur.isLower = true) (next : Option Char) : boundary prev cur.toUpper next = true := by
  obtain ⟨-, -, -, -, hupper, -⟩ := letter_facts hcur
  simp [boundary, hprev, hupper]

theorem boundary_upper {prev cur : Char} (hprev : prev.isLower = true) (hcur : cur.isLower = true)
    {next : Option Char} (hnext : next.any Char.isLower = false) :
    boundary prev.toUpper cur.toUpper next = false := by
  obtain ⟨-, -, -, -, -, hlower, hdigit, -⟩ := letter_facts hprev
  obtain ⟨-, -, -, -, -, -, hdigit', -⟩ := letter_facts hcur
  simp [boundary, hlower, hdigit, hdigit', hnext]

/-! ### The parts of a spelling -/

/-- Lower-case letters stay in the part they stand behind. -/
theorem splitFrom_lower {word : List Char} (hword : ∀ c ∈ word, c.isLower = true)
    (rest : List Char) {prev : Char} (hprev : prev.isDigit = false) (part : List Char) :
    splitFrom part prev (word ++ rest) = splitFrom (part ++ word) (word.getLastD prev) rest := by
  induction word generalizing part prev with
  | nil => simp
  | cons c word ih =>
    obtain ⟨hc, hword⟩ := List.forall_mem_cons.mp hword
    obtain ⟨-, hdigit, -⟩ := letter_facts hc
    rw [List.cons_append, splitFrom, boundary_lower hprev hc, if_neg Bool.false_ne_true,
      ih hword hdigit, List.getLastD_cons, List.append_assoc, List.singleton_append]

/-- Upper-case letters do, too, if there is no lower-case letter behind them. -/
theorem splitFrom_upper {word : List Char} (hword : ∀ c ∈ word, c.isLower = true) {prev : Char}
    (hprev : prev.isLower = true) (part : List Char) :
    splitFrom part prev.toUpper (word.map Char.toUpper) = [part ++ word.map Char.toUpper] := by
  induction word generalizing part prev with
  | nil => rw [List.map_nil, splitFrom, List.append_nil]
  | cons c word ih =>
    obtain ⟨hc, hword⟩ := List.forall_mem_cons.mp hword
    have hnext : (word.map Char.toUpper).head?.any Char.isLower = false := by
      cases word with
      | nil => rfl
      | cons d word =>
        obtain ⟨-, -, -, -, -, hlower, -⟩ := letter_facts (hword d List.mem_cons_self)
        simp [hlower]
    rw [List.map_cons, splitFrom, boundary_upper hprev hc hnext, if_neg Bool.false_ne_true,
      ih hword hc, List.append_assoc, List.singleton_append]

theorem isLower_getLastD {c : Char} {word : List Char} (h : ∀ d ∈ c :: word, d.isLower = true)
    (prev : Char) : ((c :: word).getLastD prev).isLower = true := by
  rw [List.getLastD_cons, List.getLastD_eq_getLast?]
  cases hlast : word.getLast? with
  | none => exact h c List.mem_cons_self
  | some d => exact h d (List.mem_cons_of_mem _ (List.mem_of_getLast? hlast))

/-- Behind a lower-case letter every capital begins a part. -/
theorem splitFrom_pascal {words : List (List Char)} (hwords : ∀ word ∈ words, Word word)
    {prev : Char} (hprev : prev.isLower = true) (part : List Char) :
    splitFrom part prev (pascalCase words) = part :: words.map capitalize := by
  induction words generalizing part prev with
  | nil => rfl
  | cons word words ih =>
    obtain ⟨hword, hothers⟩ := List.forall_mem_cons.mp hwords
    obtain ⟨c, d, word, rfl⟩ := hword.exists_cons
    obtain ⟨hc, hrest⟩ := List.forall_mem_cons.mp hword.letters
    obtain ⟨-, -, -, -, -, -, hdigit, -⟩ := letter_facts hc
    rw [pascalCase, List.flatMap_cons, ← pascalCase, capitalize, List.cons_append, splitFrom,
      boundary_capital hprev hc, if_pos rfl, splitFrom_lower hrest _ hdigit,
      ih hothers (isLower_getLastD hrest _)]
    rfl

/-- `split_camel_case_key_parts` of a word, as it stands or in upper case. -/
theorem splitCamelCaseKeyParts_word {word : List Char} (h : Word word) :
    splitCamelCaseKeyParts word = [word] ∧
      splitCamelCaseKeyParts (word.map Char.toUpper) = [word.map Char.toUpper] := by
  obtain ⟨c, d, word, rfl⟩ := h.exists_cons
  obtain ⟨hc, hrest⟩ := List.forall_mem_cons.mp h.letters
  obtain ⟨-, hdigit, -⟩ := letter_facts hc
  constructor
  · have hsplit := splitFrom_lower hrest [] hdigit [c]
    rw [List.append_nil] at hsplit
    rw [splitCamelCaseKeyParts, hsplit]
    rfl
  · exact splitFrom_upper hrest hc [c.toUpper]

theorem splitCamelCaseKeyParts_camel {word : List Char} {words : List (List Char)} (h : Word word)
    (hwords : ∀ word ∈ words, Word word) :
    splitCamelCaseKeyParts (word ++ pascalCase words) = word :: words.map capitalize ∧
      splitCamelCaseKeyParts (capitalize word ++ pascalCase words) =
        capitalize word :: words.map capitalize := by
  obtain ⟨c, d, word, rfl⟩ := h.exists_cons
  obtain ⟨hc, hrest⟩ := List.forall_mem_cons.mp h.letters
  obtain ⟨-, hdigit, -, -, -, -, hdigit', -⟩ := letter_facts hc
  constructor
  · rw [List.cons_append, splitCamelCaseKeyParts, splitFrom_lower hrest _ hdigit,
      splitFrom_pascal hwords (isLower_getLastD hrest c)]
    rfl
  · rw [capitalize, List.cons_append, splitCamelCaseKeyParts, splitFrom_lower hrest _ hdigit',
      splitFrom_pascal hwords (isLower_getLastD hrest _)]
    rfl

/-- Parts that are separated. -/
theorem splitOnP_intercalate {p : Char → Bool} {sep : Char} (hsep : p sep = true)
    {segments : List (List Char)} (hne : segments ≠ [])
    (h : ∀ segment ∈ segments, ∀ c ∈ segment, p c = false) :
    ([sep].intercalate segments).splitOnP p = segments := by
  induction segments with
  | nil => exact absurd rfl hne
  | cons segment segments ih =>
    obtain ⟨hsegment, hsegments⟩ := List.forall_mem_cons.mp h
    cases segments with
    | nil => simpa using List.splitOnP_eq_singleton hsegment
    | cons next segments =>
      rw [List.intercalate_cons_cons, List.append_assoc, List.singleton_append,
        List.splitOnP_append_cons _ _ hsep, List.splitOnP_eq_singleton hsegment,
        ih (List.cons_ne_nil _ _) hsegments, List.singleton_append]

/-- The parts of a key that is made of segments. -/
theorem tokenizeKeyParts_intercalate {sep : Char} (hsep : sep.isAlphanum = false)
    {segments : List (List Char)} (hne : segments ≠ [])
    (h : ∀ segment ∈ segments, segment ≠ [] ∧ ∀ c ∈ segment, c.isAlphanum = true) :
    tokenizeKeyParts ([sep].intercalate segments) =
      (segments.flatMap splitCamelCaseKeyParts).map (·.map Char.toLower) := by
  have hsplit : ([sep].intercalate segments).splitOnP (fun c => !c.isAlphanum) = segments :=
    splitOnP_intercalate (by simp [hsep]) hne fun segment hs c hc => by simp [(h segment hs).2 c hc]
  have hkept : segments.filter (· ≠ []) = segments :=
    List.filter_eq_self.mpr fun segment hs => by simpa using (h segment hs).1
  rw [tokenizeKeyParts, hsplit, hkept]

theorem Word.isAlphanum {word : List Char} (h : Word word) :
    (word ≠ [] ∧ ∀ c ∈ word, c.isAlphanum = true) ∧
      (capitalize word ≠ [] ∧ ∀ c ∈ capitalize word, c.isAlphanum = true) ∧
        word.map Char.toUpper ≠ [] ∧ ∀ c ∈ word.map Char.toUpper, c.isAlphanum = true := by
  have hlower : ∀ c ∈ word, c.isAlphanum = true ∧ c.toUpper.isAlphanum = true := fun c hc => by
    obtain ⟨-, -, halpha, -, -, -, -, halpha', -⟩ := letter_facts (h.letters c hc)
    simp [Char.isAlphanum, halpha, halpha']
  obtain ⟨c, d, word, rfl⟩ := h.exists_cons
  refine ⟨⟨List.cons_ne_nil _ _, fun c hc => (hlower c hc).1⟩, ⟨List.cons_ne_nil _ _, ?_⟩,
    List.cons_ne_nil _ _, fun e he => ?_⟩
  · refine List.forall_mem_cons.mpr ⟨(hlower c List.mem_cons_self).2, fun e he => ?_⟩
    exact (hlower e (List.mem_cons_of_mem _ he)).1
  · obtain ⟨d, hd, rfl⟩ := List.mem_map.mp he
    exact (hlower d hd).2

theorem Word.toLower {word : List Char} (h : Word word) :
    word.map Char.toLower = word ∧ (capitalize word).map Char.toLower = word ∧
      (word.map Char.toUpper).map Char.toLower = word := by
  have hlower : ∀ c ∈ word, c.toLower = c ∧ c.toUpper.toLower = c := fun c hc => by
    obtain ⟨-, -, -, hlower, -, -, -, -, hupper⟩ := letter_facts (h.letters c hc)
    exact ⟨hlower, hupper⟩
  have hsame : word.map Char.toLower = word :=
    (List.map_congr_left fun c hc => (hlower c hc).1).trans (List.map_id word)
  refine ⟨hsame, ?_, ?_⟩
  · obtain ⟨c, d, word, rfl⟩ := h.exists_cons
    rw [capitalize, List.map_cons, (hlower c List.mem_cons_self).2]
    exact congrArg _ (List.cons_eq_cons.mp hsame).2
  · rw [List.map_map]
    exact (List.map_congr_left fun c hc => (hlower c hc).2).trans (List.map_id word)

theorem map_intercalate (f : Char → Char) (sep : Char) (segments : List (List Char)) :
    ([sep].intercalate segments).map f = [f sep].intercalate (segments.map (·.map f)) := by
  induction segments with
  | nil => rfl
  | cons segment segments ih =>
    cases segments with
    | nil => simp
    | cons next segments =>
      rw [List.intercalate_cons_cons, List.map_append, List.map_append, ih]
      simp [List.intercalate_cons_cons]

/-- Segments that are not split any further. -/
theorem flatMap_splitCamelCaseKeyParts {segments : List (List Char)}
    (h : ∀ segment ∈ segments, splitCamelCaseKeyParts segment = [segment]) :
    segments.flatMap splitCamelCaseKeyParts = segments := by
  induction segments with
  | nil => rfl
  | cons segment segments ih =>
    obtain ⟨hsegment, hsegments⟩ := List.forall_mem_cons.mp h
    rw [List.flatMap_cons, hsegment, ih hsegments, List.singleton_append]

/-- The parts of a key of one segment. -/
theorem tokenizeKeyParts_segment {key : List Char}
    (hkey : key ≠ [] ∧ ∀ c ∈ key, c.isAlphanum = true) :
    tokenizeKeyParts key = (splitCamelCaseKeyParts key).map (·.map Char.toLower) := by
  have hsep : '_'.isAlphanum = false := by decide
  have hone := tokenizeKeyParts_intercalate hsep (List.cons_ne_nil key [])
    (List.forall_mem_singleton.mpr hkey)
  rwa [List.intercalate_singleton, List.flatMap_singleton] at hone

section Spellings

variable {words : List (List Char)} (h : ∀ word ∈ words, Word word)
include h

theorem map_toLower_words : words.map (·.map Char.toLower) = words :=
  (List.map_congr_left fun word hword => (h word hword).toLower.1).trans (List.map_id words)

theorem map_toLower_capitalize : (words.map capitalize).map (·.map Char.toLower) = words := by
  rw [List.map_map]
  exact (List.map_congr_left fun word hword => (h word hword).toLower.2.1).trans (List.map_id words)

theorem map_toLower_toUpper :
    (words.map (·.map Char.toUpper)).map (·.map Char.toLower) = words := by
  rw [List.map_map]
  exact (List.map_congr_left fun word hword => (h word hword).toLower.2.2).trans (List.map_id words)

theorem toLower_pascalCase : (pascalCase words).map Char.toLower = words.flatten := by
  rw [pascalCase, List.flatMap_def, List.map_flatten, map_toLower_capitalize h]

theorem isAlphanum_pascalCase : ∀ c ∈ pascalCase words, c.isAlphanum = true := by
  intro c hc
  obtain ⟨word, hword, hc⟩ := List.mem_flatMap.mp hc
  exact (h word hword).isAlphanum.2.1.2 c hc

/-- The parts of every spelling are the words. -/
theorem tokenizeKeyParts_spelling {key : List Char} (hkey : key ∈ spellings words) :
    tokenizeKeyParts key = words := by
  obtain rfl | ⟨word, words, rfl⟩ : words = [] ∨ ∃ word others, words = word :: others := by
    cases words <;> simp
  · have hall : ∀ key ∈ spellings [], tokenizeKeyParts key = [] := by decide
    exact hall key hkey
  have hne : word :: words ≠ [] := List.cons_ne_nil word words
  have hlower {sep : Char} (hsep : sep.isAlphanum = false) :
      tokenizeKeyParts ([sep].intercalate (word :: words)) = word :: words := by
    rw [tokenizeKeyParts_intercalate hsep hne fun w hw => (h w hw).isAlphanum.1,
      flatMap_splitCamelCaseKeyParts fun w hw => (splitCamelCaseKeyParts_word (h w hw)).1,
      map_toLower_words h]
  obtain ⟨hword, hwords⟩ := List.forall_mem_cons.mp h
  obtain ⟨hcamel, hpascal⟩ := splitCamelCaseKeyParts_camel hword hwords
  simp only [spellings, List.mem_cons, List.not_mem_nil, or_false] at hkey
  obtain rfl | rfl | rfl | rfl | rfl := hkey
  · exact hlower (by decide)
  · exact hlower (by decide)
  · rw [camelCase, tokenizeKeyParts_segment ⟨by simp [hword.isAlphanum.1.1],
      List.forall_mem_append.mpr ⟨hword.isAlphanum.1.2, isAlphanum_pascalCase hwords⟩⟩, hcamel,
      List.map_cons, hword.toLower.1, map_toLower_capitalize hwords]
  · have hkey : pascalCase (word :: words) = capitalize word ++ pascalCase words := rfl
    rw [hkey, tokenizeKeyParts_segment ⟨by simp [hword.isAlphanum.2.1.1],
      List.forall_mem_append.mpr ⟨hword.isAlphanum.2.1.2, isAlphanum_pascalCase hwords⟩⟩, hpascal,
      List.map_cons, hword.toLower.2.1, map_toLower_capitalize hwords]
  · rw [screamingSnakeCase, snakeCase, map_intercalate,
      tokenizeKeyParts_intercalate (by decide) (by simp)
        (List.forall_mem_map.mpr fun w hw => (h w hw).isAlphanum.2.2),
      flatMap_splitCamelCaseKeyParts
        (List.forall_mem_map.mpr fun w hw => (splitCamelCaseKeyParts_word (h w hw)).2),
      map_toLower_toUpper h]

/-- The spellings in lower case. -/
theorem toLower_spelling :
    (snakeCase words).map Char.toLower = snakeCase words ∧
      (kebabCase words).map Char.toLower = kebabCase words ∧
        (camelCase words).map Char.toLower = words.flatten ∧
          (pascalCase words).map Char.toLower = words.flatten ∧
            (screamingSnakeCase words).map Char.toLower = snakeCase words := by
  refine ⟨?_, ?_, ?_, toLower_pascalCase h, ?_⟩
  · rw [snakeCase, map_intercalate, map_toLower_words h]
    rfl
  · rw [kebabCase, map_intercalate, map_toLower_words h]
    rfl
  · cases words with
    | nil => rfl
    | cons word words =>
      obtain ⟨hword, hwords⟩ := List.forall_mem_cons.mp h
      rw [camelCase, List.map_append, hword.toLower.1, toLower_pascalCase hwords, List.flatten_cons]
  · rw [screamingSnakeCase, snakeCase, map_intercalate, map_intercalate, map_toLower_toUpper h]
    rfl

/-- A listed key with separators is sensitive by its words. -/
theorem sensitiveParts_of_exact {key : List Char} (hkey : key ∈ spellings words)
    (hexact : key ∈ SENSITIVE_EXACT) : sensitiveParts words = true ∨ words.length = 1 := by
  have hall : ∀ key ∈ SENSITIVE_EXACT, sensitiveParts (tokenizeKeyParts key) = true ∨
      (tokenizeKeyParts key).length = 1 := by decide +kernel
  have hparts := hall key hexact
  rwa [tokenizeKeyParts_spelling h hkey] at hparts

end Spellings

/-- The ways to cut a text into words of two letters or more, from the word so far. -/
def cutsFrom (word : List Char) : List Char → List (List (List Char))
  | [] => if 2 ≤ word.length then [[word]] else []
  | c :: rest => cutsFrom (word ++ [c]) rest ++
      if 2 ≤ word.length then (cutsFrom [c] rest).map (word :: ·) else []

theorem mem_cutsFrom {words : List (List Char)} (h : ∀ word ∈ words, 2 ≤ word.length)
    {front back : List Char} (hword : 2 ≤ (front ++ back).length) :
    (front ++ back) :: words ∈ cutsFrom front (back ++ words.flatten) := by
  induction words generalizing front back with
  | nil =>
    rw [List.flatten_nil, List.append_nil]
    induction back generalizing front with
    | nil =>
      rw [List.append_nil] at hword
      rw [List.append_nil, cutsFrom, if_pos hword]
      exact List.mem_singleton.mpr rfl
    | cons c back ih =>
      have hmove : front ++ c :: back = front ++ [c] ++ back := by simp
      rw [cutsFrom, hmove]
      exact List.mem_append_left _ (ih (by rwa [← hmove]))
  | cons word words ihwords =>
    obtain ⟨hnext, hwords⟩ := List.forall_mem_cons.mp h
    induction back generalizing front with
    | nil =>
      rw [List.append_nil] at hword
      cases word with
      | nil => simp at hnext
      | cons c word =>
        rw [List.append_nil, List.nil_append, List.flatten_cons, List.cons_append, cutsFrom,
          if_pos hword]
        refine List.mem_append_right _ (List.mem_map_of_mem ?_)
        exact @ihwords hwords [c] word hnext
    | cons c back ih =>
      have hmove : front ++ c :: back = front ++ [c] ++ back := by simp
      rw [List.cons_append, cutsFrom, hmove]
      exact List.mem_append_left _ (ih (by rwa [← hmove]))

/-- Of the listed keys without separators only two are sensitive by several words. -/
theorem sensitiveParts_iff {words : List (List Char)} (h : ∀ word ∈ words, Word word)
    (hexact : words.flatten ∈ SENSITIVE_EXACT) (hlength : words.length ≠ 1) :
    sensitiveParts words = true ↔ words = ["api".toList, "key".toList] ∨
      words = ["api".toList, "secret".toList] := by
  have hcheck : ((SENSITIVE_EXACT.filter (·.all Char.isLower)).all fun key =>
      (cutsFrom [] key).all fun words => decide (words.length = 1) || !sensitiveParts words ||
        decide (words = ["api".toList, "key".toList] ∨
          words = ["api".toList, "secret".toList])) = true := by decide +kernel
  constructor
  · intro hsensitive
    have hletters : words.flatten.all Char.isLower = true := List.all_eq_true.mpr fun c hc => by
      obtain ⟨word, hword, hc⟩ := List.mem_flatten.mp hc
      exact (h word hword).letters c hc
    have hkey := List.all_eq_true.mp hcheck _ (List.mem_filter.mpr ⟨hexact, hletters⟩)
    have hcut : words ∈ cutsFrom [] words.flatten := by
      cases words with
      | nil => exact absurd hexact (by decide +kernel)
      | cons word words =>
        obtain ⟨hword, hwords⟩ := List.forall_mem_cons.mp h
        exact @mem_cutsFrom words (fun w hw => (hwords w hw).length) [] word hword.length
    have hwords := List.all_eq_true.mp hkey words hcut
    rw [decide_eq_false hlength, hsensitive, Bool.not_true, Bool.or_false, Bool.false_or] at hwords
    exact of_decide_eq_true hwords
  · rintro (rfl | rfl) <;> decide +kernel

/-! ### Keys and values -/

/-- Run together, the words are no listed key; or there is one word, or the key is sensitive by its
words. -/
def SpellingCondition (words : List (List Char)) : Prop :=
  words.flatten ∈ SENSITIVE_EXACT → words.length = 1 ∨ words = ["api".toList, "key".toList] ∨
    words = ["api".toList, "secret".toList]

theorem isSensitiveKey_spelling {words : List (List Char)} (h : ∀ word ∈ words, Word word)
    {key : List Char} (hkey : key ∈ spellings words) :
    isSensitiveKey key =
      (SENSITIVE_EXACT.contains (key.map Char.toLower) || sensitiveParts words) := by
  rw [isSensitiveKey, tokenizeKeyParts_spelling h hkey]

/-- The spellings agree where no listed key is made by running words together. -/
theorem spellingsAgree_iff {words : List (List Char)} (h : ∀ word ∈ words, Word word) :
    SpellingsAgree words ↔ SpellingCondition words := by
  obtain ⟨hsnake, hkebab, hcamel, hpascal, hscreaming⟩ := toLower_spelling h
  have hkeys {key : List Char} (hkey : key ∈ spellings words) :
      key.map Char.toLower = snakeCase words ∨ key.map Char.toLower = kebabCase words ∨
        key.map Char.toLower = words.flatten := by
    simp only [spellings, List.mem_cons, List.not_mem_nil, or_false] at hkey
    obtain rfl | rfl | rfl | rfl | rfl := hkey
    · exact .inl hsnake
    · exact .inr (.inl hkebab)
    · exact .inr (.inr hcamel)
    · exact .inr (.inr hpascal)
    · exact .inl hscreaming
  cases hsensitive : sensitiveParts words with
  | true =>
    refine iff_of_true (fun key hkey key' hkey' => ?_) fun hexact => ?_
    · rw [isSensitiveKey_spelling h hkey, isSensitiveKey_spelling h hkey', hsensitive,
        Bool.or_true, Bool.or_true]
    · exact or_iff_not_imp_left.mpr fun hlength =>
        (sensitiveParts_iff h hexact hlength).mp hsensitive
  | false =>
    have hnot (key : List Char) (hkey : key ∈ spellings words) (hexact : key ∈ SENSITIVE_EXACT) :
        words.length = 1 := by
      obtain hparts | hlength := sensitiveParts_of_exact h hkey hexact
      · rw [hsensitive] at hparts
        cases hparts
      · exact hlength
    have hone (hlength : words.length = 1) :
        snakeCase words = words.flatten ∧ kebabCase words = words.flatten := by
      obtain ⟨word, rfl⟩ := List.length_eq_one_iff.mp hlength
      simp [snakeCase, kebabCase]
    constructor
    · intro hagree hexact
      have hcamelKey : isSensitiveKey (camelCase words) = true := by
        rw [isSensitiveKey_spelling h (by simp [spellings]), hcamel]
        simp [hexact]
      have hsnakeKey := hagree (camelCase words) (by simp [spellings]) (snakeCase words)
        (by simp [spellings])
      rw [hcamelKey, isSensitiveKey_spelling h (by simp [spellings]), hsnake, hsensitive,
        Bool.or_false] at hsnakeKey
      exact .inl (hnot (snakeCase words) (by simp [spellings]) (by simpa using hsnakeKey.symm))
    · intro hcondition
      -- Either one word is all there is, or no spelling is listed.
      have hsame (key : List Char) (hkey : key ∈ spellings words) :
          isSensitiveKey key = SENSITIVE_EXACT.contains words.flatten := by
        rw [isSensitiveKey_spelling h hkey, hsensitive, Bool.or_false]
        by_cases hlength : words.length = 1
        · obtain ⟨hs, hk⟩ := hone hlength
          obtain hkey | hkey | hkey := hkeys hkey <;> rw [hkey]
          · rw [hs]
          · rw [hk]
        · have hflat : words.flatten ∉ SENSITIVE_EXACT := fun hexact => by
            obtain hlength' | hwords := hcondition hexact
            · exact hlength hlength'
            · rw [(sensitiveParts_iff h hexact hlength).mpr hwords] at hsensitive
              cases hsensitive
          have hs : snakeCase words ∉ SENSITIVE_EXACT := fun hexact =>
            hlength (hnot _ (by simp [spellings]) hexact)
          have hk : kebabCase words ∉ SENSITIVE_EXACT := fun hexact =>
            hlength (hnot _ (by simp [spellings]) hexact)
          obtain hkey | hkey | hkey := hkeys hkey <;> rw [hkey] <;> simp [hs, hk, hflat]
      exact fun key hkey key' hkey' => (hsame key hkey).trans (hsame key' hkey').symm

/-- Spellings agree under the condition, and redaction shows nothing of what is stored under
sensitive keys, and changes nothing else. -/
theorem redaction_iff {words : List (List Char)} (h : ∀ word ∈ words, Word word) :
    (SpellingsAgree words ∧ ∀ value value', SameBut value value' →
      redactSensitiveJson value = redactSensitiveJson value' ∧
        SameBut value (redactSensitiveJson value)) ↔ SpellingCondition words := by
  rw [← spellingsAgree_iff h]
  exact and_iff_left fun value value' hsame => ⟨redact_eq hsame, sameBut_redact value⟩

theorem api_key_spelled : (SpellingsAgree ["api".toList, "key".toList] ∧
    ∀ value value', SameBut value value' →
      redactSensitiveJson value = redactSensitiveJson value' ∧
        SameBut value (redactSensitiveJson value)) ↔
          SpellingCondition ["api".toList, "key".toList] := by
  refine redaction_iff (List.forall_mem_cons.mpr ⟨⟨?_, by decide⟩,
    List.forall_mem_singleton.mpr ⟨?_, by decide⟩⟩)
  · exact List.all_eq_true.mp (show "api".toList.all Char.isLower = true by decide)
  · exact List.all_eq_true.mp (show "key".toList.all Char.isLower = true by decide)

/-- `passWord` is sensitive, and `pass_word` is not. -/
theorem pass_word_shown : ¬ SpellingsAgree ["pass".toList, "word".toList] := by
  intro hagree
  have hsame := hagree "passWord".toList (by decide) "pass_word".toList (by decide)
  revert hsame
  decide +kernel

end T3Claw.Redaction
