import T3Claw.Data.Text
import T3Claw.Types.Value

/-!
# Validating tool parameters

`t3claw_safety/src/validator.rs`. `validate_tool_params` walks a JSON value and validates each
string in it, adding to one result as it goes, but goes no deeper than through `MAX_DEPTH` arrays
and objects. `leaves` lists the strings of a value in the order of the walk, each with its path
and its depth; the result is what the strings that are not too deep give, put together
(`checkStrings_eq`).
-/

namespace T3Claw.Safety

/-- Error codes for programmatic handling. -/
inductive ValidationErrorCode where
  | empty
  | tooLong
  | tooShort
  | invalidFormat
  | forbiddenContent
  | invalidEncoding
  | suspiciousPattern
  deriving DecidableEq

/-- A validation error. -/
structure ValidationError where
  field : String
  message : String
  code : ValidationErrorCode
  deriving DecidableEq

/-- Result of validating input. -/
structure ValidationResult where
  is_valid : Bool
  errors : List ValidationError
  warnings : List String
  deriving DecidableEq

namespace ValidationResult

/-- Create a successful validation result. -/
def ok : ValidationResult := ⟨true, [], []⟩

/-- Create a validation result with an error. -/
def error (e : ValidationError) : ValidationResult := ⟨false, [e], []⟩

/-- Add a warning to the result. -/
def withWarning (result : ValidationResult) (warning : String) : ValidationResult :=
  { result with warnings := result.warnings ++ [warning] }

/-- Merge another validation result into this one. -/
def merge (result other : ValidationResult) : ValidationResult :=
  ⟨result.is_valid && other.is_valid, result.errors ++ other.errors,
    result.warnings ++ other.warnings⟩

@[simp] theorem merge_ok (result : ValidationResult) : result.merge ok = result := by
  simp [merge, ok]

/-- A check: the result as it is, or with an error. -/
def checked (result : ValidationResult) (fails : Bool) (e : ValidationError) : ValidationResult :=
  if fails then result.merge (error e) else result

/-- A warning given on a condition. -/
def warned (result : ValidationResult) (suspicious : Bool) (warning : String) :
    ValidationResult :=
  if suspicious then result.withWarning warning else result

@[simp] theorem checked_is_valid (result : ValidationResult) (fails : Bool)
    (e : ValidationError) :
    (result.checked fails e).is_valid = (result.is_valid && !fails) := by
  cases fails <;> simp [checked, merge, error]

@[simp] theorem warned_is_valid (result : ValidationResult) (suspicious : Bool)
    (warning : String) : (result.warned suspicious warning).is_valid = result.is_valid := by
  cases suspicious <;> rfl

/-- The result with its errors in another field. -/
def moved (result : ValidationResult) (field : String) : ValidationResult :=
  { result with errors := result.errors.map fun e => { e with field := field } }

theorem moved_checked (result : ValidationResult) (field field' message : String) (fails : Bool)
    (code : ValidationErrorCode) :
    (result.checked fails ⟨field', message, code⟩).moved field =
      (result.moved field).checked fails ⟨field, message, code⟩ := by
  cases fails <;> simp [checked, moved, merge, error]

theorem moved_warned (result : ValidationResult) (field : String) (suspicious : Bool)
    (warning : String) :
    (result.warned suspicious warning).moved field =
      (result.moved field).warned suspicious warning := by
  cases suspicious <;> rfl

end ValidationResult

/-- Input validator. The forbidden patterns stand in the order in which the set is iterated. -/
structure Validator where
  max_length : ℕ
  min_length : ℕ
  forbidden_patterns : List String
  distinct : forbidden_patterns.Nodup

/-- The longest run of one character, from behind `previous`. -/
def maxRepeat : Char → ℕ → ℕ → List Char → ℕ
  | _, _, max_repeat, [] => max_repeat
  | previous, current_repeat, max_repeat, c :: cs =>
    if c = previous then maxRepeat c (current_repeat + 1) (max max_repeat (current_repeat + 1)) cs
    else maxRepeat c 1 max_repeat cs

/-- `has_excessive_repetition`. -/
def hasExcessiveRepetition (s : String) : Bool :=
  match s.toList with
  | [] => false
  | c :: cs => if s.utf8ByteSize < 50 then false else 20 < maxRepeat c 1 1 cs

/-- The share of white space is unusually high. -/
def mostlyWhitespace (input : String) : Bool :=
  let whitespace_ratio :=
    (input.toList.countP Text.isWhitespace).toFloat / input.utf8ByteSize.toFloat
  0.9 < whitespace_ratio && 100 < input.utf8ByteSize

namespace Validator

/-- Create a new validator with default settings. -/
def new : Validator := ⟨100000, 1, [], List.nodup_nil⟩

variable (to_lowercase : String → String) (V : Validator)

/-- `validate_non_empty_input`. -/
def validateNonEmptyInput (input field : String) : ValidationResult :=
  let result := ValidationResult.ok
  let result := result.checked (V.max_length < input.utf8ByteSize)
    ⟨field, "Input too long: " ++ toString input.utf8ByteSize ++ " bytes (max " ++
      toString V.max_length ++ ")", .tooLong⟩
  let result := result.checked (input.utf8ByteSize < V.min_length)
    ⟨field, "Input too short: " ++ toString input.utf8ByteSize ++ " bytes (min " ++
      toString V.min_length ++ ")", .tooShort⟩
  let result := result.checked (input.toList.any (· = '\x00'))
    ⟨field, "Input contains null bytes", .invalidEncoding⟩
  let lower_input := to_lowercase input
  let result := V.forbidden_patterns.foldl (fun result pattern =>
    result.checked (Text.contains pattern.toList lower_input.toList)
      ⟨field, "Input contains forbidden pattern: " ++ pattern, .forbiddenContent⟩) result
  let result := result.warned (mostlyWhitespace input)
    "Input has unusually high whitespace ratio"
  result.warned (hasExcessiveRepetition input) "Input has excessive character repetition"

/-- Validate input text. -/
def validate (input : String) : ValidationResult :=
  if input.isEmpty then .error ⟨"input", "Input cannot be empty", .empty⟩
  else V.validateNonEmptyInput to_lowercase input "input"

def MAX_DEPTH : ℕ := 32

/-- The path of an item of an array. -/
def itemPath (path : String) (i : ℕ) : String := path ++ "[" ++ toString i ++ "]"

/-- The path of a field of an object. -/
def fieldPath (path key : String) : String := if path.isEmpty then key else path ++ "." ++ key

/-- `check_strings`. -/
def checkStrings : Value → String → ValidationResult → ℕ → ValidationResult
  | .string s, path, result, depth =>
    if MAX_DEPTH < depth then result
    else
      result.merge
        (if s.isEmpty then .ok else V.validateNonEmptyInput to_lowercase s path)
  | .array length item, path, result, depth =>
    if MAX_DEPTH < depth then result
    else
      (List.finRange length).foldl
        (fun result i => checkStrings (item i) (itemPath path i) result (depth + 1)) result
  | .object length key _ value, path, result, depth =>
    if MAX_DEPTH < depth then result
    else
      (List.finRange length).foldl
        (fun result i => checkStrings (value i) (fieldPath path (key i)) result (depth + 1)) result
  | _, _, result, _ => result

/-- Validate tool parameters. -/
def validateToolParams (params : Value) : ValidationResult :=
  V.checkStrings to_lowercase params "" .ok 0

end Validator

/-! ### The strings of a value -/

/-- A string in a value, its path, and the arrays and objects it is in. -/
structure Leaf where
  text : String
  path : String
  depth : ℕ

open Validator (itemPath fieldPath MAX_DEPTH)

/-- The strings of a value that is at a path and a depth, in the order of the document. -/
def leavesFrom : Value → String → ℕ → List Leaf
  | .string s, path, depth => [⟨s, path, depth⟩]
  | .array length item, path, depth =>
    (List.finRange length).flatMap fun i => leavesFrom (item i) (itemPath path i) (depth + 1)
  | .object length key _ value, path, depth =>
    (List.finRange length).flatMap fun i =>
      leavesFrom (value i) (fieldPath path (key i)) (depth + 1)
  | _, _, _ => []

/-- The strings of a value. -/
def leaves (value : Value) : List Leaf := leavesFrom value "" 0

/-- The walk comes to the string, and it is not empty. -/
def Leaf.isChecked (leaf : Leaf) : Bool := leaf.depth ≤ MAX_DEPTH && !leaf.text.isEmpty

theorem le_depth_leavesFrom {value : Value} {path : String} {depth : ℕ} {leaf : Leaf}
    (h : leaf ∈ leavesFrom value path depth) : depth ≤ leaf.depth := by
  induction value generalizing path depth with
  | null | bool | number => cases h
  | string s =>
    obtain rfl := List.mem_singleton.mp h
    exact Nat.le_refl _
  | array length item ih =>
    obtain ⟨i, -, hi⟩ := List.mem_flatMap.mp h
    exact (Nat.le_succ depth).trans (ih i hi)
  | object length key ascending value ih =>
    obtain ⟨i, -, hi⟩ := List.mem_flatMap.mp h
    exact (Nat.le_succ depth).trans (ih i hi)

namespace Validator

variable {to_lowercase : String → String} {V : Validator}

variable (to_lowercase V) in
/-- What a string gives. -/
def judge (leaf : Leaf) : ValidationResult :=
  if leaf.isChecked then V.validateNonEmptyInput to_lowercase leaf.text leaf.path else .ok

variable (to_lowercase V) in
/-- The results of some strings merged into a result. -/
def judgeAll (result : ValidationResult) (list : List Leaf) : ValidationResult :=
  list.foldl (fun result leaf => result.merge (V.judge to_lowercase leaf)) result

theorem judgeAll_of_deep {list : List Leaf} (result : ValidationResult)
    (h : ∀ leaf ∈ list, MAX_DEPTH < leaf.depth) : V.judgeAll to_lowercase result list = result := by
  induction list with
  | nil => rfl
  | cons leaf rest ih =>
    obtain ⟨hleaf, hrest⟩ := List.forall_mem_cons.mp h
    have hok : V.judge to_lowercase leaf = .ok := by
      rw [judge, if_neg]
      simp [Leaf.isChecked, hleaf.not_ge]
    rw [judgeAll, List.foldl_cons, hok, ValidationResult.merge_ok]
    exact ih hrest

theorem judgeAll_flatMap {length : ℕ} (f : Fin length → List Leaf) (result : ValidationResult) :
    V.judgeAll to_lowercase result ((List.finRange length).flatMap f) =
      (List.finRange length).foldl (fun result i => V.judgeAll to_lowercase result (f i)) result :=
  List.foldl_flatMap

/-- **The walk** merges the results of the strings it comes to, in their order. -/
theorem checkStrings_eq (value : Value) (path : String) (result : ValidationResult) (depth : ℕ) :
    V.checkStrings to_lowercase value path result depth =
      V.judgeAll to_lowercase result (leavesFrom value path depth) := by
  induction value generalizing path result depth with
  | null | bool | number => rfl
  | string s =>
    have hjudge : V.judge to_lowercase ⟨s, path, depth⟩ = if MAX_DEPTH < depth then .ok
        else if s.isEmpty then .ok else V.validateNonEmptyInput to_lowercase s path := by
      by_cases hdepth : MAX_DEPTH < depth
      · simp [judge, Leaf.isChecked, hdepth, hdepth.not_ge]
      · by_cases hempty : s.isEmpty = true
        · simp [judge, Leaf.isChecked, hempty]
        · simp [judge, Leaf.isChecked, hdepth, hempty, not_lt.mp hdepth]
    rw [leavesFrom, judgeAll, List.foldl_cons, List.foldl_nil, hjudge, checkStrings]
    split_ifs with hdepth
    · exact (ValidationResult.merge_ok result).symm
    · rfl
    · rfl
  | array length item ih =>
    rw [checkStrings]
    split_ifs with hdepth
    · exact (judgeAll_of_deep result fun leaf hleaf =>
        hdepth.trans_le (le_depth_leavesFrom hleaf)).symm
    · rw [leavesFrom, judgeAll_flatMap]
      exact congrArg (fun f => (List.finRange length).foldl f result)
        (funext fun result => funext fun i => ih i _ result _)
  | object length key ascending value ih =>
    rw [checkStrings]
    split_ifs with hdepth
    · exact (judgeAll_of_deep result fun leaf hleaf =>
        hdepth.trans_le (le_depth_leavesFrom hleaf)).symm
    · rw [leavesFrom, judgeAll_flatMap]
      exact congrArg (fun f => (List.finRange length).foldl f result)
        (funext fun result => funext fun i => ih i _ result _)

theorem judgeAll_is_valid (result : ValidationResult) (list : List Leaf) :
    (V.judgeAll to_lowercase result list).is_valid =
      (result.is_valid && list.all fun leaf => (V.judge to_lowercase leaf).is_valid) := by
  induction list generalizing result with
  | nil => simp [judgeAll]
  | cons leaf rest ih =>
    rw [judgeAll, List.foldl_cons, ← judgeAll, ih, List.all_cons, ValidationResult.merge,
      Bool.and_assoc]

theorem judgeAll_errors (result : ValidationResult) (list : List Leaf) :
    (V.judgeAll to_lowercase result list).errors =
      result.errors ++ list.flatMap fun leaf => (V.judge to_lowercase leaf).errors := by
  induction list generalizing result with
  | nil => simp [judgeAll]
  | cons leaf rest ih =>
    rw [judgeAll, List.foldl_cons, ← judgeAll, ih, List.flatMap_cons, ValidationResult.merge,
      List.append_assoc]

/-! ### What one string gives -/

variable (to_lowercase V) in
/-- The length, null byte and pattern checks. -/
def Passes (s : String) : Prop :=
  V.min_length ≤ s.utf8ByteSize ∧ s.utf8ByteSize ≤ V.max_length ∧ '\x00' ∉ s.toList ∧
    ∀ pattern ∈ V.forbidden_patterns,
      Text.contains pattern.toList (to_lowercase s).toList = false

/-- The forbidden patterns, one after the other. -/
theorem foldl_checked_is_valid (fails : String → Bool) (e : String → ValidationError)
    (patterns : List String) (result : ValidationResult) :
    (patterns.foldl (fun result pattern => result.checked (fails pattern) (e pattern))
      result).is_valid = (result.is_valid && patterns.all fun pattern => !fails pattern) := by
  induction patterns generalizing result with
  | nil => simp
  | cons pattern rest ih =>
    rw [List.foldl_cons, ih, ValidationResult.checked_is_valid, List.all_cons, Bool.and_assoc]

theorem validateNonEmptyInput_is_valid (s field : String) :
    (V.validateNonEmptyInput to_lowercase s field).is_valid = true ↔
      V.Passes to_lowercase s := by
  have hnul : s.toList.any (· = '\x00') = true ↔ '\x00' ∈ s.toList := by simp
  simp only [validateNonEmptyInput, ValidationResult.warned_is_valid, foldl_checked_is_valid,
    ValidationResult.checked_is_valid, Passes, Bool.and_eq_true, List.all_eq_true,
    Bool.not_eq_true', Bool.eq_false_iff, ne_eq, hnul, decide_eq_true_eq, not_lt,
    ValidationResult.ok, true_and, and_assoc]
  tauto

/-- The name of the field is in the errors, and makes no other difference. -/
theorem validateNonEmptyInput_field (s field : String) :
    V.validateNonEmptyInput to_lowercase s field =
      (V.validateNonEmptyInput to_lowercase s "input").moved field := by
  have hfold : ∀ (patterns : List String) (result : ValidationResult),
      patterns.foldl (fun result pattern =>
          result.checked (Text.contains pattern.toList (to_lowercase s).toList)
            ⟨field, "Input contains forbidden pattern: " ++ pattern, .forbiddenContent⟩)
          (result.moved field) =
        (patterns.foldl (fun result pattern =>
          result.checked (Text.contains pattern.toList (to_lowercase s).toList)
            ⟨"input", "Input contains forbidden pattern: " ++ pattern, .forbiddenContent⟩)
          result).moved field := by
    intro patterns
    induction patterns with
    | nil => exact fun result => rfl
    | cons pattern rest ih =>
      intro result
      rw [List.foldl_cons, List.foldl_cons, ← ih, ValidationResult.moved_checked]
  simp only [validateNonEmptyInput, ValidationResult.moved_warned, ← hfold,
    ValidationResult.moved_checked]
  rfl

theorem validate_of_ne {s : String} (h : s ≠ "") :
    V.validate to_lowercase s = V.validateNonEmptyInput to_lowercase s "input" := by
  rw [validate, if_neg]
  simpa using h

theorem flatMap_ite {α β : Type} (p : α → Bool) (f : α → List β) (list : List α) :
    (list.flatMap fun a => if p a then f a else []) = (list.filter p).flatMap f := by
  induction list with
  | nil => rfl
  | cons a rest ih =>
    by_cases h : p a = true
    · rw [List.flatMap_cons, if_pos h, List.filter_cons_of_pos h, List.flatMap_cons, ih]
    · rw [List.flatMap_cons, if_neg h, List.filter_cons_of_neg h, List.nil_append, ih]

/-- **Tool parameters are validated** down to `MAX_DEPTH`: they are valid if and only if every
string that is not empty, and in no more arrays and objects than that, passes the checks, and the
errors are those of these strings, in the order of the document and under their paths. -/
theorem validateToolParams_iff (to_lowercase : String → String) (V : Validator)
    (params : Value) :
    ((V.validateToolParams to_lowercase params).is_valid = true ↔
      ∀ leaf ∈ leaves params, leaf.depth ≤ MAX_DEPTH → leaf.text ≠ "" →
        V.Passes to_lowercase leaf.text) ∧
    (V.validateToolParams to_lowercase params).errors =
      ((leaves params).filter Leaf.isChecked).flatMap fun leaf =>
        (V.validate to_lowercase leaf.text).errors.map fun e =>
          { e with field := leaf.path } := by
  have hchecked : ∀ leaf : Leaf, leaf.isChecked = true ↔
      leaf.depth ≤ MAX_DEPTH ∧ leaf.text ≠ "" := by simp [Leaf.isChecked]
  have hwalk : V.validateToolParams to_lowercase params =
      V.judgeAll to_lowercase .ok (leaves params) := checkStrings_eq params "" .ok 0
  rw [hwalk, judgeAll_is_valid, judgeAll_errors]
  constructor
  · rw [ValidationResult.ok, Bool.true_and, List.all_eq_true]
    refine forall₂_congr fun leaf _ => ?_
    rw [← and_imp, ← hchecked, judge]
    split_ifs with h
    · simp [validateNonEmptyInput_is_valid, h]
    · simp [h, ValidationResult.ok]
  · have herrors : ∀ leaf : Leaf, (V.judge to_lowercase leaf).errors =
        if leaf.isChecked then (V.validate to_lowercase leaf.text).errors.map fun e =>
          { e with field := leaf.path } else [] := by
      intro leaf
      rw [judge]
      split_ifs with h
      · have hne : leaf.text ≠ "" := ((hchecked leaf).mp h).2
        rw [validateNonEmptyInput_field, validate_of_ne hne, ValidationResult.moved]
      · rfl
    rw [ValidationResult.ok, List.nil_append, funext herrors, flatMap_ite]

/-- A text in some arrays, one in the other. -/
def nested (s : String) : ℕ → Value
  | 0 => .string s
  | n + 1 => .array 1 fun _ => nested s n

theorem leavesFrom_nested (s : String) (n : ℕ) (path : String) (depth : ℕ) :
    ∃ path', leavesFrom (nested s n) path depth = [⟨s, path', depth + n⟩] := by
  induction n generalizing path depth with
  | zero => exact ⟨path, rfl⟩
  | succ n ih =>
    obtain ⟨path', h⟩ := ih (itemPath path 0) (depth + 1)
    refine ⟨path', ?_⟩
    have hitem : leavesFrom (nested s (n + 1)) path depth =
        leavesFrom (nested s n) (itemPath path 0) (depth + 1) := by
      rw [nested, leavesFrom, List.finRange_succ, List.finRange_zero]
      exact List.append_nil _
    rw [hitem, h, Nat.add_right_comm, Nat.add_assoc]

/-- A null byte in one array more than the walk goes through. -/
theorem deep_null_byte_valid :
    (new.validateToolParams String.toLower (nested "\x00" 33)).is_valid = true ∧
    ∃ leaf ∈ leaves (nested "\x00" 33),
      leaf.text ≠ "" ∧ ¬ new.Passes String.toLower leaf.text := by
  obtain ⟨path, hleaves⟩ := leavesFrom_nested "\x00" 33 "" 0
  constructor
  · have hwalk : new.checkStrings String.toLower (nested "\x00" 33) "" .ok 0 =
        new.judgeAll String.toLower .ok (leavesFrom (nested "\x00" 33) "" 0) :=
      checkStrings_eq _ _ _ _
    rw [validateToolParams, hwalk, hleaves, judgeAll_is_valid]
    rfl
  · have hne : "\x00" ≠ "" := by decide
    have hnul : '\x00' ∈ "\x00".toList := by decide
    refine ⟨⟨"\x00", path, 33⟩, ?_, hne, fun h => h.2.2.1 hnul⟩
    rw [leaves, hleaves]
    exact List.mem_singleton.mpr rfl

end Validator

end T3Claw.Safety
