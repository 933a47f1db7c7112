import T3Claw.Llm.Flatten
import T3Claw.Llm.Tags

/-!
# Cleaning a response

`clean_response` of `llm/reasoning.rs` and its passes: reasoning between thinking tags, all but
final answers, reasoning between piped tags, tool calls in the text, and runs of empty lines.
-/

namespace T3Claw.Llm

open Matches (Match Pattern findIter isMatch)
open Split (beforeFirst? cut? cut?_eq_some)
open Text (isWhitespace trim contains replace)

/-! ### Tags outside code -/

/-- The matches that do not begin inside a code region. -/
def outsideCode (regions : List CodeRegion) (found : List (Match Bool)) : List (Match Bool) :=
  found.filter fun m => !isInsideCode m.start regions

/-- What the loops of `strip_thinking_tags_regex` and `strip_pipe_reasoning_tags` keep. -/
structure StripState where
  result : List Char
  last_index : ℕ
  in_tag : Bool

/-- One tag of the loop. -/
def stripTag (text : List Char) (s : StripState) (m : Match Bool) : StripState :=
  if !s.in_tag then
    ⟨s.result ++ (text.take m.start).drop s.last_index, m.stop, !m.group⟩
  else if m.group then ⟨s.result, m.stop, false⟩
  else ⟨s.result, m.stop, true⟩

/-- The loop over the tags outside code. -/
def stripTags (pattern : Pattern Char Bool) (text : List Char) (regions : List CodeRegion) :
    StripState :=
  (outsideCode regions (findIter pattern 0 text)).foldl (stripTag text) ⟨[], 0, false⟩

/-- What `extract_final_content` keeps. -/
structure FinalState where
  parts : List (List Char)
  in_final : Bool
  last_index : ℕ
  found_any : Bool

/-- One tag of `extract_final_content`. -/
def finalTag (text : List Char) (s : FinalState) (m : Match Bool) : FinalState :=
  if !s.in_final && !m.group then ⟨s.parts, true, m.stop, true⟩
  else if s.in_final && m.group then
    ⟨s.parts ++ [(text.take m.start).drop s.last_index], false, m.stop, s.found_any⟩
  else s

section

variable (word : Char → Bool)

/-- `extract_final_content`. -/
def extractFinalContent (text : List Char) (regions : List CodeRegion) : Option (List Char) :=
  let s := (outsideCode regions (findIter (FINAL_TAG_RE word) 0 text)).foldl (finalTag text)
    ⟨[], false, 0, false⟩
  if !s.found_any then none
  else if s.in_final then some (s.parts ++ [text.drop s.last_index]).flatten
  else some s.parts.flatten

/-- `strip_thinking_tags_regex`. -/
def stripThinkingTagsRegex (text : List Char) (regions : List CodeRegion) : List Char :=
  let s := stripTags (THINKING_TAG_RE word) text regions
  if !s.in_tag then s.result ++ text.drop s.last_index
  else
    let trailing := text.drop s.last_index
    s.result ++ (extractFinalContent word trailing (findCodeRegions trailing)).getD []

/-- `strip_pipe_reasoning_tags`. -/
def stripPipeReasoningTags (text : List Char) : List Char :=
  if !isMatch PIPE_REASONING_TAG_RE text then text
  else
    let s := stripTags PIPE_REASONING_TAG_RE text (findCodeRegions text)
    if !s.in_tag then s.result ++ text.drop s.last_index else s.result

/-- The first steps of `clean_response`: the text without reasoning, or the final answers in it. -/
def stripReasoning (text : List Char) : List Char :=
  if !isMatch (QUICK_TAG_RE word) text then text
  else
    let after_thinking := stripThinkingTagsRegex word text (findCodeRegions text)
    if isMatch (FINAL_TAG_RE word) after_thinking then
      (extractFinalContent word after_thinking (findCodeRegions after_thinking)).getD
        after_thinking
    else after_thinking

end

/-! ### Tool calls -/

/-- Where the next opening tag begins, exact or with attributes. -/
def openPosition (tag remaining : List Char) : Option ℕ :=
  match (beforeFirst? ('<' :: tag ++ ['>']) remaining).map List.length,
    (beforeFirst? ('<' :: tag ++ [' ']) remaining).map List.length with
  | some a, some b => some (min a b)
  | some a, none => some a
  | none, some b => some b
  | none, none => none

/-- `strip_xml_tag`. -/
def stripXmlTag (tag remaining : List Char) : List Char :=
  match openPosition tag remaining with
  | none => remaining
  | some start =>
    match _hopen : cut? ['>'] (remaining.drop start) with
    -- the text in front of the tag is there already, and is pushed again with the rest
    | none => remaining.take start ++ remaining
    | some (_, after_open) =>
      match _hclose : cut? ("</".toList ++ tag ++ ['>']) after_open with
      | some (_, behind) => remaining.take start ++ stripXmlTag tag behind
      | none => remaining.take start
termination_by remaining.length
decreasing_by
  have hopen := Split.length_of_cut? _hopen
  have hclose := Split.length_of_cut? _hclose
  rw [List.length_drop] at hopen
  rw [List.length_singleton] at hopen
  omega

/-- `strip_pipe_tag`. -/
def stripPipeTag (tag remaining : List Char) : List Char :=
  match _hopen : cut? ("<|".toList ++ tag ++ "|>".toList) remaining with
  | none => remaining
  | some (front, _) =>
    match _hclose : cut? ("<|/".toList ++ tag ++ "|>".toList) (remaining.drop front.length) with
    | some (_, behind) => front ++ stripPipeTag tag behind
    | none => front
termination_by remaining.length
decreasing_by
  have hclose := Split.length_of_cut? _hclose
  have hpos : 0 < ("<|/".toList ++ tag ++ "|>".toList).length := Nat.succ_pos _
  rw [List.length_drop] at hclose
  omega

def TOOL_TAGS : List (List Char) :=
  ["tool_call".toList, "function_call".toList, "tool_calls".toList]

/-- The loop over the tool tags. -/
def stripToolTags (text : List Char) : List Char :=
  TOOL_TAGS.foldl (fun result tag => stripPipeTag tag (stripXmlTag tag result)) text

/-! ### Empty lines -/

def TRIPLE : List Char := "\n\n\n".toList

def DOUBLE : List Char := "\n\n".toList

theorem length_replace_triple {text : List Char} (h : contains TRIPLE text = true) :
    (replace TRIPLE DOUBLE text).length < text.length := by
  have hcount : Text.count TRIPLE text ≠ 0 := by
    rw [Ne, Text.count_eq_zero_iff (by decide), h]
    decide
  have hlength := @Text.length_replace TRIPLE DOUBLE (by decide) text
  rw [show TRIPLE.length = 3 from rfl, show DOUBLE.length = 2 from rfl] at hlength
  omega

/-- The loop of `collapse_newlines`. -/
def collapseRuns (text : List Char) : List Char :=
  if _h : contains TRIPLE text then collapseRuns (replace TRIPLE DOUBLE text) else text
termination_by text.length
decreasing_by exact length_replace_triple _h

/-- `collapse_newlines`. -/
def collapseNewlines (text : List Char) : List Char := trim (collapseRuns text)

/-- The last steps of `clean_response`, on the text without reasoning. -/
def stripMarkup (text : List Char) : List Char :=
  collapseNewlines (stripBracketToolCalls (stripToolTags (stripPipeReasoningTags text)))

/-- `clean_response`. -/
def cleanResponse (word : Char → Bool) (text : List Char) : List Char :=
  stripMarkup (stripReasoning word text)

/-! ### Text that is left as it is -/

section

variable {text : List Char}

/-- Without one of its characters a pattern does not occur. -/
theorem not_infix_of_not_mem {c : Char} {pattern : List Char} (h : c ∉ text)
    (hc : c ∈ pattern) : ¬pattern <:+: text := fun hocc => h (hocc.subset hc)

theorem stripPipeReasoningTags_of_not_mem (h : '<' ∉ text) :
    stripPipeReasoningTags text = text := by
  have hnone : isMatch PIPE_REASONING_TAG_RE text = false := by
    refine Matches.isMatch_eq_false.mpr fun back hne hback => ?_
    obtain ⟨c, cs, rfl⟩ := List.exists_cons_of_ne_nil hne
    have hc : c ≠ '<' := fun hc => h (hback.subset (hc ▸ List.mem_cons_self))
    change pipeTagAt THINKING_NAMES (c :: cs) = none
    unfold pipeTagAt
    split
    · rename_i heq
      exact absurd (List.cons.inj heq).1 hc
    · rfl
  rw [stripPipeReasoningTags, hnone]
  rfl

theorem stripXmlTag_of_not_mem (h : '<' ∉ text) (tag : List Char) :
    stripXmlTag tag text = text := by
  have hnone : ∀ close : Char, Split.beforeFirst? ('<' :: tag ++ [close]) text = none := fun _ =>
    Split.beforeFirst?_eq_none.mpr (not_infix_of_not_mem h List.mem_cons_self)
  have hposition : openPosition tag text = none := by
    rw [openPosition, hnone, hnone]
    rfl
  rw [stripXmlTag]
  split
  · rfl
  · rename_i hsome
    exact absurd (hsome.symm.trans hposition) (Option.some_ne_none _)

theorem stripPipeTag_of_not_mem (h : '<' ∉ text) (tag : List Char) :
    stripPipeTag tag text = text := by
  have hnone : Split.cut? ("<|".toList ++ tag ++ "|>".toList) text = none :=
    Split.cut?_eq_none.mpr (not_infix_of_not_mem h List.mem_cons_self)
  rw [stripPipeTag]
  split
  · rfl
  · rename_i hsome
    exact absurd (hsome.symm.trans hnone) (Option.some_ne_none _)

theorem stripToolTags_of_not_mem (h : '<' ∉ text) : stripToolTags text = text := by
  rw [stripToolTags]
  induction TOOL_TAGS with
  | nil => rfl
  | cons tag tags ih =>
    rw [List.foldl_cons, stripXmlTag_of_not_mem h, stripPipeTag_of_not_mem h]
    exact ih

/-- Without angles and brackets only empty lines and the ends are cleaned. -/
theorem stripMarkup_of_not_mem (h : '<' ∉ text) (hbracket : '[' ∉ text) :
    stripMarkup text = collapseNewlines text := by
  rw [stripMarkup, stripPipeReasoningTags_of_not_mem h, stripToolTags_of_not_mem h,
    stripBracketToolCalls_none (not_infix_of_not_mem hbracket (by decide))]

end

end T3Claw.Llm
