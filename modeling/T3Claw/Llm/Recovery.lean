import T3Claw.Data.Occurrence
import T3Claw.Llm.Markdown
import T3Claw.Llm.Messages
import T3Claw.Types.SerdeJson

/-!
# Tool calls in the text of a response

`recover_tool_calls_from_content` of `llm/reasoning.rs`. Calls between tags are taken when the
tags stand alone on their lines, outside code and quotes; calls in brackets are taken wherever
they stand. Every call is kept with the range it was read from, so that `recovered_outside_iff`
can say when all of them stand outside code and quotes. Nearly no bracket marker does: the
backticks around its name are a code span themselves (`bracketMarker_overlaps`).
-/

namespace T3Claw.Llm

open Text (isWhitespace trim beforeLast?)
open Split (cut? cut?_eq_some)

/-- Definition of a tool for the LLM. -/
structure ToolDefinition where
  name : String
  description : String
  parameters : Value

/-- A digit of base 62. -/
def base62 (digit : ℕ) : Char :=
  if digit < 10 then Char.ofNat ('0'.toNat + digit)
  else if digit < 36 then Char.ofNat ('a'.toNat + (digit - 10))
  else Char.ofNat ('A'.toNat + (digit - 36))

/-- `generate_tool_call_id`. -/
def generateToolCallId (seed_a seed_b : ℕ) : String :=
  let combined := (seed_a * 6364136223846793005 + seed_b) % 2 ^ 64
  String.ofList ((List.range 9).reverse.map fun i => base62 (combined / 62 ^ i % 62))

def RECOVERED_TOOL_CALL_SEED : ℕ := 99

/-- A call, and the range of the content that it was read from. -/
structure Recovered where
  start : ℕ
  stop : ℕ
  call : ToolCall

/-- `Value::Object(Default::default())`. -/
def emptyObject : Value := .ofPairs []

/-- The call pushed behind `n` others. -/
def recoveredCall (n : ℕ) (name : String) (arguments : Value) : ToolCall where
  id := generateToolCallId n RECOVERED_TOOL_CALL_SEED
  name
  arguments
  reasoning := none

/-- A tag: not the empty text. -/
abbrev Tag : Type := { text : List Char // text ≠ [] }

/-- The first segment between two tags: what stands in front of it, in it and behind it. -/
def nextSegment (open_tag close_tag : Tag) (rest : List Char) :
    Option (List Char × List Char × List Char) := do
  let (front, after) ← cut? open_tag.1 rest
  let (inner, behind) ← cut? close_tag.1 after
  some (front, inner, behind)

theorem nextSegment_eq_some {open_tag close_tag : Tag} {rest front inner behind : List Char}
    (h : nextSegment open_tag close_tag rest = some (front, inner, behind)) :
    rest = front ++ open_tag.1 ++ (inner ++ close_tag.1 ++ behind) := by
  simp only [nextSegment, Option.bind_eq_bind, Option.bind_eq_some_iff] at h
  obtain ⟨⟨front', after⟩, hopen, ⟨inner', behind'⟩, hclose, heq⟩ := h
  obtain ⟨rfl, rfl, rfl⟩ := heq
  exact (cut?_eq_some hopen).trans (congrArg (front' ++ open_tag.1 ++ ·) (cut?_eq_some hclose))

theorem length_of_nextSegment {open_tag close_tag : Tag} {rest front inner behind : List Char}
    (h : nextSegment open_tag close_tag rest = some (front, inner, behind)) :
    behind.length < rest.length := by
  have hpos := List.length_pos_of_ne_nil open_tag.2
  rw [nextSegment_eq_some h]
  simp only [List.length_append]
  omega

section

variable (serde : SerdeJson) (content : List Char) (tool_names : List String)

/-! ### Calls between tags -/

/-- `is_recoverable_tool_call_segment`. -/
def isRecoverableToolCallSegment (start stop : ℕ) (code_regions : List CodeRegion) : Bool :=
  if overlapsCodeRegion start stop code_regions then false
  else if isQuotedLine content start then false
  else (trim (linePrefix content start)).isEmpty && (trim (lineSuffix content stop)).isEmpty

/-- A JSON object with the name of a tool. -/
def jsonCall (inner : List Char) : Option (String × Value) := do
  let parsed ← serde.from_str (String.ofList inner)
  let name ← (parsed.get? "name").bind Value.asStr?
  if name ∈ tool_names then some (name, (parsed.get? "arguments").getD emptyObject) else none

/-- A bare tool name. -/
def bareCall (inner : List Char) : Option (String × Value) :=
  if String.ofList inner ∈ tool_names then some (String.ofList inner, emptyObject) else none

/-- The name and the arguments in a segment. -/
def readSegment (segment : List Char) : Option (String × Value) :=
  let inner := trim segment
  if inner.isEmpty then none
  else (jsonCall serde tool_names inner).or (bareCall tool_names inner)

/-- The call of a segment, if it is taken. -/
def segmentCall (n start stop : ℕ) (inner : List Char) : List Recovered :=
  if isRecoverableToolCallSegment content start stop (findCodeRegions content) then
    ((readSegment serde tool_names inner).map fun found =>
      ⟨start, stop, recoveredCall n found.1 found.2⟩).toList
  else []

/-- The loop over the segments between two tags, on what is left from `search_from` on. -/
def taggedCalls (open_tag close_tag : Tag) (search_from : ℕ) (rest : List Char)
    (calls : List Recovered) : List Recovered :=
  match _h : nextSegment open_tag close_tag rest with
  | none => calls
  | some (front, inner, behind) =>
    let start := search_from + front.length
    let segment_end := start + open_tag.1.length + inner.length + close_tag.1.length
    taggedCalls open_tag close_tag segment_end behind
      (calls ++ segmentCall serde content tool_names calls.length start segment_end inner)
termination_by rest.length
decreasing_by exact length_of_nextSegment _h

/-! ### Calls in brackets -/

/-- The marker of a call in brackets. -/
def BRACKET_OPEN : Tag := ⟨"[Called tool `".toList, by decide⟩

/-- What ends its name. -/
def BACKTICK : Tag := ⟨['`'], by decide⟩

/-- `str::strip_prefix`. -/
def stripFront (front cs : List Char) : Option (List Char) :=
  if front.isPrefixOf cs then some (cs.drop front.length) else none

def WITH_ARGUMENTS : List Char := " with arguments: ".toList

/-- The text of the arguments behind a name: up to the last bracket of all that is left. -/
def argumentsText (after_name : List Char) : Option (List Char) :=
  (stripFront WITH_ARGUMENTS after_name).bind (beforeLast? [']'])

/-- How far a marker goes behind its name. -/
def markerRest (after_name : List Char) : ℕ :=
  match argumentsText after_name with
  | some args_str => WITH_ARGUMENTS.length + args_str.length + 1
  | none => 0

/-- The arguments of a marker. -/
def markerArguments (after_name : List Char) : Value :=
  match argumentsText after_name with
  | some args_str => (serde.from_str (String.ofList args_str)).getD emptyObject
  | none => emptyObject

/-- The loop over the markers, on what is left of the content from `pos` on. -/
def bracketCalls (pos : ℕ) (remaining : List Char) (calls : List Recovered) : List Recovered :=
  match _h : nextSegment BRACKET_OPEN BACKTICK remaining with
  | none => calls
  | some (front, name, after_name) =>
    let start := pos + front.length
    let name_end := start + BRACKET_OPEN.1.length + name.length + 1
    if String.ofList name ∈ tool_names then
      let stop := name_end + markerRest after_name
      let call := recoveredCall calls.length (String.ofList name) (markerArguments serde after_name)
      bracketCalls stop (after_name.drop (markerRest after_name)) (calls ++ [⟨start, stop, call⟩])
    else bracketCalls name_end after_name calls
termination_by remaining.length
decreasing_by
  · rw [List.length_drop]
    exact (Nat.sub_le _ _).trans_lt (length_of_nextSegment _h)
  · exact length_of_nextSegment _h

end

/-- The tags that calls are read between. -/
def TOOL_CALL_TAGS : List (Tag × Tag) :=
  [(⟨"<tool_call>".toList, by decide⟩, ⟨"</tool_call>".toList, by decide⟩),
    (⟨"<|tool_call|>".toList, by decide⟩, ⟨"<|/tool_call|>".toList, by decide⟩),
    (⟨"<function_call>".toList, by decide⟩, ⟨"</function_call>".toList, by decide⟩),
    (⟨"<|function_call|>".toList, by decide⟩, ⟨"<|/function_call|>".toList, by decide⟩)]

/-- `recover_tool_calls_from_content`, each call with its range. -/
def recovered (serde : SerdeJson) (content : List Char) (available_tools : List ToolDefinition) :
    List Recovered :=
  let tool_names := available_tools.map ToolDefinition.name
  let tagged := TOOL_CALL_TAGS.foldl (fun calls tags =>
    taggedCalls serde content tool_names tags.1 tags.2 0 content calls) []
  bracketCalls serde tool_names 0 content tagged

/-- `recover_tool_calls_from_content`. -/
def recoverToolCallsFromContent (serde : SerdeJson) (content : List Char)
    (available_tools : List ToolDefinition) : List ToolCall :=
  (recovered serde content available_tools).map Recovered.call

/-! ### Where calls come from -/

/-- The range touches no code region and does not begin on a quoted line. -/
structure Outside (content : List Char) (start stop : ℕ) : Prop where
  code : overlapsCodeRegion start stop (findCodeRegions content) = false
  quote : isQuotedLine content start = false

/-- The ranges of the markers that are read as calls of available tools. -/
def bracketMarkers (tool_names : List String) (pos : ℕ) (remaining : List Char) : List (ℕ × ℕ) :=
  match _h : nextSegment BRACKET_OPEN BACKTICK remaining with
  | none => []
  | some (front, name, after_name) =>
    let start := pos + front.length
    let name_end := start + BRACKET_OPEN.1.length + name.length + 1
    if String.ofList name ∈ tool_names then
      let stop := name_end + markerRest after_name
      (start, stop) :: bracketMarkers tool_names stop (after_name.drop (markerRest after_name))
    else bracketMarkers tool_names name_end after_name
termination_by remaining.length
decreasing_by
  · rw [List.length_drop]
    exact (Nat.sub_le _ _).trans_lt (length_of_nextSegment _h)
  · exact length_of_nextSegment _h

/-- A call of an available tool from a range that satisfies `P`. -/
def FromRange (tool_names : List String) (P : ℕ → ℕ → Prop) (r : Recovered) : Prop :=
  r.call.name ∈ tool_names ∧ P r.start r.stop

section

variable {serde : SerdeJson} {content : List Char} {tool_names : List String}

theorem name_mem_of_readSegment {segment : List Char} {found : String × Value}
    (h : readSegment serde tool_names segment = some found) : found.1 ∈ tool_names := by
  rw [readSegment] at h
  split_ifs at h
  rcases Option.or_eq_some_iff.mp h with hjson | ⟨-, hbare⟩
  · simp only [jsonCall, Option.bind_eq_bind, Option.bind_eq_some_iff] at hjson
    obtain ⟨parsed, -, name, -, hname⟩ := hjson
    split_ifs at hname with hmem
    cases hname
    exact hmem
  · rw [bareCall] at hbare
    split_ifs at hbare with hmem
    cases hbare
    exact hmem

/-- What the tags around a segment are checked for. -/
theorem outside_of_isRecoverable {start stop : ℕ}
    (h : isRecoverableToolCallSegment content start stop (findCodeRegions content) = true) :
    Outside content start stop := by
  rw [isRecoverableToolCallSegment] at h
  split_ifs at h with hcode hquote
  exact ⟨Bool.eq_false_of_not_eq_true hcode, Bool.eq_false_of_not_eq_true hquote⟩

/-- Where a call between two tags comes from: a segment of the content that is taken. -/
structure FromSegment (serde : SerdeJson) (content : List Char) (tool_names : List String)
    (open_tag close_tag : Tag) (r : Recovered) (front inner behind : List Char) : Prop where
  content_eq : content = front ++ open_tag.1 ++ (inner ++ close_tag.1 ++ behind)
  start_eq : r.start = front.length
  stop_eq : r.stop = r.start + open_tag.1.length + inner.length + close_tag.1.length
  recoverable :
    isRecoverableToolCallSegment content r.start r.stop (findCodeRegions content) = true
  read : readSegment serde tool_names inner = some (r.call.name, r.call.arguments)

theorem mem_taggedCalls {open_tag close_tag : Tag} {search_from : ℕ} {rest : List Char}
    {calls : List Recovered} {done : List Char} (hcontent : content = done ++ rest)
    (hlength : search_from = done.length) {r : Recovered}
    (hr : r ∈ taggedCalls serde content tool_names open_tag close_tag search_from rest calls) :
    r ∈ calls ∨ ∃ front inner behind,
      FromSegment serde content tool_names open_tag close_tag r front inner behind := by
  induction search_from, rest, calls using
    taggedCalls.induct serde content tool_names open_tag close_tag generalizing done with
  | case1 search_from rest calls hnone =>
    rw [taggedCalls] at hr
    split at hr
    · exact .inl hr
    · rename_i hsome
      exact absurd (hsome.symm.trans hnone) (Option.some_ne_none _)
  | case2 search_from rest calls front inner behind hsegment start segment_end =>
    rename_i ih
    have hrest := nextSegment_eq_some hsegment
    rw [taggedCalls] at hr
    split at hr
    · exact .inl hr
    · rename_i hsome
      obtain ⟨rfl, rfl, rfl⟩ := Option.some.inj (hsome.symm.trans hsegment)
      have hcontent' : content =
          (done ++ front ++ open_tag.1 ++ inner ++ close_tag.1) ++ behind := by
        rw [hcontent, hrest]
        simp only [List.append_assoc]
      have hlength' : segment_end =
          (done ++ front ++ open_tag.1 ++ inner ++ close_tag.1).length := by
        simp only [segment_end, start, List.length_append, hlength]
      rcases ih hcontent' hlength' hr with hr | hr
      · rcases List.mem_append.mp hr with hr | hr
        · exact .inl hr
        · -- the segment at hand
          rw [segmentCall] at hr
          split_ifs at hr with hrecoverable
          · obtain ⟨found, hfound, rfl⟩ := Option.map_eq_some_iff.mp (Option.mem_toList.mp hr)
            refine .inr ⟨done ++ front, inner, behind, ?_, ?_, rfl, hrecoverable, hfound⟩
            · rw [hcontent, hrest]
              simp only [List.append_assoc]
            · exact (congrArg (· + front.length) hlength).trans (List.length_append).symm
          · cases hr
      · exact .inr hr

/-- Calls between tags stand outside code and quotes. -/
theorem fromRange_taggedCalls {open_tag close_tag : Tag} {calls : List Recovered}
    (h : ∀ r ∈ calls, FromRange tool_names (Outside content) r) :
    ∀ r ∈ taggedCalls serde content tool_names open_tag close_tag 0 content calls,
      FromRange tool_names (Outside content) r := by
  intro r hr
  rcases mem_taggedCalls (List.nil_append content).symm List.length_nil.symm hr with
    hr | ⟨front, inner, behind, hsegment⟩
  · exact h r hr
  · exact ⟨name_mem_of_readSegment hsegment.read, outside_of_isRecoverable hsegment.recoverable⟩

/-- The calls in brackets are those of the markers. -/
theorem fromRange_bracketCalls_iff {P : ℕ → ℕ → Prop} {pos : ℕ} {remaining : List Char}
    {calls : List Recovered} :
    (∀ r ∈ bracketCalls serde tool_names pos remaining calls, FromRange tool_names P r) ↔
      (∀ r ∈ calls, FromRange tool_names P r) ∧
        ∀ marker ∈ bracketMarkers tool_names pos remaining, P marker.1 marker.2 := by
  induction pos, remaining, calls using bracketCalls.induct serde tool_names with
  | case1 pos remaining calls hnone =>
    rw [bracketCalls, bracketMarkers]
    split
    · simp
    · rename_i hsome
      exact absurd (hsome.symm.trans hnone) (Option.some_ne_none _)
  | case2 pos remaining calls front name after_name hsegment start name_end hmem stop call ih =>
    have hpush : (∀ r ∈ calls ++ [⟨start, stop, call⟩], FromRange tool_names P r) ↔
        (∀ r ∈ calls, FromRange tool_names P r) ∧ P start stop := by
      rw [List.forall_mem_append, List.forall_mem_singleton]
      exact and_congr_right fun _ => ⟨And.right, fun h => ⟨hmem, h⟩⟩
    rw [hpush, and_assoc] at ih
    rw [bracketCalls, bracketMarkers]
    split
    · rename_i hnone
      exact absurd (hsegment.symm.trans hnone) (Option.some_ne_none _)
    · rename_i hsome
      obtain ⟨rfl, rfl, rfl⟩ := Option.some.inj (hsome.symm.trans hsegment)
      simp only [hmem, if_true, List.forall_mem_cons]
      exact ih
  | case3 pos remaining calls front name after_name hsegment start name_end hmem ih =>
    rw [bracketCalls, bracketMarkers]
    split
    · rename_i hnone
      exact absurd (hsegment.symm.trans hnone) (Option.some_ne_none _)
    · rename_i hsome
      obtain ⟨rfl, rfl, rfl⟩ := Option.some.inj (hsome.symm.trans hsegment)
      simp only [hmem, if_false]
      exact ih

/-- **When recovered calls stand outside code and quotes**: when the bracket markers do that are
read as calls; what stands between tags is checked. -/
theorem recovered_outside_iff (serde : SerdeJson) (content : List Char)
    (available_tools : List ToolDefinition) :
    (∀ r ∈ recovered serde content available_tools,
        FromRange (available_tools.map ToolDefinition.name) (Outside content) r) ↔
      ∀ marker ∈ bracketMarkers (available_tools.map ToolDefinition.name) 0 content,
        Outside content marker.1 marker.2 := by
  have htagged : ∀ (tags : List (Tag × Tag)) (calls : List Recovered),
      (∀ r ∈ calls, FromRange (available_tools.map ToolDefinition.name) (Outside content) r) →
      ∀ r ∈ tags.foldl (fun calls tags => taggedCalls serde content
          (available_tools.map ToolDefinition.name) tags.1 tags.2 0 content calls) calls,
        FromRange (available_tools.map ToolDefinition.name) (Outside content) r := by
    intro tags
    induction tags with
    | nil => exact fun _ h => h
    | cons tag tags ih => exact fun calls h => ih _ (fromRange_taggedCalls h)
  rw [recovered, fromRange_bracketCalls_iff]
  exact and_iff_right (htagged TOOL_CALL_TAGS [] fun r hr => absurd hr List.not_mem_nil)

/-- The backticks of a marker are a span themselves, unless the name is empty or a backtick
follows. -/
theorem bracketMarker_overlaps {front name back : List Char} (hne : name ≠ [])
    (hname : '`' ∉ name) (hback : back.head? ≠ some '`') {stop : ℕ}
    (hstop : front.length + BRACKET_OPEN.1.length ≤ stop) :
    overlapsCodeRegion front.length stop
      (findCodeRegions (front ++ BRACKET_OPEN.1 ++ (name ++ '`' :: back))) = true := by
  have htext : front ++ BRACKET_OPEN.1 ++ (name ++ '`' :: back) =
      (front ++ "[Called tool ".toList) ++ '`' :: (name ++ '`' :: back) := by
    rw [show BRACKET_OPEN.1 = "[Called tool ".toList ++ ['`'] from rfl]
    simp only [List.append_assoc, List.singleton_append]
  have hlast : (front ++ "[Called tool ".toList).getLast? ≠ some '`' := by
    rw [List.getLast?_append, show "[Called tool ".toList.getLast? = some ' ' from rfl]
    simp
  have hinside := exists_region_of_tick hlast hne hname hback
  rw [← htext] at hinside
  obtain ⟨r, hr, hpos⟩ := List.any_eq_true.mp hinside
  rw [Bool.and_eq_true, decide_eq_true_eq, decide_eq_true_eq, List.length_append] at hpos
  refine List.any_eq_true.mpr ⟨r, hr, ?_⟩
  have hopen : BRACKET_OPEN.1.length = "[Called tool ".toList.length + 1 := rfl
  rw [Bool.and_eq_true, decide_eq_true_eq, decide_eq_true_eq]
  omega

end

/-- The crate, as far as the arguments below go. -/
def serdeOfEmpty : SerdeJson where
  to_string _ := "\x7b\x7d"
  from_str text := if text = "\x7b\x7d" then some emptyObject else none

/-- A call that the response quotes. -/
def quotedCall : List Char := "> [Called tool `http` with arguments: \x7b\x7d]".toList

/-- The quoted call is recovered. -/
theorem quotedCall_recovered : ¬∀ r ∈ recovered serdeOfEmpty quotedCall [⟨"http", "", .null⟩],
    FromRange ["http"] (Outside quotedCall) r := by
  intro h
  have hsegment : nextSegment BRACKET_OPEN BACKTICK quotedCall =
      some ("> ".toList, "http".toList, " with arguments: \x7b\x7d]".toList) := by decide
  have hmarker : (2, 41) ∈ bracketMarkers ["http"] 0 quotedCall := by
    rw [bracketMarkers]
    split
    · rename_i hnone
      exact absurd (hnone.symm.trans hsegment) (Option.some_ne_none _).symm
    · rename_i hsome
      obtain ⟨rfl, rfl, rfl⟩ := Option.some.inj (hsome.symm.trans hsegment)
      rw [if_pos (by decide)]
      exact List.mem_cons_self
  have hquote := ((fromRange_bracketCalls_iff.mp h).2 _ hmarker).quote
  exact absurd hquote (by decide)

end T3Claw.Llm
