import Mathlib.Data.List.MinMax
import T3Claw.Llm.Recovery

/-!
# Tool calls as text, and back

`flatten_tool_messages` of `llm/nearai_chat.rs` writes the calls of an assistant message as lines
of text, `recover_tool_calls_from_content` reads such lines, and `strip_bracket_tool_calls` takes
them out of a response. The three disagree on where a line ends: `flattened_recovered_iff` says
that only a single call comes back, and under which name and arguments it does.
-/

namespace T3Claw.Llm

open Text (isWhitespace trim beforeLast?)
open Split (cut? cut?_eq_some)

/-! ### Flattening -/

/-- `MessageContent`. -/
inductive MessageContent where
  | text (text : List Char)
  | parts (parts : List ContentPart)

/-- `as_text`. -/
def MessageContent.asText : MessageContent → Option (List Char)
  | .text [] => none
  | .text s => some s
  | .parts _ => none

structure ChatCompletionToolCallFunction where
  name : String
  arguments : String

structure ChatCompletionToolCall where
  id : String
  call_type : String
  function : ChatCompletionToolCallFunction

structure ChatCompletionMessage where
  role : String
  content : Option MessageContent
  tool_call_id : Option String
  name : Option String
  tool_calls : Option (List ChatCompletionToolCall)

/-- The line of a call. -/
def bracketLine (name : String) (arguments : String) : List Char :=
  BRACKET_OPEN.1 ++ name.toList ++ '`' :: (WITH_ARGUMENTS ++ arguments.toList ++ [']'])

/-- `parts.join("\n")`. -/
def joinLines (parts : List (List Char)) : List Char := List.intercalate ['\n'] parts

/-- `flatten_tool_messages`, one message. -/
def flattenMessage (msg : ChatCompletionMessage) : ChatCompletionMessage :=
  match if msg.role = "assistant" then msg.tool_calls else none with
  | some calls =>
    let parts := (msg.content.bind MessageContent.asText).toList ++
      calls.map fun tc => bracketLine tc.function.name tc.function.arguments
    ⟨"assistant", some (.text (joinLines parts)), none, none, none⟩
  | none =>
    if msg.role = "tool" then
      let tool_name := msg.name.getD "unknown"
      let result := (msg.content.bind MessageContent.asText).getD []
      ⟨"user", some (.text ("[Tool `".toList ++ tool_name.toList ++ "` returned: ".toList ++
        result ++ "]".toList)), none, none, none⟩
    else msg

/-- `flatten_tool_messages`. -/
def flattenToolMessages (messages : List ChatCompletionMessage) : List ChatCompletionMessage :=
  if messages.any fun m => m.role == "tool" then messages.map flattenMessage else messages

/-- `ChatCompletionMessage::from` of an assistant message that has calls and no text. -/
def callsMessage (serde : SerdeJson) (calls : List ToolCall) : ChatCompletionMessage where
  role := "assistant"
  content := none
  tool_call_id := none
  name := none
  tool_calls := some (calls.map fun tc =>
    ⟨tc.id, "function", ⟨tc.name, serde.to_string tc.arguments⟩⟩)

/-- The text that such a message becomes, of names and arguments. -/
def flattenedText (serde : SerdeJson) (calls : List (String × Value)) : List Char :=
  joinLines (calls.map fun call => bracketLine call.1 (serde.to_string call.2))

theorem flattenMessage_callsMessage (serde : SerdeJson) (calls : List ToolCall) :
    (flattenMessage (callsMessage serde calls)).content =
      some (.text (flattenedText serde (calls.map fun tc => (tc.name, tc.arguments)))) := by
  rw [flattenedText, List.map_map]
  simp only [flattenMessage, callsMessage, if_true, Option.bind_none, Option.toList_none,
    List.nil_append, List.map_map]
  rfl

/-! ### Stripping -/

/-- Where the bracket expression at the front ends. -/
def bracketEnd (after : List Char) : Option ℕ :=
  ((cut? "]\n".toList after).map fun parts => parts.1.length + 2).or
    ((beforeLast? [']'] after).map fun front => front.length + 1)

theorem bracketEnd_pos {after : List Char} {n : ℕ} (h : bracketEnd after = some n) : 0 < n := by
  rcases Option.or_eq_some_iff.mp h with h | ⟨-, h⟩
  · obtain ⟨parts, -, rfl⟩ := Option.map_eq_some_iff.mp h
    exact Nat.succ_pos _
  · obtain ⟨front, -, rfl⟩ := Option.map_eq_some_iff.mp h
    exact Nat.succ_pos _

/-- `strip_bracket_tool_calls`. -/
def stripBracketToolCalls (remaining : List Char) : List Char :=
  match _h : cut? BRACKET_OPEN.1 remaining with
  | none => remaining
  | some (front, _) =>
    let after := remaining.drop front.length
    match _hend : bracketEnd after with
    | some n => front ++ stripBracketToolCalls (after.drop n)
    | none => front ++ after
termination_by remaining.length
decreasing_by
  have hlength := Split.length_of_cut? _h
  have hopen : 0 < BRACKET_OPEN.1.length := by decide
  have hpos := bracketEnd_pos _hend
  rw [List.length_drop, List.length_drop]
  omega

/-! ### The crate -/

/-- What the reader and the printer are relied on for: a value is printed on one line, other text
behind a value is an error, as is a bracket that opens right behind one that closes on the line
before, and a string of an object is shorter than the text it is read from. -/
structure JsonLines (serde : SerdeJson) : Prop where
  one_line : ∀ v, '\n' ∉ (serde.to_string v).toList
  trailing : ∀ v rest, serde.from_str
    (String.ofList ((serde.to_string v).toList ++ "]\n".toList ++ rest)) = none
  adjacent : ∀ text, "]\n[".toList <:+: text → serde.from_str (String.ofList text) = none
  string_lt : ∀ text v key s, serde.from_str (String.ofList text) = some v →
    (v.get? key).bind Value.asStr? = some s → s.toList.length < text.length

/-- The name leaves nothing behind when its line is stripped: it has no bracket at the end of a
line, or white space alone behind the first one and then the beginning of a marker. -/
def StripsBlank (name : List Char) : Prop :=
  ∀ u v, cut? "]\n".toList name = some (u, v) →
    ∃ w, v = w ++ "[Called tool ".toList ∧ ∀ c ∈ w, isWhitespace c = true

/-- What flattening and recovering are for: the calls come back as they are, and nothing of
their text is left for the user. -/
structure RoundTrip (serde : SerdeJson) (available_tools : List ToolDefinition)
    (calls : List (String × Value)) : Prop where
  recovered : (recoverToolCallsFromContent serde (flattenedText serde calls)
    available_tools).map (fun tc => (tc.name, tc.arguments)) = calls
  stripped : ∀ c ∈ stripBracketToolCalls (flattenedText serde calls), isWhitespace c = true

/-! ### Segments of flattened lines -/

/-- What a line has behind its name. -/
def lineTail (arguments : List Char) : List Char := WITH_ARGUMENTS ++ arguments ++ [']']

theorem bracketLine_eq (name arguments : String) : bracketLine name arguments =
    BRACKET_OPEN.1 ++ (name.toList ++ '`' :: lineTail arguments.toList) :=
  List.append_assoc _ _ _

theorem joinLines_cons (line : List Char) (lines : List (List Char)) :
    joinLines (line :: lines) = line ++ lines.flatMap ('\n' :: ·) := by
  induction lines generalizing line with
  | nil => simp [joinLines]
  | cons next lines ih =>
    rw [joinLines, List.intercalate_cons_cons, ← joinLines, ih, List.flatMap_cons]
    simp

theorem newline_not_mem_lineTail {arguments : List Char} (h : '\n' ∉ arguments) :
    '\n' ∉ lineTail arguments := by
  rw [lineTail, List.mem_append, List.mem_append, not_or, not_or]
  exact ⟨⟨by decide, h⟩, by decide⟩

theorem head?_lineTail (arguments : List Char) : (lineTail arguments).head? ≠ some '`' := by
  have hhead : (lineTail arguments).head? = some ' ' := rfl
  rw [hhead]
  decide

/-- A text whose last line is blank. -/
def BlankFrom (front : List Char) : Prop :=
  ∀ c ∈ front.reverse.takeWhile (· ≠ '\n'), isWhitespace c = true

/-- A text whose first line is blank. -/
def BlankTo (back : List Char) : Prop := ∀ c ∈ back.takeWhile (· ≠ '\n'), isWhitespace c = true

/-- A character that is no white space ends in no blank line, unless a line ends behind it. -/
theorem BlankFrom.newline_mem {front back : List Char} {c : Char}
    (h : BlankFrom (front ++ c :: back)) (hc : isWhitespace c = false) (hne : c ≠ '\n') :
    '\n' ∈ back := by
  by_contra hback
  have hall : ∀ d ∈ back.reverse ++ [c], (fun d : Char => decide (d ≠ '\n')) d = true := by
    intro d hd
    rw [List.mem_append, List.mem_reverse, List.mem_singleton] at hd
    rcases hd with hd | rfl
    · exact decide_eq_true fun heq => hback (heq ▸ hd)
    · exact decide_eq_true hne
  have hmem : c ∈ (front ++ c :: back).reverse.takeWhile (· ≠ '\n') := by
    rw [List.reverse_append, List.reverse_cons, List.takeWhile_append_of_pos hall]
    exact List.mem_append_left _ (List.mem_append_right _ List.mem_cons_self)
  exact absurd (h c hmem) (by rw [hc]; decide)

theorem BlankFrom.of_append {front back : List Char} (h : BlankFrom (front ++ back)) :
    BlankFrom back := by
  intro c hc
  refine h c ?_
  rw [List.reverse_append, List.takeWhile_append]
  split_ifs
  · exact List.mem_append_left _ ((List.takeWhile_sublist _).mem hc)
  · exact hc

/-- A first line that ends in a bracket is not blank. -/
theorem not_blankTo {front back : List Char} (h : '\n' ∉ front) :
    ¬BlankTo (front ++ ']' :: back) := by
  intro hblank
  have hall : ∀ d ∈ front ++ [']'], (fun d : Char => decide (d ≠ '\n')) d = true := by
    intro d hd
    rcases List.mem_append.mp hd with hd | hd
    · exact decide_eq_true fun heq => h (heq ▸ hd)
    · rw [List.mem_singleton.mp hd]
      rfl
  have hmem : ']' ∈ (front ++ ']' :: back).takeWhile (· ≠ '\n') := by
    rw [List.append_cons, List.takeWhile_append_of_pos hall]
    exact List.mem_append_left _ (List.mem_append_right _ List.mem_cons_self)
  exact absurd (hblank ']' hmem) (by decide)

theorem getLast?_append_right {front back : List Char} (h : back ≠ []) :
    (front ++ back).getLast? = back.getLast? := by
  rw [List.getLast?_append, List.getLast?_eq_some_getLast h, Option.some_or]

/-- A segment that begins inside a name and goes on behind it: it goes on to the next line, and
over the beginning of that. -/
theorem segment_past_name {arguments rest before after back : List Char}
    (hargs : '\n' ∉ arguments) (hlast : (before ++ after).getLast? = some '>') (hne : after ≠ [])
    (hback : BlankTo back) (hafter : after ++ back = lineTail arguments ++ rest)
    (hrest : rest = [] ∨ ∃ more, rest = '\n' :: (BRACKET_OPEN.1 ++ more)) :
    rest ≠ [] ∧ "]\n[Called tool `".toList <:+: before ++ after := by
  have htail : (lineTail arguments).getLast? = some ']' := List.getLast?_concat
  have hnewline := newline_not_mem_lineTail hargs
  rw [getLast?_append_right hne] at hlast
  rcases List.append_eq_append_iff.mp hafter with ⟨t, hline, rfl⟩ | ⟨t, rfl, rfl⟩
  · -- the segment ends on the line, and a bracket is left there
    rcases List.eq_nil_or_concat' t with rfl | ⟨t, c, rfl⟩
    · rw [List.append_nil] at hline
      rw [← hline, htail] at hlast
      exact absurd hlast (by decide)
    · obtain rfl : c = ']' := by
        rw [hline, ← List.append_assoc, List.getLast?_concat] at htail
        exact Option.some.inj htail
      have hblank : '\n' ∉ t := fun h =>
        hnewline (hline ▸ List.mem_append_right _ (List.mem_append_left _ h))
      rw [List.append_assoc] at hback
      exact absurd hback (not_blankTo hblank)
  · cases t with
    | nil =>
      rw [List.append_nil, htail] at hlast
      exact absurd hlast (by decide)
    | cons d t =>
      rcases hrest with hrest | ⟨more, hrest⟩
      · cases hrest
      obtain ⟨rfl, hmore⟩ := List.cons.inj hrest
      refine ⟨List.cons_ne_nil _ _, ?_⟩
      rw [getLast?_append_right (List.cons_ne_nil _ _)] at hlast
      rcases List.append_eq_append_iff.mp hmore with ⟨x, hopen, -⟩ | ⟨x, rfl, -⟩
      · -- it would end within the beginning of the next line
        cases t with
        | nil => exact absurd hlast (by decide)
        | cons e t =>
          rw [List.getLast?_cons_cons] at hlast
          have hmem : '>' ∈ BRACKET_OPEN.1 :=
            hopen ▸ List.mem_append_left _ (List.mem_of_getLast? hlast)
          exact absurd hmem (by decide)
      · refine ⟨before ++ (WITH_ARGUMENTS ++ arguments), x, ?_⟩
        rw [show "]\n[Called tool `".toList = ']' :: '\n' :: BRACKET_OPEN.1 from rfl, lineTail]
        simp only [List.append_assoc, List.cons_append, List.nil_append]

/-- Behind the beginning of a line another one has begun, where the last line is blank. -/
theorem newline_mem_of_blankFrom {front : List Char} (h : BlankFrom (BRACKET_OPEN.1 ++ front)) :
    '\n' ∈ front := by
  have hblank : BlankFrom ([] ++ '[' :: ("Called tool `".toList ++ front)) := h
  exact (List.mem_append.mp (hblank.newline_mem (by decide) (by decide))).resolve_left (by decide)

theorem not_blankFrom_open : ¬BlankFrom BRACKET_OPEN.1 := by
  intro h
  rw [← List.append_nil BRACKET_OPEN.1] at h
  exact absurd (newline_mem_of_blankFrom h) List.not_mem_nil

/-- A segment that begins on a line, with blanks in front of it: it is in the name of the line, or
goes on to the next one. -/
theorem segment_on_line {name arguments : String} {rest front segment back : List Char}
    (hargs : '\n' ∉ arguments.toList) (hfirst : segment.head? = some '<')
    (hlast : segment.getLast? = some '>') (hfront : BlankFrom front) (hback : BlankTo back)
    (hrest : rest = [] ∨ ∃ more, rest = '\n' :: (BRACKET_OPEN.1 ++ more)) {line : List Char}
    (hline : bracketLine name arguments = front ++ line) (htext : segment ++ back = line ++ rest) :
    segment <:+: name.toList ∨ rest ≠ [] ∧ "]\n[Called tool `".toList <:+: segment := by
  obtain ⟨segment, rfl⟩ : ∃ segment', segment = '<' :: segment' := by
    cases segment with
    | nil => cases hfirst
    | cons c segment => exact ⟨segment, by rw [Option.some.inj hfirst]⟩
  have hnewline := newline_not_mem_lineTail hargs
  cases line with
  | nil =>
    rcases hrest with rfl | ⟨more, rfl⟩
    · cases htext
    · exact absurd (List.cons.inj htext).1 (by decide)
  | cons c line =>
    obtain ⟨rfl, hsegment⟩ := List.cons.inj htext
    replace hsegment : segment ++ back = line ++ rest := hsegment
    rw [bracketLine_eq] at hline
    rcases List.append_eq_append_iff.mp hline with ⟨y, rfl, hname⟩ | ⟨x, hopen, hx⟩
    · rcases List.append_eq_append_iff.mp hname with ⟨z, rfl, hz⟩ | ⟨z, hz, hline⟩
      · -- in front of the segment the line has a backtick
        cases z with
        | nil => exact absurd (List.cons.inj hz).1 (by decide)
        | cons d z =>
          obtain ⟨rfl, htail⟩ := List.cons.inj hz
          replace htail : lineTail arguments.toList = z ++ '<' :: line := htail
          rw [← List.append_assoc] at hfront
          have hmem := hfront.newline_mem (by decide) (by decide)
          exact absurd (htail ▸ List.mem_append_left _ hmem) hnewline
      · cases z with
        | nil => exact absurd (List.cons.inj hline).1 (by decide)
        | cons d z =>
          obtain ⟨rfl, htail⟩ := List.cons.inj hline
          replace htail : line = z ++ '`' :: lineTail arguments.toList := htail
          rw [htail, List.append_assoc] at hsegment
          rcases List.append_eq_append_iff.mp hsegment with ⟨w, rfl, -⟩ | ⟨w, rfl, hw⟩
          · exact .inl ⟨y, w, by rw [hz]; simp⟩
          · cases w with
            | nil => exact .inl ⟨y, [], by rw [hz]; simp⟩
            | cons e w =>
              obtain ⟨rfl, hafter⟩ := List.cons.inj hw
              have hsplit : '<' :: (z ++ '`' :: w) = ('<' :: (z ++ ['`'])) ++ w := by simp
              rw [hsplit] at hlast ⊢
              refine .inr (segment_past_name hargs hlast ?_ hback hafter.symm hrest)
              rintro rfl
              rw [List.append_nil, ← List.cons_append, List.getLast?_concat] at hlast
              exact absurd hlast (by decide)
    · cases x with
      | nil =>
        -- the line begins with a bracket, and no line ends in its first characters
        rw [List.append_nil] at hopen
        exact absurd (hopen ▸ hfront) not_blankFrom_open
      | cons d x =>
        have hmem : '<' ∈ BRACKET_OPEN.1 :=
          hopen ▸ List.mem_append_right _ ((List.cons.inj hx).1 ▸ List.mem_cons_self)
        exact absurd hmem (by decide)

/-- Where a segment of flattened lines can stand that has its lines to itself: in a name, or over
the beginning of a line. -/
theorem segment_of_lines {calls : List (String × String)}
    (hargs : ∀ call ∈ calls, '\n' ∉ call.2.toList) {front segment back : List Char}
    (htext : joinLines (calls.map fun call => bracketLine call.1 call.2) =
      front ++ (segment ++ back))
    (hfirst : segment.head? = some '<') (hlast : segment.getLast? = some '>')
    (hfront : BlankFrom front) (hback : BlankTo back) :
    (∃ call ∈ calls, segment <:+: call.1.toList) ∨
      2 ≤ calls.length ∧ "]\n[Called tool `".toList <:+: segment := by
  induction calls generalizing front with
  | nil =>
    cases front with
    | nil =>
      cases segment with
      | nil => cases hfirst
      | cons c segment => cases htext
    | cons c front => cases htext
  | cons call calls ih =>
    obtain ⟨hcall, hcalls⟩ := List.forall_mem_cons.mp hargs
    have hrest : (calls.map fun call => bracketLine call.1 call.2).flatMap ('\n' :: ·) = [] ∨
        ∃ more, (calls.map fun call => bracketLine call.1 call.2).flatMap ('\n' :: ·) =
          '\n' :: (BRACKET_OPEN.1 ++ more) := by
      cases calls with
      | nil => exact .inl rfl
      | cons next calls =>
        refine .inr ⟨next.1.toList ++ '`' :: lineTail next.2.toList ++
          (calls.map fun call => bracketLine call.1 call.2).flatMap ('\n' :: ·), ?_⟩
        rw [List.map_cons, List.flatMap_cons, bracketLine_eq]
        simp only [List.cons_append, List.append_assoc]
    rw [List.map_cons, joinLines_cons] at htext
    rcases List.append_eq_append_iff.mp htext with ⟨bs, rfl, hbs⟩ | ⟨line, hline, htext⟩
    · -- the segment begins behind the first line
      cases calls with
      | nil =>
        cases bs with
        | nil =>
          cases segment with
          | nil => cases hfirst
          | cons c segment => cases hbs
        | cons c bs => cases hbs
      | cons next calls =>
        rw [List.map_cons, List.flatMap_cons, List.cons_append, ← joinLines_cons] at hbs
        cases bs with
        | nil =>
          cases segment with
          | nil => cases hfirst
          | cons c segment =>
            obtain ⟨rfl, -⟩ := List.cons.inj hbs
            exact absurd hfirst (by simp)
        | cons c bs =>
          obtain ⟨rfl, hlater⟩ := List.cons.inj hbs
          rw [List.append_cons] at hfront
          rcases ih hcalls hlater hfront.of_append with ⟨found, hmem, hocc⟩ | ⟨hlength, hocc⟩
          · exact .inl ⟨found, List.mem_cons_of_mem _ hmem, hocc⟩
          · exact .inr ⟨hlength.trans (Nat.le_succ _), hocc⟩
    · rcases segment_on_line hcall hfirst hlast hfront hback hrest hline htext with
        hocc | ⟨hne, hocc⟩
      · exact .inl ⟨call, List.mem_cons_self, hocc⟩
      · refine .inr ⟨?_, hocc⟩
        cases calls with
        | nil => exact absurd rfl hne
        | cons next calls => exact Nat.succ_le_succ (Nat.succ_le_succ (Nat.zero_le _))

/-! ### Calls between tags in flattened lines -/

/-- The tags begin and end like tags, and have no bracket or backtick. -/
theorem ends_of_tags : ∀ tags ∈ TOOL_CALL_TAGS, tags.1.1.head? = some '<' ∧
    tags.2.1.getLast? = some '>' ∧ ']' ∉ tags.1.1 ∧ '`' ∉ tags.2.1 := by decide

theorem head?_append_of_ne_nil {front back : List Char} (h : front ≠ []) :
    (front ++ back).head? = front.head? := by
  rw [List.head?_append, List.head?_eq_some_head h, Option.some_or]

/-- What is left of white space when it is trimmed. -/
theorem isWhitespace_of_trim {cs : List Char} (h : (trim cs).isEmpty = true) :
    ∀ c ∈ cs, isWhitespace c = true := by
  obtain ⟨x, y, hsplit, hx, hy, -⟩ := Text.exists_trim cs
  rw [List.isEmpty_iff.mp h, List.append_nil] at hsplit
  intro c hc
  rcases List.mem_append.mp (hsplit ▸ hc) with hc | hc
  · exact hx c hc
  · exact hy c hc

section

variable {serde : SerdeJson} {content : List Char} {tool_names : List String}
  {open_tag close_tag : Tag} {r : Recovered} {front inner behind : List Char}

namespace FromSegment

/-- A call between tags has its lines to itself. -/
theorem blank
    (h : FromSegment serde content tool_names open_tag close_tag r front inner behind) :
    BlankFrom front ∧ BlankTo behind := by
  have hrecoverable := h.recoverable
  rw [isRecoverableToolCallSegment] at hrecoverable
  split_ifs at hrecoverable with hcode hquote
  obtain ⟨hpre, hsuffix⟩ := Bool.and_eq_true_iff.mp hrecoverable
  have hfront : content.take r.start = front := by
    rw [h.start_eq, h.content_eq, List.append_assoc, List.take_left]
  have hbehind : content.drop r.stop = behind := by
    have hlength : r.stop = (front ++ open_tag.1 ++ (inner ++ close_tag.1)).length := by
      rw [h.stop_eq, h.start_eq]
      simp only [List.length_append]
      omega
    have hcontent : content = front ++ open_tag.1 ++ (inner ++ close_tag.1) ++ behind := by
      rw [h.content_eq]
      simp only [List.append_assoc]
    rw [hlength, hcontent, List.drop_left]
  rw [linePrefix, hfront] at hpre
  rw [lineSuffix, hbehind] at hsuffix
  exact ⟨fun c hc => isWhitespace_of_trim hpre c (List.mem_reverse.mpr hc),
    isWhitespace_of_trim hsuffix⟩

/-- It overlaps no code region. -/
theorem code
    (h : FromSegment serde content tool_names open_tag close_tag r front inner behind) :
    overlapsCodeRegion r.start r.stop (findCodeRegions content) = false :=
  (outside_of_isRecoverable h.recoverable).code

/-- The tags, with what stands between them. -/
def segment (open_tag close_tag : Tag) (inner : List Char) : List Char :=
  open_tag.1 ++ (inner ++ close_tag.1)

theorem content_segment
    (h : FromSegment serde content tool_names open_tag close_tag r front inner behind) :
    content = front ++ (segment open_tag close_tag inner ++ behind) := by
  rw [h.content_eq, segment]
  simp only [List.append_assoc]

end FromSegment

/-- The name that is read from a segment over the beginning of a line has a backtick. -/
theorem backtick_mem_of_readSegment (hserde : JsonLines serde) {found : String × Value}
    (hread : readSegment serde tool_names inner = some found)
    (hinner : "]\n[Called tool `".toList <:+: inner) : '`' ∈ found.1.toList := by
  obtain ⟨x, y, hsplit, hx, hy, -⟩ := Text.exists_trim inner
  have htrim : "]\n[Called tool `".toList <:+: trim inner := by
    rw [hsplit, List.append_assoc] at hinner
    exact Split.infix_of_ends rfl rfl (fun h => absurd (hx _ h) (by decide))
      (fun h => absurd (hy _ h) (by decide)) hinner
  have hadjacent : serde.from_str (String.ofList (trim inner)) = none :=
    hserde.adjacent _ (List.IsInfix.trans ⟨[], "Called tool `".toList, rfl⟩ htrim)
  rw [readSegment] at hread
  split_ifs at hread
  rw [jsonCall, hadjacent] at hread
  change bareCall tool_names (trim inner) = some found at hread
  rw [bareCall] at hread
  split_ifs at hread
  cases hread
  rw [String.toList_ofList]
  exact htrim.subset (by decide)

/-- A name is no longer than the segment that it is read from. -/
theorem length_le_of_readSegment (hserde : JsonLines serde) {found : String × Value}
    (hread : readSegment serde tool_names inner = some found) :
    found.1.toList.length ≤ inner.length := by
  have htrim := Text.length_trim_le inner
  rw [readSegment] at hread
  split_ifs at hread
  rcases Option.or_eq_some_iff.mp hread with hjson | ⟨-, hbare⟩
  · simp only [jsonCall, Option.bind_eq_bind, Option.bind_eq_some_iff] at hjson
    obtain ⟨parsed, hparsed, name, hname, hfound⟩ := hjson
    split_ifs at hfound
    cases hfound
    exact (hserde.string_lt _ _ _ _ hparsed (Option.bind_eq_some_iff.mpr hname)).le.trans htrim
  · rw [bareCall] at hbare
    split_ifs at hbare
    cases hbare
    rwa [String.toList_ofList]

/-- A name that is read between tags in flattened lines has a backtick, or is shorter than the
name of a line. -/
theorem name_of_fromSegment (hserde : JsonLines serde) {calls : List (String × Value)}
    (htags : (open_tag, close_tag) ∈ TOOL_CALL_TAGS)
    (h : FromSegment serde (flattenedText serde calls) tool_names open_tag close_tag r front inner
      behind) :
    '`' ∈ r.call.name.toList ∨
      ∃ call ∈ calls, r.call.name.toList.length < call.1.toList.length := by
  obtain ⟨hfirst, hlast, hbracket, hbacktick⟩ := ends_of_tags _ htags
  obtain ⟨hfront, hbehind⟩ := h.blank
  have hlines : flattenedText serde calls = joinLines
      ((calls.map fun call => (call.1, serde.to_string call.2)).map fun call =>
        bracketLine call.1 call.2) := by
    rw [flattenedText, List.map_map]
    rfl
  have hargs : ∀ call ∈ calls.map fun call => (call.1, serde.to_string call.2),
      '\n' ∉ call.2.toList := by
    intro call hcall
    obtain ⟨original, -, rfl⟩ := List.mem_map.mp hcall
    exact hserde.one_line _
  have hfirst' : (FromSegment.segment open_tag close_tag inner).head? = some '<' := by
    rw [FromSegment.segment, head?_append_of_ne_nil open_tag.2, hfirst]
  have hlast' : (FromSegment.segment open_tag close_tag inner).getLast? = some '>' := by
    rw [FromSegment.segment, ← List.append_assoc, getLast?_append_right close_tag.2, hlast]
  rcases segment_of_lines hargs (hlines.symm.trans h.content_segment) hfirst' hlast' hfront
    hbehind with ⟨call, hcall, hocc⟩ | ⟨-, hocc⟩
  · obtain ⟨original, horiginal, rfl⟩ := List.mem_map.mp hcall
    refine .inr ⟨original, horiginal, (length_le_of_readSegment hserde h.read).trans_lt ?_⟩
    have hlength := hocc.length_le
    have hpos := List.length_pos_of_ne_nil open_tag.2
    rw [FromSegment.segment, List.length_append, List.length_append] at hlength
    dsimp only at hlength
    omega
  · exact .inl (backtick_mem_of_readSegment hserde h.read
      (Split.infix_of_ends rfl rfl hbracket hbacktick hocc))

end

/-! ### A single line -/

section

variable {name arguments : String}

/-- The first line opens no fence, and a marker stands before the first end of a line. -/
theorem not_inside_fence (rest : List Char) :
    isInsideCode 13 (fencedBlocks 0 (BRACKET_OPEN.1 ++ rest)) = false := by
  have hopens : opensFence (BRACKET_OPEN.1 ++ rest) = none := rfl
  have hlength : 13 < lineLength (BRACKET_OPEN.1 ++ rest) := by
    rw [lineLength]
    split
    · rename_i line behind hcut
      have htext := Split.cut?_eq_some hcut
      rw [List.append_assoc] at htext
      by_contra hlt
      have hmem : '\n' ∈ BRACKET_OPEN.1 := by
        have hnewline : (line ++ (['\n'] ++ behind))[line.length]? = some '\n' := by
          rw [List.getElem?_append_right (le_refl _), Nat.sub_self]
          rfl
        rw [← htext, List.getElem?_append_left (by
          rw [show BRACKET_OPEN.1.length = 14 from rfl]
          omega)] at hnewline
        exact List.mem_of_getElem? hnewline
      exact absurd hmem (by decide)
    · rw [List.length_append, show BRACKET_OPEN.1.length = 14 from rfl]
      omega
  rw [isInsideCode, List.any_eq_false]
  intro fence hfence
  have hfences : fencedBlocks 0 (BRACKET_OPEN.1 ++ rest) =
      fencedBlocks (0 + lineLength (BRACKET_OPEN.1 ++ rest))
        ((BRACKET_OPEN.1 ++ rest).drop (lineLength (BRACKET_OPEN.1 ++ rest))) := by
    conv_lhs => rw [show BRACKET_OPEN.1 ++ rest = '[' :: ("Called tool `".toList ++ rest) from rfl,
      fencedBlocks]
    split
    · rfl
    · rename_i hsome
      exact absurd (hsome.symm.trans hopens) (Option.some_ne_none _)
    · rename_i hsome
      exact absurd (hsome.symm.trans hopens) (Option.some_ne_none _)
  rw [hfences] at hfence
  have hle := le_start_of_mem_fencedBlocks hfence
  rw [Bool.and_eq_true, decide_eq_true_eq, decide_eq_true_eq]
  omega

/-- On a single line no call stands between tags: it would be in the name, which is in a span. -/
theorem not_fromSegment_line {serde : SerdeJson} {tool_names : List String}
    {open_tag close_tag : Tag} {r : Recovered} {front inner behind : List Char}
    (hname : '`' ∉ name.toList) (hargs : '\n' ∉ arguments.toList)
    (hfirst : open_tag.1.head? = some '<') :
    ¬FromSegment serde (bracketLine name arguments) tool_names open_tag close_tag r front inner
      behind := by
  intro h
  obtain ⟨hfront, -⟩ := h.blank
  have hnewline := newline_not_mem_lineTail hargs
  obtain ⟨open_tail, hopen⟩ : ∃ open_tail, open_tag.1 = '<' :: open_tail :=
    List.head?_eq_some_iff.mp hfirst
  have htext : front ++ '<' :: (open_tail ++ (inner ++ close_tag.1 ++ behind)) =
      BRACKET_OPEN.1 ++ (name.toList ++ '`' :: lineTail arguments.toList) := by
    rw [← bracketLine_eq, h.content_eq, hopen]
    simp only [List.append_assoc, List.cons_append]
  rcases List.append_eq_append_iff.mp htext with ⟨x, hx, hbehind⟩ | ⟨y, rfl, hy⟩
  · -- the tag would begin in the marker
    cases x with
    | nil =>
      rw [List.append_nil] at hx
      exact absurd (hx ▸ hfront) not_blankFrom_open
    | cons c x =>
      have hmem : '<' ∈ BRACKET_OPEN.1 :=
        hx ▸ List.mem_append_right _ ((List.cons.inj hbehind).1 ▸ List.mem_cons_self)
      exact absurd hmem (by decide)
  · -- or in the name
    have hmem := newline_mem_of_blankFrom hfront
    have hlength : y.length ≤ name.toList.length := by
      rcases List.append_eq_append_iff.mp hy with ⟨z, rfl, hz⟩ | ⟨z, hz, -⟩
      · cases z with
        | nil => exact absurd (List.cons.inj hz).1 (by decide)
        | cons c z =>
          obtain ⟨rfl, htail⟩ := List.cons.inj hz
          rw [← List.append_assoc] at hfront
          have hz := hfront.newline_mem (by decide) (by decide)
          exact absurd (htail ▸ List.mem_append_left _ hz) hnewline
      · rw [hz, List.length_append]
        exact Nat.le_add_right _ _
    have hne : name.toList ≠ [] := fun hnil => by
      rw [hnil, List.length_nil, Nat.le_zero, List.length_eq_zero_iff] at hlength
      exact absurd (hlength ▸ hmem) List.not_mem_nil
    have hopen_eq : ∀ rest, "[Called tool ".toList ++ '`' :: rest = BRACKET_OPEN.1 ++ rest :=
      fun _ => rfl
    have hlength13 : "[Called tool ".toList.length = 13 := rfl
    have hspan := mem_findCodeRegions_first (by decide : '`' ∉ "[Called tool ".toList) hne hname
      (head?_lineTail arguments.toList)
      (by rw [hlength13, hopen_eq]; exact not_inside_fence _)
    rw [hlength13] at hspan
    rw [hopen_eq, ← bracketLine_eq] at hspan
    have hcode := List.any_eq_false.mp h.code _ hspan
    rw [Bool.and_eq_true, decide_eq_true_eq, decide_eq_true_eq, h.stop_eq, h.start_eq,
      List.length_append, show BRACKET_OPEN.1.length = 14 from rfl] at hcode
    dsimp only at hcode
    omega

end

/-! ### The marker at the front -/

section

variable {serde : SerdeJson} {tool_names : List String}

theorem stripFront_append (front rest : List Char) :
    stripFront front (front ++ rest) = some rest := by
  rw [stripFront, if_pos (List.isPrefixOf_iff_prefix.mpr (List.prefix_append _ _)),
    List.drop_left]

/-- The first marker takes all that is left up to the last bracket. -/
theorem bracketCalls_line {name : String} {text : List Char} (hname : '`' ∉ name.toList)
    (hmem : name ∈ tool_names) (calls : List Recovered) :
    bracketCalls serde tool_names 0
        (BRACKET_OPEN.1 ++ (name.toList ++ '`' :: (WITH_ARGUMENTS ++ (text ++ [']'])))) calls =
      calls ++ [⟨0, 0 + BRACKET_OPEN.1.length + name.toList.length + 1 +
          (WITH_ARGUMENTS.length + text.length + 1),
        recoveredCall calls.length name
          ((serde.from_str (String.ofList text)).getD emptyObject)⟩] := by
  have hsegment : nextSegment BRACKET_OPEN BACKTICK
      (BRACKET_OPEN.1 ++ (name.toList ++ '`' :: (WITH_ARGUMENTS ++ (text ++ [']'])))) =
        some ([], name.toList, WITH_ARGUMENTS ++ (text ++ [']'])) := by
    rw [nextSegment, Split.cut?_prefix]
    change (cut? ['`'] (name.toList ++ '`' :: (WITH_ARGUMENTS ++ (text ++ [']'])))).bind _ = _
    rw [Split.cut?_singleton hname]
    rfl
  have harguments : argumentsText (WITH_ARGUMENTS ++ (text ++ [']'])) = some text := by
    rw [argumentsText, stripFront_append]
    exact Text.beforeLast?_append_self (by decide) text
  have hrest : markerRest (WITH_ARGUMENTS ++ (text ++ [']'])) =
      WITH_ARGUMENTS.length + text.length + 1 := by
    rw [markerRest, harguments]
  have hend : ∀ (pos : ℕ) (calls : List Recovered),
      bracketCalls serde tool_names pos [] calls = calls := by
    intro pos calls
    rw [bracketCalls]
    rfl
  rw [bracketCalls]
  split
  · rename_i hnone
    exact absurd (hsegment.symm.trans hnone) (Option.some_ne_none _)
  · rename_i hsome
    obtain ⟨rfl, rfl, rfl⟩ := Option.some.inj (hsome.symm.trans hsegment)
    have hdrop : (WITH_ARGUMENTS ++ (text ++ [']'])).drop
        (markerRest (WITH_ARGUMENTS ++ (text ++ [']']))) = [] := by
      rw [hrest, List.drop_eq_nil_iff, List.length_append, List.length_append]
      exact (Nat.add_assoc _ _ _).ge
    rw [String.ofList_toList, if_pos hmem, hdrop, hend, markerArguments, harguments, hrest]
    rfl

end

/-- Lines end with a bracket. -/
theorem joinLines_eq_concat (serde : SerdeJson) (call : String × Value)
    (calls : List (String × Value)) :
    ∃ text, flattenedText serde (call :: calls) = text ++ [']'] := by
  induction calls generalizing call with
  | nil =>
    refine ⟨BRACKET_OPEN.1 ++ call.1.toList ++
      '`' :: (WITH_ARGUMENTS ++ (serde.to_string call.2).toList), ?_⟩
    simp [flattenedText, joinLines, bracketLine]
  | cons next calls ih =>
    obtain ⟨text, htext⟩ := ih next
    refine ⟨bracketLine call.1 (serde.to_string call.2) ++ '\n' :: text, ?_⟩
    rw [List.append_assoc, List.cons_append, ← htext, flattenedText, flattenedText,
      List.map_cons, joinLines_cons, List.map_cons, List.flatMap_cons, joinLines_cons]
    rfl

/-! ### Stripping a line -/

section

variable {name arguments : String}

theorem stripBracketToolCalls_none {remaining : List Char}
    (h : ¬BRACKET_OPEN.1 <:+: remaining) : stripBracketToolCalls remaining = remaining := by
  rw [stripBracketToolCalls]
  split
  · rfl
  · rename_i hsome
    exact absurd (hsome.symm.trans (Split.cut?_eq_none.mpr h)) (Option.some_ne_none _)

/-- One expression is taken out. -/
theorem stripBracketToolCalls_some {remaining front back : List Char} {n : ℕ}
    (h : cut? BRACKET_OPEN.1 remaining = some (front, back))
    (hend : bracketEnd (remaining.drop front.length) = some n) :
    stripBracketToolCalls remaining =
      front ++ stripBracketToolCalls ((remaining.drop front.length).drop n) := by
  rw [stripBracketToolCalls]
  split
  · rename_i hnone
    exact absurd (h.symm.trans hnone) (Option.some_ne_none _)
  · rename_i hsome
    obtain ⟨rfl, rfl⟩ := Prod.mk.inj (Option.some.inj (hsome.symm.trans h))
    dsimp only
    split
    · rename_i hsome'
      obtain rfl := Option.some.inj (hsome'.symm.trans hend)
      rfl
    · rename_i hnone
      exact absurd (hend.symm.trans hnone) (Option.some_ne_none _)

/-- What stands in front of the first marker stays. -/
theorem front_infix_strip {remaining front back : List Char}
    (h : cut? BRACKET_OPEN.1 remaining = some (front, back)) :
    front <+: stripBracketToolCalls remaining := by
  rw [stripBracketToolCalls]
  split
  · rename_i hnone
    exact absurd (h.symm.trans hnone) (Option.some_ne_none _)
  · rename_i hsome
    obtain ⟨rfl, rfl⟩ := Prod.mk.inj (Option.some.inj (hsome.symm.trans h))
    dsimp only
    split
    · exact List.prefix_append _ _
    · exact List.prefix_append _ _

/-- A line without another behind it is taken out as a whole. -/
theorem bracketEnd_line {text : List Char} (h : ¬"]\n".toList <:+: text ++ [']']) :
    bracketEnd (text ++ [']']) = some (text ++ [']']).length := by
  rw [bracketEnd, Split.cut?_eq_none.mpr h, Text.beforeLast?_append_self (by decide)]
  simp

/-- A bracket at the end of a line of `name`, or of none. -/
theorem infix_line_iff (hargs : '\n' ∉ arguments.toList) (front : List Char)
    (hfront : ']' ∉ front) (name : List Char) :
    "]\n".toList <:+: front ++ (name ++ '`' :: lineTail arguments.toList) ↔
      "]\n".toList <:+: name := by
  have hnewline : '\n' ∉ '`' :: lineTail arguments.toList := fun h =>
    (List.mem_cons.mp h).elim (fun heq => absurd heq (by decide)) (newline_not_mem_lineTail hargs)
  constructor
  · exact Split.infix_of_ends rfl rfl hfront hnewline
  · rintro ⟨x, y, rfl⟩
    exact ⟨front ++ x, y ++ '`' :: lineTail arguments.toList, by simp⟩

/-- Behind the first bracket that ends a line of the name: only the beginning of a marker is
taken out with the rest of the line. -/
theorem strip_rest_iff {rest : List Char} (hrest : '`' ∉ rest) (hargs : '\n' ∉ arguments.toList) :
    (∀ c ∈ stripBracketToolCalls (rest ++ '`' :: lineTail arguments.toList),
        isWhitespace c = true) ↔
      ∃ w, rest = w ++ "[Called tool ".toList ∧ ∀ c ∈ w, isWhitespace c = true := by
  have hopen : ∀ text, "[Called tool ".toList ++ '`' :: text = BRACKET_OPEN.1 ++ text :=
    fun _ => rfl
  have htick : '`' ∈ rest ++ '`' :: lineTail arguments.toList :=
    List.mem_append_right _ List.mem_cons_self
  constructor
  · intro hblank
    have hnot : '`' ∉ stripBracketToolCalls (rest ++ '`' :: lineTail arguments.toList) :=
      fun h => absurd (hblank _ h) (by decide)
    cases hcut : cut? BRACKET_OPEN.1 (rest ++ '`' :: lineTail arguments.toList) with
    | none =>
      rw [stripBracketToolCalls_none (Split.cut?_eq_none.mp hcut)] at hnot
      exact absurd htick hnot
    | some parts =>
      obtain ⟨front, back⟩ := parts
      have hfront : '`' ∉ front := fun h => hnot ((front_infix_strip hcut).subset h)
      have htext := Split.cut?_eq_some hcut
      rw [List.append_assoc] at htext
      rcases List.append_eq_append_iff.mp htext with ⟨a, rfl, ha⟩ | ⟨a, rfl, ha⟩
      · -- the name goes on behind the front or ends with it
        cases a with
        | nil => exact absurd (List.cons.inj ha).1 (by decide)
        | cons c a =>
          obtain ⟨rfl, -⟩ := List.cons.inj ha
          exact absurd (List.mem_append_right _ List.mem_cons_self) hfront
      · have ha' : '`' ∉ a := fun h => hrest (List.mem_append_right _ h)
        -- the first backtick of the marker is its last character
        have hmarker : BRACKET_OPEN.1 ++ back = "[Called tool ".toList ++ '`' :: back := rfl
        have hfirst := Split.cut?_singleton (show '`' ∉ "[Called tool ".toList by decide) back
        have hfirst' := Split.cut?_singleton ha' (lineTail arguments.toList)
        rw [← ha, hmarker, hfirst] at hfirst'
        obtain ⟨rfl, -⟩ := Prod.mk.inj (Option.some.inj hfirst')
        refine ⟨front, rfl, fun c hc => hblank c ((front_infix_strip hcut).subset hc)⟩
  · rintro ⟨w, rfl, hw⟩
    have hcut : cut? BRACKET_OPEN.1
        (w ++ "[Called tool ".toList ++ '`' :: lineTail arguments.toList) =
          some (w, lineTail arguments.toList) := by
      rw [List.append_assoc, hopen]
      refine Split.cut?_append fun shorter hshorter hne hoccurs => ?_
      -- the backtick of an earlier marker would stand in the name
      obtain ⟨more, rfl⟩ := hshorter
      have hmore : more ≠ [] := fun h => hne (by rw [h, List.append_nil])
      have hpos := List.length_pos_of_ne_nil hmore
      rw [List.append_assoc, List.prefix_append_right_inj, ← hopen, ← List.append_assoc] at hoccurs
      have hget : (more ++ "[Called tool ".toList ++ '`' :: lineTail arguments.toList)[13]? =
          some '`' := by
        obtain ⟨behind, hbehind⟩ := hoccurs
        rw [← hbehind]
        rfl
      rw [List.getElem?_append_left (by
        rw [List.length_append, show "[Called tool ".toList.length = 13 from rfl]
        omega)] at hget
      refine hrest ?_
      rw [List.append_assoc]
      exact List.mem_append_right _ (List.mem_of_getElem? hget)
    have hdrop : (w ++ "[Called tool ".toList ++ '`' :: lineTail arguments.toList).drop w.length =
        BRACKET_OPEN.1 ++ (WITH_ARGUMENTS ++ arguments.toList) ++ [']'] := by
      rw [List.append_assoc, List.drop_left, hopen, lineTail]
      simp only [List.append_assoc]
    have hline : ¬"]\n".toList <:+:
        BRACKET_OPEN.1 ++ (WITH_ARGUMENTS ++ arguments.toList) ++ [']'] := by
      intro hocc
      have hmem := hocc.subset (show '\n' ∈ "]\n".toList by decide)
      rw [List.append_assoc, List.mem_append] at hmem
      rcases hmem with hmem | hmem
      · exact absurd hmem (by decide)
      · exact newline_not_mem_lineTail hargs hmem
    rw [stripBracketToolCalls_some hcut (by rw [hdrop]; exact bracketEnd_line hline), hdrop,
      List.drop_length, stripBracketToolCalls_none (by decide), List.append_nil]
    exact hw

/-- **When stripping a line leaves nothing**: a bracket that ends a line of the name ends what is
stripped, and the rest is blank only when it is the beginning of a marker. -/
theorem strip_line_iff (hname : '`' ∉ name.toList) (hargs : '\n' ∉ arguments.toList) :
    (∀ c ∈ stripBracketToolCalls (bracketLine name arguments), isWhitespace c = true) ↔
      StripsBlank name.toList := by
  have hcut : cut? BRACKET_OPEN.1 (bracketLine name arguments) =
      some ([], name.toList ++ '`' :: lineTail arguments.toList) := by
    rw [bracketLine_eq]
    exact Split.cut?_prefix _
  have hbracket : ']' ∉ BRACKET_OPEN.1 := by decide
  cases hends : cut? "]\n".toList name.toList with
  | none =>
    -- the whole line is taken out
    have hline : bracketLine name arguments =
        BRACKET_OPEN.1 ++ name.toList ++ '`' :: (WITH_ARGUMENTS ++ arguments.toList) ++ [']'] := by
      rw [bracketLine]
      simp
    have hocc : ¬"]\n".toList <:+:
        BRACKET_OPEN.1 ++ name.toList ++ '`' :: (WITH_ARGUMENTS ++ arguments.toList) ++ [']'] := by
      rw [← hline, bracketLine_eq, infix_line_iff hargs _ hbracket]
      exact Split.cut?_eq_none.mp hends
    have hend := bracketEnd_line hocc
    rw [← hline] at hend
    rw [stripBracketToolCalls_some hcut hend, List.length_nil, List.drop_zero, List.drop_length,
      stripBracketToolCalls_none (by decide)]
    exact ⟨fun _ u v h => absurd (hends.symm.trans h) (Option.some_ne_none _).symm,
      fun _ c hc => absurd hc List.not_mem_nil⟩
  | some parts =>
    obtain ⟨u, v⟩ := parts
    have hname_eq := Split.cut?_eq_some hends
    have hend : bracketEnd (bracketLine name arguments) =
        some ((BRACKET_OPEN.1 ++ u).length + 2) := by
      rw [bracketEnd, bracketLine_eq, Split.cut?_append_left rfl hbracket,
        Split.cut?_append_right hends]
      rfl
    have hdrop : (bracketLine name arguments).drop ((BRACKET_OPEN.1 ++ u).length + 2) =
        v ++ '`' :: lineTail arguments.toList := by
      have hline : bracketLine name arguments =
          (BRACKET_OPEN.1 ++ u ++ "]\n".toList) ++ (v ++ '`' :: lineTail arguments.toList) := by
        rw [bracketLine_eq, hname_eq]
        simp only [List.append_assoc]
      rw [hline]
      exact List.drop_left' (by rw [List.length_append]; rfl)
    have hrest : '`' ∉ v := fun h => hname (hname_eq ▸ List.mem_append_right _ h)
    rw [stripBracketToolCalls_some hcut hend, List.length_nil, List.drop_zero, hdrop,
      List.nil_append, strip_rest_iff hrest hargs]
    refine ⟨fun h u' v' h' => ?_, fun h => h u v hends⟩
    obtain ⟨-, rfl⟩ := Prod.mk.inj (Option.some.inj (hends.symm.trans h'))
    exact h

end

/-! ### The round trip -/

section

variable {serde : SerdeJson} {available_tools : List ToolDefinition}

/-- A call that is recovered is read from a segment, or at a marker. -/
theorem mem_foldl_taggedCalls {content : List Char} {tool_names : List String}
    {tags : List (Tag × Tag)} {calls : List Recovered} {r : Recovered}
    (hr : r ∈ tags.foldl (fun calls tags =>
      taggedCalls serde content tool_names tags.1 tags.2 0 content calls) calls) :
    r ∈ calls ∨ ∃ tag ∈ tags, ∃ front inner behind,
      FromSegment serde content tool_names tag.1 tag.2 r front inner behind := by
  induction tags generalizing calls with
  | nil => exact .inl hr
  | cons tag tags ih =>
    rcases ih hr with hr | ⟨later, hlater, hfound⟩
    · refine (mem_taggedCalls (List.nil_append content).symm List.length_nil.symm hr).imp_right ?_
      exact fun hfound => ⟨tag, List.mem_cons_self, hfound⟩
    · exact .inr ⟨later, List.mem_cons_of_mem _ hlater, hfound⟩

/-- The names and arguments that are recovered from lines: those of segments, and at last those of
the first marker, with the text up to the last bracket as arguments. -/
theorem recovered_of_line (serde : SerdeJson) {name : String} {content text : List Char}
    (hname : '`' ∉ name.toList)
    (hmem : name ∈ available_tools.map ToolDefinition.name)
    (hcontent : content =
      BRACKET_OPEN.1 ++ (name.toList ++ '`' :: (WITH_ARGUMENTS ++ (text ++ [']'])))) :
    ∃ tagged : List Recovered,
      (∀ r ∈ tagged, ∃ tag ∈ TOOL_CALL_TAGS, ∃ front inner behind, FromSegment serde content
        (available_tools.map ToolDefinition.name) tag.1 tag.2 r front inner behind) ∧
      (recoverToolCallsFromContent serde content available_tools).map
          (fun tc => (tc.name, tc.arguments)) =
        tagged.map (fun r => (r.call.name, r.call.arguments)) ++
          [(name, (serde.from_str (String.ofList text)).getD emptyObject)] := by
  refine ⟨TOOL_CALL_TAGS.foldl (fun calls tags => taggedCalls serde content
    (available_tools.map ToolDefinition.name) tags.1 tags.2 0 content calls) [], ?_, ?_⟩
  · intro r hr
    exact (mem_foldl_taggedCalls hr).resolve_left List.not_mem_nil
  · rw [recoverToolCallsFromContent, recovered]
    conv_lhs => rw [hcontent]
    rw [bracketCalls_line hname hmem, ← hcontent, List.map_append, List.map_append, List.map_map,
      List.map_map]
    rfl

theorem flattenedText_singleton (name : String) (arguments : Value) :
    flattenedText serde [(name, arguments)] = bracketLine name (serde.to_string arguments) := by
  rw [flattenedText, List.map_singleton, joinLines_cons]
  exact List.append_nil _

/-- A single call comes back, with the arguments that its text is read as. -/
theorem recover_singleton (hserde : JsonLines serde) {name : String} (arguments : Value)
    (hname : '`' ∉ name.toList) (hmem : name ∈ available_tools.map ToolDefinition.name) :
    (recoverToolCallsFromContent serde (flattenedText serde [(name, arguments)])
        available_tools).map (fun tc => (tc.name, tc.arguments)) =
      [(name, (serde.from_str (serde.to_string arguments)).getD emptyObject)] := by
  rw [flattenedText_singleton]
  have hline : bracketLine name (serde.to_string arguments) = BRACKET_OPEN.1 ++ (name.toList ++
      '`' :: (WITH_ARGUMENTS ++ ((serde.to_string arguments).toList ++ [']']))) :=
    bracketLine_eq _ _
  obtain ⟨tagged, htagged, hrecover⟩ := recovered_of_line serde hname hmem hline
  have hnone : tagged = [] := by
    refine List.eq_nil_iff_forall_not_mem.mpr fun r hr => ?_
    obtain ⟨tag, htag, front, inner, behind, hsegment⟩ := htagged r hr
    exact not_fromSegment_line hname (hserde.one_line _) (ends_of_tags tag htag).1 hsegment
  rw [hrecover, hnone, String.ofList_toList]
  rfl

/-- Several calls do not come back: the first marker takes the text of all of them. -/
theorem recover_several (hserde : JsonLines serde) {first next : String × Value}
    {calls : List (String × Value)}
    (hnames : ∀ call ∈ first :: next :: calls,
      call.1 ∈ available_tools.map ToolDefinition.name ∧ '`' ∉ call.1.toList) :
    (recoverToolCallsFromContent serde (flattenedText serde (first :: next :: calls))
        available_tools).map (fun tc => (tc.name, tc.arguments)) ≠ first :: next :: calls := by
  intro hrecover
  obtain ⟨hmem, hname⟩ := hnames first List.mem_cons_self
  obtain ⟨behind, hbehind⟩ := joinLines_eq_concat serde next calls
  have hcontent : flattenedText serde (first :: next :: calls) =
      BRACKET_OPEN.1 ++ (first.1.toList ++ '`' :: (WITH_ARGUMENTS ++
        ((serde.to_string first.2).toList ++ "]\n".toList ++ behind ++ [']']))) := by
    rw [List.append_assoc _ behind, ← hbehind, flattenedText, List.map_cons, joinLines_cons,
      bracketLine_eq, lineTail, flattenedText, List.map_cons, joinLines_cons]
    simp
  obtain ⟨tagged, htagged, hlast⟩ := recovered_of_line serde hname hmem hcontent
  rw [hserde.trailing, Option.getD_none, hrecover] at hlast
  -- the first call is not the last one, and so one from a segment
  have hfirst : first ∈ tagged.map fun r => (r.call.name, r.call.arguments) := by
    cases tagged with
    | nil => exact absurd (List.cons.inj hlast).2 (List.cons_ne_nil _ _)
    | cons r tagged => exact (List.cons.inj hlast).1 ▸ List.mem_cons_self
  have hsegment : ∀ call ∈ first :: next :: calls,
      ∃ r ∈ tagged, r.call.name = call.1 := by
    intro call hcall
    rw [hlast] at hcall
    rcases List.mem_append.mp hcall with hcall | hcall
    · obtain ⟨r, hr, rfl⟩ := List.mem_map.mp hcall
      exact ⟨r, hr, rfl⟩
    · obtain ⟨r, hr, heq⟩ := List.mem_map.mp hfirst
      refine ⟨r, hr, ?_⟩
      rw [List.mem_singleton.mp hcall, ← heq]
  -- but every name from a segment is shorter than some other
  have hlonger : ∀ call ∈ first :: next :: calls, ∃ longer ∈ first :: next :: calls,
      call.1.toList.length < longer.1.toList.length := by
    intro call hcall
    obtain ⟨r, hr, hcall_name⟩ := hsegment call hcall
    obtain ⟨tag, htag, front, inner, behind, hsegment⟩ := htagged r hr
    rcases name_of_fromSegment hserde htag hsegment with htick | hlonger
    · exact absurd (hcall_name ▸ htick) (hnames call hcall).2
    · rwa [hcall_name] at hlonger
  obtain ⟨longest, hlongest⟩ := Option.ne_none_iff_exists'.mp (mt List.argmax_eq_none.mp
    (List.cons_ne_nil first (next :: calls)) : List.argmax (fun call => call.1.toList.length) _ ≠ _)
  obtain ⟨longer, hmem_longer, hlt⟩ := hlonger longest (List.argmax_mem hlongest)
  exact absurd (List.le_of_mem_argmax hmem_longer hlongest) (Nat.not_le.mpr hlt)

/-- **When flattened calls come back**: when there is a single one, the reader reads its
arguments as they were printed, and its name leaves nothing behind when its line is stripped. -/
theorem flattened_recovered_iff (hserde : JsonLines serde) {calls : List (String × Value)}
    (hne : calls ≠ [])
    (hnames : ∀ call ∈ calls,
      call.1 ∈ available_tools.map ToolDefinition.name ∧ '`' ∉ call.1.toList) :
    RoundTrip serde available_tools calls ↔
      ∃ name arguments, calls = [(name, arguments)] ∧
        (serde.from_str (serde.to_string arguments)).getD emptyObject = arguments ∧
        StripsBlank name.toList := by
  cases calls with
  | nil => exact absurd rfl hne
  | cons first calls =>
    cases calls with
    | nil =>
      obtain ⟨name, arguments⟩ := first
      obtain ⟨hmem, hname⟩ := hnames _ List.mem_cons_self
      have hrecover := recover_singleton hserde arguments hname hmem
      have hstrip := strip_line_iff hname (hserde.one_line arguments)
      rw [← flattenedText_singleton] at hstrip
      constructor
      · intro h
        have hargs := (List.cons.inj (hrecover.symm.trans h.recovered)).1
        exact ⟨name, arguments, rfl, (Prod.mk.inj hargs).2, hstrip.mp h.stripped⟩
      · rintro ⟨name', arguments', hcalls, hargs, hblank⟩
        obtain ⟨rfl, rfl⟩ := Prod.mk.inj (List.cons.inj hcalls).1
        exact ⟨by rw [hrecover, hargs], hstrip.mpr hblank⟩
    | cons next calls =>
      constructor
      · exact fun h => absurd h.recovered (recover_several hserde hnames)
      · rintro ⟨name, arguments, hcalls, -⟩
        exact absurd (List.cons.inj hcalls).2 (List.cons_ne_nil _ _)

end

theorem jsonLines_serdeOfEmpty : JsonLines serdeOfEmpty where
  one_line _ := show '\n' ∉ "\x7b\x7d".toList by decide
  trailing _ rest := by
    refine if_neg fun htext => ?_
    rw [← String.toList_inj, String.toList_ofList] at htext
    have hmem : '\n' ∈ "\x7b\x7d".toList ++ "]\n".toList ++ rest :=
      List.mem_append_left _ (by decide)
    exact absurd (htext ▸ hmem) (by decide)
  adjacent text h := by
    refine if_neg fun htext => ?_
    rw [← String.toList_inj, String.toList_ofList] at htext
    exact absurd (htext ▸ h.subset (show '\n' ∈ "]\n[".toList by decide)) (by decide)
  string_lt text v key s h hs := by
    obtain rfl : emptyObject = v := by
      change (if _ then some emptyObject else none) = some v at h
      split_ifs at h
      exact Option.some.inj h
    cases hs

/-- A call without arguments comes back. -/
theorem flattened_recovered_http : RoundTrip serdeOfEmpty [⟨"http", "", .null⟩]
    [("http", emptyObject)] := by
  refine (flattened_recovered_iff jsonLines_serdeOfEmpty (List.cons_ne_nil _ _)
    (List.forall_mem_singleton.mpr ⟨by decide, by decide⟩)).mpr
      ⟨"http", emptyObject, rfl, rfl, fun u v h => ?_⟩
  have hnone : cut? "]\n".toList "http".toList = none := by decide
  exact absurd (hnone.symm.trans h) (Option.some_ne_none _).symm

/-- Two calls do not. -/
theorem flattened_twice_lost : ¬RoundTrip serdeOfEmpty [⟨"http", "", .null⟩]
    [("http", emptyObject), ("http", emptyObject)] := fun h =>
  recover_several jsonLines_serdeOfEmpty
    (List.forall_mem_cons.mpr ⟨⟨by decide, by decide⟩,
      List.forall_mem_singleton.mpr ⟨by decide, by decide⟩⟩) h.recovered

end T3Claw.Llm
