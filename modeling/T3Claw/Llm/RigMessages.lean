import Mathlib.Data.List.Nodup
import T3Claw.Llm.Recovery

/-!
# Messages of the rig adapter

`convert_messages` of `llm/rig_adapter.rs`. The id of a call and the id of its result are
normalised apart from one another. One that is not blank is read off the raw id on both sides, but
for a blank one a number is made up from how many messages there are so far, which are more by the
time the result is converted (`pairing_iff`).
-/

namespace T3Claw.Llm.Rig

open Text (trim byteLength)

/-! ### The messages of the crate -/

/-- `OneOrMany`. -/
structure OneOrMany (α : Type) where
  items : List α
  ne_nil : items ≠ []

namespace OneOrMany

variable {α : Type}

/-- `OneOrMany::one`. -/
def one (item : α) : OneOrMany α := ⟨[item], List.cons_ne_nil _ _⟩

/-- `OneOrMany::many`, `none` where it is an error. -/
def many (items : List α) : Option (OneOrMany α) :=
  if h : items ≠ [] then some ⟨items, h⟩ else none

/-- `OneOrMany::push`. -/
def push (content : OneOrMany α) (item : α) : OneOrMany α := ⟨content.items ++ [item], by simp⟩

end OneOrMany

/-- `DocumentSourceKind`, as far as it is used here. -/
inductive DocumentSourceKind where
  | base64 (data : List Char)
  | url (url : List Char)

/-- What is used of crates: the first eight bytes of a SHA-256 as a number, and the names of image
details and media types. -/
structure RigHost (Detail MediaType : Type) where
  sha256_prefix : List Char → ℕ
  image_detail : List Char → Detail
  from_mime_type : List Char → Option MediaType

variable {Detail MediaType : Type}

/-- `Image`. -/
structure Image (Detail MediaType : Type) where
  data : DocumentSourceKind
  media_type : Option MediaType
  detail : Option Detail

/-- `UserContent`, as far as it is used here. -/
inductive UserContent (Detail MediaType : Type) where
  | text (text : List Char)
  | image (image : Image Detail MediaType)
  | toolResult (id : String) (call_id : Option String) (content : OneOrMany (List Char))

/-- `AssistantContent`, as far as it is used here. -/
inductive AssistantContent where
  | text (text : List Char)
  | toolCall (id : String) (call_id : Option String) (name : String) (arguments : Value)

/-- `rig::message::Message`. -/
inductive RigMessage (Detail MediaType : Type) where
  | user (content : OneOrMany (UserContent Detail MediaType))
  | assistant (content : OneOrMany AssistantContent)

/-! ### Ids -/

/-- `normalized_tool_call_id`. -/
def normalizedToolCallId (host : RigHost Detail MediaType) (raw : Option String) (seed : ℕ) :
    String :=
  match (raw.map fun s => trim s.toList).filter (· ≠ []) with
  | some id =>
    if byteLength id = 9 ∧ id.all Char.isAlphanum then String.ofList id
    else
      let hash64 := host.sha256_prefix id
      generateToolCallId (hash64 / 2 ^ 32) (hash64 % 2 ^ 32)
  | none => generateToolCallId seed 0

/-! ### Converting -/

/-- `normalize_openai_image_detail`. -/
def normalizeOpenaiImageDetail (detail : Option String) : List Char :=
  match ((detail.map fun s => trim s.toList).filter (· ≠ [])).map (·.map Char.toLower) with
  | some detail =>
    if detail = "auto".toList ∨ detail = "low".toList ∨ detail = "high".toList then detail
    else "auto".toList
  | none => "auto".toList

/-- The image of a part. -/
def convertImage (host : RigHost Detail MediaType) (image_url : ImageUrl) :
    Image Detail MediaType :=
  let detail := host.image_detail (normalizeOpenaiImageDetail image_url.detail)
  let url := image_url.url.toList
  if "data:".toList <+: url then
    let rest := url.drop 5
    let (mime, b64) := (Split.cut? ";base64,".toList rest).getD ("image/jpeg".toList, rest)
    ⟨.base64 b64, host.from_mime_type mime, some detail⟩
  else ⟨.url url, none, some detail⟩

/-- The contents of a user message with parts. -/
def userContents (host : RigHost Detail MediaType) (msg : ChatMessage) :
    List (UserContent Detail MediaType) :=
  .text msg.content :: msg.content_parts.filterMap fun
    | .imageUrl image_url => some (.image (convertImage host image_url))
    | .text _ => none

/-- The contents of an assistant message with calls, behind `n` messages. -/
def assistantContents (host : RigHost Detail MediaType) (n : ℕ) (content : List Char)
    (tool_calls : List ToolCall) : List AssistantContent :=
  (if content = [] then [] else [.text content]) ++
    tool_calls.mapIdx fun idx tc =>
      let tool_call_id := normalizedToolCallId host (some tc.id) (n + idx)
      .toolCall tool_call_id (some tool_call_id) tc.name tc.arguments

/-- `RigMessage::user` of a text. -/
def RigMessage.userText (text : List Char) : RigMessage Detail MediaType :=
  .user (.one (.text text))

/-- `RigMessage::assistant` of a text. -/
def RigMessage.assistantText (text : List Char) : RigMessage Detail MediaType :=
  .assistant (.one (.text text))

/-- A content that is the result of a call. -/
def UserContent.isToolResult : UserContent Detail MediaType → Bool
  | .toolResult .. => true
  | _ => false

/-- A message of results only. -/
def RigMessage.isResults : RigMessage Detail MediaType → Bool
  | .user content => content.items.all UserContent.isToolResult
  | .assistant _ => false

/-- A result goes to those before it, or begins a message. -/
def pushResult (history : List (RigMessage Detail MediaType))
    (tool_result : UserContent Detail MediaType) : List (RigMessage Detail MediaType) :=
  match history.getLast? with
  | some (.user content) =>
    if content.items.all UserContent.isToolResult then
      history.dropLast ++ [.user (content.push tool_result)]
    else history ++ [.user (.one tool_result)]
  | _ => history ++ [.user (.one tool_result)]

/-- The preamble and the messages so far. -/
abbrev Converted (Detail MediaType : Type) : Type :=
  Option (List Char) × List (RigMessage Detail MediaType)

/-- The body of the loop of `convert_messages`. -/
def convertMessage (host : RigHost Detail MediaType) (state : Converted Detail MediaType)
    (msg : ChatMessage) : Converted Detail MediaType :=
  let (preamble, history) := state
  match msg.role with
  | .system =>
    match preamble with
    | some p => (some (p ++ '\n' :: msg.content), history)
    | none => (some msg.content, history)
  | .user =>
    if msg.content_parts = [] then
      if msg.content = [] then (preamble, history)
      else (preamble, history ++ [.userText msg.content])
    else
      match OneOrMany.many (userContents host msg) with
      | some many => (preamble, history ++ [.user many])
      | none => (preamble, history ++ [.userText msg.content])
  | .assistant =>
    match msg.tool_calls with
    | some tool_calls =>
      match OneOrMany.many (assistantContents host history.length msg.content tool_calls) with
      | some many => (preamble, history ++ [.assistant many])
      | none => (preamble, history ++ [.assistantText msg.content])
    | none =>
      if msg.content = [] then (preamble, history)
      else (preamble, history ++ [.assistantText msg.content])
  | .tool =>
    let tool_id := normalizedToolCallId host msg.tool_call_id history.length
    (preamble, pushResult history (.toolResult tool_id (some tool_id) (.one msg.content)))

/-- `convert_messages`. -/
def convertMessages (host : RigHost Detail MediaType) (messages : List ChatMessage) :
    Converted Detail MediaType :=
  messages.foldl (convertMessage host) (none, [])

/-! ### What is promised -/

/-- The ids of the calls in a message. -/
def RigMessage.callIds : RigMessage Detail MediaType → List String
  | .user _ => []
  | .assistant content => content.items.filterMap fun
    | .toolCall id _ _ _ => some id
    | .text _ => none

/-- The ids of the results in a message. -/
def RigMessage.resultIds : RigMessage Detail MediaType → List String
  | .user content => content.items.filterMap fun
    | .toolResult id _ _ => some id
    | _ => none
  | .assistant _ => []

/-- What a message says, apart from ids. -/
inductive Piece (Detail MediaType : Type) where
  | userText (text : List Char)
  | assistantText (text : List Char)
  | image (image : Image Detail MediaType)
  | call (name : String) (arguments : Value)
  | result (content : List (List Char))

/-- What a converted message says. -/
def RigMessage.pieces : RigMessage Detail MediaType → List (Piece Detail MediaType)
  | .user content => content.items.map fun
    | .text text => .userText text
    | .image image => .image image
    | .toolResult _ _ content => .result content.items
  | .assistant content => content.items.map fun
    | .text text => .assistantText text
    | .toolCall _ _ name arguments => .call name arguments

/-- What a message says that is to be converted: its text, its images and its calls. -/
def saidBy (host : RigHost Detail MediaType) (msg : ChatMessage) : List (Piece Detail MediaType) :=
  match msg.role with
  | .system => []
  | .user =>
    if msg.content_parts = [] ∧ msg.content = [] then []
    else .userText msg.content :: msg.content_parts.filterMap fun
      | .imageUrl image_url => some (.image (convertImage host image_url))
      | .text _ => none
  | .assistant =>
    let calls := (msg.tool_calls.getD []).map fun tc => .call tc.name tc.arguments
    if msg.content = [] ∧ (msg.tool_calls = none ∨ calls ≠ []) then calls
    else .assistantText msg.content :: calls
  | .tool => [.result [msg.content]]

/-- The text of the system messages. -/
def preambleOf (messages : List ChatMessage) : Option (List Char) :=
  match (messages.filter fun msg => msg.role = .system).map (·.content) with
  | [] => none
  | contents => some (['\n'].intercalate contents)

/-- How many messages there are, and whether the last one is made of results. -/
structure Position where
  count : ℕ
  results : Bool

/-- What a message to be converted adds. -/
def Position.step (pos : Position) (msg : ChatMessage) : Position :=
  match msg.role with
  | .system => pos
  | .user =>
    if msg.content_parts = [] ∧ msg.content = [] then pos else ⟨pos.count + 1, false⟩
  | .assistant =>
    if msg.tool_calls.isNone ∧ msg.content = [] then pos else ⟨pos.count + 1, false⟩
  | .tool => if pos.results then pos else ⟨pos.count + 1, true⟩

/-- A result: the raw id, which of all calls it answers, the number that is made up for that call
if its id is blank, and the one that is made up for the result. -/
structure Reply where
  id : String
  call : ℕ
  call_seed : ℕ
  result_seed : ℕ

/-- The calls a message makes. -/
def callsOf (msg : ChatMessage) : List ToolCall :=
  if msg.role = .assistant then msg.tool_calls.getD [] else []

/-- Each tool message answers a call of the nearest message with calls before it, in order. Of that
message the calls are given, where it went, how many calls were made before it, and which of its
calls may be answered next. -/
inductive Answers : Position → ℕ → List ToolCall → ℕ → ℕ → List ChatMessage → List Reply → Prop
  | nil {pos opened calls before next} : Answers pos opened calls before next [] []
  | other {pos opened calls before next msg messages replies} (hrole : msg.role ≠ .tool)
      (hcalls : callsOf msg = []) (h : Answers (pos.step msg) opened calls before next messages
        replies) : Answers pos opened calls before next (msg :: messages) replies
  | calls {pos opened calls before next msg messages replies} (hcalls : callsOf msg ≠ [])
      (h : Answers (pos.step msg) pos.count (callsOf msg) (before + calls.length) 0 messages
        replies) : Answers pos opened calls before next (msg :: messages) replies
  | reply {pos opened calls before next msg messages replies} (i : ℕ) {call : ToolCall}
      (hrole : msg.role = .tool) (hnext : next ≤ i) (hcall : calls[i]? = some call)
      (hid : msg.tool_call_id = some call.id)
      (h : Answers (pos.step msg) opened calls before (i + 1) messages replies) :
      Answers pos opened calls before next (msg :: messages)
        (⟨call.id, before + i, opened + i, pos.count⟩ :: replies)

/-- The calls and their results go together in what is converted. -/
structure Paired (host : RigHost Detail MediaType) (messages : List ChatMessage)
    (replies : List Reply) (converted : Converted Detail MediaType) : Prop where
  same_id : (converted.2.flatMap RigMessage.resultIds).map some =
    replies.map fun reply => (converted.2.flatMap RigMessage.callIds)[reply.call]?
  distinct : ∀ m ∈ converted.2, m.callIds.Nodup
  merged : converted.2.IsChain fun a b => ¬(a.isResults = true ∧ b.isResults = true)
  order : converted.2.flatMap RigMessage.pieces = messages.flatMap (saidBy host)
  preamble : converted.1 = preambleOf messages

/-! ### One message -/

section

variable {host : RigHost Detail MediaType}

/-- The ids of the calls of a message, behind `n` others. -/
def idsOf (host : RigHost Detail MediaType) (n : ℕ) (calls : List ToolCall) : List String :=
  calls.mapIdx fun idx tc => normalizedToolCallId host (some tc.id) (n + idx)

theorem many_eq_some {α : Type} {items : List α} (h : items ≠ []) :
    OneOrMany.many items = some ⟨items, h⟩ := dif_pos h

theorem many_nil {α : Type} : OneOrMany.many ([] : List α) = none := rfl

/-- The message that is made of one that is no result. -/
structure Emits (host : RigHost Detail MediaType) (n : ℕ) (msg : ChatMessage)
    (added : List (RigMessage Detail MediaType)) : Prop where
  length : added.length = if (msg.role = .user ∧ msg.content_parts = [] ∧ msg.content = []) ∨
    (msg.role = .assistant ∧ msg.tool_calls.isNone = true ∧ msg.content = []) ∨
    msg.role = .system then 0 else 1
  noResults : ∀ m ∈ added, m.isResults = false ∧ m.resultIds = []
  callIds : ∀ m ∈ added, m.callIds = idsOf host n (callsOf msg)
  pieces : added.flatMap RigMessage.pieces = saidBy host msg

theorem callIds_assistantContents (n : ℕ) (content : List Char) (calls : List ToolCall)
    (hne : assistantContents host n content calls ≠ []) :
    (.assistant ⟨assistantContents host n content calls, hne⟩ :
      RigMessage Detail MediaType).callIds = idsOf host n calls := by
  simp only [RigMessage.callIds, assistantContents, idsOf, List.filterMap_append,
    List.mapIdx_eq_zipIdx_map, List.filterMap_map]
  have hcalls : (calls.zipIdx.filterMap fun x : ToolCall × ℕ =>
      some (normalizedToolCallId host (some x.1.id) (n + x.2))) =
      calls.zipIdx.map fun x => normalizedToolCallId host (some x.1.id) (n + x.2) :=
    congrFun List.filterMap_eq_map' _
  split <;> exact hcalls

theorem pieces_assistantContents (n : ℕ) (content : List Char) (calls : List ToolCall)
    (hne : assistantContents host n content calls ≠ []) :
    (.assistant ⟨assistantContents host n content calls, hne⟩ :
      RigMessage Detail MediaType).pieces =
      (if content = [] then [] else [.assistantText content]) ++
        calls.map fun tc => .call tc.name tc.arguments := by
  simp only [RigMessage.pieces, assistantContents, List.map_append, List.mapIdx_eq_zipIdx_map,
    List.map_map]
  congr 1
  · split <;> rfl
  · conv_rhs => rw [← List.zipIdx_map_fst 0 calls, List.map_map]
    rfl

theorem resultIds_userContents (msg : ChatMessage) (hne : userContents host msg ≠ []) :
    (RigMessage.user ⟨userContents host msg, hne⟩).isResults = false ∧
      (RigMessage.user ⟨userContents host msg, hne⟩).resultIds = [] := by
  refine ⟨by simp [RigMessage.isResults, userContents, UserContent.isToolResult], ?_⟩
  simp only [RigMessage.resultIds, userContents, List.filterMap_cons, List.filterMap_filterMap]
  refine List.filterMap_eq_nil_iff.mpr fun part _ => ?_
  cases part <;> rfl

theorem pieces_userContents (msg : ChatMessage) (hne : userContents host msg ≠ []) :
    (RigMessage.user ⟨userContents host msg, hne⟩).pieces =
      .userText msg.content :: msg.content_parts.filterMap fun
        | .imageUrl image_url => some (.image (convertImage host image_url))
        | .text _ => none := by
  simp only [RigMessage.pieces, userContents, List.map_cons, List.map_filterMap]
  congr 1
  refine List.filterMap_congr fun part _ => ?_
  cases part <;> rfl

variable (host) in
/-- A message that is no result is put behind the others, or is skipped. -/
theorem exists_emits (state : Converted Detail MediaType) {msg : ChatMessage}
    (hrole : msg.role ≠ .tool) : ∃ added, Emits host state.2.length msg added ∧
      (convertMessage host state msg).2 = state.2 ++ added := by
  obtain ⟨preamble, history⟩ := state
  cases hmsg : msg.role with
  | tool => exact absurd hmsg hrole
  | system =>
    refine ⟨[], ⟨by simp [hmsg], nofun, nofun, by simp [saidBy, hmsg]⟩, ?_⟩
    simp only [convertMessage, hmsg, List.append_nil]
    cases preamble <;> rfl
  | user =>
    by_cases hparts : msg.content_parts = []
    · by_cases hcontent : msg.content = []
      · refine ⟨[], ⟨by simp [hmsg, hparts, hcontent], nofun, nofun,
          by simp [saidBy, hmsg, hparts, hcontent]⟩, ?_⟩
        simp [convertMessage, hmsg, hparts, hcontent]
      · refine ⟨[.userText msg.content], ⟨by simp [hmsg, hcontent], ?_, ?_, ?_⟩, ?_⟩
        · simp [RigMessage.userText, RigMessage.isResults, RigMessage.resultIds, OneOrMany.one,
            UserContent.isToolResult]
        · simp [RigMessage.userText, RigMessage.callIds, callsOf, hmsg, idsOf]
        · simp [saidBy, hmsg, hparts, hcontent, RigMessage.userText, RigMessage.pieces,
            OneOrMany.one]
        · simp [convertMessage, hmsg, hparts, hcontent]
    · have hne : userContents host msg ≠ [] := List.cons_ne_nil _ _
      -- parts go out in one user message behind the text
      refine ⟨[.user ⟨userContents host msg, hne⟩], ⟨by simp [hmsg, hparts], ?_, ?_, ?_⟩, ?_⟩
      · simpa using resultIds_userContents msg hne
      · simp [RigMessage.callIds, callsOf, hmsg, idsOf]
      · simp [saidBy, hmsg, hparts, pieces_userContents]
      · simp [convertMessage, hmsg, hparts, many_eq_some hne]
  | assistant =>
    cases hcalls : msg.tool_calls with
    | none =>
      by_cases hcontent : msg.content = []
      · refine ⟨[], ⟨by simp [hmsg, hcalls, hcontent], nofun, nofun,
          by simp [saidBy, hmsg, hcalls, hcontent]⟩, ?_⟩
        simp [convertMessage, hmsg, hcalls, hcontent]
      · refine ⟨[.assistantText msg.content], ⟨by simp [hmsg, hcontent], ?_, ?_, ?_⟩, ?_⟩
        · simp [RigMessage.assistantText, RigMessage.isResults, RigMessage.resultIds]
        · simp [RigMessage.assistantText, RigMessage.callIds, callsOf, hmsg, hcalls, idsOf,
            OneOrMany.one]
        · simp [saidBy, hmsg, hcalls, hcontent, RigMessage.assistantText, RigMessage.pieces,
            OneOrMany.one]
        · simp [convertMessage, hmsg, hcalls, hcontent]
    | some calls =>
      by_cases hne : assistantContents host history.length msg.content calls = []
      · obtain ⟨hcontent, hnone⟩ : msg.content = [] ∧ calls = [] := by
          simpa [assistantContents, List.append_eq_nil_iff] using hne
        refine ⟨[.assistantText msg.content], ⟨by simp [hmsg, hcalls], ?_, ?_, ?_⟩, ?_⟩
        · simp [RigMessage.assistantText, RigMessage.isResults, RigMessage.resultIds]
        · simp [RigMessage.assistantText, RigMessage.callIds, callsOf, hmsg, hcalls, hnone, idsOf,
            OneOrMany.one]
        · simp [saidBy, hmsg, hcalls, hcontent, hnone, RigMessage.assistantText,
            RigMessage.pieces, OneOrMany.one]
        · simp [convertMessage, hmsg, hcalls, hne, many_nil]
      · refine ⟨[.assistant ⟨_, hne⟩], ⟨by simp [hmsg, hcalls], ?_, ?_, ?_⟩, ?_⟩
        · simp [RigMessage.isResults, RigMessage.resultIds]
        · simp [callIds_assistantContents, callsOf, hmsg, hcalls]
        · rw [List.flatMap_singleton, pieces_assistantContents]
          -- a message of neither text nor calls was taken above
          have hsome : msg.content = [] → calls ≠ [] := fun hcontent hnone =>
            hne (by simp [assistantContents, hcontent, hnone])
          by_cases hcontent : msg.content = []
          · simp [saidBy, hmsg, hcalls, hcontent, hsome hcontent]
          · simp [saidBy, hmsg, hcalls, hcontent]
        · simp [convertMessage, hmsg, hcalls, many_eq_some hne]

/-- The last message is made of results. -/
def endsInResults (history : List (RigMessage Detail MediaType)) : Bool :=
  (history.getLast?.map RigMessage.isResults).getD false

/-- Where a message is put. -/
def positionOf (history : List (RigMessage Detail MediaType)) : Position :=
  ⟨history.length, endsInResults history⟩

theorem endsInResults_append (front : List (RigMessage Detail MediaType))
    (m : RigMessage Detail MediaType) : endsInResults (front ++ [m]) = m.isResults := by
  rw [endsInResults, List.getLast?_concat]
  rfl

theorem pushResult_cases (history : List (RigMessage Detail MediaType))
    (result : UserContent Detail MediaType) :
    (∃ front content, history = front ++ [.user content] ∧
      content.items.all UserContent.isToolResult = true ∧
      pushResult history result = front ++ [.user (content.push result)]) ∨
    (endsInResults history = false ∧
      pushResult history result = history ++ [.user (.one result)]) := by
  rw [pushResult]
  cases hlast : history.getLast? with
  | none => exact .inr ⟨by simp [endsInResults, hlast], rfl⟩
  | some m =>
    obtain ⟨front, rfl⟩ := List.getLast?_eq_some_iff.mp hlast
    cases m with
    | assistant content => exact .inr ⟨endsInResults_append _ _, rfl⟩
    | user content =>
      simp only
      split
      case isTrue hall => exact .inl ⟨front, content, rfl, hall, by rw [List.dropLast_concat]⟩
      case isFalse hall =>
        exact .inr ⟨(endsInResults_append _ _).trans (Bool.eq_false_iff.mpr hall), rfl⟩

/-- No two messages of results follow one another. -/
def Merged (history : List (RigMessage Detail MediaType)) : Prop :=
  history.IsChain fun a b => ¬(a.isResults = true ∧ b.isResults = true)

/-- What converting a message does to the messages so far. -/
structure Step (host : RigHost Detail MediaType) (msg : ChatMessage)
    (history history' : List (RigMessage Detail MediaType)) : Prop where
  position : positionOf history' = (positionOf history).step msg
  callIds : history'.flatMap RigMessage.callIds =
    history.flatMap RigMessage.callIds ++ idsOf host history.length (callsOf msg)
  resultIds : history'.flatMap RigMessage.resultIds = history.flatMap RigMessage.resultIds ++
    if msg.role = .tool then [normalizedToolCallId host msg.tool_call_id history.length] else []
  pieces : history'.flatMap RigMessage.pieces =
    history.flatMap RigMessage.pieces ++ saidBy host msg
  nodup : (∀ m ∈ history', m.callIds.Nodup) ↔
    (∀ m ∈ history, m.callIds.Nodup) ∧ (idsOf host history.length (callsOf msg)).Nodup
  merged : Merged history → Merged history'

theorem step_emits {msg : ChatMessage} (hrole : msg.role ≠ .tool)
    {history added : List (RigMessage Detail MediaType)}
    (h : Emits host history.length msg added) : Step host msg history (history ++ added) := by
  have hlength := h.length
  split at hlength
  case isTrue hskip =>
    obtain rfl := List.eq_nil_of_length_eq_zero hlength
    have hcalls : callsOf msg = [] := by
      obtain ⟨hmsg, -⟩ | ⟨hmsg, hnone, -⟩ | hmsg := hskip
      · simp [callsOf, hmsg]
      · simp [callsOf, hmsg, Option.isNone_iff_eq_none.mp hnone]
      · simp [callsOf, hmsg]
    have hids : idsOf host history.length (callsOf msg) = [] := by rw [hcalls]; rfl
    have hpieces : saidBy host msg = [] := by rw [← h.pieces]; rfl
    rw [List.append_nil]
    refine ⟨?_, by rw [hids, List.append_nil], by rw [if_neg hrole, List.append_nil],
      by rw [hpieces, List.append_nil], by simp [hids], id⟩
    obtain ⟨hmsg, hparts, hcontent⟩ | ⟨hmsg, hnone, hcontent⟩ | hmsg := hskip
    · simp [Position.step, hmsg, hparts, hcontent]
    · simp [Position.step, hmsg, hnone, hcontent]
    · simp [Position.step, hmsg]
  case isFalse hemit =>
    obtain ⟨m, rfl⟩ := List.length_eq_one_iff.mp hlength
    obtain ⟨hresults, hresultIds⟩ := h.noResults m List.mem_cons_self
    have hcallIds := h.callIds m List.mem_cons_self
    have hpieces := h.pieces
    rw [List.flatMap_singleton] at hpieces
    simp only [not_or, not_and] at hemit
    obtain ⟨huser, hassistant, hsystem⟩ := hemit
    refine ⟨?_, by simp [hcallIds], by simp [hresultIds, hrole], by simp [hpieces],
      by simp [or_imp, forall_and, hcallIds], fun hmerged => ?_⟩
    · rw [positionOf, endsInResults_append, hresults, List.length_append, List.length_singleton]
      cases hmsg : msg.role with
      | tool => exact absurd hmsg hrole
      | system => exact absurd hmsg hsystem
      | user =>
        have hne : ¬(msg.content_parts = [] ∧ msg.content = []) := fun hand =>
          huser hmsg hand.1 hand.2
        simp [Position.step, hmsg, positionOf, hne]
      | assistant =>
        have hne : ¬(msg.tool_calls.isNone = true ∧ msg.content = []) := fun hand =>
          hassistant hmsg hand.1 hand.2
        simp only [Position.step, hmsg, positionOf, if_neg hne]
    · refine List.isChain_append.mpr ⟨hmerged, List.isChain_singleton _, fun a _ b hb => ?_⟩
      obtain rfl : m = b := by simpa using hb
      simp [hresults]

theorem isResults_push {content : OneOrMany (UserContent Detail MediaType)}
    {result : UserContent Detail MediaType} (hcontent : content.items.all UserContent.isToolResult)
    (hresult : result.isToolResult = true) :
    (RigMessage.user (content.push result)).isResults = true := by
  simp only [RigMessage.isResults, OneOrMany.push, List.all_append, hcontent,
    List.all_cons, hresult, List.all_nil, Bool.and_true]

variable (host) in
theorem step_tool {msg : ChatMessage} (hrole : msg.role = .tool)
    (history : List (RigMessage Detail MediaType)) {id : String}
    (hid : normalizedToolCallId host msg.tool_call_id history.length = id) :
    Step host msg history (pushResult history (.toolResult id (some id) (.one msg.content))) := by
  have hids (n : ℕ) : idsOf host n (callsOf msg) = [] := by simp [callsOf, hrole, idsOf]
  have hsaid : saidBy host msg = [.result [msg.content]] := by simp [saidBy, hrole]
  obtain ⟨front, content, rfl, hall, hpush⟩ | ⟨hends, hpush⟩ :=
    pushResult_cases history (.toolResult id (some id) (.one msg.content))
  · have hboth : (RigMessage.user (content.push (.toolResult id (some id)
      (.one msg.content)))).isResults = true := isResults_push hall rfl
    have hresults : (RigMessage.user content).isResults = true := hall
    rw [hpush]
    refine ⟨?_, ?_, ?_, ?_, ?_, fun hmerged => ?_⟩
    · simp [positionOf, endsInResults_append, hboth, hresults, Position.step, hrole]
    · simp [hids, RigMessage.callIds]
    · rw [if_pos hrole, hid]
      simp [RigMessage.resultIds, OneOrMany.push]
    · simp [hsaid, RigMessage.pieces, OneOrMany.push, OneOrMany.one]
    · simp [hids, or_imp, forall_and, RigMessage.callIds]
    · obtain ⟨hfront, -, hlink⟩ := List.isChain_append.mp hmerged
      refine List.isChain_append.mpr ⟨hfront, List.isChain_singleton _, fun a ha b hb hand => ?_⟩
      exact hlink a ha _ rfl ⟨hand.1, hresults⟩
  · have hboth : (RigMessage.user (.one (.toolResult id (some id) (.one msg.content))) :
      RigMessage Detail MediaType).isResults = true := rfl
    rw [hpush]
    refine ⟨?_, ?_, ?_, ?_, ?_, fun hmerged => ?_⟩
    · simp [positionOf, endsInResults_append, hboth, hends, Position.step, hrole]
    · simp [hids, RigMessage.callIds]
    · rw [if_pos hrole, hid]
      simp [RigMessage.resultIds, OneOrMany.one]
    · simp [hsaid, RigMessage.pieces, OneOrMany.one]
    · simp [hids, or_imp, forall_and, RigMessage.callIds]
    · refine List.isChain_append.mpr ⟨hmerged, List.isChain_singleton _, fun a ha b _ hand => ?_⟩
      rw [endsInResults, Option.mem_def.mp ha] at hends
      exact absurd hand.1 (Bool.eq_false_iff.mp hends)

variable (host) in
/-- Converting a message is a step. -/
theorem convertMessage_step (state : Converted Detail MediaType) (msg : ChatMessage) :
    Step host msg state.2 (convertMessage host state msg).2 := by
  by_cases hrole : msg.role = .tool
  · have hpush := step_tool host hrole state.2 rfl
    rwa [show (convertMessage host state msg).2 = pushResult state.2
      (.toolResult (normalizedToolCallId host msg.tool_call_id state.2.length)
        (some (normalizedToolCallId host msg.tool_call_id state.2.length)) (.one msg.content)) by
      simp only [convertMessage, hrole]]
  · obtain ⟨added, hemits, heq⟩ := exists_emits host state hrole
    rw [heq]
    exact step_emits hrole hemits

/-! ### All of them -/

/-- The calls of each message, and how many messages are put in front of it. -/
def declared : Position → List ChatMessage → List (ℕ × List ToolCall)
  | _, [] => []
  | pos, msg :: messages => (pos.count, callsOf msg) :: declared (pos.step msg) messages

variable (host) in
/-- The messages that are converted, from some that were converted before. -/
def convertAll (state : Converted Detail MediaType) (messages : List ChatMessage) :
    Converted Detail MediaType := messages.foldl (convertMessage host) state

theorem pieces_convertAll (state : Converted Detail MediaType) (messages : List ChatMessage) :
    (convertAll host state messages).2.flatMap RigMessage.pieces =
      state.2.flatMap RigMessage.pieces ++ messages.flatMap (saidBy host) := by
  induction messages generalizing state with
  | nil => exact (List.append_nil _).symm
  | cons msg messages ih =>
    rw [convertAll, List.foldl_cons, ← convertAll, ih, (convertMessage_step host state msg).pieces,
      List.flatMap_cons, List.append_assoc]

theorem merged_convertAll (state : Converted Detail MediaType) (h : Merged state.2)
    (messages : List ChatMessage) : Merged (convertAll host state messages).2 := by
  induction messages generalizing state with
  | nil => exact h
  | cons msg messages ih => exact ih _ ((convertMessage_step host state msg).merged h)

variable (host) in
theorem callIds_convertAll (state : Converted Detail MediaType) (messages : List ChatMessage) :
    state.2.flatMap RigMessage.callIds <+:
      (convertAll host state messages).2.flatMap RigMessage.callIds := by
  induction messages generalizing state with
  | nil => exact List.prefix_refl _
  | cons msg messages ih =>
    refine List.IsPrefix.trans ?_ (ih (convertMessage host state msg))
    rw [(convertMessage_step host state msg).callIds]
    exact List.prefix_append _ _

variable (host) in
theorem nodup_convertAll (state : Converted Detail MediaType) (messages : List ChatMessage) :
    (∀ m ∈ (convertAll host state messages).2, m.callIds.Nodup) ↔
      (∀ m ∈ state.2, m.callIds.Nodup) ∧
        ∀ d ∈ declared (positionOf state.2) messages, (idsOf host d.1 d.2).Nodup := by
  induction messages generalizing state with
  | nil => simp [convertAll, declared]
  | cons msg messages ih =>
    have hstep := convertMessage_step host state msg
    have hrest := ih (convertMessage host state msg)
    rw [convertAll, List.foldl_cons, ← convertAll, hrest, hstep.nodup, hstep.position, declared,
      List.forall_mem_cons, and_assoc]
    rfl

variable (host) in
/-- What the answering of calls comes to, from where the calls that are answered were converted. -/
theorem Answers.convertAll {pos : Position} {opened before next : ℕ} {calls : List ToolCall}
    {messages : List ChatMessage} {replies : List Reply}
    (h : Answers pos opened calls before next messages replies)
    (state : Converted Detail MediaType) (hpos : positionOf state.2 = pos)
    (hlength : (state.2.flatMap RigMessage.callIds).length = before + calls.length)
    (hcalls : ∀ i call, calls[i]? = some call →
      (state.2.flatMap RigMessage.callIds)[before + i]? =
        some (normalizedToolCallId host (some call.id) (opened + i))) :
    (convertAll host state messages).2.flatMap RigMessage.resultIds =
        state.2.flatMap RigMessage.resultIds ++
          replies.map (fun r => normalizedToolCallId host (some r.id) r.result_seed) ∧
      ∀ r ∈ replies, ((convertAll host state messages).2.flatMap RigMessage.callIds)[r.call]? =
        some (normalizedToolCallId host (some r.id) r.call_seed) := by
  induction h generalizing state with
  | nil => exact ⟨(List.append_nil _).symm, nofun⟩
  | @other pos opened calls before next msg messages replies hrole hnone _ ih =>
    have hstep := convertMessage_step host state msg
    have hsame : (convertMessage host state msg).2.flatMap RigMessage.callIds =
        state.2.flatMap RigMessage.callIds := by
      rw [hstep.callIds, hnone]
      exact List.append_nil _
    have hrest := ih (convertMessage host state msg) (hpos ▸ hstep.position)
      (hsame ▸ hlength) (hsame ▸ hcalls)
    rwa [hstep.resultIds, if_neg hrole, List.append_nil] at hrest
  | @calls pos opened calls before next msg messages replies hsome _ ih =>
    have hstep := convertMessage_step host state msg
    have hrole : msg.role ≠ .tool := fun hrole => hsome (by simp [callsOf, hrole])
    have hcount : state.2.length = pos.count := congrArg Position.count hpos
    have hrest := ih (convertMessage host state msg) (hpos ▸ hstep.position)
      (by rw [hstep.callIds, List.length_append, hlength, idsOf, List.length_mapIdx])
      (fun i call hcall => by
        rw [hstep.callIds, ← hlength, List.getElem?_append_right (Nat.le_add_right _ _),
          Nat.add_sub_cancel_left, idsOf, List.getElem?_mapIdx, hcall, hcount]
        rfl)
    rwa [hstep.resultIds, if_neg hrole, List.append_nil] at hrest
  | @reply pos opened calls before next msg messages replies i call hrole _ hcall hid _ ih =>
    have hstep := convertMessage_step host state msg
    -- the id of a reply is drawn at the position of the conversion so far
    have hcount : state.2.length = pos.count := congrArg Position.count hpos
    have hsame : (convertMessage host state msg).2.flatMap RigMessage.callIds =
        state.2.flatMap RigMessage.callIds := by
      have hnone : callsOf msg = [] := by simp [callsOf, hrole]
      rw [hstep.callIds, hnone]
      exact List.append_nil _
    obtain ⟨hresults, hreplies⟩ := ih (convertMessage host state msg)
      (hpos ▸ hstep.position) (hsame ▸ hlength) (hsame ▸ hcalls)
    rw [hstep.resultIds, if_pos hrole, hid, hcount, List.append_assoc] at hresults
    refine ⟨hresults, List.forall_mem_cons.mpr ⟨?_, hreplies⟩⟩
    obtain ⟨more, hmore⟩ := callIds_convertAll host state (msg :: messages)
    have hfound := hcalls i call hcall
    rw [← hmore, List.getElem?_append_left (List.getElem?_eq_some_iff.mp hfound).1]
    exact hfound

end

/-! ### Made-up ids -/

theorem base62_injective {a b : ℕ} (ha : a < 62) (hb : b < 62) (h : base62 a = base62 b) :
    a = b := by
  have hall : ∀ a < 62, ∀ b < 62, base62 a = base62 b → a = b := by decide
  exact hall a ha b hb h

/-- Numbers with the same last digits are the same up to what the digits do not show. -/
theorem mod_pow_eq_of_digits {m n : ℕ} (b : ℕ) {k : ℕ}
    (h : ∀ i < k, m / b ^ i % b = n / b ^ i % b) : m % b ^ k = n % b ^ k := by
  induction k with
  | zero => simp [Nat.mod_one]
  | succ k ih =>
    rw [Nat.mod_pow_succ, Nat.mod_pow_succ, ih fun i hi => h i (Nat.lt_succ_of_lt hi),
      h k (Nat.lt_succ_self k)]

/-- The number that two seeds are mixed to. -/
def mix (seed_a seed_b : ℕ) : ℕ := (seed_a * 6364136223846793005 + seed_b) % 2 ^ 64

/-- Made-up ids are the same if the numbers are, up to nine digits. -/
theorem generateToolCallId_eq_iff {a b c d : ℕ} :
    generateToolCallId a b = generateToolCallId c d ↔ mix a b % 62 ^ 9 = mix c d % 62 ^ 9 := by
  have hlists : generateToolCallId a b = generateToolCallId c d ↔
      ∀ i < 9, base62 (mix a b / 62 ^ i % 62) = base62 (mix c d / 62 ^ i % 62) := by
    rw [generateToolCallId, generateToolCallId, String.ofList_inj, List.map_inj_left]
    simp only [List.mem_reverse, List.mem_range, mix]
  rw [hlists]
  constructor
  · intro h
    refine mod_pow_eq_of_digits 62 fun i hi => ?_
    exact base62_injective (Nat.mod_lt _ (by omega)) (Nat.mod_lt _ (by omega)) (h i hi)
  · intro h i hi
    have hdigit (n : ℕ) : n / 62 ^ i % 62 = n % 62 ^ 9 / 62 ^ i % 62 := by
      have hpow : 62 ^ 9 = 62 ^ i * 62 ^ (9 - i) := by rw [← pow_add, Nat.add_sub_cancel' hi.le]
      have hdvd : 62 ∣ 62 ^ (9 - i) := dvd_pow_self 62 (Nat.sub_ne_zero_of_lt hi)
      rw [hpow, Nat.mod_mul_right_div_self, Nat.mod_mod_of_dvd _ hdvd]
    rw [hdigit, h, ← hdigit]

/-- Where an id comes from: it is passed through, or made up from two numbers. -/
inductive IdSource where
  | raw (id : String)
  | seeds (a b : ℕ)

/-- The id. -/
def IdSource.id : IdSource → String
  | raw id => id
  | seeds a b => generateToolCallId a b

/-- Where the id of a call comes from. -/
def idSource (host : RigHost Detail MediaType) (raw : String) (seed : ℕ) : IdSource :=
  let id := trim raw.toList
  if id = [] then .seeds seed 0
  else if byteLength id = 9 ∧ id.all Char.isAlphanum then .raw (String.ofList id)
  else .seeds (host.sha256_prefix id / 2 ^ 32) (host.sha256_prefix id % 2 ^ 32)

theorem normalizedToolCallId_eq (host : RigHost Detail MediaType) (raw : String) (seed : ℕ) :
    normalizedToolCallId host (some raw) seed = (idSource host raw seed).id := by
  rw [normalizedToolCallId, idSource]
  by_cases hblank : trim raw.toList = []
  · simp [hblank, IdSource.id, Option.filter]
  · simp only [Option.map_some, Option.filter_some, hblank, ne_eq, not_false_eq_true, decide_true,
      if_true, if_false]
    split <;> rfl

/-- Two sources of one id. -/
def IdSource.Clash : IdSource → IdSource → Prop
  | raw s, raw t => s = t
  | seeds a b, seeds c d => mix a b % 62 ^ 9 = mix c d % 62 ^ 9
  | raw s, seeds a b => s = generateToolCallId a b
  | seeds a b, raw s => generateToolCallId a b = s

theorem IdSource.clash_iff (x y : IdSource) : x.Clash y ↔ x.id = y.id := by
  cases x <;> cases y <;> first | exact Iff.rfl | exact generateToolCallId_eq_iff.symm

/-! ### When the pairs stay together -/

/-- A history whose ids stay apart and together: a blank id is answered only where the number that
is made up for the result comes to the one that was made up for the call, and no two calls of a
message come to one id. -/
structure Pairable (host : RigHost Detail MediaType) (messages : List ChatMessage)
    (replies : List Reply) : Prop where
  blank : ∀ r ∈ replies, trim r.id.toList = [] →
    mix r.result_seed 0 % 62 ^ 9 = mix r.call_seed 0 % 62 ^ 9
  distinct : ∀ d ∈ declared ⟨0, false⟩ messages, ∀ i j a b, i < j → d.2[i]? = some a →
    d.2[j]? = some b → ¬(idSource host a.id (d.1 + i)).Clash (idSource host b.id (d.1 + j))

variable {host : RigHost Detail MediaType}

theorem nodup_idsOf_iff (n : ℕ) (calls : List ToolCall) :
    (idsOf host n calls).Nodup ↔ ∀ i j a b, i < j → calls[i]? = some a → calls[j]? = some b →
      ¬(idSource host a.id (n + i)).Clash (idSource host b.id (n + j)) := by
  rw [List.nodup_iff_getElem?_ne_getElem?]
  simp only [idsOf, List.length_mapIdx, List.getElem?_mapIdx, IdSource.clash_iff,
    ← normalizedToolCallId_eq]
  constructor
  · intro h i j a b hij ha hb heq
    refine h i j hij (List.getElem?_eq_some_iff.mp hb).1 ?_
    rw [ha, hb, Option.map_some, Option.map_some, heq]
  · intro h i j hij hj heq
    have ha := List.getElem?_eq_getElem (hij.trans hj)
    have hb := List.getElem?_eq_getElem hj
    rw [ha, hb, Option.map_some, Option.map_some] at heq
    exact h i j _ _ hij ha hb (Option.some.inj heq)

/-- The id of a result and that of its call are read off the raw id, unless it is blank. -/
theorem same_id_iff (raw : String) (seed seed' : ℕ) :
    normalizedToolCallId host (some raw) seed = normalizedToolCallId host (some raw) seed' ↔
      (trim raw.toList = [] → mix seed 0 % 62 ^ 9 = mix seed' 0 % 62 ^ 9) := by
  rw [normalizedToolCallId_eq, normalizedToolCallId_eq, ← IdSource.clash_iff]
  by_cases hblank : trim raw.toList = []
  · simp [idSource, hblank, IdSource.Clash]
  · simp only [idSource, hblank, if_false, false_implies, iff_true]
    split <;> rfl

/-- What the system messages make of a preamble. -/
theorem preamble_convertMessage (state : Converted Detail MediaType) (msg : ChatMessage) :
    (convertMessage host state msg).1 =
      if msg.role = .system then some (['\n'].intercalate (state.1.toList ++ [msg.content]))
      else state.1 := by
  obtain ⟨preamble, history⟩ := state
  cases hmsg : msg.role with
  | system => cases preamble <;> simp [convertMessage, hmsg]
  | user =>
    rw [if_neg (by simp)]
    simp only [convertMessage, hmsg]
    split
    · split <;> rfl
    · split <;> rfl
  | assistant =>
    rw [if_neg (by simp)]
    simp only [convertMessage, hmsg]
    split
    · split <;> rfl
    · split <;> rfl
  | tool => simp [convertMessage, hmsg]

theorem preamble_convertAll (state : Converted Detail MediaType) (messages : List ChatMessage) :
    (convertAll host state messages).1 =
      match (messages.filter fun msg => msg.role = .system).map (·.content) with
      | [] => state.1
      | contents => some (['\n'].intercalate (state.1.toList ++ contents)) := by
  induction messages generalizing state with
  | nil => rfl
  | cons msg messages ih =>
    rw [convertAll, List.foldl_cons, ← convertAll, ih, preamble_convertMessage]
    by_cases hmsg : msg.role = .system
    · rw [if_pos hmsg, List.filter_cons_of_pos (by simp [hmsg]), List.map_cons]
      cases hrest : (messages.filter fun msg => msg.role = .system).map (·.content) with
      | nil => rfl
      | cons content contents =>
        cases state.1 with
        | none => simp
        | some p => simp [List.intercalate_cons_cons]
    · rw [if_neg hmsg, List.filter_cons_of_neg (by simp [hmsg])]

/-- The calls and results of a history in which calls are answered stay paired exactly when it is
pairable; that results are merged and that the order is kept holds of every history. -/
theorem pairing_iff (host : RigHost Detail MediaType) {messages : List ChatMessage}
    {replies : List Reply} (h : Answers ⟨0, false⟩ 0 [] 0 0 messages replies) :
    Paired host messages replies (convertMessages host messages) ↔
      Pairable host messages replies := by
  obtain ⟨hresults, hcalls⟩ := h.convertAll host (none, []) rfl rfl nofun
  have hnodup := nodup_convertAll host (none, []) messages
  have hsame : ((convertMessages host messages).2.flatMap RigMessage.resultIds).map some =
      (replies.map fun reply =>
        ((convertMessages host messages).2.flatMap RigMessage.callIds)[reply.call]?) ↔
      ∀ r ∈ replies, trim r.id.toList = [] →
        mix r.result_seed 0 % 62 ^ 9 = mix r.call_seed 0 % 62 ^ 9 := by
    have hout : (convertMessages host messages).2.flatMap RigMessage.resultIds =
      replies.map fun r => normalizedToolCallId host (some r.id) r.result_seed := hresults
    rw [hout, List.map_map, List.map_inj_left]
    refine forall₂_congr fun r hr => ?_
    have hcall : ((convertMessages host messages).2.flatMap RigMessage.callIds)[r.call]? =
      some (normalizedToolCallId host (some r.id) r.call_seed) := hcalls r hr
    rw [hcall, Function.comp_apply, Option.some.injEq, same_id_iff]
  constructor
  · intro hpaired
    refine ⟨hsame.mp hpaired.same_id, fun d hd => (nodup_idsOf_iff d.1 d.2).mp ?_⟩
    exact (hnodup.mp hpaired.distinct).2 d hd
  · intro hpairable
    refine ⟨hsame.mpr hpairable.blank, hnodup.mpr ⟨nofun, fun d hd => ?_⟩,
      merged_convertAll (none, []) List.isChain_nil messages,
      pieces_convertAll (none, []) messages, ?_⟩
    · exact (nodup_idsOf_iff d.1 d.2).mpr (hpairable.distinct d hd)
    · refine (preamble_convertAll (none, []) messages).trans ?_
      rw [preambleOf]
      split <;> rfl

/-- A question, a call and its result. -/
def oneCall (id : String) : List ChatMessage :=
  [.user ['q'], .assistantWithToolCalls none [⟨id, "echo", .null, none⟩], .toolResult id "echo" []]

theorem answers_oneCall (id : String) :
    Answers ⟨0, false⟩ 0 [] 0 0 (oneCall id) [⟨id, 0, 1, 2⟩] := by
  refine .other nofun rfl (.calls (List.cons_ne_nil _ _) ?_)
  exact @Answers.reply ⟨2, false⟩ 1 [⟨id, "echo", .null, none⟩] 0 0 (.toolResult id "echo" []) [] []
    0 ⟨id, "echo", .null, none⟩ rfl le_rfl rfl rfl .nil

/-- A host that hashes nothing. -/
def plainHost : RigHost Unit Unit := ⟨fun _ => 0, fun _ => (), fun _ => none⟩

/-- A question, two calls at once and their results. -/
def bothCalls : List ToolCall :=
  [⟨"abcdefghi", "echo", .null, none⟩, ⟨"bcdefghij", "time", .null, none⟩]

def bothAnswered : List ChatMessage :=
  [.user ['q'], .assistantWithToolCalls none bothCalls, .toolResult "abcdefghi" "echo" [],
    .toolResult "bcdefghij" "time" []]

def bothReplies : List Reply := [⟨"abcdefghi", 0, 1, 2⟩, ⟨"bcdefghij", 1, 2, 3⟩]

theorem answers_both : Answers ⟨0, false⟩ 0 [] 0 0 bothAnswered bothReplies := by
  refine .other nofun rfl (.calls (List.cons_ne_nil _ _) ?_)
  refine @Answers.reply ⟨2, false⟩ 1 bothCalls 0 0 _ _ _ 0 ⟨"abcdefghi", "echo", .null, none⟩ rfl
    le_rfl rfl rfl ?_
  exact @Answers.reply ⟨3, true⟩ 1 bothCalls 0 1 _ [] [] 1 ⟨"bcdefghij", "time", .null, none⟩ rfl
    le_rfl rfl rfl .nil

/-- The ids are read off the raw ones, which have nine letters. -/
theorem nine_letters_paired :
    Paired plainHost bothAnswered bothReplies (convertMessages plainHost bothAnswered) := by
  refine (pairing_iff plainHost answers_both).mpr ⟨?_, ?_⟩
  · intro r hr hblank
    obtain rfl | rfl : r = _ ∨ r = _ := by simpa [bothReplies] using hr
    all_goals exact absurd hblank (by decide)
  · intro d hd i j a b hij ha hb
    obtain ⟨hj, -⟩ := List.getElem?_eq_some_iff.mp hb
    simp only [bothAnswered, declared, List.mem_cons, List.not_mem_nil, or_false] at hd
    obtain rfl | rfl | rfl | rfl := hd
    case inr.inl =>
      obtain rfl : j = 1 := by
        have : j < 2 := hj
        omega
      obtain rfl : i = 0 := by omega
      obtain rfl := Option.some.inj ha
      obtain rfl := Option.some.inj hb
      rw [IdSource.clash_iff]
      decide
    all_goals exact absurd hj (Nat.not_lt_zero _)

/-- A blank id is made up from one message for the call, and from two for its result. -/
theorem blank_id_unpaired :
    Answers ⟨0, false⟩ 0 [] 0 0 (oneCall "") [⟨"", 0, 1, 2⟩] ∧
      ¬Paired plainHost (oneCall "") [⟨"", 0, 1, 2⟩] (convertMessages plainHost (oneCall "")) := by
  refine ⟨answers_oneCall "", fun hpaired => ?_⟩
  have hsame : generateToolCallId 2 0 = generateToolCallId 1 0 :=
    Option.some.inj (List.head_eq_of_cons_eq hpaired.same_id)
  exact absurd (generateToolCallId_eq_iff.mp hsame) (by decide)

end T3Claw.Llm.Rig
