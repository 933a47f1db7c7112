import T3Claw.Data.Text
import T3Claw.Llm.Messages
import T3Claw.Types.SerdeJson

/-!
# A thread and its rows

The rows that `agent/thread_ops.rs` writes for a turn (the user's text, its tool calls as JSON,
the response), the messages it makes of rows (`rebuild_chat_messages_from_db`), and
`Thread::restore_from_messages` of `agent/session.rs`, which groups messages into turns again by
looking one message ahead. `history_survives` says that turns that ended with a response come
back in number and order, each with its texts, its tools and a result for each of them.

Identifiers, times and the images of a turn are left out.
-/

namespace T3Claw.Agent

open T3Claw.Llm (ContentPart ChatMessage Role ToolCall)

/-! ### Turns -/

/-- State of a turn. -/
inductive TurnState where
  | processing
  | completed
  | failed
  | interrupted
  deriving DecidableEq

/-- Outcome of a completed turn. -/
inductive TurnOutcome where
  | completed (response : List Char)
  | completedSilently
  | failed (error : List Char)
  | interrupted

/-- Record of a tool call made during a turn. -/
structure TurnToolCall where
  name : String
  parameters : Value
  result : Option Value
  error : Option (List Char)
  rationale : Option String
  tool_call_id : Option String

/-- A single turn in a thread. -/
structure Turn where
  turn_number : ℕ
  user_input : List Char
  response : Option (List Char)
  tool_calls : List TurnToolCall
  state : TurnState
  error : Option (List Char)
  narrative : Option (List Char)
  image_content_parts : List ContentPart

namespace Turn

/-- Create a new turn. -/
def new (turn_number : ℕ) (user_input : List Char) : Turn where
  turn_number
  user_input
  response := none
  tool_calls := []
  state := .processing
  error := none
  narrative := none
  image_content_parts := []

/-- Conclude this turn with the given outcome. -/
def conclude (turn : Turn) (outcome : TurnOutcome) : Turn :=
  let turn := match outcome with
    | .completed response => { turn with response := some response, state := .completed }
    | .completedSilently => { turn with state := .completed }
    | .failed error => { turn with error := some error, state := .failed }
    | .interrupted => { turn with state := .interrupted }
  { turn with image_content_parts := [] }

/-- Record a tool call with reasoning context. -/
def recordToolCallWithReasoning (turn : Turn) (name : String) (params : Value)
    (rationale tool_call_id : Option String) : Turn :=
  { turn with
    tool_calls := turn.tool_calls ++ [⟨name, params, none, none, rationale, tool_call_id⟩] }

/-- The call at an index, if there is one, has a result. -/
def setResult (turn : Turn) (idx : ℕ) (content : List Char) : Turn :=
  { turn with
    tool_calls := turn.tool_calls.modify idx fun call =>
      { call with result := some (.string (String.ofList content)) } }

end Turn

/-- `ThreadState`. -/
inductive ThreadState where
  | idle
  | processing
  | awaitingApproval
  | completed
  | interrupted
  deriving DecidableEq

/-- A conversation thread, its state and turns. -/
structure Thread where
  state : ThreadState
  turns : List Turn

/-! ### Previews and generated images -/

/-- `truncate_preview`. -/
def truncatePreview (s : List Char) (max_bytes : ℕ) : List Char :=
  if Text.byteLength s ≤ max_bytes then s
  else
    let result := Text.floorCharBoundary max_bytes s ++ "...".toList
    -- a cut through the closing tag closes it again
    if "<tool_output".toList.isPrefixOf s ∧ ¬"</tool_output>".toList.isSuffixOf result then
      result ++ "\n</tool_output>".toList
    else result

def MAX_RECORDED_IMAGE_SENTINEL_BYTES : ℕ := 512 * 1024

def MAX_EMBEDDED_JSON_STRING_LAYERS : ℕ := 3

/-- `recorded_image_sentinel_cap_label`. -/
def recordedImageSentinelCapLabel : String :=
  if MAX_RECORDED_IMAGE_SENTINEL_BYTES % (1024 * 1024) = 0 then
    toString (MAX_RECORDED_IMAGE_SENTINEL_BYTES / (1024 * 1024)) ++ " MiB"
  else if MAX_RECORDED_IMAGE_SENTINEL_BYTES % 1024 = 0 then
    toString (MAX_RECORDED_IMAGE_SENTINEL_BYTES / 1024) ++ " KiB"
  else toString MAX_RECORDED_IMAGE_SENTINEL_BYTES ++ " bytes"

/-- The loop of `normalize_embedded_json`, with that many rounds left. -/
def unwrapStrings (serde : SerdeJson) : ℕ → Value → Option Value
  | rounds + 1, .string s => (serde.from_str s).bind (unwrapStrings serde rounds)
  | _, current => some current

/-- `normalize_embedded_json`. -/
def normalizeEmbeddedJson (serde : SerdeJson) : Value → Option Value
  | .string s =>
    (serde.from_str s).bind (unwrapStrings serde (MAX_EMBEDDED_JSON_STRING_LAYERS - 1))
  | value => some value

/-- `GeneratedImageSentinel`. -/
structure GeneratedImageSentinel where
  value : Value

namespace GeneratedImageSentinel

def fromValue (serde : SerdeJson) (value : Value) : Option GeneratedImageSentinel :=
  match normalizeEmbeddedJson serde value with
  | some value =>
    if (value.get? "type").bind Value.asStr? = some "image_generated" then some ⟨value⟩ else none
  | none => none

def mediaType (sentinel : GeneratedImageSentinel) : Option String :=
  ((sentinel.value.get? "media_type").or (sentinel.value.get? "mime_type")).bind Value.asStr?

def path (sentinel : GeneratedImageSentinel) : Option String :=
  (sentinel.value.get? "path").bind Value.asStr?

def summaryForContext (sentinel : GeneratedImageSentinel) : String :=
  let media_type := sentinel.mediaType.getD "image"
  match sentinel.path with
  | some path =>
    if path.isEmpty then "Generated image (" ++ media_type ++ ")"
    else "Generated image (" ++ media_type ++ ") at " ++ path
  | none => "Generated image (" ++ media_type ++ ")"

def compactValueWithoutDataUrl (sentinel : GeneratedImageSentinel) : Value :=
  .ofPairs <|
    [("type", .string "image_generated")] ++
    (sentinel.mediaType.map fun media_type => ("media_type", .string media_type)).toList ++
    ((sentinel.path.filter fun path => !path.isEmpty).map fun path =>
      ("path", .string path)).toList ++
    [("data_omitted", .bool true),
      ("omitted_reason",
        .string ("exceeded the " ++ recordedImageSentinelCapLabel ++ " cap"))]

def recordContentForPersistence (serde : SerdeJson) (sentinel : GeneratedImageSentinel) :
    String :=
  let normalized := serde.to_string sentinel.value
  if Text.byteLength normalized.toList ≤ MAX_RECORDED_IMAGE_SENTINEL_BYTES then normalized
  else serde.to_string sentinel.compactValueWithoutDataUrl

end GeneratedImageSentinel

/-! ### Rows -/

/-- A row of a conversation. -/
structure ConversationMessage where
  role : String
  content : List Char

section

variable (serde : SerdeJson)

/-- A string result as it is, another as JSON. -/
def resultText : Value → List Char
  | .string s => s.toList
  | other => (serde.to_string other).toList

/-- `tool_result_preview_for_persistence`. -/
def toolResultPreviewForPersistence (result : Value) : List Char :=
  if (GeneratedImageSentinel.fromValue serde result).isSome then "Generated image".toList
  else truncatePreview (resultText serde result) 500

/-- `tool_result_content_for_persistence`. -/
def toolResultContentForPersistence (result : Value) : List Char :=
  match GeneratedImageSentinel.fromValue serde result with
  | some sentinel => (sentinel.recordContentForPersistence serde).toList
  | none => truncatePreview (resultText serde result) 1000

/-- `tool_result_content_for_rebuild`. -/
def toolResultContentForRebuild (result : String) : String :=
  match GeneratedImageSentinel.fromValue serde (.string result) with
  | some sentinel => sentinel.summaryForContext
  | none => result

/-- A cut text as a field. -/
def textField (key : String) (text : List Char) : String × Value :=
  (key, .string (String.ofList text))

/-- The fields of a call, in the order in which they are set. -/
def callFields (turn_number i : ℕ) (tc : TurnToolCall) : List (String × Value) :=
  [("name", .string tc.name),
    ("call_id", .string ("turn" ++ toString turn_number ++ "_" ++ toString i))] ++
  (tc.result.map fun result =>
    [textField "result_preview" (toolResultPreviewForPersistence serde result),
      textField "result" (toolResultContentForPersistence serde result)]).getD [] ++
  (tc.error.map fun error => textField "error" (truncatePreview error 200)).toList ++
  (tc.rationale.map fun rationale =>
    textField "rationale" (truncatePreview rationale.toList 500)).toList ++
  (tc.tool_call_id.map fun tool_call_id =>
    textField "tool_call_id" (truncatePreview tool_call_id.toList 128)).toList

/-- `summaries`. -/
def summaries (turn_number : ℕ) (tool_calls : List TurnToolCall) : List Value :=
  tool_calls.mapIdx fun i tc => .ofPairs (callFields serde turn_number i tc)

/-- `wrapper`. -/
def toolCallsWrapper (turn_number : ℕ) (tool_calls : List TurnToolCall)
    (narrative : Option (List Char)) : Value :=
  .ofPairs <|
    (narrative.map fun n => textField "narrative" (truncatePreview n 1000)).toList ++
    [("calls", .ofList (summaries serde turn_number tool_calls))]

/-- `persist_user_message`, the row. -/
def persistUserMessage (user_input : List Char) : ConversationMessage := ⟨"user", user_input⟩

/-- `persist_tool_calls`, the row, which is not written when there are no calls. -/
def persistToolCalls (turn_number : ℕ) (tool_calls : List TurnToolCall)
    (narrative : Option (List Char)) : List ConversationMessage :=
  if tool_calls.isEmpty then []
  else
    [⟨"tool_calls",
      (serde.to_string (toolCallsWrapper serde turn_number tool_calls narrative)).toList⟩]

/-- `persist_assistant_response`, the row. -/
def persistAssistantResponse (response : List Char) : ConversationMessage :=
  ⟨"assistant", response⟩

/-- The rows written in the course of a turn. -/
def Turn.rows (turn : Turn) : List ConversationMessage :=
  persistUserMessage turn.user_input ::
    persistToolCalls serde turn.turn_number turn.tool_calls turn.narrative ++
    (turn.response.map persistAssistantResponse).toList

/-! ### Messages of rows -/

/-- The calls in the content of a row, of either format. -/
def rowCalls (content : List Char) : List Value :=
  match serde.from_str (String.ofList content) with
  | some (.array _ item) => List.ofFn item
  | some (.object n key ascending value) =>
    (((Value.object n key ascending value).get? "calls").bind Value.asArray?).getD []
  | _ => []

/-- A field that is a string. -/
def strField (c : Value) (field : String) : Option String := (c.get? field).bind Value.asStr?

/-- A call of a row, as the assistant declares it. -/
def rebuildToolCall (c : Value) : ToolCall where
  id := (strField c "call_id").getD "call_0"
  name := (strField c "name").getD "unknown"
  arguments := (c.get? "parameters").getD (.ofPairs [])
  reasoning := strField c "rationale"

/-- The content of the result of a call of a row. -/
def rebuildContent (c : Value) : String :=
  match strField c "error" with
  | some err => err
  | none =>
    match strField c "result" with
    | some res => toolResultContentForRebuild serde res
    | none => (strField c "result_preview").getD "OK"

/-- The result of a call of a row. -/
def rebuildToolResult (c : Value) : ChatMessage :=
  .toolResult ((strField c "call_id").getD "call_0") ((strField c "name").getD "unknown")
    (rebuildContent serde c).toList

/-- The messages of a row of calls; of a legacy row there are none. -/
def rebuildToolCalls (calls : List Value) : List ChatMessage :=
  match calls.head? with
  | none => []
  | some first =>
    if (strField first "call_id").isSome then
      .assistantWithToolCalls none (calls.map rebuildToolCall) ::
        calls.map (rebuildToolResult serde)
    else []

/-- `rebuild_chat_messages_from_db`, one row. -/
def rebuildRow (msg : ConversationMessage) : List ChatMessage :=
  match msg.role with
  | "user" => [.user msg.content]
  | "assistant" => [.assistant msg.content]
  | "tool_calls" => rebuildToolCalls serde (rowCalls serde msg.content)
  | _ => []

/-- `rebuild_chat_messages_from_db`. -/
def rebuildChatMessagesFromDb (db_messages : List ConversationMessage) : List ChatMessage :=
  db_messages.flatMap (rebuildRow serde)

end

/-! ### Turns of messages -/

/-- The results that follow a declaration, from the call at `idx` on. -/
def Turn.recordResults (turn : Turn) (idx : ℕ) : List ChatMessage → Turn
  | [] => turn
  | tool_msg :: rest => (turn.setResult idx tool_msg.content).recordResults (idx + 1) rest

/-- A message that declares calls, with the results behind it. -/
def Turn.recordRound (turn : Turn) (tool_calls : List ToolCall) (results : List ChatMessage) :
    Turn :=
  let declared := tool_calls.foldl (fun (turn : Turn) tc =>
    turn.recordToolCallWithReasoning tc.name tc.arguments tc.reasoning (some tc.id)) turn
  declared.recordResults turn.tool_calls.length results

/-- The rounds of tool calls that follow, and what is left of the messages. -/
def takeRounds (turn : Turn) : List ChatMessage → Turn × List ChatMessage
  | [] => (turn, [])
  | next :: rest =>
    match next.role, next.tool_calls with
    | .assistant, some tool_calls =>
      takeRounds (turn.recordRound tool_calls (rest.takeWhile (·.role = .tool)))
        (rest.dropWhile (·.role = .tool))
    | _, _ => (turn, next :: rest)
termination_by messages => messages.length
decreasing_by
  exact Nat.lt_succ_of_le (List.dropWhile_sublist _).length_le

/-- The response that follows, if it does. -/
def takeResponse (turn : Turn) : List ChatMessage → Turn × List ChatMessage
  | [] => (turn, [])
  | next :: rest =>
    if next.role = .assistant ∧ next.tool_calls.isNone then
      (turn.conclude (.completed next.content), rest)
    else (turn, next :: rest)

theorem length_takeRounds (turn : Turn) (messages : List ChatMessage) :
    (takeRounds turn messages).2.length ≤ messages.length := by
  induction turn, messages using takeRounds.induct with
  | case1 turn => rw [takeRounds]
  | case2 turn next rest tool_calls hcalls hrole ih =>
    rw [takeRounds, hcalls, hrole]
    exact (ih.trans (List.dropWhile_sublist _).length_le).trans (Nat.le_succ _)
  | case3 turn next rest hother =>
    rw [takeRounds]
    split
    · rename_i tool_calls hrole hcalls
      exact absurd hcalls (hother tool_calls hrole)
    · exact le_rfl

theorem length_takeResponse (turn : Turn) (messages : List ChatMessage) :
    (takeResponse turn messages).2.length ≤ messages.length := by
  cases messages with
  | nil => exact le_rfl
  | cons next rest =>
    rw [takeResponse]
    split_ifs
    · exact Nat.le_succ _
    · exact le_rfl

/-- The loop of `restore_from_messages`; messages that no turn holds are skipped. -/
def restoreTurns (turn_number : ℕ) : List ChatMessage → List Turn
  | [] => []
  | msg :: rest =>
    if msg.role = .user then
      let rounds := takeRounds (.new turn_number msg.content) rest
      let response := takeResponse rounds.1 rounds.2
      response.1 :: restoreTurns (turn_number + 1) response.2
    else restoreTurns turn_number rest
termination_by messages => messages.length
decreasing_by
  · exact Nat.lt_succ_of_le ((length_takeResponse _ _).trans (length_takeRounds _ _))
  · exact Nat.lt_succ_self _

/-- `Thread::restore_from_messages`. -/
def Thread.restoreFromMessages (_ : Thread) (messages : List ChatMessage) : Thread where
  state := .idle
  turns := restoreTurns 0 messages

/-! ### What a round records -/

/-- A call as it is when the assistant has declared it. -/
def declaredCall (tc : ToolCall) : TurnToolCall :=
  ⟨tc.name, tc.arguments, none, none, tc.reasoning, some tc.id⟩

/-- A call with the content of its result. -/
def TurnToolCall.withResult (call : TurnToolCall) (content : List Char) : TurnToolCall :=
  { call with result := some (.string (String.ofList content)) }

theorem foldl_recordToolCall (turn : Turn) (tool_calls : List ToolCall) :
    tool_calls.foldl (fun (turn : Turn) tc =>
        turn.recordToolCallWithReasoning tc.name tc.arguments tc.reasoning (some tc.id)) turn =
      { turn with tool_calls := turn.tool_calls ++ tool_calls.map declaredCall } := by
  induction tool_calls generalizing turn with
  | nil => simp
  | cons tc rest ih =>
    rw [List.foldl_cons, ih]
    simp [Turn.recordToolCallWithReasoning, declaredCall]

/-- The call behind `front` is modified. -/
theorem modify_length_append {α : Type} (front : List α) (a : α) (rest : List α) (f : α → α) :
    (front ++ a :: rest).modify front.length f = front ++ f a :: rest := by
  induction front with
  | nil => exact List.modify_zero_cons f a rest
  | cons first front ih =>
    rw [List.cons_append, List.length_cons, List.modify_succ_cons, ih, List.cons_append]

/-- As many results as there are calls behind `front`: each call has its own. -/
theorem recordResults_eq (turn : Turn) (front calls : List TurnToolCall)
    (results : List ChatMessage) (hcalls : turn.tool_calls = front ++ calls)
    (hlength : results.length = calls.length) :
    turn.recordResults front.length results =
      { turn with
        tool_calls := front ++
          List.zipWith (fun call result => call.withResult result.content) calls results } := by
  induction results generalizing turn front calls with
  | nil =>
    obtain rfl : calls = [] := List.eq_nil_of_length_eq_zero hlength.symm
    simp [Turn.recordResults, ← hcalls]
  | cons result results ih =>
    obtain _ | ⟨call, calls⟩ := calls
    · cases hlength
    have hset : (turn.setResult front.length result.content).tool_calls =
        (front ++ [call.withResult result.content]) ++ calls := by
      rw [Turn.setResult, hcalls, modify_length_append, List.append_assoc]
      rfl
    have hrest := ih _ (front ++ [call.withResult result.content]) calls hset
      (Nat.succ.inj hlength)
    rw [List.length_append, List.length_singleton] at hrest
    rw [Turn.recordResults, hrest]
    simp [Turn.setResult]

section

variable (serde : SerdeJson)

/-- A call of a row, as it stands in the turn again. -/
def restoredCall (c : Value) : TurnToolCall :=
  (declaredCall (rebuildToolCall c)).withResult (rebuildContent serde c).toList

/-- The round of a row, recorded in a turn without calls. -/
theorem recordRound_rebuild (turn : Turn) (calls : List Value) (h : turn.tool_calls = []) :
    turn.recordRound (calls.map rebuildToolCall) (calls.map (rebuildToolResult serde)) =
      { turn with tool_calls := calls.map (restoredCall serde) } := by
  have hresults := recordResults_eq
    { turn with tool_calls := (calls.map rebuildToolCall).map declaredCall } []
    ((calls.map rebuildToolCall).map declaredCall) (calls.map (rebuildToolResult serde)) rfl
    (by simp)
  rw [Turn.recordRound, foldl_recordToolCall, h, List.nil_append, List.length_nil]
  rw [List.length_nil] at hresults
  rw [hresults, List.nil_append, List.map_map, List.zipWith_map, List.zipWith_self]
  rfl

/-- A round is taken as a whole: behind it stands a message that is no result and declares no
calls, or nothing. -/
theorem takeRounds_rebuildToolCalls (turn : Turn) (calls : List Value) (h : turn.tool_calls = [])
    (hcall_id : ∀ c ∈ calls, (strField c "call_id").isSome) (response : List Char)
    (rest : List ChatMessage) :
    takeRounds turn (rebuildToolCalls serde calls ++ .assistant response :: rest) =
      ({ turn with tool_calls := calls.map (restoredCall serde) },
        .assistant response :: rest) := by
  have hstop : ∀ turn : Turn, takeRounds turn (.assistant response :: rest) =
      (turn, .assistant response :: rest) := by
    intro turn
    rw [takeRounds]
    rfl
  cases calls with
  | nil =>
    rw [rebuildToolCalls, List.head?_nil, List.nil_append, hstop, List.map_nil, ← h]
  | cons c calls =>
    have htool : ∀ msg ∈ (c :: calls).map (rebuildToolResult serde),
        decide (msg.role = .tool) = true := by
      intro msg hmsg
      obtain ⟨c', -, rfl⟩ := List.mem_map.mp hmsg
      rfl
    have htake : (ChatMessage.assistant response :: rest).takeWhile (·.role = .tool) = [] := rfl
    have hdrop : (ChatMessage.assistant response :: rest).dropWhile (·.role = .tool) =
        .assistant response :: rest := rfl
    rw [rebuildToolCalls, List.head?_cons]
    dsimp only
    rw [if_pos (hcall_id c List.mem_cons_self), List.cons_append, takeRounds]
    simp only [ChatMessage.assistantWithToolCalls, List.isEmpty_cons, List.map_cons, reduceCtorEq,
      if_false]
    rw [← List.map_cons, ← List.map_cons, List.takeWhile_append_of_pos htool,
      List.dropWhile_append_of_pos htool, htake, hdrop, List.append_nil,
      recordRound_rebuild serde _ _ h, hstop]
    rfl

/-! ### Reading the rows back -/

/-- A later field of another key is not what is read. -/
theorem get?_ofPairs_append {key : String} (xs : List (String × Value))
    {ys : List (String × Value)} (h : ∀ field ∈ ys, field.1 ≠ key) :
    (Value.ofPairs (xs ++ ys)).get? key = (Value.ofPairs xs).get? key := by
  have hnone : ys.reverse.find? (fun field => field.1 == key) = none := by
    rw [List.find?_eq_none]
    intro field hfield
    simpa using h field (List.mem_reverse.mp hfield)
  rw [Value.get?_ofPairs, Value.get?_ofPairs, List.reverse_append, Fields.get?, Fields.get?,
    List.find?_append, hnone, Option.none_or]

/-- The fields behind the first two have their own keys. -/
theorem get?_callFields (turn_number i : ℕ) (tc : TurnToolCall) {key : String}
    (hkey : key ∈ ["name", "call_id"]) :
    (Value.ofPairs (callFields serde turn_number i tc)).get? key =
      (Value.ofPairs [("name", .string tc.name),
        ("call_id", .string ("turn" ++ toString turn_number ++ "_" ++ toString i))]).get? key := by
  have hother : ∀ field : String × Value,
      field.1 ∈ ["result_preview", "result", "error", "rationale", "tool_call_id"] →
      field.1 ≠ key := by
    rintro field hfield rfl
    simp only [List.mem_cons, List.not_mem_nil, or_false] at hfield hkey
    rcases hkey with hkey | hkey <;> rw [hkey] at hfield <;> simp at hfield
  rw [callFields, get?_ofPairs_append, get?_ofPairs_append, get?_ofPairs_append,
    get?_ofPairs_append]
  all_goals
    intro field hfield
    refine hother field ?_
  · cases hresult : tc.result with
    | none => simp [hresult] at hfield
    | some result =>
      simp only [hresult, Option.map_some, Option.getD_some, List.mem_cons, List.not_mem_nil,
        or_false] at hfield
      rcases hfield with rfl | rfl <;> simp [textField]
  all_goals
    simp only [Option.mem_toList, Option.map_eq_some_iff] at hfield
    obtain ⟨text, -, rfl⟩ := hfield
    simp [textField]

theorem strField_callFields (turn_number i : ℕ) (tc : TurnToolCall) :
    strField (.ofPairs (callFields serde turn_number i tc)) "name" = some tc.name ∧
      strField (.ofPairs (callFields serde turn_number i tc)) "call_id" =
        some ("turn" ++ toString turn_number ++ "_" ++ toString i) := by
  constructor
  · rw [strField, get?_callFields serde turn_number i tc (by simp), Value.get?_ofPairs]
    rfl
  · rw [strField, get?_callFields serde turn_number i tc (by simp), Value.get?_ofPairs]
    rfl

/-- The calls of a row that is read back. -/
theorem rowCalls_eq {turn_number : ℕ} {tool_calls : List TurnToolCall}
    {narrative : Option (List Char)}
    (h : serde.ReadsBack (toolCallsWrapper serde turn_number tool_calls narrative)) :
    rowCalls serde
        (serde.to_string (toolCallsWrapper serde turn_number tool_calls narrative)).toList =
      summaries serde turn_number tool_calls := by
  have hcalls : (toolCallsWrapper serde turn_number tool_calls narrative).get? "calls" =
      some (.ofList (summaries serde turn_number tool_calls)) := by
    rw [toolCallsWrapper, Value.get?_ofPairs, List.reverse_append]
    rfl
  rw [rowCalls, String.ofList_toList, h]
  change (((toolCallsWrapper serde turn_number tool_calls narrative).get? "calls").bind
    Value.asArray?).getD [] = _
  rw [hcalls, Option.bind_some, Value.asArray?_ofList, Option.getD_some]

/-- The row of calls of a turn, if there is one, is read back. -/
def RowsReadBack (turn : Turn) : Prop :=
  turn.tool_calls ≠ [] → serde.ReadsBack
    (toolCallsWrapper serde turn.turn_number turn.tool_calls turn.narrative)

/-- The fields of a call are strings. -/
theorem exact_callFields (n turn_number i : ℕ) (tc : TurnToolCall) :
    ∀ field ∈ callFields serde turn_number i tc, field.2.Exact n := by
  have htext : ∀ (key : String) (text : List Char), (textField key text).2.Exact n :=
    fun _ _ => .string n _
  intro field hfield
  simp only [callFields, List.mem_append, Option.mem_toList, Option.map_eq_some_iff] at hfield
  rcases hfield with (((hfield | hfield) | ⟨_, -, rfl⟩) | ⟨_, -, rfl⟩) | ⟨_, -, rfl⟩
  · simp only [List.mem_cons, List.not_mem_nil, or_false] at hfield
    rcases hfield with rfl | rfl
    · exact .string n _
    · exact .string n _
  · cases hresult : tc.result with
    | none => simp [hresult] at hfield
    | some result =>
      simp only [hresult, Option.map_some, Option.getD_some, List.mem_cons, List.not_mem_nil,
        or_false] at hfield
      rcases hfield with rfl | rfl
      · exact htext _ _
      · exact htext _ _
  · exact htext _ _
  · exact htext _ _
  · exact htext _ _

/-- Rows are read back by the crate: they are strings in objects in an array in an object. -/
theorem rowsReadBack_of_documented (h : serde.Documented) (turn : Turn) :
    RowsReadBack serde turn := by
  refine fun _ => h _ (Value.Exact.ofPairs (n := 126) fun field hfield => ?_)
  rcases List.mem_append.mp hfield with hfield | hfield
  · obtain ⟨text, -, rfl⟩ := Option.map_eq_some_iff.mp (Option.mem_toList.mp hfield)
    exact .string _ _
  · obtain rfl := List.mem_singleton.mp hfield
    refine Value.Exact.ofList (n := 125) fun v hv => ?_
    obtain ⟨i, hi, rfl⟩ := List.mem_mapIdx.mp hv
    exact Value.Exact.ofPairs (n := 124) (exact_callFields serde 124 _ _ _)

/-- The messages of a turn that ended with a response. -/
theorem rebuild_rows {turn : Turn} {response : List Char}
    (hresponse : turn.response = some response) (h : RowsReadBack serde turn) :
    rebuildChatMessagesFromDb serde (turn.rows serde) =
      .user turn.user_input ::
        (rebuildToolCalls serde (summaries serde turn.turn_number turn.tool_calls) ++
          [.assistant response]) := by
  have hcalls : (persistToolCalls serde turn.turn_number turn.tool_calls turn.narrative).flatMap
      (rebuildRow serde) =
      rebuildToolCalls serde (summaries serde turn.turn_number turn.tool_calls) := by
    rw [persistToolCalls]
    cases hcalls : turn.tool_calls with
    | nil => rfl
    | cons tc rest =>
      have hne : turn.tool_calls ≠ [] := by simp [hcalls]
      rw [List.isEmpty_cons, if_neg Bool.false_ne_true, List.flatMap_singleton, ← hcalls]
      exact congrArg (rebuildToolCalls serde) (rowCalls_eq serde (h hne))
  rw [Turn.rows, rebuildChatMessagesFromDb, hresponse, List.cons_append, List.flatMap_cons,
    List.flatMap_append, hcalls]
  rfl

/-- A turn that has come back. -/
structure SameTurn (turn restored : Turn) : Prop where
  user_input : restored.user_input = turn.user_input
  response : restored.response = turn.response
  names : restored.tool_calls.map TurnToolCall.name = turn.tool_calls.map TurnToolCall.name
  results : ∀ call ∈ restored.tool_calls, call.result.isSome ∧ call.error = none

/-- The messages of one turn are taken as one turn. -/
theorem restoreTurns_rows (turn_number : ℕ) {turn : Turn} {response : List Char}
    (hresponse : turn.response = some response) (h : RowsReadBack serde turn)
    (rest : List ChatMessage) : ∃ restored, SameTurn turn restored ∧
      restoreTurns turn_number (rebuildChatMessagesFromDb serde (turn.rows serde) ++ rest) =
        restored :: restoreTurns (turn_number + 1) rest := by
  have hcall_id : ∀ c ∈ summaries serde turn.turn_number turn.tool_calls,
      (strField c "call_id").isSome := by
    intro c hc
    obtain ⟨i, hi, rfl⟩ := List.mem_mapIdx.mp hc
    rw [(strField_callFields serde _ _ _).2]
    rfl
  have htake := takeRounds_rebuildToolCalls serde (.new turn_number turn.user_input)
    (summaries serde turn.turn_number turn.tool_calls) rfl hcall_id response rest
  refine ⟨({ Turn.new turn_number turn.user_input with
      tool_calls := (summaries serde turn.turn_number turn.tool_calls).map (restoredCall serde) } :
        Turn).conclude (.completed response), ⟨rfl, hresponse.symm, ?_, ?_⟩, ?_⟩
  · refine List.ext_getElem (by simp [Turn.conclude, summaries]) fun i hi hi' => ?_
    simp [Turn.conclude, summaries, restoredCall, declaredCall, rebuildToolCall,
      TurnToolCall.withResult, (strField_callFields serde _ _ _).1]
  · intro call hcall
    obtain ⟨c, -, rfl⟩ := List.mem_map.mp hcall
    exact ⟨rfl, rfl⟩
  · rw [rebuild_rows serde hresponse h, List.cons_append, List.append_assoc, List.singleton_append,
      restoreTurns, if_pos (show (ChatMessage.user turn.user_input).role = .user from rfl)]
    dsimp only [ChatMessage.user]
    rw [htake]
    rfl

end

/-- **History survives a restart**: turns that ended with a response, their rows read back and
restored, are as many turns in the same order, each with its texts and tools, and each call has
a result. -/
theorem history_survives (serde : SerdeJson) (thread : Thread) (turns : List Turn)
    (hcompleted : ∀ turn ∈ turns, turn.response.isSome)
    (hread : ∀ turn ∈ turns, RowsReadBack serde turn) :
    List.Forall₂ SameTurn turns
      (thread.restoreFromMessages
        (rebuildChatMessagesFromDb serde (turns.flatMap (Turn.rows serde)))).turns := by
  have hrestore : ∀ turn_number, List.Forall₂ SameTurn turns
      (restoreTurns turn_number
        (rebuildChatMessagesFromDb serde (turns.flatMap (Turn.rows serde)))) := by
    induction turns with
    | nil =>
      intro turn_number
      rw [List.flatMap_nil, rebuildChatMessagesFromDb, List.flatMap_nil, restoreTurns]
      exact .nil
    | cons turn turns ih =>
      intro turn_number
      obtain ⟨hturn, hturns⟩ := List.forall_mem_cons.mp hcompleted
      obtain ⟨hrow, hrows⟩ := List.forall_mem_cons.mp hread
      obtain ⟨response, hresponse⟩ := Option.isSome_iff_exists.mp hturn
      obtain ⟨restored, hsame, hrestored⟩ := restoreTurns_rows serde turn_number hresponse hrow
        (rebuildChatMessagesFromDb serde (turns.flatMap (Turn.rows serde)))
      have hsplit : rebuildChatMessagesFromDb serde ((turn :: turns).flatMap (Turn.rows serde)) =
          rebuildChatMessagesFromDb serde (turn.rows serde) ++
            rebuildChatMessagesFromDb serde (turns.flatMap (Turn.rows serde)) := by
        rw [List.flatMap_cons, rebuildChatMessagesFromDb, List.flatMap_append]
        rfl
      rw [hsplit, hrestored]
      exact .cons hsame (ih hturns hrows _)
  exact hrestore 0

/-! ### A small instance -/

/-- A turn with a call and its result, and one without. -/
def sampleTurns : List Turn :=
  [{ Turn.new 0 "Say hello.".toList with
      response := some "Done.".toList
      tool_calls := [⟨"echo", .null, some (.string "hello"), none, none, some "call_1"⟩]
      state := .completed },
    { Turn.new 1 "Thanks.".toList with
      response := some "You are welcome.".toList
      state := .completed }]

/-- The row of calls of the first turn. -/
def sampleRow : Value :=
  .ofPairs [("calls", .ofList [.ofPairs [("name", .string "echo"), ("call_id", .string "turn0_0"),
    ("result_preview", .string "hello"), ("result", .string "hello"),
    ("tool_call_id", .string "call_1")]])]

/-- Its text. -/
def sampleRowText : String :=
  "\x7b\"calls\":[\x7b\"call_id\":\"turn0_0\",\"name\":\"echo\",\"result\":\"hello\"," ++
    "\"result_preview\":\"hello\",\"tool_call_id\":\"call_1\"\x7d]\x7d"

/-- The crate, as far as that row goes: its text is that of the row, and of no other. -/
def sampleSerde : SerdeJson where
  to_string _ := sampleRowText
  from_str text := if text = sampleRowText then some sampleRow else none

theorem history_survives_sample :
    List.Forall₂ SameTurn sampleTurns
      ((⟨.idle, []⟩ : Thread).restoreFromMessages (rebuildChatMessagesFromDb sampleSerde
        (sampleTurns.flatMap (Turn.rows sampleSerde)))).turns := by
  refine history_survives sampleSerde ⟨.idle, []⟩ sampleTurns (by decide) ?_
  intro turn hturn hcalls
  simp only [sampleTurns, List.mem_cons, List.not_mem_nil, or_false] at hturn
  rcases hturn with rfl | rfl
  · rfl
  · exact absurd rfl hcalls

end T3Claw.Agent
