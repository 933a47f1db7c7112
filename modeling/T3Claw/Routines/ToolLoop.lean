import T3Claw.Routines.Execute
import T3Claw.Safety.Wrapping
import T3Claw.Safety.Layer
import T3Claw.Types.Value

/-!
# The tool loop of a lightweight routine

`execute_lightweight_with_tools`: the model is asked again and again, each time with the messages
so far, until it answers with text or the rounds are used up; each round of tool calls adds the
model's message and a result for each call. What it is asked with is cut to
`MAX_TOOL_LOOP_MESSAGES`. `snapshot_wellFormed_iff` says when the cut keeps what the messages are
about: never, once there is something to cut.

The model and the tools answer as they like; the temperature, the token limit and the tool
definitions of a request are left out.
-/

namespace T3Claw.Routines

open T3Claw.Safety (SafetyCrates SafetyLayer wrapForLlm)

/-! ### Messages -/

/-- Role in a conversation. -/
inductive Role where
  | system
  | user
  | assistant
  | tool
  deriving DecidableEq

/-- A tool call requested by the LLM. -/
structure ToolCall where
  id : String
  name : String
  arguments : Value
  reasoning : Option String

/-- A message in a conversation. -/
structure ChatMessage where
  role : Role
  content : List Char
  tool_call_id : Option String
  name : Option String
  tool_calls : Option (List ToolCall)

namespace ChatMessage

/-- Create a system message. -/
def system (content : List Char) : ChatMessage := ⟨.system, content, none, none, none⟩

/-- Create a user message. -/
def user (content : List Char) : ChatMessage := ⟨.user, content, none, none, none⟩

/-- Create an assistant message that includes tool calls. -/
def assistantWithToolCalls (content : Option (List Char)) (tool_calls : List ToolCall) :
    ChatMessage :=
  ⟨.assistant, content.getD [], none, none,
    if tool_calls.isEmpty then none else some tool_calls⟩

/-- Create a tool result message. -/
def toolResult (tool_call_id name : String) (content : List Char) : ChatMessage :=
  ⟨.tool, content, some tool_call_id, some name, none⟩

end ChatMessage

/-- `ensure_ends_with_user_message`. -/
def ensureEndsWithUserMessage (messages : List ChatMessage) : List ChatMessage :=
  if (messages.getLast?.map ChatMessage.role) = some .user then messages
  else messages ++ [.user "Continue.".toList]

def MAX_TOOL_LOOP_MESSAGES : ℕ := 32

/-- `snapshot_messages_for_tool_iteration`. -/
def snapshotMessagesForToolIteration (messages : List ChatMessage) : List ChatMessage :=
  if messages.length ≤ MAX_TOOL_LOOP_MESSAGES then messages
  else
    match messages.head? with
    | some first =>
      if first.role = .system then
        let tail_len := MAX_TOOL_LOOP_MESSAGES - 1
        first :: messages.drop (max (messages.length - tail_len) 1)
      else messages.drop (messages.length - MAX_TOOL_LOOP_MESSAGES)
    | none => messages.drop (messages.length - MAX_TOOL_LOOP_MESSAGES)

/-! ### Responses -/

inductive FinishReason where
  | stop
  | length
  | toolUse
  | contentFilter
  | unknown
  deriving DecidableEq

/-- Response from a chat completion. -/
structure CompletionResponse where
  content : List Char
  input_tokens : UInt32
  output_tokens : UInt32
  finish_reason : FinishReason

/-- Response from a completion with potential tool calls. -/
structure ToolCompletionResponse where
  content : Option (List Char)
  tool_calls : List ToolCall
  input_tokens : UInt32
  output_tokens : UInt32
  finish_reason : FinishReason

/-- An error of the model, and whether it may be tried again. -/
structure LlmFailure where
  reason : String
  retryable : Bool

/-- Convert raw `u32` token counts into `Option<i32>`. -/
def tokensToOption (input output : UInt32) : Option ℤ :=
  let total := min (input.toNat + output.toNat) (2 ^ 32 - 1)
  if 0 < total then some (if total < 2 ^ 31 then total else total - 2 ^ 32) else none

/-- A line that only marks a tool call or its result. -/
def isInternalToolCallText (line : List Char) : Bool :=
  let trimmed := Text.trim line
  ("[Called tool ".toList.isPrefixOf trimmed && trimmed.getLast? = some ']') ||
    ("[Tool ".toList.isPrefixOf trimmed && Text.contains " returned:".toList trimmed &&
      trimmed.getLast? = some ']')

/-- `strip_internal_tool_call_text`. -/
def stripInternalToolCallText (text : List Char) : List Char :=
  let result := ((Text.lines text).filter fun line => !isInternalToolCallText line).foldl
    (fun acc s => (if acc.isEmpty then acc else acc ++ ['\n']) ++ s) []
  let result := Text.trim result
  if result.isEmpty then "I wasn't able to produce a user-facing routine summary.".toList
  else result

/-- Handle a text-only LLM response in lightweight routine execution. -/
def handleTextResponse (content : List Char) (finish_reason : FinishReason)
    (total_input_tokens total_output_tokens : UInt32) : Except RoutineError Execution :=
  let content := Text.trim (stripInternalToolCallText content)
  let total_tokens := tokensToOption total_input_tokens total_output_tokens
  if content.isEmpty then
    if finish_reason = .length then .error (.truncatedResponse total_tokens)
    else .error (.emptyResponse total_tokens)
  else if content = "ROUTINE_OK".toList then .ok ⟨.ok, none, total_tokens⟩
  else .ok ⟨.attention, some (String.ofList content), total_tokens⟩

/-! ### The loop -/

variable {Re : Type}

/-- What a run is made with, and how the model and the tools answer in its iterations: a tool is
executed for a place among the calls of a response. -/
structure ToolWorld (Re : Type) where
  crates : SafetyCrates Re
  safety : SafetyLayer Re
  complete : List ChatMessage → Except LlmFailure CompletionResponse
  complete_with_tools : ℕ → List ChatMessage → Except LlmFailure ToolCompletionResponse
  execute_routine_tool : ℕ → ℕ → ToolCall → Except String (List Char)

/-- Where a run is when it comes to an iteration. -/
structure ToolLoopState where
  messages : List ChatMessage
  iteration : ℕ
  total_input_tokens : UInt32
  total_output_tokens : UInt32

/-- The messages that a run begins with. -/
def initialMessages (system_prompt full_prompt : List Char) : List ChatMessage :=
  if system_prompt.isEmpty then [.user full_prompt]
  else [.system system_prompt, .user full_prompt]

def ToolLoopState.initial (system_prompt full_prompt : List Char) : ToolLoopState :=
  ⟨initialMessages system_prompt full_prompt, 0, 0, 0⟩

def MAX_TOOL_OUTPUT_CHARS : ℕ := 8192

namespace ToolWorld

/-- What the result of a call says: sanitized and wrapped, and cut when it is too long. -/
def resultContent (w : ToolWorld Re) (tc : ToolCall) (result : Except String (List Char)) :
    List Char :=
  let output := match result with
    | .ok output => output
    | .error e => ("Tool '" ++ tc.name ++ "' failed: " ++ e).toList
  let sanitized := w.safety.sanitizeToolOutput w.crates tc.name output
  let result_content := wrapForLlm tc.name.toList sanitized.content
  if MAX_TOOL_OUTPUT_CHARS < Text.byteLength result_content then
    Text.floorCharBoundary MAX_TOOL_OUTPUT_CHARS result_content ++
      "\n... [output truncated to 8192 chars]".toList
  else result_content

/-- The results of the calls of a response. -/
def results (w : ToolWorld Re) (iteration : ℕ) (tool_calls : List ToolCall) :
    List ChatMessage :=
  tool_calls.mapIdx fun i tc =>
    .toolResult tc.id tc.name (w.resultContent tc (w.execute_routine_tool iteration i tc))

/-- An iteration with tools: the result of the run, or where it goes on. -/
def toolIteration (w : ToolWorld Re) (s : ToolLoopState) :
    Except RoutineError Execution ⊕ ToolLoopState :=
  let iteration := s.iteration + 1
  match w.complete_with_tools iteration (snapshotMessagesForToolIteration s.messages) with
  | .error e =>
    .inl (.error (.llmFailed e.reason
      (tokensToOption s.total_input_tokens s.total_output_tokens) e.retryable))
  | .ok response =>
    let total_input_tokens := s.total_input_tokens + response.input_tokens
    let total_output_tokens := s.total_output_tokens + response.output_tokens
    if response.tool_calls.isEmpty then
      .inl (handleTextResponse (response.content.getD []) response.finish_reason
        total_input_tokens total_output_tokens)
    else
      .inr ⟨s.messages ++ .assistantWithToolCalls response.content response.tool_calls ::
        w.results iteration response.tool_calls, iteration, total_input_tokens,
        total_output_tokens⟩

/-- The last iteration: no tools. -/
def textIteration (w : ToolWorld Re) (s : ToolLoopState) : Except RoutineError Execution :=
  match w.complete (ensureEndsWithUserMessage s.messages) with
  | .error e => .error (.llmFailed e.reason
      (tokensToOption s.total_input_tokens s.total_output_tokens) e.retryable)
  | .ok response =>
    handleTextResponse response.content response.finish_reason
      (s.total_input_tokens + response.input_tokens)
      (s.total_output_tokens + response.output_tokens)

/-- The loop, with the iterations that are left before the last one. -/
def toolLoop (w : ToolWorld Re) : ℕ → ToolLoopState → Except RoutineError Execution
  | 0, s => w.textIteration s
  | rounds + 1, s =>
    match w.toolIteration s with
    | .inl result => result
    | .inr s' => w.toolLoop rounds s'

/-- Execute a lightweight routine with tool execution support. -/
def executeLightweightWithTools (w : ToolWorld Re) (lightweight_max_iterations : ℕ)
    (system_prompt full_prompt : List Char) (max_tool_rounds : ℕ) :
    Except RoutineError Execution :=
  let max_iterations := min (min max_tool_rounds lightweight_max_iterations) 5
  w.toolLoop (max_iterations - 1) (.initial system_prompt full_prompt)

/-- A run comes to an iteration. -/
inductive Reaches (w : ToolWorld Re) (system_prompt full_prompt : List Char) :
    ToolLoopState → Prop where
  | start : w.Reaches system_prompt full_prompt (.initial system_prompt full_prompt)
  | round {s s' : ToolLoopState} (h : w.Reaches system_prompt full_prompt s)
      (hstep : w.toolIteration s = .inr s') : w.Reaches system_prompt full_prompt s'

end ToolWorld

/-! ### What a request is made of -/

/-- The message declares the call that a result is for. -/
def ChatMessage.Declares (message result : ChatMessage) : Prop :=
  message.role = .assistant ∧
    ∃ tool_calls, message.tool_calls = some tool_calls ∧
      ∃ tc ∈ tool_calls, result.tool_call_id = some tc.id

/-- Every tool result stands behind the message that declares its call. -/
def Declared (messages : List ChatMessage) : Prop :=
  ∀ i result, messages[i]? = some result → result.role = .tool →
    ∃ message ∈ messages.take i, message.Declares result

/-- The messages that a request may have, and the prompt is one of them. -/
structure SnapshotWellFormed (full_prompt : List Char) (snapshot : List ChatMessage) : Prop where
  length_le : snapshot.length ≤ MAX_TOOL_LOOP_MESSAGES
  declared : Declared snapshot
  prompt_mem : .user full_prompt ∈ snapshot

/-- Rounds of tool calls: a message with calls, and behind it a result for each. -/
inductive Rounds : List ChatMessage → Prop where
  | nil : Rounds []
  | round {messages results : List ChatMessage} (content : Option (List Char))
      (tool_calls : List ToolCall) (h : Rounds messages) (hne : tool_calls ≠ [])
      (hresults : List.Forall₂ (fun tc result => ∃ content,
        result = ChatMessage.toolResult tc.id tc.name content) tool_calls results) :
      Rounds (messages ++ .assistantWithToolCalls content tool_calls :: results)

/-- The messages of a run: those it begins with, and rounds. -/
theorem ToolWorld.Reaches.rounds {w : ToolWorld Re} {system_prompt full_prompt : List Char}
    {s : ToolLoopState} (h : w.Reaches system_prompt full_prompt s) :
    ∃ rounds, Rounds rounds ∧
      s.messages = initialMessages system_prompt full_prompt ++ rounds := by
  induction h with
  | start => exact ⟨[], .nil, (List.append_nil _).symm⟩
  | @round s s' _ hstep ih =>
    obtain ⟨rounds, hrounds, hmessages⟩ := ih
    rw [toolIteration] at hstep
    split at hstep
    · cases hstep
    · rename_i response _
      split_ifs at hstep with hempty
      obtain rfl := Sum.inr.inj hstep
      have hne : response.tool_calls ≠ [] := fun hnil => hempty (by rw [hnil]; rfl)
      refine ⟨_, .round response.content response.tool_calls hrounds hne ?_,
        by rw [hmessages, List.append_assoc]⟩
      refine List.forall₂_iff_get.mpr ⟨List.length_mapIdx.symm, fun i hi hi' => ?_⟩
      exact ⟨w.resultContent _ (w.execute_routine_tool (s.iteration + 1) i _),
        List.getElem_mapIdx⟩

theorem exists_call {tool_calls : List ToolCall} {results : List ChatMessage}
    (h : List.Forall₂ (fun tc result => ∃ content,
      result = ChatMessage.toolResult tc.id tc.name content) tool_calls results)
    {result : ChatMessage} (hresult : result ∈ results) :
    ∃ tc ∈ tool_calls, ∃ content, result = .toolResult tc.id tc.name content := by
  induction h with
  | nil => cases hresult
  | cons hhead _ ih =>
    rcases List.mem_cons.mp hresult with rfl | hresult
    · exact ⟨_, List.mem_cons_self, hhead⟩
    · obtain ⟨tc, htc, hcontent⟩ := ih hresult
      exact ⟨tc, List.mem_cons_of_mem _ htc, hcontent⟩

/-- In rounds there is no message of the user. -/
theorem Rounds.role_ne {rounds : List ChatMessage} (h : Rounds rounds) :
    ∀ message ∈ rounds, message.role ≠ .user := by
  induction h with
  | nil => exact fun _ h => absurd h List.not_mem_nil
  | round content tool_calls _ _ hresults ih =>
    intro message hmessage
    rcases List.mem_append.mp hmessage with hmessage | hmessage
    · exact ih message hmessage
    · rcases List.mem_cons.mp hmessage with rfl | hmessage
      · exact fun h => nomatch h
      · obtain ⟨tc, -, content, rfl⟩ := exists_call hresults hmessage
        exact fun h => nomatch h

/-- **Whole rounds are well formed**: their results are declared. -/
theorem Rounds.declared {front rounds : List ChatMessage} (h : Rounds rounds)
    (hfront : ∀ message ∈ front, message.role ≠ .tool) : Declared (front ++ rounds) := by
  induction h with
  | nil =>
    intro i result hresult htool
    rw [List.append_nil] at hresult
    exact absurd htool (hfront result (List.mem_of_getElem? hresult))
  | @round messages results content tool_calls _ hne hresults ih =>
    intro i result hresult htool
    rw [← List.append_assoc] at hresult ⊢
    rw [List.getElem?_append] at hresult
    split_ifs at hresult with hlt
    · obtain ⟨message, hmessage, hdeclares⟩ := ih i result hresult htool
      rw [List.take_append_of_le_length hlt.le]
      exact ⟨message, hmessage, hdeclares⟩
    · obtain ⟨k, rfl⟩ := Nat.exists_eq_add_of_le (not_lt.mp hlt)
      rw [Nat.add_sub_cancel_left] at hresult
      rcases k with _ | k
      · -- the message of the model itself
        obtain rfl := Option.some.inj hresult
        cases htool
      · obtain ⟨tc, htc, content', rfl⟩ :=
          exists_call hresults (List.mem_of_getElem? (List.getElem?_cons_succ ▸ hresult))
        refine ⟨.assistantWithToolCalls content tool_calls, ?_, rfl, tool_calls, ?_, tc, htc, rfl⟩
        · rw [List.take_length_add_append, List.take_succ_cons]
          exact List.mem_append_right _ List.mem_cons_self
        · exact if_neg (by rwa [List.isEmpty_iff])

theorem initialMessages_role (system_prompt full_prompt : List Char) :
    ∀ message ∈ initialMessages system_prompt full_prompt, message.role ≠ .tool := by
  have hsystem : (ChatMessage.system system_prompt).role ≠ .tool := fun h => nomatch h
  have huser : (ChatMessage.user full_prompt).role ≠ .tool := fun h => nomatch h
  rw [initialMessages]
  split_ifs
  · exact List.forall_mem_singleton.mpr huser
  · exact List.forall_mem_cons.mpr ⟨hsystem, List.forall_mem_singleton.mpr huser⟩

/-- **The cut drops the prompt**: it is among the first two messages, and of these it keeps at
most a system message. -/
theorem prompt_not_mem_snapshot {system_prompt full_prompt : List Char}
    {rounds : List ChatMessage} (h : Rounds rounds)
    (hlong : MAX_TOOL_LOOP_MESSAGES <
      (initialMessages system_prompt full_prompt ++ rounds).length) :
    .user full_prompt ∉ snapshotMessagesForToolIteration
      (initialMessages system_prompt full_prompt ++ rounds) := by
  have hmax : MAX_TOOL_LOOP_MESSAGES = 32 := rfl
  have hrounds : ∀ n, .user full_prompt ∉ rounds.drop n := fun n hmem =>
    h.role_ne _ (List.mem_of_mem_drop hmem) rfl
  rw [snapshotMessagesForToolIteration, if_neg hlong.not_ge]
  rw [initialMessages] at hlong ⊢
  split_ifs at hlong ⊢ with hempty
  · -- without a system message, the prompt is the first one
    have hrole : (ChatMessage.user full_prompt).role ≠ .system := fun h => nomatch h
    rw [List.length_append, List.length_singleton] at hlong ⊢
    obtain ⟨n, hn⟩ := Nat.exists_eq_add_of_lt hlong
    have hstart : 1 + rounds.length - MAX_TOOL_LOOP_MESSAGES = n + 1 := by omega
    rw [List.singleton_append, List.head?_cons]
    dsimp only
    rw [if_neg hrole, hstart, List.drop_succ_cons]
    exact hrounds n
  · -- behind a system message, it is the second one
    have hrole : (ChatMessage.system system_prompt).role = .system := rfl
    rw [List.length_append, List.length_cons, List.length_singleton] at hlong ⊢
    obtain ⟨n, hn⟩ := Nat.exists_eq_add_of_lt hlong
    have hstart : max (1 + 1 + rounds.length - (MAX_TOOL_LOOP_MESSAGES - 1)) 1 = n + 2 := by
      omega
    rw [List.cons_append, List.singleton_append, List.head?_cons]
    dsimp only
    rw [if_pos hrole, hstart, List.drop_succ_cons, List.drop_succ_cons, List.mem_cons, not_or]
    exact ⟨fun h => (nomatch congrArg ChatMessage.role h), hrounds n⟩

/-- **The request is well formed** if and only if there is nothing to cut. -/
theorem snapshot_wellFormed_iff {w : ToolWorld Re} {system_prompt full_prompt : List Char}
    {s : ToolLoopState} (h : w.Reaches system_prompt full_prompt s) :
    SnapshotWellFormed full_prompt (snapshotMessagesForToolIteration s.messages) ↔
      s.messages.length ≤ MAX_TOOL_LOOP_MESSAGES := by
  obtain ⟨rounds, hrounds, hmessages⟩ := h.rounds
  rw [hmessages]
  constructor
  · intro hformed
    by_contra hlong
    exact prompt_not_mem_snapshot hrounds (not_le.mp hlong) hformed.prompt_mem
  · intro hle
    have hwhole : snapshotMessagesForToolIteration
        (initialMessages system_prompt full_prompt ++ rounds) =
          initialMessages system_prompt full_prompt ++ rounds := if_pos hle
    rw [hwhole]
    refine ⟨hle, hrounds.declared (initialMessages_role system_prompt full_prompt), ?_⟩
    refine List.mem_append_left _ ?_
    rw [initialMessages]
    split_ifs
    · exact List.mem_singleton.mpr rfl
    · exact List.mem_cons_of_mem _ (List.mem_singleton.mpr rfl)

/-! ### A large round -/

open T3Claw.Safety (fileCrates)

def ToolCall.sample (i : ℕ) : ToolCall :=
  ⟨"call_" ++ toString i, "memory_search", .null, none⟩

/-- The model asks for a number of calls, and the tools find nothing. -/
def ToolWorld.sample (n : ℕ) : ToolWorld String where
  crates := fileCrates
  safety := .new fileCrates ⟨1000, true⟩
  complete _ := .ok ⟨"ROUTINE_OK".toList, 10, 10, .stop⟩
  complete_with_tools _ _ := .ok ⟨none, (List.range (n + 1)).map .sample, 10, 10, .toolUse⟩
  execute_routine_tool _ _ _ := .ok "nothing found".toList

/-- The run behind its first round. -/
def ToolLoopState.sample (n : ℕ) : ToolLoopState :=
  ⟨initialMessages "You are T3Claw.".toList "Check the mail.".toList ++
    .assistantWithToolCalls none ((List.range (n + 1)).map .sample) ::
      (ToolWorld.sample n).results 1 ((List.range (n + 1)).map .sample), 1, 10, 10⟩

theorem reaches_sample (n : ℕ) :
    (ToolWorld.sample n).Reaches "You are T3Claw.".toList "Check the mail.".toList
      (.sample n) := by
  refine .round .start ?_
  have hne : ((List.range (n + 1)).map ToolCall.sample).isEmpty = false := by
    rw [List.isEmpty_map, List.range_succ_eq_map]
    rfl
  exact if_neg (by rw [hne]; exact Bool.false_ne_true)

theorem snapshot_wellFormed_iff_sample :
    SnapshotWellFormed "Check the mail.".toList
        (snapshotMessagesForToolIteration (ToolLoopState.sample 1).messages) ↔
      (ToolLoopState.sample 1).messages.length ≤ MAX_TOOL_LOOP_MESSAGES :=
  snapshot_wellFormed_iff (reaches_sample 1)

/-- Thirty-two calls in one response: the prompt is cut, and so is the message that declares the
calls whose results are left. -/
theorem large_round_cut : ∃ s, (ToolWorld.sample 31).Reaches "You are T3Claw.".toList
      "Check the mail.".toList s ∧ s.messages.length = 35 ∧
    .user "Check the mail.".toList ∉ snapshotMessagesForToolIteration s.messages ∧
    ¬Declared (snapshotMessagesForToolIteration s.messages) := by
  obtain ⟨rounds, hrounds, hmessages⟩ := (reaches_sample 31).rounds
  have hlength : (ToolLoopState.sample 31).messages.length = 35 := by
    simp [ToolLoopState.sample, initialMessages, ToolWorld.results]
  refine ⟨.sample 31, reaches_sample 31, hlength, ?_, fun hdeclared => ?_⟩
  · rw [hmessages] at hlength ⊢
    exact prompt_not_mem_snapshot hrounds (by rw [hlength]; decide)
  · have hcut : snapshotMessagesForToolIteration (ToolLoopState.sample 31).messages =
        .system "You are T3Claw.".toList ::
          ((ToolWorld.sample 31).results 1 ((List.range 32).map .sample)).drop 1 := by
      rw [snapshotMessagesForToolIteration, hlength, if_neg (by decide)]
      rfl
    have hresult : (((ToolWorld.sample 31).results 1
        ((List.range 32).map ToolCall.sample)).drop 1)[0]? = some (.toolResult "call_1"
          "memory_search" ((ToolWorld.sample 31).resultContent (.sample 1)
            (.ok "nothing found".toList))) := rfl
    rw [hcut] at hdeclared
    obtain ⟨message, hmessage, hrole, -⟩ := hdeclared 1 _ hresult rfl
    obtain rfl := List.mem_singleton.mp hmessage
    cases hrole

end T3Claw.Routines
