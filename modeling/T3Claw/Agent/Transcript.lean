import T3Claw.Agent.History
import T3Claw.Llm.Recovery

/-!
# The messages of a thread

`Thread::messages` of `agent/session.rs`, what the model gets of the turns of a thread. Whatever
the turns are, the messages keep the protocol of the providers, so that sanitizing leaves them as
they are (`sanitize_messages`). A thread that is restored from its own messages, as an undo does
it, has the same messages again exactly if no turn has images with it and no result of a tool reads
differently the second time (`messages_restore_iff`).
-/

namespace T3Claw.Agent

open T3Claw.Llm (ChatMessage Role ToolCall ToolProtocol generateToolCallId knownIds
  sanitizeToolMessages sanitized_iff
  sanitizeMessage sanitizeMessage_of_kept ResultsInRound isOrphaned)

/-! ### The messages -/

section

variable (serde : SerdeJson)

/-- What the model gets of a tool call. An error stands in front of a result. -/
def contextContent (tc : TurnToolCall) : List Char :=
  match tc.error, tc.result with
  | some err, _ => truncatePreview err 1000
  | none, some res =>
    match GeneratedImageSentinel.fromValue serde res with
    | some sentinel => sentinel.summaryForContext.toList
    | none => truncatePreview (resultText serde res) 1000
  | none, none => "OK".toList

/-- A call as it is declared, with an id of its own. -/
def contextCall (turn_idx tc_idx : ℕ) (tc : TurnToolCall) : ToolCall :=
  ⟨generateToolCallId turn_idx tc_idx, tc.name, tc.parameters, none⟩

/-- The result of a call, under the same id. -/
def contextResult (turn_idx tc_idx : ℕ) (tc : TurnToolCall) : ChatMessage :=
  .toolResult (generateToolCallId turn_idx tc_idx) tc.name (contextContent serde tc)

/-- The messages of the calls of a turn. -/
def Turn.callMessages (turn : Turn) (turn_idx : ℕ) : List ChatMessage :=
  if turn.tool_calls.isEmpty then []
  else .assistantWithToolCalls none (turn.tool_calls.mapIdx (contextCall turn_idx)) ::
    turn.tool_calls.mapIdx (contextResult serde turn_idx)

/-- The user's message, with the images of the turn if it has any. -/
def Turn.userMessage (turn : Turn) : ChatMessage :=
  if turn.image_content_parts.isEmpty then .user turn.user_input
  else .userWithParts turn.user_input turn.image_content_parts

/-- The messages of a turn. -/
def Turn.messages (turn : Turn) (turn_idx : ℕ) : List ChatMessage :=
  turn.userMessage ::
    (turn.callMessages serde turn_idx ++ (turn.response.map .assistant).toList)

/-- The messages of turns that stand behind `turn_idx` others. -/
def turnMessages : (turn_idx : ℕ) → List Turn → List ChatMessage
  | _, [] => []
  | turn_idx, turn :: turns => turn.messages serde turn_idx ++ turnMessages (turn_idx + 1) turns

/-- `Thread::messages`. -/
def Thread.messages (thread : Thread) : List ChatMessage := turnMessages serde 0 thread.turns

end

/-! ### The protocol -/

section

variable (serde : SerdeJson) {known_ids round : List String}

theorem callIds_assistantWithToolCalls (tool_calls : List ToolCall) :
    (ChatMessage.assistantWithToolCalls none tool_calls).callIds = tool_calls.map ToolCall.id := by
  rw [ChatMessage.callIds, ChatMessage.assistantWithToolCalls]
  cases tool_calls <;> rfl

theorem userMessage_fields (turn : Turn) : turn.userMessage.role = .user ∧
    turn.userMessage.content = turn.user_input ∧
      turn.userMessage.content_parts = turn.image_content_parts := by
  rw [Turn.userMessage]
  split
  case isTrue h => exact ⟨rfl, rfl, (List.isEmpty_iff.mp h).symm⟩
  case isFalse => exact ⟨rfl, rfl, rfl⟩

theorem userMessage_not_tool (turn : Turn) : turn.userMessage.role ≠ .tool := by
  rw [(userMessage_fields turn).1]
  decide

/-- Results under ids that are declared leave the round open. -/
theorem resultsInRound_append {results rest : List ChatMessage}
    (hresults : ∀ msg ∈ results, Llm.Kept known_ids msg ∧ ∃ id ∈ round, msg.tool_call_id = some id)
    (h : ResultsInRound known_ids round rest) :
    ResultsInRound known_ids round (results ++ rest) := by
  induction results with
  | nil => exact h
  | cons msg results ih =>
    obtain ⟨⟨hkept, hround⟩, hrest⟩ := List.forall_mem_cons.mp hresults
    rw [List.cons_append, ResultsInRound, if_pos hkept]
    exact ⟨hround, ih hrest⟩

/-- A message that is no result opens a round, whatever was open. -/
theorem resultsInRound_cons {msg : ChatMessage} {rest : List ChatMessage} (hrole : msg.role ≠ .tool)
    (h : ResultsInRound known_ids msg.callIds rest) :
    ResultsInRound known_ids round (msg :: rest) := by
  rw [ResultsInRound, if_neg fun hkept => hrole hkept.1]
  exact h

/-- The results of a turn are among the ids that it declares. -/
theorem mem_contextResults {turn : Turn} {turn_idx : ℕ} {msg : ChatMessage}
    (h : msg ∈ turn.tool_calls.mapIdx (contextResult serde turn_idx)) :
    msg.role = .tool ∧
      ∃ id ∈ (turn.tool_calls.mapIdx (contextCall turn_idx)).map ToolCall.id,
        msg.tool_call_id = some id := by
  obtain ⟨i, hi, rfl⟩ := List.mem_mapIdx.mp h
  refine ⟨rfl, generateToolCallId turn_idx i, ?_, rfl⟩
  exact List.mem_map.mpr ⟨_, List.mem_mapIdx.mpr ⟨i, hi, rfl⟩, rfl⟩

/-- What is declared in the messages of a turn. -/
theorem mem_callMessages {turn : Turn} {turn_idx : ℕ} {id : String}
    (h : id ∈ (turn.tool_calls.mapIdx (contextCall turn_idx)).map ToolCall.id) :
    ∃ msg ∈ turn.callMessages serde turn_idx, id ∈ msg.callIds := by
  have hne : ¬turn.tool_calls.isEmpty := by
    intro hempty
    rw [List.isEmpty_iff.mp hempty] at h
    cases h
  rw [Turn.callMessages, if_neg hne]
  refine ⟨_, List.mem_cons_self, ?_⟩
  rwa [callIds_assistantWithToolCalls]

/-- A result of a turn whose ids are known keeps its role. -/
theorem kept_contextResults {turn : Turn} {turn_idx : ℕ} {msg : ChatMessage}
    (hknown : ∀ msg ∈ turn.messages serde turn_idx, ∀ id ∈ msg.callIds, id ∈ known_ids)
    (h : msg ∈ turn.tool_calls.mapIdx (contextResult serde turn_idx)) : Llm.Kept known_ids msg := by
  obtain ⟨hrole, id, hid, hcall⟩ := mem_contextResults serde h
  obtain ⟨caller, hcaller, hdeclared⟩ := mem_callMessages serde hid
  have hmem : id ∈ known_ids :=
    hknown caller (List.mem_cons_of_mem _ (List.mem_append_left _ hcaller)) id hdeclared
  refine ⟨hrole, ?_⟩
  rw [isOrphaned, hcall]
  simpa using hmem

theorem resultsInRound_messages {turn : Turn} {turn_idx : ℕ} {rest : List ChatMessage}
    (hknown : ∀ msg ∈ turn.messages serde turn_idx, ∀ id ∈ msg.callIds, id ∈ known_ids)
    (h : ∀ round, ResultsInRound known_ids round rest) (round : List String) :
    ResultsInRound known_ids round (turn.messages serde turn_idx ++ rest) := by
  have hresponse : ∀ round, ResultsInRound known_ids round
      ((turn.response.map .assistant).toList ++ rest) := by
    intro round
    cases turn.response with
    | none => exact h round
    | some response => exact resultsInRound_cons (fun hrole => by cases hrole) (h _)
  rw [Turn.messages, List.cons_append, List.append_assoc]
  refine resultsInRound_cons (userMessage_not_tool turn) ?_
  by_cases hempty : turn.tool_calls.isEmpty
  · rw [Turn.callMessages, if_pos hempty]
    exact hresponse _
  · have hcalls : turn.callMessages serde turn_idx = _ := if_neg hempty
    rw [hcalls, List.cons_append]
    refine resultsInRound_cons (fun hrole => by cases hrole) (resultsInRound_append ?_
      (hresponse _))
    intro msg hmsg
    obtain ⟨hrole, id, hid, hcall⟩ := mem_contextResults serde hmsg
    exact ⟨kept_contextResults serde hknown hmsg, id, by rwa [callIds_assistantWithToolCalls],
      hcall⟩

theorem resultsInRound_turnMessages (turns : List Turn) (turn_idx : ℕ)
    (hknown : ∀ msg ∈ turnMessages serde turn_idx turns, ∀ id ∈ msg.callIds, id ∈ known_ids)
    (round : List String) :
    ResultsInRound known_ids round (turnMessages serde turn_idx turns) := by
  induction turns generalizing turn_idx round with
  | nil => trivial
  | cons turn turns ih =>
    rw [turnMessages] at hknown ⊢
    obtain ⟨hturn, hturns⟩ := List.forall_mem_append.mp hknown
    exact resultsInRound_messages serde hturn (ih (turn_idx + 1) hturns) round

theorem mem_contextResults_of_tool {turn : Turn} {turn_idx : ℕ} {msg : ChatMessage}
    (hmsg : msg ∈ turn.messages serde turn_idx) (hrole : msg.role = .tool) :
    msg ∈ turn.tool_calls.mapIdx (contextResult serde turn_idx) := by
  obtain rfl | hmsg := List.mem_cons.mp hmsg
  · exact absurd hrole (userMessage_not_tool turn)
  · obtain hmsg | hmsg := List.mem_append.mp hmsg
    · rw [Turn.callMessages] at hmsg
      split at hmsg
      · cases hmsg
      · obtain rfl | hmsg := List.mem_cons.mp hmsg
        · cases hrole
        · exact hmsg
    · obtain ⟨response, -, rfl⟩ := Option.map_eq_some_iff.mp (Option.mem_toList.mp hmsg)
      cases hrole

theorem kept_turnMessages (turns : List Turn) (turn_idx : ℕ)
    (hknown : ∀ msg ∈ turnMessages serde turn_idx turns, ∀ id ∈ msg.callIds, id ∈ known_ids) :
    ∀ msg ∈ turnMessages serde turn_idx turns, msg.role = .tool → Llm.Kept known_ids msg := by
  induction turns generalizing turn_idx with
  | nil => exact fun msg hmsg => absurd hmsg List.not_mem_nil
  | cons turn turns ih =>
    rw [turnMessages] at hknown ⊢
    obtain ⟨hturn, hturns⟩ := List.forall_mem_append.mp hknown
    refine List.forall_mem_append.mpr ⟨fun msg hmsg hrole => ?_, ih (turn_idx + 1) hturns⟩
    exact kept_contextResults serde hturn (mem_contextResults_of_tool serde hmsg hrole)

/-- **The messages of a thread keep the protocol of the providers**, and sanitizing leaves them as
they are. -/
theorem sanitize_messages (thread : Thread) :
    sanitizeToolMessages (thread.messages serde) = thread.messages serde ∧
      ToolProtocol (thread.messages serde) := by
  have hknown : ∀ msg ∈ thread.messages serde, ∀ id ∈ msg.callIds,
      id ∈ knownIds (thread.messages serde) :=
    fun msg hmsg id hid => List.mem_flatMap.mpr ⟨msg, hmsg, hid⟩
  have hsame : sanitizeToolMessages (thread.messages serde) = thread.messages serde := by
    refine (List.map_congr_left fun msg hmsg => ?_).trans (List.map_id _)
    by_cases hrole : msg.role = .tool
    · exact sanitizeMessage_of_kept _
        (kept_turnMessages serde thread.turns 0 hknown msg hmsg hrole)
    · rw [sanitizeMessage, if_pos hrole]
      rfl
  have hround := resultsInRound_turnMessages serde thread.turns 0 hknown []
  have hsanitized := (sanitized_iff (thread.messages serde)).mpr hround
  rw [hsame] at hsanitized
  exact ⟨hsame, hsanitized.protocol⟩

end

/-! ### Restoring -/

section

variable (serde : SerdeJson)

/-- A call as it stands in a turn that was restored. -/
def restoredContextCall (turn_idx tc_idx : ℕ) (tc : TurnToolCall) : TurnToolCall :=
  (declaredCall (contextCall turn_idx tc_idx tc)).withResult (contextContent serde tc)

/-- A turn behind `turn_idx` others, restored from its messages. -/
def Turn.restored (turn : Turn) (turn_idx : ℕ) : Turn :=
  let taken := { Turn.new turn_idx turn.user_input with
    tool_calls := turn.tool_calls.mapIdx (restoredContextCall serde turn_idx) }
  match turn.response with
  | some response => taken.conclude (.completed response)
  | none => taken

/-- What follows a turn: nothing, or the user. -/
def Anchored (rest : List ChatMessage) : Prop := ∀ msg ∈ rest.head?, msg.role = .user

theorem anchored_turnMessages (turn_idx : ℕ) (turns : List Turn) :
    Anchored (turnMessages serde turn_idx turns) := by
  cases turns with
  | nil => exact fun msg hmsg => by cases hmsg
  | cons turn turns =>
    intro msg hmsg
    rw [← Option.some.inj hmsg]
    exact (userMessage_fields turn).1

/-- No round is taken where the user speaks, or the assistant without calls. -/
theorem takeRounds_stop {turn : Turn} {rest : List ChatMessage}
    (h : ∀ msg ∈ rest.head?, msg.role = .user ∨ msg.tool_calls = none) :
    takeRounds turn rest = (turn, rest) := by
  cases rest with
  | nil => rw [takeRounds]
  | cons next rest =>
    rw [takeRounds]
    split
    case h_1 tool_calls hrole hcalls =>
      obtain huser | hnone := h next rfl
      · rw [huser] at hrole
        cases hrole
      · rw [hnone] at hcalls
        cases hcalls
    case h_2 => rfl

/-- The response of a turn is taken, if it has one. -/
theorem takeResponse_response {turn : Turn} {response : Option (List Char)}
    {rest : List ChatMessage} (h : Anchored rest) :
    takeResponse turn ((response.map ChatMessage.assistant).toList ++ rest) =
      ((response.elim turn fun response => turn.conclude (.completed response)), rest) := by
  cases response with
  | some response =>
    rw [Option.map_some, Option.toList_some, List.singleton_append, takeResponse,
      if_pos ⟨rfl, rfl⟩]
    rfl
  | none =>
    cases rest with
    | nil => rfl
    | cons next rest =>
      have huser : next.role = .user := h next rfl
      exact if_neg fun hassistant => by rw [huser] at hassistant; cases hassistant.1

/-- The calls of a turn are recorded with what the model got of them. -/
theorem recordRound_contextCalls {taken turn : Turn} {turn_idx : ℕ} (h : taken.tool_calls = []) :
    taken.recordRound (turn.tool_calls.mapIdx (contextCall turn_idx))
        (turn.tool_calls.mapIdx (contextResult serde turn_idx)) =
      { taken with tool_calls := turn.tool_calls.mapIdx (restoredContextCall serde turn_idx) } := by
  have hresults := recordResults_eq
    { taken with tool_calls := (turn.tool_calls.mapIdx (contextCall turn_idx)).map declaredCall } []
    ((turn.tool_calls.mapIdx (contextCall turn_idx)).map declaredCall)
    (turn.tool_calls.mapIdx (contextResult serde turn_idx)) rfl (by simp)
  rw [Turn.recordRound, foldl_recordToolCall, h, List.nil_append, List.length_nil]
  rw [List.length_nil] at hresults
  rw [hresults, List.nil_append]
  congr 1
  refine List.ext_getElem (by simp) fun i hi hi' => ?_
  simp [restoredContextCall, contextResult, ChatMessage.toolResult]

/-- What stands behind the calls of a turn is no round. -/
theorem not_round_of_anchored (response : Option (List Char)) {rest : List ChatMessage}
    (hrest : Anchored rest) :
    ∀ msg ∈ ((response.map ChatMessage.assistant).toList ++ rest).head?,
      msg.role ≠ .tool ∧ (msg.role = .user ∨ msg.tool_calls = none) := by
  intro msg hmsg
  cases response with
  | some response =>
    rw [← Option.some.inj hmsg]
    exact ⟨(fun h => by cases h), .inr rfl⟩
  | none =>
    have huser := hrest msg hmsg
    exact ⟨(fun h => by rw [huser] at h; cases h), .inl huser⟩

theorem takeRounds_callMessages {taken turn : Turn} {turn_idx : ℕ} {rest : List ChatMessage}
    (h : taken.tool_calls = []) (hrest : Anchored rest) :
    takeRounds taken (turn.callMessages serde turn_idx ++
        ((turn.response.map ChatMessage.assistant).toList ++ rest)) =
      ({ taken with tool_calls := turn.tool_calls.mapIdx (restoredContextCall serde turn_idx) },
        (turn.response.map ChatMessage.assistant).toList ++ rest) := by
  have hround := not_round_of_anchored turn.response hrest
  have hstop (taken : Turn) : takeRounds taken _ = (taken, _) :=
    takeRounds_stop fun msg hmsg => (hround msg hmsg).2
  generalize (turn.response.map ChatMessage.assistant).toList ++ rest = behind at hround hstop ⊢
  by_cases hempty : turn.tool_calls.isEmpty
  · rw [Turn.callMessages, if_pos hempty, List.nil_append, hstop, List.isEmpty_iff.mp hempty,
      List.mapIdx_nil, ← h]
  · have hcalls : turn.callMessages serde turn_idx = _ := if_neg hempty
    have htool : ∀ msg ∈ turn.tool_calls.mapIdx (contextResult serde turn_idx),
        decide (msg.role = .tool) = true :=
      fun msg hmsg => decide_eq_true (mem_contextResults serde hmsg).1
    have hbehind : behind.takeWhile (·.role = .tool) = [] ∧
        behind.dropWhile (·.role = .tool) = behind := by
      cases behind with
      | nil => exact ⟨rfl, rfl⟩
      | cons msg behind =>
        have hrole := (hround msg rfl).1
        exact ⟨List.takeWhile_cons_of_neg (by simpa using hrole),
          List.dropWhile_cons_of_neg (by simpa using hrole)⟩
    have hdeclared : (turn.tool_calls.mapIdx (contextCall turn_idx)).isEmpty = false := by
      rw [List.isEmpty_eq_false_iff]
      intro hnil
      exact hempty (List.isEmpty_iff.mpr (List.mapIdx_eq_nil_iff.mp hnil))
    rw [hcalls, List.cons_append, takeRounds]
    simp only [ChatMessage.assistantWithToolCalls, hdeclared, Bool.false_eq_true, if_false]
    rw [List.takeWhile_append_of_pos htool, List.dropWhile_append_of_pos htool, hbehind.1,
      hbehind.2, List.append_nil, recordRound_contextCalls serde h, hstop]

theorem restoreTurns_messages {turn : Turn} {turn_idx : ℕ} {rest : List ChatMessage}
    (hrest : Anchored rest) :
    restoreTurns turn_idx (turn.messages serde turn_idx ++ rest) =
      turn.restored serde turn_idx :: restoreTurns (turn_idx + 1) rest := by
  obtain ⟨huser, hcontent, -⟩ := userMessage_fields turn
  rw [Turn.messages, List.cons_append, List.append_assoc, restoreTurns, if_pos huser]
  dsimp only
  rw [hcontent, takeRounds_callMessages serde rfl hrest]
  dsimp only
  rw [takeResponse_response hrest, Turn.restored]
  cases turn.response <;> rfl

/-- Turns behind `turn_idx` others, each restored from its messages. -/
def restoredTurns : (turn_idx : ℕ) → List Turn → List Turn
  | _, [] => []
  | turn_idx, turn :: turns => turn.restored serde turn_idx :: restoredTurns (turn_idx + 1) turns

theorem restoreTurns_turnMessages (turns : List Turn) (turn_idx : ℕ) :
    restoreTurns turn_idx (turnMessages serde turn_idx turns) =
      restoredTurns serde turn_idx turns := by
  induction turns generalizing turn_idx with
  | nil => rw [turnMessages, restoreTurns, restoredTurns]
  | cons turn turns ih =>
    rw [turnMessages, restoreTurns_messages serde (anchored_turnMessages serde _ _), ih,
      restoredTurns]

/-! ### The messages again -/

/-- What the model gets of a content that stands in a result. -/
def reread (content : List Char) : List Char :=
  match GeneratedImageSentinel.fromValue serde (.string (String.ofList content)) with
  | some sentinel => sentinel.summaryForContext.toList
  | none => truncatePreview content 1000

theorem contextContent_restored (turn_idx tc_idx : ℕ) (tc : TurnToolCall) :
    contextContent serde (restoredContextCall serde turn_idx tc_idx tc) =
      reread serde (contextContent serde tc) := by
  have htext : resultText serde (.string (String.ofList (contextContent serde tc))) =
      contextContent serde tc := String.toList_ofList
  show (match GeneratedImageSentinel.fromValue serde
      (.string (String.ofList (contextContent serde tc))) with
    | some sentinel => sentinel.summaryForContext.toList
    | none => truncatePreview
        (resultText serde (.string (String.ofList (contextContent serde tc)))) 1000) = _
  rw [htext]
  rfl

/-- A content that reads the same a second time. -/
def Settled (tc : TurnToolCall) : Prop :=
  reread serde (contextContent serde tc) = contextContent serde tc

/-- The images are not restored. -/
theorem restored_userMessage (turn : Turn) (turn_idx : ℕ) :
    (turn.restored serde turn_idx).userMessage = .user turn.user_input := by
  rw [Turn.restored]
  cases turn.response <;> rfl

theorem userMessage_eq_user_iff (turn : Turn) :
    .user turn.user_input = turn.userMessage ↔ turn.image_content_parts = [] := by
  rw [Turn.userMessage]
  split
  case isTrue h => exact iff_of_true rfl (List.isEmpty_iff.mp h)
  case isFalse h =>
    refine iff_of_false (fun heq => h ?_) fun hnil => h (List.isEmpty_iff.mpr hnil)
    exact List.isEmpty_iff.mpr (congrArg ChatMessage.content_parts heq).symm

theorem restored_response (turn : Turn) (turn_idx : ℕ) :
    (turn.restored serde turn_idx).response = turn.response := by
  rw [Turn.restored]
  cases turn.response <;> rfl

theorem restored_tool_calls (turn : Turn) (turn_idx : ℕ) :
    (turn.restored serde turn_idx).tool_calls =
      turn.tool_calls.mapIdx (restoredContextCall serde turn_idx) := by
  rw [Turn.restored]
  cases turn.response <;> rfl

/-- The messages of a turn that was restored, with the contents read again. -/
theorem callMessages_restored (turn : Turn) (turn_idx : ℕ) :
    (turn.restored serde turn_idx).callMessages serde turn_idx =
      if turn.tool_calls.isEmpty then []
      else .assistantWithToolCalls none (turn.tool_calls.mapIdx (contextCall turn_idx)) ::
        turn.tool_calls.mapIdx fun i tc =>
          .toolResult (generateToolCallId turn_idx i) tc.name
            (reread serde (contextContent serde tc)) := by
  have hempty : (turn.tool_calls.mapIdx (restoredContextCall serde turn_idx)).isEmpty =
      turn.tool_calls.isEmpty := by
    cases turn.tool_calls <;> simp
  rw [Turn.callMessages, restored_tool_calls, hempty, List.mapIdx_mapIdx, List.mapIdx_mapIdx]
  congr 3
  funext i tc
  exact congrArg (ChatMessage.toolResult _ _) (contextContent_restored serde turn_idx i tc)

theorem length_messages_restored (turn : Turn) (turn_idx : ℕ) :
    ((turn.restored serde turn_idx).messages serde turn_idx).length =
      (turn.messages serde turn_idx).length := by
  rw [Turn.messages, Turn.messages, callMessages_restored, Turn.callMessages, restored_response]
  split <;> simp

/-- A turn without images whose results are settled. -/
def Turn.Settled (turn : Turn) : Prop :=
  turn.image_content_parts = [] ∧ ∀ tc ∈ turn.tool_calls, Agent.Settled serde tc

theorem messages_restored_iff (turn : Turn) (turn_idx : ℕ) :
    (turn.restored serde turn_idx).messages serde turn_idx = turn.messages serde turn_idx ↔
      turn.Settled serde := by
  rw [Turn.messages, Turn.messages, callMessages_restored, Turn.callMessages, restored_response,
    restored_userMessage, List.cons.injEq, userMessage_eq_user_iff, List.append_left_inj]
  refine and_congr_right fun _ => ?_
  split
  case isTrue hempty =>
    rw [List.isEmpty_iff.mp hempty]
    exact iff_of_true rfl fun tc htc => by cases htc
  case isFalse =>
    rw [List.cons_inj_right, List.mapIdx_eq_mapIdx_iff]
    constructor
    · intro h tc htc
      obtain ⟨i, hi, rfl⟩ := List.getElem_of_mem htc
      exact congrArg ChatMessage.content (h i hi)
    · intro h i hi
      exact congrArg (ChatMessage.toolResult _ _) (h _ (List.getElem_mem hi))

theorem turnMessages_restored_iff (turns : List Turn) (turn_idx : ℕ) :
    turnMessages serde turn_idx (restoredTurns serde turn_idx turns) =
        turnMessages serde turn_idx turns ↔
      ∀ turn ∈ turns, turn.Settled serde := by
  induction turns generalizing turn_idx with
  | nil => exact iff_of_true rfl fun turn hturn => by cases hturn
  | cons turn turns ih =>
    rw [restoredTurns, turnMessages, turnMessages, List.forall_mem_cons, ← ih (turn_idx + 1),
      ← messages_restored_iff serde turn turn_idx]
    constructor
    · exact fun h => List.append_inj h (length_messages_restored serde turn turn_idx)
    · exact fun h => by rw [h.1, h.2]

/-- **A thread comes back from its messages**, with the same messages, exactly if no turn has images
with it and no result of a tool reads differently the second time. -/
theorem messages_restore_iff (thread : Thread) :
    (thread.restoreFromMessages (thread.messages serde)).messages serde = thread.messages serde ↔
      ∀ turn ∈ thread.turns, turn.Settled serde := by
  rw [Thread.restoreFromMessages, Thread.messages, Thread.messages, restoreTurns_turnMessages]
  exact turnMessages_restored_iff serde thread.turns 0

end

end T3Claw.Agent
