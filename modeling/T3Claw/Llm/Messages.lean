import T3Claw.Types.Value

/-!
# Messages to a provider

`llm/provider.rs`: the messages of a request, and `sanitize_tool_messages`, which every provider
calls on them. A tool result whose call no message of the list declares becomes a message of the
user; where in the list the declaration stands is not looked at. So the messages keep the
protocol of the providers, each result under the message that asked for it, exactly when every
result that is declared at all already stands in its own round (`sanitized_iff`).
-/

namespace T3Claw.Llm

/-- Role in a conversation. -/
inductive Role where
  | system
  | user
  | assistant
  | tool
  deriving DecidableEq

/-- Image URL reference for multimodal content. -/
structure ImageUrl where
  url : String
  detail : Option String

/-- A part of multimodal message content. -/
inductive ContentPart where
  | text (text : String)
  | imageUrl (image_url : ImageUrl)

/-- A tool call requested by the LLM. -/
structure ToolCall where
  id : String
  name : String
  arguments : Value
  reasoning : Option String

/-- A message in a conversation. -/
structure ChatMessage where
  role : Role
  content : List Char
  content_parts : List ContentPart
  tool_call_id : Option String
  name : Option String
  tool_calls : Option (List ToolCall)

namespace ChatMessage

/-- Create a system message. -/
def system (content : List Char) : ChatMessage := ⟨.system, content, [], none, none, none⟩

/-- Create a user message. -/
def user (content : List Char) : ChatMessage := ⟨.user, content, [], none, none, none⟩

/-- Create a user message with multimodal content parts. -/
def userWithParts (content : List Char) (parts : List ContentPart) : ChatMessage :=
  ⟨.user, content, parts, none, none, none⟩

/-- Create an assistant message. -/
def assistant (content : List Char) : ChatMessage := ⟨.assistant, content, [], none, none, none⟩

/-- Create an assistant message that includes tool calls. -/
def assistantWithToolCalls (content : Option (List Char)) (tool_calls : List ToolCall) :
    ChatMessage :=
  ⟨.assistant, content.getD [], [], none, none,
    if tool_calls.isEmpty then none else some tool_calls⟩

/-- Create a tool result message. -/
def toolResult (tool_call_id name : String) (content : List Char) : ChatMessage :=
  ⟨.tool, content, [], some tool_call_id, some name, none⟩

/-- The ids of the calls that an assistant message declares. -/
def callIds (msg : ChatMessage) : List String :=
  if msg.role = .assistant then (msg.tool_calls.getD []).map ToolCall.id else []

theorem role_of_mem_callIds {msg : ChatMessage} {id : String} (h : id ∈ msg.callIds) :
    msg.role = .assistant := by
  rw [callIds] at h
  split_ifs at h with hrole
  · exact hrole
  · cases h

end ChatMessage

/-! ### Sanitizing -/

/-- `known_ids`. -/
def knownIds (messages : List ChatMessage) : List String := messages.flatMap ChatMessage.callIds

/-- `is_orphaned`. -/
def isOrphaned (known_ids : List String) (msg : ChatMessage) : Bool :=
  match msg.tool_call_id with
  | some id => !known_ids.contains id
  | none => true

/-- A tool result as a message of the user. -/
def rewriteOrphan (msg : ChatMessage) : ChatMessage :=
  { msg with
    role := .user
    content := "[Tool `".toList ++ (msg.name.getD "unknown").toList ++ "` returned: ".toList ++
      msg.content ++ "]".toList
    tool_call_id := none
    name := none }

/-- The second loop of `sanitize_tool_messages`, on one message. -/
def sanitizeMessage (known_ids : List String) (msg : ChatMessage) : ChatMessage :=
  if msg.role ≠ .tool then msg
  else if isOrphaned known_ids msg then rewriteOrphan msg
  else msg

/-- `sanitize_tool_messages`. -/
def sanitizeToolMessages (messages : List ChatMessage) : List ChatMessage :=
  messages.map (sanitizeMessage (knownIds messages))

/-! ### The protocol -/

/-- The nearest message before that is no tool result. -/
def nearestOther (front : List ChatMessage) : Option ChatMessage :=
  front.reverse.find? fun msg => msg.role ≠ .tool

/-- Every tool result has an id that the nearest message before it which is no tool result, one of
the assistant, declares. -/
def ToolProtocol (messages : List ChatMessage) : Prop :=
  ∀ front msg back, messages = front ++ msg :: back → msg.role = .tool →
    ∃ id caller, msg.tool_call_id = some id ∧ nearestOther front = some caller ∧
      caller.role = .assistant ∧ id ∈ caller.callIds

/-- What a message may become: itself, or when it is a tool result another message with its
content in it. -/
def Rewritten (msg sanitized : ChatMessage) : Prop :=
  sanitized = msg ∨ msg.role = .tool ∧ sanitized.role ≠ .tool ∧ msg.content <:+: sanitized.content

/-- What sanitizing is for. -/
structure Sanitized (messages sanitized : List ChatMessage) : Prop where
  protocol : ToolProtocol sanitized
  rewritten : List.Forall₂ Rewritten messages sanitized

/-- A tool result that keeps its role. -/
def Kept (known_ids : List String) (msg : ChatMessage) : Prop :=
  msg.role = .tool ∧ isOrphaned known_ids msg = false

instance (known_ids : List String) (msg : ChatMessage) : Decidable (Kept known_ids msg) :=
  inferInstanceAs (Decidable (_ ∧ _))

/-- The messages are read in order, `round` being the ids that the current round has declared.
Every tool result with an id that is known at all has one of the round's; any other message, also
a result that becomes one, ends the round. -/
def ResultsInRound (known_ids : List String) : List String → List ChatMessage → Prop
  | _, [] => True
  | round, msg :: rest =>
    if Kept known_ids msg then
      (∃ id ∈ round, msg.tool_call_id = some id) ∧ ResultsInRound known_ids round rest
    else ResultsInRound known_ids msg.callIds rest

section

variable (known_ids : List String) {msg : ChatMessage}

@[simp] theorem callIds_sanitizeMessage (msg : ChatMessage) :
    (sanitizeMessage known_ids msg).callIds = msg.callIds := by
  rw [sanitizeMessage]
  split_ifs with hrole horphan
  · rfl
  · rw [not_not] at hrole
    simp [ChatMessage.callIds, rewriteOrphan, hrole]
  · rfl

theorem role_sanitizeMessage :
    (sanitizeMessage known_ids msg).role = .tool ↔ Kept known_ids msg := by
  rw [sanitizeMessage, Kept]
  split_ifs with hrole horphan
  · simp [hrole]
  · simp [rewriteOrphan, horphan]
  · simp [not_not.mp hrole, horphan]

theorem sanitizeMessage_of_kept (h : Kept known_ids msg) : sanitizeMessage known_ids msg = msg := by
  rw [sanitizeMessage, if_neg (not_not.mpr h.1), if_neg (by simp [h.2])]

/-- One message: it stays, or it was a tool result and its content is in what it becomes. -/
theorem rewritten_sanitizeMessage (msg : ChatMessage) :
    Rewritten msg (sanitizeMessage known_ids msg) := by
  rw [sanitizeMessage]
  split_ifs with hrole horphan
  · exact .inl rfl
  · refine .inr ⟨not_not.mp hrole, Role.noConfusion, ?_⟩
    exact ⟨"[Tool `".toList ++ (msg.name.getD "unknown").toList ++ "` returned: ".toList,
      "]".toList, rfl⟩
  · exact .inl rfl

end

/-- No message is added, removed or moved, and none but a tool result changes. -/
theorem rewritten_sanitizeToolMessages (messages : List ChatMessage) :
    List.Forall₂ Rewritten messages (sanitizeToolMessages messages) := by
  rw [sanitizeToolMessages, List.forall₂_map_right_iff, List.forall₂_same]
  exact fun msg _ => rewritten_sanitizeMessage _ msg

/-! ### Rounds -/

/-- The ids declared in the round that is open behind `front`. -/
def openRound (front : List ChatMessage) : List String :=
  ((nearestOther front).map ChatMessage.callIds).getD []

theorem mem_openRound {front : List ChatMessage} {id : String} :
    id ∈ openRound front ↔ ∃ caller, nearestOther front = some caller ∧
      caller.role = .assistant ∧ id ∈ caller.callIds := by
  rw [openRound]
  cases hnearest : nearestOther front with
  | none => simp
  | some caller =>
    simp only [Option.map_some, Option.getD_some, Option.some.injEq, exists_eq_left']
    exact ⟨fun h => ⟨ChatMessage.role_of_mem_callIds h, h⟩, And.right⟩

/-- A tool result leaves the round open, another message opens its own. -/
theorem openRound_concat (front : List ChatMessage) (msg : ChatMessage) :
    openRound (front ++ [msg]) = if msg.role = .tool then openRound front else msg.callIds := by
  rw [openRound, nearestOther, List.reverse_append, List.reverse_singleton, List.singleton_append,
    List.find?_cons]
  by_cases hrole : msg.role = .tool
  · simp [hrole, openRound, nearestOther]
  · simp [hrole]

/-- The protocol, with the round in place of the message that declares it. -/
theorem toolProtocol_iff {messages : List ChatMessage} : ToolProtocol messages ↔
    ∀ front msg back, messages = front ++ msg :: back → msg.role = .tool →
      ∃ id ∈ openRound front, msg.tool_call_id = some id := by
  simp only [ToolProtocol, mem_openRound]
  refine forall₃_congr fun front msg back => imp_congr_right fun _ => imp_congr_right fun _ => ?_
  exact exists_congr fun id =>
    ⟨fun ⟨caller, hid, hcaller⟩ => ⟨⟨caller, hcaller⟩, hid⟩,
      fun ⟨⟨caller, hcaller⟩, hid⟩ => ⟨caller, hid, hcaller⟩⟩

/-- Reading on behind `front`, of which `open_ids` is the open round once it is sanitized. -/
theorem resultsInRound_iff (known_ids : List String) (front messages : List ChatMessage) :
    ResultsInRound known_ids (openRound (front.map (sanitizeMessage known_ids))) messages ↔
      ∀ between msg back, messages = between ++ msg :: back → Kept known_ids msg →
        ∃ id ∈ openRound ((front ++ between).map (sanitizeMessage known_ids)),
          msg.tool_call_id = some id := by
  induction messages generalizing front with
  | nil => simp [ResultsInRound]
  | cons msg rest ih =>
    have hopen : openRound ((front ++ [msg]).map (sanitizeMessage known_ids)) =
        if Kept known_ids msg then openRound (front.map (sanitizeMessage known_ids))
        else msg.callIds := by
      rw [List.map_append, List.map_singleton, openRound_concat, callIds_sanitizeMessage]
      exact if_congr (role_sanitizeMessage known_ids) rfl rfl
    have hrest := ih (front ++ [msg])
    rw [hopen] at hrest
    -- the first message is the one asked about, or stands before it
    have hsplit : (∀ between msg' back, msg :: rest = between ++ msg' :: back →
        Kept known_ids msg' → ∃ id ∈ openRound ((front ++ between).map (sanitizeMessage known_ids)),
          msg'.tool_call_id = some id) ↔
        (Kept known_ids msg → ∃ id ∈ openRound (front.map (sanitizeMessage known_ids)),
          msg.tool_call_id = some id) ∧
        ∀ between msg' back, rest = between ++ msg' :: back → Kept known_ids msg' →
          ∃ id ∈ openRound ((front ++ [msg] ++ between).map (sanitizeMessage known_ids)),
            msg'.tool_call_id = some id := by
      constructor
      · refine fun h => ⟨fun hkept => ?_, fun between msg' back hsplit hkept => ?_⟩
        · simpa using h [] msg rest rfl hkept
        · simpa using h (msg :: between) msg' back (by rw [hsplit]; rfl) hkept
      · rintro ⟨hfirst, hlater⟩ between msg' back hsplit hkept
        cases between with
        | nil =>
          obtain ⟨rfl, rfl⟩ := List.cons.inj hsplit
          simpa using hfirst hkept
        | cons first between =>
          obtain ⟨rfl, hrest⟩ := List.cons.inj hsplit
          simpa using hlater between msg' back hrest hkept
    rw [ResultsInRound, hsplit, ← hrest]
    by_cases hkept : Kept known_ids msg
    · simp only [hkept, if_true, true_imp_iff]
    · simp only [hkept, if_false, false_imp_iff, true_and]

/-- **When sanitizing establishes the protocol**: when the tool results with a known id already
stand in the round that declares it. -/
theorem sanitized_iff (messages : List ChatMessage) :
    Sanitized messages (sanitizeToolMessages messages) ↔
      ResultsInRound (knownIds messages) [] messages := by
  have hprotocol : Sanitized messages (sanitizeToolMessages messages) ↔
      ToolProtocol (sanitizeToolMessages messages) :=
    ⟨Sanitized.protocol, fun h => ⟨h, rewritten_sanitizeToolMessages messages⟩⟩
  have hround := resultsInRound_iff (knownIds messages) [] messages
  rw [List.map_nil, show openRound [] = [] from rfl] at hround
  rw [hprotocol, toolProtocol_iff, hround, sanitizeToolMessages]
  constructor
  · intro h between msg back hsplit hkept
    have hsanitized := h (between.map (sanitizeMessage (knownIds messages)))
      (sanitizeMessage (knownIds messages) msg) (back.map (sanitizeMessage (knownIds messages)))
      (by rw [← List.map_cons, ← List.map_append, ← hsplit])
      ((role_sanitizeMessage _).mpr hkept)
    rwa [sanitizeMessage_of_kept _ hkept] at hsanitized
  · intro h front msg back hsplit hrole
    obtain ⟨between, rest, hmessages, rfl, hrest⟩ := List.map_eq_append_iff.mp hsplit
    obtain ⟨original, back, rfl, rfl, rfl⟩ := List.map_eq_cons_iff.mp hrest
    have hkept := (role_sanitizeMessage _).mp hrole
    rw [sanitizeMessage_of_kept _ hkept]
    exact h between original back hmessages hkept

/-- A transcript in which the user speaks between a call and its result. -/
def interrupted : List ChatMessage :=
  [.user "hello".toList, .assistantWithToolCalls none [⟨"call_1", "echo", .null, none⟩],
    .user "wait".toList, .toolResult "call_1" "echo" "ok".toList]

/-- The result keeps its role, under a message of the user. -/
theorem not_sanitized_interrupted : ¬Sanitized interrupted (sanitizeToolMessages interrupted) := by
  intro h
  have hresult : sanitizeToolMessages interrupted = interrupted.take 3 ++
      [.toolResult "call_1" "echo" "ok".toList] := by
    simp [sanitizeToolMessages, interrupted, sanitizeMessage, isOrphaned, knownIds,
      ChatMessage.callIds, ChatMessage.user, ChatMessage.assistantWithToolCalls,
      ChatMessage.toolResult]
  obtain ⟨id, caller, -, hnearest, hrole, -⟩ := h.protocol _ _ [] hresult rfl
  have huser : nearestOther (interrupted.take 3) = some (.user "wait".toList) := rfl
  rw [huser] at hnearest
  cases hnearest
  cases hrole

end T3Claw.Llm
