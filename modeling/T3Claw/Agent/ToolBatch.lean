import T3Claw.Agent.History
import T3Claw.Hooks.ToolCall

/-!
# The tool calls of a chat

`execute_tool_calls` of `agent/dispatcher.rs` and what `process_approval` of `agent/thread_ops.rs`
does once a call is approved. Calls are looked at in order, first by the hooks, then for whether
the user has to approve them; at the first that needs an approval the batch stops, and those behind
it are deferred until the user has answered. The others are run and answered in order.

Whatever the tools answer, a batch adds to the context one result for each call that it has looked
at, in the order of the calls (`executeToolCalls_spec`, `resumeApproved_spec`).
-/

namespace T3Claw.Agent

open Hooks (HookHost HookRegistry dispatch redactParams)
open Llm (ChatMessage ToolCall)

/-! ### Tools and approvals -/

/-- `ApprovalRequirement`. -/
inductive ApprovalRequirement where
  | never
  | unlessAutoApproved
  | always
  deriving DecidableEq

/-- What a chat uses of a tool. -/
structure Tool where
  description : String
  sensitive_params : List String
  requires_approval : Value → ApprovalRequirement

/-- An auth prompt, with the extension that it is for. -/
structure AuthPrompt where
  extension_name : String
  instructions : Option String
  auth_url : Option String
  setup_url : Option String
  awaiting_token : Bool

/-- `PendingApproval`. -/
structure PendingApproval where
  request_id : ℕ
  tool_name : String
  parameters : Value
  display_parameters : Value
  description : String
  tool_call_id : String
  context_messages : List ChatMessage
  deferred_tool_calls : List ToolCall
  selected_auth_prompt : Option AuthPrompt
  user_timezone : Option String
  allow_always : Bool

/-- The call that waits. -/
def PendingApproval.call (p : PendingApproval) : ToolCall :=
  ⟨p.tool_call_id, p.tool_name, p.parameters, none⟩

/-- What is used of other parts: what the safety layer makes of a text and of a result, what a
generated image is recorded and told as, the auth prompt in a result, and the check of a name that
was stored. -/
structure ChatHost extends HookHost where
  sanitize_tool_output : String → String → String
  process_tool_result : String → Except String String → String
  image_result : String → String → Option (String × String)
  extract_auth_prompt : String → Except String String → Option AuthPrompt
  valid_extension_name : String → Bool

/-- What a batch meets: the hooks and tools that are registered, the configuration, the message that
it answers, what becomes of the task at a place, nothing where it panics, and the id of a request
for an approval. -/
structure BatchEnv where
  hooks : HookRegistry
  tools : String → Option Tool
  auto_approve_tools : Bool
  user_id : String
  channel : String
  metadata : Value
  user_tz : String
  execute : ℕ → ToolCall → Option (Except String String)
  request_id : ℕ

namespace BatchEnv

/-- The sensitive parameters of a tool, none where it is not known. -/
def sensitiveParams (E : BatchEnv) (tool_name : String) : List String :=
  ((E.tools tool_name).map (·.sensitive_params)).getD []

/-- Whether a call needs an approval, with its tool and whether the approval may be for good. -/
def needsApproval (E : BatchEnv) (auto_approved_tools : List String) (tc : ToolCall) :
    Option (Tool × Bool) :=
  if E.auto_approve_tools then none
  else
    (E.tools tc.name).bind fun tool =>
      match tool.requires_approval tc.arguments with
      | .never => none
      | .unlessAutoApproved => if tc.name ∈ auto_approved_tools then none else some (tool, true)
      | .always => some (tool, false)

/-- A channel that is shared: a relay, and the message is no direct one. -/
def isShared (E : BatchEnv) : Bool :=
  "-relay".toList.isSuffixOf E.channel.toList &&
    (E.metadata.get? "event_type").bind Value.asStr? != some "direct_message"

/-- The result of a call at a place. -/
def result (E : BatchEnv) (place : ℕ) (tc : ToolCall) : Except String String :=
  (E.execute place tc).getD <| .error <|
    "Tool " ++ tc.name ++ " execution failed: Task failed during execution"

end BatchEnv

/-! ### Records -/

/-- The record of a call by its id, else the first call that has neither result nor error. -/
def Turn.recordFor (turn : Turn) (tool_call_id : String) (set : TurnToolCall → TurnToolCall) :
    Turn :=
  let place := (turn.tool_calls.findIdx? (·.tool_call_id = some tool_call_id)).or
    (turn.tool_calls.findIdx? fun call => call.result.isNone ∧ call.error.isNone)
  match place with
  | some i => { turn with tool_calls := turn.tool_calls.modify i set }
  | none => turn

/-- `record_tool_result_for`. -/
def Turn.recordToolResultFor (turn : Turn) (tool_call_id : String) (result : Value) : Turn :=
  turn.recordFor tool_call_id fun call => { call with result := some result }

/-- `record_tool_error_for`. -/
def Turn.recordToolErrorFor (turn : Turn) (tool_call_id : String) (error : List Char) : Turn :=
  turn.recordFor tool_call_id fun call => { call with error := some error }

/-- What is done to the last turn of a thread. -/
def Thread.onLastTurn (thread : Thread) (f : Turn → Turn) : Thread :=
  { thread with turns := thread.turns.modify (thread.turns.length - 1) f }

/-! ### Answers -/

/-- What a batch works on, and the calls that it has run. -/
structure Flight where
  thread : Thread
  messages : List ChatMessage
  selected_auth_prompt : Option AuthPrompt
  tool_failure_count : ℕ
  ran : List ToolCall

section

variable (host : ChatHost)

/-- What a chat records of a result, and what the model is told. -/
def chatContents (tool_name : String) : Except String String → String × String
  | .ok output =>
    (host.image_result tool_name output).getD
      (host.process_tool_result tool_name (.ok output),
        host.process_tool_result tool_name (.ok output))
  | .error err =>
    (host.process_tool_result tool_name (.error err),
      host.process_tool_result tool_name (.error err))

/-- The same behind an approval, where images are not looked for. -/
def deferredContents (tool_name : String) (result : Except String String) : String × String :=
  (host.process_tool_result tool_name result, host.process_tool_result tool_name result)

/-- A result is recorded and told; an auth prompt is taken out of it if there is none yet. -/
def Flight.answer (st : Flight) (contents : String → Except String String → String × String)
    (tc : ToolCall) (result : Except String String) : Flight where
  thread := st.thread.onLastTurn fun turn =>
    match result with
    | .ok _ => turn.recordToolResultFor tc.id (.string (contents tc.name result).1)
    | .error _ => turn.recordToolErrorFor tc.id (contents tc.name result).1.toList
  messages := st.messages ++ [.toolResult tc.id tc.name (contents tc.name result).2.toList]
  selected_auth_prompt := st.selected_auth_prompt.or (host.extract_auth_prompt tc.name result)
  tool_failure_count :=
    match result with
    | .ok _ => st.tool_failure_count
    | .error _ => st.tool_failure_count + 1
  ran := st.ran ++ [tc]

/-- A call that was rejected is told with the reason. -/
def Flight.reject (st : Flight) (tc : ToolCall) (error_msg : String) : Flight where
  thread := st.thread.onLastTurn fun turn =>
    turn.recordToolErrorFor tc.id (host.process_tool_result tc.name (.error error_msg)).toList
  messages := st.messages ++
    [.toolResult tc.id tc.name (host.process_tool_result tc.name (.error error_msg)).toList]
  selected_auth_prompt := st.selected_auth_prompt
  tool_failure_count := st.tool_failure_count + 1
  ran := st.ran

/-! ### Preflight -/

/-- `PreflightOutcome`. -/
inductive PreflightOutcome where
  | rejected (error_msg : String)
  | runnable

/-- The call at which a batch stops, and those that are deferred behind it. -/
structure Asked where
  tc : ToolCall
  tool : Tool
  allow_always : Bool
  deferred : List ToolCall

/-- The calls in order, up to the first that needs an approval. -/
def preflight (E : BatchEnv) (auto_approved_tools : List String) :
    List ToolCall → List (ToolCall × PreflightOutcome) × Option Asked
  | [] => ([], none)
  | original_tc :: rest =>
    let behind := preflight E auto_approved_tools rest
    match dispatch host.toHookHost E.hooks (E.sensitiveParams original_tc.name) E.user_id
        original_tc.name original_tc.arguments with
    | .error error_msg => ((original_tc, .rejected error_msg) :: behind.1, behind.2)
    | .ok arguments =>
      let tc := { original_tc with arguments }
      match E.needsApproval auto_approved_tools tc with
      | none => ((tc, .runnable) :: behind.1, behind.2)
      | some (tool, allow_always) =>
        if E.isShared then
          ((tc, .rejected ("Tool '" ++ tc.name ++
            "' requires approval and cannot run in shared channels. " ++
            "Ask the user to message me directly (DM) to use this tool.")) :: behind.1, behind.2)
        else ([], some ⟨tc, tool, allow_always, rest⟩)

/-- The calls behind an approval, up to the first that needs another one. The hooks are not asked
again. -/
def deferredPreflight (E : BatchEnv) (auto_approved_tools : List String) :
    List ToolCall → List ToolCall × Option Asked
  | [] => ([], none)
  | tc :: rest =>
    match E.needsApproval auto_approved_tools tc with
    | some (tool, allow_always) => ([], some ⟨tc, tool, allow_always, rest⟩)
    | none =>
      let behind := deferredPreflight E auto_approved_tools rest
      (tc :: behind.1, behind.2)

/-- What is answered in order, from a place on. -/
def answerAll (E : BatchEnv) : ℕ → List (ToolCall × PreflightOutcome) → Flight → Flight
  | _, [], st => st
  | pf_idx, (tc, .rejected error_msg) :: rest, st =>
    answerAll E (pf_idx + 1) rest (st.reject host tc error_msg)
  | pf_idx, (tc, .runnable) :: rest, st =>
    answerAll E (pf_idx + 1) rest (st.answer host (chatContents host) tc (E.result pf_idx tc))

/-- The same behind an approval. -/
def answerDeferred (E : BatchEnv) : ℕ → List ToolCall → Flight → Flight
  | _, [], st => st
  | idx, tc :: rest, st =>
    answerDeferred E (idx + 1) rest
      (st.answer host (deferredContents host) tc (E.result idx tc))

/-! ### Batches -/

/-- How a batch ends. -/
inductive BatchOutcome where
  | needApproval (pending : PendingApproval)
  | authPending (prompt : AuthPrompt)
  | goOn

/-- The request for an approval. -/
def Asked.pending (asked : Asked) (E : BatchEnv) (user_timezone : Option String) (st : Flight) :
    PendingApproval where
  request_id := E.request_id
  tool_name := asked.tc.name
  parameters := asked.tc.arguments
  display_parameters := redactParams asked.tc.arguments asked.tool.sensitive_params
  description := asked.tool.description
  tool_call_id := asked.tc.id
  context_messages := st.messages
  deferred_tool_calls := asked.deferred
  selected_auth_prompt := st.selected_auth_prompt
  user_timezone
  allow_always := asked.allow_always

/-- An approval comes before an auth prompt, and a prompt that awaits a token before the model. -/
def batchOutcome (E : BatchEnv) (user_timezone : Option String) (approval_needed : Option Asked)
    (st : Flight) : BatchOutcome :=
  match approval_needed, st.selected_auth_prompt with
  | some asked, _ => .needApproval (asked.pending E user_timezone st)
  | none, some prompt => if prompt.awaiting_token then .authPending prompt else .goOn
  | none, none => .goOn

/-- The narrative of a turn. -/
def narrativeOf (content : Option (List Char)) : Option (List Char) :=
  ((content.filter fun c => Text.trim c ≠ []).map fun c =>
    (host.sanitize_tool_output "agent_narrative" (String.ofList c)).toList).filter
      fun c => Text.trim c ≠ []

/-- The calls are recorded before they are run, without what is sensitive. -/
def Turn.recordCalls (turn : Turn) (E : BatchEnv) (narrative : Option (List Char))
    (tool_calls : List ToolCall) : Turn :=
  tool_calls.foldl (fun turn tc =>
      turn.recordToolCallWithReasoning tc.name
        (redactParams tc.arguments (E.sensitiveParams tc.name))
        (tc.reasoning.map (host.sanitize_tool_output "tool_rationale")) (some tc.id))
    { turn with narrative := turn.narrative.or narrative }

/-- `execute_tool_calls`. -/
def Chat.executeToolCalls (E : BatchEnv) (auto_approved_tools : List String) (thread : Thread)
    (messages : List ChatMessage) (content : Option (List Char)) (tool_calls : List ToolCall) :
    Flight × BatchOutcome :=
  let start : Flight :=
    ⟨thread.onLastTurn (·.recordCalls host E (narrativeOf host content) tool_calls),
      messages ++ [.assistantWithToolCalls content tool_calls], none, 0, []⟩
  let checked := preflight host E auto_approved_tools tool_calls
  let st := answerAll host E 0 checked.1 start
  (st, batchOutcome E (some E.user_tz) checked.2 st)

/-- The part of `process_approval` behind an approval: the call is run, then those that were
deferred. -/
def resumeApproved (E : BatchEnv) (auto_approved_tools : List String) (thread : Thread)
    (pending : PendingApproval) : Flight × BatchOutcome :=
  let start : Flight :=
    ⟨thread, pending.context_messages,
      pending.selected_auth_prompt.filter (host.valid_extension_name ·.extension_name), 0, []⟩
  let approved := start.answer host (deferredContents host) pending.call (E.result 0 pending.call)
  let checked := deferredPreflight E auto_approved_tools pending.deferred_tool_calls
  let st := answerDeferred host E 1 checked.1 approved
  (st, batchOutcome E pending.user_timezone checked.2 st)

/-! ### What a batch does -/

/-- What a batch is given: the messages so far, and what the model has answered. -/
structure Batch where
  messages : List ChatMessage
  content : Option (List Char)
  tool_calls : List ToolCall

/-- Behind the message with the calls of a batch stand the answers to them, in order, but for those
owed. -/
def Batch.Owing (batch : Batch) (messages : List ChatMessage) (owed : List String) : Prop :=
  ∃ results : List ChatMessage,
    messages =
        batch.messages ++ .assistantWithToolCalls batch.content batch.tool_calls :: results ∧
      (∀ msg ∈ results, msg.role = .tool) ∧
      results.map (·.tool_call_id) ++ owed.map some = batch.tool_calls.map fun call => some call.id

variable {host}

/-- The next call that is owed an answer gets it. -/
theorem Batch.Owing.answer {batch : Batch} {messages : List ChatMessage} {id : String}
    {owed : List String} (h : batch.Owing messages (id :: owed)) (name : String)
    (content : List Char) : batch.Owing (messages ++ [.toolResult id name content]) owed := by
  obtain ⟨results, rfl, htool, hids⟩ := h
  refine ⟨results ++ [.toolResult id name content], ?_, ?_, ?_⟩
  · rw [List.append_assoc, List.cons_append]
  · intro msg hmsg
    obtain hmsg | hmsg := List.mem_append.mp hmsg
    · exact htool msg hmsg
    · rw [List.mem_singleton.mp hmsg]
      rfl
  · rw [← hids, List.map_append, List.append_assoc]
    rfl

variable {E : BatchEnv} {auto_approved_tools : List String} {st : Flight} {waiting : List String}
  {batch : Batch}

/-- The calls of a preflight that are run. -/
def runnable (checked : List (ToolCall × PreflightOutcome)) : List ToolCall :=
  checked.filterMap fun
    | (tc, .runnable) => some tc
    | (_, .rejected _) => none

theorem answerAll_spec (checked : List (ToolCall × PreflightOutcome)) (pf_idx : ℕ)
    (h : batch.Owing st.messages (checked.map (·.1.id) ++ waiting)) :
    batch.Owing (answerAll host E pf_idx checked st).messages waiting ∧
      (answerAll host E pf_idx checked st).ran = st.ran ++ runnable checked ∧
      (answerAll host E pf_idx checked st).thread.state = st.thread.state := by
  induction checked generalizing st pf_idx with
  | nil => exact ⟨h, (List.append_nil _).symm, rfl⟩
  | cons entry rest ih =>
    obtain ⟨tc, rejected | runnable⟩ := entry
    · have hnext : batch.Owing (st.reject host tc rejected).messages
          (rest.map (·.1.id) ++ waiting) := h.answer _ _
      exact ih (pf_idx + 1) hnext
    · have hnext : batch.Owing
          (st.answer host (chatContents host) tc (E.result pf_idx tc)).messages
          (rest.map (·.1.id) ++ waiting) := h.answer _ _
      obtain ⟨howing, hran, hstate⟩ := ih (pf_idx + 1) hnext
      exact ⟨howing, hran.trans (List.append_assoc _ _ _), hstate⟩

theorem answerDeferred_spec (calls : List ToolCall) (idx : ℕ)
    (h : batch.Owing st.messages (calls.map (·.id) ++ waiting)) :
    batch.Owing (answerDeferred host E idx calls st).messages waiting ∧
      (answerDeferred host E idx calls st).ran = st.ran ++ calls ∧
      (answerDeferred host E idx calls st).thread.state = st.thread.state := by
  induction calls generalizing st idx with
  | nil => exact ⟨h, (List.append_nil _).symm, rfl⟩
  | cons tc rest ih =>
    have hnext : batch.Owing
        (st.answer host (deferredContents host) tc (E.result idx tc)).messages
        (rest.map (·.id) ++ waiting) := h.answer _ _
    obtain ⟨howing, hran, hstate⟩ := ih (idx + 1) hnext
    exact ⟨howing, hran.trans (List.append_assoc _ _ _), hstate⟩

/-- The calls that a preflight leaves, by their ids. -/
def Asked.owed : Option Asked → List String
  | some asked => asked.tc.id :: asked.deferred.map (·.id)
  | none => []

/-- A call that the hooks have let through. -/
def Hooked (host : ChatHost) (E : BatchEnv) (tc : ToolCall) : Prop :=
  ∃ arguments, dispatch host.toHookHost E.hooks (E.sensitiveParams tc.name) E.user_id tc.name
    arguments = .ok tc.arguments

/-- A preflight accounts for each call, and lets run what the hooks let through and needs no
approval. -/
theorem preflight_spec (calls : List ToolCall) :
    let checked := preflight host E auto_approved_tools calls
    checked.1.map (·.1.id) ++ Asked.owed checked.2 = calls.map (·.id) ∧
      ∀ tc ∈ runnable checked.1,
        Hooked host E tc ∧ E.needsApproval auto_approved_tools tc = none := by
  induction calls with
  | nil => exact ⟨rfl, fun tc h => (List.not_mem_nil h).elim⟩
  | cons original_tc rest ih =>
    obtain ⟨hids, hfree⟩ := ih
    dsimp only
    rw [preflight]
    split
    case h_1 error_msg hdispatch => exact ⟨congrArg (original_tc.id :: ·) hids, hfree⟩
    case h_2 arguments hdispatch =>
      dsimp only
      cases hneeds : E.needsApproval auto_approved_tools { original_tc with arguments } with
      | none =>
        refine ⟨congrArg (original_tc.id :: ·) hids, ?_⟩
        exact List.forall_mem_cons.mpr ⟨⟨⟨_, hdispatch⟩, hneeds⟩, hfree⟩
      | some needs =>
        dsimp only
        split
        · exact ⟨congrArg (original_tc.id :: ·) hids, hfree⟩
        · exact ⟨rfl, fun tc h => (List.not_mem_nil h).elim⟩

theorem deferredPreflight_spec (calls : List ToolCall) :
    let checked := deferredPreflight E auto_approved_tools calls
    checked.1.map (·.id) ++ Asked.owed checked.2 = calls.map (·.id) ∧
      ∀ tc ∈ checked.1, tc ∈ calls ∧ E.needsApproval auto_approved_tools tc = none := by
  induction calls with
  | nil => exact ⟨rfl, fun tc h => (List.not_mem_nil h).elim⟩
  | cons tc rest ih =>
    obtain ⟨hids, hfree⟩ := ih
    dsimp only
    rw [deferredPreflight]
    split
    case h_1 tool allow_always hneeds => exact ⟨rfl, fun tc h => (List.not_mem_nil h).elim⟩
    case h_2 hnone =>
      refine ⟨congrArg (tc.id :: ·) hids, ?_⟩
      refine List.forall_mem_cons.mpr ⟨⟨List.mem_cons_self, hnone⟩, fun tc' htc' => ?_⟩
      exact (hfree tc' htc').imp_left (List.mem_cons_of_mem _)

/-- The calls that a request for an approval waits with: its own and those deferred behind it. -/
def PendingApproval.owed (p : PendingApproval) : List String :=
  p.tool_call_id :: p.deferred_tool_calls.map (·.id)

/-- How the context is left: with what a request owes, or with nothing owed. -/
structure Landed (E : BatchEnv) (batch : Batch) (landed : Flight × BatchOutcome) : Prop where
  pause : ∀ p, landed.2 = .needApproval p →
    p.request_id = E.request_id ∧ batch.Owing p.context_messages p.owed
  goOn : landed.2 = .goOn → batch.Owing landed.1.messages []

theorem landed_batchOutcome (user_timezone : Option String) (approval_needed : Option Asked)
    (h : batch.Owing st.messages (Asked.owed approval_needed)) :
    Landed E batch (st, batchOutcome E user_timezone approval_needed st) := by
  cases approval_needed with
  | some asked =>
    refine ⟨fun p hp => ?_, fun hgo => by cases hgo⟩
    obtain rfl := BatchOutcome.needApproval.inj hp
    exact ⟨rfl, h⟩
  | none =>
    refine ⟨fun p hp => ?_, fun _ => h⟩
    cases hprompt : st.selected_auth_prompt with
    | none =>
      simp [batchOutcome, hprompt] at hp
    | some prompt =>
      simp only [batchOutcome, hprompt] at hp
      split at hp <;> cases hp

/-- A batch runs what the hooks let through and needs no approval, and answers all that it does not
wait with. -/
theorem executeToolCalls_spec (thread : Thread) (messages : List ChatMessage)
    (content : Option (List Char)) (tool_calls : List ToolCall) :
    let landed :=
      Chat.executeToolCalls host E auto_approved_tools thread messages content tool_calls
    landed.1.thread.state = thread.state ∧
      (∀ tc ∈ landed.1.ran, Hooked host E tc ∧ E.needsApproval auto_approved_tools tc = none) ∧
      Landed E ⟨messages, content, tool_calls⟩ landed := by
  obtain ⟨hids, hfree⟩ := @preflight_spec host E auto_approved_tools tool_calls
  have hstart : Batch.Owing ⟨messages, content, tool_calls⟩
      (messages ++ [.assistantWithToolCalls content tool_calls])
      ((preflight host E auto_approved_tools tool_calls).1.map (·.1.id) ++
        Asked.owed (preflight host E auto_approved_tools tool_calls).2) := by
    refine ⟨[], rfl, fun msg h => (List.not_mem_nil h).elim, ?_⟩
    rw [hids, List.map_nil, List.nil_append, List.map_map]
    rfl
  let start : Flight :=
    ⟨thread.onLastTurn (·.recordCalls host E (narrativeOf host content) tool_calls),
      messages ++ [.assistantWithToolCalls content tool_calls], none, 0, []⟩
  obtain ⟨howing, hran, hstate⟩ := @answerAll_spec host E start _ _ _ 0 hstart
  refine ⟨hstate, fun tc htc => hfree tc ?_, landed_batchOutcome _ _ howing⟩
  exact (List.mem_append.mp (hran ▸ htc)).resolve_left List.not_mem_nil

/-- Behind an approval the call is run that was approved, and then calls that were deferred and need
no approval. -/
theorem resumeApproved_spec (thread : Thread) (pending : PendingApproval)
    (h : batch.Owing pending.context_messages pending.owed) :
    let landed := resumeApproved host E auto_approved_tools thread pending
    landed.1.thread.state = thread.state ∧
      (∃ rest, landed.1.ran = pending.call :: rest ∧ ∀ tc ∈ rest,
        tc ∈ pending.deferred_tool_calls ∧ E.needsApproval auto_approved_tools tc = none) ∧
      Landed E batch landed := by
  obtain ⟨hids, hfree⟩ :=
    @deferredPreflight_spec E auto_approved_tools pending.deferred_tool_calls
  let start : Flight :=
    ⟨thread, pending.context_messages,
      pending.selected_auth_prompt.filter (host.valid_extension_name ·.extension_name), 0, []⟩
  let approved := start.answer host (deferredContents host) pending.call (E.result 0 pending.call)
  have hanswered : batch.Owing approved.messages
      ((deferredPreflight E auto_approved_tools pending.deferred_tool_calls).1.map (·.id) ++
        Asked.owed (deferredPreflight E auto_approved_tools pending.deferred_tool_calls).2) := by
    rw [hids]
    exact h.answer _ _
  obtain ⟨howing, hran, hstate⟩ := @answerDeferred_spec host E approved _ _ _ 1 hanswered
  exact ⟨hstate, ⟨_, hran, hfree⟩, landed_batchOutcome _ _ howing⟩

end

end T3Claw.Agent
