import T3Claw.Llm.Provider
import T3Claw.Llm.Recovery
import T3Claw.Routines.ToolLoop

/-!
# The agentic loop of a chat

`agent/agentic_loop.rs` with the delegate of `agent/dispatcher.rs`. The loop counts its iterations
from one and keeps the counters of nudges, truncations and repeated failures; the delegate refreshes
the context before each call, by the number of the iteration, and applies the overrides of the
settings in the call.

What is asked of the model and what the tools are run with is recorded as events. The model, the
tools and the settings' database answer as they like.
-/

namespace T3Claw.Agent

open Llm (ChatMessage LlmError ToolCall ToolDefinition)
open Routines (FinishReason)
open Text (trim)

/-! ### The context -/

/-- `ReasoningContext`, as far as a chat uses it. `F` is `f32`. -/
structure ReasoningContext (F : Type) where
  messages : List ChatMessage
  available_tools : List ToolDefinition
  force_text : Bool
  system_prompt : Option (List Char)
  model_override : Option (List Char)
  temperature : Option F
  last_tool_batch_all_failed : Bool

/-- `PermissionState`. -/
inductive PermissionState where
  | alwaysAllow
  | askEachTime
  | disabled
  deriving DecidableEq

/-- What is used of other parts: the hash of a batch, the signs of an intent, what is cleaned of an
answer, the calls that are recovered from a text, the table of the tools' risks, the permissions
in a user's settings, the prompt for some tools, and `f32`. -/
structure LoopHost (F : Type) where
  hash : List (String × Value) → ℕ
  llm_signals_tool_intent : List Char → Bool
  clean : List Char → List Char
  recover_tool_calls : List Char → List ToolDefinition → List ToolCall
  strip_internal_tool_call_text : List Char → List Char
  tool_risk_defaults : String → Option PermissionState
  tool_permissions : (String → Option Value) → String → Option PermissionState
  build_system_prompt : List ToolDefinition → List Char
  as_f32 : Value → Option F
  clamp : F → F
  default_temperature : F

variable {F : Type}

/-- A message is added. -/
def ReasoningContext.push (ctx : ReasoningContext F) (msg : ChatMessage) : ReasoningContext F :=
  { ctx with messages := ctx.messages ++ [msg] }

/-! ### Settings -/

/-- The settings of the user and of the administrator. -/
structure SettingsStore where
  user : String → Option Value
  admin : String → Option Value

/-- `get_setting_with_admin_fallback`. -/
def SettingsStore.getSettingWithAdminFallback (store : SettingsStore) (key : String) :
    Option Value := (store.user key).or (store.admin key)

/-- `normalized_model_override`. -/
def normalizedModelOverride (model : Option String) : Option (List Char) :=
  (model.map fun s => trim s.toList).filter fun model =>
    model ≠ [] ∧ model.map Char.toLower ≠ "default".toList

/-- `selected_model_override`. -/
def selectedModelOverride (value : Value) : Option (List Char) :=
  normalizedModelOverride value.asStr?

/-- `resolve_settings_temperature`. -/
def resolveSettingsTemperature (host : LoopHost F) (current : Option F)
    (settings_value : Option Value) : Option F :=
  if current.isSome then none else (settings_value.bind host.as_f32).map host.clamp

/-- `effective_permission`. -/
def effectivePermission (host : LoopHost F) (tool_name : String)
    (overrides : String → Option PermissionState) : PermissionState :=
  ((overrides tool_name).or (host.tool_risk_defaults tool_name)).getD .askEachTime

/-! ### Asking the model -/

/-- What is sent to the model. -/
structure Request (F : Type) where
  messages : List ChatMessage
  tools : List ToolDefinition
  model : Option (List Char)
  temperature : F

/-- `ToolCompletionResponse`, as far as it is used here. -/
structure ToolResponse where
  content : Option (List Char)
  tool_calls : List ToolCall
  finish_reason : FinishReason

/-- `CompletionResponse`, as far as it is used here. -/
structure TextResponse where
  content : List Char
  finish_reason : FinishReason

/-- `RespondResult`. -/
inductive RespondResult where
  | text (text : List Char)
  | toolCalls (tool_calls : List ToolCall) (content : Option (List Char))

/-- `RespondOutput`, as far as it is used here. -/
structure RespondOutput where
  result : RespondResult
  finish_reason : FinishReason

/-- What becomes of a call in preflight and execution; the message is what the model is told. -/
inductive CallFate where
  | rejected (message : ChatMessage)
  | needsApproval
  | failed (message : ChatMessage)
  | succeeded (message : ChatMessage)

/-- What an iteration meets: whether the thread was interrupted, the tools that are registered and
not kept back by a skill or an administrator, whether the settings can be read, whether the costs
are within their limits, the answers of the model, at first and after compaction, and what becomes
of the calls. -/
structure Round (F : Type) where
  interrupted : Bool
  tool_defs : List ToolDefinition
  settings_readable : Bool
  cost_allowed : Bool
  complete_with_tools : Bool → Request F → Except LlmError ToolResponse
  complete : Bool → Request F → Except LlmError TextResponse
  fate : ℕ → ToolCall → CallFate
  awaiting_token : Bool

/-- `merge_system_messages`. -/
def mergeSystemMessages (primary : List Char) (context_messages : List ChatMessage) : List Char :=
  let extra := (context_messages.filter fun m => m.role = .system).map (·.content)
  if extra = [] then primary
  else primary ++ "\n\n---\n\n".toList ++ "\n\n".toList.intercalate extra

/-- The reasoning of a call, or the narrative if it has none. -/
def callReasoning (host : LoopHost F) (narrative : Option (List Char)) (tc : ToolCall) : ToolCall :=
  if tc.reasoning.all fun r => trim r.toList = [] then
    { tc with reasoning := (narrative.filter (· ≠ [])).map String.ofList }
  else
    { tc with
      reasoning := ((tc.reasoning.map fun r => host.clean r.toList).filter (trim · ≠ [])).map
        String.ofList }

/-- A cleaned text, or the fallback for an empty one. -/
def finalText (host : LoopHost F) (content : List Char) : List Char :=
  let cleaned := host.clean content
  if trim cleaned = [] then "I'm not sure how to respond to that.".toList else cleaned

/-- The answer to a request with tools. -/
def toolOutput (host : LoopHost F) (available_tools : List ToolDefinition)
    (response : ToolResponse) : RespondOutput :=
  if response.tool_calls ≠ [] then
    let narrative := response.content.map host.clean
    ⟨.toolCalls (response.tool_calls.map (callReasoning host narrative)) narrative,
      response.finish_reason⟩
  else
    let content := response.content.getD []
    let recovered := host.recover_tool_calls content available_tools
    if recovered ≠ [] then
      ⟨.toolCalls recovered (some (host.clean content) |>.filter (· ≠ [])), response.finish_reason⟩
    else ⟨.text (finalText host content), response.finish_reason⟩

/-- The answer to a request without tools. -/
def textOutput (host : LoopHost F) (response : TextResponse) : RespondOutput :=
  ⟨.text (finalText host response.content), response.finish_reason⟩

/-- `effective_tools`. -/
def ReasoningContext.effectiveTools (ctx : ReasoningContext F) : List ToolDefinition :=
  if ctx.force_text then [] else ctx.available_tools

/-- The request that is made of a context. -/
def ReasoningContext.request (host : LoopHost F) (ctx : ReasoningContext F) : Request F :=
  let system_prompt := mergeSystemMessages
    (ctx.system_prompt.getD (host.build_system_prompt ctx.available_tools)) ctx.messages
  ⟨.system system_prompt :: ctx.messages.filter fun m => m.role ≠ .system, ctx.effectiveTools,
    ctx.model_override, host.clamp (ctx.temperature.getD host.default_temperature)⟩

/-- `respond_with_tools`, at first or in a retry. -/
def respondWithTools (host : LoopHost F) (round : Round F) (retry : Bool)
    (ctx : ReasoningContext F) : Except LlmError RespondOutput :=
  if ctx.effectiveTools ≠ [] then
    (round.complete_with_tools retry (ctx.request host)).map (toolOutput host ctx.available_tools)
  else (round.complete retry (ctx.request host)).map (textOutput host)

/-! ### The delegate -/

/-- `ChatDelegate`, as far as it is used here. -/
structure ChatDelegate where
  cached_prompt : List Char
  cached_prompt_no_tools : List Char
  nudge_at : ℕ
  force_text_at : ℕ
  store : Option SettingsStore

def LIMIT_NUDGE : List Char :=
  ("You are approaching the tool call limit. " ++
    "Provide your best final answer on the next response " ++
    "using the information you have gathered so far. Do not call any more tools.").toList

/-- `tool_permissions`, `none` if the settings cannot be read. -/
def toolPermissions (host : LoopHost F) (delegate : ChatDelegate) (round : Round F) :
    Option (String → Option PermissionState) :=
  match delegate.store with
  | some store => if round.settings_readable then some (host.tool_permissions store.user) else none
  | none => some fun _ => none

/-- `before_llm_call`, which never ends the loop. -/
def beforeLlmCall (host : LoopHost F) (delegate : ChatDelegate) (round : Round F) (iteration : ℕ)
    (ctx : ReasoningContext F) : ReasoningContext F :=
  let ctx := if iteration = delegate.nudge_at then ctx.push (.system LIMIT_NUDGE) else ctx
  let force_text := decide (delegate.force_text_at ≤ iteration)
  match toolPermissions host delegate round with
  -- The tools stay as they were filtered before, and so does everything below.
  | none => ctx
  | some tool_permissions =>
    let tool_defs := round.tool_defs.filter fun tool =>
      effectivePermission host tool.name tool_permissions ≠ .disabled
    let force_text := force_text || ctx.force_text
    { ctx with
      available_tools := tool_defs
      system_prompt :=
        some (if force_text then delegate.cached_prompt_no_tools else delegate.cached_prompt)
      force_text := force_text }

/-- `compact_messages_for_retry`. -/
def compactMessagesForRetry (messages : List ChatMessage) : List ChatMessage :=
  let last_user_idx := (messages.reverse.findIdx? fun m => m.role = .user).map
    (messages.length - 1 - ·)
  match last_user_idx with
  | some idx =>
    (messages.take idx).filter (fun m => m.role = .system) ++
      (if 0 < idx then
        [.system ("[Note: Earlier conversation history was automatically compacted " ++
          "to fit within the context window. The most recent exchange is preserved below.]").toList]
      else []) ++ messages.drop idx
  | none =>
    messages.filter (fun m => m.role = .system) ++ messages.filter fun m => m.role ≠ .system

/-- The overrides of `call_llm`. -/
def applyOverrides (host : LoopHost F) (delegate : ChatDelegate) (round : Round F) (iteration : ℕ)
    (ctx : ReasoningContext F) : ReasoningContext F :=
  match delegate.store with
  | none => ctx
  | some store =>
    if iteration = 0 ∧ round.settings_readable then
      let model :=
        (store.getSettingWithAdminFallback "selected_model").bind selectedModelOverride
      let temperature := resolveSettingsTemperature host ctx.temperature
        (store.getSettingWithAdminFallback "temperature")
      { ctx with
        model_override := model.or ctx.model_override
        temperature := temperature.or ctx.temperature }
    else ctx

/-- What ends the loop with an error. -/
inductive LoopError where
  | costLimit
  | llm (error : LlmError)

/-- `call_llm`: the requests, and the context and output behind them. -/
def callLlm (host : LoopHost F) (delegate : ChatDelegate) (round : Round F) (iteration : ℕ)
    (ctx : ReasoningContext F) :
    List (Request F) × Except LoopError (ReasoningContext F × RespondOutput) :=
  if round.cost_allowed then
    let ctx := applyOverrides host delegate round iteration ctx
    match respondWithTools host round false ctx with
    | .ok output => ([ctx.request host], .ok (ctx, output))
    | .error (.contextLengthExceeded _ _) =>
      let compacted := { ctx with
        messages := compactMessagesForRetry ctx.messages
        available_tools := if ctx.force_text then [] else ctx.available_tools }
      ([ctx.request host, compacted.request host],
        match respondWithTools host round true compacted with
        | .ok output => .ok (compacted, output)
        | .error error => .error (.llm error))
    | .error error => ([ctx.request host], .error (.llm error))
  else ([], .error .costLimit)

/-- `LoopOutcome`, as far as a chat has it. -/
inductive LoopOutcome where
  | response (text : List Char)
  | stopped
  | maxIterations
  | needApproval
  | authPending

/-- What a call in preflight is answered with. -/
def CallFate.message? : CallFate → Option ChatMessage
  | rejected message | failed message | succeeded message => some message
  | needsApproval => none

/-- A call that counts as a failure. -/
def CallFate.isFailure : CallFate → Bool
  | rejected _ | failed _ => true
  | needsApproval | succeeded _ => false

/-- A call that waits for the user. -/
def CallFate.isPending : CallFate → Bool
  | needsApproval => true
  | _ => false

/-- `execute_tool_calls`. -/
def executeToolCalls (round : Round F) (tool_calls : List ToolCall)
    (content : Option (List Char)) (ctx : ReasoningContext F) :
    Option LoopOutcome × ReasoningContext F :=
  let ctx := ctx.push (.assistantWithToolCalls content tool_calls)
  let fates := tool_calls.mapIdx round.fate
  let preflight := fates.takeWhile fun fate => !fate.isPending
  let total_tools := preflight.length
  let tool_failure_count := preflight.countP CallFate.isFailure
  let ctx := { ctx with
    messages := ctx.messages ++ preflight.filterMap CallFate.message?
    last_tool_batch_all_failed := decide (0 < total_tools ∧ tool_failure_count = total_tools) }
  (if fates.any CallFate.isPending then some .needApproval
    else if round.awaiting_token then some .authPending
    else none, ctx)

/-! ### The loop -/

/-- `AgenticLoopConfig`. -/
structure AgenticLoopConfig where
  max_iterations : ℕ
  enable_tool_intent_nudge : Bool
  max_tool_intent_nudges : ℕ

/-- `DuplicateToolCallTracker`. -/
structure DuplicateToolCallTracker where
  last_fingerprint : Option ℕ
  consecutive_count : ℕ

namespace DuplicateToolCallTracker

def new : DuplicateToolCallTracker := ⟨none, 0⟩

/-- `record_with_fingerprint`; the count is that of the tracker it returns. -/
def recordWithFingerprint (tracker : DuplicateToolCallTracker) (fp : ℕ) (all_failed : Bool) :
    DuplicateToolCallTracker :=
  if all_failed ∧ tracker.last_fingerprint = some fp then
    { tracker with consecutive_count := tracker.consecutive_count + 1 }
  else if all_failed then ⟨some fp, 1⟩
  else ⟨some fp, 0⟩

end DuplicateToolCallTracker

/-- What a batch is told apart by. The keys of an object are in order already. -/
def batchKey (tool_calls : List ToolCall) : List (String × Value) :=
  tool_calls.map fun tc => (tc.name, tc.arguments)

/-- `fingerprint`. -/
def fingerprint (host : LoopHost F) (tool_calls : List ToolCall) : ℕ :=
  host.hash (batchKey tool_calls)

def DUPLICATE_TOOL_CALL_WARNING : List Char :=
  ("You have repeated the exact same failing tool call multiple times. " ++
    "The tool is returning the same error each time. " ++
    "Please try a DIFFERENT approach — use different parameters, a different tool, " ++
    "or explain to the user what went wrong and what alternatives exist.").toList

def DUPLICATE_WARNING_THRESHOLD : ℕ := 3

def DUPLICATE_FORCE_TEXT_THRESHOLD : ℕ := 5

def TOOL_INTENT_NUDGE : List Char :=
  ("You said you would perform an action, but you did not include any tool calls.\n" ++
    "Do NOT describe what you intend to do — actually call the tool now.\n" ++
    "Use the tool_calls mechanism to invoke the appropriate tool.").toList

def TRUNCATED_TOOL_CALL_NOTICE : List Char :=
  ("Your previous response was truncated while generating tool call parameters. " ++
    "The tool calls were discarded. Please try a different approach — " ++
    "summarize or transform the data instead of echoing it verbatim in a tool call.").toList

/-- The context and the counters of the loop. -/
structure LoopState (F : Type) where
  ctx : ReasoningContext F
  consecutive_tool_intent_nudges : ℕ
  truncation_count : ℕ
  dup_tracker : DuplicateToolCallTracker

/-- What can be seen of a run. -/
inductive LoopEvent (F : Type) where
  | started (iteration : ℕ)
  | requested (iteration : ℕ) (request : Request F)
  | nudged
  | replied
  | discarded (tool_calls : List ToolCall)
  | executed (finish_reason : FinishReason) (tool_calls : List ToolCall) (all_failed : Bool)

/-- What an iteration comes to: the loop is over, or goes on. -/
abbrev Continuation (F : Type) : Type := Except LoopError LoopOutcome ⊕ LoopState F

/-- The text branch of the loop. `handle_text_response` of a chat always returns, so that the
counters that are reset there are not used again. -/
def handleText (host : LoopHost F) (config : AgenticLoopConfig) (state : LoopState F)
    (ctx : ReasoningContext F) (text : List Char) : LoopEvent F × Continuation F :=
  if config.enable_tool_intent_nudge ∧ ctx.available_tools ≠ [] ∧ ctx.force_text = false ∧
      state.consecutive_tool_intent_nudges < config.max_tool_intent_nudges ∧
      host.llm_signals_tool_intent text then
    (.nudged, .inr { state with
      ctx := (ctx.push (.assistant text)).push (.user TOOL_INTENT_NUDGE)
      consecutive_tool_intent_nudges := state.consecutive_tool_intent_nudges + 1 })
  else (.replied, .inl (.ok (.response (host.strip_internal_tool_call_text text))))

/-- A batch from a truncated response is not executed. -/
def discardBatch (state : LoopState F) (ctx : ReasoningContext F)
    (content : Option (List Char)) : LoopState F :=
  let truncation_count := state.truncation_count + 1
  let ctx := match content with
    | some text => ctx.push (.assistant text)
    | none => ctx
  let ctx := ctx.push (.user TRUNCATED_TOOL_CALL_NOTICE)
  { state with
    ctx := if 3 ≤ truncation_count then { ctx with force_text := true } else ctx
    truncation_count := truncation_count }

/-- What a count of failures leads to. -/
def escalate (dup_count : ℕ) (ctx : ReasoningContext F) : ReasoningContext F :=
  if DUPLICATE_FORCE_TEXT_THRESHOLD ≤ dup_count then
    { ctx with force_text := true }.push (.user DUPLICATE_TOOL_CALL_WARNING)
  else if DUPLICATE_WARNING_THRESHOLD ≤ dup_count then
    ctx.push (.user DUPLICATE_TOOL_CALL_WARNING)
  else ctx

/-- The tool call branch of the loop. -/
def handleToolCalls (host : LoopHost F) (round : Round F) (state : LoopState F)
    (ctx : ReasoningContext F) (finish_reason : FinishReason) (tool_calls : List ToolCall)
    (content : Option (List Char)) : LoopEvent F × Continuation F :=
  if finish_reason = .length then (.discarded tool_calls, .inr (discardBatch state ctx content))
  else
    let (outcome, ctx) := executeToolCalls round tool_calls content
      { ctx with last_tool_batch_all_failed := false }
    let all_failed := ctx.last_tool_batch_all_failed
    (.executed finish_reason tool_calls all_failed,
      match outcome with
      | some outcome => .inl (.ok outcome)
      | none =>
        let dup_tracker :=
          state.dup_tracker.recordWithFingerprint (fingerprint host tool_calls) all_failed
        .inr ⟨escalate dup_tracker.consecutive_count ctx, 0, 0, dup_tracker⟩)

/-- What is done with an output. -/
def handleOutput (host : LoopHost F) (config : AgenticLoopConfig) (round : Round F)
    (state : LoopState F) (ctx : ReasoningContext F) (output : RespondOutput) :
    LoopEvent F × Continuation F :=
  match output.result with
  | .text text => handleText host config state ctx text
  | .toolCalls tool_calls content =>
    handleToolCalls host round state ctx output.finish_reason tool_calls content

/-- The body of the loop of `run_agentic_loop`. -/
def iterate (host : LoopHost F) (delegate : ChatDelegate) (config : AgenticLoopConfig)
    (round : Round F) (iteration : ℕ) (state : LoopState F) : List (LoopEvent F) × Continuation F :=
  if round.interrupted then ([.started iteration], .inl (.ok .stopped))
  else
    let ctx := beforeLlmCall host delegate round iteration state.ctx
    let (requests, answer) := callLlm host delegate round iteration ctx
    let called := .started iteration :: requests.map (.requested iteration)
    match answer with
    | .error error => (called, .inl (.error error))
    | .ok (ctx, output) =>
      let (event, next) := handleOutput host config round state ctx output
      (called ++ [event], next)

/-- `n` more iterations. -/
def iterations (host : LoopHost F) (delegate : ChatDelegate) (config : AgenticLoopConfig)
    (rounds : ℕ → Round F) :
    ℕ → ℕ → LoopState F → List (LoopEvent F) × Except LoopError LoopOutcome
  | 0, _, _ => ([], .ok .maxIterations)
  | n + 1, iteration, state =>
    match iterate host delegate config (rounds iteration) iteration state with
    | (events, .inl result) => (events, result)
    | (events, .inr state) =>
      let (more, result) := iterations host delegate config rounds n (iteration + 1) state
      (events ++ more, result)

/-- `run_agentic_loop` for a chat. -/
def runAgenticLoop (host : LoopHost F) (delegate : ChatDelegate) (config : AgenticLoopConfig)
    (rounds : ℕ → Round F) (ctx : ReasoningContext F) :
    List (LoopEvent F) × Except LoopError LoopOutcome :=
  iterations host delegate config rounds config.max_iterations 1 ⟨ctx, 0, 0, .new⟩

/-! ### A turn -/

/-- What a turn begins with. -/
structure TurnStart where
  messages : List ChatMessage
  initial_tool_defs : List ToolDefinition
  max_tool_iterations : ℕ
  store : Option SettingsStore

namespace TurnStart

/-- The delegate of a turn. -/
def delegate (host : LoopHost F) (start : TurnStart) : ChatDelegate where
  cached_prompt := host.build_system_prompt start.initial_tool_defs
  cached_prompt_no_tools := host.build_system_prompt []
  nudge_at := start.max_tool_iterations - 1
  force_text_at := start.max_tool_iterations
  store := start.store

/-- `loop_config`. -/
def config (start : TurnStart) : AgenticLoopConfig where
  max_iterations := start.max_tool_iterations + 1
  enable_tool_intent_nudge := true
  max_tool_intent_nudges := 2

/-- The context of a turn. -/
def context (host : LoopHost F) (start : TurnStart) : ReasoningContext F where
  messages := start.messages
  available_tools := start.initial_tool_defs
  force_text := false
  system_prompt := some (start.delegate host).cached_prompt
  model_override := none
  temperature := none
  last_tool_batch_all_failed := false

/-- What happens in a turn. -/
def events (host : LoopHost F) (start : TurnStart) (rounds : ℕ → Round F) : List (LoopEvent F) :=
  (runAgenticLoop host (start.delegate host) start.config rounds (start.context host)).1

end TurnStart

end T3Claw.Agent
