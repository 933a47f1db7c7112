import T3Claw.Data.Tally
import T3Claw.Executor.Glue

/-!
# The loop of the orchestrator script

`run_loop` of `orchestrator/default.py`: a thread asks the model, executes what it answers and asks
again, until it has an answer, has to wait, or has used up its iterations. The host answers as it
likes, and may raise an error, which ends the script.

What the script asks of the host is recorded (`HostCall`), so that the transcripts the model gets
are there to be talked about. The state of a thread is the dictionary the script keeps, its own
keys as fields. What code leaves under the name of an action may take the place of one of these
(`STATE_KEYS`); what the script reads there afterwards is left open.
-/

namespace T3Claw.Orchestrator

open T3Claw.Runtime (MessageRole)

/-! ### Data -/

/-- What `compact_if_needed` keeps of a transcript that it replaces. -/
structure Compaction where
  index : ℕ
  tokens_before : ℕ
  messages : List Message

/-- The state that is persisted; the values of its other keys are `vars`. -/
structure ThreadVars where
  history : List Compaction
  compaction_count : ℕ
  working_messages : List Message
  obligation_resolved : Bool
  obligation_nudge_count : ℕ
  vars : String → Option Json

/-- What the script reads of the configuration, with its defaults for what is left out. -/
structure LoopConfig where
  max_iterations : ℕ := 30
  max_tool_intent_nudges : ℕ := 2
  enable_tool_intent_nudge : Bool := true
  max_consecutive_errors : ℕ := 5
  require_action_attempt : Bool := false
  max_action_requirement_nudges : ℕ := 2
  step_count : ℕ := 0
  enable_compaction : Bool := false
  /-- `int(model_context_limit * compaction_threshold)`. -/
  compaction_tokens : ℕ := 108800

inductive Signal where
  | none
  | stop
  | inject (text : List Char)

structure Budget where
  tokens_remaining : Option ℤ
  time_remaining_ms : Option ℤ
  usd_remaining : Option ℚ

/-- What `__llm_complete__` returns. -/
inductive Response where
  | text (content : List Char)
  | code (code : List Char)
  | actions (content : List Char) (calls : List Call)

/-- What an action of a batch has come to. -/
structure ActionOutcome where
  action_name : String
  output : Option Json
  is_error : Bool
  pause : Pause

/-- What the host answers during an iteration: the signal, the budget, what the first iteration
appends to the system message, the summary of a compaction, the response, how many actions there
are, and what code and actions have come to; and what the script reads of its state where code has
written to the script's own keys. Where there is nothing an error is raised. -/
structure Turn where
  signal : Signal
  budget : Budget
  knowledge : List (List Char)
  summary : Option (List Char)
  response : Option Response
  available_actions : ℕ
  code_result : Option CodeResult
  results : Option (List (Option ActionOutcome))
  overwritten : ThreadVars → ThreadVars

/-- The counters of a checkpoint. -/
structure Counters where
  nudge_count : ℕ
  consecutive_errors : ℕ
  consecutive_action_errors : ℕ
  compaction_count : ℕ
  obligation_nudge_count : ℕ

/-- What the script asks of the host. -/
inductive HostCall where
  | llmComplete (messages : List Message) (force_text : Bool)
  | executeCode (code : List Char)
  | executeActions (calls : List Call)
  | saveCheckpoint (counters : Counters)
  | transitionTo (state : ThreadState) (reason : String)
  | emitEvent (kind : String)

inductive Outcome where
  | stopped
  | completed
  | maxIterations
  | failed
  | gatePaused
  | needAuthentication
  | needApproval
  deriving DecidableEq

/-- What `run_loop` returns. -/
structure LoopResult where
  outcome : Outcome
  state : ThreadVars
  response : Option (List Char)
  error : Option String
  pause : Option Pause

/-- The variables of the loop. -/
structure Locals where
  state : ThreadVars
  consecutive_nudges : ℕ
  consecutive_errors : ℕ
  consecutive_action_errors : ℕ
  obligation_enabled : Bool

/-- How an iteration ends: the loop goes on, returns, or an error is raised. -/
inductive Flow where
  | next (l : Locals)
  | done (result : LoopResult)
  | raised

/-! ### Steps -/

namespace Locals

/-- `append_message`. -/
def append (l : Locals) (msg : Message) : Locals :=
  { l with state :=
    { l.state with working_messages := l.state.working_messages ++ [msg] } }

/-- The obligation is met. -/
def resolve (l : Locals) : Locals :=
  { l with state := { l.state with obligation_resolved := true } }

/-- The latest message is a command to act. -/
def oblige (l : Locals) : Locals :=
  { l with
    obligation_enabled := true
    state := { l.state with obligation_resolved := false, obligation_nudge_count := 0 } }

/-- The counters of the checkpoint. -/
def counters (l : Locals) : Counters :=
  ⟨l.consecutive_nudges, l.consecutive_errors, l.consecutive_action_errors,
    l.state.compaction_count, l.state.obligation_nudge_count⟩

/-- `complete_result`. -/
def complete (l : Locals) (outcome : Outcome) (response : Option (List Char) := none)
    (error : Option String := none) : Flow :=
  .done ⟨outcome, l.state, response, error, none⟩

/-- What is returned when the thread has to wait. -/
def wait (l : Locals) (outcome : Outcome) (pause : Pause) : Flow :=
  .done ⟨outcome, l.state, none, none, some pause⟩

end Locals

/-- The message of a signal. -/
def receive (host : PyHost) (l : Locals) : Signal → Locals
  | .inject text =>
    let l := l.append (.plain .user text)
    if signalsExecutionIntent host text then l.oblige else l
  | _ => l

/-- The budget that is used up. -/
def exhausted (budget : Budget) : Option (String × List Char) :=
  if budget.tokens_remaining.getD 1 ≤ 0 then
    some ("token budget exhausted", "Token budget exhausted.".toList)
  else if budget.time_remaining_ms.getD 1 ≤ 0 then
    some ("time budget exhausted", "Time budget exhausted.".toList)
  else if budget.usd_remaining.any (· ≤ 0) then
    some ("cost budget exhausted", "Cost budget exhausted.".toList)
  else none

def SUMMARY_PROMPT : String :=
  "Summarize progress so far in a concise but complete way.\n" ++
  "Include:\n" ++
  "1. What has been accomplished\n" ++
  "2. Key intermediate results, facts, and variable values\n" ++
  "3. Tool results or findings worth preserving\n" ++
  "4. What still needs to be done\n" ++
  "5. Errors encountered and how they were handled\n\n" ++
  "Preserve all information needed to continue the task."

def COMPACTED_NOTE : String :=
  "Your conversation has been compacted. The summary above captures prior progress. " ++
  "Older details remain available through state['history'] and project retrieval. " ++
  "Continue working on the task."

/-- The transcript behind a compaction. -/
def compacted (snapshot : List Message) (summary : List Char) : List Message :=
  ((snapshot.find? (·.role = .system)).toList.map fun msg => .plain .system msg.content) ++
    [ .plain .assistant
        (if summary = [] then "[compaction produced no summary]".toList else summary),
      .plain .user COMPACTED_NOTE.toList ]

/-- Whether `compact_if_needed` compacts. -/
def needsCompaction (config : LoopConfig) (state : ThreadVars) : Bool :=
  config.enable_compaction && !state.working_messages.isEmpty &&
    config.compaction_tokens ≤ estimateContextTokens state.working_messages

/-- The state behind a compaction. -/
def ThreadVars.compact (state : ThreadVars) (summary : List Char) : ThreadVars :=
  let snapshot := state.working_messages
  { state with
    history := state.history ++
      [⟨state.compaction_count + 1, estimateContextTokens snapshot, snapshot⟩]
    compaction_count := state.compaction_count + 1
    working_messages := compacted snapshot summary }

/-- `compact_if_needed`; no state where the model raises an error. -/
def compactIfNeeded (config : LoopConfig) (state : ThreadVars) (summary : Option (List Char)) :
    List HostCall × Option ThreadVars :=
  if needsCompaction config state then
    ([.llmComplete (state.working_messages ++ [.plain .user SUMMARY_PROMPT.toList]) true],
      summary.map state.compact)
  else ([], some state)

def NUDGE : String :=
  "You said you would perform an action, but you did not include any tool calls.\n" ++
  "Do NOT describe what you intend to do — actually call the tool now.\n" ++
  "Use the tool_calls mechanism to invoke the appropriate tool."

def OBLIGATION_NUDGE : String :=
  "You were asked to perform an action, but you responded with text only.\n" ++
  "Do NOT describe or explain — call the appropriate tool now.\n" ++
  "Use the tool_calls mechanism to invoke the tool."

/-- Whether a text is answered with the nudge to call a tool. -/
def nudges (host : PyHost) (config : LoopConfig) (l : Locals) (text : List Char) : Bool :=
  config.enable_tool_intent_nudge && l.consecutive_nudges < config.max_tool_intent_nudges &&
    signalsToolIntent host text

/-- Whether a text is answered with the nudge to act. -/
def obliges (config : LoopConfig) (turn : Turn) (l : Locals) : Bool :=
  l.obligation_enabled && l.consecutive_nudges == 0 && 0 < turn.available_actions &&
    !l.state.obligation_resolved &&
    l.state.obligation_nudge_count < config.max_action_requirement_nudges

/-- A response that is a text. -/
def handleText (host : PyHost) (config : LoopConfig) (turn : Turn) (l : Locals)
    (text : List Char) : List HostCall × Flow :=
  let l := l.append (.plain .assistant text)
  match extractFinal text with
  | some answer =>
    ([.transitionTo .completed "FINAL() in text"], l.complete .completed answer)
  | none =>
    if nudges host config l text then
      ([], .next { l.append (.plain .user NUDGE.toList) with
        consecutive_nudges := l.consecutive_nudges + 1 })
    else if obliges config turn l then
      let state := { l.state with obligation_nudge_count := l.state.obligation_nudge_count + 1 }
      ([], .next (Locals.append { l with state := state }
        (.plain .user OBLIGATION_NUDGE.toList)))
    -- the counter that is reset here is not read again
    else ([.transitionTo .completed "text response"], l.complete .completed text)

/-- The values that a step of code leaves in the state. -/
def storeResults (step : ℕ) (result : CodeResult) (vars : String → Option Json) :
    String → Option Json :=
  let vars := match result.return_value with
    | some value => Function.update (Function.update vars ("step_" ++ toString step ++ "_return")
        (some value)) "last_return" (some value)
    | none => vars
  result.action_results.foldl (fun vars r => Function.update vars r.action_name (some r.output))
    vars

/-- The keys of the state that the script reads itself. -/
def STATE_KEYS : List String :=
  ["history", "compaction_count", "working_messages", "_obligation_resolved",
    "_obligation_nudge_count"]

/-- Whether no result of code is stored under one of them. -/
def Turn.keepsKeys (turn : Turn) : Bool :=
  turn.code_result.all fun result => result.action_results.all (·.action_name ∉ STATE_KEYS)

/-- What the script reads of its own keys behind a step of code. -/
def Turn.rewrite (turn : Turn) (l : Locals) : Locals :=
  if turn.keepsKeys then l else { l with state := turn.overwritten l.state }

/-- The pause of a thread that waits in front of a gate. -/
def gateWait (l : Locals) (pause : Pause) : List HostCall × Flow :=
  ([.saveCheckpoint l.counters, .transitionTo .waiting ("gate paused: " ++ pause.gate_name)],
    l.wait .gatePaused pause)

/-- The pause of a thread that waits for a user, as it was before there were gates. -/
def legacyWait (l : Locals) (pause : Pause) : List HostCall × Flow :=
  if pause.need_authentication then
    ([.saveCheckpoint l.counters, .transitionTo .waiting "authentication needed"],
      l.wait .needAuthentication pause)
  else
    ([.saveCheckpoint l.counters, .transitionTo .waiting "approval needed"],
      l.wait .needApproval pause)

/-- What follows a step of code. -/
def afterCode (config : LoopConfig) (l : Locals) (result : CodeResult) : List HostCall × Flow :=
  match result.final_answer with
  | some answer => ([.transitionTo .completed "FINAL() in code"], l.complete .completed answer)
  | none =>
    match (result.pending_gate.or result.need_approval).filter (·.gate_paused) with
    | some gate => gateWait l gate
    | none =>
      match result.need_approval with
      | some approval => legacyWait l approval
      | none =>
        if result.had_error then
          let l := { l with consecutive_errors := l.consecutive_errors + 1 }
          if config.max_consecutive_errors ≤ l.consecutive_errors then
            ([.transitionTo .failed "too many consecutive errors"],
              l.complete .failed none
                (toString config.max_consecutive_errors ++ " consecutive code errors"))
          else ([.saveCheckpoint l.counters], .next l)
        else
          let l := { l with consecutive_errors := 0 }
          ([.saveCheckpoint l.counters], .next l)

/-- Code as the transcript shows it. -/
def codeText (code : List Char) : List Char :=
  "\x60\x60\x60repl\n".toList ++ code ++ "\n\x60\x60\x60".toList

/-- A response that is code. -/
def handleCode (host : PyHost) (config : LoopConfig) (step : ℕ) (turn : Turn) (l : Locals)
    (code : List Char) : List HostCall × Flow :=
  let l := l.resolve.append (.plain .assistant (codeText code))
  match turn.code_result with
  | none => ([.executeCode code], .raised)
  | some result =>
    let l := { l with state := { l.state with vars := storeResults step result l.state.vars } }
    let l := l.append (.plain .user (formatOutput host result))
    let (calls, flow) := afterCode config (turn.rewrite l) result
    (.executeCode code :: calls, flow)

/-- The calls of a batch without `FINAL`. -/
def executableCalls (calls : List Call) : List Call := calls.filter (·.name ≠ "FINAL")

/-- The message that answers a call of a batch. -/
def resultMessage (host : PyHost) (call : Call) : Option ActionOutcome → Message
  | some r =>
    let output := r.output.elim "[no output]".toList host.str
    let output := if r.is_error then
      "[ACTION FAILED] ".toList ++ r.action_name.toList ++ [':', ' '] ++ output else output
    ⟨.actionResult, output, some r.action_name, some call.call_id, none⟩
  | none =>
    ⟨.actionResult, "[execution skipped]".toList, some call.name, some call.call_id, none⟩

/-- The calls of a batch, each with what it has come to. -/
def pairResults (calls : List Call) (results : List (Option ActionOutcome)) :
    List (Call × Option ActionOutcome) :=
  calls.zipIdx.map fun (call, i) => (call, results[i]?.join)

/-- Whether an action of a batch has succeeded. -/
def succeeded (r : Option ActionOutcome) : Bool := r.any fun r => !r.is_error

/-- What the first result of a batch that stops the thread comes to. -/
def interrupts (l : Locals) (calls : List Call) (results : List (Option ActionOutcome)) :
    Option (List HostCall × Flow) :=
  results.zipIdx.findSome? fun (r, i) => r.bind fun r =>
    if r.pause.gate_paused then
      some (gateWait l { r.pause with
        call_id := (calls[i]?.map (·.call_id)).getD ""
        parameters := (calls[i]?.map (·.params)).getD (.obj []) })
    else if r.pause.need_authentication || r.pause.need_approval then
      some (legacyWait l r.pause)
    else none

/-- Whether Python takes a value as true. -/
def truthy : Json → Bool
  | .null => false
  | .bool b => b
  | .num n => n ≠ 0
  | .str s => s ≠ ""
  | .arr items => !items.isEmpty
  | .obj fields => !fields.isEmpty

/-- The answer of a `FINAL` that has none itself. -/
def fallbackAnswer (content : List Char) : List HostCall × List Char :=
  ([.emitEvent "final_fallback"], if 500 < content.length then
    content.take 500 ++ ("… [truncated by orchestrator: FINAL was emitted with no " ++
      "recognizable answer param]").toList else content)

/-- The answer of a `FINAL` among the calls, `none` where an error is raised. -/
def finalAnswer (host : PyHost) (content : List Char) (params : Json) :
    Option (List HostCall × List Char) :=
  match params with
  | .str answer => some ([], answer.toList)
  | .obj _ =>
    match (["answer", "result", "value", "content", "text"].filterMap params.get?).find? truthy with
    | some answer => some ([], host.str answer)
    | none => some (fallbackAnswer content)
  | other => if truthy other then none else some (fallbackAnswer content)

/-- What follows a batch that stops nothing: the failures are counted. -/
def afterBatch (config : LoopConfig) (l : Locals) (outcomes : List (Option ActionOutcome)) :
    List HostCall × Flow :=
  let errors := if outcomes.any succeeded then 0
    else if outcomes = [] then l.consecutive_action_errors
    else l.consecutive_action_errors + 1
  let l := { l with consecutive_action_errors := errors }
  if 0 < errors ∧ config.max_consecutive_errors + 2 ≤ errors then
    ([.transitionTo .failed "too many consecutive action errors"],
      l.complete .failed none (toString errors ++
        " consecutive action errors — all recent tool calls failed"))
  else
    let l := if 0 < errors ∧ config.max_consecutive_errors ≤ errors then
      l.append (.plain .user ("[SYSTEM] Your last " ++ toString errors ++
        " action calls have all failed. You appear to be stuck in a loop. " ++
        "Try a completely different approach: use different tools, different " ++
        "parameters, or break the problem down differently. If you cannot " ++
        "make progress, call FINAL() with an honest explanation of what failed.").toList) else l
    ([.saveCheckpoint l.counters], .next l)

/-- A response that is calls of actions. -/
def handleActions (host : PyHost) (config : LoopConfig) (turn : Turn) (l : Locals)
    (content : List Char) (calls : List Call) : List HostCall × Flow :=
  let executable := executableCalls calls
  let dropped : List HostCall :=
    if 1 < calls.countP (·.name = "FINAL") then [.emitEvent "duplicate_final_dropped"] else []
  let asked := dropped ++ [.executeActions executable]
  let l := l.resolve.append { Message.plain .assistant content with action_calls := executable }
  match turn.results with
  | none => (asked, .raised)
  | some results =>
    let paired := pairResults executable results
    let l := paired.foldl (fun l p => l.append (resultMessage host p.1 p.2)) l
    match interrupts l executable results with
    | some (calls, flow) => (asked ++ calls, flow)
    | none =>
      match calls.find? (·.name = "FINAL") with
      | some final_call =>
        match finalAnswer host content final_call.params with
        | none => (asked, .raised)
        | some (events, answer) =>
          (asked ++ events ++ [.transitionTo .completed "FINAL via tool_calls"],
            l.complete .completed answer)
      | none =>
        let (calls, flow) := afterBatch config l (paired.map Prod.snd)
        (asked ++ calls, flow)

/-- What follows the response of the model. -/
def respond (host : PyHost) (config : LoopConfig) (step : ℕ) (turn : Turn) (l : Locals) :
    Response → List HostCall × Flow
  | .text content => handleText host config turn l content
  | .code code => handleCode host config step turn l code
  | .actions content calls => handleActions host config turn l content calls

/-- What the first iteration appends to the system message. -/
def inject (step : ℕ) (turn : Turn) (l : Locals) : Locals :=
  if step = 0 then
    let messages := turn.knowledge.foldl (fun messages text => appendSystemAppend text messages)
      l.state.working_messages
    { l with state := { l.state with working_messages := messages } }
  else l

/-- The model is asked. -/
def ask (host : PyHost) (config : LoopConfig) (step : ℕ) (turn : Turn) (l : Locals) :
    List HostCall × Flow :=
  match compactIfNeeded config l.state turn.summary with
  | (calls, none) => (calls, .raised)
  | (calls, some state) =>
    let asked := calls ++ [.emitEvent "step_started", .llmComplete state.working_messages false]
    match turn.response with
    | none => (asked, .raised)
    | some response =>
      let (more, flow) := respond host config step turn { l with state := state } response
      (asked ++ .emitEvent "step_completed" :: more, flow)

/-- An iteration of the loop. -/
def iteration (host : PyHost) (config : LoopConfig) (step : ℕ) (turn : Turn) (l : Locals) :
    List HostCall × Flow :=
  match turn.signal with
  | .stop => ([.transitionTo .completed "stopped by signal"], l.complete .stopped)
  | signal =>
    let l := receive host l signal
    match exhausted turn.budget with
    | some (reason, response) => ([.transitionTo .completed reason], l.complete .completed response)
    | none => ask host config step turn (inject step turn l)

/-! ### Runs -/

/-- The state a thread is resumed with. -/
structure Persisted where
  history : List Compaction
  compaction_count : ℕ
  working_messages : Option (List Message)
  obligation_resolved : Bool
  obligation_nudge_count : ℕ
  vars : String → Option Json

/-- The variables in front of the loop. -/
def start (host : PyHost) (config : LoopConfig) (context : List Message) (state : Persisted) :
    Locals :=
  let l : Locals :=
    ⟨⟨state.history, state.compaction_count, state.working_messages.getD context,
      state.obligation_resolved, state.obligation_nudge_count, state.vars⟩, 0, 0, 0,
      config.require_action_attempt⟩
  if !config.require_action_attempt &&
      (context.reverse.find? (·.role = .user)).any
        (fun msg => signalsExecutionIntent host msg.content) then l.oblige
  else l

/-- The loop from an iteration on, with `fuel` iterations left. -/
def runFrom (host : PyHost) (config : LoopConfig) (turns : ℕ → Turn) :
    (fuel step : ℕ) → Locals → List HostCall × Option LoopResult
  | 0, _, l =>
    ([.transitionTo .completed "max iterations reached"],
      some ⟨.maxIterations, l.state, none, none, none⟩)
  | fuel + 1, step, l =>
    match iteration host config step (turns step) l with
    | (calls, .next l) =>
      let (more, result) := runFrom host config turns fuel (step + 1) l
      (calls ++ more, result)
    | (calls, .done result) => (calls, some result)
    | (calls, .raised) => (calls, none)

/-- `run_loop`; no result where an error is raised. -/
def runLoop (host : PyHost) (config : LoopConfig) (context : List Message) (state : Persisted)
    (turns : ℕ → Turn) : List HostCall × Option LoopResult :=
  runFrom host config turns (config.max_iterations - config.step_count) config.step_count
    (start host config context state)

end T3Claw.Orchestrator
