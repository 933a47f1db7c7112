import T3Claw.Data.Text
import T3Claw.Executor.Dispatch

/-!
# A CodeAct step

`scripting.rs::execute_code_with_skills`, from the compiled script on. The Monty VM is met only
through what starting and resuming it give (`Resumed`), and any sequence of these is considered:
what the script is answered is left out. An action call is preflighted and, when approved,
spawned at once; it is settled when the script waits for it, by `resolve_tool_future`.

Beside what the source keeps, a run has the answers of its preflights, and its events and
refunds carry the place of the call they are about.
-/

namespace T3Claw

/-- `CodeExecutionFailure`. -/
inductive CodeExecutionFailure where
  | syntaxError
  | runtimeError
  | nameLookup
  | vmPanic
  | resourceLimit
  | toolError
  | osDenied
  deriving DecidableEq

/-- `classify_runtime_error`. -/
def classifyRuntimeError (error_msg : String) : CodeExecutionFailure :=
  let lower := error_msg.toList.map Char.toLower
  let mentions := fun text : String => Text.contains text.toList lower
  if mentions "timed out" || mentions "timeout" || mentions "memory limit" ||
      mentions "allocation limit" || mentions "out of fuel" || mentions "fuel exhausted" ||
      mentions "resource limit" then .resourceLimit
  else if mentions "os operations are not permitted" || mentions "oserror" then .osDenied
  else if mentions "syntaxerror" then .syntaxError
  else .runtimeError

/-- A function call of the script, with its arguments as JSON and its first one as text. -/
structure MontyCall where
  call_id : ℕ
  function_name : String
  first_arg : Option String
  params : Json

/-- `RunProgress`. -/
inductive RunProgress where
  | complete (value : Json)
  | functionCall (call : MontyCall)
  | resolveFutures (pending_call_ids : List ℕ)
  | nameLookup (name : String)
  | osCall

/-- What starting or resuming the script gives, with what it has printed. -/
inductive Resumed where
  | progress (printed : String) (progress : RunProgress)
  | error (printed message : String)
  | panic (printed : String)

/-- What was resumed last. -/
inductive Resuming where
  | start
  | builtin
  | pendingBuiltin
  | pendingTool
  | denied
  | resolveFutures
  | nameLookup
  | osCall

/-- What a panic of the VM is reported to have interrupted. -/
def Resuming.activity : Resuming → String
  | .start => "execution start"
  | .builtin | .denied => "resume"
  | .pendingBuiltin | .pendingTool => "resume_pending"
  | .resolveFutures => "ResolveFutures resume"
  | .nameLookup => "name lookup"
  | .osCall => "OS call"

/-- How an error is reported. -/
def Resuming.errorLabel : Resuming → String
  | .nameLookup => "NameError"
  | .osCall => "OSError"
  | _ => "Error"

/-- The category of an error. -/
def Resuming.failure (message : String) : Resuming → CodeExecutionFailure
  | .nameLookup => .nameLookup
  | .osCall => .osDenied
  | .pendingTool | .denied => .toolError
  | _ => classifyRuntimeError message

/-- `PendingFuture`; a tool's task with the place of its call. -/
inductive PendingFuture where
  | tool (position : ℕ) (call : ActionCall) (lease : CapabilityLease)
  | llm

/-- The answer of the preflight of a call. -/
structure Preflighted where
  position : ℕ
  monty_call_id : ℕ
  call : ActionCall
  answer : Gate

/-- The lease of a call that was approved, and so was started. -/
def Preflighted.lease? (p : Preflighted) : Option CapabilityLease :=
  match p.answer with
  | .settled (.approved lease) => some lease
  | _ => none

/-- A run of a script. -/
structure CodeRun where
  stdout : String
  action_results : List ActionResult
  events : List (ℕ × EventKind)
  final_answer : Option String
  pending_futures : ℕ → Option PendingFuture
  call_counter : ℕ
  leases : LeaseManager
  resuming : Resuming
  preflights : List Preflighted
  refunds : List (ℕ × LeaseId)

/-- `CodeExecutionResult`. -/
structure CodeExecutionResult where
  return_value : Json
  stdout : String
  action_results : List ActionResult
  events : List EventKind
  need_approval : Option GatePause
  final_answer : Option String
  failure : Option CodeExecutionFailure

/-- What a script is run with; `panics` are the places of the calls whose tasks panic. -/
structure CodeEnv where
  env : DispatchEnv
  serde : Serde
  caps : List PolicyRule
  clock : ℕ → Readings
  panics : ℕ → Bool

namespace CodeRun

/-- The run before `runner.start`. -/
def new (leases : LeaseManager) : CodeRun where
  stdout := ""
  action_results := []
  events := []
  final_answer := none
  pending_futures _ := none
  call_counter := 0
  leases := leases
  resuming := .start
  preflights := []
  refunds := []

/-- Return. -/
def finish (s : CodeRun) (return_value : Json) (stdout : String)
    (need_approval : Option GatePause) (final_answer : Option String)
    (failure : Option CodeExecutionFailure) : CodeExecutionResult × CodeRun :=
  ({ return_value, stdout, action_results := s.action_results,
     events := s.events.map Prod.snd, need_approval, final_answer, failure }, s)

/-- `resolve_tool_future`. -/
def resolveTool (E : CodeEnv) (s : CodeRun) (position : ℕ) (call : ActionCall)
    (lease : CapabilityLease) : CodeRun :=
  if E.panics position then s
  else
    let (result, elapsed) := E.env.execute call lease
    let refunded := interruptedCallNeedsRefund result
    let action_result :=
      match result with
      | .ok result => [result]
      | .error (.gatePaused ..) => []
      | .error e => [⟨call.id, call.action_name, errorJson e.display, true, elapsed⟩]
    { s with
      leases := if refunded then s.leases.refund lease.id else s.leases
      refunds := if refunded then s.refunds ++ [(position, lease.id)] else s.refunds
      events := s.events ++ [(position, (resolveToolFuture E.env E.serde call lease).2)]
      action_results := s.action_results ++ action_result }

/-- One future of `ResolveFutures`. -/
def resolveFuture (E : CodeEnv) (s : CodeRun) (mid : ℕ) : CodeRun :=
  match s.pending_futures mid with
  | none => s
  | some future =>
    let s := { s with pending_futures := Function.update s.pending_futures mid none }
    match future with
    | .tool position call lease => s.resolveTool E position call lease
    | .llm => s

/-- The builtins that are answered at once. -/
def syncBuiltins : List String := ["rlm_query", "globals", "locals"]

/-- The builtins with a future. -/
def futureBuiltins : List String := ["FINAL", "FINAL_VAR", "llm_query", "llm_query_batched"]

/-- A builtin with a future leaves it under the call's id. -/
def deferBuiltin (s : CodeRun) (call : MontyCall) : CodeRun :=
  if call.function_name ∈ futureBuiltins then
    { s with
      final_answer :=
        if call.function_name = "FINAL" then some (call.first_arg.getD "")
        else if call.function_name = "FINAL_VAR" then
          some ("[FINAL_VAR: " ++ call.first_arg.getD "result" ++ "]")
        else s.final_answer
      pending_futures := Function.update s.pending_futures call.call_id (some .llm) }
  else s

/-- The preflight of a tool call and, when it is approved, its start. -/
def dispatchTool (E : CodeEnv) (position : ℕ) (s : CodeRun) (call : MontyCall) :
    CodeRun ⊕ (CodeExecutionResult × CodeRun) :=
  let action : ActionCall :=
    ⟨"code_call_" ++ toString s.call_counter, call.function_name, call.params⟩
  let (answer, leases) :=
    codeactGate E.env E.caps E.clock s.call_counter s.leases call.function_name
  let s := { s with
    leases
    preflights := s.preflights ++ [Preflighted.mk position call.call_id action answer] }
  match answer with
  -- no error leaves this path through `?`
  | .aborted _ => .inl { s with resuming := .denied }
  | .needsApproval =>
    .inr ({ s with events := s.events ++ [(position, approvalEvent action)] }.finish .null s.stdout
      (some (approvalPause action)) none none)
  | .settled (.approved lease) =>
    .inl { s with
      pending_futures := Function.update s.pending_futures call.call_id
        (some (.tool position action lease))
      resuming := .pendingTool }
  | .settled outcome =>
    .inl { s with
      events := s.events ++ (codeactSlot E.env E.serde action outcome).2.map (position, ·)
      resuming := .denied }

/-- A function call of the script. -/
def functionCall (E : CodeEnv) (position : ℕ) (s : CodeRun) (call : MontyCall) :
    CodeRun ⊕ (CodeExecutionResult × CodeRun) :=
  let s := { s with call_counter := s.call_counter + 1 }
  if call.function_name ∈ syncBuiltins then .inl { s with resuming := .builtin }
  else
    let s := s.deferBuiltin call
    -- also met by a tool call that uses the id of a pending one
    if (s.pending_futures call.call_id).isSome then .inl { s with resuming := .pendingBuiltin }
    else s.dispatchTool E position call

/-- One turn of the execution loop. -/
def step (E : CodeEnv) (position : ℕ) (s : CodeRun) :
    Resumed → CodeRun ⊕ (CodeExecutionResult × CodeRun)
  | .panic printed =>
    .inr (s.finish .null (s.stdout ++ printed ++ "\nVmPanic: Monty VM panicked during " ++
      s.resuming.activity) none s.final_answer (some .vmPanic))
  | .error printed message =>
    .inr (s.finish .null (s.stdout ++ printed ++ "\n" ++ s.resuming.errorLabel ++ ": " ++ message)
      none s.final_answer (some (s.resuming.failure message)))
  | .progress printed progress =>
    let s := { s with stdout := s.stdout ++ printed }
    match progress with
    | .complete value => .inr (s.finish value s.stdout none s.final_answer none)
    | .functionCall call => s.functionCall E position call
    | .resolveFutures pending_call_ids =>
      .inl { pending_call_ids.foldl (resolveFuture E) s with resuming := .resolveFutures }
    | .nameLookup _ => .inl { s with resuming := .nameLookup }
    | .osCall => .inl { s with resuming := .osCall }

/-- The execution loop, on all that the script gives until it returns. -/
def run (E : CodeEnv) : ℕ → CodeRun → List Resumed → Option (CodeExecutionResult × CodeRun)
  | _, _, [] => none
  | position, s, resumed :: rest =>
    match s.step E position resumed with
    | .inl s => s.run E (position + 1) rest
    | .inr returned => if rest.isEmpty then some returned else none

end CodeRun

/-- `execute_code_with_skills`, on the compiled script. -/
def executeCode (E : CodeEnv) (leases : LeaseManager) (script : List Resumed) :
    Option (CodeExecutionResult × CodeRun) :=
  (CodeRun.new leases).run E 0 script

end T3Claw
