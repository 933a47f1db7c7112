import Mathlib.Algebra.Group.Nat.Defs
import Mathlib.Logic.Function.Basic
import T3Claw.Llm.Provider

/-!
# Failover and attribution

`llm/failover.rs`. A call tries the providers in order, those in cooldown last if at all. The
one that serves it is stored in `last_used`, which is shared, and bound to the task. Of the
readers that tell what a call has cost, only `effective_model_name` looks at the binding, and
takes it; the others, and it the second time, read `last_used`, which another task may have
stored to meanwhile. An error leaves the binding of an earlier call where it is.

Every load and store of an atomic is a step of its own. A task is known by the number the
runtime gives it, in the order tasks are spawned. What a reader has reported, and that a call
has failed, is noted for statements about runs.
-/

namespace T3Claw.Llm

open Conc

/-- Configuration for per-provider cooldown behaviour. -/
structure CooldownConfig where
  cooldown_duration : ℕ
  failure_threshold : ℕ

/-- Per-provider cooldown state. -/
structure ProviderCooldown where
  failure_count : ℕ
  cooldown_activated_nanos : ℕ

def ProviderCooldown.new : ProviderCooldown := ⟨0, 0⟩

/-- A number is a `u32`, a `u64`. -/
def wrapU32 (n : ℕ) : ℕ := n % 2 ^ 32
def wrapU64 (n : ℕ) : ℕ := n % 2 ^ 64

/-- What a failover provider is made of; there is at least one provider. -/
structure FailoverProvider (Cost : Type) where
  providers : List (LlmProvider Cost)
  cooldown_config : CooldownConfig
  nonempty : 0 < providers.length

/-- `with_cooldown`. -/
def FailoverProvider.withCooldown {Cost : Type} (providers : List (LlmProvider Cost))
    (cooldown_config : CooldownConfig) : Except LlmError (FailoverProvider Cost) :=
  if h : 0 < providers.length then .ok ⟨providers, cooldown_config, h⟩
  else .error (.requestFailed "failover" "FailoverProvider requires at least one provider")

/-- The readers. -/
inductive Reader where
  | modelName
  | activeModelName
  | costPerToken
  | cacheWriteMultiplier
  | cacheReadDiscount
  | calculateCost (input_tokens output_tokens : UInt32)
  | effectiveModelName (requested_model : Option String)
  deriving DecidableEq

/-- What they return. -/
inductive Reading (Cost : Type) where
  | name (name : String)
  | rates (input output : Cost)
  | cost (cost : Cost)
  deriving DecidableEq

/-- What a provider answers a reader. -/
def LlmProvider.read {Cost : Type} (p : LlmProvider Cost) : Reader → Reading Cost
  | .modelName => .name p.model_name
  | .activeModelName => .name p.active_model_name
  | .costPerToken => .rates p.cost_per_token.1 p.cost_per_token.2
  | .cacheWriteMultiplier => .cost p.cache_write_multiplier
  | .cacheReadDiscount => .cost p.cache_read_discount
  | .calculateCost input_tokens output_tokens => .cost (p.calculate_cost input_tokens output_tokens)
  | .effectiveModelName requested_model => .name (p.effective_model_name requested_model)

section

variable {Cost Request Response : Type}

/-- The steps, over `n` providers. -/
inductive FailoverInstr (Cost Request : Type) (n : ℕ) where
  | nowNanos
  | loadActivated (i : Fin n)
  | call (i : Fin n) (call : LlmCall Request)
  | storeLastUsed (i : Fin n)
  | loadLastUsed (reader : Reader)
  | storeFailures (i : Fin n) (failure_count : ℕ)
  | addFailure (i : Fin n)
  | storeActivated (i : Fin n) (nanos : ℕ)
  | bind (task_id : ℕ) (i : Fin n)
  | take (task_id : ℕ)
  | failed
  | report (reader : Reader) (reading : Reading Cost) (bound : Bool)

/-- What they answer. -/
abbrev FailoverInstr.Answer (Cost Request Response : Type) (n : ℕ) :
    FailoverInstr Cost Request n → Type
  | nowNanos | loadActivated _ | addFailure _ => ℕ
  | call .. => Except LlmError Response
  | loadLastUsed _ => Fin n
  | take _ => Option (Fin n)
  | storeLastUsed _ | storeFailures .. | storeActivated .. | bind .. | failed | report .. => Unit

/-- The shared part of a failover provider, the clock, what the providers are ready to answer,
and how many tasks have been spawned. -/
structure FailoverState (Response : Type) (n : ℕ) where
  last_used : Fin n
  cooldowns : Fin n → ProviderCooldown
  provider_for_task : ℕ → Option (Fin n)
  elapsed : ℕ
  replies : Fin n → Except LlmError Response
  spawned : ℕ

/-- Change the cooldown state of a provider. -/
def FailoverState.onCooldown {n : ℕ} (s : FailoverState Response n) (i : Fin n)
    (f : ProviderCooldown → ProviderCooldown) : FailoverState Response n :=
  { s with cooldowns := Function.update s.cooldowns i (f (s.cooldowns i)) }

/-- What a step answers and does. -/
def FailoverState.exec {n : ℕ} : (i : FailoverInstr Cost Request n) → FailoverState Response n →
    i.Answer Cost Request Response n × FailoverState Response n
  | .nowNanos, s => (wrapU64 s.elapsed, s)
  | .loadActivated i, s => ((s.cooldowns i).cooldown_activated_nanos, s)
  | .call i _, s => (s.replies i, s)
  | .storeLastUsed i, s => ((), { s with last_used := i })
  | .loadLastUsed _, s => (s.last_used, s)
  | .storeFailures i failure_count, s =>
    ((), s.onCooldown i fun c => { c with failure_count := failure_count })
  | .addFailure i, s =>
    ((s.cooldowns i).failure_count,
      s.onCooldown i fun c => { c with failure_count := wrapU32 (c.failure_count + 1) })
  | .storeActivated i nanos, s =>
    ((), s.onCooldown i fun c => { c with cooldown_activated_nanos := nanos })
  | .bind task_id i, s =>
    ((), { s with provider_for_task := Function.update s.provider_for_task task_id (some i) })
  | .take task_id, s =>
    (s.provider_for_task task_id,
      { s with provider_for_task := Function.update s.provider_for_task task_id none })
  | .failed, s => ((), s)
  | .report .., s => ((), s)

/-- The code over `n` providers. -/
abbrev FailoverProg (Cost Request Response : Type) (n : ℕ) (α : Type) : Type :=
  Prog (FailoverInstr Cost Request n) (FailoverInstr.Answer Cost Request Response n) α

/-- One step of it. -/
def FailoverInstr.act {n : ℕ} (i : FailoverInstr Cost Request n) :
    FailoverProg Cost Request Response n (i.Answer Cost Request Response n) := Prog.perform i

@[simp] theorem FailoverInstr.act_bind {n : ℕ} {α : Type} (i : FailoverInstr Cost Request n)
    (f : i.Answer Cost Request Response n → FailoverProg Cost Request Response n α) :
    (i.act >>= f) = Prog.act i f := rfl

namespace FailoverProvider

variable (h : FailoverProvider Cost)

/-- The number of providers. -/
abbrev size : ℕ := h.providers.length

/-- A provider. -/
def provider (i : Fin h.size) : LlmProvider Cost := h.providers.get i

/-- The state of a new failover provider. -/
def start (replies : Fin h.size → Except LlmError Response) : FailoverState Response h.size where
  last_used := ⟨0, h.nonempty⟩
  cooldowns _ := .new
  provider_for_task _ := none
  elapsed := 0
  replies := replies
  spawned := 0

/-- `is_in_cooldown`, for each provider; those that are not. -/
def availableOf (now_nanos cooldown_nanos : ℕ) :
    List (Fin h.size) → FailoverProg Cost Request Response h.size (List (Fin h.size))
  | [] => pure []
  | i :: rest => do
    let activated ← (FailoverInstr.loadActivated i).act
    let available ← availableOf now_nanos cooldown_nanos rest
    if activated ≠ 0 ∧ now_nanos - activated < cooldown_nanos then pure available
    else pure (i :: available)

/-- `min_by_key` over the activation times: the first of the oldest. -/
def oldestOf : Fin h.size → ℕ → List (Fin h.size) →
    FailoverProg Cost Request Response h.size (Fin h.size)
  | best, _, [] => pure best
  | best, oldest, i :: rest => do
    let activated ← (FailoverInstr.loadActivated i).act
    if activated < oldest then oldestOf i activated rest else oldestOf best oldest rest

/-- The loop over the providers to try. -/
def tryEach (call : LlmCall Request) : List (Fin h.size) → Option LlmError →
    FailoverProg Cost Request Response h.size (Except LlmError (Fin h.size × Response))
  | [], last_error =>
    pure (.error (last_error.getD (.requestFailed "failover" ("Invariant violated in " ++
      "FailoverProvider: providers were exhausted but no last_error was recorded (this branch " ++
      "should be unreachable; possible causes: no provider attempts were made or " ++
      "\x60available\x60 was unexpectedly empty)."))))
  | i :: rest, _ => do
    match ← (FailoverInstr.call i call).act with
    | .ok response =>
      (FailoverInstr.storeLastUsed i).act
      (FailoverInstr.storeFailures i 0).act
      (FailoverInstr.storeActivated i 0).act
      pure (.ok (i, response))
    | .error err =>
      if !isRetryable err then pure (.error err)
      else
        let prev ← (FailoverInstr.addFailure i).act
        if h.cooldown_config.failure_threshold ≤ wrapU32 (prev + 1) then
          let nanos ← FailoverInstr.nowNanos.act
          (FailoverInstr.storeActivated i (max nanos 1)).act
          tryEach call rest (some err)
        else tryEach call rest (some err)

/-- `try_providers`. -/
def tryProviders (call : LlmCall Request) :
    FailoverProg Cost Request Response h.size (Except LlmError (Fin h.size × Response)) := do
  let now_nanos ← FailoverInstr.nowNanos.act
  let cooldown_nanos := wrapU64 h.cooldown_config.cooldown_duration
  let available ← availableOf h now_nanos cooldown_nanos (List.finRange h.size)
  match available with
  | [] =>
    let first : Fin h.size := ⟨0, h.nonempty⟩
    let activated ← (FailoverInstr.loadActivated first).act
    let oldest ← oldestOf h first activated (List.finRange h.size).tail
    tryEach h call [oldest] none
  | available => tryEach h call available none

/-- Both methods: the provider that has served the call is bound to the task. -/
def served (task_id : ℕ) (call : LlmCall Request) :
    FailoverProg Cost Request Response h.size (Except LlmError Response) := do
  match ← tryProviders h call with
  | .error err => pure (.error err)
  | .ok (provider_idx, response) =>
    (FailoverInstr.bind task_id provider_idx).act
    pure (.ok response)

/-- `complete`. -/
def complete (task_id : ℕ) (request : Request) :
    FailoverProg Cost Request Response h.size (Except LlmError Response) :=
  served h task_id (.complete request)

/-- `complete_with_tools`. -/
def completeWithTools (task_id : ℕ) (request : Request) :
    FailoverProg Cost Request Response h.size (Except LlmError Response) :=
  served h task_id (.completeWithTools request)

/-- A reader of the provider `last_used` names. -/
def readLastUsed (reader : Reader) : FailoverProg Cost Request Response h.size (Reading Cost) := do
  let i ← (FailoverInstr.loadLastUsed reader).act
  let reading := (h.provider i).read reader
  (FailoverInstr.report reader reading false).act
  pure reading

/-- `effective_model_name`. -/
def effectiveModelName (task_id : ℕ) (requested_model : Option String) :
    FailoverProg Cost Request Response h.size (Reading Cost) := do
  match ← (FailoverInstr.take task_id).act with
  | some provider_idx =>
    let reading := (h.provider provider_idx).read (.effectiveModelName requested_model)
    (FailoverInstr.report (.effectiveModelName requested_model) reading true).act
    pure reading
  | none => readLastUsed h (.effectiveModelName requested_model)

/-- A reader. -/
def readAs (task_id : ℕ) : Reader → FailoverProg Cost Request Response h.size (Reading Cost)
  | .effectiveModelName requested_model => effectiveModelName h task_id requested_model
  | reader => readLastUsed h reader

end FailoverProvider

/-! ### Tasks -/

/-- What a task does next. -/
inductive TaskStep (Request : Type) where
  | call (call : LlmCall Request)
  | read (reader : Reader)

/-- A task: its number, and what it does, in order. -/
structure CallerTask (Request : Type) where
  id : ℕ
  steps : List (TaskStep Request)

namespace FailoverProvider

variable (h : FailoverProvider Cost)

/-- A call of a task. -/
def method (task_id : ℕ) : LlmCall Request →
    FailoverProg Cost Request Response h.size (Except LlmError Response)
  | .complete request => complete h task_id request
  | .completeWithTools request => completeWithTools h task_id request

/-- What a task does, and what it has read. -/
def runSteps (task_id : ℕ) : List (TaskStep Request) →
    FailoverProg Cost Request Response h.size (List (Reading Cost))
  | [] => pure []
  | .call call :: rest => do
    match ← method h task_id call with
    | .ok _ => runSteps task_id rest
    | .error _ =>
      FailoverInstr.failed.act
      runSteps task_id rest
  | .read reader :: rest => do
    let reading ← readAs h task_id reader
    let readings ← runSteps task_id rest
    pure (reading :: readings)

end FailoverProvider

/-- What the environment does: time passes, and a provider answers differently. -/
inductive ProviderChange (Response : Type) (n : ℕ) where
  | clock (nanoseconds : ℕ)
  | reply (i : Fin n) (answer : Except LlmError Response)

/-- A configuration of tasks on a failover provider. -/
abbrev FailoverConf (Request Response : Type) (h : FailoverProvider Cost) : Type :=
  Conf (CallerTask Request) (FailoverInstr Cost Request h.size)
    (FailoverInstr.Answer Cost Request Response h.size) (FailoverState Response h.size)
    (List (Reading Cost))

/-- Its memory. -/
abbrev FailoverMemory (Request Response : Type) (h : FailoverProvider Cost) : Type :=
  Memory (FailoverInstr Cost Request h.size) (FailoverState Response h.size)

/-- Any number of tasks on one failover provider, in any order of their steps. The tasks are
numbered as they are spawned. -/
def failoverSystem (h : FailoverProvider Cost) : System (CallerTask Request)
    (ProviderChange Response h.size) (FailoverInstr Cost Request h.size)
    (FailoverInstr.Answer Cost Request Response h.size) (FailoverState Response h.size)
    (List (Reading Cost)) where
  exec := FailoverState.exec
  code task := h.runSteps task.id task.steps
  start task s := if task.id = s.spawned then some { s with spawned := s.spawned + 1 } else none
  env
    | .clock nanoseconds, s => some { s with elapsed := s.elapsed + nanoseconds }
    | .reply i answer, s => some { s with replies := Function.update s.replies i answer }

end

end T3Claw.Llm
