import T3Claw.Data.Text
import T3Claw.Types.Basic

/-!
# The cost guard

`agent/cost_guard.rs`. Spending is totalled by UTC day, for all calls together and for each
user, and the instants of the calls are kept for an hour. The totals of a day are not reset by
the clock but by the first call recorded on a later one.

Amounts are `rust_decimal` values, taken as a parameter. A call on the guard makes one clock
reading, of the date and of the monotonic clock alike.
-/

namespace T3Claw

/-- What the guard uses of `rust_decimal`. -/
structure DecimalCrate (D : Type) where
  zero : D
  one : D
  hundred : D
  add : D → D → D
  mul : D → D → D
  div : D → D → D
  ofU32 : UInt32 → D
  isZero : D → Bool
  trunc : D → D
  toText : D → List Char

/-- `llm/costs.rs`: the known prices for an input and an output token, and the fallback. -/
structure PriceTable (D : Type) where
  model_cost : String → Option (D × D)
  default_cost : D × D

/-- Configuration for cost guardrails. -/
structure CostGuardConfig where
  max_cost_per_day_cents : Option ℕ
  max_actions_per_hour : Option ℕ
  max_cost_per_user_per_day_cents : Option ℕ

/-- Error returned when a cost limit is exceeded. -/
inductive CostLimitExceeded where
  | dailyBudget (spent_cents limit_cents : ℕ)
  | hourlyRate (actions limit : ℕ)
  | userDailyBudget (user_id : String) (spent_cents limit_cents : ℕ)

/-- Per-model token usage counters. -/
structure ModelTokens (D : Type) where
  input_tokens : ℕ
  output_tokens : ℕ
  cost : D

/-- A running total, and the day it is for. -/
structure DailyCost (D : Type) where
  total : D
  reset_date : ℤ

/-- `CostGuard`. -/
structure CostGuard (D : Type) where
  config : CostGuardConfig
  daily_cost : DailyCost D
  action_window : List Time
  budget_exceeded : Bool
  model_tokens : String → Option (ModelTokens D)
  per_user_daily_cost : String → Option (DailyCost D)

/-- What is recorded of an LLM call. -/
structure LlmCall (D : Type) where
  model : String
  input_tokens : UInt32
  output_tokens : UInt32
  cache_read_input_tokens : UInt32
  cache_creation_input_tokens : UInt32
  cache_read_discount : D
  cache_write_multiplier : D
  cost_per_token : Option (D × D)

variable {D : Type}

/-- Convert a Decimal USD amount to whole cents (truncated). -/
def toCents (dec : DecimalCrate D) (usd : D) : ℕ :=
  (Text.parseU64 (dec.toText (dec.trunc (dec.mul usd dec.hundred)))).getD 0

/-- Cached read tokens, cached write tokens and uncached tokens, each at its price. -/
def LlmCall.cost (dec : DecimalCrate D) (prices : PriceTable D) (call : LlmCall D) : D :=
  let (input_rate, output_rate) :=
    call.cost_per_token.getD ((prices.model_cost call.model).getD prices.default_cost)
  let cached_total := min (call.cache_read_input_tokens.toNat +
    call.cache_creation_input_tokens.toNat) (2 ^ 32 - 1)
  let uncached_input := UInt32.ofNat (call.input_tokens.toNat - cached_total)
  let effective_discount :=
    if dec.isZero call.cache_read_discount then dec.one else call.cache_read_discount
  let cache_read_cost :=
    dec.div (dec.mul input_rate (dec.ofU32 call.cache_read_input_tokens)) effective_discount
  let cache_write_cost :=
    dec.mul (dec.mul input_rate (dec.ofU32 call.cache_creation_input_tokens))
      call.cache_write_multiplier
  dec.add (dec.add (dec.add (dec.mul input_rate (dec.ofU32 uncached_input)) cache_read_cost)
    cache_write_cost) (dec.mul output_rate (dec.ofU32 call.output_tokens))

/-- The action window. -/
def HOUR : Time := 3600 * SECOND

/-- `Instant::now().checked_sub(..)`: there is no instant before `boot`. -/
def hourAgo (boot now : Time) : Option Time :=
  if boot ≤ now - HOUR then some (now - HOUR) else none

namespace CostGuard

/-- `CostGuard::new`. -/
def new (dec : DecimalCrate D) (config : CostGuardConfig) (now : Time) : CostGuard D where
  config := config
  daily_cost := ⟨dec.zero, day now⟩
  action_window := []
  budget_exceeded := false
  model_tokens _ := none
  per_user_daily_cost _ := none

/-- The entries a check finds in the action window. -/
def drained (g : CostGuard D) (boot now : Time) : List Time :=
  match hourAgo boot now with
  | none => g.action_window
  | some cutoff => g.action_window.dropWhile (· < cutoff)

/-- The hourly check of `CostGuard::check_allowed`. -/
def checkHourly (g : CostGuard D) (boot now : Time) :
    Except CostLimitExceeded Unit × CostGuard D :=
  match g.config.max_actions_per_hour with
  | none => (.ok (), g)
  | some limit =>
    let window := g.drained boot now
    if limit ≤ window.length then
      (.error (.hourlyRate window.length limit), { g with action_window := window })
    else (.ok (), { g with action_window := window })

/-- `CostGuard::check_allowed`. -/
def checkAllowed (dec : DecimalCrate D) (boot now : Time) (g : CostGuard D) :
    Except CostLimitExceeded Unit × CostGuard D :=
  let spent_cents := toCents dec g.daily_cost.total
  if g.budget_exceeded then
    (.error (.dailyBudget spent_cents (g.config.max_cost_per_day_cents.getD 0)), g)
  else
    match g.config.max_cost_per_day_cents with
    | none => g.checkHourly boot now
    | some limit_cents =>
      if limit_cents ≤ spent_cents then
        (.error (.dailyBudget spent_cents limit_cents), { g with budget_exceeded := true })
      else g.checkHourly boot now

/-- The reset of `CostGuard::record_llm_call`: it drops what is from another day. -/
def resetFor (dec : DecimalCrate D) (today : ℤ) (g : CostGuard D) : CostGuard D :=
  if today ≠ g.daily_cost.reset_date then
    { g with
      daily_cost := ⟨dec.zero, today⟩
      budget_exceeded := false
      per_user_daily_cost := fun user_id =>
        (g.per_user_daily_cost user_id).filter fun entry => entry.reset_date = today }
  else g

/-- `CostGuard::record_llm_call`. -/
def recordLlmCall (dec : DecimalCrate D) (prices : PriceTable D) (now : Time)
    (call : LlmCall D) (g : CostGuard D) : D × CostGuard D :=
  let cost := call.cost dec prices
  let g := g.resetFor dec (day now)
  let total := dec.add g.daily_cost.total cost
  let crossed := g.config.max_cost_per_day_cents.any fun limit_cents =>
    limit_cents ≤ toCents dec total
  let entry := (g.model_tokens call.model).getD ⟨0, 0, dec.zero⟩
  (cost, { g with
    daily_cost := { g.daily_cost with total }
    budget_exceeded := g.budget_exceeded || crossed
    action_window := g.action_window ++ [now]
    model_tokens := Function.update g.model_tokens call.model (some
      ⟨entry.input_tokens + call.input_tokens.toNat,
        entry.output_tokens + call.output_tokens.toNat, dec.add entry.cost cost⟩) })

/-- The entry of a user, reset when it is from another day. -/
def entryFor (dec : DecimalCrate D) (today : ℤ) (g : CostGuard D) (user_id : String) :
    DailyCost D :=
  let entry := (g.per_user_daily_cost user_id).getD ⟨dec.zero, today⟩
  if today ≠ entry.reset_date then ⟨dec.zero, today⟩ else entry

/-- `CostGuard::record_llm_call_for_user`. -/
def recordLlmCallForUser (dec : DecimalCrate D) (prices : PriceTable D) (now : Time)
    (user_id : String) (call : LlmCall D) (g : CostGuard D) : D × CostGuard D :=
  let (cost, g) := g.recordLlmCall dec prices now call
  let entry := g.entryFor dec (day now) user_id
  let per_user_daily_cost := Function.update g.per_user_daily_cost user_id
    (some { entry with total := dec.add entry.total cost })
  (cost, { g with per_user_daily_cost })

/-- The per-user check of `CostGuard::check_allowed_for_user`. -/
def checkUser (dec : DecimalCrate D) (now : Time) (user_id : String) (g : CostGuard D) :
    Except CostLimitExceeded Unit :=
  match g.config.max_cost_per_user_per_day_cents, g.per_user_daily_cost user_id with
  | some limit_cents, some entry =>
    if entry.reset_date = day now ∧ limit_cents ≤ toCents dec entry.total then
      .error (.userDailyBudget user_id (toCents dec entry.total) limit_cents)
    else .ok ()
  | _, _ => .ok ()

/-- `CostGuard::check_allowed_for_user`. -/
def checkAllowedForUser (dec : DecimalCrate D) (boot now : Time) (user_id : String)
    (g : CostGuard D) : Except CostLimitExceeded Unit × CostGuard D :=
  match g.checkAllowed dec boot now with
  | (.error e, g) => (.error e, g)
  | (.ok (), g) => (g.checkUser dec now user_id, g)

end CostGuard

end T3Claw
