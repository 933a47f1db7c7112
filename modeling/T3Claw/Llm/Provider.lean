import T3Claw.Conc.System

/-!
# LLM providers

What `llm/error.rs`, `llm/retry.rs` and `llm/provider.rs` give the wrappers around a provider:
its errors, which of them count as what, and the readers that need no call.
-/

namespace T3Claw.Llm

/-- `LlmError`; the three wrapped errors by their texts. -/
inductive LlmError where
  | requestFailed (provider reason : String)
  | rateLimited (provider : String) (retry_after : Option ℕ)
  | invalidResponse (provider reason : String)
  | emptyResponse (provider : String)
  | contextLengthExceeded (used limit : ℕ)
  | modelNotAvailable (provider model : String)
  | authFailed (provider : String)
  | sessionExpired (provider : String)
  | sessionRenewalFailed (provider reason : String)
  | http (error : String)
  | json (error : String)
  | io (error : String)
  deriving DecidableEq

/-- Errors that indicate the provider is degraded. -/
def isTransient : LlmError → Bool
  | .requestFailed .. | .rateLimited .. | .invalidResponse .. | .emptyResponse _
  | .sessionExpired _ | .sessionRenewalFailed .. | .http _ | .io _ => true
  | _ => false

/-- Errors after which the same request could succeed. -/
def isRetryable : LlmError → Bool
  | .requestFailed .. | .rateLimited .. | .invalidResponse .. | .emptyResponse _
  | .sessionRenewalFailed .. | .http _ | .io _ => true
  | _ => false

/-- Which method of a provider is called, and with what. -/
inductive LlmCall (Request : Type) where
  | complete (request : Request)
  | completeWithTools (request : Request)

/-- The readers of a provider. `Cost` is `rust_decimal`'s type. -/
structure LlmProvider (Cost : Type) where
  model_name : String
  active_model_name : String
  cost_per_token : Cost × Cost
  cache_write_multiplier : Cost
  cache_read_discount : Cost
  calculate_cost : UInt32 → UInt32 → Cost
  effective_model_name : Option String → String

end T3Claw.Llm
