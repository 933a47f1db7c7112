import T3Claw.Types.Capability

/-!
# Engine errors and gate pauses

The variants of `types/error.rs::EngineError` the modelled functions build or match on,
with the `Display` text they print, and `gate/mod.rs::ResumeKind`. `gatePaused` is not a
failure: it is how an effect executor hands a call back before running it.
-/

namespace T3Claw

/-- `types/thread.rs::ThreadState`. -/
inductive ThreadState where
  | created
  | running
  | waiting
  | suspended
  | completed
  | done
  | failed
  deriving DecidableEq, Repr

/-- The `Display` text of a thread state (its `Debug` name). -/
def ThreadState.debug : ThreadState → String
  | .created => "Created"
  | .running => "Running"
  | .waiting => "Waiting"
  | .suspended => "Suspended"
  | .completed => "Completed"
  | .done => "Done"
  | .failed => "Failed"

/-- What kind of external input resolves a paused gate. -/
inductive ResumeKind where
  | approval (allow_always : Bool)
  | authentication (credential_name instructions : String) (auth_url : Option String)
  | external (callback_id : String)
  deriving DecidableEq, Repr

inductive EngineError where
  | store (reason : String)
  | effect (reason : String)
  | invalidCadence (reason : String)
  | invalidTransition (src dst : ThreadState)
  | threadAlreadyRunning (id : ThreadId)
  | threadNotFound (id : ThreadId)
  | leaseNotFound (lease_id : String)
  | leaseExpired (capability_name : String)
  | accessDenied (user_id entity : String)
  | gatePaused (gate_name action_name call_id : String) (parameters : Json)
      (resume_kind : ResumeKind) (resume_output : Option Json)
      (paused_lease : Option CapabilityLease)

/-- `Display` for `EngineError`. -/
def EngineError.display : EngineError → String
  | .store reason => "store error: " ++ reason
  | .effect reason => "effect execution error: " ++ reason
  | .invalidCadence reason => "invalid cadence: " ++ reason
  | .invalidTransition src dst =>
    "invalid state transition: " ++ src.debug ++ " -> " ++ dst.debug
  | .threadAlreadyRunning id => "thread error: thread already running: " ++ uuidText id.uuid
  | .threadNotFound id => "thread not found: " ++ uuidText id.uuid
  | .leaseNotFound lease_id => "lease not found: " ++ lease_id
  | .leaseExpired capability_name => "lease expired for capability: " ++ capability_name
  | .accessDenied user_id entity =>
    "access denied: user '" ++ user_id ++ "' cannot access " ++ entity
  | .gatePaused gate_name action_name .. =>
    "gate paused: " ++ gate_name ++ " requires " ++ action_name

end T3Claw
