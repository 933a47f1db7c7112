import T3Claw.Types.Error

/-!
# Thread states and outcomes

The state machine of `types/thread.rs::ThreadState` and `runtime/messaging.rs::ThreadOutcome`.
`done` and `failed` are final: no transition leaves them.
-/

namespace T3Claw

namespace ThreadState

/-- `ThreadState::can_transition_to`. -/
def canTransitionTo : ThreadState → ThreadState → Bool
  | .created, .running | .created, .failed => true
  | .running, .waiting | .running, .suspended | .running, .completed | .running, .failed => true
  | .waiting, .running | .waiting, .failed => true
  | .suspended, .running | .suspended, .failed => true
  | .completed, .done => true
  | _, _ => false

/-- The states `count_running_threads` does not count. -/
def isTerminal (s : ThreadState) : Bool := s == .done || s == .failed

/-- The terminal states are those nothing leaves. -/
theorem isTerminal_iff {s : ThreadState} :
    s.isTerminal = true ↔ ∀ s', s.canTransitionTo s' = false := by
  constructor
  · intro h s'
    cases s <;> first | rfl | simp [isTerminal] at h
  · intro h
    cases s with
    | created => exact absurd (h .running) (by decide)
    | running => exact absurd (h .waiting) (by decide)
    | waiting => exact absurd (h .running) (by decide)
    | suspended => exact absurd (h .running) (by decide)
    | completed => exact absurd (h .done) (by decide)
    | done => rfl
    | failed => rfl

end ThreadState

/-- `runtime/messaging.rs::ThreadOutcome`. -/
inductive ThreadOutcome where
  | completed (response : Option String)
  | stopped
  | maxIterations
  | failed (error : String)
  | gatePaused (gate_name action_name call_id : String) (parameters : Json)
      (resume_kind : ResumeKind) (resume_output : Option Json)
      (paused_lease : Option CapabilityLease)

end T3Claw
