import T3Claw.Types.Basic

/-!
# The state of a job

`context/state.rs`. A job moves along the edges of `canTransitionTo`, and its context records
the moves it has made, the last two hundred of them. The states in which a job takes up a slot
(`isParallelBlocking`) are left for good: no edge leads back to them, but for the recovery of a
stuck job.

A section that changes a context reads the clock once.
-/

namespace T3Claw.Jobs

/-- The `Uuid` of a job. -/
structure JobId where
  uuid : ℕ
  deriving DecidableEq, Repr

/-- State of a job. -/
inductive JobState where
  | pending
  | inProgress
  | completed
  | submitted
  | accepted
  | failed
  | stuck
  | cancelled
  deriving DecidableEq, Repr

namespace JobState

/-- Check if this state allows transitioning to another state. -/
def canTransitionTo : JobState → JobState → Bool
  -- the execution loop and the worker wrapper may both mark a job complete
  | completed, completed => true
  | pending, inProgress | pending, failed | pending, cancelled => true
  | inProgress, completed | inProgress, failed | inProgress, stuck | inProgress, cancelled => true
  | completed, submitted | completed, failed => true
  | submitted, accepted | submitted, failed => true
  | stuck, inProgress | stuck, failed | stuck, cancelled => true
  | _, _ => false

def isTerminal : JobState → Bool
  | accepted | failed | cancelled => true
  | _ => false

/-- Check if this job consumes a parallel execution slot. -/
def isParallelBlocking : JobState → Bool
  | pending | inProgress | stuck => true
  | _ => false

/-- `Display`. -/
def display : JobState → String
  | pending => "pending"
  | inProgress => "in_progress"
  | completed => "completed"
  | submitted => "submitted"
  | accepted => "accepted"
  | failed => "failed"
  | stuck => "stuck"
  | cancelled => "cancelled"

/-- No edge leaves a terminal state. -/
theorem canTransitionTo_of_isTerminal {s t : JobState} (h : s.isTerminal = true) :
    s.canTransitionTo t = false := by
  revert h
  cases s <;> cases t <;> decide

/-- No edge leads back into a slot. -/
theorem isParallelBlocking_of_canTransitionTo {s t : JobState}
    (h : s.canTransitionTo t = true) (ht : t.isParallelBlocking = true) :
    s.isParallelBlocking = true := by
  revert h ht
  cases s <;> cases t <;> decide

end JobState

/-- A state transition event. -/
structure StateTransition where
  src : JobState
  dst : JobState
  timestamp : Time
  reason : Option String

/-- `tools::ApprovalContext`. -/
inductive ApprovalContext where
  | autonomous (allowed_tools : List String)

/-- Context for a running job. -/
structure JobContext where
  job_id : JobId
  state : JobState
  user_id : String
  title : String
  description : String
  max_tokens : ℕ
  created_at : Time
  started_at : Option Time
  completed_at : Option Time
  repair_attempts : ℕ
  transitions : List StateTransition
  metadata : Json
  approval_context : Option ApprovalContext

def MAX_TRANSITIONS : ℕ := 200

namespace JobContext

/-- `is_owned_by`. -/
def isOwnedBy (ctx : JobContext) (user_id : String) : Bool := ctx.user_id == user_id

/-- Create a new job context with a specific user ID. -/
def withUser (job_id : JobId) (user_id title description : String) (now : Time) : JobContext where
  job_id := job_id
  state := .pending
  user_id := user_id
  title := title
  description := description
  max_tokens := 0
  created_at := now
  started_at := none
  completed_at := none
  repair_attempts := 0
  transitions := []
  metadata := .null
  approval_context := none

/-- The history with one more transition, cut to its last `MAX_TRANSITIONS`. -/
def record (transitions : List StateTransition) (t : StateTransition) : List StateTransition :=
  let transitions := transitions ++ [t]
  if MAX_TRANSITIONS < transitions.length then
    transitions.drop (transitions.length - MAX_TRANSITIONS)
  else transitions

/-- Transition to a new state. -/
def transitionTo (ctx : JobContext) (now : Time) (new_state : JobState)
    (reason : Option String) : Except String JobContext :=
  if !ctx.state.canTransitionTo new_state then
    .error ("Cannot transition from " ++ ctx.state.display ++ " to " ++ new_state.display)
  else if ctx.state = new_state then .ok ctx
  else
    .ok { ctx with
      transitions := record ctx.transitions ⟨ctx.state, new_state, now, reason⟩
      state := new_state
      started_at :=
        if new_state = .inProgress ∧ ctx.started_at = none then some now else ctx.started_at
      completed_at :=
        if new_state = .completed ∨ new_state.isTerminal then some now else ctx.completed_at }

/-- Mark the job as stuck. -/
def markStuck (ctx : JobContext) (now : Time) (reason : String) : Except String JobContext :=
  ctx.transitionTo now .stuck (some reason)

/-- Attempt to recover from stuck state. -/
def attemptRecovery (ctx : JobContext) (now : Time) : Except String JobContext :=
  if ctx.state ≠ .stuck then .error "Job is not stuck"
  else
    { ctx with repair_attempts := ctx.repair_attempts + 1 }.transitionTo now .inProgress
      (some "Recovery attempt")

/-! ### What a transition does -/

variable {ctx ctx' : JobContext} {now : Time} {new_state : JobState} {reason : Option String}

/-- A transition that is made. -/
structure Moved (ctx : JobContext) (new_state : JobState) (ctx' : JobContext) : Prop where
  allowed : ctx.state.canTransitionTo new_state = true
  state : ctx'.state = new_state
  job_id : ctx'.job_id = ctx.job_id
  user_id : ctx'.user_id = ctx.user_id
  repair_attempts : ctx'.repair_attempts = ctx.repair_attempts
  recorded : ctx' = ctx ∨ ∃ now reason,
    ctx'.transitions = record ctx.transitions ⟨ctx.state, new_state, now, reason⟩
  keeps_started : ctx.started_at.isSome → ctx'.started_at.isSome
  started : new_state = .inProgress → ctx'.started_at.isSome

theorem moved_of_transitionTo (h : ctx.transitionTo now new_state reason = .ok ctx') :
    Moved ctx new_state ctx' := by
  rw [transitionTo] at h
  by_cases hcan : ctx.state.canTransitionTo new_state = true
  · simp only [hcan, Bool.not_true, Bool.false_eq_true, if_false] at h
    by_cases hsame : ctx.state = new_state
    · rw [if_pos hsame] at h
      obtain rfl := Except.ok.inj h
      refine ⟨hcan, hsame, rfl, rfl, rfl, .inl rfl, id, fun hprogress => ?_⟩
      rw [hsame, hprogress] at hcan
      cases hcan
    · rw [if_neg hsame] at h
      obtain rfl := Except.ok.inj h
      refine ⟨hcan, rfl, rfl, rfl, rfl, .inr ⟨now, reason, rfl⟩, fun hstarted => ?_,
        fun hprogress => ?_⟩
      · dsimp only
        split
        · rfl
        · exact hstarted
      · dsimp only
        by_cases hstarted : ctx.started_at = none
        · rw [if_pos ⟨hprogress, hstarted⟩]
          rfl
        · rw [if_neg fun h => hstarted h.2]
          exact Option.isSome_iff_ne_none.mpr hstarted
  · simp only [hcan, Bool.not_false, if_true] at h
    cases h

/-- Along an edge to another state the transition is made. -/
theorem transitionTo_ok (hcan : ctx.state.canTransitionTo new_state = true) :
    ∃ ctx', ctx.transitionTo now new_state reason = .ok ctx' := by
  rw [transitionTo]
  simp only [hcan, Bool.not_true, Bool.false_eq_true, if_false]
  split
  · exact ⟨_, rfl⟩
  · exact ⟨_, rfl⟩

end JobContext

end T3Claw.Jobs
