import Mathlib.Algebra.Group.Nat.Defs
import T3Claw.Llm.Provider

/-!
# The circuit breaker

`llm/circuit_breaker.rs`. A call is admitted, goes to the inner provider and has its outcome
recorded: two critical sections with an await of any length between them. A call that was
admitted before the circuit opened may therefore succeed while it is open, where
`record_success` says it "shouldn't get here" and closes the circuit again.

In a release build the debug assertion there does nothing, and neither does it here. What has
happened is kept beside the breaker for statements about runs and is read by no code.
-/

namespace T3Claw.Llm

open Conc

/-- Configuration for the circuit breaker. -/
structure CircuitBreakerConfig where
  failure_threshold : ℕ
  recovery_timeout : ℕ
  half_open_successes_needed : ℕ

/-- Circuit breaker states. -/
inductive CircuitState where
  | closed
  | opened
  | halfOpen
  deriving DecidableEq

/-- Internal mutable state. -/
structure BreakerState where
  state : CircuitState
  consecutive_failures : ℕ
  opened_at : Option ℕ
  half_open_successes : ℕ

def BreakerState.new : BreakerState := ⟨.closed, 0, none, 0⟩

/-- Seconds without decimals, ties to even. -/
def roundSecs (nanoseconds : ℕ) : ℕ :=
  let secs := nanoseconds / 10 ^ 9
  let rest := 2 * (nanoseconds % 10 ^ 9)
  if rest < 10 ^ 9 || (rest = 10 ^ 9 && secs % 2 = 0) then secs else secs + 1

namespace BreakerState

variable (config : CircuitBreakerConfig) (model_name : String) (now : ℕ)

/-- `check_allowed`. -/
def checkAllowed (s : BreakerState) : Except LlmError Unit × BreakerState :=
  match s.state with
  | .closed | .halfOpen => (.ok (), s)
  | .opened =>
    match s.opened_at with
    | some opened_at =>
      if config.recovery_timeout ≤ now - opened_at then
        (.ok (), { s with state := .halfOpen, half_open_successes := 0 })
      else
        let remaining := config.recovery_timeout - (now - opened_at)
        (.error (.requestFailed model_name ("Circuit breaker open (" ++
          toString s.consecutive_failures ++ " consecutive failures, recovery in " ++
          toString (roundSecs remaining) ++ "s)")), s)
    | none => (.ok (), { s with state := .closed })

/-- `record_success`. -/
def recordSuccess (s : BreakerState) : BreakerState :=
  match s.state with
  | .closed => { s with consecutive_failures := 0 }
  | .halfOpen =>
    let s := { s with half_open_successes := s.half_open_successes + 1 }
    if config.half_open_successes_needed ≤ s.half_open_successes then
      { s with state := .closed, consecutive_failures := 0, opened_at := none }
    else s
  -- The debug assertion is here.
  | .opened => { s with state := .closed, consecutive_failures := 0, opened_at := none }

/-- `record_failure`, of a transient error. -/
def recordFailure (s : BreakerState) : BreakerState :=
  match s.state with
  | .closed =>
    let s := { s with consecutive_failures := s.consecutive_failures + 1 }
    if config.failure_threshold ≤ s.consecutive_failures then
      { s with state := .opened, opened_at := some now }
    else s
  | .halfOpen => { s with state := .opened, opened_at := some now, half_open_successes := 0 }
  | .opened => s

end BreakerState

/-! ### Calls through the breaker -/

/-- What happens to a circuit. -/
inductive CircuitEvent where
  | admitted (at_ : ℕ)
  | opened (at_ : ℕ)
  | bypassed
  deriving DecidableEq

/-- The breaker, the clock, what the inner provider is ready to answer, and what has happened
so far, newest first. -/
structure Circuit (Response : Type) where
  breaker : BreakerState
  now : ℕ
  reply : Except LlmError Response
  history : List CircuitEvent

/-- The steps of a call. -/
inductive BreakerInstr (Request : Type) where
  | checkAllowed
  | inner (call : LlmCall Request)
  | recordSuccess
  | recordFailure

/-- What they answer. -/
abbrev BreakerInstr.Answer (Request Response : Type) : BreakerInstr Request → Type
  | checkAllowed => Except LlmError Unit
  | inner _ => Except LlmError Response
  | recordSuccess | recordFailure => Unit

section

variable {Request Response : Type}

/-- The code of a call. -/
abbrev BreakerProg (Request Response α : Type) : Type :=
  Prog (BreakerInstr Request) (BreakerInstr.Answer Request Response) α

/-- `record_failure`: only transient errors count. -/
def recordFailure (err : LlmError) : BreakerProg Request Response Unit :=
  if !isTransient err then pure () else Prog.perform BreakerInstr.recordFailure

/-- Both methods: admission, the inner call, its outcome. -/
def guarded (call : LlmCall Request) :
    BreakerProg Request Response (Except LlmError Response) := do
  match ← Prog.perform BreakerInstr.checkAllowed with
  | .error err => pure (.error err)
  | .ok () =>
    match ← Prog.perform (BreakerInstr.inner call) with
    | .ok resp =>
      Prog.perform BreakerInstr.recordSuccess
      pure (.ok resp)
    | .error err =>
      recordFailure err
      pure (.error err)

/-- `complete`. -/
def complete (request : Request) : BreakerProg Request Response (Except LlmError Response) :=
  guarded (.complete request)

/-- `complete_with_tools`. -/
def completeWithTools (request : Request) :
    BreakerProg Request Response (Except LlmError Response) :=
  guarded (.completeWithTools request)

/-- The code of a call on the breaker. -/
def LlmCall.code : LlmCall Request → BreakerProg Request Response (Except LlmError Response)
  | .complete request => Llm.complete request
  | .completeWithTools request => Llm.completeWithTools request

namespace Circuit

variable (config : CircuitBreakerConfig) (model_name : String)

def new (now : ℕ) (reply : Except LlmError Response) : Circuit Response :=
  ⟨.new, now, reply, []⟩

/-- What a step answers and does. -/
def exec : (i : BreakerInstr Request) → Circuit Response →
    i.Answer Request Response × Circuit Response
  | .checkAllowed, c =>
    match c.breaker.checkAllowed config model_name c.now with
    | (.ok (), breaker) =>
      (.ok (), { c with breaker, history := .admitted c.now :: c.history })
    | (.error err, breaker) => (.error err, { c with breaker })
  | .inner _, c => (c.reply, c)
  | .recordSuccess, c =>
    ((), { c with
      breaker := c.breaker.recordSuccess config
      history := if c.breaker.state = .opened then .bypassed :: c.history else c.history })
  | .recordFailure, c =>
    let breaker := c.breaker.recordFailure config c.now
    ((), { c with
      breaker
      history := if c.breaker.state ≠ .opened ∧ breaker.state = .opened then
        .opened c.now :: c.history else c.history })

end Circuit

/-- What the environment does: time passes, and the provider answers differently. -/
inductive CircuitChange (Response : Type) where
  | clock (nanoseconds : ℕ)
  | reply (answer : Except LlmError Response)

/-- Any number of calls through one breaker, in any order of their steps. -/
def breakerSystem (config : CircuitBreakerConfig) (model_name : String) :
    System (LlmCall Request) (CircuitChange Response) (BreakerInstr Request)
      (BreakerInstr.Answer Request Response) (Circuit Response) (Except LlmError Response) where
  exec := Circuit.exec config model_name
  code := LlmCall.code
  env
    | .clock nanoseconds, c => some { c with now := c.now + nanoseconds }
    | .reply answer, c => some { c with reply := answer }

/-! ### The circuit is respected -/

/-- Nobody is admitted before the timeout is over after an opening. -/
def Waited (timeout : ℕ) (history : List CircuitEvent) : Prop :=
  history.Pairwise fun later earlier => ∀ t u, earlier = .opened t → later = .admitted u →
    t + timeout ≤ u

/-- The circuit has been respected: no success has been recorded while it was open, and no call
admitted before the timeout was over. -/
structure Respected (timeout : ℕ) (history : List CircuitEvent) : Prop where
  unbypassed : CircuitEvent.bypassed ∉ history
  waited : Waited timeout history

/-- A call has been admitted since the circuit last opened, if it has. -/
def probed : List CircuitEvent → Bool
  | .opened _ :: _ => false
  | _ => true

/-- A success is recorded only when a call has been admitted since the circuit last opened. -/
def succeedsProbed (c : Conf (LlmCall Request) (BreakerInstr Request)
    (BreakerInstr.Answer Request Response) (Circuit Response) (Except LlmError Response)) :
    Move (LlmCall Request) (CircuitChange Response) → Bool
  | .step k =>
    match c.tasks[k]? with
    | some ⟨_, .act .recordSuccess _⟩ => probed c.state.history
    | _ => true
  | _ => true

/-- What holds at any time: the circuit is open when nobody has been admitted since it opened,
and otherwise every opening is a timeout ago. -/
structure Circuit.Sound (timeout : ℕ) (c : Circuit Response) : Prop where
  respected : Respected timeout c.history
  opened : c.breaker.state = .opened ↔ probed c.history = false
  since : ∀ t rest, c.history = .opened t :: rest → c.breaker.opened_at = some t ∧ t ≤ c.now
  earlier : ∀ t, .opened t ∈ c.history →
    t + timeout ≤ c.now ∨ ∃ rest, c.history = .opened t :: rest

section

variable {config : CircuitBreakerConfig} {model_name : String} {c : Circuit Response}

theorem Circuit.sound_new (timeout now : ℕ) (reply : Except LlmError Response) :
    (Circuit.new now reply).Sound timeout where
  respected := ⟨List.not_mem_nil, List.Pairwise.nil⟩
  opened := ⟨nofun, nofun⟩
  since _ _ h := (nomatch h)
  earlier _ h := absurd h List.not_mem_nil

/-- While the circuit is not open, every opening is a timeout ago. -/
theorem Circuit.Sound.over {timeout : ℕ} (hc : c.Sound timeout)
    (hclosed : c.breaker.state ≠ .opened) {t : ℕ} (ht : .opened t ∈ c.history) :
    t + timeout ≤ c.now := by
  refine (hc.earlier t ht).resolve_right fun ⟨rest, hrest⟩ => hclosed (hc.opened.mpr ?_)
  rw [hrest]
  rfl

/-- An open circuit has opened last, at the instant it keeps. -/
theorem Circuit.Sound.opening {timeout : ℕ} (hc : c.Sound timeout)
    (hopen : c.breaker.state = .opened) : ∃ t rest, c.history = .opened t :: rest ∧
      c.breaker.opened_at = some t ∧ t ≤ c.now := by
  have hprobed := hc.opened.mp hopen
  unfold probed at hprobed
  split at hprobed
  · next t rest hhistory => exact ⟨t, rest, hhistory, hc.since t rest hhistory⟩
  · cases hprobed

/-- A call is admitted when every opening is a timeout ago. -/
theorem Circuit.Sound.admitted {timeout : ℕ} (hc : c.Sound timeout) {breaker : BreakerState}
    (hbreaker : breaker.state ≠ .opened)
    (hover : ∀ t, .opened t ∈ c.history → t + timeout ≤ c.now) :
    Circuit.Sound timeout { c with breaker, history := .admitted c.now :: c.history } where
  respected :=
    ⟨fun hmem => (List.mem_cons.mp hmem).elim nofun hc.respected.unbypassed,
      List.pairwise_cons.mpr ⟨fun earlier hmem t u ht hu => by
        obtain rfl := ht
        obtain rfl := CircuitEvent.admitted.inj hu
        exact hover t hmem, hc.respected.waited⟩⟩
  opened := iff_of_false hbreaker (by simp [probed])
  since _ _ h := (nomatch (List.cons.inj h).1)
  earlier t ht := .inl (hover t ((List.mem_cons.mp ht).resolve_left nofun))

/-- The circuit opens. -/
theorem Circuit.Sound.open {timeout : ℕ} (hc : c.Sound timeout)
    (hclosed : c.breaker.state ≠ .opened) {breaker : BreakerState}
    (hbreaker : breaker.state = .opened) (hat : breaker.opened_at = some c.now) :
    Circuit.Sound timeout { c with breaker, history := .opened c.now :: c.history } where
  respected :=
    ⟨fun hmem => (List.mem_cons.mp hmem).elim nofun hc.respected.unbypassed,
      List.pairwise_cons.mpr ⟨fun _ _ _ _ _ hu => (nomatch hu), hc.respected.waited⟩⟩
  opened := iff_of_true hbreaker rfl
  since t rest h := by
    obtain rfl := CircuitEvent.opened.inj (List.cons.inj h).1
    exact ⟨hat, Nat.le_refl _⟩
  earlier t ht := by
    obtain heq | hold := List.mem_cons.mp ht
    · exact .inr ⟨c.history, heq ▸ rfl⟩
    · exact .inl (hc.over hclosed hold)

/-- A step that neither admits nor opens. -/
theorem Circuit.Sound.keep {timeout : ℕ} (hc : c.Sound timeout) {breaker : BreakerState}
    (hstate : breaker.state = .opened ↔ c.breaker.state = .opened)
    (hat : c.breaker.state = .opened → breaker.opened_at = c.breaker.opened_at) :
    Circuit.Sound timeout { c with breaker } where
  respected := hc.respected
  opened := hstate.trans hc.opened
  since t rest h := by
    have hopen : c.breaker.state = .opened := hc.opened.mpr (by rw [h]; rfl)
    rw [hat hopen]
    exact hc.since t rest h
  earlier := hc.earlier

/-- What an admission finds: a circuit that is not open, one whose timeout is over, or one that
stays open. -/
theorem BreakerState.checkAllowed_opened (config : CircuitBreakerConfig) (model_name : String)
    (now : ℕ) {s : BreakerState} {t : ℕ} (hopen : s.state = .opened) (hat : s.opened_at = some t) :
    (config.recovery_timeout ≤ now - t ∧ s.checkAllowed config model_name now =
        (.ok (), { s with state := .halfOpen, half_open_successes := 0 })) ∨
      ∃ err, s.checkAllowed config model_name now = (.error err, s) := by
  unfold BreakerState.checkAllowed
  simp only [hopen, hat]
  by_cases hover : config.recovery_timeout ≤ now - t
  · rw [if_pos hover]
    exact .inl ⟨hover, rfl⟩
  · rw [if_neg hover]
    exact .inr ⟨_, rfl⟩

theorem BreakerState.checkAllowed_of_ne (config : CircuitBreakerConfig) (model_name : String)
    (now : ℕ) {s : BreakerState} (hclosed : s.state ≠ .opened) :
    s.checkAllowed config model_name now = (.ok (), s) := by
  unfold BreakerState.checkAllowed
  cases hstate : s.state with
  | opened => exact absurd hstate hclosed
  | _ => rfl

/-- **An admission keeps the circuit sound.** -/
theorem Circuit.Sound.checkAllowed (hc : c.Sound config.recovery_timeout) :
    (Circuit.exec config model_name (.checkAllowed : BreakerInstr Request) c).2.Sound
      config.recovery_timeout := by
  unfold Circuit.exec
  dsimp only
  by_cases hopen : c.breaker.state = .opened
  · obtain ⟨t, rest, hhistory, hat, hpast⟩ := hc.opening hopen
    obtain ⟨hover, hallowed⟩ | ⟨err, hrejected⟩ :=
      BreakerState.checkAllowed_opened config model_name c.now hopen hat
    · rw [hallowed]
      refine hc.admitted (by nofun) fun u hu => (hc.earlier u hu).elim id fun ⟨other, hother⟩ => ?_
      -- The opening in force is the last one, and its timeout is over.
      have hut : u = t := CircuitEvent.opened.inj (List.cons.inj (hother.symm.trans hhistory)).1
      omega
    · rw [hrejected]
      exact hc
  · rw [BreakerState.checkAllowed_of_ne config model_name c.now hopen]
    exact hc.admitted hopen fun t ht => hc.over hopen ht

/-- A success, in a circuit that is not open. -/
theorem Circuit.Sound.recordSuccess (hc : c.Sound config.recovery_timeout)
    (hclosed : c.breaker.state ≠ .opened) :
    (Circuit.exec config model_name (.recordSuccess : BreakerInstr Request) c).2.Sound
      config.recovery_timeout := by
  have hstate : (c.breaker.recordSuccess config).state ≠ .opened := by
    unfold BreakerState.recordSuccess
    cases hb : c.breaker.state with
    | closed => nofun
    | opened => exact absurd hb hclosed
    | halfOpen =>
      dsimp only
      split <;> nofun
  unfold Circuit.exec
  simp only [if_neg hclosed]
  exact hc.keep (iff_of_false hstate hclosed) fun hopen => absurd hopen hclosed

/-- A failure. -/
theorem Circuit.Sound.recordFailure (hc : c.Sound config.recovery_timeout) :
    (Circuit.exec config model_name (.recordFailure : BreakerInstr Request) c).2.Sound
      config.recovery_timeout := by
  unfold Circuit.exec
  by_cases hclosed : c.breaker.state = .opened
  · have hsame : c.breaker.recordFailure config c.now = c.breaker := by
      unfold BreakerState.recordFailure
      rw [hclosed]
    simp only [hsame, hclosed, ne_eq, not_true_eq_false, false_and, if_false]
    exact hc
  · by_cases hopens : (c.breaker.recordFailure config c.now).state = .opened
    · have hat : (c.breaker.recordFailure config c.now).opened_at = some c.now := by
        unfold BreakerState.recordFailure at hopens ⊢
        cases hb : c.breaker.state with
        | opened => exact absurd hb hclosed
        | halfOpen => rfl
        | closed =>
          simp only [hb] at hopens ⊢
          split at hopens
          · next hfailures => rw [if_pos hfailures]
          · cases hopens
      simp only [hopens, hclosed, ne_eq, not_false_eq_true, and_self, if_true]
      exact hc.open hclosed hopens hat
    · simp only [hopens, and_false, if_false]
      exact hc.keep (iff_of_false hopens hclosed) fun h => absurd h hclosed

/-- **In every run that records successes only when a call has been admitted since the circuit
last opened, the circuit is respected.** -/
theorem circuit_respected {now : ℕ} {reply : Except LlmError Response}
    {conf : Conf (LlmCall Request) (BreakerInstr Request) (BreakerInstr.Answer Request Response)
      (Circuit Response) (Except LlmError Response)}
    (hreach : (breakerSystem config model_name).Reach (fun c m => succeedsProbed c m = true)
      (.idle (Circuit.new now reply)) conf) :
    Respected config.recovery_timeout conf.state.history := by
  have hsound : conf.state.Sound config.recovery_timeout := by
    refine hreach.induction (J := fun conf => Circuit.Sound config.recovery_timeout conf.state)
      (Circuit.sound_new _ now reply) fun c c' m hc hok hnext => ?_
    rcases m with k | op | e
    · obtain ⟨op, i, f, hk, -, rfl⟩ := System.next_step_eq_some.mp hnext
      cases i with
      | checkAllowed => exact hc.checkAllowed
      | inner call => exact hc
      | recordFailure => exact @Circuit.Sound.recordFailure Request _ config model_name c.state hc
      | recordSuccess =>
        rw [succeedsProbed, hk] at hok
        refine @Circuit.Sound.recordSuccess Request _ config model_name c.state hc fun hopen => ?_
        rw [hc.opened.mp hopen] at hok
        cases hok
    · obtain ⟨s, hs, rfl⟩ := System.next_start_eq_some.mp hnext
      obtain rfl := Option.some.inj hs
      exact hc
    · obtain ⟨s, hs, rfl⟩ := System.next_env_eq_some.mp hnext
      cases e with
      | reply answer =>
        obtain rfl := Option.some.inj hs
        exact ⟨hc.respected, hc.opened, hc.since, hc.earlier⟩
      | clock nanoseconds =>
        obtain rfl := Option.some.inj hs
        exact ⟨hc.respected, hc.opened,
          fun t rest h => ⟨(hc.since t rest h).1, Nat.le_add_right_of_le (hc.since t rest h).2⟩,
          fun t ht => (hc.earlier t ht).imp_left Nat.le_add_right_of_le⟩
  exact hsound.respected

end

end

/-! ### Two runs -/

/-- One failure opens the circuit for ten seconds, one success closes it. -/
def CircuitBreakerConfig.sample : CircuitBreakerConfig := ⟨1, 10 * 10 ^ 9, 1⟩

def sampleError : LlmError := .requestFailed "p" "down"

/-- The breaker of this configuration over a provider that is up. -/
abbrev sampleConf : Conf (LlmCall Unit) (BreakerInstr Unit) (BreakerInstr.Answer Unit Unit)
    (Circuit Unit) (Except LlmError Unit) := .idle (Circuit.new 0 (.ok ()))

/-- A failure opens the circuit, and a probe ten seconds later closes it. -/
def probedRun : List (Move (LlmCall Unit) (CircuitChange Unit)) :=
  [.start (.complete ()), .step 0, .env (.reply (.error sampleError)), .step 0, .step 0,
    .env (.clock (10 * 10 ^ 9)), .env (.reply (.ok ())), .start (.completeWithTools ()),
    .step 1, .step 1, .step 1]

/-- The theorem on that run. -/
theorem circuit_respected_probed : ∃ conf, (breakerSystem .sample "p").play sampleConf probedRun =
    some conf ∧ conf.state.history = [.admitted (10 * 10 ^ 9), .opened 0, .admitted 0] ∧
      Respected (10 * 10 ^ 9) conf.state.history := by
  have hplay : ((breakerSystem .sample "p").play sampleConf probedRun).any (fun conf =>
      decide (conf.state.history = [.admitted (10 * 10 ^ 9), .opened 0, .admitted 0])) = true := by
    decide +kernel
  obtain ⟨conf, hconf, hhistory⟩ := (Option.any_eq_true _ _).mp hplay
  have hallowed : System.Allowed (breakerSystem .sample "p")
      (fun c m => succeedsProbed c m = true) sampleConf probedRun := by
    decide +kernel
  exact ⟨conf, hconf, of_decide_eq_true hhistory,
    circuit_respected (System.Reach.init.of_play hallowed hconf)⟩

/-- Two calls are admitted, the second fails and opens the circuit, the first succeeds, and a
third call comes at once. -/
def lateSuccessRun : List (Move (LlmCall Unit) (CircuitChange Unit)) :=
  [.start (.complete ()), .step 0, .start (.complete ()), .step 1,
    .env (.reply (.error sampleError)), .step 1, .step 1,
    .env (.reply (.ok ())), .step 0, .step 0, .start (.complete ()), .step 2]

/-- The late success finds the circuit open and closes it, and the third call is admitted. -/
theorem late_success_bypasses : ∃ conf,
    (breakerSystem .sample "p").play sampleConf lateSuccessRun = some conf ∧
      conf.state.history = [.admitted 0, .bypassed, .opened 0, .admitted 0, .admitted 0] ∧
      .bypassed ∈ conf.state.history ∧ ¬ Waited (10 * 10 ^ 9) conf.state.history ∧
      ¬ Respected (10 * 10 ^ 9) conf.state.history := by
  have hplay : ((breakerSystem .sample "p").play sampleConf lateSuccessRun).any (fun conf =>
      decide (conf.state.history =
        [.admitted 0, .bypassed, .opened 0, .admitted 0, .admitted 0])) = true := by
    decide +kernel
  obtain ⟨conf, hconf, hhistory⟩ := (Option.any_eq_true _ _).mp hplay
  have hhistory := of_decide_eq_true hhistory
  have hbypassed : CircuitEvent.bypassed ∈ conf.state.history := by
    rw [hhistory]
    decide
  refine ⟨conf, hconf, hhistory, hbypassed, fun hwaited => ?_,
    fun hrespected => hrespected.unbypassed hbypassed⟩
  rw [hhistory] at hwaited
  have hthird := (List.pairwise_cons.mp hwaited).1 (.opened 0) (by decide) 0 0 rfl rfl
  exact absurd hthird (by decide)

end T3Claw.Llm
