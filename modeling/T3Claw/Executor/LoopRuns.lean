import Mathlib.Logic.Relation
import T3Claw.Executor.MainLoop

/-!
# Runs of the orchestrator script

What holds all along a run of the loop, whatever the host answers: each call of an action in a
transcript that the model gets is answered behind it, once and in order (`answered_of_runLoop`); a
compaction takes nothing out of the record (`record_of_runLoop`); and the state of the thread is
changed once, at the end, as the run returns it (`transition_of_runLoop`).
-/

namespace T3Claw.Orchestrator

open T3Claw.Runtime (MessageRole)

variable {host : PyHost} {config : LoopConfig} {turns : ℕ → Turn} {step : ℕ} {turn : Turn}
  {l l' : Locals} {messages more : List Message} {content : List Char} {kept : Prop}

/-! ### Calls and their answers -/

/-- Behind each message with calls stand the answers to them, one for each in order, and nowhere
else is an answer. -/
inductive Answered : List Message → Prop
  | nil : Answered []
  | plain {msg : Message} {rest : List Message} (hcalls : msg.action_calls = none)
      (hrole : msg.role ≠ .actionResult) (h : Answered rest) : Answered (msg :: rest)
  | batch {msg : Message} {calls : List Call} {results rest : List Message}
      (hcalls : msg.action_calls = some calls) (hrole : msg.role = .assistant)
      (hids : results.map (·.action_call_id) = calls.map fun call => some call.call_id)
      (hresults : ∀ r ∈ results, r.role = .actionResult) (h : Answered rest) :
      Answered (msg :: (results ++ rest))

namespace Answered

theorem append (h : Answered messages) (hmore : Answered more) : Answered (messages ++ more) := by
  induction h with
  | nil => exact hmore
  | plain hcalls hrole _ ih => exact .plain hcalls hrole ih
  | batch hcalls hrole hids hresults _ ih =>
    rw [List.cons_append, List.append_assoc]
    exact .batch hcalls hrole hids hresults ih

theorem singleton {role : MessageRole} (hrole : role ≠ .actionResult) :
    Answered [.plain role content] := .plain rfl hrole .nil

/-- A text more, of the user or the model. -/
theorem push (h : Answered messages) {role : MessageRole} (hrole : role ≠ .actionResult) :
    Answered (messages ++ [.plain role content]) := h.append (singleton hrole)

theorem appendToSystem_append {results : List Message} (hresults : ∀ r ∈ results, r.role ≠ .system)
    (rest : List Message) :
    appendToSystem content (results ++ rest) =
      (appendToSystem content rest).map (results ++ ·) := by
  induction results with
  | nil => simp
  | cons r results ih =>
    obtain ⟨hr, hrest⟩ := List.forall_mem_cons.mp hresults
    rw [List.cons_append, appendToSystem, if_neg hr, ih hrest, Option.map_map]
    rfl

theorem appendToSystem (h : Answered messages)
    (heq : Orchestrator.appendToSystem content messages = some more) : Answered more := by
  induction h generalizing more with
  | nil => cases heq
  | plain hcalls hrole hrest ih =>
    rw [Orchestrator.appendToSystem] at heq
    split at heq
    · obtain rfl := Option.some.inj heq
      exact .plain hcalls hrole hrest
    · obtain ⟨later, hlater, rfl⟩ := Option.map_eq_some_iff.mp heq
      exact .plain hcalls hrole (ih hlater)
  | @batch msg calls results rest hcalls hrole hids hresults hrest ih =>
    have hsystem : ∀ r ∈ results, r.role ≠ .system := by
      intro r hr hsystem
      cases (hresults r hr).symm.trans hsystem
    rw [Orchestrator.appendToSystem, if_neg (by rw [hrole]; decide),
      appendToSystem_append hsystem, Option.map_map] at heq
    obtain ⟨later, hlater, rfl⟩ := Option.map_eq_some_iff.mp heq
    exact .batch hcalls hrole hids hresults (ih hlater)

theorem appendSystemAppend (h : Answered messages) :
    Answered (Orchestrator.appendSystemAppend content messages) := by
  rw [Orchestrator.appendSystemAppend]
  cases heq : Orchestrator.appendToSystem content messages with
  | none => exact .plain rfl (fun hrole => by cases hrole) h
  | some later => exact h.appendToSystem heq

/-- A text in front. -/
theorem cons (h : Answered messages) {role : MessageRole} (hrole : role ≠ .actionResult) :
    Answered (.plain role content :: messages) := .plain rfl hrole h

theorem compacted (snapshot : List Message) (summary : List Char) :
    Answered (Orchestrator.compacted snapshot summary) := by
  refine append ?_ (cons (cons .nil (by decide)) (by decide))
  cases snapshot.find? (·.role = .system) with
  | none => exact .nil
  | some msg => exact singleton (by decide)

end Answered

theorem map_fst_pairResults (calls : List Call) (results : List (Option ActionOutcome)) :
    (pairResults calls results).map Prod.fst = calls := by
  rw [pairResults, List.map_map]
  exact List.zipIdx_map_fst 0 calls

/-- The answers to a batch, appended. -/
theorem foldl_append {α : Type} (f : α → Message) (l : Locals) (ps : List α) :
    ps.foldl (fun l p => l.append (f p)) l =
      { l with state := { l.state with
          working_messages := l.state.working_messages ++ ps.map f } } := by
  induction ps generalizing l with
  | nil => rw [List.map_nil, List.append_nil]; rfl
  | cons p ps ih =>
    rw [List.foldl_cons, ih, List.map_cons]
    simp only [Locals.append, List.append_assoc, List.singleton_append]

theorem Answered.batch_results {calls : List Call} {results : List (Option ActionOutcome)} :
    Answered ({ Message.plain .assistant content with action_calls := some calls } ::
      (pairResults calls results).map fun p => resultMessage host p.1 p.2) := by
  have hmessage : ∀ call r, (resultMessage host call r).role = .actionResult ∧
      (resultMessage host call r).action_call_id = some call.call_id := by
    intro call r
    cases r <;> exact ⟨rfl, rfl⟩
  rw [← List.append_nil (List.map _ _)]
  refine .batch rfl rfl ?_ ?_ .nil
  · rw [List.map_map]
    conv_rhs => rw [← map_fst_pairResults calls results, List.map_map]
    exact List.map_congr_left fun p _ => (hmessage p.1 p.2).2
  · intro r hr
    obtain ⟨p, -, rfl⟩ := List.mem_map.mp hr
    exact (hmessage p.1 p.2).1

/-! ### What the script does to the state -/

variable (host) (kept : Prop) in
/-- A thing the script does to the state of a thread; its own keys are overwritten by code only where
they are not `kept`. -/
inductive Edit : ThreadVars → ThreadVars → Prop
  | write (s : ThreadVars) (role : MessageRole) (content : List Char)
      (hrole : role = .user ∨ role = .assistant) :
      Edit s { s with working_messages := s.working_messages ++ [.plain role content] }
  | answer (s : ThreadVars) (content : List Char) (calls : List Call)
      (results : List (Option ActionOutcome)) :
      Edit s { s with working_messages := s.working_messages ++
        { Message.plain .assistant content with action_calls := some calls } ::
          (pairResults calls results).map fun p => resultMessage host p.1 p.2 }
  | instruct (s : ThreadVars) (content : List Char) :
      Edit s { s with working_messages := appendSystemAppend content s.working_messages }
  | compact (s : ThreadVars) (summary : List Char) : Edit s (s.compact summary)
  | note (s : ThreadVars) (resolved : Bool) (count : ℕ) (vars : String → Option Json) :
      Edit s { s with
        obligation_resolved := resolved, obligation_nudge_count := count, vars := vars }
  | overwrite (s t : ThreadVars) (h : ¬kept) : Edit s t

variable (host) (kept : Prop) in
/-- What the script has done to a state, all in all. -/
abbrev Edits : ThreadVars → ThreadVars → Prop := Relation.ReflTransGen (Edit host kept)

/-- The state a thread is in behind an outcome. -/
def Outcome.target : Outcome → ThreadState
  | .stopped | .completed | .maxIterations => .completed
  | .failed => .failed
  | .gatePaused | .needAuthentication | .needApproval => .waiting

variable (host) (kept : Prop) in
/-- What may be asked in the course of a run: the model gets the transcript of a state that is
reached, and the thread stays in its state. -/
def Asks (s : ThreadVars) : HostCall → Prop
  | .llmComplete messages _ => ∃ t, Edits host kept s t ∧ messages = t.working_messages
  | .transitionTo _ _ => False
  | _ => True

/-- A run is closed with the transition its result asks for, one without a result with none. -/
def Closes : Option LoopResult → List HostCall → Prop
  | none, calls => calls = []
  | some r, calls => ∃ reason, calls = [.transitionTo r.outcome.target reason]

namespace Flow

/-- The state an iteration leaves, if no error is raised. -/
def state? : Flow → Option ThreadVars
  | next l => some l.state
  | done r => some r.state
  | raised => none

def result? : Flow → Option LoopResult
  | done r => some r
  | _ => none

end Flow

variable (host) (kept : Prop) in
/-- What is asked and done from a state on. -/
structure Handled (s : ThreadVars) (calls : List HostCall) (left : Option ThreadVars)
    (result : Option LoopResult) : Prop where
  asks : ∃ front close, calls = front ++ close ∧ (∀ c ∈ front, Asks host kept s c) ∧
    Closes result close
  edits : ∀ t ∈ left, Edits host kept s t

variable (host) (kept : Prop) in
abbrev HandledFlow (s : ThreadVars) (p : List HostCall × Flow) : Prop :=
  Handled host kept s p.1 p.2.state? p.2.result?

namespace Handled

variable {s t : ThreadVars} {calls : List HostCall} {left : Option ThreadVars}
  {result : Option LoopResult}

theorem asks_of_edits (hst : Edits host kept s t) : ∀ {c : HostCall}, Asks host kept t c → Asks host kept s c
  | .llmComplete _ _, ⟨u, htu, hmessages⟩ => ⟨u, hst.trans htu, hmessages⟩
  | .executeCode _, h | .executeActions _, h | .saveCheckpoint _, h | .transitionTo _ _, h
  | .emitEvent _, h => h

/-- What is done behind other things. -/
theorem prepend (front : List HostCall) (hfront : ∀ c ∈ front, Asks host kept s c) (hst : Edits host kept s t)
    (h : Handled host kept t calls left result) : Handled host kept s (front ++ calls) left result := by
  obtain ⟨⟨asked, close, rfl, hasked, hclose⟩, hedits⟩ := h
  refine ⟨⟨front ++ asked, close, (List.append_assoc ..).symm, fun c hc => ?_, hclose⟩,
    fun u hu => hst.trans (hedits u hu)⟩
  obtain hc | hc := List.mem_append.mp hc
  · exact hfront c hc
  · exact asks_of_edits hst (hasked c hc)

/-- What is done to a state that was changed before. -/
theorem of_edits (hst : Edits host kept s t) (h : Handled host kept t calls left result) :
    Handled host kept s calls left result :=
  prepend [] (fun _ hc => absurd hc List.not_mem_nil) hst h

theorem next (hcalls : ∀ c ∈ calls, Asks host kept s c) (h : Edits host kept s l.state) :
    HandledFlow host kept s (calls, .next l) :=
  ⟨⟨calls, [], (List.append_nil calls).symm, hcalls, rfl⟩, fun u hu => by
    rw [← Option.some.inj hu]; exact h⟩

theorem raised (hcalls : ∀ c ∈ calls, Asks host kept s c) : HandledFlow host kept s (calls, .raised) :=
  ⟨⟨calls, [], (List.append_nil calls).symm, hcalls, rfl⟩, fun u hu => by cases hu⟩

theorem done (calls : List HostCall) (hcalls : ∀ c ∈ calls, Asks host kept s c) (r : LoopResult)
    (reason : String)
    (h : Edits host kept s r.state) :
    HandledFlow host kept s (calls ++ [.transitionTo r.outcome.target reason], .done r) :=
  ⟨⟨calls, _, rfl, hcalls, reason, rfl⟩, fun u hu => by rw [← Option.some.inj hu]; exact h⟩

/-- A return without anything asked before. -/
theorem complete (l : Locals) (o : Outcome) (reason : String) (response : Option (List Char))
    (error : Option String) :
    HandledFlow host kept l.state
      ([.transitionTo o.target reason], l.complete o response error) :=
  done [] (fun _ hc => absurd hc List.not_mem_nil)
    ⟨o, l.state, response, error, none⟩ reason .refl

/-- A wait, with a checkpoint before it. -/
theorem wait (l : Locals) (o : Outcome) (reason : String) (pause : Pause) :
    HandledFlow host kept l.state
      ([.saveCheckpoint l.counters, .transitionTo o.target reason], l.wait o pause) :=
  done [.saveCheckpoint l.counters]
    (fun c hc => by rw [List.mem_singleton.mp hc]; trivial)
    ⟨o, l.state, none, none, some pause⟩ reason .refl

/-- A checkpoint, and on it goes. -/
theorem checkpoint (h : Edits host kept s l.state) :
    HandledFlow host kept s ([.saveCheckpoint l.counters], .next l) :=
  next (fun c hc => by rw [List.mem_singleton.mp hc]; trivial) h

end Handled

theorem Edit.append (l : Locals) {role : MessageRole} (content : List Char)
    (hrole : role = .user ∨ role = .assistant) :
    Edits host kept l.state (l.append (.plain role content)).state := .single (.write _ role _ hrole)

theorem Edit.resolve (l : Locals) : Edits host kept l.state l.resolve.state :=
  .single (.note l.state true l.state.obligation_nudge_count l.state.vars)

theorem Edit.rewrite (hkeys : kept → turn.keepsKeys = true) (l : Locals) :
    Edits host kept l.state (turn.rewrite l).state := by
  rw [Turn.rewrite]
  split
  · exact .refl
  · exact .single (.overwrite _ _ fun h => absurd (hkeys h) ‹_›)

theorem handleText_handled (text : List Char) :
    HandledFlow host kept l.state (handleText host config turn l text) := by
  refine .of_edits (Edit.append l text (.inr rfl)) ?_
  rw [handleText]
  cases extractFinal text with
  | some answer => exact .complete _ .completed _ _ _
  | none =>
    dsimp only
    split
    · exact .next (fun _ hc => by cases hc) (Edit.append _ _ (.inl rfl))
    · split
      · refine .next (fun _ hc => by cases hc) (.trans (.single ?_) (Edit.append _ _ (.inl rfl)))
        exact .note _ _ _ _
      · exact .complete _ .completed _ _ _

theorem gateWait_handled (l : Locals) (pause : Pause) :
    HandledFlow host kept l.state (gateWait l pause) := .wait l .gatePaused _ pause

theorem legacyWait_handled (l : Locals) (pause : Pause) :
    HandledFlow host kept l.state (legacyWait l pause) := by
  rw [legacyWait]
  split
  · exact .wait l .needAuthentication _ pause
  · exact .wait l .needApproval _ pause

theorem afterCode_handled (result : CodeResult) :
    HandledFlow host kept l.state (afterCode config l result) := by
  rw [afterCode]
  split
  · exact .complete _ .completed _ _ _
  · split
    · exact gateWait_handled l _
    · split
      · exact legacyWait_handled l _
      · dsimp only
        split
        · split
          · exact .complete { l with consecutive_errors := _ } .failed _ _ _
          · exact .checkpoint (l := { l with consecutive_errors := _ }) .refl
        · exact .checkpoint (l := { l with consecutive_errors := _ }) .refl

theorem handleCode_handled (hkeys : kept → turn.keepsKeys = true) (code : List Char) :
    HandledFlow host kept l.state (handleCode host config step turn l code) := by
  have hedits : Edits host kept l.state
      (l.resolve.append (.plain .assistant (codeText code))).state :=
    (Edit.resolve l).trans (Edit.append l.resolve _ (.inr rfl))
  refine .of_edits hedits ?_
  have hasks : ∀ c ∈ [HostCall.executeCode code], ∀ s, Asks host kept s c := by
    intro c hc s
    rw [List.mem_singleton.mp hc]
    trivial
  rw [handleCode]
  cases turn.code_result with
  | none => exact .raised fun c hc => hasks c hc _
  | some result =>
    refine .prepend [_] (fun c hc => hasks c hc _) ?_ (afterCode_handled result)
    refine .trans ?_ (Edit.rewrite hkeys _)
    exact .tail (.single (.note _ _ _ _)) (.write _ .user _ (.inl rfl))

theorem interrupts_handled {calls : List Call} {results : List (Option ActionOutcome)}
    {p : List HostCall × Flow} (h : interrupts l calls results = some p) :
    HandledFlow host kept l.state p := by
  obtain ⟨⟨r, i⟩, -, hr⟩ := List.exists_of_findSome?_eq_some h
  obtain ⟨outcome, -, hp⟩ := Option.bind_eq_some_iff.mp hr
  split at hp
  · rw [← Option.some.inj hp]
    exact gateWait_handled l _
  · split at hp
    · rw [← Option.some.inj hp]
      exact legacyWait_handled l _
    · cases hp

theorem afterBatch_handled (outcomes : List (Option ActionOutcome)) :
    HandledFlow host kept l.state (afterBatch config l outcomes) := by
  rw [afterBatch]
  generalize (if outcomes.any succeeded then 0 else if outcomes = [] then
    l.consecutive_action_errors else l.consecutive_action_errors + 1) = errors
  dsimp only
  split
  · exact .complete { l with consecutive_action_errors := errors } .failed _ _ _
  · refine .checkpoint ?_
    split
    · exact Edit.append { l with consecutive_action_errors := errors } _ (.inl rfl)
    · exact .refl

/-- On the way to the answer of a batch there are only events. -/
theorem asks_of_finalAnswer {params : Json} {events : List HostCall} {answer : List Char}
    (h : finalAnswer host content params = some (events, answer)) (s : ThreadVars) :
    ∀ c ∈ events, Asks host kept s c := by
  have hfallback : ∀ c ∈ (fallbackAnswer content).1, Asks host kept s c := by
    intro c hc
    rw [List.mem_singleton.mp hc]
    trivial
  unfold finalAnswer at h
  split at h
  · obtain ⟨rfl, -⟩ := Prod.mk.inj (Option.some.inj h)
    exact fun c hc => by cases hc
  · split at h
    · obtain ⟨rfl, -⟩ := Prod.mk.inj (Option.some.inj h)
      exact fun c hc => by cases hc
    · obtain ⟨rfl, -⟩ := Prod.mk.inj (Option.some.inj h)
      exact hfallback
  · split at h
    · cases h
    · obtain ⟨rfl, -⟩ := Prod.mk.inj (Option.some.inj h)
      exact hfallback

theorem handleActions_handled (calls : List Call) :
    HandledFlow host kept l.state (handleActions host config turn l content calls) := by
  rw [handleActions]
  generalize hdropped : (if 1 < calls.countP (·.name = "FINAL") then
    [HostCall.emitEvent "duplicate_final_dropped"] else []) = dropped
  have hasks : ∀ s, ∀ c ∈ dropped ++ [.executeActions (executableCalls calls)], Asks host kept s c := by
    intro s c hc
    subst hdropped
    obtain hc | hc := List.mem_append.mp hc
    · split at hc
      · rw [List.mem_singleton.mp hc]
        trivial
      · cases hc
    · rw [List.mem_singleton.mp hc]
      trivial
  dsimp only
  cases turn.results with
  | none => exact .raised (hasks _)
  | some results =>
    dsimp only
    generalize hlater : (pairResults (executableCalls calls) results).foldl
      (fun l p => l.append (resultMessage host p.1 p.2)) (l.resolve.append
        { Message.plain .assistant content with action_calls := executableCalls calls }) = later
    -- the turn writes its call message and one message for each result
    have hedits : Edits host kept l.state later.state := by
      rw [← hlater, foldl_append]
      refine .tail (Edit.resolve l) ?_
      have hanswer : Edit host kept _ _ :=
        .answer l.resolve.state content (executableCalls calls) results
      rw [← List.singleton_append, ← List.append_assoc] at hanswer
      exact hanswer
    split
    case h_1 more flow hinterrupts =>
      exact .prepend _ (hasks _) hedits (interrupts_handled hinterrupts)
    case h_2 =>
      split
      · split
        · exact .raised (hasks _)
        · next events answer hfinal =>
          rw [List.append_assoc]
          refine .prepend _ (hasks _) hedits (.prepend _ (asks_of_finalAnswer hfinal _) .refl ?_)
          exact Handled.complete later .completed _ _ _
      · exact .prepend _ (hasks _) hedits (afterBatch_handled _)

theorem respond_handled (hkeys : kept → turn.keepsKeys = true) (response : Response) :
    HandledFlow host kept l.state (respond host config step turn l response) := by
  cases response with
  | text content => exact handleText_handled content
  | code code => exact handleCode_handled hkeys code
  | actions content calls => exact handleActions_handled calls

theorem edits_receive (signal : Signal) : Edits host kept l.state (receive host l signal).state := by
  cases signal with
  | none => exact .refl
  | stop => exact .refl
  | inject text =>
    rw [receive]
    split
    · exact .tail (Edit.append l text (.inl rfl)) (.note _ false 0 _)
    · exact Edit.append l text (.inl rfl)

theorem edits_instruct (texts : List (List Char)) (s : ThreadVars) :
    Edits host kept s { s with
      working_messages := texts.foldl (fun messages text => appendSystemAppend text messages)
        s.working_messages } := by
  induction texts generalizing s with
  | nil => exact .refl
  | cons text texts ih => exact .head (.instruct s text) (ih _)

theorem edits_inject : Edits host kept l.state (inject step turn l).state := by
  rw [inject]
  split
  · exact edits_instruct turn.knowledge l.state
  · exact .refl

/-- A compaction asks for a summary of what is there, and puts it in its place. -/
theorem compactIfNeeded_handled (s : ThreadVars) (summary : Option (List Char)) :
    (∀ c ∈ (compactIfNeeded config s summary).1, Asks host kept s c) ∧
      ∀ t ∈ (compactIfNeeded config s summary).2, Edits host kept s t := by
  rw [compactIfNeeded]
  split
  · refine ⟨fun c hc => ?_, fun t ht => ?_⟩
    · rw [List.mem_singleton.mp hc]
      exact ⟨_, .single (.write s .user _ (.inl rfl)), rfl⟩
    · obtain ⟨text, -, rfl⟩ := Option.map_eq_some_iff.mp ht
      exact .single (.compact s text)
  · refine ⟨fun c hc => absurd hc List.not_mem_nil, fun t ht => ?_⟩
    rw [← Option.some.inj ht]

theorem ask_handled (hkeys : kept → turn.keepsKeys = true) :
    HandledFlow host kept l.state (ask host config step turn l) := by
  obtain ⟨hasks, hedits⟩ : (∀ c ∈ (compactIfNeeded config l.state turn.summary).1,
      Asks host kept l.state c) ∧ ∀ t ∈ (compactIfNeeded config l.state turn.summary).2,
        Edits host kept l.state t := compactIfNeeded_handled l.state turn.summary
  rw [ask]
  split
  case h_1 calls heq =>
    rw [heq] at hasks
    exact .raised hasks
  case h_2 calls state heq =>
    rw [heq] at hasks hedits
    have hstate : Edits host kept l.state state := hedits state rfl
    have hasked : ∀ c ∈ calls ++ [.emitEvent "step_started",
        .llmComplete state.working_messages false], Asks host kept l.state c := by
      intro c hc
      obtain hc | hc := List.mem_append.mp hc
      · exact hasks c hc
      · obtain rfl | hc := List.mem_cons.mp hc
        · trivial
        · rw [List.mem_singleton.mp hc]
          exact ⟨state, hstate, rfl⟩
    dsimp only
    split
    · exact .raised hasked
    · next response _ =>
      refine .prepend _ hasked hstate (.prepend [_] (fun c hc => ?_) .refl
        (respond_handled (l := { l with state := state }) hkeys response))
      rw [List.mem_singleton.mp hc]
      trivial

theorem iteration_handled (hkeys : kept → turn.keepsKeys = true) :
    HandledFlow host kept l.state (iteration host config step turn l) := by
  rw [iteration]
  split
  · exact .complete l .stopped _ _ _
  · refine .of_edits (edits_receive turn.signal) ?_
    dsimp only
    split
    · exact .complete _ .completed _ _ _
    · exact .of_edits edits_inject (ask_handled hkeys)

/-- What a whole run asks and does. -/
theorem runFrom_handled (hkeys : kept → ∀ n, (turns n).keepsKeys = true) (fuel step : ℕ)
    (l : Locals) :
    Handled host kept l.state (runFrom host config turns fuel step l).1
      ((runFrom host config turns fuel step l).2.map (·.state))
      (runFrom host config turns fuel step l).2 := by
  induction fuel generalizing step l with
  | zero => exact Handled.complete l .maxIterations _ none none
  | succ fuel ih =>
    have hthis : HandledFlow host kept l.state (iteration host config step (turns step) l) :=
      iteration_handled fun h => hkeys h step
    rw [runFrom]
    split
    case h_1 calls later heq =>
      rw [heq] at hthis
      obtain ⟨⟨front, close, hcalls, hasks, rfl⟩, hedits⟩ := hthis
      rw [List.append_nil] at hcalls
      obtain rfl : calls = front := hcalls
      exact .prepend _ hasks (hedits later.state rfl) (ih (step + 1) later)
    case h_2 calls result heq =>
      rw [heq] at hthis
      exact hthis
    case h_3 calls heq =>
      rw [heq] at hthis
      exact hthis

/-! ### Transcripts -/

theorem Answered.of_edit {s t : ThreadVars} (h : Edit host True s t) (hs : Answered s.working_messages) :
    Answered t.working_messages := by
  cases h with
  | write role content hrole =>
    refine hs.push ?_
    obtain rfl | rfl := hrole <;> decide
  | answer content calls results => exact hs.append batch_results
  | instruct content => exact hs.appendSystemAppend
  | compact summary => exact compacted _ _
  | note resolved count vars => exact hs
  | overwrite _ h => exact absurd trivial h

theorem Answered.of_edits {s t : ThreadVars} (h : Edits host True s t)
    (hs : Answered s.working_messages) : Answered t.working_messages := by
  induction h with
  | refl => exact hs
  | tail _ hedit ih => exact ih.of_edit hedit

/-- What the transcripts of a thread have been, all in all: the ones that were replaced, and the one
that is there. What the system is told is left out. -/
def record (s : ThreadVars) : List Message :=
  (s.history.flatMap (·.messages) ++ s.working_messages).filter (·.role ≠ .system)

theorem filter_appendToSystem (h : Orchestrator.appendToSystem content messages = some more) :
    more.filter (·.role ≠ .system) = messages.filter (·.role ≠ .system) := by
  induction messages generalizing more with
  | nil => cases h
  | cons msg messages ih =>
    rw [Orchestrator.appendToSystem] at h
    split at h
    case isTrue hrole =>
      obtain rfl := Option.some.inj h
      rw [List.filter_cons_of_neg (by simp [hrole]), List.filter_cons_of_neg (by simp [hrole])]
    case isFalse hrole =>
      obtain ⟨later, hlater, rfl⟩ := Option.map_eq_some_iff.mp h
      rw [List.filter_cons_of_pos (by simp [hrole]), List.filter_cons_of_pos (by simp [hrole]),
        ih hlater]

theorem filter_appendSystemAppend :
    (appendSystemAppend content messages).filter (·.role ≠ .system) =
      messages.filter (·.role ≠ .system) := by
  rw [appendSystemAppend]
  cases h : Orchestrator.appendToSystem content messages with
  | none => exact List.filter_cons_of_neg (by simp [Message.plain])
  | some more => exact filter_appendToSystem h

/-- Nothing is taken out of the record. -/
theorem record_of_edit {s t : ThreadVars} (h : Edit host True s t) : record s <+: record t := by
  cases h with
  | write role content hrole =>
    rw [record, record, ← List.append_assoc, List.filter_append _ [_]]
    exact List.prefix_append _ _
  | answer content calls results =>
    rw [record, record, ← List.append_assoc, List.filter_append _ (_ :: _)]
    exact List.prefix_append _ _
  | instruct content =>
    rw [record, record, List.filter_append, List.filter_append, filter_appendSystemAppend]
  | compact summary =>
    have hhistory : (s.compact summary).history.flatMap (·.messages) =
        s.history.flatMap (·.messages) ++ s.working_messages := by
      rw [ThreadVars.compact, List.flatMap_append, List.flatMap_singleton]
    rw [record, record, hhistory, List.filter_append _ (s.compact summary).working_messages]
    exact List.prefix_append _ _
  | note resolved count vars => exact List.prefix_rfl
  | overwrite _ h => exact absurd trivial h

/-- The transcripts that were replaced are numbered one behind the other. -/
def Numbered (s t : ThreadVars) : Prop :=
  ∃ new, t.history = s.history ++ new ∧
    new.map (·.index) = List.range' (s.compaction_count + 1) new.length ∧
    t.compaction_count = s.compaction_count + new.length

theorem Numbered.of_edit {s t u : ThreadVars} (h : Numbered s t) (hedit : Edit host True t u) :
    Numbered s u := by
  cases hedit with
  | write | answer | instruct | note => exact h
  | overwrite _ h => exact absurd trivial h
  | compact summary =>
    obtain ⟨new, hhistory, hindex, hcount⟩ := h
    refine ⟨new ++ [⟨t.compaction_count + 1, estimateContextTokens t.working_messages,
      t.working_messages⟩], ?_, ?_, ?_⟩
    · rw [ThreadVars.compact, hhistory, List.append_assoc]
    · rw [List.map_append, List.map_singleton, hindex, List.length_append, List.length_singleton,
        List.range'_concat, hcount, Nat.one_mul, Nat.add_right_comm]
    · rw [ThreadVars.compact, hcount, List.length_append, List.length_singleton, Nat.add_assoc]

theorem record_of_edits {s t : ThreadVars} (h : Edits host True s t) :
    record s <+: record t ∧ Numbered s t := by
  induction h with
  | refl => exact ⟨List.prefix_rfl, [], (List.append_nil _).symm, rfl, rfl⟩
  | tail _ hedit ih => exact ⟨ih.1.trans (record_of_edit hedit), ih.2.of_edit hedit⟩

/-! ### Runs of the loop -/

section Runs

variable {context : List Message} {state : Persisted} {r : LoopResult}

theorem start_working_messages :
    (start host config context state).state.working_messages =
      state.working_messages.getD context := by
  rw [start]
  split <;> rfl

theorem runLoop_handled (hkeys : kept → ∀ n, (turns n).keepsKeys = true) :
    Handled host kept (start host config context state).state
    (runLoop host config context state turns).1
    ((runLoop host config context state turns).2.map (·.state))
    (runLoop host config context state turns).2 := runFrom_handled hkeys _ _ _

theorem closes_not_asks {close : List HostCall} {force : Bool} {result : Option LoopResult}
    (h : Closes result close) : .llmComplete messages force ∉ close := by
  intro hmem
  cases result with
  | none =>
    rw [show close = [] from h] at hmem
    cases hmem
  | some r =>
    obtain ⟨reason, rfl⟩ := h
    cases List.mem_singleton.mp hmem

/-- The model gets the transcript of a state that is reached. -/
theorem edits_of_asked (hkeys : ∀ n, (turns n).keepsKeys = true) {force : Bool}
    (h : .llmComplete messages force ∈ (runLoop host config context state turns).1) :
    ∃ t, Edits host True (start host config context state).state t ∧
      messages = t.working_messages := by
  have hrun : Handled host True _ (runLoop host config context state turns).1 _ _ :=
    runLoop_handled fun _ => hkeys
  obtain ⟨⟨front, close, hcalls, hasks, hclose⟩, -⟩ := hrun
  rw [hcalls] at h
  obtain hmem | hmem := List.mem_append.mp h
  · exact hasks _ hmem
  · exact absurd hmem (closes_not_asks hclose)

theorem edits_of_result (hkeys : ∀ n, (turns n).keepsKeys = true)
    (h : (runLoop host config context state turns).2 = some r) :
    Edits host True (start host config context state).state r.state :=
  (runLoop_handled fun _ => hkeys).edits r.state (by rw [h]; rfl)

/-- The transcripts a model gets, and the one that is left, have each call of an action answered
behind it, unless code writes to the keys of the script. -/
theorem answered_of_runLoop (hkeys : ∀ n, (turns n).keepsKeys = true)
    (h : Answered (state.working_messages.getD context)) :
    (∀ messages force, .llmComplete messages force ∈ (runLoop host config context state turns).1 →
        Answered messages) ∧
      ∀ r, (runLoop host config context state turns).2 = some r →
        Answered r.state.working_messages := by
  have hstart : Answered (start host config context state).state.working_messages := by
    rwa [start_working_messages]
  refine ⟨fun messages force hmem => ?_, fun r hr => hstart.of_edits (edits_of_result hkeys hr)⟩
  obtain ⟨t, ht, rfl⟩ := edits_of_asked hkeys hmem
  exact hstart.of_edits ht

/-- A host whose texts have no capital letters, and whose values have no text. -/
def plainHost : PyHost := ⟨id, fun _ => []⟩

/-- What a host answers that has nothing to say but the response of the model. -/
def plainTurn (response : Response) : Turn :=
  ⟨.none, ⟨none, none, none⟩, [], none, some response, 0, none, none, id⟩

/-- A thread with one message. -/
def plainThread : Persisted := ⟨[], 0, some [.plain .user ['a']], false, 0, fun _ => none⟩

/-- A batch of one call, and then a stop. -/
def callTurns : ℕ → Turn
  | 0 => { plainTurn (.actions ['b'] [⟨"x", "id", .null⟩]) with
      results := some [none], summary := some ['c'] }
  | _ => { plainTurn (.text []) with signal := .stop }

theorem keepsKeys_callTurns : ∀ n, (callTurns n).keepsKeys = true
  | 0 | _ + 1 => rfl

theorem answered_callTurns :
    (∀ messages force, .llmComplete messages force ∈
        (runLoop plainHost {} [] plainThread callTurns).1 → Answered messages) ∧
      ∀ r, (runLoop plainHost {} [] plainThread callTurns).2 = some r →
        Answered r.state.working_messages :=
  answered_of_runLoop keepsKeys_callTurns (.plain rfl (by decide) .nil)

/-- A transcript is replaced as soon as there is one. -/
def eagerConfig : LoopConfig := { enable_compaction := true, compaction_tokens := 0 }

/-- A run moves the thread once, at its end and where its outcome says, and not at all where an
error is raised. -/
theorem transition_of_runLoop :
    match (runLoop host config context state turns).2 with
    | some r => ∃ front reason,
        (runLoop host config context state turns).1 =
          front ++ [.transitionTo r.outcome.target reason] ∧
        ∀ target reason, .transitionTo target reason ∉ front
    | none => ∀ target reason, .transitionTo target reason ∉
        (runLoop host config context state turns).1 := by
  have hrun : Handled host False _ (runLoop host config context state turns).1 _ _ :=
    runLoop_handled fun h => h.elim
  obtain ⟨⟨front, close, hcalls, hasks, hclose⟩, -⟩ := hrun
  have hfront : ∀ target reason, .transitionTo target reason ∉ front :=
    fun target reason hmem => hasks _ hmem
  split
  case h_1 r hr =>
    rw [hr] at hclose
    obtain ⟨reason, rfl⟩ := hclose
    exact ⟨front, reason, hcalls, hfront⟩
  case h_2 hr =>
    rw [hr] at hclose
    rw [hcalls, show close = [] from hclose, List.append_nil]
    exact hfront

end Runs

end T3Claw.Orchestrator
