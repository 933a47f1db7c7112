import Mathlib.Data.List.Induction
import T3Claw.Agent.History

/-!
# Messages to a busy thread

What becomes of the messages that come in while a thread is at work: `process_user_input` of
`agent/thread_ops.rs`, the loop in `agent/agent_loop.rs` that drains the queue of a thread behind
each response, and the queue itself in `agent/session.rs`. A handler works on one message, or on
what it has drained, and holds the thread only for single steps, so that any other handlers and
commands may come in between.

No message that was taken in is ever lost but by an interrupt or by clearing the thread; and one
that stands somewhere twice was put back into the queue after it had been given to a turn or queued
already (`ledger_of_run`).

What stands in the queue as one text is kept as the list of the messages it was merged from.
-/

namespace T3Claw.Agent

/-! ### The queue -/

/-- `MAX_PENDING_MESSAGES`. -/
def MAX_PENDING_MESSAGES : ℕ := 10

/-- The text of merged messages. -/
def mergedText (messages : List (List Char)) : List Char := ['\n'].intercalate messages

/-- Texts that are merged are the text of all messages in them. -/
theorem mergedText_flatten {queue : List (List (List Char))} (h : ∀ entry ∈ queue, entry ≠ []) :
    mergedText (queue.map mergedText) = mergedText queue.flatten := by
  have hjoin : ∀ (entry rest : List (List Char)), entry ≠ [] → rest ≠ [] →
      mergedText (entry ++ rest) = mergedText entry ++ '\n' :: mergedText rest := by
    intro entry rest hentry hrest
    induction entry with
    | nil => exact absurd rfl hentry
    | cons text entry ih =>
      cases entry with
      | nil =>
        obtain ⟨next, rest, rfl⟩ := List.exists_cons_of_ne_nil hrest
        simp [mergedText, List.intercalate]
      | cons next entry =>
        have hstep : ∀ texts : List (List Char),
            mergedText (text :: next :: texts) = text ++ '\n' :: mergedText (next :: texts) := by
          intro texts
          simp [mergedText, List.intercalate]
        rw [List.cons_append, List.cons_append, hstep, ← List.cons_append, ih (by simp), hstep,
          List.append_assoc, List.cons_append]
  induction queue with
  | nil => rfl
  | cons entry queue ih =>
    obtain ⟨hentry, hqueue⟩ := List.forall_mem_cons.mp h
    cases queue with
    | nil => simp [mergedText, List.intercalate]
    | cons next queue =>
      have hne : (next :: queue).flatten ≠ [] := by
        obtain ⟨hnext, -⟩ := List.forall_mem_cons.mp hqueue
        simp [hnext]
      rw [List.flatten_cons, hjoin entry _ hentry hne, ← ih hqueue]
      simp [mergedText, List.intercalate]

/-- Where a handler of a message is. -/
inductive Phase where
  /-- about to look at the state of the thread -/
  | looking
  /-- has seen that a turn is being processed -/
  | queueing
  /-- is on the way to a turn -/
  | checking
  /-- is in the turn -/
  | running
  /-- has a result, and whether that is a response -/
  | done (response placed : Bool)
  | finished

/-- A handler with the messages it works on: one that came in, or those that were drained. -/
structure Handler (α : Type) where
  content : List α
  attachments : Bool
  drained : Bool
  phase : Phase

/-- A thread, and what is known of its messages: those given to a turn or a command, those taken in,
those discarded, and those put back into the queue though they had a place. -/
structure Inbox (α : Type) where
  state : ThreadState
  pending_messages : List (List α)
  handlers : List (Handler α)
  given : List α
  accepted : List α
  discarded : List α
  copies : List α

/-- What the next step of a handler meets: whether its content passes the checks, whether it is a
command, and if so whether it is answered by a response; whether a turn ends in a response, else
whether it waits for an approval. -/
structure Met where
  safe : Bool
  command : Option Bool
  response : Bool
  need_approval : Bool

/-- What happens. -/
inductive InboxEvent (α : Type) where
  | arrive (message : α) (attachments : Bool)
  | advance (k : ℕ) (met : Met)
  | interrupt
  | clear
  /-- a command that leaves the queue alone -/
  | change (state : ThreadState)

namespace Inbox

variable {α : Type}

/-- A thread without messages. -/
def fresh : Inbox α := ⟨.idle, [], [], [], [], [], []⟩

/-- A handler goes on. -/
def enter (s : Inbox α) (k : ℕ) (h : Handler α) (phase : Phase) : Inbox α :=
  { s with handlers := s.handlers.set k { h with phase } }

/-- A message that comes in is taken in when it has a place; one that was drained was before. -/
def takeIn (s : Inbox α) (h : Handler α) : Inbox α :=
  { s with accepted := if h.drained then s.accepted else s.accepted ++ h.content }

/-- A step of a handler. -/
def advance (s : Inbox α) (k : ℕ) (met : Met) : Inbox α :=
  match s.handlers[k]? with
  | none => s
  | some h =>
    match h.phase with
    | .looking =>
      match s.state with
      | .processing => s.enter k h .queueing
      | .awaitingApproval | .completed => s.enter k h (.done false false)
      | .idle | .interrupted => s.enter k h .checking
    | .queueing =>
      -- the turn may have ended meanwhile
      if s.state ≠ .processing then s.enter k h .checking
      else if h.attachments ∨ ¬met.safe ∨ MAX_PENDING_MESSAGES ≤ s.pending_messages.length then
        s.enter k h (.done false false)
      else
        { s.takeIn h with pending_messages := s.pending_messages ++ [h.content] }.enter k h
          (.done false true)
    | .checking =>
      if ¬met.safe then s.enter k h (.done false false)
      else
        match met.command with
        | some response =>
          { s.takeIn h with given := s.given ++ h.content }.enter k h (.done response true)
        | none =>
          { s.takeIn h with
            state := .processing
            given := s.given ++ h.content }.enter k h .running
    | .running =>
      if s.state = .interrupted then s.enter k h (.done false true)
      else
        { s with
          state := if met.need_approval ∧ ¬met.response then .awaitingApproval else .idle }.enter
          k h (.done met.response true)
    | .done true _ =>
      if s.pending_messages.isEmpty then s.enter k h .finished
      else
        { s with
          pending_messages := []
          handlers := s.handlers.set k ⟨s.pending_messages.flatten, false, true, .looking⟩ }
    | .done false placed =>
      if h.drained then
        { s with
          pending_messages := h.content :: s.pending_messages
          copies := if placed then s.copies ++ h.content else s.copies }.enter k h .finished
      else s.enter k h .finished
    | .finished => s

/-- The queue is discarded. -/
def discard (s : Inbox α) (state : ThreadState) : Inbox α :=
  { s with
    state
    pending_messages := []
    discarded := s.discarded ++ s.pending_messages.flatten }

/-- A step. -/
def step (s : Inbox α) : InboxEvent α → Inbox α
  | .arrive message attachments =>
    { s with handlers := s.handlers ++ [⟨[message], attachments, false, .looking⟩] }
  | .advance k met => s.advance k met
  | .interrupt =>
    if s.state = .processing ∨ s.state = .awaitingApproval then s.discard .interrupted else s
  | .clear => s.discard .idle
  | .change state => { s with state }

/-- A run. -/
def run (events : List (InboxEvent α)) : Inbox α := events.foldl step fresh

end Inbox

/-! ### The ledger -/

/-- What a handler holds that has no place elsewhere. -/
def Handler.held {α : Type} (h : Handler α) : List α :=
  if h.drained then
    match h.phase with
    | .looking | .queueing | .checking | .done _ false => h.content
    | .running | .done _ true | .finished => []
  else []

namespace Inbox

variable {α : Type} [DecidableEq α]

/-- What the handlers hold. -/
def held (s : Inbox α) : List α := s.handlers.flatMap Handler.held

/-- Each message stands where it was put, and again where it was put back; nothing is empty. -/
structure Balanced (s : Inbox α) : Prop where
  ledger : ∀ a, s.pending_messages.flatten.count a + s.given.count a + s.discarded.count a +
    s.held.count a = s.accepted.count a + s.copies.count a
  placed : ∀ h ∈ s.handlers, ∀ placed, h.phase = .done true placed → placed = true
  entry_ne_nil : ∀ entry ∈ s.pending_messages, entry ≠ []
  content_ne_nil : ∀ h ∈ s.handlers, h.content ≠ []

theorem count_flatMap_set {β : Type} (f : β → List α) {l : List β} {k : ℕ} {b b' : β}
    (h : l[k]? = some b) (a : α) :
    ((l.set k b').flatMap f).count a + (f b).count a =
      (l.flatMap f).count a + (f b').count a := by
  obtain ⟨hk, rfl⟩ := List.getElem?_eq_some_iff.mp h
  rw [List.set_eq_take_append_cons_drop, if_pos hk]
  conv_rhs => rw [← List.take_append_drop k l, List.drop_eq_getElem_cons hk]
  simp only [List.flatMap_append, List.flatMap_cons, List.count_append]
  omega

/-- A step of a handler that moves what it holds to another place. -/
theorem Balanced.of_set {s s' : Inbox α} (h : s.Balanced) {k : ℕ} {hd hd' : Handler α}
    (hk : s.handlers[k]? = some hd) (hhandlers : s'.handlers = s.handlers.set k hd')
    (hmoved : ∀ a, s'.pending_messages.flatten.count a + s'.given.count a +
        s'.discarded.count a + hd'.held.count a + (s.accepted.count a + s.copies.count a) =
      s.pending_messages.flatten.count a + s.given.count a + s.discarded.count a +
        hd.held.count a + (s'.accepted.count a + s'.copies.count a))
    (hplaced : ∀ placed, hd'.phase = .done true placed → placed = true)
    (hentry : ∀ entry ∈ s'.pending_messages, entry ≠ []) (hcontent : hd'.content ≠ []) :
    s'.Balanced where
  ledger a := by
    have hold := h.ledger a
    have hset : ((s.handlers.set k hd').flatMap Handler.held).count a + hd.held.count a =
        s.held.count a + hd'.held.count a := count_flatMap_set _ hk a
    have hthis := hmoved a
    rw [held, hhandlers]
    omega
  placed hd'' hmem := by
    rw [hhandlers] at hmem
    obtain hmem | rfl := List.mem_or_eq_of_mem_set hmem
    · exact h.placed hd'' hmem
    · exact hplaced
  entry_ne_nil := hentry
  content_ne_nil hd'' hmem := by
    rw [hhandlers] at hmem
    obtain hmem | rfl := List.mem_or_eq_of_mem_set hmem
    · exact h.content_ne_nil hd'' hmem
    · exact hcontent

/-- A step of a handler that moves nothing. -/
theorem Balanced.enter {s : Inbox α} (h : s.Balanced) {k : ℕ} {hd : Handler α}
    (hk : s.handlers[k]? = some hd) {phase : Phase}
    (hheld : Handler.held { hd with phase } = hd.held)
    (hplaced : ∀ placed, phase = .done true placed → placed = true) (state : ThreadState) :
    (Inbox.enter { s with state } k hd phase).Balanced :=
  h.of_set hk rfl (fun a => by rw [hheld]; rfl) hplaced h.entry_ne_nil
    (h.content_ne_nil hd (List.mem_of_getElem? hk))

theorem Balanced.advance {s : Inbox α} (h : s.Balanced) (k : ℕ) (met : Met) :
    (s.advance k met).Balanced := by
  rw [Inbox.advance]
  split
  case h_1 => exact h
  case h_2 hd hk =>
    have hcontent : hd.content ≠ [] := h.content_ne_nil hd (List.mem_of_getElem? hk)
    have hentry := h.entry_ne_nil
    obtain ⟨content, attachments, drained, phase⟩ := hd
    cases phase with
    | looking =>
      dsimp only
      split <;> exact h.enter hk (by simp [Handler.held]) (by simp) _
    | queueing =>
      dsimp only
      split
      · exact h.enter hk (by simp [Handler.held]) (by simp) _
      split
      · exact h.enter hk (by simp [Handler.held]) (by simp) _
      · refine h.of_set hk rfl (fun a => ?_) (by simp) (fun entry hmem => ?_) hcontent
        · cases drained <;> simp [Inbox.enter, takeIn, Handler.held] <;> omega
        · obtain hmem | hmem := List.mem_append.mp hmem
          · exact hentry entry hmem
          · rw [List.mem_singleton.mp hmem]
            exact hcontent
    | checking =>
      dsimp only
      split
      · exact h.enter hk (by simp [Handler.held]) (by simp) _
      split
      · refine h.of_set hk rfl (fun a => ?_) (by simp) hentry hcontent
        cases drained <;> simp [Inbox.enter, takeIn, Handler.held] <;> omega
      · refine h.of_set hk rfl (fun a => ?_) (by simp) hentry hcontent
        cases drained <;> simp [Inbox.enter, takeIn, Handler.held] <;> omega
    | running =>
      dsimp only
      split
      · exact h.enter hk (by simp [Handler.held]) (by simp) _
      · exact h.enter hk (by simp [Handler.held]) (by simp) _
    | done response placed =>
      cases response with
      | true =>
        -- behind a response the handler holds nothing: its messages have been given on
        obtain rfl := h.placed _ (List.mem_of_getElem? hk) placed rfl
        dsimp only
        split
        case isTrue =>
          exact h.enter hk (by simp [Handler.held]) (by simp) _
        case isFalse hne =>
          refine h.of_set hk rfl (fun a => ?_) (by simp) (fun entry hmem => by cases hmem) ?_
          · simp [Handler.held]
            omega
          · obtain ⟨entry, queue, hqueue⟩ := List.exists_cons_of_ne_nil fun hnil =>
              hne (List.isEmpty_iff.mpr hnil)
            rw [hqueue] at hentry ⊢
            simp [(List.forall_mem_cons.mp hentry).1]
      | false =>
        dsimp only
        split
        · refine h.of_set hk rfl (fun a => ?_) (by simp)
            (List.forall_mem_cons.mpr ⟨hcontent, hentry⟩) hcontent
          cases placed <;> simp_all [Inbox.enter, Handler.held] <;> omega
        · exact h.enter hk (by simp_all [Handler.held]) (by simp) _
    | finished => exact h

theorem Balanced.discard {s : Inbox α} (h : s.Balanced) (state : ThreadState) :
    (s.discard state).Balanced := by
  refine ⟨fun a => ?_, h.placed, (fun entry hmem => by cases hmem), h.content_ne_nil⟩
  have hold := h.ledger a
  have hheld : (s.discard state).held = s.held := rfl
  rw [hheld]
  simp only [Inbox.discard, List.flatten_nil, List.count_nil, List.count_append]
  omega

theorem Balanced.step {s : Inbox α} (h : s.Balanced) (event : InboxEvent α) :
    (s.step event).Balanced := by
  cases event with
  | arrive message attachments =>
    refine ⟨fun a => ?_, fun hd hmem => ?_, h.entry_ne_nil, fun hd hmem => ?_⟩
    · have hold := h.ledger a
      simpa [Inbox.step, held, Handler.held] using hold
    · obtain hmem | hmem := List.mem_append.mp hmem
      · exact h.placed hd hmem
      · rw [List.mem_singleton.mp hmem]
        exact fun placed hphase => by cases hphase
    · obtain hmem | hmem := List.mem_append.mp hmem
      · exact h.content_ne_nil hd hmem
      · rw [List.mem_singleton.mp hmem]
        exact List.cons_ne_nil message []
  | advance k met => exact h.advance k met
  | interrupt =>
    rw [Inbox.step]
    split
    · exact h.discard _
    · exact h
  | clear => exact h.discard _
  | change state => exact ⟨h.ledger, h.placed, h.entry_ne_nil, h.content_ne_nil⟩

theorem balanced_run (events : List (InboxEvent α)) : (run events).Balanced := by
  induction events using List.reverseRecOn with
  | nil =>
    exact ⟨fun a => rfl, fun h hmem => absurd hmem List.not_mem_nil,
      fun entry hmem => absurd hmem List.not_mem_nil, fun h hmem => absurd hmem List.not_mem_nil⟩
  | append_singleton events event ih =>
    rw [run, List.foldl_append]
    exact ih.step event

/-- The text that is drained is that of the messages that wait. -/
theorem mergedText_run (events : List (InboxEvent (List Char))) :
    mergedText ((run events).pending_messages.map mergedText) =
      mergedText (run events).pending_messages.flatten :=
  mergedText_flatten (balanced_run events).entry_ne_nil

/-- **No message is lost, and none is doubled but by being put back.** Whatever the handlers and
commands do, and in whatever order, each message that was taken in stands in the queue, has been
given to a turn or a command, was discarded, or is held by a handler that drained it; and it stands
once, and once more for each time that it was put back though it had a place already. -/
theorem ledger_of_run (events : List (InboxEvent α)) (a : α) :
    let s := run events
    s.pending_messages.flatten.count a + s.given.count a + s.discarded.count a +
      s.held.count a = s.accepted.count a + s.copies.count a :=
  (balanced_run events).ledger a

/-- A step that meets nothing special, of a turn that ends in a response. -/
def plain : Met := ⟨true, none, true, false⟩

/-- The second message waits for the turn of the first; the third comes in when that turn has ended,
and has started its own before the second is drained. So the second is queued again, put back as
well, and given twice to the turn behind that of the third. -/
example : (run ([.arrive 1 false, .advance 0 plain, .advance 0 plain,
    .arrive 2 false, .advance 1 plain, .advance 1 plain, .advance 0 plain,
    .arrive 3 false, .advance 2 plain, .advance 2 plain,
    .advance 0 plain, .advance 0 plain, .advance 0 plain, .advance 0 plain,
    .advance 2 plain, .advance 2 plain, .advance 2 plain, .advance 2 plain] :
      List (InboxEvent ℕ))).given = [1, 3, 2, 2] := by
  decide

end Inbox

end T3Claw.Agent
