import T3Claw.Agent.Transcript
import T3Claw.Data.Timeline

/-!
# Undoing turns

`UndoManager` of `agent/undo.rs`, and the commands of `agent/thread_ops.rs` that use it. In front
of each turn the messages of the thread are kept; to undo is to restore the thread from what was
kept, and to keep what is there for a redo.

The stacks and the messages of the thread are a line with a place on it (`view`). While the
threads that turns leave come back from their messages (`Settles`), each command does to it what
its name says (`view_step`), so that undoing and redoing only moves along the line
(`walk_of_run`). What a command says of the turn it went to is true in any case
(`turn_of_reply`).
-/

namespace T3Claw.Agent

open T3Claw.Llm (ChatMessage)

abbrev CheckpointId := ℕ

/-- A snapshot of a conversation. -/
structure Checkpoint where
  id : CheckpointId
  turn_number : ℕ
  messages : List ChatMessage
  description : String

/-! ### The manager -/

/-- The stacks, the oldest checkpoint of each first. -/
structure UndoManager where
  undo_stack : List Checkpoint
  redo_stack : List Checkpoint
  max_checkpoints : ℕ

namespace UndoManager

def DEFAULT_MAX_CHECKPOINTS : ℕ := 20

/-- `UndoManager::new`. -/
def new : UndoManager := ⟨[], [], DEFAULT_MAX_CHECKPOINTS⟩

/-- `push_undo`: the oldest are dropped. -/
def pushUndo (m : UndoManager) (checkpoint : Checkpoint) : UndoManager :=
  let undo_stack := m.undo_stack ++ [checkpoint]
  { m with undo_stack := undo_stack.drop (undo_stack.length - m.max_checkpoints) }

/-- `checkpoint`. -/
def checkpoint (m : UndoManager) (id : CheckpointId) (turn_number : ℕ)
    (messages : List ChatMessage) (description : String) : UndoManager :=
  { m with redo_stack := [] }.pushUndo ⟨id, turn_number, messages, description⟩

/-- What is kept where one goes back or forward. -/
def current (id : CheckpointId) (current_turn : ℕ) (current_messages : List ChatMessage) :
    Checkpoint :=
  ⟨id, current_turn, current_messages, "Turn " ++ toString current_turn⟩

/-- `undo`. -/
def undo (m : UndoManager) (id : CheckpointId) (current_turn : ℕ)
    (current_messages : List ChatMessage) : UndoManager × Option Checkpoint :=
  match m.undo_stack.getLast? with
  | none => (m, none)
  | some checkpoint =>
    ({ m with
        undo_stack := m.undo_stack.dropLast
        redo_stack := m.redo_stack ++ [current id current_turn current_messages] },
      some checkpoint)

/-- `redo`. -/
def redo (m : UndoManager) (id : CheckpointId) (current_turn : ℕ)
    (current_messages : List ChatMessage) : UndoManager × Option Checkpoint :=
  match m.redo_stack.getLast? with
  | none => (m, none)
  | some checkpoint =>
    ({ m.pushUndo (current id current_turn current_messages) with
        redo_stack := m.redo_stack.dropLast },
      some checkpoint)

/-- `clear`. -/
def clear (m : UndoManager) : UndoManager := { m with undo_stack := [], redo_stack := [] }

/-- `restore`. -/
def restore (m : UndoManager) (checkpoint_id : CheckpointId) :
    UndoManager × Option Checkpoint :=
  match m.undo_stack.findIdx? (·.id = checkpoint_id) with
  | none => (m, none)
  | some pos =>
    ({ m with undo_stack := m.undo_stack.take pos, redo_stack := [] }, m.undo_stack[pos]?)

end UndoManager

/-! ### The commands -/

/-- A thread with its manager. -/
structure Session where
  thread : Thread
  mgr : UndoManager

/-- What the user is told. -/
inductive Reply where
  | nothingToUndo
  | undone (turn_number undo_count : ℕ)
  | nothingToRedo
  | redone (turn_number : ℕ)
  | resumed (description : String)
  | notFound
  | cleared

def Reply.text : Reply → String
  | nothingToUndo => "Nothing to undo."
  | undone turn_number undo_count =>
    "Undone to turn " ++ toString turn_number ++ ". " ++ toString undo_count ++
      " undo(s) remaining."
  | nothingToRedo => "Nothing to redo."
  | redone turn_number => "Redone to turn " ++ toString turn_number ++ "."
  | resumed description => "Resumed from checkpoint: " ++ description
  | notFound => "Checkpoint not found."
  | cleared => "Thread cleared."

/-- `turn_number`, counted from one. -/
def Thread.turnNumber (thread : Thread) : ℕ := thread.turns.length + 1

section

variable (serde : SerdeJson)

namespace Session

/-- `process_user_input`, the checkpoint and what the turn leaves. -/
def turn (s : Session) (id : CheckpointId) (later : Thread) : Session where
  thread := later
  mgr := s.mgr.checkpoint id s.thread.turnNumber (s.thread.messages serde)
    ("Before turn " ++ toString s.thread.turnNumber)

/-- `process_undo`. -/
def processUndo (s : Session) (id : CheckpointId) : Session × Reply :=
  match s.mgr.undo id s.thread.turnNumber (s.thread.messages serde) with
  | (mgr, some checkpoint) =>
    (⟨s.thread.restoreFromMessages checkpoint.messages, mgr⟩,
      .undone checkpoint.turn_number mgr.undo_stack.length)
  | (_, none) => (s, .nothingToUndo)

/-- `process_redo`. -/
def processRedo (s : Session) (id : CheckpointId) : Session × Reply :=
  match s.mgr.redo id s.thread.turnNumber (s.thread.messages serde) with
  | (mgr, some checkpoint) =>
    (⟨s.thread.restoreFromMessages checkpoint.messages, mgr⟩, .redone checkpoint.turn_number)
  | (_, none) => (s, .nothingToRedo)

/-- `process_resume`. -/
def processResume (s : Session) (checkpoint_id : CheckpointId) : Session × Reply :=
  match s.mgr.restore checkpoint_id with
  | (mgr, some checkpoint) =>
    (⟨s.thread.restoreFromMessages checkpoint.messages, mgr⟩, .resumed checkpoint.description)
  | (_, none) => (s, .notFound)

/-- `process_clear`. -/
def processClear (s : Session) : Session × Reply := (⟨⟨.idle, []⟩, s.mgr.clear⟩, .cleared)

end Session

/-- What happens to a thread: a turn, a command of the user, or a change without a checkpoint, such
as a compaction. -/
inductive Event where
  | turn (id : CheckpointId) (later : Thread)
  | change (later : Thread)
  | undo (id : CheckpointId)
  | redo (id : CheckpointId)
  | resume (checkpoint_id : CheckpointId)
  | clear

/-- What an event does. -/
def Session.step (s : Session) : Event → Session
  | .turn id later => s.turn serde id later
  | .change later => { s with thread := later }
  | .undo id => (s.processUndo serde id).1
  | .redo id => (s.processRedo serde id).1
  | .resume checkpoint_id => (s.processResume checkpoint_id).1
  | .clear => s.processClear.1

/-- What events do, one after another. -/
def Session.run (s : Session) (events : List Event) : Session := events.foldl (Session.step serde) s

/-- A thread that nothing has happened to. -/
def Session.fresh : Session := ⟨⟨.idle, []⟩, .new⟩

/-! ### What is kept -/

/-- Messages a thread comes back from. -/
def Restorable (messages : List ChatMessage) : Prop :=
  ∀ thread : Thread, (thread.restoreFromMessages messages).messages serde = messages

/-- A thread whose results read the same a second time, and no turn of which carries images. -/
def Thread.Settled (thread : Thread) : Prop := ∀ turn ∈ thread.turns, turn.Settled serde

theorem restorable_iff (thread : Thread) :
    Restorable serde (thread.messages serde) ↔ thread.Settled serde := by
  have hback : ∀ other : Thread,
      (other.restoreFromMessages (thread.messages serde)).messages serde = thread.messages serde ↔
        thread.Settled serde := by
    intro other
    rw [Thread.restoreFromMessages, Thread.messages, Thread.messages, restoreTurns_turnMessages]
    exact turnMessages_restored_iff serde thread.turns 0
  exact ⟨fun h => (hback thread).mp (h thread), fun h other => (hback other).mpr h⟩

theorem length_restoredTurns (turn_idx : ℕ) (turns : List Turn) :
    (restoredTurns serde turn_idx turns).length = turns.length := by
  induction turns generalizing turn_idx with
  | nil => rfl
  | cons turn turns ih => rw [restoredTurns, List.length_cons, List.length_cons, ih]

/-- A thread has as many turns again. -/
theorem turnNumber_restore (thread other : Thread) :
    (other.restoreFromMessages (thread.messages serde)).turnNumber = thread.turnNumber := by
  rw [Thread.turnNumber, Thread.restoreFromMessages, Thread.messages, restoreTurns_turnMessages,
    length_restoredTurns]
  rfl

/-- A checkpoint of a thread. -/
def Checkpoint.Of (checkpoint : Checkpoint) (thread : Thread) : Prop :=
  checkpoint.messages = thread.messages serde ∧ checkpoint.turn_number = thread.turnNumber

/-- What all events keep: each checkpoint is one of a thread, and there are no more than fit. -/
structure Session.Sound (s : Session) : Prop where
  undo : ∀ c ∈ s.mgr.undo_stack, ∃ thread, c.Of serde thread
  redo : ∀ c ∈ s.mgr.redo_stack, ∃ thread, c.Of serde thread
  bounded : s.mgr.undo_stack.length + s.mgr.redo_stack.length ≤ s.mgr.max_checkpoints

/-- The checkpoints that are there, and the thread, come back from their messages. -/
structure Session.Settles (s : Session) : Prop where
  undo : ∀ c ∈ s.mgr.undo_stack, Restorable serde c.messages
  redo : ∀ c ∈ s.mgr.redo_stack, Restorable serde c.messages
  thread : Restorable serde (s.thread.messages serde)

/-- What is behind the place and what is before it. -/
def Session.view (s : Session) : Timeline (List ChatMessage) where
  past := (s.mgr.undo_stack.map (·.messages)).reverse
  now := s.thread.messages serde
  future := (s.mgr.redo_stack.map (·.messages)).reverse

/-- What an event does to a line, by its name. -/
def Event.onLine (s : Session) (t : Timeline (List ChatMessage)) :
    Event → Timeline (List ChatMessage)
  | .turn _ later => t.branch s.mgr.max_checkpoints (later.messages serde)
  | .change later => { t with now := later.messages serde }
  | .undo _ => t.back
  | .redo _ => t.forward
  | .resume checkpoint_id =>
    match s.mgr.undo_stack.findIdx? (·.id = checkpoint_id) with
    | some pos => t.rewind (s.mgr.undo_stack.length - 1 - pos)
    | none => t
  | .clear => ⟨[], [], []⟩

variable {s : Session}

/-- An undo: there is nothing behind, or the last checkpoint is. -/
theorem undo_cases (s : Session) (id : CheckpointId) :
    s.mgr.undo_stack = [] ∧ s.processUndo serde id = (s, .nothingToUndo) ∨
      ∃ stack c, s.mgr.undo_stack = stack ++ [c] ∧
        s.processUndo serde id =
          (⟨s.thread.restoreFromMessages c.messages,
            { s.mgr with
              undo_stack := stack
              redo_stack := s.mgr.redo_stack ++
                [UndoManager.current id s.thread.turnNumber (s.thread.messages serde)] }⟩,
            .undone c.turn_number stack.length) := by
  rw [Session.processUndo, UndoManager.undo]
  cases hlast : s.mgr.undo_stack.getLast? with
  | none => exact .inl ⟨List.getLast?_eq_none_iff.mp hlast, rfl⟩
  | some c =>
    obtain ⟨stack, hstack⟩ := List.getLast?_eq_some_iff.mp hlast
    refine .inr ⟨stack, c, hstack, ?_⟩
    rw [hstack, List.dropLast_concat]

/-- A redo: there is nothing before, or the first checkpoint is; nothing is dropped. -/
theorem redo_cases (h : s.Sound serde) (id : CheckpointId) :
    s.mgr.redo_stack = [] ∧ s.processRedo serde id = (s, .nothingToRedo) ∨
      ∃ stack c, s.mgr.redo_stack = stack ++ [c] ∧
        s.processRedo serde id =
          (⟨s.thread.restoreFromMessages c.messages,
            { s.mgr with
              undo_stack := s.mgr.undo_stack ++
                [UndoManager.current id s.thread.turnNumber (s.thread.messages serde)]
              redo_stack := stack }⟩,
            .redone c.turn_number) := by
  have hbounded := h.bounded
  rw [Session.processRedo, UndoManager.redo]
  cases hlast : s.mgr.redo_stack.getLast? with
  | none => exact .inl ⟨List.getLast?_eq_none_iff.mp hlast, rfl⟩
  | some c =>
    obtain ⟨stack, hstack⟩ := List.getLast?_eq_some_iff.mp hlast
    refine .inr ⟨stack, c, hstack, ?_⟩
    rw [hstack, List.length_append, List.length_singleton] at hbounded
    have hfits : (s.mgr.undo_stack ++ [UndoManager.current id s.thread.turnNumber
        (s.thread.messages serde)]).length - s.mgr.max_checkpoints = 0 := by
      rw [List.length_append, List.length_singleton]
      omega
    rw [hstack, List.dropLast_concat, UndoManager.pushUndo]
    dsimp only
    rw [hfits, List.drop_zero]

/-- A resume: there is no such checkpoint, or what is behind it is kept. -/
theorem resume_cases (s : Session) (checkpoint_id : CheckpointId) :
    s.mgr.undo_stack.findIdx? (·.id = checkpoint_id) = none ∧
        s.processResume checkpoint_id = (s, .notFound) ∨
      ∃ stack c rest, s.mgr.undo_stack = stack ++ c :: rest ∧
        s.mgr.undo_stack.findIdx? (·.id = checkpoint_id) = some stack.length ∧
        s.processResume checkpoint_id =
          (⟨s.thread.restoreFromMessages c.messages,
            { s.mgr with undo_stack := stack, redo_stack := [] }⟩, .resumed c.description) := by
  rw [Session.processResume, UndoManager.restore]
  cases hpos : s.mgr.undo_stack.findIdx? (·.id = checkpoint_id) with
  | none => exact .inl ⟨rfl, rfl⟩
  | some pos =>
    obtain ⟨hlt, -⟩ := List.findIdx?_eq_some_iff_getElem.mp hpos
    refine .inr ⟨s.mgr.undo_stack.take pos, s.mgr.undo_stack[pos], s.mgr.undo_stack.drop (pos + 1),
      ?_, ?_, ?_⟩
    · rw [List.getElem_cons_drop, List.take_append_drop]
    · rw [List.length_take_of_le hlt.le]
    · dsimp only
      rw [List.getElem?_eq_getElem hlt]

/-- What an event keeps. -/
theorem Session.Sound.step (h : s.Sound serde) (event : Event) :
    (s.step serde event).Sound serde := by
  have hcurrent (id : CheckpointId) : ∃ thread,
      (UndoManager.current id s.thread.turnNumber (s.thread.messages serde)).Of serde thread :=
    ⟨s.thread, rfl, rfl⟩
  cases event with
  | turn id later =>
    refine ⟨fun c hc => ?_, (fun c hc => by cases hc), ?_⟩
    · obtain hc | hc := List.mem_append.mp (List.mem_of_mem_drop hc)
      · exact h.undo c hc
      · rw [List.mem_singleton.mp hc]
        exact ⟨s.thread, rfl, rfl⟩
    · show (List.drop _ _).length + 0 ≤ s.mgr.max_checkpoints
      rw [List.length_drop]
      dsimp only
      omega
  | change later => exact ⟨h.undo, h.redo, h.bounded⟩
  | undo id =>
    obtain ⟨-, heq⟩ | ⟨stack, c, hstack, heq⟩ := undo_cases serde s id
    · rw [Session.step, heq]
      exact h
    · have hbounded := h.bounded
      -- the checkpoint moves from one stack to the other, so the bound is kept
      rw [Session.step, heq]
      refine ⟨fun c hc => h.undo c ?_, ?_, ?_⟩
      · rw [hstack]
        exact List.mem_append_left _ hc
      · exact List.forall_mem_append.mpr ⟨h.redo, List.forall_mem_singleton.mpr (hcurrent id)⟩
      · rw [hstack, List.length_append, List.length_singleton] at hbounded
        rw [List.length_append, List.length_singleton]
        dsimp only
        omega
  | redo id =>
    obtain ⟨-, heq⟩ | ⟨stack, c, hstack, heq⟩ := redo_cases serde h id
    · rw [Session.step, heq]
      exact h
    · have hbounded := h.bounded
      rw [Session.step, heq]
      refine ⟨?_, fun c hc => h.redo c ?_, ?_⟩
      · exact List.forall_mem_append.mpr ⟨h.undo, List.forall_mem_singleton.mpr (hcurrent id)⟩
      · rw [hstack]
        exact List.mem_append_left _ hc
      · rw [hstack, List.length_append, List.length_singleton] at hbounded
        rw [List.length_append, List.length_singleton]
        dsimp only
        omega
  | resume checkpoint_id =>
    obtain ⟨-, heq⟩ | ⟨stack, c, rest, hstack, -, heq⟩ := resume_cases s checkpoint_id
    · rw [Session.step, heq]
      exact h
    · have hbounded := h.bounded
      rw [Session.step, heq]
      refine ⟨fun c hc => h.undo c ?_, (fun c hc => by cases hc), ?_⟩
      · rw [hstack]
        exact List.mem_append_left _ hc
      · rw [hstack, List.length_append] at hbounded
        show stack.length + 0 ≤ s.mgr.max_checkpoints
        omega
  | clear => exact ⟨(fun c hc => by cases hc), (fun c hc => by cases hc), Nat.zero_le _⟩

theorem sound_fresh : Session.fresh.Sound serde :=
  ⟨(fun c hc => by cases hc), (fun c hc => by cases hc), Nat.zero_le _⟩

theorem Session.Sound.run (h : s.Sound serde) (events : List Event) :
    (s.run serde events).Sound serde := by
  induction events generalizing s with
  | nil => exact h
  | cons event events ih => exact ih (h.step serde event)

/-! ### The line -/

/-- What a turn leaves, or another change, comes back from its messages. -/
def Event.Settled : Event → Prop
  | .turn _ later => later.Settled serde
  | .change later => later.Settled serde
  | _ => True

theorem Restorable.restore {messages : List ChatMessage} (h : Restorable serde messages)
    (thread : Thread) :
    Restorable serde ((thread.restoreFromMessages messages).messages serde) := by
  rwa [h thread]

/-- The thread comes back while all that comes from outside does. -/
theorem Session.Settles.step (hsound : s.Sound serde) (h : s.Settles serde) {event : Event}
    (hevent : event.Settled serde) : (s.step serde event).Settles serde := by
  cases event with
  | turn id later =>
    refine ⟨fun c hc => ?_, (fun c hc => by cases hc), (restorable_iff serde later).mpr hevent⟩
    obtain hc | hc := List.mem_append.mp (List.mem_of_mem_drop hc)
    · exact h.undo c hc
    · rw [List.mem_singleton.mp hc]
      exact h.thread
  | change later => exact ⟨h.undo, h.redo, (restorable_iff serde later).mpr hevent⟩
  | undo id =>
    obtain ⟨-, heq⟩ | ⟨stack, c, hstack, heq⟩ := undo_cases serde s id
    · rw [Session.step, heq]
      exact h
    · have hundo := h.undo
      rw [hstack, List.forall_mem_append, List.forall_mem_singleton] at hundo
      rw [Session.step, heq]
      refine ⟨hundo.1, ?_, hundo.2.restore serde s.thread⟩
      exact List.forall_mem_append.mpr ⟨h.redo, List.forall_mem_singleton.mpr h.thread⟩
  | redo id =>
    obtain ⟨-, heq⟩ | ⟨stack, c, hstack, heq⟩ := redo_cases serde hsound id
    · rw [Session.step, heq]
      exact h
    · have hredo := h.redo
      rw [hstack, List.forall_mem_append, List.forall_mem_singleton] at hredo
      rw [Session.step, heq]
      refine ⟨?_, hredo.1, hredo.2.restore serde s.thread⟩
      exact List.forall_mem_append.mpr ⟨h.undo, List.forall_mem_singleton.mpr h.thread⟩
  | resume checkpoint_id =>
    obtain ⟨-, heq⟩ | ⟨stack, c, rest, hstack, -, heq⟩ := resume_cases s checkpoint_id
    · rw [Session.step, heq]
      exact h
    · have hundo := h.undo
      rw [hstack, List.forall_mem_append, List.forall_mem_cons] at hundo
      rw [Session.step, heq]
      exact ⟨hundo.1, (fun c hc => by cases hc), hundo.2.1.restore serde s.thread⟩
  | clear =>
    refine ⟨(fun c hc => by cases hc), (fun c hc => by cases hc), ?_⟩
    exact (restorable_iff serde ⟨.idle, []⟩).mpr fun turn hturn => by cases hturn

theorem settles_fresh : Session.fresh.Settles serde := by
  refine ⟨(fun c hc => by cases hc), (fun c hc => by cases hc), ?_⟩
  exact (restorable_iff serde ⟨.idle, []⟩).mpr fun turn hturn => by cases hturn

/-- A checkpoint more, with no more than fit. -/
theorem reverse_map_drop (stack : List Checkpoint) (c : Checkpoint) (bound : ℕ) :
    (((stack ++ [c]).drop ((stack ++ [c]).length - bound)).map (·.messages)).reverse =
      (c.messages :: (stack.map (·.messages)).reverse).take bound := by
  have hline : ((stack ++ [c]).map (·.messages)).reverse =
      c.messages :: (stack.map (·.messages)).reverse := by simp
  rw [← hline, List.take_reverse, List.length_map, List.map_drop]

/-- Each event does to the line what its name says. -/
theorem view_step (hsound : s.Sound serde) (h : s.Settles serde) (event : Event) :
    (s.step serde event).view serde = event.onLine serde s (s.view serde) := by
  cases event with
  | turn id later => exact Timeline.ext (reverse_map_drop _ _ _) rfl rfl
  | change later => rfl
  | undo id =>
    obtain ⟨hnil, heq⟩ | ⟨stack, c, hstack, heq⟩ := undo_cases serde s id
    · rw [Session.step, heq, Event.onLine, Timeline.back, Session.view, hnil]
      rfl
    · have hundo := h.undo
      rw [hstack, List.forall_mem_append, List.forall_mem_singleton] at hundo
      -- the stack read from its top is the past of the line
      have hpast : (s.view serde).past = c.messages :: (stack.map (·.messages)).reverse := by
        rw [Session.view, hstack]
        simp
      rw [Session.step, heq, Event.onLine, Timeline.back, hpast]
      refine Timeline.ext rfl (hundo.2 s.thread) ?_
      show (List.map _ (_ ++ [_])).reverse = _
      simp [UndoManager.current, Session.view]
  | redo id =>
    obtain ⟨hnil, heq⟩ | ⟨stack, c, hstack, heq⟩ := redo_cases serde hsound id
    · rw [Session.step, heq, Event.onLine, Timeline.forward, Session.view, hnil]
      rfl
    · have hredo := h.redo
      rw [hstack, List.forall_mem_append, List.forall_mem_singleton] at hredo
      have hfuture : (s.view serde).future = c.messages :: (stack.map (·.messages)).reverse := by
        rw [Session.view, hstack]
        simp
      rw [Session.step, heq, Event.onLine, Timeline.forward, hfuture]
      refine Timeline.ext ?_ (hredo.2 s.thread) rfl
      show (List.map _ (_ ++ [_])).reverse = _
      simp [UndoManager.current, Session.view]
  | resume checkpoint_id =>
    obtain ⟨hnone, heq⟩ | ⟨stack, c, rest, hstack, hpos, heq⟩ := resume_cases s checkpoint_id
    · rw [Session.step, heq, Event.onLine, hnone]
    · have hundo := h.undo
      rw [hstack, List.forall_mem_append, List.forall_mem_cons] at hundo
      have hpast : (s.view serde).past.drop (s.mgr.undo_stack.length - 1 - stack.length) =
          c.messages :: (stack.map (·.messages)).reverse := by
        have hlength : (stack ++ c :: rest).length - 1 - stack.length =
            (rest.map (·.messages)).reverse.length := by
          rw [List.length_append, List.length_cons, List.length_reverse, List.length_map]
          omega
        rw [Session.view, hstack, hlength, List.map_append, List.map_cons, List.reverse_append,
          List.reverse_cons, List.append_assoc, List.drop_left]
        rfl
      rw [Session.step, heq, Event.onLine, hpos]
      dsimp only
      rw [Timeline.rewind, hpast]
      exact Timeline.ext rfl (hundo.2.1 s.thread) rfl
  | clear => rfl

/-! ### Runs -/

theorem Session.Settles.run (hsound : s.Sound serde) (h : s.Settles serde) {events : List Event}
    (hevents : ∀ event ∈ events, event.Settled serde) : (s.run serde events).Settles serde := by
  induction events generalizing s with
  | nil => exact h
  | cons event events ih =>
    obtain ⟨hevent, hrest⟩ := List.forall_mem_cons.mp hevents
    exact ih (hsound.step serde event) (h.step serde hsound hevent) hrest

/-- The event of a move. -/
def moveEvent : Timeline.Move × CheckpointId → Event
  | (.back, id) => .undo id
  | (.forward, id) => .redo id

/-- Undoing and redoing walks along the line. -/
theorem view_walk (hsound : s.Sound serde) (h : s.Settles serde)
    (moves : List (Timeline.Move × CheckpointId)) :
    (s.run serde (moves.map moveEvent)).view serde =
      (s.view serde).walk (moves.map Prod.fst) := by
  induction moves generalizing s with
  | nil => rfl
  | cons move moves ih =>
    obtain ⟨move, id⟩ := move
    have hevent : (moveEvent (move, id)).Settled serde := by cases move <;> trivial
    have hstep : (s.step serde (moveEvent (move, id))).view serde = (s.view serde).move move := by
      rw [view_step serde hsound h]
      cases move <;> rfl
    refine (ih (hsound.step serde _) (h.step serde hsound hevent)).trans ?_
    rw [hstep]
    rfl

/-- **Undoing and redoing loses nothing.** Behind any run whose turns leave threads that come back
from their messages, undos and redos only move the place along the line of what was kept, and as
many redos as there were undos lead back to where they began. This is about the messages: what is
put on the other stack gets an id and a description of its own. -/
theorem walk_of_run (events : List Event) (hevents : ∀ event ∈ events, event.Settled serde)
    (moves : List (Timeline.Move × CheckpointId)) :
    let s := Session.fresh.run serde events
    (s.run serde (moves.map moveEvent)).view serde =
        (s.view serde).walk (moves.map Prod.fst) ∧
      ((s.run serde (moves.map moveEvent)).view serde).line = (s.view serde).line ∧
      ∀ n ≤ s.mgr.undo_stack.length,
        moves.map Prod.fst = List.replicate n .back ++ List.replicate n .forward →
        (s.run serde (moves.map moveEvent)).view serde = s.view serde := by
  intro s
  have hsound : s.Sound serde := (sound_fresh serde).run serde events
  have hsettles : s.Settles serde := (settles_fresh serde).run serde (sound_fresh serde) hevents
  have hwalk := view_walk serde hsound hsettles moves
  refine ⟨hwalk, ?_, fun n hn hmoves => ?_⟩
  · rw [hwalk, Timeline.line_walk]
  · rw [hwalk, hmoves]
    refine Timeline.walk_back_forward n ?_
    rwa [Session.view, List.length_reverse, List.length_map]

/-- **What a command says of its turn is true**, whatever has happened before: the thread has the
turns that it is said to have, and of the checkpoints as many as are said to be left. -/
theorem turn_of_reply (events : List Event) (id : CheckpointId) :
    let s := Session.fresh.run serde events
    (∀ turn_number undo_count, (s.processUndo serde id).2 = .undone turn_number undo_count →
        (s.processUndo serde id).1.thread.turnNumber = turn_number ∧
          (s.processUndo serde id).1.mgr.undo_stack.length = undo_count) ∧
      ∀ turn_number, (s.processRedo serde id).2 = .redone turn_number →
        (s.processRedo serde id).1.thread.turnNumber = turn_number := by
  intro s
  have hsound : s.Sound serde := (sound_fresh serde).run serde events
  constructor
  · intro turn_number undo_count hreply
    obtain ⟨-, heq⟩ | ⟨stack, c, hstack, heq⟩ := undo_cases serde s id
    · rw [heq] at hreply
      cases hreply
    · rw [heq] at hreply ⊢
      obtain ⟨rfl, rfl⟩ := Reply.undone.inj hreply
      obtain ⟨thread, hmessages, hturn⟩ := hsound.undo c (by rw [hstack]; simp)
      refine ⟨?_, rfl⟩
      rw [hmessages, hturn, turnNumber_restore]
  · intro turn_number hreply
    obtain ⟨-, heq⟩ | ⟨stack, c, hstack, heq⟩ := redo_cases serde hsound id
    · rw [heq] at hreply
      cases hreply
    · rw [heq] at hreply ⊢
      obtain rfl := Reply.redone.inj hreply
      obtain ⟨thread, hmessages, hturn⟩ := hsound.redo c (by rw [hstack]; simp)
      rw [hmessages, hturn, turnNumber_restore]

end

/-! ### A small instance -/

theorem settled_sampleTurns : (⟨.idle, sampleTurns⟩ : Thread).Settled sampleSerde := by
  intro turn hturn
  obtain rfl | hturn := List.mem_cons.mp hturn
  · refine ⟨rfl, fun tc htc => ?_⟩
    rw [List.mem_singleton.mp htc]
    rfl
  · rw [List.mem_singleton.mp hturn]
    exact ⟨rfl, fun tc htc => by cases htc⟩

/-- Two turns, both undone and done again. -/
theorem walk_sampleTurns :
    let s := Session.fresh.run sampleSerde
      [.turn 0 ⟨.idle, sampleTurns.take 1⟩, .turn 1 ⟨.idle, sampleTurns⟩]
    let moves : List (Timeline.Move × CheckpointId) :=
      [(.back, 2), (.back, 3), (.forward, 4), (.forward, 5)]
    (s.run sampleSerde (moves.map moveEvent)).view sampleSerde =
        (s.view sampleSerde).walk (moves.map Prod.fst) ∧
      ((s.run sampleSerde (moves.map moveEvent)).view sampleSerde).line =
        (s.view sampleSerde).line ∧
      ∀ n ≤ s.mgr.undo_stack.length,
        moves.map Prod.fst = List.replicate n .back ++ List.replicate n .forward →
        (s.run sampleSerde (moves.map moveEvent)).view sampleSerde = s.view sampleSerde := by
  refine walk_of_run sampleSerde _ ?_ _
  intro event hevent
  obtain rfl | hevent := List.mem_cons.mp hevent
  · exact fun turn hturn => settled_sampleTurns turn (List.mem_of_mem_take hturn)
  · rw [List.mem_singleton.mp hevent]
    exact settled_sampleTurns

end T3Claw.Agent
