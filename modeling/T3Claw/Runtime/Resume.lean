import T3Claw.Capability.Provenance
import T3Claw.Types.Step

/-!
# Resuming a thread

`runtime/manager.rs::resume_thread`, up to the save that comes before the thread is started.
A call that has been resolved is taken out of the transcript: its result, and, unless a result
for it is what is injected, every assistant message that made it. Such a message may have made
other calls, whose results stay. The transcript stays well paired exactly when no result is left
without the call it answers (`resumeThread_wellPaired_iff`).
-/

namespace T3Claw.Runtime

/-! ### Messages -/

/-- Role of a message participant. -/
inductive MessageRole where
  | system
  | user
  | assistant
  | actionResult
  deriving DecidableEq, Repr

/-- The `Debug` text of a role. -/
def MessageRole.debug : MessageRole → String
  | system => "System"
  | user => "User"
  | assistant => "Assistant"
  | actionResult => "ActionResult"

/-- A message in a thread's conversation history. -/
structure ThreadMessage where
  role : MessageRole
  content : String
  provenance : Provenance
  action_call_id : Option String
  action_name : Option String
  action_calls : Option (List ActionCall)
  timestamp : Time

namespace ThreadMessage

/-- `ThreadMessage::user`. -/
def user (content : String) (now : Time) : ThreadMessage :=
  ⟨.user, content, .user, none, none, none, now⟩

/-- `ThreadMessage::assistant_with_actions`. -/
def assistantWithActions (content : Option String) (calls : List ActionCall) (now : Time) :
    ThreadMessage :=
  ⟨.assistant, content.getD "", .llmGenerated, none, none, some calls, now⟩

/-- `ThreadMessage::action_result`. -/
def actionResult (call_id action_name content : String) (now : Time) : ThreadMessage :=
  ⟨.actionResult, content, .toolOutput action_name, some call_id, some action_name, none, now⟩

/-- The call a result answers. -/
def answers? (message : ThreadMessage) : Option String :=
  if message.role = .actionResult then message.action_call_id else none

/-- An assistant message that makes a call. -/
def makes (message : ThreadMessage) (call_id : String) : Bool :=
  message.role == .assistant &&
    message.action_calls.any fun calls => calls.any fun call => call.id == call_id

end ThreadMessage

/-- `is_resolved_call_message`. -/
def isResolvedCallMessage (message : ThreadMessage) (call_id : String) : Bool :=
  if message.role = .actionResult ∧ message.action_call_id = some call_id then true
  else message.role == .assistant &&
    message.action_calls.any fun calls => calls.any fun call => call.id == call_id

/-- `is_resolved_action_result_message`. -/
def isResolvedActionResultMessage (message : ThreadMessage) (call_id : String) : Bool :=
  message.role == .actionResult && message.action_call_id == some call_id

theorem isResolvedActionResultMessage_iff {message : ThreadMessage} {call_id : String} :
    isResolvedActionResultMessage message call_id = true ↔ message.answers? = some call_id := by
  by_cases hrole : message.role = .actionResult <;>
    simp [isResolvedActionResultMessage, ThreadMessage.answers?, hrole]

theorem isResolvedCallMessage_iff {message : ThreadMessage} {call_id : String} :
    isResolvedCallMessage message call_id = true ↔
      message.answers? = some call_id ∨ message.makes call_id = true := by
  by_cases hrole : message.role = .actionResult <;>
    simp [isResolvedCallMessage, ThreadMessage.answers?, ThreadMessage.makes, hrole]

/-! ### Threads -/

/-- The variants of `EventKind` that resuming adds. -/
inductive ThreadEventKind where
  | messageAdded (role content_preview : String)
  | approvalReceived (call_id : String) (approved : Bool)
  | other (kind : Json)

/-- The fields of `types/thread.rs::Thread` that resuming reads or changes. -/
structure Thread where
  id : ThreadId
  state : ThreadState
  user_id : String
  messages : List ThreadMessage
  internal_messages : List ThreadMessage
  events : List ThreadEventKind
  metadata : Json
  updated_at : Time

namespace Thread

/-- `Thread::is_owned_by`. -/
def isOwnedBy (thread : Thread) (user_id : String) : Bool :=
  (OwnerId.fromUserId thread.user_id).matchesUser user_id

/-- `Thread::add_message`. -/
def addMessage (thread : Thread) (message : ThreadMessage) (now : Time) : Thread :=
  let preview :=
    if 80 < message.content.length then String.ofList (message.content.toList.take 80) ++ "..."
    else message.content
  { thread with
    events := thread.events ++ [.messageAdded message.role.debug preview]
    updated_at := now
    messages := thread.messages ++ [message] }

/-- `Thread::add_internal_message`. -/
def addInternalMessage (thread : Thread) (message : ThreadMessage) (now : Time) : Thread :=
  { thread with
    internal_messages := thread.internal_messages ++ [message]
    updated_at := now }

end Thread

/-- `serde_json::Map::remove`, where the value is an object. -/
def removeKey (key : String) : Json → Json
  | .obj fields => .obj (fields.filter fun field => field.1 ≠ key)
  | value => value

/-- The messages that stay when a call has been resolved. -/
def retainMessages (resolved_call_id : Option String) (injected_message : Option ThreadMessage)
    (messages : List ThreadMessage) : List ThreadMessage :=
  match resolved_call_id with
  | none => messages
  | some call_id =>
    let preserve_assistant_call := injected_message.any fun message =>
      message.role == .actionResult && message.action_call_id == some call_id
    messages.filter fun existing =>
      if preserve_assistant_call then !isResolvedActionResultMessage existing call_id
      else !isResolvedCallMessage existing call_id

namespace Thread

/-- Record the approval of a call. -/
def receiveApproval (thread : Thread) (approval_event : Option (String × Bool)) (now : Time) :
    Thread :=
  match approval_event with
  | some (call_id, approved) =>
    { thread with
      events := thread.events ++ [.approvalReceived call_id approved]
      updated_at := now }
  | none => thread

/-- Add a message to both transcripts. -/
def inject (thread : Thread) (injected_message : Option ThreadMessage) (now : Time) : Thread :=
  match injected_message with
  | some message => (thread.addInternalMessage message now).addMessage message now
  | none => thread

/-- Drop the checkpoint of a waiting thread; a suspended one keeps it. -/
def dropCheckpoint (thread : Thread) : Thread :=
  if thread.state = .waiting then
    { thread with metadata := removeKey "runtime_checkpoint" thread.metadata }
  else thread

end Thread

/-- `ThreadManager::resume_thread`: the thread it saves. `running` says whether the thread is
running, `stored` is what the store has under the id, and `now` the clock. -/
def resumeThread (running : Bool) (stored : Option Thread) (now : Time) (thread_id : ThreadId)
    (user_id : String) (injected_message : Option ThreadMessage)
    (approval_event : Option (String × Bool)) (resolved_call_id : Option String) :
    Except EngineError Thread :=
  if running then .error (.threadAlreadyRunning thread_id)
  else
    match stored with
    | none => .error (.threadNotFound thread_id)
    | some thread =>
      if !thread.isOwnedBy user_id then
        .error (.accessDenied user_id ("thread " ++ uuidText thread_id.uuid))
      else if thread.state ≠ .waiting ∧ thread.state ≠ .suspended then
        .error (.store ("thread " ++ uuidText thread_id.uuid ++ " is not resumable from " ++
          thread.state.debug))
      else
        let thread := thread.receiveApproval approval_event now
        let messages := retainMessages resolved_call_id injected_message thread.messages
        let thread := { thread with messages := messages }
        .ok (thread.inject injected_message now).dropCheckpoint

/-- The transcript of the thread that is saved. -/
theorem messages_resumeThread {running : Bool} {thread saved : Thread} {now : Time}
    {thread_id : ThreadId} {user_id : String} {injected_message : Option ThreadMessage}
    {approval_event : Option (String × Bool)} {resolved_call_id : Option String}
    (h : resumeThread running (some thread) now thread_id user_id injected_message approval_event
      resolved_call_id = .ok saved) :
    saved.messages = retainMessages resolved_call_id injected_message thread.messages ++
      injected_message.toList := by
  rw [resumeThread] at h
  split_ifs at h
  dsimp only at h
  obtain rfl := Except.ok.inj h
  have hdrop : ∀ t : Thread, t.dropCheckpoint.messages = t.messages := fun t => by
    rw [Thread.dropCheckpoint]
    split <;> rfl
  rw [hdrop]
  cases approval_event <;> cases injected_message <;>
    simp [Thread.inject, Thread.addMessage, Thread.addInternalMessage, Thread.receiveApproval]

/-! ### Well paired transcripts -/

/-- Every result has before it an assistant message that makes the call it answers. -/
def WellPaired (messages : List ThreadMessage) : Prop :=
  ∀ before message after, messages = before ++ message :: after →
    ∀ call_id, message.answers? = some call_id → ∃ earlier ∈ before, earlier.makes call_id = true

/-- A message added at the end. -/
theorem wellPaired_concat {messages : List ThreadMessage} {message : ThreadMessage} :
    WellPaired (messages ++ [message]) ↔ WellPaired messages ∧
      ∀ call_id, message.answers? = some call_id →
        ∃ earlier ∈ messages, earlier.makes call_id = true := by
  constructor
  · intro h
    refine ⟨fun before m after hsplit => ?_, h messages message [] rfl⟩
    refine h before m (after ++ [message]) ?_
    rw [hsplit, List.append_assoc, List.cons_append]
  · rintro ⟨hall, hlast⟩ before m after hsplit
    obtain rfl | ⟨after, last, rfl⟩ := List.eq_nil_or_concat' after
    · obtain ⟨rfl, hm⟩ := List.append_inj' hsplit rfl
      obtain rfl := List.cons.inj hm |>.1
      exact hlast
    · rw [← List.cons_append, ← List.append_assoc] at hsplit
      obtain ⟨rfl, -⟩ := List.append_inj' hsplit rfl
      exact hall before m after rfl

/-- Some of the messages: a result that stays needs a call that stays. -/
theorem wellPaired_filter {messages : List ThreadMessage} {keep : ThreadMessage → Bool} :
    WellPaired (messages.filter keep) ↔
      ∀ before message after, messages = before ++ message :: after → keep message = true →
        ∀ call_id, message.answers? = some call_id →
          ∃ earlier ∈ before, keep earlier = true ∧ earlier.makes call_id = true := by
  constructor
  · rintro h before m after rfl hkeep call_id hanswers
    obtain ⟨earlier, hmem, hmakes⟩ := h (before.filter keep) m (after.filter keep)
      (by rw [List.filter_append, List.filter_cons_of_pos hkeep]) call_id hanswers
    obtain ⟨hmem, hkept⟩ := List.mem_filter.mp hmem
    exact ⟨earlier, hmem, hkept, hmakes⟩
  · intro h before m after hsplit call_id hanswers
    obtain ⟨before', rest, hmessages, rfl, hrest⟩ := List.filter_eq_append_iff.mp hsplit
    obtain ⟨skipped, after', rfl, hskipped, hkeep, -⟩ := List.filter_eq_cons_iff.mp hrest
    obtain ⟨earlier, hmem, hkept, hmakes⟩ := h (before' ++ skipped) m after'
      (by rw [hmessages, List.append_assoc]) hkeep call_id hanswers
    refine ⟨earlier, ?_, hmakes⟩
    obtain hmem | hmem := List.mem_append.mp hmem
    · exact List.mem_filter.mpr ⟨hmem, hkept⟩
    · exact absurd hkept (hskipped earlier hmem)

/-- What resuming may inject: a user message, or a result for the call that was resolved. -/
def Injectable (resolved_call_id : Option String) (message : ThreadMessage) : Prop :=
  message.role = .user ∨
    message.role = .actionResult ∧ ∃ call_id, resolved_call_id = some call_id ∧
      message.action_call_id = some call_id

/-- No result is left without its call. When a result for the resolved call is injected, some
assistant message makes that call; otherwise every other result has before it an assistant
message that makes its call and does not make the resolved one. -/
def LeavesPaired (resolved_call_id : Option String) (injected_message : Option ThreadMessage)
    (messages : List ThreadMessage) : Prop :=
  ∀ call_id, resolved_call_id = some call_id →
    if injected_message.any fun message => message.role == .actionResult then
      ∃ message ∈ messages, message.makes call_id = true
    else
      ∀ before message after, messages = before ++ message :: after →
        ∀ other, message.answers? = some other → other ≠ call_id →
          ∃ earlier ∈ before, earlier.makes other = true ∧ earlier.makes call_id = false

theorem answers?_eq_none_of_makes {message : ThreadMessage} {call_id : String}
    (h : message.makes call_id = true) : message.answers? = none := by
  have hrole : message.role = .assistant := by
    simpa using (Bool.and_eq_true_iff.mp h).1
  rw [ThreadMessage.answers?, if_neg (by rw [hrole]; decide)]

/-- A message that makes a call is not taken out with the results of one. -/
theorem stays_of_makes {message : ThreadMessage} {call_id other : String}
    (h : message.makes other = true) :
    (!isResolvedActionResultMessage message call_id) = true := by
  rw [Bool.not_eq_true', Bool.eq_false_iff, ne_eq, isResolvedActionResultMessage_iff,
    answers?_eq_none_of_makes h]
  exact (Option.some_ne_none call_id).symm

/-- Taking the results of a call out leaves every other result its call. -/
theorem wellPaired_without_result {messages : List ThreadMessage} (h : WellPaired messages)
    (call_id : String) :
    WellPaired (messages.filter fun m => !isResolvedActionResultMessage m call_id) := by
  refine wellPaired_filter.mpr fun before m after hsplit _ other hanswers => ?_
  obtain ⟨earlier, hmem, hmakes⟩ := h before m after hsplit other hanswers
  exact ⟨earlier, hmem, stays_of_makes hmakes, hmakes⟩

/-- Taking a call out with the messages that make it. -/
theorem wellPaired_without_call {messages : List ThreadMessage} {call_id : String} :
    WellPaired (messages.filter fun m => !isResolvedCallMessage m call_id) ↔
      ∀ before message after, messages = before ++ message :: after →
        ∀ other, message.answers? = some other → other ≠ call_id →
          ∃ earlier ∈ before, earlier.makes other = true ∧ earlier.makes call_id = false := by
  have hkeep : ∀ m : ThreadMessage, (!isResolvedCallMessage m call_id) = true ↔
      m.answers? ≠ some call_id ∧ m.makes call_id = false := fun m => by
    rw [Bool.not_eq_true', Bool.eq_false_iff, ne_eq, isResolvedCallMessage_iff, not_or,
      Bool.not_eq_true]
  rw [wellPaired_filter]
  simp only [hkeep]
  constructor
  · intro h before m after hsplit other hanswers hother
    have hmakes : m.makes call_id = false := by
      rw [Bool.eq_false_iff]
      intro hmakes
      rw [answers?_eq_none_of_makes hmakes] at hanswers
      cases hanswers
    have hkept : m.answers? ≠ some call_id := by
      rw [hanswers]
      exact fun heq => hother (Option.some.inj heq)
    obtain ⟨earlier, hmem, ⟨-, hnot⟩, hmakes⟩ :=
      h before m after hsplit ⟨hkept, hmakes⟩ other hanswers
    exact ⟨earlier, hmem, hmakes, hnot⟩
  · intro h before m after hsplit hkept other hanswers
    have hother : other ≠ call_id := by
      rintro rfl
      exact hkept.1 hanswers
    obtain ⟨earlier, hmem, hmakes, hnot⟩ := h before m after hsplit other hanswers hother
    refine ⟨earlier, hmem, ⟨?_, hnot⟩, hmakes⟩
    rw [answers?_eq_none_of_makes hmakes]
    exact (Option.some_ne_none call_id).symm

/-- **When resuming keeps the transcript well paired.** -/
theorem resumeThread_wellPaired_iff {running : Bool} {thread saved : Thread} {now : Time}
    {thread_id : ThreadId} {user_id : String} {injected_message : Option ThreadMessage}
    {approval_event : Option (String × Bool)} {resolved_call_id : Option String}
    (hwell : WellPaired thread.messages)
    (hinjected : ∀ message, injected_message = some message →
      Injectable resolved_call_id message)
    (hresume : resumeThread running (some thread) now thread_id user_id injected_message
      approval_event resolved_call_id = .ok saved) :
    WellPaired saved.messages ↔
      LeavesPaired resolved_call_id injected_message thread.messages := by
  rw [messages_resumeThread hresume]
  cases injected_message with
  | none =>
    rw [Option.toList_none, List.append_nil]
    cases resolved_call_id with
    | none => simp [retainMessages, LeavesPaired, hwell]
    | some call_id => simp [retainMessages, LeavesPaired, wellPaired_without_call]
  | some message =>
    rw [Option.toList_some, wellPaired_concat]
    obtain huser | ⟨hresult, call_id, rfl, hcall⟩ := hinjected message rfl
    · have hanswers : message.answers? = none := by
        rw [ThreadMessage.answers?, if_neg (by rw [huser]; decide)]
      cases resolved_call_id with
      | none => simp [retainMessages, LeavesPaired, hwell, hanswers]
      | some call_id =>
        simp [retainMessages, LeavesPaired, wellPaired_without_call, hanswers, huser]
    · -- every call stays, so the injected result is the one that may lack its own
      have hanswers : message.answers? = some call_id := by
        rw [ThreadMessage.answers?, if_pos hresult, hcall]
      have hpart := wellPaired_without_result hwell call_id
      simp only [retainMessages, LeavesPaired, hresult, hcall, hanswers, Option.any_some,
        beq_self_eq_true, Bool.and_self, if_true, hpart, true_and, Option.some.injEq,
        forall_eq', List.mem_filter]
      constructor
      · rintro ⟨earlier, ⟨hmem, -⟩, hmakes⟩
        exact ⟨earlier, hmem, hmakes⟩
      · rintro ⟨earlier, hmem, hmakes⟩
        exact ⟨earlier, ⟨hmem, stays_of_makes hmakes⟩, hmakes⟩

/-! ### Two calls in one message -/

/-- A thread that waits for the second of two calls its last message made. -/
def pausedThread : Thread where
  id := ⟨1⟩
  state := .waiting
  user_id := "alice"
  messages := [.assistantWithActions none [⟨"a", "shell", .null⟩, ⟨"b", "http", .null⟩] 0,
    .actionResult "a" "shell" "done" 1]
  internal_messages := []
  events := []
  metadata := .obj []
  updated_at := 1

theorem wellPaired_pausedThread : WellPaired pausedThread.messages := by
  have hnil : WellPaired [] := fun before m after h => by cases before <;> cases h
  have hcalls : WellPaired
      [.assistantWithActions none [⟨"a", "shell", .null⟩, ⟨"b", "http", .null⟩] 0] :=
    wellPaired_concat.mpr ⟨hnil, fun call_id h => by cases h⟩
  refine wellPaired_concat.mpr ⟨hcalls, fun call_id h => ?_⟩
  obtain rfl : "a" = call_id := Option.some.inj h
  exact ⟨_, List.mem_cons_self, by decide⟩

theorem resumeThread_wellPaired_paused : ∃ saved,
    resumeThread false (some pausedThread) 2 ⟨1⟩ "alice"
      (some (.actionResult "b" "http" "200" 2)) none (some "b") = .ok saved ∧
    WellPaired saved.messages := by
  have hresume : resumeThread false (some pausedThread) 2 ⟨1⟩ "alice"
      (some (.actionResult "b" "http" "200" 2)) none (some "b") = .ok _ := rfl
  refine ⟨_, hresume, (resumeThread_wellPaired_iff wellPaired_pausedThread (fun message h => ?_)
    hresume).mpr fun call_id h => ?_⟩
  · obtain rfl := Option.some.inj h
    exact .inr ⟨rfl, "b", rfl, rfl⟩
  · obtain rfl := Option.some.inj h
    exact ⟨_, List.mem_cons_self, by decide⟩

/-- A user message resumes the thread: the message with both calls goes, and the result of the
first call stays. -/
theorem sibling_result_orphaned : ∃ saved,
    resumeThread false (some pausedThread) 2 ⟨1⟩ "alice" (some (.user "my token" 2)) none
      (some "b") = .ok saved ∧
    WellPaired pausedThread.messages ∧ ¬ WellPaired saved.messages := by
  refine ⟨_, rfl, wellPaired_pausedThread, fun h => ?_⟩
  obtain ⟨earlier, hmem, -⟩ := h [] (.actionResult "a" "shell" "done" 1) [.user "my token" 2] rfl
    "a" rfl
  exact List.not_mem_nil hmem

end T3Claw.Runtime
