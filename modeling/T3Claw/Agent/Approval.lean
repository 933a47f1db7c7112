import Mathlib.Data.List.Perm.Basic
import T3Claw.Agent.AgenticLoop
import T3Claw.Agent.ToolBatch

/-!
# Approvals

A thread whose tool calls wait for the user: `process_approval` of `agent/thread_ops.rs` between the
batches of `execute_tool_calls`. A request goes from the batch that stops at it to the thread, and
is taken from the thread by an answer; what is then done with it is a step of its own, so that
anything may happen in between: other answers, an interrupt, batches of other loops. Whatever
happens, a tool runs only by leave: what the hooks let through, or what is deferred behind an
approval, needs none; and what the user has approved runs once for each request (`leave_of_run`).
A batch, and each request on its way, leads on to the model only when each call of the batch has
its answer (`answered_of_run`).

The tools that need no approval of their own are those of the session: `before_llm_call` sets them
anew before each request to the model, and an approval for good adds one.

A step is a whole batch; the ids of requests are drawn from a counter.
-/

namespace T3Claw.Agent

open Llm (ChatMessage ToolCall)

/-! ### The log -/

/-- A request for an approval, with the batch that waits for it. -/
structure ApprovalRequest extends PendingApproval where
  batch : Batch

/-- Why a tool is run: the hooks let it through, or it was deferred behind a request that was
approved, or the user has approved it. -/
inductive Warrant where
  | hooked
  | deferred (p : ApprovalRequest)
  | approved (p : ApprovalRequest)

/-- What happens that matters, oldest first. -/
inductive Deed where
  /-- the tools of the session that need no approval, set anew -/
  | prepared (to_auto_approve : List String)
  /-- a tool is approved for good, by a request of this thread or in another one -/
  | allowed (tool_name : String) (p : Option ApprovalRequest)
  | called (batch : Batch)
  | asked (p : ApprovalRequest)
  | granted (p : ApprovalRequest) (always : Bool)
  | ran (E : BatchEnv) (tc : ToolCall) (warrant : Warrant)
  /-- the calls of a batch have been answered, and the model may be asked again -/
  | resumed (batch : Batch) (messages : List ChatMessage)

/-- The request that a deed uses up. -/
def Deed.used? : Deed → Option ℕ
  | .ran _ _ (.approved p) => some p.request_id
  | _ => none

/-! ### Threads that wait -/

/-- A thread of a session, its requests on their way to it, where they may be dropped if it has been
interrupted, and those taken from it, approved, for good or not, or rejected. -/
structure Chat where
  thread : Thread
  pending_approval : Option ApprovalRequest
  pending_auth : Option String
  auto_approved_tools : List String
  next_request_id : ℕ
  pausing : List (ApprovalRequest × Bool)
  approved : List (ApprovalRequest × Bool)
  rejected : List ApprovalRequest
  log : List Deed

/-- What happens to a thread. -/
inductive ChatEvent where
  /-- a loop of the session prepares a request to the model: the tools that there are, and what
  `effective_permission` says of each -/
  | prepare (tool_names : List String) (effective_permission : String → PermissionState)
  /-- another thread of the session approves a tool for good -/
  | allow (tool_name : String)
  /-- a loop has the model's calls, and these messages -/
  | batch (E : BatchEnv) (unless_interrupted : Bool) (messages : List ChatMessage)
    (content : Option (List Char)) (tool_calls : List ToolCall)
  /-- a request reaches the thread -/
  | pause (i : ℕ)
  /-- the user answers -/
  | answer (request_id : Option ℕ) (approved always : Bool)
  /-- what is done with an approved request -/
  | resume (i : ℕ) (E : BatchEnv)
  /-- what is done with a rejected one -/
  | reject (i : ℕ)
  /-- any other command, none of which asks for an approval -/
  | change (thread : Thread)

namespace Chat

/-- A thread to which nothing has happened. -/
def fresh : Chat := ⟨⟨.idle, []⟩, none, none, [], 0, [], [], [], []⟩

/-- `Thread::await_approval`. -/
def awaitApproval (s : Chat) (p : ApprovalRequest) : Chat :=
  { s with
    thread := { s.thread with state := .awaitingApproval }
    pending_approval := some p }

/-- What has happened is added to the log. -/
def record (s : Chat) (deeds : List Deed) : Chat := { s with log := s.log ++ deeds }

/-- What a batch or an approval leaves; a request is on its way to the thread. -/
def land (s : Chat) (batch : Batch) (unless_interrupted : Bool)
    (landed : Flight × BatchOutcome) : Chat :=
  match landed.2 with
  | .needApproval p =>
    { s with
      thread := landed.1.thread
      next_request_id := s.next_request_id + 1
      pausing := s.pausing ++ [(⟨p, batch⟩, unless_interrupted)] }
  | .authPending prompt =>
    { s with thread := landed.1.thread, pending_auth := some prompt.extension_name }
  | .goOn => { s with thread := landed.1.thread }.record [.resumed batch landed.1.messages]

/-- `conclude_turn`, with a text. -/
def conclude (s : Chat) (response : String) : Chat :=
  let thread := s.thread.onLastTurn (·.conclude (.completed response.toList))
  { s with thread := { thread with state := .idle } }

/-- The first part of `process_approval`, under one lock: the request is taken from a thread that
awaits an approval, unless another one is meant. -/
def answer (s : Chat) (request_id : Option ℕ) (approved always : Bool) : Chat :=
  if s.thread.state ≠ .awaitingApproval then s
  else
    match s.pending_approval with
    | none => s
    | some p =>
      if request_id.any (· != p.request_id) then s
      else if approved then
        { s with
          pending_approval := none
          approved := s.approved ++ [(p, always)] }.record [.granted p always]
      else { s with pending_approval := none, rejected := s.rejected ++ [p] }

/-- `auto_approve_tool`. -/
def autoApprove (s : Chat) (tool_name : String) (p : Option ApprovalRequest) : Chat :=
  { s with auto_approved_tools := tool_name :: s.auto_approved_tools }.record
    [.allowed tool_name p]

/-- The tool of a request may be approved for good. -/
def allowedFor (s : Chat) (p : ApprovalRequest) (always : Bool) : Chat :=
  if always then s.autoApprove p.tool_name (some p) else s

/-- An approved request is taken up: its tool may be approved for good, and the thread is processing
again. -/
def takeUp (s : Chat) (i : ℕ) (p : ApprovalRequest) (always : Bool) : Chat :=
  { s.allowedFor p always with
    thread := { s.thread with state := .processing }
    approved := s.approved.eraseIdx i }

/-- The next id of a request. -/
def drawId (s : Chat) (E : BatchEnv) : BatchEnv := { E with request_id := s.next_request_id }

/-- The call that was approved, and those that were deferred behind it. -/
def ranBehind (E : BatchEnv) (p : ApprovalRequest) : List ToolCall → List Deed
  | [] => []
  | tc :: rest => .ran E tc (.approved p) :: rest.map fun tc => .ran E tc (.deferred p)

variable (host : ChatHost)

/-- What `process_approval` does with an approved request. -/
def resume (s : Chat) (i : ℕ) (E : BatchEnv) : Chat :=
  match s.approved[i]? with
  | none => s
  | some (p, always) =>
    let taken := s.takeUp i p always
    let landed := resumeApproved host (s.drawId E) taken.auto_approved_tools taken.thread
      p.toPendingApproval
    let later :=
      (taken.record (ranBehind (s.drawId E) p landed.1.ran)).land p.batch false landed
    match landed.2 with
    | .authPending prompt =>
      later.conclude (prompt.instructions.getD "Please provide your API token/key.")
    | _ => later

/-- What `process_approval` does with a rejected request. -/
def reject (s : Chat) (i : ℕ) : Chat :=
  match s.rejected[i]? with
  | none => s
  | some p =>
    { s with pending_approval := none, rejected := s.rejected.eraseIdx i }.conclude
      ("Tool '" ++ p.tool_name ++ "' was rejected. The agent will not execute this tool.\n\n" ++
        "You can continue the conversation or try a different approach.")

/-- A step. -/
def step (s : Chat) : ChatEvent → Chat
  | .prepare tool_names effective_permission =>
    let to_auto_approve := tool_names.filter fun name => effective_permission name = .alwaysAllow
    { s with auto_approved_tools := to_auto_approve }.record [.prepared to_auto_approve]
  | .allow tool_name => s.autoApprove tool_name none
  | .batch E unless_interrupted messages content tool_calls =>
    let batch : Batch := ⟨messages, content, tool_calls⟩
    let landed := executeToolCalls host (s.drawId E) s.auto_approved_tools s.thread messages
      content tool_calls
    ((s.record [.called batch]).record
      (landed.1.ran.map fun tc => .ran (s.drawId E) tc .hooked)).land batch unless_interrupted
        landed
  | .pause i =>
    match s.pausing[i]? with
    | none => s
    | some (p, unless_interrupted) =>
      let s := { s with pausing := s.pausing.eraseIdx i }
      if unless_interrupted ∧ s.thread.state = .interrupted then s
      else (s.awaitApproval p).record [.asked p]
  | .answer request_id approved always => s.answer request_id approved always
  | .resume i E => s.resume host i E
  | .reject i => s.reject i
  | .change thread =>
    if thread.state = .awaitingApproval ∧ s.thread.state ≠ .awaitingApproval then s
    else { s with thread }

/-- A run. -/
def run (events : List ChatEvent) : Chat := events.foldl (step host) fresh

end Chat

/-! ### What is lawful -/

/-- A tool stands approved in its session: it was always allowed when the last request to the model
was prepared, or has been approved for good since, here by a request that was granted so. -/
inductive Standing (tool_name : String) : List Deed → Prop
  | prepared {front : List Deed} {to_auto_approve : List String} (h : tool_name ∈ to_auto_approve) :
      Standing tool_name (front ++ [.prepared to_auto_approve])
  | allowed {front : List Deed} {p? : Option ApprovalRequest}
      (h : ∀ p ∈ p?, .asked p ∈ front ∧ .granted p true ∈ front ∧ p.tool_name = tool_name) :
      Standing tool_name (front ++ [.allowed tool_name p?])
  | kept {front : List Deed} {deed : Deed} (h : Standing tool_name front)
      (hdeed : ∀ to_auto_approve, deed ≠ .prepared to_auto_approve) :
      Standing tool_name (front ++ [deed])

/-- A call that needs no approval of its own: all are approved, or the tool is not known, or it asks
for none with these arguments, or only where it does not stand approved. -/
def Free (E : BatchEnv) (front : List Deed) (tc : ToolCall) : Prop :=
  E.auto_approve_tools = true ∨ E.tools tc.name = none ∨
    ∃ tool, E.tools tc.name = some tool ∧
      (tool.requires_approval tc.arguments = .never ∨
        tool.requires_approval tc.arguments = .unlessAutoApproved ∧ Standing tc.name front)

/-- A deed that may follow those in front of it. -/
def Lawful (host : ChatHost) (front : List Deed) : Deed → Prop
  | .prepared _ | .called _ => True
  | .allowed _ p? => ∀ p ∈ p?, .granted p true ∈ front
  | .asked p => .called p.batch ∈ front ∧ p.batch.Owing p.context_messages p.owed
  | .granted p _ => .asked p ∈ front
  | .ran E tc .hooked => Hooked host E tc ∧ Free E front tc
  | .ran E tc (.deferred p) =>
    (∃ always, .granted p always ∈ front) ∧ tc ∈ p.deferred_tool_calls ∧ Free E front tc
  | .ran _ tc (.approved p) =>
    (∃ always, .granted p always ∈ front) ∧ tc = p.call ∧
      p.request_id ∉ front.filterMap Deed.used?
  | .resumed batch messages => .called batch ∈ front ∧ batch.Owing messages []

/-- A log of deeds each of which may follow those in front of it. -/
inductive LawfulLog (host : ChatHost) : List Deed → Prop
  | nil : LawfulLog host []
  | snoc {log : List Deed} {deed : Deed} (h : LawfulLog host log) (hdeed : Lawful host log deed) :
      LawfulLog host (log ++ [deed])

theorem LawfulLog.lawful {host : ChatHost} {front back : List Deed} {deed : Deed}
    (h : LawfulLog host (front ++ deed :: back)) : Lawful host front deed := by
  induction back using List.reverseRecOn with
  | nil =>
    generalize hlog : front ++ [deed] = log at h
    cases h with
    | nil => exact absurd hlog (by simp)
    | snoc _ hdeed =>
      obtain ⟨rfl, heq⟩ := List.append_inj' hlog rfl
      rwa [(List.cons.inj heq).1]
  | append_singleton back last ih =>
    generalize hlog : front ++ deed :: (back ++ [last]) = log at h
    cases h with
    | nil => exact absurd hlog (by simp)
    | snoc hfront _ =>
      rw [← List.cons_append, ← List.append_assoc] at hlog
      obtain ⟨rfl, -⟩ := List.append_inj' hlog rfl
      exact ih hfront

/-! ### Requests -/

namespace Chat

/-- The requests that have not been used up. -/
def requests (s : Chat) : List ApprovalRequest :=
  s.pausing.map (·.1) ++ s.pending_approval.toList ++ s.approved.map (·.1)

/-- How often an id stands in a request or in a deed that has used one up. -/
def uses (s : Chat) (id : ℕ) : ℕ :=
  (s.requests.map (·.request_id)).count id + (s.log.filterMap Deed.used?).count id

/-- What holds of a thread all along. -/
structure Sound (host : ChatHost) (s : Chat) : Prop where
  lawful : LawfulLog host s.log
  pending : ∀ p ∈ s.pending_approval, .asked p ∈ s.log
  approved : ∀ entry ∈ s.approved, .granted entry.1 entry.2 ∈ s.log
  auto : ∀ name ∈ s.auto_approved_tools, Standing name s.log
  owing : ∀ p ∈ s.requests, .called p.batch ∈ s.log ∧ p.batch.Owing p.context_messages p.owed
  drawn : ∀ id, 0 < s.uses id → id < s.next_request_id
  once : ∀ id, s.uses id ≤ 1

variable {host : ChatHost} {s : Chat} {E : BatchEnv}

theorem sound_fresh : fresh.Sound host where
  lawful := .nil
  pending p hp := by cases hp
  approved entry h := (List.not_mem_nil h).elim
  auto name h := (List.not_mem_nil h).elim
  owing p h := (List.not_mem_nil h).elim
  drawn id h := absurd h (Nat.lt_irrefl 0)
  once id := Nat.zero_le 1

/-- A granted request was asked for. -/
theorem Sound.asked_of_granted (h : s.Sound host) {p : ApprovalRequest} {always : Bool}
    (hp : .granted p always ∈ s.log) : .asked p ∈ s.log := by
  obtain ⟨front, back, hlog⟩ := List.append_of_mem hp
  have hlawful : Lawful host front (.granted p always) := (hlog ▸ h.lawful).lawful
  rw [hlog]
  exact List.mem_append_left _ hlawful

theorem Sound.free (h : s.Sound host) {tc : ToolCall}
    (hneeds : E.needsApproval s.auto_approved_tools tc = none) : Free E s.log tc := by
  rw [BatchEnv.needsApproval] at hneeds
  split at hneeds
  case isTrue hauto => exact .inl hauto
  case isFalse =>
    cases htool : E.tools tc.name with
    | none => exact .inr (.inl htool)
    | some tool =>
      refine .inr (.inr ⟨tool, htool, ?_⟩)
      rw [htool, Option.bind_some] at hneeds
      cases hrequires : tool.requires_approval tc.arguments with
      | never => exact .inl rfl
      | unlessAutoApproved =>
        rw [hrequires] at hneeds
        refine .inr ⟨rfl, h.auto _ ?_⟩
        by_contra hmem
        simp [hmem] at hneeds
      | always =>
        rw [hrequires] at hneeds
        cases hneeds

/-- A step that makes no request and uses none twice keeps what holds. -/
theorem Sound.of_uses (h : s.Sound host) {s' : Chat} (hlawful : LawfulLog host s'.log)
    (hlog : s.log ⊆ s'.log) (hpending : ∀ p ∈ s'.pending_approval, .asked p ∈ s'.log)
    (happroved : ∀ entry ∈ s'.approved, .granted entry.1 entry.2 ∈ s'.log)
    (hauto : ∀ name ∈ s'.auto_approved_tools, Standing name s'.log)
    (hrequests : s'.requests ⊆ s.requests) (huses : ∀ id, s'.uses id ≤ s.uses id)
    (hnext : s'.next_request_id = s.next_request_id) : s'.Sound host where
  lawful := hlawful
  pending := hpending
  approved := happroved
  auto := hauto
  owing p hp := (h.owing p (hrequests hp)).imp_left fun hcalled => hlog hcalled
  drawn id hid := hnext ▸ h.drawn id (hid.trans_le (huses id))
  once id := (huses id).trans (h.once id)

/-- What stands approved does so behind any deed but a new preparation. -/
theorem Sound.standing_record (h : s.Sound host) {deed : Deed}
    (hdeed : ∀ to_auto_approve, deed ≠ .prepared to_auto_approve) :
    ∀ name ∈ s.auto_approved_tools, Standing name (s.log ++ [deed]) :=
  fun name hname => .kept (h.auto name hname) hdeed

theorem used_concat {log : List Deed} {deed : Deed} (h : deed.used? = none) :
    (log ++ [deed]).filterMap Deed.used? = log.filterMap Deed.used? := by
  rw [List.filterMap_append, List.filterMap_cons_none h, List.filterMap_nil, List.append_nil]

/-- One more deed, which uses no request up. -/
theorem Sound.record_one (h : s.Sound host) {deed : Deed} (hdeed : Lawful host s.log deed)
    (hused : deed.used? = none)
    (hkept : ∀ to_auto_approve, deed ≠ .prepared to_auto_approve) :
    (s.record [deed]).Sound host := by
  refine h.of_uses (.snoc h.lawful hdeed) (List.subset_append_left _ _)
    (fun p hp => List.mem_append_left _ (h.pending p hp))
    (fun entry hentry => List.mem_append_left _ (h.approved entry hentry))
    (h.standing_record hkept) (fun _ => id) (fun id => le_of_eq ?_) rfl
  rw [uses, uses, record, used_concat hused]
  rfl

/-- Calls that are run, each lawful behind what there is. -/
theorem Sound.record_ran (h : s.Sound host) {warrant : Warrant}
    (hwarrant : ∀ tc : ToolCall, (Deed.ran E tc warrant).used? = none) {tcs : List ToolCall}
    (htcs : ∀ tc ∈ tcs, ∀ log, s.log <+: log → Free E log tc →
      Lawful host log (.ran E tc warrant))
    (hfree : ∀ tc ∈ tcs, E.needsApproval s.auto_approved_tools tc = none) :
    (s.record (tcs.map fun tc => .ran E tc warrant)).Sound host := by
  induction tcs generalizing s with
  | nil =>
    rw [List.map_nil, record, List.append_nil]
    exact h
  | cons tc tcs ih =>
    obtain ⟨hfirst, hrest⟩ := List.forall_mem_cons.mp htcs
    obtain ⟨hneeds, hfree⟩ := List.forall_mem_cons.mp hfree
    have hone : (s.record [.ran E tc warrant]).Sound host :=
      h.record_one (hfirst s.log (List.prefix_refl _) (h.free hneeds)) (hwarrant tc) nofun
    have hcons : s.record ((tc :: tcs).map fun tc => .ran E tc warrant) =
        (s.record [.ran E tc warrant]).record (tcs.map fun tc => .ran E tc warrant) := by
      rw [record, record, record, List.append_assoc]
      rfl
    rw [hcons]
    exact ih hone (fun tc htc log hlog => hrest tc htc log ((List.prefix_append _ _).trans hlog))
      hfree

theorem mem_requests {p : ApprovalRequest} :
    p ∈ s.requests ↔ (∃ flag, (p, flag) ∈ s.pausing) ∨ s.pending_approval = some p ∨
      ∃ flag, (p, flag) ∈ s.approved := by
  simp [requests]

theorem uses_eq (s : Chat) (id : ℕ) : s.uses id =
    (s.pausing.map (·.1.request_id)).count id +
      (s.pending_approval.toList.map (·.request_id)).count id +
      (s.approved.map (·.1.request_id)).count id + (s.log.filterMap Deed.used?).count id := by
  simp [uses, requests, Function.comp_def, Nat.add_assoc]

/-- A request leaves a list. -/
theorem count_eraseIdx {α : Type} {l : List α} {i : ℕ} {a : α} (h : l[i]? = some a) (f : α → ℕ)
    (id : ℕ) :
    (l.map f).count id = ((l.eraseIdx i).map f).count id + if f a = id then 1 else 0 := by
  obtain ⟨hi, rfl⟩ := List.getElem?_eq_some_iff.mp h
  have hperm := (List.getElem_cons_eraseIdx_perm hi).map f
  rw [← hperm.count_eq id, List.map_cons, List.count_cons]
  simp

/-- What a batch or an approval leaves. -/
theorem Sound.land (h : s.Sound host) {E : BatchEnv} (hid : E.request_id = s.next_request_id)
    {batch : Batch} (hcalled : .called batch ∈ s.log) (unless_interrupted : Bool)
    {landed : Flight × BatchOutcome} (hlanded : Landed E batch landed) :
    (s.land batch unless_interrupted landed).Sound host := by
  rw [Chat.land]
  split
  case h_1 p hp =>
    obtain ⟨hrequest, howing⟩ := hlanded.pause p hp
    rw [hid] at hrequest
    -- the pause draws its own request id and no other
    have huses : ∀ id, Chat.uses
        { s with
          thread := landed.1.thread
          next_request_id := s.next_request_id + 1
          pausing := s.pausing ++ [(⟨p, batch⟩, unless_interrupted)] } id =
        s.uses id + if p.request_id = id then 1 else 0 := by
      intro id
      simp only [uses_eq, List.map_append, List.count_append, List.map_cons, List.map_nil,
        List.count_singleton, beq_iff_eq]
      omega
    exact
      { lawful := h.lawful
        pending := h.pending
        approved := h.approved
        auto := h.auto
        owing := fun q hq => by
          obtain ⟨flag, hq⟩ | hq := mem_requests.mp hq
          · obtain hq | hq := List.mem_append.mp hq
            · exact h.owing q (mem_requests.mpr (.inl ⟨flag, hq⟩))
            · obtain ⟨rfl, -⟩ := Prod.mk.inj (List.mem_singleton.mp hq)
              exact ⟨hcalled, howing⟩
          · exact h.owing q (mem_requests.mpr (.inr hq))
        drawn := fun id hused => by
          rw [huses] at hused
          have := h.drawn id
          dsimp only
          split at hused <;> omega
        once := fun id => by
          have honce := h.once id
          have hdrawn := h.drawn id
          rw [huses]
          split <;> omega }
  case h_2 prompt hp =>
    exact ⟨h.lawful, h.pending, h.approved, h.auto, h.owing, h.drawn, h.once⟩
  case h_3 hp =>
    have hthread : Sound host { s with thread := landed.1.thread } :=
      ⟨h.lawful, h.pending, h.approved, h.auto, h.owing, h.drawn, h.once⟩
    exact hthread.record_one ⟨hcalled, hlanded.goOn hp⟩ rfl nofun

theorem Sound.pause (h : s.Sound host) (i : ℕ) : (s.step host (.pause i)).Sound host := by
  rw [step]
  split
  case h_1 => exact h
  case h_2 p unless_interrupted hi =>
    have hmem : (p, unless_interrupted) ∈ s.pausing := List.mem_of_getElem? hi
    have hcount := count_eraseIdx hi (·.1.request_id)
    have herase : ∀ q : ApprovalRequest, (∃ flag, (q, flag) ∈ s.pausing.eraseIdx i) →
        ∃ flag, (q, flag) ∈ s.pausing :=
      fun q ⟨flag, hflag⟩ => ⟨flag, List.mem_of_mem_eraseIdx hflag⟩
    dsimp only
    split
    · refine h.of_uses h.lawful (fun _ => id) h.pending h.approved h.auto
        (fun q hq => mem_requests.mpr ((mem_requests.mp hq).imp_left (herase q)))
        (fun id => ?_) rfl
      simp only [uses_eq, hcount]
      omega
    · have howing := h.owing p (mem_requests.mpr (.inl ⟨_, hmem⟩))
      refine h.of_uses (.snoc h.lawful howing) (List.subset_append_left _ _)
        (fun q hq => ?_) (fun entry hentry => List.mem_append_left _ (h.approved entry hentry))
        (h.standing_record nofun) (fun q hq => mem_requests.mpr ?_) (fun id => ?_) rfl
      · obtain rfl := Option.some.inj hq
        exact List.mem_append_right _ (List.mem_singleton_self _)
      · obtain hq | hq | hq := mem_requests.mp hq
        · exact .inl (herase q hq)
        · obtain rfl := Option.some.inj hq
          exact .inl ⟨_, hmem⟩
        · exact .inr (.inr hq)
      · have hused : (s.log ++ [Deed.asked p]).filterMap Deed.used? = s.log.filterMap Deed.used? :=
          used_concat rfl
        simp only [uses_eq, record, awaitApproval, hused, hcount, Option.toList_some,
          List.map_cons, List.map_nil, List.count_singleton, beq_iff_eq]
        omega

theorem Sound.answer (h : s.Sound host) (request_id : Option ℕ) (approved always : Bool) :
    (s.answer request_id approved always).Sound host := by
  rw [Chat.answer]
  split
  · exact h
  split
  · exact h
  case h_2 p hp =>
    split
    · exact h
    split
    · have hasked : .asked p ∈ s.log := h.pending p hp
      refine h.of_uses (.snoc h.lawful hasked) (List.subset_append_left _ _)
        (fun q hq => by cases hq) (fun entry hentry => ?_) (h.standing_record nofun)
        (fun q hq => mem_requests.mpr ?_) (fun id => ?_) rfl
      · obtain hentry | hentry := List.mem_append.mp hentry
        · exact List.mem_append_left _ (h.approved entry hentry)
        · rw [List.mem_singleton.mp hentry]
          exact List.mem_append_right _ (List.mem_singleton_self _)
      · obtain hq | hq | ⟨flag, hq⟩ := mem_requests.mp hq
        · exact .inl hq
        · cases hq
        · obtain hq | hq := List.mem_append.mp hq
          · exact .inr (.inr ⟨flag, hq⟩)
          · obtain ⟨rfl, -⟩ := Prod.mk.inj (List.mem_singleton.mp hq)
            exact .inr (.inl hp)
      · have hused : (s.log ++ [Deed.granted p always]).filterMap Deed.used? =
            s.log.filterMap Deed.used? := used_concat rfl
        simp only [uses_eq, record, hused, hp, Option.toList_some, Option.toList_none,
          List.map_append, List.count_append, List.map_cons, List.map_nil, List.count_singleton,
          List.count_nil]
        omega
    · refine h.of_uses h.lawful (fun _ => id) (fun q hq => by cases hq) h.approved
        h.auto (fun q hq => mem_requests.mpr ?_) (fun id => ?_) rfl
      · obtain hq | hq | hq := mem_requests.mp hq
        · exact .inl hq
        · cases hq
        · exact .inr (.inr hq)
      · simp only [uses_eq, Option.toList_none, List.map_nil, List.count_nil]
        omega

/-- A tool is approved for good, by a request that was granted so or elsewhere. -/
theorem Sound.autoApprove (h : s.Sound host) {tool_name : String} {p? : Option ApprovalRequest}
    (hp : ∀ p ∈ p?, .granted p true ∈ s.log ∧ p.tool_name = tool_name) :
    (s.autoApprove tool_name p?).Sound host := by
  refine h.of_uses (.snoc h.lawful fun p hmem => (hp p hmem).1) (List.subset_append_left _ _)
    (fun q hq => List.mem_append_left _ (h.pending q hq))
    (fun entry hentry => List.mem_append_left _ (h.approved entry hentry))
    (fun name hname => ?_) (fun _ => id) (fun id => le_of_eq ?_) rfl
  · obtain rfl | hname := List.mem_cons.mp hname
    · refine .allowed fun p hmem => ?_
      obtain ⟨hgranted, hname⟩ := hp p hmem
      exact ⟨h.asked_of_granted hgranted, hgranted, hname⟩
    · exact h.standing_record (by rintro _ ⟨⟩) name hname
  · rw [uses, uses, Chat.autoApprove, record, used_concat rfl]
    rfl

theorem Sound.allowedFor (h : s.Sound host) {p : ApprovalRequest} {always : Bool}
    (hgranted : .granted p always ∈ s.log) : (s.allowedFor p always).Sound host := by
  cases always with
  | false => exact h
  | true =>
    refine h.autoApprove fun q hq => ?_
    obtain rfl := Option.some.inj hq
    exact ⟨hgranted, rfl⟩

@[simp] theorem approved_allowedFor (p : ApprovalRequest) (always : Bool) :
    (s.allowedFor p always).approved = s.approved := by
  cases always <;> rfl

@[simp] theorem next_allowedFor (p : ApprovalRequest) (always : Bool) :
    (s.allowedFor p always).next_request_id = s.next_request_id := by
  cases always <;> rfl

/-- A request is taken up, and its call is run. -/
theorem Sound.takeUp (h : s.Sound host) {i : ℕ} {p : ApprovalRequest} {always : Bool}
    (hi : s.approved[i]? = some (p, always)) (E : BatchEnv) :
    ((s.takeUp i p always).record [.ran E p.call (.approved p)]).Sound host := by
  have hallowed := h.allowedFor (h.approved _ (List.mem_of_getElem? hi))
  rw [← approved_allowedFor p always] at hi
  rw [Chat.takeUp, ← approved_allowedFor p always]
  generalize s.allowedFor p always = s at h hi hallowed ⊢
  have hmem : (p, always) ∈ s.approved := List.mem_of_getElem? hi
  have hgranted : .granted p always ∈ s.log := hallowed.approved _ hmem
  have hcount := count_eraseIdx hi (·.1.request_id)
  have hunused : p.request_id ∉ s.log.filterMap Deed.used? := by
    intro hused
    have honce := hallowed.once p.request_id
    have hpos := List.count_pos_iff.mpr hused
    simp only [uses_eq, hcount, if_true] at honce
    omega
  refine hallowed.of_uses (.snoc hallowed.lawful ⟨⟨always, hgranted⟩, rfl, hunused⟩)
    (List.subset_append_left _ _) (fun q hq => List.mem_append_left _ (hallowed.pending q hq))
    (fun entry hentry => List.mem_append_left _
      (hallowed.approved entry (List.mem_of_mem_eraseIdx hentry)))
    (hallowed.standing_record nofun) (fun q hq => mem_requests.mpr ?_) (fun id => ?_) rfl
  · obtain hq | hq | ⟨flag, hq⟩ := mem_requests.mp hq
    · exact .inl hq
    · exact .inr (.inl hq)
    · exact .inr (.inr ⟨flag, List.mem_of_mem_eraseIdx hq⟩)
  · have hused : (s.log ++ [Deed.ran E p.call (.approved p)]).filterMap Deed.used? =
        s.log.filterMap Deed.used? ++ [p.request_id] := List.filterMap_append
    simp only [uses_eq, record, hused, hcount, List.count_append,
      List.count_singleton, beq_iff_eq]
    omega

theorem Sound.withThread (h : s.Sound host) (thread : Thread) :
    Chat.Sound host { s with thread } :=
  ⟨h.lawful, h.pending, h.approved, h.auto, h.owing, h.drawn, h.once⟩

theorem Sound.resume (h : s.Sound host) (i : ℕ) (E : BatchEnv) :
    (s.resume host i E).Sound host := by
  rw [Chat.resume]
  split
  case h_1 => exact h
  case h_2 p always hi =>
    have hmem : (p, always) ∈ s.approved := List.mem_of_getElem? hi
    have hgranted : .granted p always ∈ s.log := h.approved _ hmem
    obtain ⟨hcalled, howing⟩ := h.owing p (mem_requests.mpr (.inr (.inr ⟨_, hmem⟩)))
    have hbehind : s.log ⊆ (s.takeUp i p always).log := by
      cases always
      · exact List.Subset.refl _
      · exact List.subset_append_left _ _
    obtain ⟨-, ⟨rest, hran, hrest⟩, hlanded⟩ := @resumeApproved_spec host (s.drawId E)
      (s.takeUp i p always).auto_approved_tools p.batch (s.takeUp i p always).thread
      p.toPendingApproval howing
    have hfirst := h.takeUp hi (s.drawId E)
    have hran' : ((s.takeUp i p always).record (ranBehind (s.drawId E) p (p.call :: rest))).Sound
        host := by
      have hrecord := @Sound.record_ran host _ (s.drawId E) hfirst (.deferred p) (fun _ => rfl)
        rest (fun tc htc log hlog hfree => ?_) fun tc htc => (hrest tc htc).2
      · rw [record, record, List.append_assoc] at hrecord
        exact hrecord
      · have hmem : .granted p always ∈ log :=
          hlog.subset (List.mem_append_left [_] (hbehind hgranted))
        exact ⟨⟨always, hmem⟩, (hrest tc htc).1, hfree⟩
    dsimp only
    rw [hran]
    have hland := hran'.land (next_allowedFor p always).symm
      (List.mem_append_left _ (hbehind hcalled)) false hlanded
    split
    · exact hland.withThread _
    · exact hland

theorem Sound.reject (h : s.Sound host) (i : ℕ) : (s.reject i).Sound host := by
  rw [Chat.reject]
  split
  case h_1 => exact h
  case h_2 p hi =>
    refine h.of_uses h.lawful (fun _ => id) (fun q hq => by cases hq) h.approved
      h.auto (fun q hq => mem_requests.mpr ?_) (fun id => ?_) rfl
    · obtain hq | hq | hq := mem_requests.mp hq
      · exact .inl hq
      · cases hq
      · exact .inr (.inr hq)
    · simp only [uses_eq, conclude, Option.toList_none, List.map_nil, List.count_nil]
      omega

theorem Sound.prepare (h : s.Sound host) (tool_names : List String)
    (effective_permission : String → PermissionState) :
    (s.step host (.prepare tool_names effective_permission)).Sound host := by
  rw [Chat.step]
  refine h.of_uses (.snoc h.lawful trivial) (List.subset_append_left _ _)
    (fun q hq => List.mem_append_left _ (h.pending q hq))
    (fun entry hentry => List.mem_append_left _ (h.approved entry hentry))
    (fun name hname => .prepared hname) (fun _ => id) (fun id => le_of_eq ?_) rfl
  rw [uses, uses, record, used_concat rfl]
  rfl

theorem Sound.step (h : s.Sound host) (event : ChatEvent) : (s.step host event).Sound host := by
  cases event with
  | prepare tool_names effective_permission => exact h.prepare tool_names effective_permission
  | allow tool_name => exact h.autoApprove nofun
  | batch E unless_interrupted messages content tool_calls =>
    have hcalled : (s.record [.called ⟨messages, content, tool_calls⟩]).Sound host :=
      h.record_one trivial rfl nofun
    obtain ⟨-, hran, hlanded⟩ := @executeToolCalls_spec host (s.drawId E) s.auto_approved_tools
      s.thread messages content tool_calls
    refine Sound.land (hcalled.record_ran (fun _ => rfl) (fun tc htc log _ hfree => ?_)
      fun tc htc => (hran tc htc).2) rfl (by simp [record]) unless_interrupted hlanded
    exact ⟨(hran tc htc).1, hfree⟩
  | pause i => exact h.pause i
  | answer request_id approved always => exact h.answer request_id approved always
  | resume i E => exact h.resume i E
  | reject i => exact h.reject i
  | change thread =>
    rw [Chat.step]
    split
    · exact h
    · exact h.withThread thread

theorem sound_run (events : List ChatEvent) : (run host events).Sound host := by
  induction events using List.reverseRecOn with
  | nil => exact sound_fresh
  | append_singleton events event ih =>
    rw [run, List.foldl_append]
    exact ih.step event

/-- **No tool runs without leave**, whatever happens to the thread. Of the calls in a log, one that
comes from a batch was let through by the hooks and needs no approval; one that was deferred follows
a request that the user has approved, stands as the model made it, and needs no approval of its own;
and one that was approved is the call of a request that the user was asked and has approved, and
nothing else has ever run on this request. -/
theorem leave_of_run (events : List ChatEvent) (front back : List Deed) (E : BatchEnv)
    (tc : ToolCall) (warrant : Warrant)
    (hlog : (run host events).log = front ++ .ran E tc warrant :: back) :
    match warrant with
    | .hooked => Hooked host E tc ∧ Free E front tc
    | .deferred p => .asked p ∈ front ∧ (∃ always, .granted p always ∈ front) ∧
        tc ∈ p.deferred_tool_calls ∧ Free E front tc
    | .approved p => .asked p ∈ front ∧ (∃ always, .granted p always ∈ front) ∧ tc = p.call ∧
        ∀ deed ∈ front ++ back, deed.used? ≠ some p.request_id := by
  have hsound : (run host events).Sound host := sound_run events
  have hlawful : Lawful host front (.ran E tc warrant) := (hlog ▸ hsound.lawful).lawful
  have hasked : ∀ p always, .granted p always ∈ front → .asked p ∈ front := by
    intro p always hp
    obtain ⟨front, mid, rfl⟩ := List.append_of_mem hp
    have hgranted : Lawful host front (.granted p always) := by
      have hlog' : LawfulLog host (front ++ .granted p always ::
          (mid ++ .ran E tc warrant :: back)) := by
        rw [← List.cons_append, ← List.append_assoc, ← hlog]
        exact hsound.lawful
      exact hlog'.lawful
    exact List.mem_append_left _ hgranted
  cases warrant with
  | hooked => exact hlawful
  | deferred p =>
    obtain ⟨⟨always, hgranted⟩, hdeferred, hfree⟩ := hlawful
    exact ⟨hasked p always hgranted, ⟨always, hgranted⟩, hdeferred, hfree⟩
  | approved p =>
    obtain ⟨⟨always, hgranted⟩, hcall, -⟩ := hlawful
    refine ⟨hasked p always hgranted, ⟨always, hgranted⟩, hcall, fun deed hdeed hused => ?_⟩
    have honce := hsound.once p.request_id
    have hcount : 0 < ((front ++ back).filterMap Deed.used?).count p.request_id :=
      List.count_pos_iff.mpr (List.mem_filterMap.mpr ⟨deed, hdeed, hused⟩)
    have hthis : Deed.used? (.ran E tc (.approved p)) = some p.request_id := rfl
    rw [uses, hlog, List.filterMap_append, List.filterMap_cons_some hthis, List.count_append,
      List.count_cons_self] at honce
    rw [List.filterMap_append, List.count_append] at hcount
    omega

/-- **Each call of a batch is answered before the model is asked again**, once and in order,
however often the user is asked in between; and a request for an approval waits with exactly those
calls of its batch that have no answer yet. A batch is one that the loop was given. -/
theorem answered_of_run (events : List ChatEvent) :
    (∀ batch messages, .resumed batch messages ∈ (run host events).log →
      .called batch ∈ (run host events).log ∧ batch.Owing messages []) ∧
      ∀ p, .asked p ∈ (run host events).log →
        .called p.batch ∈ (run host events).log ∧ p.batch.Owing p.context_messages p.owed := by
  have hlawful : ∀ deed ∈ (run host events).log, ∃ front, front ⊆ (run host events).log ∧
      Lawful host front deed := by
    intro deed hdeed
    obtain ⟨front, back, hlog⟩ := List.append_of_mem hdeed
    refine ⟨front, ?_, (hlog ▸ (sound_run events).lawful : LawfulLog host _).lawful⟩
    rw [hlog]
    exact List.subset_append_left _ _
  refine ⟨fun batch messages h => ?_, fun p h => ?_⟩
  · obtain ⟨front, hsub, hcalled, howing⟩ := hlawful _ h
    exact ⟨hsub hcalled, howing⟩
  · obtain ⟨front, hsub, hcalled, howing⟩ := hlawful _ h
    exact ⟨hsub hcalled, howing⟩

/-! ### A thread that asks -/

/-- A host that hides nothing and finds nothing. -/
def plainChat : ChatHost where
  toHookHost := Hooks.blindHost
  sanitize_tool_output _ text := text
  process_tool_result _
    | .ok output => output
    | .error err => err
  image_result _ _ := none
  extract_auth_prompt _ _ := none
  valid_extension_name _ := true

/-- A tool that asks each time, and others that ask where they do not stand approved. -/
def mailEnv : BatchEnv where
  hooks := .new
  tools tool_name :=
    some ⟨"", [], fun _ => if tool_name = "mail" then .always else .unlessAutoApproved⟩
  auto_approve_tools := false
  user_id := "user"
  channel := "web"
  metadata := .null
  user_tz := "UTC"
  execute _ _ := some (.ok "done")
  request_id := 0

def mailCall : ToolCall := ⟨"call-1", "mail", .null, none⟩

def timeCall : ToolCall := ⟨"call-2", "time", .null, none⟩

/-- The time may always be told. Another loop tells it while the mail waits for the user, who then
approves it, and the time is told once more behind it. -/
def mailRun : List ChatEvent :=
  [.prepare ["mail", "time"] fun name => if name = "time" then .alwaysAllow else .askEachTime,
    .batch mailEnv true [] none [mailCall, timeCall], .pause 0,
    .batch mailEnv false [.user "time?".toList] none [timeCall], .answer none true false,
    .resume 0 mailEnv]

theorem leave_mailRun : ∃ p, p.call = mailCall ∧
    .asked p ∈ (run plainChat mailRun).log.take 8 ∧
      (∃ always, .granted p always ∈ (run plainChat mailRun).log.take 8) ∧
        timeCall ∈ p.deferred_tool_calls ∧
          Free { mailEnv with request_id := 1 } ((run plainChat mailRun).log.take 8) timeCall :=
  ⟨_, rfl, @leave_of_run plainChat mailRun _ [_] _ _ (.deferred _) rfl⟩

end Chat

end T3Claw.Agent
