import T3Claw.Agent.TurnLimits

/-!
# Compaction in a turn

What `compact_messages_for_retry` keeps of a turn. It cuts in front of the last message of the
user's role, and the loop writes messages of that role too: nudges, notices and warnings. A turn
with one of them loses the message it is about (`compaction_iff`).
-/

namespace T3Claw.Agent

open Llm (ChatMessage Role ToolCall)

/-! ### The history of a turn -/

/-- Calls that were executed, and what the model was told of them. -/
structure ToolRound where
  content : Option (List Char)
  tool_calls : List ToolCall
  results : List ChatMessage
  answers : ∀ m ∈ results, m.role = .tool ∧ ∃ tc ∈ tool_calls, m.tool_call_id = some tc.id

/-- What the loop adds to the messages. -/
inductive Addition where
  | toolRound (round : ToolRound)
  | nudge (text : List Char)
  | truncated (content : Option (List Char))
  | warning
  | limit

namespace Addition

/-- The messages that are added. -/
def messages : Addition → List ChatMessage
  | toolRound round => .assistantWithToolCalls round.content round.tool_calls :: round.results
  | nudge text => [.assistant text, .user TOOL_INTENT_NUDGE]
  | truncated content =>
    (content.map ChatMessage.assistant).toList ++ [.user TRUNCATED_TOOL_CALL_NOTICE]
  | warning => [.user DUPLICATE_TOOL_CALL_WARNING]
  | limit => [.system LIMIT_NUDGE]

/-- One of the messages has the user's role. -/
def speaksAsUser : Addition → Bool
  | nudge _ | truncated _ | warning => true
  | toolRound _ | limit => false

end Addition

/-- The messages of a turn: those before, the user's own, and what the loop has added. -/
structure TurnHistory where
  before : List ChatMessage
  own : ChatMessage
  additions : List Addition
  own_role : own.role = .user

namespace TurnHistory

/-- The messages behind the user's own. -/
def after (history : TurnHistory) : List ChatMessage := history.additions.flatMap Addition.messages

def messages (history : TurnHistory) : List ChatMessage :=
  history.before ++ history.own :: history.after

end TurnHistory

def COMPACTION_NOTE : List Char :=
  ("[Note: Earlier conversation history was automatically compacted " ++
    "to fit within the context window. The most recent exchange is preserved below.]").toList

/-- A call id that one of the messages declares. -/
def Declared (messages : List ChatMessage) (result : ChatMessage) : Prop :=
  ∃ m ∈ messages, m.role = .assistant ∧ ∃ id ∈ m.callIds, result.tool_call_id = some id

/-- Every tool result has its call before it. -/
def ResultsDeclared (messages : List ChatMessage) : Prop :=
  ∀ front result back, messages = front ++ result :: back → result.role = .tool →
    Declared front result

/-- What is promised of a compaction. -/
structure KeepsTurn (history : TurnHistory) (compacted : List ChatMessage) : Prop where
  own : (history.own :: history.after).Sublist compacted
  once : ∃ kept back, (kept ++ back).Sublist history.messages ∧
    (compacted = kept ++ back ∨ compacted = kept ++ .system COMPACTION_NOTE :: back)
  declared : ResultsDeclared compacted

/-! ### The additions -/

theorem declared_of_subset {front front' : List ChatMessage} {result : ChatMessage}
    (h : Declared front result) (hsub : ∀ m ∈ front, m ∈ front') : Declared front' result := by
  obtain ⟨m, hm, hdeclares⟩ := h
  exact ⟨m, hsub m hm, hdeclares⟩

/-- What is in front of declared results need not be looked at. -/
theorem resultsDeclared_append {front back : List ChatMessage} (hfront : ResultsDeclared front)
    (hback : ResultsDeclared back) : ResultsDeclared (front ++ back) := by
  intro l result r heq hrole
  obtain ⟨m, rfl, hr⟩ | ⟨m, rfl, hl⟩ := List.append_eq_append_iff.mp heq
  · exact declared_of_subset (hback m result r hr hrole) fun _ => List.mem_append_right _
  · cases m with
    | nil =>
      obtain rfl : result :: r = back := by simpa using hl
      exact declared_of_subset (hback [] result r rfl hrole) fun _ hmem => nomatch hmem
    | cons result' m =>
      obtain ⟨rfl, rfl⟩ := List.cons_eq_cons.mp (by simpa using hl)
      exact hfront l result m rfl hrole

/-- Messages that are no results. -/
theorem resultsDeclared_of_ne {messages : List ChatMessage} (h : ∀ m ∈ messages, m.role ≠ .tool) :
    ResultsDeclared messages := by
  rintro front result back rfl hrole
  exact absurd hrole (h result (List.mem_append_right _ List.mem_cons_self))

theorem resultsDeclared_addition (a : Addition) : ResultsDeclared a.messages := by
  cases a with
  | toolRound round =>
    intro front result back heq hrole
    cases front with
    | nil =>
      obtain ⟨rfl, -⟩ := List.cons_eq_cons.mp heq
      cases hrole
    | cons m front =>
      obtain ⟨rfl, hresults⟩ := List.cons_eq_cons.mp heq
      obtain ⟨-, tc, htc, hid⟩ := round.answers result (by simp [hresults])
      have hne : round.tool_calls.isEmpty = false := by
        cases hcalls : round.tool_calls with
        | nil => simp [hcalls] at htc
        | cons => rfl
      refine ⟨_, List.mem_cons_self, rfl, tc.id, ?_, hid⟩
      simpa [ChatMessage.callIds, ChatMessage.assistantWithToolCalls, hne] using ⟨tc, htc, rfl⟩
  | nudge text => exact resultsDeclared_of_ne (by simp [Addition.messages, ChatMessage.assistant,
      ChatMessage.user])
  | truncated content =>
    refine resultsDeclared_of_ne ?_
    cases content <;> simp [Addition.messages, ChatMessage.assistant, ChatMessage.user]
  | warning => exact resultsDeclared_of_ne (by simp [Addition.messages, ChatMessage.user])
  | limit => exact resultsDeclared_of_ne (by simp [Addition.messages, ChatMessage.system])

theorem resultsDeclared_additions (additions : List Addition) :
    ResultsDeclared (additions.flatMap Addition.messages) := by
  induction additions with
  | nil => exact resultsDeclared_of_ne nofun
  | cons a additions ih => exact resultsDeclared_append (resultsDeclared_addition a) ih

/-- An addition that speaks as the user does so at its end. -/
theorem messages_of_speaksAsUser {a : Addition} (h : a.speaksAsUser = true) :
    ∃ front text, a.messages = front ++ [.user text] := by
  cases a with
  | toolRound | limit => cases h
  | nudge text => exact ⟨[.assistant text], _, rfl⟩
  | truncated content => exact ⟨_, _, rfl⟩
  | warning => exact ⟨[], _, rfl⟩

theorem role_of_not_speaksAsUser {a : Addition} (h : a.speaksAsUser = false) :
    ∀ m ∈ a.messages, m.role ≠ .user := by
  cases a with
  | nudge | truncated | warning => cases h
  | toolRound round =>
    refine List.forall_mem_cons.mpr ⟨nofun, fun m hm => ?_⟩
    rw [(round.answers m hm).1]
    nofun
  | limit => simp [Addition.messages, ChatMessage.system]

theorem role_of_additions {additions : List Addition}
    (h : ∀ a ∈ additions, a.speaksAsUser = false) :
    ∀ m ∈ additions.flatMap Addition.messages, m.role ≠ .user := by
  intro m hm
  obtain ⟨a, ha, hma⟩ := List.mem_flatMap.mp hm
  exact role_of_not_speaksAsUser (h a ha) m hma

/-- Nothing speaks as the user, or something does for the last time. -/
theorem last_speaking (additions : List Addition) :
    (∀ a ∈ additions, a.speaksAsUser = false) ∨
      ∃ front a back, additions = front ++ a :: back ∧ a.speaksAsUser = true ∧
        ∀ b ∈ back, b.speaksAsUser = false := by
  induction additions with
  | nil => exact .inl nofun
  | cons a additions ih =>
    obtain hnone | ⟨front, b, back, rfl, hb, hback⟩ := ih
    · cases ha : a.speaksAsUser with
      | false => exact .inl (List.forall_mem_cons.mpr ⟨ha, hnone⟩)
      | true => exact .inr ⟨[], a, additions, rfl, ha, hnone⟩
    · exact .inr ⟨a :: front, b, back, rfl, hb, hback⟩

/-! ### The cut -/

/-- The cut is in front of the last message of the user's role. -/
theorem compactMessagesForRetry_append (front : List ChatMessage) {own : ChatMessage}
    (hown : own.role = .user) {back : List ChatMessage} (hback : ∀ m ∈ back, m.role ≠ .user) :
    compactMessagesForRetry (front ++ own :: back) =
      front.filter (fun m => m.role = .system) ++
        (if 0 < front.length then [.system COMPACTION_NOTE] else []) ++ own :: back := by
  have hfind : (front ++ own :: back).reverse.findIdx? (fun m => m.role = .user) =
      some back.length := by
    have hnone : back.reverse.findIdx? (fun m => m.role = .user) = none :=
      List.findIdx?_eq_none_iff.mpr fun m hm => by simp [hback m (List.mem_reverse.mp hm)]
    rw [List.reverse_append, List.reverse_cons, List.append_assoc, List.findIdx?_append, hnone]
    simp [List.findIdx?_cons, hown]
  have hidx : (front ++ own :: back).length - 1 - back.length = front.length := by
    simp only [List.length_append, List.length_cons]
    omega
  rw [compactMessagesForRetry, hfind]
  simp only [Option.map_some, hidx, List.take_left', List.drop_left']
  rfl

/-- Two of the three promises hold wherever the cut is made. -/
theorem keepsTurn_iff_own {history : TurnHistory} {front back : List ChatMessage}
    {own : ChatMessage} (hown : own.role = .user) (hback : ∀ m ∈ back, m.role ≠ .user)
    (hdeclared : ResultsDeclared back) (h : history.messages = front ++ own :: back) :
    KeepsTurn history (compactMessagesForRetry history.messages) ↔
      (history.own :: history.after).Sublist (compactMessagesForRetry history.messages) := by
  refine ⟨KeepsTurn.own, fun hkept => ⟨hkept, ?_, ?_⟩⟩
  · refine ⟨front.filter fun m => m.role = .system, own :: back, ?_, ?_⟩
    · rw [h]
      exact List.filter_sublist.append (List.Sublist.refl _)
    · rw [h, compactMessagesForRetry_append front hown hback]
      split
      · exact .inr (by rw [List.append_assoc, List.singleton_append])
      · exact .inl (by rw [List.append_nil])
  · rw [h, compactMessagesForRetry_append front hown hback]
    have hown' : ResultsDeclared [own] := by
      refine resultsDeclared_of_ne (List.forall_mem_singleton.mpr ?_)
      rw [hown]
      nofun
    have hnote : ∀ m ∈ (if 0 < front.length then [ChatMessage.system COMPACTION_NOTE] else []),
        m.role ≠ .tool := by
      split
      · exact List.forall_mem_singleton.mpr nofun
      · exact nofun
    refine resultsDeclared_append (resultsDeclared_append (resultsDeclared_of_ne fun m hm => ?_)
      (resultsDeclared_of_ne hnote)) (resultsDeclared_append hown' hdeclared)
    have hsystem : m.role = .system := by simpa using (List.mem_filter.mp hm).2
    rw [hsystem]
    nofun

/-- Without a message of the user's role the turn stays as it is. -/
theorem compact_of_silent {history : TurnHistory}
    (h : ∀ a ∈ history.additions, a.speaksAsUser = false) :
    compactMessagesForRetry history.messages =
      (history.before.filter (fun m => m.role = .system) ++
        if 0 < history.before.length then [.system COMPACTION_NOTE] else []) ++
          history.own :: history.after := by
  have hafter : ∀ m ∈ history.after, m.role ≠ .user := role_of_additions h
  rw [TurnHistory.messages, compactMessagesForRetry_append _ history.own_role hafter]

/-- A compaction keeps the turn exactly when the loop has not spoken as the user in it. -/
theorem compaction_iff (history : TurnHistory) :
    KeepsTurn history (compactMessagesForRetry history.messages) ↔
      ∀ a ∈ history.additions, a.speaksAsUser = false := by
  obtain hnone | ⟨front, a, back, hsplit, ha, hback⟩ := last_speaking history.additions
  · refine iff_of_true ?_ hnone
    have hafter : ∀ m ∈ history.after, m.role ≠ .user := role_of_additions hnone
    refine (keepsTurn_iff_own history.own_role hafter (resultsDeclared_additions _) rfl).mpr ?_
    rw [compact_of_silent hnone]
    exact List.sublist_append_right _ _
  · refine iff_of_false (fun hkeeps => ?_) fun hnone => ?_
    · obtain ⟨text, last, hmessages⟩ := messages_of_speaksAsUser ha
      have hlast : ∀ m ∈ back.flatMap Addition.messages, m.role ≠ .user := role_of_additions hback
      have hafter : history.after = front.flatMap Addition.messages ++ text ++
          .user last :: back.flatMap Addition.messages := by
        simp [TurnHistory.after, hsplit, hmessages]
      have hcut : history.messages = (history.before ++ history.own ::
          (front.flatMap Addition.messages ++ text)) ++
            .user last :: back.flatMap Addition.messages := by
        simp [TurnHistory.messages, hafter]
      -- One message of the user's role is left, where there were two to be kept.
      have hle := hkeeps.own.countP_le (p := fun m => m.role = .user)
      rw [hcut, compactMessagesForRetry_append _ rfl hlast, hafter] at hle
      have hzero : (back.flatMap Addition.messages).countP (fun m => m.role = .user) = 0 :=
        List.countP_eq_zero.mpr fun m hm => by simp [hlast m hm]
      have hsystems (l : List ChatMessage) :
          (l.filter fun m => m.role = .system).countP (fun m => m.role = .user) = 0 := by
        refine List.countP_eq_zero.mpr fun m hm => ?_
        have hsystem : m.role = .system := by simpa using (List.mem_filter.mp hm).2
        simp [hsystem]
      simp only [List.countP_cons, List.countP_append, hsystems, hzero, history.own_role,
        decide_true, if_true, ChatMessage.user] at hle
      split at hle <;> simp [ChatMessage.system] at hle
    · exact Bool.noConfusion ((hnone a (by simp [hsplit])).symm.trans ha)

/-- A question that the model meets with an intent. -/
def nudgedTurn : TurnHistory where
  before := []
  own := .user "q".toList
  additions := [.nudge "Let me search.".toList]
  own_role := rfl

theorem question_compacted :
    ¬ KeepsTurn nudgedTurn (compactMessagesForRetry nudgedTurn.messages) := by
  intro hkeeps
  have hown : "q".toList ∈ (compactMessagesForRetry nudgedTurn.messages).map (·.content) :=
    List.mem_map.mpr ⟨_, hkeeps.own.subset List.mem_cons_self, rfl⟩
  revert hown
  decide +kernel

end T3Claw.Agent
