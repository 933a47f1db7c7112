import Mathlib.Data.List.Induction
import Mathlib.Data.List.Nodup
import T3Claw.Data.Chain
import T3Claw.Data.LastWrite
import T3Claw.Types.SerdeJson

/-!
# Hooks

`hooks/hook.rs` and `hooks/registry.rs`. A registry holds one hook for each name, in the order of
their priorities; what it holds is what was registered last (`mem_after_iff`). The hooks of an
event run one behind the other, each on what those before it have made of the event, until one
rejects or fails for good. They only ever change the content of the event. So a hook that lets no
event of a kind through stops them all, whatever else is registered (`run_error_of_guard`).

What a hook answers is a function of the event it gets, with nothing where it runs out of time.
-/

namespace T3Claw.Hooks

/-! ### Events -/

inductive HookPoint where
  | beforeInbound
  | beforeToolCall
  | beforeOutbound
  | onSessionStart
  | onSessionEnd
  | transformResponse
  deriving DecidableEq

inductive HookEvent where
  | inbound (user_id channel content : String) (thread_id : Option String)
  | toolCall (tool_name : String) (parameters : Value) (user_id context : String)
  | outbound (user_id channel content : String) (thread_id : Option String)
  | sessionStart (user_id session_id : String)
  | sessionEnd (user_id session_id : String) (thread_ids : List ℕ)
  | responseTransform (user_id thread_id response : String)

/-- What is used of `serde_json`, and a duration as it is printed for debugging. -/
structure HookHost extends SerdeJson where
  debug_duration : ℕ → String

namespace HookEvent

/-- `hook_point`. -/
def hookPoint : HookEvent → HookPoint
  | inbound .. => .beforeInbound
  | toolCall .. => .beforeToolCall
  | outbound .. => .beforeOutbound
  | sessionStart .. => .onSessionStart
  | sessionEnd .. => .onSessionEnd
  | responseTransform .. => .transformResponse

/-- `apply_modification`. -/
def applyModification (host : HookHost) (modified : String) : HookEvent → HookEvent
  | inbound user_id channel _ thread_id => inbound user_id channel modified thread_id
  | outbound user_id channel _ thread_id => outbound user_id channel modified thread_id
  | toolCall tool_name parameters user_id context =>
    -- what is no JSON is ignored
    toolCall tool_name ((host.from_str modified).getD parameters) user_id context
  | responseTransform user_id thread_id _ => responseTransform user_id thread_id modified
  | event => event

/-- An event without its content, which is all that a modification changes. -/
def frame : HookEvent → HookEvent
  | inbound user_id channel _ thread_id => inbound user_id channel "" thread_id
  | toolCall tool_name _ user_id context => toolCall tool_name .null user_id context
  | outbound user_id channel _ thread_id => outbound user_id channel "" thread_id
  | responseTransform user_id thread_id _ => responseTransform user_id thread_id ""
  | event => event

theorem frame_applyModification (host : HookHost) (modified : String) (event : HookEvent) :
    (event.applyModification host modified).frame = event.frame := by
  cases event <;> rfl

/-- `extract_content`. -/
def content (host : HookHost) : HookEvent → String
  | inbound _ _ content _ | outbound _ _ content _ => content
  | toolCall _ parameters _ _ => host.to_string parameters
  | responseTransform _ _ response => response
  | sessionStart _ session_id | sessionEnd _ session_id _ => session_id

end HookEvent

/-! ### Hooks -/

inductive HookOutcome where
  | «continue» (modified : Option String)
  | reject (reason : String)

inductive HookFailureMode where
  | failOpen
  | failClosed

inductive HookError where
  | executionFailed (reason : String)
  | timeout (timeout : ℕ)
  | rejected (reason : String)

/-- The text of an error. -/
def HookError.text (host : HookHost) : HookError → String
  | .executionFailed reason => "Hook execution failed: " ++ reason
  | .timeout after => "Hook timed out after " ++ host.debug_duration after
  | .rejected reason => "Hook rejected: " ++ reason

structure Hook where
  name : String
  hook_points : List HookPoint
  failure_mode : HookFailureMode
  timeout : ℕ
  execute : HookEvent → Option (Except HookError HookOutcome)

/-- What a hook of the chain makes of an event. -/
def Hook.handle (host : HookHost) (event : HookEvent) (hook : Hook) : Except HookError HookEvent :=
  match hook.execute event with
  | some (.ok (.reject reason)) => .error (.rejected reason)
  | some (.ok (.continue (some value))) => .ok (event.applyModification host value)
  | some (.ok (.continue none)) => .ok event
  | some (.error err) =>
    match hook.failure_mode with
    | .failOpen => .ok event
    | .failClosed =>
      .error (.executionFailed ("Hook '" ++ hook.name ++ "' failed: " ++ err.text host))
  | none =>
    match hook.failure_mode with
    | .failOpen => .ok event
    | .failClosed => .error (.timeout hook.timeout)

/-- A hook changes the content of an event and nothing else. -/
theorem Hook.frame_handle {host : HookHost} {event event' : HookEvent} {hook : Hook}
    (h : hook.handle host event = .ok event') : event'.frame = event.frame := by
  rw [Hook.handle] at h
  split at h
  · cases h
  · obtain rfl := Except.ok.inj h
    exact HookEvent.frame_applyModification host _ event
  · obtain rfl := Except.ok.inj h
    rfl
  all_goals
    split at h
    · obtain rfl := Except.ok.inj h
      rfl
    · cases h

/-! ### The registry -/

structure HookEntry where
  hook : Hook
  priority : ℕ

/-- One hook for each name, the ones that run first in front. -/
structure HookRegistry where
  hooks : List HookEntry
  distinct : (hooks.map (·.hook.name)).Nodup
  ordered : hooks.Pairwise fun a b => a.priority ≤ b.priority

/-- `sort_by_key`. -/
def sortByPriority (hooks : List HookEntry) : List HookEntry :=
  hooks.mergeSort fun a b => a.priority ≤ b.priority

theorem perm_sortByPriority (hooks : List HookEntry) : (sortByPriority hooks).Perm hooks :=
  List.mergeSort_perm hooks _

theorem ordered_sortByPriority (hooks : List HookEntry) :
    (sortByPriority hooks).Pairwise fun a b => a.priority ≤ b.priority := by
  have hsorted := @List.pairwise_mergeSort _
    (fun a b : HookEntry => decide (a.priority ≤ b.priority))
    (fun a b c hab hbc => decide_eq_true ((of_decide_eq_true hab).trans (of_decide_eq_true hbc)))
    (fun a b => by simpa using le_total a.priority b.priority) hooks
  exact hsorted.imp fun h => of_decide_eq_true h

/-- The entry takes the place of the one of its name, or is the last. -/
def place (hooks : List HookEntry) (entry : HookEntry) : List HookEntry :=
  match hooks.findIdx? (·.hook.name = entry.hook.name) with
  | some i => hooks.set i entry
  | none => hooks ++ [entry]

/-- An entry is placed where there is one of its name, or behind all others. -/
theorem place_cases (hooks : List HookEntry) (entry : HookEntry) :
    (∀ e ∈ hooks, e.hook.name ≠ entry.hook.name) ∧ place hooks entry = hooks ++ [entry] ∨
      ∃ front old back, hooks = front ++ old :: back ∧ old.hook.name = entry.hook.name ∧
        place hooks entry = front ++ entry :: back := by
  rw [place]
  cases hfind : hooks.findIdx? (·.hook.name = entry.hook.name) with
  | none =>
    refine .inl ⟨fun e he => ?_, rfl⟩
    simpa using List.findIdx?_eq_none_iff.mp hfind e he
  | some i =>
    obtain ⟨hi, hname, -⟩ := List.findIdx?_eq_some_iff_getElem.mp hfind
    refine .inr ⟨hooks.take i, hooks[i], hooks.drop (i + 1), ?_, of_decide_eq_true hname, ?_⟩
    · rw [List.getElem_cons_drop, List.take_append_drop]
    · exact List.set_eq_take_append_cons_drop.trans (if_pos hi)

theorem distinct_place {hooks : List HookEntry} (h : (hooks.map (·.hook.name)).Nodup)
    (entry : HookEntry) : ((place hooks entry).map (·.hook.name)).Nodup := by
  obtain ⟨hother, hplace⟩ | ⟨front, old, back, rfl, hname, hplace⟩ := place_cases hooks entry
  · rw [hplace, List.map_append, List.nodup_append]
    refine ⟨h, List.nodup_singleton _, fun a ha b hb => ?_⟩
    obtain ⟨e, he, rfl⟩ := List.mem_map.mp ha
    rw [List.mem_singleton.mp hb]
    exact hother e he
  · rw [hplace, List.map_append, List.map_cons, ← hname]
    rwa [List.map_append, List.map_cons] at h

/-- An entry behind a placing: the new one, or an old one of another name. -/
theorem mem_place {hooks : List HookEntry} (h : (hooks.map (·.hook.name)).Nodup)
    {entry e : HookEntry} :
    e ∈ place hooks entry ↔ e = entry ∨ e ∈ hooks ∧ e.hook.name ≠ entry.hook.name := by
  obtain ⟨hother, hplace⟩ | ⟨front, old, back, rfl, hname, hplace⟩ := place_cases hooks entry
  · rw [hplace, List.mem_append, List.mem_singleton, or_comm]
    exact or_congr_right ⟨fun he => ⟨he, hother e he⟩, And.left⟩
  · rw [List.map_append, List.map_cons, List.nodup_middle, List.nodup_cons, List.mem_append,
      not_or] at h
    have hfront : ∀ e ∈ front, e.hook.name ≠ entry.hook.name := fun e he heq =>
      h.1.1 (List.mem_map.mpr ⟨e, he, heq.trans hname.symm⟩)
    have hback : ∀ e ∈ back, e.hook.name ≠ entry.hook.name := fun e he heq =>
      h.1.2 (List.mem_map.mpr ⟨e, he, heq.trans hname.symm⟩)
    rw [hplace, List.mem_append, List.mem_cons, List.mem_append, List.mem_cons]
    constructor
    · rintro (he | rfl | he)
      · exact .inr ⟨.inl he, hfront e he⟩
      · exact .inl rfl
      · exact .inr ⟨.inr (.inr he), hback e he⟩
    · rintro (rfl | ⟨he | rfl | he, hne⟩)
      · exact .inr (.inl rfl)
      · exact .inl he
      · exact absurd hname hne
      · exact .inr (.inr he)

namespace HookRegistry

/-- `HookRegistry::new`. -/
def new : HookRegistry := ⟨[], List.nodup_nil, .nil⟩

/-- `register_with_priority`. -/
def registerWithPriority (r : HookRegistry) (hook : Hook) (priority : ℕ) : HookRegistry where
  hooks := sortByPriority (place r.hooks ⟨hook, priority⟩)
  distinct := by
    rw [((perm_sortByPriority _).map _).nodup_iff]
    exact distinct_place r.distinct _
  ordered := ordered_sortByPriority _

/-- `register`. -/
def register (r : HookRegistry) (hook : Hook) : HookRegistry := r.registerWithPriority hook 100

/-- `unregister`, and whether there was such a hook. -/
def unregister (r : HookRegistry) (name : String) : HookRegistry × Bool :=
  let hooks := r.hooks.filter (·.hook.name ≠ name)
  (⟨hooks, r.distinct.sublist (List.filter_sublist.map _), r.ordered.sublist List.filter_sublist⟩,
    hooks.length < r.hooks.length)

/-- `list`. -/
def list (r : HookRegistry) : List String := r.hooks.map (·.hook.name)

/-- The hooks of an event. -/
def matching (r : HookRegistry) (event : HookEvent) : List Hook :=
  (r.hooks.filter (event.hookPoint ∈ ·.hook.hook_points)).map (·.hook)

/-- `run`. -/
def run (host : HookHost) (r : HookRegistry) (event : HookEvent) : Except HookError HookOutcome :=
  if (r.matching event).isEmpty then .ok (.continue none)
  else
    match (r.matching event).foldlM (Hook.handle host) event with
    | .error err => .error err
    | .ok current_event =>
      let modified := current_event.content host
      if modified ≠ event.content host then .ok (.continue (some modified))
      else .ok (.continue none)

end HookRegistry

/-! ### What a registry holds -/

/-- What is done to a registry. -/
inductive Change where
  | register (hook : Hook) (priority : ℕ)
  | unregister (name : String)

/-- The name a change is about. -/
def Change.name : Change → String
  | register hook _ => hook.name
  | unregister name => name

/-- What a change does. -/
def HookRegistry.change (r : HookRegistry) : Change → HookRegistry
  | .register hook priority => r.registerWithPriority hook priority
  | .unregister name => (r.unregister name).1

/-- What changes do, one after another. -/
def HookRegistry.after (r : HookRegistry) (changes : List Change) : HookRegistry :=
  changes.foldl HookRegistry.change r

theorem mem_change {r : HookRegistry} {change : Change} {e : HookEntry} :
    e ∈ (r.change change).hooks ↔
      change = .register e.hook e.priority ∨ e ∈ r.hooks ∧ e.hook.name ≠ change.name := by
  cases change with
  | register hook priority =>
    refine ((perm_sortByPriority _).mem_iff.trans (mem_place r.distinct)).trans ?_
    refine or_congr_left ⟨?_, ?_⟩
    · rintro rfl
      rfl
    · intro h
      obtain ⟨rfl, rfl⟩ := Change.register.inj h
      rfl
  | unregister name =>
    refine List.mem_filter.trans ?_
    rw [decide_eq_true_iff]
    exact ⟨.inr, fun h => h.resolve_left fun h => by cases h⟩

/-- **A registry holds what was registered last**: a hook is in it exactly if the last change of
its name registered it, with this priority. -/
theorem mem_after_iff (changes : List Change) (e : HookEntry) :
    e ∈ (HookRegistry.new.after changes).hooks ↔
      LastWrite.lastWith Change.name e.hook.name changes = some (.register e.hook e.priority) := by
  induction changes using List.reverseRecOn with
  | nil => exact iff_of_false List.not_mem_nil fun h => by cases h
  | append_singleton changes change ih =>
    have hafter : HookRegistry.new.after (changes ++ [change]) =
        (HookRegistry.new.after changes).change change := List.foldl_append
    rw [hafter, mem_change, ih, LastWrite.lastWith_concat]
    split
    case isTrue hname =>
      rw [Option.some.injEq]
      exact ⟨fun h => h.resolve_right fun h => h.2 hname.symm, .inl⟩
    case isFalse hname =>
      constructor
      · rintro (rfl | h)
        · exact absurd rfl hname
        · exact h.1
      · exact fun h => .inr ⟨h, fun heq => hname heq.symm⟩

/-! ### Guards -/

/-- The hooks of an event are those of its point that were registered last. -/
theorem mem_matching_after {changes : List Change} {event : HookEvent} {hook : Hook} :
    hook ∈ (HookRegistry.new.after changes).matching event ↔
      event.hookPoint ∈ hook.hook_points ∧ ∃ priority,
        LastWrite.lastWith Change.name hook.name changes = some (.register hook priority) := by
  rw [HookRegistry.matching, List.mem_map]
  constructor
  · rintro ⟨e, he, rfl⟩
    obtain ⟨hmem, hpoint⟩ := List.mem_filter.mp he
    exact ⟨of_decide_eq_true hpoint, e.priority, (mem_after_iff changes e).mp hmem⟩
  · rintro ⟨hpoint, priority, hlast⟩
    refine ⟨⟨hook, priority⟩, List.mem_filter.mpr ⟨?_, decide_eq_true hpoint⟩, rfl⟩
    exact (mem_after_iff changes ⟨hook, priority⟩).mpr hlast

/-- **Nothing gets past a guard**: where the hook last registered under its name lets no event of
this kind through, whatever its content, the hooks fail on each event of the kind, whatever has
been registered beside it and whatever the others make of the content. -/
theorem run_error_of_guard {changes : List Change} {hook : Hook} {priority : ℕ} (host : HookHost)
    {event : HookEvent}
    (hlast : LastWrite.lastWith Change.name hook.name changes = some (.register hook priority))
    (hpoint : event.hookPoint ∈ hook.hook_points)
    (hguard : ∀ event', event'.frame = event.frame →
      ∃ err, hook.handle host event' = .error err) :
    ∃ err, (HookRegistry.new.after changes).run host event = .error err := by
  have hmem := mem_matching_after.mpr ⟨hpoint, priority, hlast⟩
  obtain ⟨err, herr⟩ := @Chain.foldlM_error_of_mem _ _ _ (Hook.handle host) _ hook event
    (fun event' => event'.frame = event.frame)
    (fun _ _ b c hb hc => (Hook.frame_handle hc).trans hb) hmem hguard rfl
  refine ⟨err, ?_⟩
  rw [HookRegistry.run, if_neg fun hempty => ?_, herr]
  rw [List.isEmpty_iff.mp hempty] at hmem
  cases hmem

/-- A hook that rejects the calls of one tool. -/
def denyTool (denied : String) : Hook where
  name := "deny"
  hook_points := [.beforeToolCall]
  failure_mode := .failOpen
  timeout := 5
  execute event := some <| .ok <|
    match event with
    | .toolCall tool_name .. => if tool_name = denied then .reject "denied" else .continue none
    | _ => .continue none

/-- A hook that makes something else of every content. -/
def replaceContent (content : String) : Hook :=
  ⟨"replace", [.beforeToolCall, .beforeInbound], .failClosed, 5,
    fun _ => some (.ok (.continue (some content)))⟩

/-- A host that reads no JSON. -/
def blindHost : HookHost := ⟨⟨fun _ => "", fun _ => none⟩, fun _ => ""⟩

theorem run_error_denyTool :
    ∃ err, (HookRegistry.new.after [.register (denyTool "shell") 100,
        .register (replaceContent "else") 1, .unregister "other"]).run blindHost
      (.toolCall "shell" .null "user" "chat") = .error err :=
  @run_error_of_guard _ (denyTool "shell") 100 blindHost _ rfl (by decide) fun event' hframe => by
      cases event' with
      | toolCall tool_name parameters user_id context =>
        obtain ⟨rfl, -, -, -⟩ := HookEvent.toolCall.inj hframe
        exact ⟨_, rfl⟩
      | _ => cases hframe

end T3Claw.Hooks
