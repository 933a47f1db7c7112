import T3Claw.Hooks.Registry

/-!
# Hooks in front of tool calls

The callers of the hooks of a tool call: `execute_tool_calls` of `agent/dispatcher.rs`,
`execute_tool_inner` of `worker/job.rs`, `execute_action_internal` of `bridge/effect_adapter.rs` and
`HookGate` of `gate/approval.rs`. Each shows the hooks the parameters without the sensitive values
(`redact_params` of `tools/tool.rs`).

What the hooks decide does not depend on these values, and in a chat each of them reaches the tool
as it was (`dispatch_blind`). A call of a job loses them as soon as a hook modifies it
(`jobParams_blind`). The engine lets through what the hooks of a chat would stop: a call on which a
hook that fails closed is the first to fail, by an error or a timeout (`blockedBy_iff`).
-/

namespace T3Claw

/-! ### Objects -/

namespace Fields

variable {α : Type} {k : String} {v : α} {fields fields' : List (String × α)}

theorem mem_iff_get? (h : Ascending fields) : (k, v) ∈ fields ↔ get? fields k = some v := by
  induction fields with
  | nil => exact iff_of_false List.not_mem_nil fun h => by cases h
  | cons field fields ih =>
    obtain ⟨hfirst, hrest⟩ := List.pairwise_cons.mp h
    rw [List.mem_cons, ih hrest]
    by_cases hk : field.1 = k
    · have hnone : get? fields k ≠ some v := fun hsome =>
        (hfirst _ ((ih hrest).mpr hsome)).ne hk
      have hget : get? (field :: fields) k = some field.2 := by
        simp [get?, hk]
      rw [or_iff_left hnone, hget, Option.some.injEq, ← hk]
      exact ⟨fun heq => by rw [← heq], fun heq => by rw [← heq]⟩
    · have hget : get? (field :: fields) k = get? fields k := by
        simp [get?, hk]
      rw [hget, or_iff_right fun heq => hk (congrArg Prod.fst heq).symm]

/-- Ascending fields are what stands under their keys. -/
theorem ext_get? (h : Ascending fields) (h' : Ascending fields')
    (hget : ∀ k, get? fields k = get? fields' k) : fields = fields' := by
  have hnodup : ∀ {fields : List (String × α)}, Ascending fields → fields.Nodup := fun h =>
    h.imp fun hlt heq => hlt.ne (congrArg Prod.fst heq)
  have hperm : fields.Perm fields' := by
    refine (List.perm_ext_iff_of_nodup (hnodup h) (hnodup h')).mpr fun field => ?_
    rw [show field = (field.1, field.2) from rfl, mem_iff_get? h, mem_iff_get? h', hget]
  exact hperm.eq_of_pairwise (fun _ _ _ _ hlt hgt => absurd hlt hgt.not_gt) h h'

end Fields

namespace Value

/-- `as_object().is_some()`. -/
def isObject : Value → Bool
  | object .. => true
  | _ => false

/-- `Map::insert`, where the value is an object. -/
def insert : Value → String → Value → Value
  | object _ key ascending value, k, v =>
    .ofAscending (Fields.insert k v (List.ofFn fun i => (key i, value i)))
      (Fields.ascending_insert (ascending_ofFn ascending value))
  | other, _, _ => other

@[simp] theorem isObject_insert (w : Value) (k : String) (v : Value) :
    (w.insert k v).isObject = w.isObject := by
  cases w <;> rfl

theorem insert_of_not_isObject {w : Value} (h : w.isObject = false) (k : String) (v : Value) :
    w.insert k v = w := by
  cases w with
  | object => cases h
  | _ => rfl

theorem get?_insert {w : Value} (h : w.isObject = true) (k : String) (v : Value) (k' : String) :
    (w.insert k v).get? k' = if k' = k then some v else w.get? k' := by
  cases w with
  | object n key ascending value =>
    refine (congrArg (Fields.get? · k') (List.ofFn_get _)).trans ?_
    exact Fields.get?_insert (ascending_ofFn ascending value)
  | _ => cases h

/-- An object is what stands under its keys. -/
theorem ext_get? {v w : Value} (hv : v.isObject = true) (hw : w.isObject = true)
    (h : ∀ k, v.get? k = w.get? k) : v = w := by
  cases v with
  | object m key ascending value =>
    cases w with
    | object n key' ascending' value' =>
      rw [← ofPairs_ofFn ascending value, ← ofPairs_ofFn ascending' value']
      refine congrArg ofPairs (Fields.ext_get? (ascending_ofFn ascending value)
        (ascending_ofFn ascending' value') h)
    | _ => cases hw
  | _ => cases hv

end Value

namespace Hooks

/-! ### Sensitive parameters -/

/-- `redact_params`. -/
def redactParams (params : Value) (sensitive : List String) : Value :=
  if sensitive.isEmpty then params
  else if params.isObject then
    sensitive.foldl (fun redacted key =>
      if (redacted.get? key).isSome then redacted.insert key (.string "[REDACTED]")
      else redacted) params
  else params

/-- The original values under the sensitive keys, put back into what a hook has made of the
parameters. -/
def restoreParams (original : Value) (sensitive : List String) (parsed : Value) : Value :=
  sensitive.foldl (fun obj key =>
    match original.get? key with
    | some orig_val => obj.insert key orig_val
    | none => obj) parsed

/-- Parameters that differ in the values under sensitive keys only. -/
def SameBut (sensitive : List String) (p q : Value) : Prop :=
  p = q ∨ p.isObject = true ∧ q.isObject = true ∧
    ∀ key, (key ∉ sensitive → p.get? key = q.get? key) ∧
      ((p.get? key).isSome = (q.get? key).isSome)

section

variable {sensitive : List String} {p q original parsed : Value} {key : String}

/-- The object with the mark under the sensitive keys that are there. -/
theorem redactParams_spec {params : Value} (h : params.isObject = true)
    (sensitive : List String) :
    (redactParams params sensitive).isObject = true ∧
      ∀ key, (redactParams params sensitive).get? key =
        if key ∈ sensitive ∧ (params.get? key).isSome then some (.string "[REDACTED]")
        else params.get? key := by
  have hfold : ∀ (keys : List String) (params : Value), params.isObject = true →
      let redacted := keys.foldl (fun redacted key =>
        if (redacted.get? key).isSome then redacted.insert key (.string "[REDACTED]")
        else redacted) params
      redacted.isObject = true ∧ ∀ key, redacted.get? key =
        if key ∈ keys ∧ (params.get? key).isSome then some (.string "[REDACTED]")
        else params.get? key := by
    intro keys
    induction keys with
    | nil => exact fun params h => ⟨h, fun key => by simp⟩
    | cons k keys ih =>
      intro params h
      rw [List.foldl_cons]
      split
      case isTrue hk =>
        obtain ⟨hobject, hget⟩ := ih _ ((Value.isObject_insert params k _).trans h)
        refine ⟨hobject, fun key => ?_⟩
        rw [hget, Value.get?_insert h]
        by_cases hkey : key = k
        · simp [hkey, hk]
        · simp [hkey]
      case isFalse hk =>
        obtain ⟨hobject, hget⟩ := ih params h
        refine ⟨hobject, fun key => ?_⟩
        rw [hget]
        by_cases hkey : key = k
        · simp [hkey, hk]
        · simp [hkey]
  rw [redactParams]
  split
  case isTrue hempty => exact ⟨h, fun key => by simp [List.isEmpty_iff.mp hempty]⟩
  case isFalse => exact hfold sensitive params h

theorem redactParams_of_not_isObject (h : p.isObject = false) (sensitive : List String) :
    redactParams p sensitive = p := by
  rw [redactParams, h]
  split <;> rfl

/-- **What is redacted shows all but the sensitive values**, and of these whether they are there. -/
theorem redactParams_eq_iff :
    redactParams p sensitive = redactParams q sensitive ↔ SameBut sensitive p q := by
  have hobject : ∀ v : Value, (redactParams v sensitive).isObject = v.isObject := by
    intro v
    cases hv : v.isObject with
    | false => rw [redactParams_of_not_isObject hv, hv]
    | true => exact (redactParams_spec hv sensitive).1
  constructor
  · intro heq
    have hsame : p.isObject = q.isObject := by rw [← hobject p, heq, hobject q]
    cases hp : p.isObject with
    | false =>
      rw [redactParams_of_not_isObject hp, redactParams_of_not_isObject (hsame.symm.trans hp)]
        at heq
      exact .inl heq
    | true =>
      have hq := hsame.symm.trans hp
      have hsome : ∀ {v : Value}, v.isObject = true → ∀ key,
          ((redactParams v sensitive).get? key).isSome = (v.get? key).isSome := by
        intro v hv key
        rw [(redactParams_spec hv sensitive).2]
        split
        case isTrue hkey => exact hkey.2.symm
        case isFalse => rfl
      refine .inr ⟨hp, hq, fun key => ⟨fun hkey => ?_, ?_⟩⟩
      · have hget := congrArg (Value.get? · key) heq
        simpa [(redactParams_spec hp sensitive).2, (redactParams_spec hq sensitive).2, hkey]
          using hget
      · rw [← hsome hp key, heq, hsome hq key]
  · rintro (rfl | ⟨hp, hq, hget⟩)
    · rfl
    · refine Value.ext_get? ((hobject p).trans hp) ((hobject q).trans hq) fun key => ?_
      rw [(redactParams_spec hp sensitive).2, (redactParams_spec hq sensitive).2, (hget key).2]
      split
      case isTrue => rfl
      case isFalse hkey =>
        by_cases hmem : key ∈ sensitive
        · have hnone : (q.get? key).isSome = false := by simpa [hmem] using hkey
          have hnone' := (hget key).2.trans hnone
          rw [Option.isSome_eq_false_iff, Option.isNone_iff_eq_none] at hnone hnone'
          rw [hnone, hnone']
        · exact (hget key).1 hmem

/-- What stood under a sensitive key stands there again. -/
theorem restoreParams_spec (original : Value) (sensitive : List String) (parsed : Value) :
    (restoreParams original sensitive parsed).isObject = parsed.isObject ∧
      (parsed.isObject = true → ∀ key, (restoreParams original sensitive parsed).get? key =
        if key ∈ sensitive ∧ (original.get? key).isSome then original.get? key
        else parsed.get? key) := by
  rw [restoreParams]
  induction sensitive generalizing parsed with
  | nil => exact ⟨rfl, fun _ key => by simp⟩
  | cons k keys ih =>
    rw [List.foldl_cons]
    cases hk : original.get? k with
    | none =>
      obtain ⟨hobject, hget⟩ := ih parsed
      refine ⟨hobject, fun h key => (hget h key).trans ?_⟩
      by_cases hkey : key = k
      · simp [hkey, hk]
      · simp [hkey]
    | some orig_val =>
      obtain ⟨hobject, hget⟩ := ih (parsed.insert k orig_val)
      rw [Value.isObject_insert] at hobject hget
      refine ⟨hobject, fun h key => (hget h key).trans ?_⟩
      rw [Value.get?_insert h]
      by_cases hkey : key = k
      · simp [hkey, hk]
      · simp [hkey]

theorem restoreParams_of_not_isObject (original : Value) (sensitive : List String)
    (h : parsed.isObject = false) : restoreParams original sensitive parsed = parsed := by
  rw [restoreParams]
  induction sensitive with
  | nil => rfl
  | cons k keys ih =>
    rw [List.foldl_cons]
    split
    case h_1 orig_val _ => rwa [Value.insert_of_not_isObject h]
    case h_2 => exact ih

/-- What is put back into one value differs as the values that are put back do. -/
theorem sameBut_restoreParams (h : ∀ key, (p.get? key).isSome = (q.get? key).isSome)
    (parsed : Value) :
    SameBut sensitive (restoreParams p sensitive parsed) (restoreParams q sensitive parsed) := by
  cases hparsed : parsed.isObject with
  | false =>
    rw [restoreParams_of_not_isObject p sensitive hparsed,
      restoreParams_of_not_isObject q sensitive hparsed]
    exact .inl rfl
  | true =>
    obtain ⟨hp, hgetp⟩ := restoreParams_spec p sensitive parsed
    obtain ⟨hq, hgetq⟩ := restoreParams_spec q sensitive parsed
    refine .inr ⟨hp.trans hparsed, hq.trans hparsed, fun key => ?_⟩
    rw [hgetp hparsed, hgetq hparsed, ← h key]
    refine ⟨fun hkey => by rw [if_neg fun h => hkey h.1, if_neg fun h => hkey h.1], ?_⟩
    split
    case isTrue => exact h key
    case isFalse => rfl

end

/-! ### In a chat and in a job -/

section

variable (host : HookHost) (r : HookRegistry) (sensitive : List String)
  (user_id tool_name : String)

/-- The hooks in `execute_tool_calls`: the arguments that the call goes on with, or why it is
rejected. -/
def dispatch (arguments : Value) : Except String Value :=
  match r.run host (.toolCall tool_name (redactParams arguments sensitive) user_id "chat") with
  | .error (.rejected reason) => .error ("Tool call rejected by hook: " ++ reason)
  | .error err => .error ("Tool call blocked by hook policy: " ++ err.text host)
  | .ok (.continue (some new_params)) =>
    match host.from_str new_params with
    | some parsed => .ok (restoreParams arguments sensitive parsed)
    | none => .ok arguments
  | .ok _ => .ok arguments

/-- The hooks in `execute_tool_inner`, with `prepare_tool_params` for the tool. -/
def jobParams (job_id : String) (prepare_tool_params : Value → Value)
    (normalized_params : Value) : Except String Value :=
  match r.run host (.toolCall tool_name (redactParams normalized_params sensitive) user_id
      ("job:" ++ job_id)) with
  | .error (.rejected reason) => .error ("Blocked by hook: " ++ reason)
  | .error err => .error ("Blocked by hook failure mode: " ++ err.text host)
  | .ok (.continue (some new_params)) =>
    match host.from_str new_params with
    | some parsed => .ok (prepare_tool_params parsed)
    | none => .ok normalized_params
  | .ok _ => .ok normalized_params

variable {sensitive} {p q : Value}

/-- **The hooks of a chat are blind to sensitive values.** Of two calls that differ in these only
both are rejected with one text, or both go on with arguments that again differ in these only; and
what stood under a sensitive key is what the tool gets there. -/
theorem dispatch_blind (h : SameBut sensitive p q) :
    (∃ text, dispatch host r sensitive user_id tool_name p = .error text ∧
      dispatch host r sensitive user_id tool_name q = .error text) ∨
    ∃ p' q', dispatch host r sensitive user_id tool_name p = .ok p' ∧
      dispatch host r sensitive user_id tool_name q = .ok q' ∧ SameBut sensitive p' q' ∧
      ∀ key ∈ sensitive, (p.get? key).isSome → p'.isObject = true →
        p'.get? key = p.get? key ∧ q'.get? key = q.get? key := by
  have hsame : ∀ key, (p.get? key).isSome = (q.get? key).isSome := by
    intro key
    obtain rfl | ⟨-, -, hget⟩ := h
    · rfl
    · exact (hget key).2
  rw [dispatch, dispatch, redactParams_eq_iff.mpr h]
  cases r.run host (.toolCall tool_name (redactParams q sensitive) user_id "chat") with
  | error err => cases err <;> exact .inl ⟨_, rfl, rfl⟩
  | ok outcome =>
    refine .inr ?_
    cases outcome with
    | reject reason => exact ⟨p, q, rfl, rfl, h, fun _ _ _ _ => ⟨rfl, rfl⟩⟩
    | «continue» modified =>
      cases modified with
      | none => exact ⟨p, q, rfl, rfl, h, fun _ _ _ _ => ⟨rfl, rfl⟩⟩
      | some new_params =>
        cases hparsed : host.from_str new_params with
        | none => exact ⟨p, q, by simp only [hparsed], by simp only [hparsed], h,
            fun _ _ _ _ => ⟨rfl, rfl⟩⟩
        | some parsed =>
          obtain ⟨hp, hgetp⟩ := restoreParams_spec p sensitive parsed
          obtain ⟨-, hgetq⟩ := restoreParams_spec q sensitive parsed
          refine ⟨restoreParams p sensitive parsed, restoreParams q sensitive parsed,
            by simp only [hparsed], by simp only [hparsed], sameBut_restoreParams hsame parsed,
            fun key hkey hsome hobject => ?_⟩
          rw [hp] at hobject
          rw [hgetp hobject, hgetq hobject, if_pos ⟨hkey, hsome⟩,
            if_pos ⟨hkey, hsame key ▸ hsome⟩]
          exact ⟨rfl, rfl⟩

/-- Parameters with a secret. -/
def secretParams (token : String) : Value :=
  .ofPairs [("city", .string "Bern"), ("token", .string token)]

theorem sameBut_secretParams (a b : String) :
    SameBut ["token"] (secretParams a) (secretParams b) := by
  refine .inr ⟨rfl, rfl, fun key => ?_⟩
  by_cases hkey : key = "token"
  · simp [secretParams, Fields.get?, hkey]
  · simp [secretParams, Fields.get?, Ne.symm hkey]

/-- A host that reads each text as an object with the mark. -/
def markHost : HookHost where
  to_string v := if (v.get? "city").isSome then "with a city" else "without"
  from_str _ := some (.ofPairs [("token", .string "[REDACTED]")])
  debug_duration _ := ""

theorem dispatch_secretParams :
    (∃ text, dispatch markHost (HookRegistry.new.register (replaceContent "else")) ["token"] "user"
        "weather" (secretParams "one") = .error text ∧
      dispatch markHost (HookRegistry.new.register (replaceContent "else")) ["token"] "user"
        "weather" (secretParams "two") = .error text) ∨
    ∃ p' q', dispatch markHost (HookRegistry.new.register (replaceContent "else")) ["token"] "user"
        "weather" (secretParams "one") = .ok p' ∧
      dispatch markHost (HookRegistry.new.register (replaceContent "else")) ["token"] "user"
        "weather" (secretParams "two") = .ok q' ∧ SameBut ["token"] p' q' ∧
      ∀ key ∈ ["token"], ((secretParams "one").get? key).isSome → p'.isObject = true →
        p'.get? key = (secretParams "one").get? key ∧
          q'.get? key = (secretParams "two").get? key :=
  dispatch_blind _ _ _ _ (sameBut_secretParams "one" "two")

/-- **The hooks of a job are blind to sensitive values, and so is the tool behind them**: calls that
differ in these only are left as they are or become one and the same. -/
theorem jobParams_blind (job_id : String) (prepare_tool_params : Value → Value)
    (h : SameBut sensitive p q) :
    jobParams host r sensitive user_id tool_name job_id prepare_tool_params p =
        jobParams host r sensitive user_id tool_name job_id prepare_tool_params q ∨
      jobParams host r sensitive user_id tool_name job_id prepare_tool_params p = .ok p ∧
        jobParams host r sensitive user_id tool_name job_id prepare_tool_params q = .ok q := by
  rw [jobParams, jobParams, redactParams_eq_iff.mpr h]
  cases r.run host (.toolCall tool_name (redactParams q sensitive) user_id ("job:" ++ job_id)) with
  | error err => cases err <;> exact .inl rfl
  | ok outcome =>
    cases outcome with
    | reject reason => exact .inr ⟨rfl, rfl⟩
    | «continue» modified =>
      cases modified with
      | none => exact .inr ⟨rfl, rfl⟩
      | some new_params =>
        cases hparsed : host.from_str new_params with
        | none => exact .inr ⟨by simp only [hparsed], by simp only [hparsed]⟩
        | some parsed => exact .inl (by simp only [hparsed])

theorem jobParams_secretParams :
    jobParams markHost (HookRegistry.new.register (replaceContent "else")) ["token"] "user"
        "weather" "job" id (secretParams "one") =
      jobParams markHost (HookRegistry.new.register (replaceContent "else")) ["token"] "user"
        "weather" "job" id (secretParams "two") ∨
    jobParams markHost (HookRegistry.new.register (replaceContent "else")) ["token"] "user"
        "weather" "job" id (secretParams "one") = .ok (secretParams "one") ∧
      jobParams markHost (HookRegistry.new.register (replaceContent "else")) ["token"] "user"
        "weather" "job" id (secretParams "two") = .ok (secretParams "two") :=
  jobParams_blind _ _ _ _ _ _ (sameBut_secretParams "one" "two")

end

/-! ### In the engine -/

/-- The hooks fail where the first of them does that does not let the event through. -/
theorem run_eq_error_iff {host : HookHost} {r : HookRegistry} {event : HookEvent}
    {err : HookError} :
    r.run host event = .error err ↔ ∃ front hook back event',
      r.matching event = front ++ hook :: back ∧
        front.foldlM (Hook.handle host) event = .ok event' ∧
        hook.handle host event' = .error err := by
  rw [← Chain.foldlM_eq_error_iff, HookRegistry.run]
  split
  case isTrue hempty =>
    rw [List.isEmpty_iff.mp hempty]
    exact iff_of_false (fun h => by cases h) fun h => by cases h
  case isFalse =>
    cases (r.matching event).foldlM (Hook.handle host) event with
    | error err' =>
      exact ⟨fun h => congrArg _ (Except.error.inj h), fun h => congrArg _ (Except.error.inj h)⟩
    | ok event' =>
      refine iff_of_false (fun h => ?_) fun h => by cases h
      dsimp only at h
      split at h <;> cases h

theorem run_ne_reject (host : HookHost) (r : HookRegistry) (event : HookEvent) (reason : String) :
    r.run host event ≠ .ok (.reject reason) := by
  intro h
  rw [HookRegistry.run] at h
  split at h
  · cases h
  · split at h
    · cases h
    · dsimp only at h
      split at h <;> cases h

theorem handle_eq_rejected_iff {host : HookHost} {event : HookEvent} {hook : Hook}
    {reason : String} :
    hook.handle host event = .error (.rejected reason) ↔
      hook.execute event = some (.ok (.reject reason)) := by
  rw [Hook.handle]
  constructor
  · intro h
    split at h
    case h_1 heq =>
      obtain rfl := HookError.rejected.inj (Except.error.inj h)
      exact heq
    case h_2 | h_3 => cases h
    all_goals split at h <;> cases h
  · intro h
    rw [h]

section

variable (host : HookHost) (r : HookRegistry) (sensitive : List String)
  (user_id name action_name : String)

/-- Why the hooks block a call of the engine, if they do: `execute_action_internal` with the context
`engine_v2:` and the name that was looked up, and `HookGate` with the context `gate:` and the name
of the action. An error that is no rejection lets the call through. -/
def blockedBy (context : String) (parameters : Value) : Option String :=
  match r.run host (.toolCall name (redactParams parameters sensitive) user_id context) with
  | .ok (.reject reason) | .error (.rejected reason) =>
    some ("Tool '" ++ action_name ++ "' blocked by hook: " ++ reason)
  | .error _ => none
  | .ok (.continue _) => none

/-- **The engine stops a call if the first hook that ends the chain rejects it**, and lets it
through where that hook has failed closed, whatever the hooks behind it would say. A hook that fails
open does not end the chain. -/
theorem blockedBy_iff (context : String) (parameters : Value) :
    let event := .toolCall name (redactParams parameters sensitive) user_id context
    ((blockedBy host r sensitive user_id name action_name context parameters).isSome ↔
      ∃ front hook back event' reason, r.matching event = front ++ hook :: back ∧
        front.foldlM (Hook.handle host) event = .ok event' ∧
        hook.execute event' = some (.ok (.reject reason))) ∧
    ∀ front hook back event', r.matching event = front ++ hook :: back →
      front.foldlM (Hook.handle host) event = .ok event' → hook.failure_mode = .failClosed →
      (hook.execute event' = none ∨ ∃ err, hook.execute event' = some (.error err)) →
        blockedBy host r sensitive user_id name action_name context parameters = none := by
  intro event
  have hrun : (blockedBy host r sensitive user_id name action_name context parameters).isSome ↔
      ∃ reason, r.run host event = .error (.rejected reason) := by
    rw [blockedBy]
    cases hr : r.run host event with
    | error err =>
      cases err with
      | rejected reason => exact iff_of_true rfl ⟨reason, rfl⟩
      | _ => exact iff_of_false (fun h => by cases h) fun ⟨_, h⟩ => by cases h
    | ok outcome =>
      cases outcome with
      | «continue» modified =>
        exact iff_of_false (fun h => by cases h) fun ⟨_, h⟩ => by cases h
      | reject reason => exact absurd hr (run_ne_reject host r event reason)
  refine ⟨hrun.trans ⟨?_, ?_⟩, ?_⟩
  · rintro ⟨reason, h⟩
    obtain ⟨front, hook, back, event', hsplit, hfront, herr⟩ := run_eq_error_iff.mp h
    exact ⟨front, hook, back, event', reason, hsplit, hfront, handle_eq_rejected_iff.mp herr⟩
  · rintro ⟨front, hook, back, event', reason, hsplit, hfront, hreject⟩
    exact ⟨reason, run_eq_error_iff.mpr
      ⟨front, hook, back, event', hsplit, hfront, handle_eq_rejected_iff.mpr hreject⟩⟩
  · intro front hook back event' hsplit hfront hclosed hfailed
    obtain ⟨err, herr, hne⟩ : ∃ err, hook.handle host event' = .error err ∧
        ∀ reason, err ≠ .rejected reason := by
      obtain hnone | ⟨e, he⟩ := hfailed
      · exact ⟨_, by rw [Hook.handle, hnone, hclosed], fun reason h => by cases h⟩
      · exact ⟨_, by rw [Hook.handle, he, hclosed], fun reason h => by cases h⟩
    refine Option.not_isSome_iff_eq_none.mp fun hblocked => ?_
    obtain ⟨reason, hrejected⟩ := hrun.mp hblocked
    rw [run_eq_error_iff.mpr ⟨front, hook, back, event', hsplit, hfront, herr⟩] at hrejected
    exact hne reason (Except.error.inj hrejected)

end

end Hooks

end T3Claw
