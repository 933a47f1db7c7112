import T3Claw.Runtime.Resume
import T3Claw.Types.Value

/-!
# The transcript across the Python boundary

`orchestrator.rs` writes the messages of a thread as JSON (`build_orchestrator_inputs`), which
`scripting.rs` turns into Monty objects and back (`json_to_monty`, `monty_to_json`), and reads them
again (`json_to_thread_messages`). Messages made by the constructors come back as they were, the
parameters of their calls aside: an unsigned number that no `i64` holds becomes a float. So the
transcript survives exactly when there is none (`transcript_survives_iff`).

The messages are those of `Runtime.Resume`, with parameters whose numbers are told apart.
-/

namespace T3Claw.Python

open T3Claw.Runtime (MessageRole)

/-! ### Messages -/

/-- A request from the model to execute an action. -/
structure ActionCall where
  id : String
  action_name : String
  parameters : Value

/-- A message in a thread's conversation history. -/
structure ThreadMessage where
  role : MessageRole
  content : String
  provenance : Provenance
  action_call_id : Option String
  action_name : Option String
  action_calls : Option (List ActionCall)
  timestamp : Time

namespace ThreadMessage

/-- Create a system message. -/
def system (content : String) (now : Time) : ThreadMessage :=
  ⟨.system, content, .system, none, none, none, now⟩

/-- Create a user message. -/
def user (content : String) (now : Time) : ThreadMessage :=
  ⟨.user, content, .user, none, none, none, now⟩

/-- Create an assistant text message. -/
def assistant (content : String) (now : Time) : ThreadMessage :=
  ⟨.assistant, content, .llmGenerated, none, none, none, now⟩

/-- Create an assistant message with action calls. -/
def assistantWithActions (content : Option String) (calls : List ActionCall) (now : Time) :
    ThreadMessage :=
  ⟨.assistant, content.getD "", .llmGenerated, none, none, some calls, now⟩

/-- Create an action result message. -/
def actionResult (call_id action_name content : String) (now : Time) : ThreadMessage :=
  ⟨.actionResult, content, .toolOutput action_name, some call_id, some action_name, none, now⟩

/-- A message that one of the constructors made. -/
inductive Built : ThreadMessage → Prop
  | system (content : String) (now : Time) : Built (system content now)
  | user (content : String) (now : Time) : Built (user content now)
  | assistant (content : String) (now : Time) : Built (assistant content now)
  | assistantWithActions (content : Option String) (calls : List ActionCall) (now : Time) :
    Built (assistantWithActions content calls now)
  | actionResult (call_id action_name content : String) (now : Time) :
    Built (actionResult call_id action_name content now)

/-- The same message, at whatever time. -/
def Same (message other : ThreadMessage) : Prop :=
  other = { message with timestamp := other.timestamp }

end ThreadMessage

/-! ### Monty objects -/

/-- An `i64`. -/
abbrev I64 : Type := { i : ℤ // -2 ^ 63 ≤ i ∧ i < 2 ^ 63 }

/-- `MontyObject`; `other` is a variant that is only printed. -/
inductive MontyObject where
  | none
  | bool (b : Bool)
  | int (i : I64)
  | bigInt (i : ℤ)
  | float (f : Float)
  | string (s : String)
  | list (length : ℕ) (item : Fin length → MontyObject)
  | tuple (length : ℕ) (item : Fin length → MontyObject)
  | dict (length : ℕ) (key value : Fin length → MontyObject)
  | set (length : ℕ) (item : Fin length → MontyObject)
  | frozenSet (length : ℕ) (item : Fin length → MontyObject)
  | bytes (b : List UInt8)
  | other (debug : String)

/-- `Number::as_i64`. -/
def asI64? : Number → Option I64
  | .posInt n =>
    if h : n.toNat < 2 ^ 63 then some ⟨n.toNat, by omega, by exact_mod_cast h⟩ else none
  | .negInt i range => some ⟨i, range.1, range.2.trans (by decide)⟩
  | .float .. => none

/-- `Number::as_f64`; there is one for every number. -/
def asF64 : Number → Float
  | .posInt n => n.toFloat
  | .negInt i _ => Float.ofInt i
  | .float f _ => f

/-- `json_to_monty`. -/
def jsonToMonty : Value → MontyObject
  | .null => .none
  | .bool b => .bool b
  | .number n =>
    match asI64? n with
    | some i => .int i
    | none => .float (asF64 n)
  | .string s => .string s
  | .array length item => .list length fun i => jsonToMonty (item i)
  | .object length key _ value => .dict length (fun i => .string (key i)) fun i =>
    jsonToMonty (value i)

/-- `json!` of an `i64`. -/
def jsonOfI64 (i : I64) : Value :=
  if h : i.1 < 0 then .number (.negInt i.1 ⟨i.2.1, h⟩)
  else .number (.posInt (UInt64.ofNat i.1.toNat))

/-- `json!` of an `f64`. -/
def jsonOfF64 (f : Float) : Value :=
  if h : f.isFinite = true then .number (.float f h) else .null

/-- Two digits in base 16. -/
def hexByte (byte : UInt8) : String :=
  String.ofList [Nat.digitChar (byte.toNat / 16), Nat.digitChar (byte.toNat % 16)]

/-- `monty_to_json`; `debug` is how Monty prints an object. -/
def montyToJson (debug : MontyObject → String) : MontyObject → Value
  | .none => .null
  | .bool b => .bool b
  | .int i => jsonOfI64 i
  | .bigInt i => .string (toString i)
  | .float f => jsonOfF64 f
  | .string s => .string s
  | .list length item | .tuple length item | .set length item | .frozenSet length item =>
    .array length fun i => montyToJson debug (item i)
  | .dict length key value =>
    .ofPairs <| List.ofFn fun i : Fin length =>
      (match key i with
        | .string s => s
        | k => debug k, montyToJson debug (value i))
  | .bytes b => .string (String.join (b.map hexByte))
  | .other text => .string text

/-! ### Writing -/

/-- `PythonActionCall::from`, serialized. -/
def ActionCall.toPython (call : ActionCall) : Value :=
  .ofPairs [("name", .string call.action_name), ("call_id", .string call.id),
    ("params", call.parameters)]

/-- `action_calls_to_python_json`; nothing fails to serialize. -/
def actionCallsToPythonJson (calls : List ActionCall) : List Value :=
  calls.map ActionCall.toPython

/-- `json!` of an optional string. -/
def jsonOfOption : Option String → Value
  | some s => .string s
  | none => .null

/-- A message in the context of the orchestrator. -/
def ThreadMessage.toPython (message : ThreadMessage) : Value :=
  .ofPairs [("role", .string message.role.debug), ("content", .string message.content),
    ("action_name", jsonOfOption message.action_name),
    ("action_call_id", jsonOfOption message.action_call_id),
    ("action_calls", match message.action_calls with
      | some calls => .ofList (actionCallsToPythonJson calls)
      | none => .null)]

/-- The messages the context is of: the internal transcript, or the visible one. -/
def bootstrapMessages (messages internal_messages : List ThreadMessage) : List ThreadMessage :=
  if internal_messages.isEmpty then messages else internal_messages

/-- The `context` of `build_orchestrator_inputs`. -/
def orchestratorContext (messages internal_messages : List ThreadMessage) : MontyObject :=
  jsonToMonty
    (.ofList ((bootstrapMessages messages internal_messages).map ThreadMessage.toPython))

/-! ### Reading -/

/-- `PythonActionCall::deserialize`, from a map or from a sequence, as a call. -/
def ActionCall.ofPython : Value → Option ActionCall
  | .array _ item =>
    match List.ofFn item with
    | [name, call_id, params] => do
      let name ← name.asStr?
      let call_id ← call_id.asStr?
      return ⟨call_id, name, params⟩
    | _ => none
  | value => do
    let name ← (← value.get? "name").asStr?
    let call_id ← (← value.get? "call_id").asStr?
    let params ← value.get? "params"
    return ⟨call_id, name, params⟩

/-- `python_json_to_action_calls`. -/
def pythonJsonToActionCalls (value : Value) : Option (List ActionCall) :=
  value.asArray?.bind (·.mapM ActionCall.ofPython)

/-- `json_to_thread_messages`, one message. -/
def ThreadMessage.ofPython (now : Time) (item : Value) : ThreadMessage :=
  let role := ((item.get? "role").bind Value.asStr?).getD "User"
  let content := ((item.get? "content").bind Value.asStr?).getD ""
  let action_calls := ((item.get? "action_calls").filter (!·.isNull)).bind pythonJsonToActionCalls
  if role = "System" ∨ role = "system" then .system content now
  else if role = "Assistant" ∨ role = "assistant" then
    match action_calls with
    | some calls => .assistantWithActions (some content) calls now
    | none => .assistant content now
  else if role = "ActionResult" ∨ role = "action_result" then
    .actionResult (((item.get? "action_call_id").bind Value.asStr?).getD "")
      (((item.get? "action_name").bind Value.asStr?).getD "") content now
  else .user content now

/-- `json_to_thread_messages`. -/
def jsonToThreadMessages (now : Time) (value : Value) : Option (List ThreadMessage) :=
  value.asArray?.map (·.map (ThreadMessage.ofPython now))

/-! ### A value read back -/

/-- A value that has been a Monty object. -/
def reread (debug : MontyObject → String) (value : Value) : Value :=
  montyToJson debug (jsonToMonty value)

/-- Every number in the value that is not a float is one of an `i64`. -/
def FitsI64 : Value → Prop
  | .number (.posInt n) => n.toNat < 2 ^ 63
  | .array _ item => ∀ i, FitsI64 (item i)
  | .object _ _ _ value => ∀ i, FitsI64 (value i)
  | _ => True

section

variable {debug : MontyObject → String}

theorem jsonOfI64_asI64? {n : Number} {i : I64} (h : asI64? n = some i) :
    jsonOfI64 i = .number n := by
  cases n with
  | posInt n =>
    rw [asI64?] at h
    split_ifs at h with hlt
    obtain rfl := Option.some.inj h
    rw [jsonOfI64, dif_neg (Int.natCast_nonneg _).not_gt, Int.toNat_natCast, UInt64.ofNat_toNat]
  | negInt i range =>
    obtain rfl := Option.some.inj h
    rw [jsonOfI64, dif_pos range.2]
  | float f finite => cases h

/-- A float is no integer. -/
theorem jsonOfF64_ne (f : Float) (n : UInt64) : jsonOfF64 f ≠ .number (.posInt n) := by
  rw [jsonOfF64]
  split_ifs <;> simp

theorem reread_number (n : Number) : reread debug (.number n) = .number n ↔
    FitsI64 (.number n) := by
  cases n with
  | posInt n =>
    by_cases hlt : n.toNat < 2 ^ 63
    · have hfits : asI64? (.posInt n) = some ⟨n.toNat, by omega, by exact_mod_cast hlt⟩ :=
        dif_pos hlt
      refine iff_of_true ?_ hlt
      rw [reread, jsonToMonty, hfits]
      exact jsonOfI64_asI64? hfits
    · have hlarge : asI64? (.posInt n) = none := dif_neg hlt
      refine iff_of_false ?_ hlt
      rw [reread, jsonToMonty, hlarge]
      exact jsonOfF64_ne _ n
  | negInt i range => exact iff_of_true (jsonOfI64_asI64? rfl) trivial
  | float f finite => exact iff_of_true (dif_pos finite) trivial

theorem reread_array {n : ℕ} (item : Fin n → Value) :
    reread debug (.array n item) = .array n fun i => reread debug (item i) := rfl

theorem reread_object {n : ℕ} {key : Fin n → String} (ascending : StrictMono key)
    (value : Fin n → Value) : reread debug (.object n key ascending value) =
      .object n key ascending fun i => reread debug (value i) :=
  Value.ofPairs_ofFn ascending fun i => reread debug (value i)

/-- **A value comes back** exactly when its numbers fit. -/
theorem reread_eq_iff (value : Value) : reread debug value = value ↔ FitsI64 value := by
  induction value with
  | null | bool | string => exact iff_of_true rfl trivial
  | number n => exact reread_number n
  | array n item ih =>
    rw [reread_array, Value.array.injEq, eq_self, true_and, heq_iff_eq, funext_iff]
    exact forall_congr' ih
  | object n key ascending value ih =>
    rw [reread_object, Value.object.injEq, eq_self, true_and, heq_iff_eq, heq_iff_eq, eq_self,
      true_and, funext_iff]
    exact forall_congr' ih

/-- What a number becomes is no string and no container. -/
theorem reread_number_cases (n : Number) :
    reread debug (.number n) = .null ∨ ∃ m, reread debug (.number n) = .number m := by
  have hint : ∀ i : I64, ∃ m, jsonOfI64 i = .number m := fun i => by
    rw [jsonOfI64]
    split_ifs <;> exact ⟨_, rfl⟩
  rw [reread, jsonToMonty]
  cases asI64? n with
  | some i => exact .inr (hint i)
  | none =>
    change jsonOfF64 _ = _ ∨ ∃ m, jsonOfF64 _ = _
    rw [jsonOfF64]
    split_ifs
    · exact .inr ⟨_, rfl⟩
    · exact .inl rfl

@[simp] theorem get?_reread (value : Value) (key : String) :
    (reread debug value).get? key = (value.get? key).map (reread debug) := by
  cases value with
  | null | bool | string | array => rfl
  | number n =>
    obtain h | ⟨m, h⟩ := @reread_number_cases debug n <;> rw [h] <;> rfl
  | object n k ascending value =>
    rw [reread_object]
    simp only [Value.get?, Fields.get?, Option.map_map]
    have hfields : (List.ofFn fun i => (k i, reread debug (value i))) =
        (List.ofFn fun i => (k i, value i)).map (Prod.map id (reread debug)) := by
      rw [List.map_ofFn]
      rfl
    rw [hfields, List.find?_map, Option.map_map]
    rfl

@[simp] theorem asStr?_reread (value : Value) :
    (reread debug value).asStr? = value.asStr? := by
  cases value with
  | null | bool | string | array => rfl
  | number n =>
    obtain h | ⟨m, h⟩ := @reread_number_cases debug n <;> rw [h] <;> rfl
  | object n k ascending value =>
    rw [reread_object]
    rfl

theorem reread_ofList (values : List Value) :
    reread debug (.ofList values) = .array values.length fun i => reread debug (values.get i) :=
  rfl

theorem asArray?_reread_ofList (values : List Value) :
    (reread debug (.ofList values)).asArray? = some (values.map (reread debug)) := by
  rw [reread_ofList, Value.asArray?]
  exact congrArg some (List.ofFn_getElem_eq_map values (reread debug))

/-! ### A message read back -/

/-- A call with its parameters read back. -/
def ActionCall.reread (debug : MontyObject → String) (call : ActionCall) : ActionCall :=
  { call with parameters := Python.reread debug call.parameters }

/-- A message with the parameters of its calls read back. -/
def ThreadMessage.reread (debug : MontyObject → String) (now : Time) (message : ThreadMessage) :
    ThreadMessage :=
  { message with
    action_calls := message.action_calls.map (·.map (ActionCall.reread debug))
    timestamp := now }

theorem ActionCall.ofPython_reread (call : ActionCall) :
    ActionCall.ofPython (Python.reread debug call.toPython) = some (call.reread debug) := by
  have hobject : ∀ pairs : List (String × Value),
      ActionCall.ofPython (Python.reread debug (.ofPairs pairs)) = do
        let name ← (← (Python.reread debug (.ofPairs pairs)).get? "name").asStr?
        let call_id ← (← (Python.reread debug (.ofPairs pairs)).get? "call_id").asStr?
        let params ← (Python.reread debug (.ofPairs pairs)).get? "params"
        return ⟨call_id, name, params⟩ := fun _ => rfl
  rw [toPython, hobject]
  simp [Fields.get?]
  rfl

theorem mapM_ofPython (calls : List ActionCall) :
    ((calls.map ActionCall.toPython).map (reread debug)).mapM ActionCall.ofPython =
      some (calls.map (ActionCall.reread debug)) := by
  induction calls with
  | nil => rfl
  | cons call rest ih =>
    rw [List.map_cons, List.map_cons, List.mapM_cons, ActionCall.ofPython_reread, ih]
    rfl

/-- **A message comes back** but for its time and the parameters of its calls. -/
theorem ThreadMessage.ofPython_reread (now : Time) {message : ThreadMessage}
    (h : message.Built) : ThreadMessage.ofPython now (Python.reread debug message.toPython) =
      message.reread debug now := by
  have hnull : (Python.reread debug .null).isNull = true := rfl
  have hlist : ∀ values, (Python.reread debug (.ofList values)).isNull = false := fun _ => rfl
  have hcalls : ∀ calls : List ActionCall,
      pythonJsonToActionCalls (Python.reread debug (.ofList (actionCallsToPythonJson calls))) =
        some (calls.map (ActionCall.reread debug)) := fun calls => by
    rw [pythonJsonToActionCalls, asArray?_reread_ofList]
    exact mapM_ofPython calls
  cases h
  case assistantWithActions content calls time =>
    simp [ofPython, toPython, Fields.get?, MessageRole.debug, Option.filter_some, hlist, hcalls,
      assistantWithActions, ThreadMessage.reread]
  all_goals
    simp [ofPython, toPython, Fields.get?, MessageRole.debug, Option.filter_some, hnull,
      jsonOfOption, system, user, assistant, actionResult, ThreadMessage.reread]

theorem jsonToThreadMessages_reread (now : Time) {messages : List ThreadMessage}
    (h : ∀ message ∈ messages, message.Built) :
    jsonToThreadMessages now (reread debug (.ofList (messages.map ThreadMessage.toPython))) =
      some (messages.map (ThreadMessage.reread debug now)) := by
  rw [jsonToThreadMessages, asArray?_reread_ofList, Option.map_some]
  refine congrArg some ?_
  induction messages with
  | nil => rfl
  | cons message rest ih =>
    obtain ⟨hmessage, hrest⟩ := List.forall_mem_cons.mp h
    rw [List.map_cons, List.map_cons, List.map_cons, List.map_cons, ih hrest,
      ThreadMessage.ofPython_reread now hmessage]

/-! ### The transcript -/

/-- Every call of the message has parameters that come back. -/
def ThreadMessage.FitsI64 (message : ThreadMessage) : Prop :=
  ∀ calls, message.action_calls = some calls → ∀ call ∈ calls, Python.FitsI64 call.parameters

theorem ActionCall.reread_eq_iff (call : ActionCall) :
    call.reread debug = call ↔ FitsI64 call.parameters := by
  rw [← @Python.reread_eq_iff debug]
  obtain ⟨id, name, parameters⟩ := call
  simp [ActionCall.reread]

theorem map_eq_self_iff {α : Type} {f : α → α} {l : List α} :
    l.map f = l ↔ ∀ a ∈ l, f a = a := by
  have hinj : l.map f = l.map id ↔ ∀ a ∈ l, f a = id a := List.map_inj_left
  rwa [List.map_id] at hinj

theorem ThreadMessage.same_reread_iff (now : Time) (message : ThreadMessage) :
    message.Same (message.reread debug now) ↔ message.FitsI64 := by
  obtain ⟨role, content, provenance, call_id, name, calls, time⟩ := message
  cases calls with
  | none => exact iff_of_true rfl (fun _ h => nomatch h)
  | some calls =>
    have hsame : ThreadMessage.Same ⟨role, content, provenance, call_id, name, some calls, time⟩
        (ThreadMessage.reread debug now
          ⟨role, content, provenance, call_id, name, some calls, time⟩) ↔
        calls.map (ActionCall.reread debug) = calls := by
      simp [ThreadMessage.Same, ThreadMessage.reread]
    rw [hsame, map_eq_self_iff]
    constructor
    · intro h calls' heq call hcall
      obtain rfl := Option.some.inj heq
      exact call.reread_eq_iff.mp (h call hcall)
    · exact fun h call hcall => call.reread_eq_iff.mpr (h calls rfl call hcall)

end

/-- What is read of the context has the messages it was written from, in their order. -/
def Survives (debug : MontyObject → String) (now : Time)
    (messages internal_messages : List ThreadMessage) : Prop :=
  ∃ read, jsonToThreadMessages now
      (montyToJson debug (orchestratorContext messages internal_messages)) = some read ∧
    List.Forall₂ ThreadMessage.Same (bootstrapMessages messages internal_messages) read

theorem survives_iff {debug : MontyObject → String} {now : Time}
    {messages internal_messages : List ThreadMessage}
    (hbuilt : ∀ message ∈ bootstrapMessages messages internal_messages, message.Built) :
    Survives debug now messages internal_messages ↔
      ∀ message ∈ bootstrapMessages messages internal_messages, message.FitsI64 := by
  have hread := @jsonToThreadMessages_reread debug now _ hbuilt
  have hforall : List.Forall₂ ThreadMessage.Same (bootstrapMessages messages internal_messages)
      ((bootstrapMessages messages internal_messages).map (ThreadMessage.reread debug now)) ↔
      ∀ message ∈ bootstrapMessages messages internal_messages, message.FitsI64 := by
    rw [List.forall₂_map_right_iff, List.forall₂_same]
    exact forall₂_congr fun message _ => message.same_reread_iff now
  rw [← hforall, Survives]
  constructor
  · rintro ⟨read, heq, hsame⟩
    obtain rfl := Option.some.inj (heq.symm.trans hread)
    exact hsame
  · exact fun hsame => ⟨_, hread, hsame⟩

/-- **The transcript survives the boundary** exactly when the parameters of its calls have no
number that no `i64` holds. -/
theorem transcript_survives_iff (debug : MontyObject → String) (now : Time)
    (messages internal_messages : List ThreadMessage)
    (hbuilt : ∀ message ∈ bootstrapMessages messages internal_messages, message.Built) :
    Survives debug now messages internal_messages ↔
      ∀ message ∈ bootstrapMessages messages internal_messages, message.FitsI64 :=
  survives_iff hbuilt

/-- A user asks, and the assistant calls an action with the number. -/
def callWith (n : UInt64) : List ThreadMessage :=
  [.user "Wait for it." 0,
    .assistantWithActions none [⟨"call_1", "wait", .ofPairs [("until", .number (.posInt n))]⟩] 0]

theorem built_callWith (n : UInt64) : ∀ message ∈ bootstrapMessages (callWith n) [],
    message.Built := by
  refine List.forall_mem_cons.mpr ⟨.user .., List.forall_mem_singleton.mpr ?_⟩
  exact .assistantWithActions ..

theorem transcript_survives_iff_call :
    Survives (fun _ => "") 1 (callWith 7) [] ↔
      ∀ message ∈ bootstrapMessages (callWith 7) [], message.FitsI64 :=
  transcript_survives_iff (fun _ => "") 1 (callWith 7) [] (built_callWith 7)

/-- The number after the last `i64` comes back as a float. -/
theorem large_number_lost : ¬∀ (debug : MontyObject → String) (now : Time)
    (messages internal_messages : List ThreadMessage),
    (∀ message ∈ bootstrapMessages messages internal_messages, message.Built) →
      Survives debug now messages internal_messages := by
  intro h
  have hsurvives := h (fun _ => "") 1 (callWith (2 ^ 63)) [] (built_callWith (2 ^ 63))
  have hfits := (survives_iff (built_callWith (2 ^ 63))).mp hsurvives
  have hcall := hfits _ (List.mem_cons_of_mem _ List.mem_cons_self) _ rfl _ List.mem_cons_self
  have hnumber : (2 ^ 63 : UInt64).toNat < 2 ^ 63 := hcall ⟨0, by decide⟩
  have hvalue : (2 ^ 63 : UInt64).toNat = 2 ^ 63 := by decide +kernel
  exact absurd hnumber hvalue.not_lt

end T3Claw.Python
