import T3Claw.Types.Error

/-!
# Action calls, results and events

`types/step.rs` and the part of `types/event.rs` the dispatch paths emit. An event carries
a short summary of the call's parameters (`summarize_params`), cut at a character boundary
so that the text stays within a byte budget.
-/

namespace T3Claw

/-- A request from the model to execute an action. -/
structure ActionCall where
  id : String
  action_name : String
  parameters : Json

/-- The result of executing an action; the duration is in milliseconds. -/
structure ActionResult where
  call_id : String
  action_name : String
  output : Json
  is_error : Bool
  duration : ℕ

/-- The variants of `EventKind` that action dispatch emits. -/
inductive EventKind where
  | actionExecuted (step_id : StepId) (action_name call_id : String) (duration_ms : ℕ)
      (params_summary : Option String)
  | actionFailed (step_id : StepId) (action_name call_id error : String) (duration_ms : ℕ)
      (params_summary : Option String)
  | approvalRequested (action_name call_id : String) (parameters : Json)
      (allow_always : Option Bool) (gate_name params_summary : Option String)

/-! ### Parameter summaries -/

/-- The longest prefix that fits in a number of UTF-8 bytes. -/
def takeBytes : ℕ → List Char → List Char
  | _, [] => []
  | max, c :: cs => if c.utf8Size ≤ max then c :: takeBytes (max - c.utf8Size) cs else []

/-- `event.rs::truncate`. -/
def truncate (s : String) (max : ℕ) : String :=
  if s.utf8ByteSize ≤ max then s else String.ofList (takeBytes max s.toList) ++ "..."

/-- The string a summary shows for one parameter. -/
private def paramText (params : Json) (field : String) (cut : String → String) :
    Option String :=
  ((params.get? field).bind Json.asStr?).map cut

/-- `event.rs::summarize_params`. -/
def summarizeParams (action_name : String) (params : Json) : Option String :=
  let summary : Option String :=
    if action_name = "http" ∨ action_name = "web_fetch" then
      paramText params "url" (truncate · 80)
    else if action_name = "web_search" ∨ action_name = "llm_context" then
      paramText params "query" (truncate · 60)
    else if action_name = "memory_search" then paramText params "query" (truncate · 60)
    else if action_name = "memory_write" then paramText params "target" id
    else if action_name = "memory_read" then paramText params "path" id
    else if action_name = "shell" then paramText params "command" (truncate · 60)
    else if action_name = "message" then paramText params "content" (truncate · 40)
    else
      match params with
      | .obj fields => (fields.findSome? fun f => f.2.asStr?).map (truncate · 50)
      | _ => none
  summary.filter fun s => s ≠ ""

/-! ### Gate pauses as JSON -/

/-- The externally tagged encoding of a resume kind. -/
def ResumeKind.toJson : ResumeKind → Json
  | .approval allow_always => .obj [("Approval", .obj [("allow_always", .bool allow_always)])]
  | .authentication credential_name instructions auth_url =>
    .obj [("Authentication", .obj [("credential_name", .str credential_name),
      ("instructions", .str instructions),
      ("auth_url", (auth_url.map Json.str).getD .null)])]
  | .external callback_id => .obj [("External", .obj [("callback_id", .str callback_id)])]

/-- Decoding a resume kind. -/
def ResumeKind.ofJson? (j : Json) : Option ResumeKind :=
  match j.get? "Approval", j.get? "Authentication", j.get? "External" with
  | some body, _, _ => ((body.get? "allow_always").bind Json.asBool?).map .approval
  | none, some body, _ => do
    let credential_name ← (body.get? "credential_name").bind Json.asStr?
    let instructions ← (body.get? "instructions").bind Json.asStr?
    match body.get? "auth_url" with
    | some (.str url) => some (.authentication credential_name instructions (some url))
    | some .null | none => some (.authentication credential_name instructions none)
    | some _ => none
  | none, none, some body => ((body.get? "callback_id").bind Json.asStr?).map .external
  | none, none, none => none

/-- A resume kind survives the trip through JSON. -/
theorem ResumeKind.ofJson?_toJson (k : ResumeKind) : ofJson? k.toJson = some k := by
  cases k with
  | approval a => rfl
  | authentication c i u => cases u <;> rfl
  | external c => rfl

/-- Whether the "always approve" option is offered for a pause. -/
def ResumeKind.allowAlways? : ResumeKind → Option Bool
  | .approval allow_always => some allow_always
  | _ => none

end T3Claw
