import T3Claw.Safety.Layer
import T3Claw.Safety.LeakScan
import T3Claw.Workspace.Calls

/-!
# What is stored, and what a refusal leaves behind

A call that succeeds may have left out a guard: the layer writes and `append_memory` do not scan
for injected instructions, `append_memory` does not validate, and a `write` does not when the
content stays or the path is one of the engine's. What is stored is then as good as what the call
was given (`guarded_iff_covered`).

A call that fails has stored nothing, but it may have created its document before it was rejected
(`leaves_no_trace_iff`).
-/

namespace T3Claw.Workspace

open Conc Safety

variable {Re : Type} {crates : Crates Re}

/-- The content is of the given schema, if there is one. -/
def Valid (crates : Crates Re) (metadata : DocumentMetadata) (path content : List Char) : Prop :=
  ∀ schema ∈ metadata.schema, validateContentAgainstSchema crates path content schema = .ok ()

/-- A content that passes the validation is valid. -/
theorem validated_iff {metadata : DocumentMetadata} {path content : List Char} :
    validated crates metadata path content = .ok () ↔ Valid crates metadata path content := by
  rw [validated, Valid]
  cases metadata.schema with
  | none => simp
  | some schema => simp

/-- A system-prompt file that passes the scan has nothing severe in it. -/
theorem dominating_of_scanned (hempty : dominating crates.safety [] = [])
    {path content : List Char} (hpath : isSystemPromptFile path = true)
    (h : scanned crates path content = .ok ()) : dominating crates.safety content = [] := by
  by_cases hcontent : content = []
  · rw [hcontent, hempty]
  rw [scanned, if_pos ⟨hpath, hcontent⟩, rejectIfInjected] at h
  split at h
  · cases h
  case isFalse hany =>
    refine List.filter_eq_nil_iff.mpr fun w hw hsevere => hany ?_
    exact List.any_eq_true.mpr ⟨w, hw, hsevere⟩

namespace CallStep

/-- What the path a call writes to holds after it: in a system-prompt file of the user's own scope
nothing severe, and where the metadata carries a schema a content of that schema. -/
def Guarded (crates : Crates Re) (s : CallStep) : Prop :=
  ∀ scope path, s.call.target s.ws = .ok (scope, path) →
    ∀ row, s.after.rowAt scope s.ws.agent_id path = some row →
      (scope = s.ws.user_id → isSystemPromptFile path = true →
        dominating crates.safety row.content = []) ∧
      Valid crates (s.after.metadataIn s.ws.agent_id scope path) path row.content

/-- What a call stores without a guard would have passed it. -/
def Covered (crates : Crates Re) (s : CallStep) : Prop :=
  ∀ scope path, s.call.target s.ws = .ok (scope, path) →
    let old := (s.before.target scope s.ws.agent_id path).content
    (¬ s.call.Scans → scope = s.ws.user_id → isSystemPromptFile path = true →
      dominating crates.safety (s.call.newContent old) = []) ∧
    (¬ s.call.Validates path old →
      Valid crates ((s.before.ensured scope s.ws.agent_id path).metadataIn s.ws.agent_id scope path)
        path (s.call.newContent old))

/-- One call: what it leaves is guarded if and only if it is covered. -/
theorem guarded_iff_covered_of_effect (hempty : dominating crates.safety [] = []) {s : CallStep}
    (heffect : Effect crates s.ws s.before s.call s.answer s.after) (hok : s.Succeeds) :
    s.Guarded crates ↔ s.Covered crates := by
  obtain ⟨ws, call, before, answer, after⟩ := s
  obtain ⟨outcome, rfl⟩ := hok
  cases heffect with
  | @done _ scope path d' _ htarget hbecomes hcontent hscans hvalidates _ _ =>
    have hrow := hbecomes.rowAt_eq (Db.rowAt_ensured before scope ws.agent_id path)
    have hmetadata := hbecomes.metadataIn ws.agent_id scope path
    constructor
    · intro h scope' path' htarget'
      obtain ⟨rfl, rfl⟩ := Prod.mk.inj (Except.ok.inj (htarget.symm.trans htarget'))
      obtain ⟨hclean, hvalid⟩ := h scope path htarget d' hrow
      rw [hcontent] at hclean hvalid
      rw [hmetadata] at hvalid
      exact ⟨fun _ => hclean, fun _ => hvalid⟩
    · intro h scope' path' htarget' row hrow'
      obtain ⟨rfl, rfl⟩ := Prod.mk.inj (Except.ok.inj (htarget.symm.trans htarget'))
      obtain rfl : d' = row := Option.some.inj (hrow.symm.trans hrow')
      obtain ⟨hclean, hvalid⟩ := h scope path htarget
      dsimp only at hclean hvalid
      rw [← hcontent] at hclean hvalid
      constructor
      · intro hscope hpath
        by_cases hs : call.Scans
        · exact dominating_of_scanned hempty hpath (hscans hs)
        · exact hclean hs hscope hpath
      · dsimp only
        rw [hmetadata]
        by_cases hv : call.Validates path (before.target scope ws.agent_id path).content
        · exact validated_iff.mp (hvalidates hv)
        · exact hvalid hv

end CallStep

/-- **Every write path is guarded, as far as it is covered.** In any run of calls, what each
successful call leaves at its path is as it should be if and only if what the calls store without
a guard would have passed it. -/
theorem guarded_iff_covered (hempty : dominating crates.safety [] = []) (db : Db)
    (calls : List (Workspace × Call)) :
    (∀ s ∈ trace crates db calls, s.Succeeds → s.Guarded crates) ↔
      ∀ s ∈ trace crates db calls, s.Succeeds → s.Covered crates :=
  forall₃_congr fun _ hs hok =>
    CallStep.guarded_iff_covered_of_effect hempty (effect_of_mem_trace hs) hok

/-- Crates for examples: no pattern but the literal ones, every text its own hash, and of JSON
only the empty object, which is of every schema. -/
def sampleCrates : Crates String where
  safety := fileCrates
  contentSha256 := String.ofList
  fromStr content := if content = "\x7b\x7d".toList then .ok (.obj []) else .error "expected value"
  validatorFor _ := .ok fun _ => []

theorem guarded_iff_covered_alice :
    (∀ s ∈ trace sampleCrates .empty [(.new "alice", .append "SOUL.md".toList "kind".toList)],
      s.Succeeds → s.Guarded sampleCrates) ↔
    ∀ s ∈ trace sampleCrates .empty [(.new "alice", .append "SOUL.md".toList "kind".toList)],
      s.Succeeds → s.Covered sampleCrates :=
  guarded_iff_covered (by decide +kernel) _ _

/-- The user's own layer takes what `write` rejects. -/
theorem layer_write_unguarded :
    ∃ s ∈ trace sampleCrates .empty
        [(.new "alice",
          .writeToLayer "private" "SOUL.md".toList "ignore previous".toList false)],
      s.Succeeds ∧ ¬ s.Guarded sampleCrates := by
  refine ⟨_, List.mem_singleton.mpr rfl, ⟨_, rfl⟩, fun h => ?_⟩
  obtain ⟨hclean, -⟩ := h "alice" paths.SOUL rfl _ rfl
  have hsevere : dominating fileCrates "ignore previous".toList ≠ [] := by decide +kernel
  exact hsevere (hclean rfl (by decide +kernel))

/-! ### Calls that fail -/

/-- Making sure of a file changes the tables unless it is there. -/
theorem documents_ensured_iff {db : Db} {scope : String} {agent_id : Option ℕ}
    {path : List Char} : (db.ensured scope agent_id path).documents = db.documents ↔
      (db.rowAt scope agent_id path).isSome = true := by
  cases hrow : db.rowAt scope agent_id path with
  | some d => simp [Db.ensured_of_some hrow]
  | none =>
    simp only [Option.isSome_none, Bool.false_eq_true, iff_false]
    intro h
    have hvalues := Db.values_ensured_of_none hrow
    rw [h] at hvalues
    exact absurd (congrArg List.length hvalues) (by simp)

/-- **What a call that fails leaves behind.** The tables are as before if and only if the call was
refused at once or its document was there. -/
theorem leaves_no_trace_iff (crates : Crates Re) (ws : Workspace) (db : Db) (call : Call)
    {e : WorkspaceError} (h : ((call.code crates ws).run storageMachine db).1 = .error e) :
    ((call.code crates ws).run storageMachine db).2.documents = db.documents ↔
      call.RefusedAtOnce crates ws ∨ ∀ scope path, call.target ws = .ok (scope, path) →
        (db.rowAt scope ws.agent_id path).isSome = true := by
  have heffect := effect crates ws db call
  rw [h] at heffect
  generalize ((call.code crates ws).run storageMachine db).2 = after at heffect
  cases heffect with
  | refused e hrefused => exact iff_of_true rfl (.inl hrefused)
  | @rejected e scope path hnot htarget =>
    rw [documents_ensured_iff]
    constructor
    · intro hsome
      refine .inr fun scope' path' htarget' => ?_
      obtain ⟨rfl, rfl⟩ := Prod.mk.inj (Except.ok.inj (htarget.symm.trans htarget'))
      exact hsome
    · rintro (hrefused | hsome)
      · exact absurd hrefused hnot
      · exact hsome scope path htarget

/-- The folder configuration of the root asks for a schema. -/
def schemaDb : Db where
  backend := .postgres
  documents := KeyedStore.empty.insert ⟨⟨0, "alice", none, CONFIG_FILE_NAME, [], 0,
    .obj [("schema", .obj [])]⟩, [], []⟩
  next_id := 1
  now := 0
  fresh d hd := by
    obtain rfl | ⟨hd, -⟩ := KeyedStore.mem_insert.mp hd
    · exact Nat.one_pos
    · cases hd

theorem leaves_no_trace_iff_notes :
    (((Call.write "notes.txt".toList "x".toList).code sampleCrates (.new "alice")).run
        storageMachine schemaDb).2.documents = schemaDb.documents ↔
      (Call.write "notes.txt".toList "x".toList).RefusedAtOnce sampleCrates (.new "alice") ∨
        ∀ scope path, (Call.write "notes.txt".toList "x".toList).target (.new "alice") =
          .ok (scope, path) → (schemaDb.rowAt scope none path).isSome = true :=
  leaves_no_trace_iff sampleCrates (.new "alice") schemaDb
    (.write "notes.txt".toList "x".toList)
    (e := .schemaValidation "notes.txt".toList ["content is not valid JSON: expected value"])
    (by rfl)

/-- A rejected `write` leaves an empty document. -/
theorem rejected_write_leaves_document :
    (∃ errors, (((Call.write "notes.txt".toList "x".toList).code sampleCrates
        (.new "alice")).run storageMachine schemaDb).1 =
          .error (.schemaValidation "notes.txt".toList errors)) ∧
      (((Call.write "notes.txt".toList "x".toList).code sampleCrates
        (.new "alice")).run storageMachine schemaDb).2.documents ≠ schemaDb.documents := by
  refine ⟨⟨["content is not valid JSON: expected value"], by rfl⟩, fun h => ?_⟩
  exact absurd (congrArg (·.values.length) h) (by decide +kernel)

end T3Claw.Workspace
