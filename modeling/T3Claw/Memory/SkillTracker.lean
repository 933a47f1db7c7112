import Mathlib.Data.List.Basic
import T3Claw.Skills.Parser

/-!
# The skill tracker

`memory/skill_tracker.rs`. Each operation loads the whole document of a skill, changes the
metadata in it, and saves the document; here is what it makes of the document it has loaded.
Counters wrap as the machine integers do.
-/

namespace T3Claw.Memory

open Skills (ActivationCriteria GatingRequirements SkillTrust)

/-! ### Skill documents -/

/-- Strongly-typed document identifier. -/
structure DocId where
  uuid : ℕ
  deriving DecidableEq, Repr

/-- The kind of knowledge a memory document captures. -/
inductive DocType where
  | summary
  | lesson
  | issue
  | spec
  | note
  | skill
  | plan
  deriving DecidableEq, Repr

/-- The `Debug` text of a document type. -/
def DocType.debug : DocType → String
  | summary => "Summary"
  | lesson => "Lesson"
  | issue => "Issue"
  | spec => "Spec"
  | note => "Note"
  | skill => "Skill"
  | plan => "Plan"

/-- A memory document, its metadata a JSON value; `rest` is what the tracker neither reads nor
changes. -/
structure MemoryDoc (V : Type) where
  id : DocId
  doc_type : DocType
  content : String
  metadata : V
  updated_at : Time
  rest : Json

/-- How a v2 skill was created. -/
inductive V2SkillSource where
  | authored
  | extracted
  | migrated
  deriving DecidableEq

/-- A Python code snippet carried by a v2 skill. -/
structure CodeSnippet where
  name : String
  code : String
  description : String
  deriving DecidableEq

/-- Usage metrics for auto-extracted skills. -/
structure SkillMetrics where
  usage_count : ℕ
  success_count : ℕ
  failure_count : ℕ
  last_used : Option Time
  deriving DecidableEq

/-- Structured repair categories. -/
inductive SkillRepairType where
  | missingPrerequisite
  | wrongOrdering
  | staleCommandPath
  | missingBranch
  | missingPitfall
  | missingVerification
  deriving DecidableEq

/-- Archived skill state used for rollback. -/
structure SkillRevision where
  version : ℕ
  content : String
  description : String
  activation : ActivationCriteria
  code_snippets : List CodeSnippet
  content_hash : String
  archived_at : Option Time
  deriving DecidableEq

/-- A repair that updated a skill. -/
structure SkillRepairRecord where
  source_thread_id : Option String
  from_version : ℕ
  to_version : ℕ
  repair_type : SkillRepairType
  summary : String
  repaired_at : Option Time
  deriving DecidableEq

/-- Full metadata for a v2 skill. -/
structure V2SkillMetadata where
  name : String
  version : ℕ
  description : String
  activation : ActivationCriteria
  source : V2SkillSource
  trust : SkillTrust
  requires : GatingRequirements
  code_snippets : List CodeSnippet
  metrics : SkillMetrics
  parent_version : Option ℕ
  revisions : List SkillRevision
  repairs : List SkillRepairRecord
  content_hash : String
  bundle_path : Option String
  source_url : Option String
  deriving DecidableEq

/-- What the tracker uses of other crates: metadata that is written reads back. -/
structure SkillTracker (V : Type) where
  from_value : V → Except String V2SkillMetadata
  to_value : V2SkillMetadata → V
  from_value_to_value : ∀ metadata, from_value (to_value metadata) = .ok metadata
  sha256 : String → String

/-- `EngineError::Skill`. -/
structure SkillError where
  reason : String

/-- One more, in a `u32`. -/
def succ32 (n : ℕ) : ℕ := (n + 1) % 2 ^ 32

/-- One more, in a `u64`. -/
def succ64 (n : ℕ) : ℕ := (n + 1) % 2 ^ 64

theorem succ32_of_lt {n : ℕ} (h : n + 1 < 2 ^ 32) : succ32 n = n + 1 := Nat.mod_eq_of_lt h

theorem succ64_of_lt {n : ℕ} (h : n + 1 < 2 ^ 64) : succ64 n = n + 1 := Nat.mod_eq_of_lt h

/-! ### What the operations do to the metadata -/

/-- A use in a thread that succeeded or failed. -/
def SkillMetrics.record (metrics : SkillMetrics) (success : Bool) (now : Time) : SkillMetrics where
  usage_count := succ64 metrics.usage_count
  success_count := if success then succ64 metrics.success_count else metrics.success_count
  failure_count := if success then metrics.failure_count else succ64 metrics.failure_count
  last_used := some now

namespace V2SkillMetadata

/-- The state of a skill as it is archived. -/
def revision (metadata : V2SkillMetadata) (content content_hash : String) (now : Time) :
    SkillRevision where
  version := metadata.version
  content := content
  description := metadata.description
  activation := metadata.activation
  code_snippets := metadata.code_snippets
  content_hash := content_hash
  archived_at := some now

/-- Archive the current state, keep the last ten, and go on to the next version. -/
def archive (metadata : V2SkillMetadata) (content content_hash : String) (now : Time) :
    V2SkillMetadata :=
  let revisions := metadata.revisions ++ [metadata.revision content content_hash now]
  { metadata with
    revisions :=
      if 10 < revisions.length then revisions.drop (revisions.length - 10) else revisions
    parent_version := some metadata.version
    version := succ32 metadata.version }

/-- Go back to an archived revision. -/
def restore (metadata : V2SkillMetadata) (revision : SkillRevision) : V2SkillMetadata :=
  let revisions := metadata.revisions.filter fun archived => archived.version < revision.version
  { metadata with
    version := revision.version
    description := revision.description
    activation := revision.activation
    code_snippets := revision.code_snippets
    content_hash := revision.content_hash
    revisions := revisions
    repairs := metadata.repairs.filter fun repair => repair.to_version ≤ revision.version
    parent_version := (revisions.map (·.version)).max? }

end V2SkillMetadata

namespace SkillTracker

variable {V : Type} (T : SkillTracker V)

/-! ### The operations -/

/-- `compute_content_hash`. -/
def computeContentHash (content : String) : String := "sha256:" ++ T.sha256 content

def notFound (doc_id : DocId) : SkillError := ⟨"skill doc not found: " ++ uuidText doc_id.uuid⟩

/-- The document with other content and metadata. -/
def updated (doc : MemoryDoc V) (content : String) (metadata : V2SkillMetadata) (now : Time) :
    MemoryDoc V :=
  { doc with content := content, metadata := T.to_value metadata, updated_at := now }

/-- `record_usage`, on the document loaded. -/
def recordUsage (doc_id : DocId) (success : Bool) (now : Time) :
    Option (MemoryDoc V) → Except SkillError (MemoryDoc V)
  | none => .error (notFound doc_id)
  | some doc =>
    if doc.doc_type ≠ .skill then
      .error ⟨"doc " ++ uuidText doc_id.uuid ++ " is not a skill (type: " ++ doc.doc_type.debug ++
        ")"⟩
    else
      match T.from_value doc.metadata with
      | .error e => .error ⟨"invalid skill metadata for " ++ uuidText doc_id.uuid ++ ": " ++ e⟩
      | .ok metadata =>
        .ok (T.updated doc doc.content
          { metadata with metrics := metadata.metrics.record success now } now)

/-- `update_skill`, on the document loaded. -/
def updateSkill (doc_id : DocId) (new_content : String) (expected_version : Option ℕ)
    (updater : V2SkillMetadata → V2SkillMetadata) (now : Time) :
    Option (MemoryDoc V) → Except SkillError (MemoryDoc V)
  | none => .error (notFound doc_id)
  | some doc =>
    match T.from_value doc.metadata with
    | .error e => .error ⟨"invalid skill metadata: " ++ e⟩
    | .ok metadata =>
      if expected_version.any fun expected => metadata.version ≠ expected then
        .error ⟨"skill " ++ uuidText doc_id.uuid ++ " version conflict: expected " ++
          toString (expected_version.getD 0) ++ ", found " ++ toString metadata.version⟩
      else
        let metadata :=
          updater (metadata.archive doc.content (T.computeContentHash doc.content) now)
        .ok (T.updated doc new_content
          { metadata with content_hash := T.computeContentHash new_content } now)

/-- `rollback_skill`, on the document loaded. -/
def rollbackSkill (doc_id : DocId) (now : Time) :
    Option (MemoryDoc V) → Except SkillError (MemoryDoc V)
  | none => .error (notFound doc_id)
  | some doc =>
    match T.from_value doc.metadata with
    | .error e => .error ⟨"invalid skill metadata: " ++ e⟩
    | .ok metadata =>
      match metadata.parent_version with
      | none =>
        .error ⟨"skill " ++ uuidText doc_id.uuid ++ " has no parent version to rollback to"⟩
      | some parent =>
        match metadata.revisions.find? fun revision => revision.version = parent with
        | some revision => .ok (T.updated doc revision.content (metadata.restore revision) now)
        | none =>
          .ok (T.updated doc doc.content
            { metadata with version := parent, parent_version := none } now)

/-! ### What they save -/

theorem recordUsage_eq_ok {doc_id : DocId} {success : Bool} {now : Time}
    {doc doc' : MemoryDoc V}
    (h : T.recordUsage doc_id success now (some doc) = .ok doc') :
    doc.doc_type = .skill ∧ ∃ metadata, T.from_value doc.metadata = .ok metadata ∧
      doc' = T.updated doc doc.content
        { metadata with metrics := metadata.metrics.record success now } now := by
  rw [recordUsage] at h
  split_ifs at h with htype
  cases hread : T.from_value doc.metadata with
  | error e => simp [hread] at h
  | ok metadata =>
    simp only [hread] at h
    exact ⟨of_not_not htype, metadata, rfl, (Except.ok.inj h).symm⟩

theorem updateSkill_eq_ok {doc_id : DocId} {new_content : String} {expected_version : Option ℕ}
    {updater : V2SkillMetadata → V2SkillMetadata} {now : Time} {doc doc' : MemoryDoc V}
    (h : T.updateSkill doc_id new_content expected_version updater now (some doc) = .ok doc') :
    ∃ metadata, T.from_value doc.metadata = .ok metadata ∧
      (∀ expected, expected_version = some expected → metadata.version = expected) ∧
      doc' = T.updated doc new_content
        { updater (metadata.archive doc.content (T.computeContentHash doc.content) now) with
          content_hash := T.computeContentHash new_content } now := by
  rw [updateSkill] at h
  cases hread : T.from_value doc.metadata with
  | error e => simp [hread] at h
  | ok metadata =>
    simp only [hread] at h
    split_ifs at h with hexpected
    refine ⟨metadata, rfl, fun expected hsome => ?_, (Except.ok.inj h).symm⟩
    subst hsome
    simpa using hexpected

@[simp] theorem from_value_updated (doc : MemoryDoc V) (content : String)
    (metadata : V2SkillMetadata) (now : Time) :
    T.from_value (T.updated doc content metadata now).metadata = .ok metadata :=
  T.from_value_to_value metadata

end SkillTracker

end T3Claw.Memory
