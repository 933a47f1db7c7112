import T3Claw.Data.Text
import T3Claw.Safety.Layer

/-!
# Workspace documents

`workspace/document.rs`, `workspace/layer.rs`, `workspace/chunker.rs`, `workspace/schema.rs` and
the predicates on paths of `workspace/mod.rs`: what a document is, which paths are special, how
the metadata that governs a path is put together, and how a text is cut into chunks.
-/

namespace T3Claw.Workspace

open Safety

/-! ### Paths -/

namespace paths

def MEMORY : List Char := "MEMORY.md".toList

def IDENTITY : List Char := "IDENTITY.md".toList

def SOUL : List Char := "SOUL.md".toList

def AGENTS : List Char := "AGENTS.md".toList

def USER : List Char := "USER.md".toList

def HEARTBEAT : List Char := "HEARTBEAT.md".toList

def TOOLS : List Char := "TOOLS.md".toList

def BOOTSTRAP : List Char := "BOOTSTRAP.md".toList

def SYSTEM : List Char := "SYSTEM.md".toList

def PROFILE : List Char := "context/profile.json".toList

def ASSISTANT_DIRECTIVES : List Char := "context/assistant-directives.md".toList

end paths

def CONFIG_FILE_NAME : List Char := ".config".toList

/-- Files injected into the system prompt. -/
def SYSTEM_PROMPT_FILES : List (List Char) :=
  [ paths.SOUL, paths.AGENTS, paths.USER, paths.IDENTITY, paths.SYSTEM, paths.MEMORY, paths.TOOLS,
    paths.HEARTBEAT, paths.BOOTSTRAP, paths.ASSISTANT_DIRECTIVES, paths.PROFILE ]

/-- `is_system_prompt_file`. -/
def isSystemPromptFile (path : List Char) : Bool :=
  SYSTEM_PROMPT_FILES.any fun p => eqIgnoreAsciiCase (String.ofList path) (String.ofList p)

/-- Paths treated as identity documents for multi-scope isolation. -/
def IDENTITY_PATHS : List (List Char) :=
  [paths.IDENTITY, paths.SOUL, paths.AGENTS, paths.USER, paths.TOOLS, paths.BOOTSTRAP]

/-- `is_identity_path`. -/
def isIdentityPath (path : List Char) : Bool := IDENTITY_PATHS.contains path

/-- `is_engine_runtime_path`. -/
def isEngineRuntimePath (path : List Char) : Bool :=
  !Text.contains "..".toList path &&
    ("engine/.runtime/".toList.isPrefixOf path || "engine/projects/".toList.isPrefixOf path ||
      path == "engine/orchestrator/failures.json".toList || path == "engine/README.md".toList)

/-- The loop of `normalize_path`: of several slashes in a row the first stays. -/
def collapseSlashes : (last_was_slash : Bool) → List Char → List Char
  | _, [] => []
  | last_was_slash, c :: cs =>
    if c = '/' then
      if last_was_slash then collapseSlashes true cs else c :: collapseSlashes true cs
    else c :: collapseSlashes false cs

/-- `normalize_path`. -/
def normalizePath (path : List Char) : List Char :=
  collapseSlashes false (Text.trimMatches '/' (Text.trim path))

/-! ### Metadata -/

/-- Hygiene (auto-cleanup) settings for a folder. -/
structure HygieneMetadata where
  enabled : Bool
  retention_days : ℕ

def MIN_RETENTION_DAYS : ℕ := 1

/-- `default_retention_days`. -/
def defaultRetentionDays : ℕ := 30

namespace HygieneMetadata

/-- `deserialize_retention_days`: a `u32`, raised to the least one. -/
def retentionDays? : Json → Option ℕ
  | .num n => if 0 ≤ n ∧ n < 2 ^ 32 then some (max n.toNat MIN_RETENTION_DAYS) else none
  | _ => none

/-- What serde makes of a value: an object, or the fields in a row. -/
def parse? : Json → Option HygieneMetadata
  | .arr [.bool enabled] => some ⟨enabled, defaultRetentionDays⟩
  | .arr [.bool enabled, days] => (retentionDays? days).map (⟨enabled, ·⟩)
  | value =>
    match value.get? "enabled", value.get? "retention_days" with
    | some (.bool enabled), none => some ⟨enabled, defaultRetentionDays⟩
    | some (.bool enabled), some days => (retentionDays? days).map (⟨enabled, ·⟩)
    | _, _ => none

end HygieneMetadata

/-- Typed overlay for the `metadata` field of a document. -/
structure DocumentMetadata where
  skip_indexing : Option Bool
  skip_versioning : Option Bool
  hygiene : Option HygieneMetadata
  schema : Option Json

namespace DocumentMetadata

/-- `DocumentMetadata::default`. -/
def default : DocumentMetadata := ⟨none, none, none, none⟩

/-- An optional field: it is missing, it is null, or it parses. -/
def optional? {α : Type} (parse : Json → Option α) : Option Json → Option (Option α)
  | none | some .null => some none
  | some value => (parse value).map some

/-- `DocumentMetadata::from_value`: the default when a field does not parse. -/
def fromValue : Json → DocumentMetadata
  | .obj fields =>
    let field := (Json.obj fields).get?
    match optional? Json.asBool? (field "skip_indexing"),
        optional? Json.asBool? (field "skip_versioning"),
        optional? HygieneMetadata.parse? (field "hygiene") with
    | some skip_indexing, some skip_versioning, some hygiene =>
      ⟨skip_indexing, skip_versioning, hygiene, field "schema"⟩
    | _, _, _ => default
  | _ => default

/-- `DocumentMetadata::merge`: the keys of the overlay win. -/
def merge (base overlay : Json) : Json :=
  let under := match base with
    | .obj fields => fields
    | _ => []
  match overlay with
  | .obj fields =>
    .obj (fields ++ under.filter fun f => !fields.any fun g => g.1 == f.1)
  | _ => .obj under

end DocumentMetadata

/-! ### Documents, chunks and versions -/

/-- An `f32` is its bits: what is done with it is a parameter. -/
abbrev F32 : Type := BitVec 32

/-- A memory document stored in the database. -/
structure MemoryDocument where
  id : ℕ
  user_id : String
  agent_id : Option ℕ
  path : List Char
  content : List Char
  updated_at : ℕ
  metadata : Json

/-- A new chunk to insert for a document. -/
structure ChunkWrite where
  content : List Char
  embedding : Option (List F32)

/-- A chunk of a memory document for search indexing. -/
structure MemoryChunk extends ChunkWrite where
  id : ℕ

/-- A historical version of a workspace document. -/
structure DocumentVersion where
  version : ℕ
  content : List Char
  content_hash : String
  changed_by : Option String

/-- The directories a path lies in, nearest first; of the path its reverse is given. -/
def ancestorsOfReverse : List Char → List (List Char)
  | [] => []
  | c :: cs => if c = '/' then cs.reverse :: ancestorsOfReverse cs else ancestorsOfReverse cs

/-- `find_nearest_config`. -/
def findNearestConfig (path : List Char) (configs : List MemoryDocument) : Option Json :=
  let config_at (config_path : List Char) : Option Json :=
    (configs.reverse.find? (·.path = config_path)).map (·.metadata)
  ((ancestorsOfReverse path.reverse).findSome? fun parent =>
    config_at (parent ++ '/' :: CONFIG_FILE_NAME)).or (config_at CONFIG_FILE_NAME)

/-! ### Layers -/

/-- Sensitivity level for a memory layer. -/
inductive LayerSensitivity where
  | private_
  | shared
  deriving DecidableEq

/-- A named memory layer with read/write permissions and a scope. -/
structure MemoryLayer where
  name : String
  scope : String
  writable : Bool
  sensitivity : LayerSensitivity

namespace MemoryLayer

/-- `MemoryLayer::default_for_user`. -/
def defaultForUser (user_id : String) : List MemoryLayer := [⟨"private", user_id, true, .private_⟩]

/-- `MemoryLayer::find`. -/
def find (layers : List MemoryLayer) (name : String) : Option MemoryLayer :=
  layers.find? (·.name = name)

/-- `MemoryLayer::private_layer`. -/
def privateLayer (layers : List MemoryLayer) : Option MemoryLayer :=
  layers.find? (·.sensitivity = .private_)

end MemoryLayer

/-! ### Chunks of a text -/

/-- Configuration for document chunking; the overlap is given in words. -/
structure ChunkConfig where
  chunk_size : ℕ
  overlap_size : ℕ
  min_chunk_size : ℕ
  step_pos : 0 < chunk_size - overlap_size

namespace ChunkConfig

/-- `ChunkConfig::default`: of 800 words, 15 % are 120. -/
def default : ChunkConfig := ⟨800, 120, 50, by decide⟩

/-- `ChunkConfig::step_size`. -/
def stepSize (config : ChunkConfig) : ℕ := config.chunk_size - config.overlap_size

end ChunkConfig

/-- The loop of `chunk_document`, with the chunks so far, the last one first. -/
def chunkLoop (config : ChunkConfig) (words : List (List Char)) (start : ℕ)
    (chunks : List (List Char)) : List (List Char) :=
  if start < words.length then
    let stop := min (start + config.chunk_size) words.length
    let chunk_words := (words.drop start).take (stop - start)
    let joined := [' '].intercalate chunk_words
    match decide (chunk_words.length < config.min_chunk_size), chunks with
    | true, last :: before => (last ++ ' ' :: joined) :: before
    | _, _ =>
      let next := start + config.stepSize
      if words.length ≤ next + config.min_chunk_size ∧ stop = words.length then joined :: chunks
      else chunkLoop config words next (joined :: chunks)
  else chunks
  termination_by words.length - start
  decreasing_by
    have hstep := config.step_pos
    simp only [ChunkConfig.stepSize]
    omega

/-- `chunk_document`. -/
def chunkDocument (content : List Char) (config : ChunkConfig) : List (List Char) :=
  let words := Text.splitWhitespace content
  if words.isEmpty then []
  else if words.length ≤ config.chunk_size then [content]
  else (chunkLoop config words 0 []).reverse

/-! ### Errors -/

/-- The errors of a workspace that its own code gives. -/
inductive WorkspaceError where
  | documentNotFound (doc_type : List Char) (user_id : String)
  | embeddingFailed (reason : String)
  | layerNotFound (name : String)
  | layerReadOnly (name : String)
  | privacyRedirectFailed
  | injectionRejected (path : List Char) (reason : String)
  | patchFailed (path : List Char) (reason : String)
  | schemaValidation (path : List Char) (errors : List String)

/-! ### What is used of crates -/

/-- What is used of crates: the patterns of the sanitizer, SHA-256, `serde_json::from_str` and
`jsonschema::validator_for`, which makes of a schema the errors it finds in a value. -/
structure Crates (Re : Type) where
  safety : SafetyCrates Re
  contentSha256 : List Char → String
  fromStr : List Char → Except String Json
  validatorFor : Json → Except String (Json → List String)

variable {Re : Type}

/-- `Sanitizer::detect`. -/
def detect (crates : SafetyCrates Re) (content : List Char) : List InjectionWarning :=
  ((Sanitizer.new crates.regex).sanitize crates content).warnings

/-- The warnings of severity high or critical. -/
def dominating (crates : SafetyCrates Re) (content : List Char) : List InjectionWarning :=
  (detect crates content).filter fun w => Severity.high.value ≤ w.severity.value

/-- `reject_if_injected`. -/
def rejectIfInjected (crates : SafetyCrates Re) (path content : List Char) :
    Except WorkspaceError Unit :=
  if (detect crates content).any fun w => Severity.high.value ≤ w.severity.value then
    .error (.injectionRejected path
      ("; ".intercalate ((dominating crates content).map (·.description))))
  else .ok ()

/-- `validate_content_against_schema`. -/
def validateContentAgainstSchema (crates : Crates Re) (path content : List Char) :
    Json → Except WorkspaceError Unit
  | .null => .ok ()
  | schema =>
    match crates.fromStr content with
    | .error e => .error (.schemaValidation path [s!"content is not valid JSON: {e}"])
    | .ok instance_ =>
      match crates.validatorFor schema with
      | .error e => .error (.schemaValidation path [s!"invalid schema: {e}"])
      | .ok iterErrors =>
        let errors := iterErrors instance_
        if errors.isEmpty then .ok () else .error (.schemaValidation path errors)

end T3Claw.Workspace
