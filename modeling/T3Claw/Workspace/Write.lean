import T3Claw.Workspace.Search
import T3Claw.Workspace.Storage

/-!
# The write paths of a workspace

`workspace/mod.rs`: `write`, `append`, `patch`, `write_to_layer`, `append_to_layer` and
`append_memory`. Each finds its document, checks what it is about to store, saves the content it
replaces as a version, stores the new one and indexes it. The checks are made in a different
order, and not all of them, by each.
-/

namespace T3Claw

open Workspace in
/-- What a workspace is configured with. The scopes it reads are its own and then the additional
ones; no scope is listed twice. -/
structure Workspace where
  user_id : String
  additional_read_scopes : List String
  agent_id : Option ℕ
  memory_layers : List MemoryLayer
  privacy_classifier : Option (List Char → Bool)
  embeddings : Option (List Char → Except String (List F32))
  search_defaults : SearchConfig
  admin_prompt_enabled : Bool
  bootstrap_completed : Bool
  scopes_nodup : (user_id :: additional_read_scopes).Nodup

namespace Workspace

open Conc

/-- `Workspace::new_with_db`. -/
def new (user_id : String) : Workspace :=
  ⟨user_id, [], none, MemoryLayer.defaultForUser user_id, none, none, .default, false, false,
    List.nodup_singleton _⟩

variable {Re : Type}

section

variable (crates : Crates Re) (ws : Workspace)

/-- `resolve_metadata_in_scope`. -/
def resolveMetadataInScope (scope : String) (path : List Char) : StorageProg DocumentMetadata := do
  let path := normalizePath path
  let doc ← query (.getDocumentByPath scope ws.agent_id path)
  let configs ← query (.findConfigDocuments scope ws.agent_id)
  let base := (findNearestConfig path configs).getD (.obj [])
  let overlay := (Option.map MemoryDocument.metadata doc).getD (.obj [])
  return .fromValue (DocumentMetadata.merge base overlay)

/-- `resolve_metadata`. -/
def resolveMetadata (path : List Char) : StorageProg DocumentMetadata :=
  ws.resolveMetadataInScope ws.user_id path

/-- `maybe_save_version`: the number of the version, or `none` when it is skipped. -/
def maybeSaveVersion (document_id : ℕ) (current_content : List Char) (metadata : DocumentMetadata)
    (changed_by : Option String) : StorageProg (Option ℕ) := do
  if current_content.isEmpty then return none
  if metadata.skip_versioning = some true then return none
  let hash := crates.contentSha256 current_content
  let versions ← query (.listVersions document_id 1)
  if (List.head? versions).any (·.content_hash = hash) then return none
  let version ← query (.saveVersion document_id current_content hash changed_by)
  return some version

/-- The chunks of a content, each with its embedding if there is one. -/
def chunkWrites (content : List Char) : List ChunkWrite :=
  (chunkDocument content .default).map fun text =>
    ⟨text, ws.embeddings.bind fun embed => (embed text).toOption⟩

/-- `reindex_document_with_metadata`, with the metadata at hand. The content is read, cut and
embedded; it is read again before the chunks are replaced. -/
def reindexDocumentWithMetadata (document_id : ℕ) (metadata : DocumentMetadata) :
    StorageProg (Except WorkspaceError Unit) := do
  match (← query (.getDocumentById document_id) : Option MemoryDocument) with
  | none => return .error (.documentNotFound "unknown".toList "unknown")
  | some doc =>
    if metadata.skip_indexing = some true then
      query (.deleteChunks document_id)
      return .ok ()
    else
      let content_hash_at_read := crates.contentSha256 doc.content
      let writes := ws.chunkWrites doc.content
      match (← query (.getDocumentById document_id) : Option MemoryDocument) with
      | none => return .ok ()
      | some current_doc =>
        if crates.contentSha256 current_doc.content ≠ content_hash_at_read then return .ok ()
        else
          query (.replaceChunks document_id writes)
          return .ok ()

/-- The end of every write path: the content that is replaced is saved as a version, the new one
is stored and indexed. -/
def persist (doc : MemoryDocument) (new_content : List Char) (metadata : DocumentMetadata) :
    StorageProg (Except WorkspaceError Unit) := do
  let _ ← maybeSaveVersion crates doc.id doc.content metadata (some ws.user_id)
  query (.updateDocument doc.id new_content)
  ws.reindexDocumentWithMetadata crates doc.id metadata

/-- What the write paths answer. -/
inductive Outcome where
  | done
  | document (document : MemoryDocument)
  | patch (document : MemoryDocument) (replacements : ℕ)
  | layer (document : MemoryDocument) (redirected : Bool) (actual_layer : String)

/-- The document as it is stored now, for the answer. -/
def stored (id : ℕ) (answer : MemoryDocument → Outcome) :
    StorageProg (Except WorkspaceError Outcome) := do
  match (← query (.getDocumentById id) : Option MemoryDocument) with
  | none => return .error (.documentNotFound "unknown".toList "unknown")
  | some document => return .ok (answer document)

/-- `reject_if_injected`, as it is called: for a system-prompt file and a text that is not
empty. -/
def scanned (path content : List Char) : Except WorkspaceError Unit :=
  if isSystemPromptFile path ∧ content ≠ [] then rejectIfInjected crates.safety path content
  else .ok ()

/-- The validation of a content, if the metadata carries a schema. -/
def validated (metadata : DocumentMetadata) (path content : List Char) :
    Except WorkspaceError Unit :=
  match metadata.schema with
  | some schema => validateContentAgainstSchema crates path content schema
  | none => .ok ()

/-- `patch`. -/
def patch (path old_string new_string : List Char) (replace_all : Bool) :
    StorageProg (Except WorkspaceError Outcome) := do
  if old_string.isEmpty then return .error (.patchFailed path "old_string cannot be empty")
  let path := normalizePath path
  match (← query (.getDocumentByPath ws.user_id ws.agent_id path) : Option MemoryDocument) with
  | none => return .error (.documentNotFound path ws.user_id)
  | some doc =>
    if !Text.contains old_string doc.content then
      return .error (.patchFailed path "old_string not found in document")
    else
      let new_content := if replace_all then Text.replace old_string new_string doc.content
        else Text.replaceFirst old_string new_string doc.content
      let count := if replace_all then Text.count old_string doc.content else 1
      match scanned crates path new_content with
      | .error e => return .error e
      | .ok () =>
        let metadata ← ws.resolveMetadata path
        match validated crates metadata path new_content with
        | .error e => return .error e
        | .ok () =>
          match ← ws.persist crates doc new_content metadata with
          | .error e => return .error e
          | .ok () => stored doc.id (.patch · count)

/-- `write`. -/
def write (path content : List Char) : StorageProg (Except WorkspaceError Outcome) := do
  let path := normalizePath path
  match scanned crates path content with
  | .error e => return .error e
  | .ok () =>
    let doc : MemoryDocument ←
      query (.getOrCreateDocumentByPath ws.user_id ws.agent_id path)
    if isEngineRuntimePath path then
      query (.deleteChunks doc.id)
      if doc.content = content then return .ok (.document doc)
      else
        let skip_meta : DocumentMetadata := ⟨some true, some true, none, none⟩
        let _ ← maybeSaveVersion crates doc.id doc.content skip_meta (some ws.user_id)
        query (.updateDocument doc.id content)
        stored doc.id .document
    else if doc.content = content then
      let metadata ← ws.resolveMetadata path
      let _ ← ws.reindexDocumentWithMetadata crates doc.id metadata
      return .ok (.document doc)
    else
      let metadata ← ws.resolveMetadata path
      match validated crates metadata path content with
      | .error e => return .error e
      | .ok () =>
        match ← ws.persist crates doc content metadata with
        | .error e => return .error e
        | .ok () => stored doc.id .document

/-- A content with something added after a separator, or that alone if there was nothing. -/
def joined (separator content addition : List Char) : List Char :=
  if content.isEmpty then addition else content ++ separator ++ addition

/-- `append`. -/
def append (path content : List Char) : StorageProg (Except WorkspaceError Outcome) := do
  let path := normalizePath path
  match scanned crates path content with
  | .error e => return .error e
  | .ok () =>
    let doc : MemoryDocument ←
      query (.getOrCreateDocumentByPath ws.user_id ws.agent_id path)
    let new_content := joined ['\n'] doc.content content
    match scanned crates path new_content with
    | .error e => return .error e
    | .ok () =>
      let metadata ← ws.resolveMetadata path
      match validated crates metadata path new_content with
      | .error e => return .error e
      | .ok () =>
        match ← ws.persist crates doc new_content metadata with
        | .error e => return .error e
        | .ok () => return .ok .done

/-- `resolve_layer_target`: the scope, the layer written to, and whether it was redirected. -/
def resolveLayerTarget (layer_name : String) (content : List Char) (force : Bool) :
    Except WorkspaceError (String × String × Bool) :=
  match MemoryLayer.find ws.memory_layers layer_name with
  | none => .error (.layerNotFound layer_name)
  | some layer =>
    if !layer.writable then .error (.layerReadOnly layer_name)
    else if !force && decide (layer.sensitivity = .shared) &&
        ws.privacy_classifier.any (fun classify => classify content) then
      match MemoryLayer.privateLayer ws.memory_layers with
      | none => .error .privacyRedirectFailed
      | some private_layer =>
        if !private_layer.writable then .error .privacyRedirectFailed
        else .ok (private_layer.scope, private_layer.name, true)
    else .ok (layer.scope, layer_name, false)

/-- The body that `write_to_layer` and `append_to_layer` share. -/
def storeInLayer (new_content : List Char → List Char) (layer_name : String)
    (path content : List Char) (force : Bool) : StorageProg (Except WorkspaceError Outcome) := do
  match ws.resolveLayerTarget layer_name content force with
  | .error e => return .error e
  | .ok (scope, actual_layer, redirected) =>
    let path := normalizePath path
    let doc : MemoryDocument ← query (.getOrCreateDocumentByPath scope ws.agent_id path)
    let metadata ← ws.resolveMetadataInScope scope path
    match validated crates metadata path (new_content doc.content) with
    | .error e => return .error e
    | .ok () =>
      match ← ws.persist crates doc (new_content doc.content) metadata with
      | .error e => return .error e
      | .ok () => stored doc.id (.layer · redirected actual_layer)

/-- `write_to_layer`. -/
def writeToLayer (layer_name : String) (path content : List Char) (force : Bool) :
    StorageProg (Except WorkspaceError Outcome) :=
  ws.storeInLayer crates (fun _ => content) layer_name path content force

/-- `append_to_layer`. -/
def appendToLayer (layer_name : String) (path content : List Char) (force : Bool) :
    StorageProg (Except WorkspaceError Outcome) :=
  ws.storeInLayer crates (joined ['\n', '\n'] · content) layer_name path content force

/-- `append_memory`. -/
def appendMemory (entry : List Char) : StorageProg (Except WorkspaceError Outcome) := do
  let doc : MemoryDocument ←
    query (.getOrCreateDocumentByPath ws.user_id ws.agent_id paths.MEMORY)
  let new_content := joined ['\n', '\n'] doc.content entry
  let metadata ← ws.resolveMetadata paths.MEMORY
  match ← ws.persist crates doc new_content metadata with
  | .error e => return .error e
  | .ok () => return .ok .done

end

/-- A call of one of the write paths. -/
inductive Call where
  | write (path content : List Char)
  | append (path content : List Char)
  | patch (path old_string new_string : List Char) (replace_all : Bool)
  | writeToLayer (layer_name : String) (path content : List Char) (force : Bool)
  | appendToLayer (layer_name : String) (path content : List Char) (force : Bool)
  | appendMemory (entry : List Char)

/-- What the call runs. -/
def Call.code (crates : Crates Re) (ws : Workspace) :
    Call → StorageProg (Except WorkspaceError Outcome)
  | .write path content => ws.write crates path content
  | .append path content => ws.append crates path content
  | .patch path old_string new_string replace_all =>
    ws.patch crates path old_string new_string replace_all
  | .writeToLayer layer_name path content force =>
    ws.writeToLayer crates layer_name path content force
  | .appendToLayer layer_name path content force =>
    ws.appendToLayer crates layer_name path content force
  | .appendMemory entry => ws.appendMemory crates entry

end Workspace

end T3Claw
