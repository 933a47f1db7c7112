import T3Claw.Workspace.Write

/-!
# What a call does alone

When nothing comes between the operations of a call, it does one of three things (`Effect`): it is
refused before it looks for its document, it is rejected after that document was made sure of, or
it succeeds and the row of the document, and no other, is another one (`Becomes`).
-/

namespace T3Claw.Workspace

open Conc

variable {Re : Type} {crates : Crates Re} {ws : Workspace}

/-! ### One row becomes another -/

namespace StoredDocument

/-- Two rows of the same file. -/
structure SameAs (d d' : StoredDocument) : Prop where
  id : d'.id = d.id
  user_id : d'.user_id = d.user_id
  agent_id : d'.agent_id = d.agent_id
  path : d'.path = d.path
  metadata : d'.metadata = d.metadata

theorem SameAs.refl (d : StoredDocument) : SameAs d d := ⟨rfl, rfl, rfl, rfl, rfl⟩

theorem SameAs.trans {d d' d'' : StoredDocument} (h : SameAs d d') (h' : SameAs d' d'') :
    SameAs d d'' :=
  ⟨h'.id.trans h.id, h'.user_id.trans h.user_id, h'.agent_id.trans h.agent_id,
    h'.path.trans h.path, h'.metadata.trans h.metadata⟩

theorem SameFile.sameAs {f : StoredDocument → StoredDocument} (hf : SameFile f)
    (d : StoredDocument) : SameAs d (f d) :=
  ⟨hf.id d, hf.user_id d, hf.agent_id d, hf.path d, hf.metadata d⟩

/-- Two rows of the same file are at the same path. -/
theorem SameAs.isAt_iff {d d' : StoredDocument} (h : SameAs d d') {user_id : String}
    {agent_id : Option ℕ} {path : List Char} :
    IsAt user_id agent_id path d' ↔ IsAt user_id agent_id path d := by
  rw [IsAt, IsAt, h.user_id, h.agent_id, h.path]

end StoredDocument

open StoredDocument

/-- The row `d` of the tables is `d'` afterwards, and the other rows are as before. -/
structure Becomes (d d' : StoredDocument) (db db' : Db) : Prop where
  row : db.documents.get? d.id = some d
  same : SameAs d d'
  backend : db'.backend = db.backend
  values : db'.documents.values = db.documents.values.map fun a => if a.id = d.id then d' else a

namespace Becomes

variable {d d' d'' : StoredDocument} {db db' db'' : Db}

/-- A row with the id of `d` is `d`. -/
theorem eq_of_id (hd : db.documents.get? d.id = some d) {a : StoredDocument}
    (ha : a ∈ db.documents.values) (hid : a.id = d.id) : a = d :=
  KeyedStore.eq_of_mem ha (KeyedStore.mem_of_get? hd) hid

theorem refl (hd : db.documents.get? d.id = some d) : Becomes d d db db where
  row := hd
  same := .refl d
  backend := rfl
  values := by
    refine ((List.map_congr_left fun a ha => ?_).trans (List.map_id _)).symm
    split
    · rw [eq_of_id hd ha ‹_›, id]
    · rfl

/-- The row after. -/
theorem row_after (h : Becomes d d' db db') : db'.documents.get? d'.id = some d' := by
  refine KeyedStore.get?_key (KeyedStore.mem_def.mpr ?_)
  rw [h.values]
  exact List.mem_map.mpr ⟨d, KeyedStore.mem_of_get? h.row, if_pos rfl⟩

theorem trans (h : Becomes d d' db db') (h' : Becomes d' d'' db' db'') : Becomes d d'' db db'' where
  row := h.row
  same := h.same.trans h'.same
  backend := h'.backend.trans h.backend
  values := by
    rw [h'.values, h.values, List.map_map, h.same.id]
    refine List.map_congr_left fun a _ => ?_
    simp only [Function.comp_apply]
    by_cases hid : a.id = d.id
    · rw [if_pos hid, if_pos h.same.id, if_pos hid]
    · rw [if_neg hid, if_neg hid]

/-- An operation that rewrites the row. -/
theorem of_modify {f : StoredDocument → StoredDocument} (hf : SameFile f)
    (hd : db.documents.get? d.id = some d) : Becomes d (f d) db (db.modify d.id f hf) where
  row := hd
  same := hf.sameAs d
  backend := rfl
  values := by
    refine List.map_congr_left fun a ha => ?_
    by_cases hid : a.id = d.id
    · rw [if_pos hid, if_pos hid, eq_of_id hd ha hid]
    · rw [if_neg hid, if_neg hid]

/-- The row at a path is the new one if it was the old one. -/
theorem rowAt (h : Becomes d d' db db') (user_id : String) (agent_id : Option ℕ)
    (path : List Char) : db'.rowAt user_id agent_id path =
      (db.rowAt user_id agent_id path).map fun a => if a.id = d.id then d' else a := by
  have hat : ∀ a ∈ db.documents.values,
      decide (IsAt user_id agent_id path (if a.id = d.id then d' else a)) =
        decide (IsAt user_id agent_id path a) := by
    intro a ha
    split
    · rw [eq_of_id h.row ha ‹_›]
      exact decide_eq_decide.mpr h.same.isAt_iff
    · rfl
  rw [Db.rowAt, Db.rowAt, h.values, List.find?_map]
  refine congrArg _ ?_
  generalize db.documents.values = rows at hat
  induction rows with
  | nil => rfl
  | cons a rows ih =>
    rw [List.find?_cons, List.find?_cons, ih fun b hb => hat b (List.mem_cons_of_mem _ hb),
      Function.comp_apply, hat a List.mem_cons_self]

theorem rowAt_eq (h : Becomes d d' db db') {user_id : String} {agent_id : Option ℕ}
    {path : List Char} (hat : db.rowAt user_id agent_id path = some d) :
    db'.rowAt user_id agent_id path = some d' := by
  rw [h.rowAt, hat, Option.map_some, if_pos rfl]

end Becomes

/-! ### The metadata that governs a path -/

/-- What `resolve_metadata_in_scope` finds. -/
def Db.metadataIn (db : Db) (agent_id : Option ℕ) (scope : String) (path : List Char) :
    DocumentMetadata :=
  let path := normalizePath path
  let doc := db.getDocumentByPath scope agent_id path
  .fromValue (DocumentMetadata.merge
    ((findNearestConfig path (db.findConfigDocuments scope agent_id)).getD (.obj []))
    ((doc.map (·.metadata)).getD (.obj [])))

theorem run_resolveMetadataInScope (scope : String) (path : List Char) (db : Db) :
    (ws.resolveMetadataInScope scope path).run storageMachine db =
      (db.metadataIn ws.agent_id scope path, db) := rfl

/-- The nearest folder configuration depends on paths and metadata only. -/
theorem findNearestConfig_congr {configs configs' : List MemoryDocument} (path : List Char)
    (h : configs'.map (fun d => (d.path, d.metadata)) = configs.map fun d => (d.path, d.metadata)) :
    findNearestConfig path configs' = findNearestConfig path configs := by
  have hat : ∀ (l : List MemoryDocument) (p : List Char),
      (l.reverse.find? (·.path = p)).map (·.metadata) =
        ((l.map fun d => (d.path, d.metadata)).reverse.find? (·.1 = p)).map (·.2) := by
    intro l p
    rw [← List.map_reverse, List.find?_map, Option.map_map]
    rfl
  simp only [findNearestConfig, hat, h]

namespace Becomes

variable {d d' : StoredDocument} {db db' : Db}

/-- The folder configurations say the same when a row becomes another of the same file. -/
theorem nearestConfig (h : Becomes d d' db db') (agent_id : Option ℕ) (scope : String)
    (path : List Char) : findNearestConfig path (db'.findConfigDocuments scope agent_id) =
      findNearestConfig path (db.findConfigDocuments scope agent_id) := by
  have hone : ∀ (p : StoredDocument → Bool), (∀ a a', SameAs a a' → p a' = p a) →
      (db'.documents.values.filter p).map (fun a => (a.path, a.metadata)) =
        (db.documents.values.filter p).map fun a => (a.path, a.metadata) := by
    intro p hp
    have hsame : ∀ a ∈ db.documents.values, SameAs a (if a.id = d.id then d' else a) := by
      intro a ha
      split
      · rw [eq_of_id h.row ha ‹_›]
        exact h.same
      · exact .refl a
    rw [h.values]
    generalize db.documents.values = rows at hsame
    induction rows with
    | nil => rfl
    | cons a rows ih =>
      have hrest := ih fun b hb => hsame b (List.mem_cons_of_mem _ hb)
      have ha := hsame a List.mem_cons_self
      rw [List.map_cons, List.filter_cons, List.filter_cons, hp a _ ha]
      split
      · rw [List.map_cons, List.map_cons, hrest, ha.path, ha.metadata]
      · exact hrest
  refine findNearestConfig_congr path ?_
  rw [Db.findConfigDocuments, Db.findConfigDocuments, List.map_map, List.map_map, h.backend]
  exact hone _ fun a a' ha => by rw [ha.user_id, ha.agent_id, ha.path]

/-- So does a document of itself. -/
theorem ownMetadata (h : Becomes d d' db db') (agent_id : Option ℕ) (scope : String)
    (path : List Char) : (db'.getDocumentByPath scope agent_id path).map (·.metadata) =
      (db.getDocumentByPath scope agent_id path).map (·.metadata) := by
  rw [Db.getDocumentByPath, Db.getDocumentByPath, h.rowAt, Option.map_map, Option.map_map,
    Option.map_map]
  cases hrow : db.rowAt scope agent_id path with
  | none => rfl
  | some a =>
    simp only [Option.map_some, Function.comp_apply]
    split
    · rw [h.same.metadata, eq_of_id h.row (List.mem_of_find?_eq_some hrow) ‹_›]
    · rfl

/-- The metadata of a path stays. -/
theorem metadataIn (h : Becomes d d' db db') (agent_id : Option ℕ) (scope : String)
    (path : List Char) :
    db'.metadataIn agent_id scope path = db.metadataIn agent_id scope path := by
  simp only [Db.metadataIn, h.nearestConfig, h.ownMetadata]

end Becomes

/-! ### The document of a call -/

namespace Db

/-- The row of the file at a path, or the one that would be created. -/
def target (db : Db) (user_id : String) (agent_id : Option ℕ) (path : List Char) :
    StoredDocument :=
  (db.rowAt user_id agent_id path).getD (db.newRow user_id agent_id path)

/-- The tables after the file was made sure of. -/
def ensured (db : Db) (user_id : String) (agent_id : Option ℕ) (path : List Char) : Db :=
  (db.getOrCreateDocumentByPath user_id agent_id path).2

variable {db : Db} {user_id : String} {agent_id : Option ℕ} {path : List Char}

theorem getOrCreate_eq (db : Db) (user_id : String) (agent_id : Option ℕ) (path : List Char) :
    db.getOrCreateDocumentByPath user_id agent_id path =
      ((db.target user_id agent_id path).toMemoryDocument, db.ensured user_id agent_id path) := by
  rw [ensured, getOrCreateDocumentByPath, target]
  cases db.rowAt user_id agent_id path <;> rfl

theorem ensured_of_some {d : StoredDocument} (h : db.rowAt user_id agent_id path = some d) :
    db.ensured user_id agent_id path = db := by
  rw [ensured, getOrCreateDocumentByPath, h]

/-- A row that is created comes last. -/
theorem values_create (db : Db) (user_id : String) (agent_id : Option ℕ) (path : List Char) :
    (db.create user_id agent_id path).documents.values =
      db.documents.values ++ [db.newRow user_id agent_id path] := by
  have hnone : db.documents.get? db.next_id = none :=
    KeyedStore.get?_eq_none_iff.mpr fun a ha => Nat.ne_of_lt (db.fresh a ha)
  exact congrArg KeyedStore.values (dif_pos hnone)

theorem values_ensured_of_none (h : db.rowAt user_id agent_id path = none) :
    (db.ensured user_id agent_id path).documents.values =
      db.documents.values ++ [db.newRow user_id agent_id path] := by
  rw [ensured, getOrCreateDocumentByPath, h]
  exact values_create db user_id agent_id path

/-- The file is there once it was made sure of. -/
theorem rowAt_ensured (db : Db) (user_id : String) (agent_id : Option ℕ) (path : List Char) :
    (db.ensured user_id agent_id path).rowAt user_id agent_id path =
      some (db.target user_id agent_id path) := by
  cases hrow : db.rowAt user_id agent_id path with
  | some d => rw [ensured_of_some hrow, target, hrow, Option.getD_some]
  | none =>
    rw [rowAt, values_ensured_of_none hrow, target, hrow, List.find?_append]
    rw [rowAt] at hrow
    rw [hrow]
    have hat : IsAt user_id agent_id path (db.newRow user_id agent_id path) := ⟨rfl, rfl, rfl⟩
    simp [hat]

/-- A row that is found by its path is found by its id. -/
theorem get?_of_rowAt {d : StoredDocument} (h : db.rowAt user_id agent_id path = some d) :
    db.documents.get? d.id = some d :=
  KeyedStore.get?_key (KeyedStore.mem_def.mpr (List.mem_of_find?_eq_some h))

end Db

/-! ### The parts of a write path -/

/-- The content is kept as a version: it is not empty, versions are kept, and the latest one is
not of this content. -/
def StoredDocument.NeedsVersion (crates : Crates Re) (metadata : DocumentMetadata)
    (d : StoredDocument) : Prop :=
  d.content ≠ [] ∧ metadata.skip_versioning ≠ some true ∧
    ∀ latest ∈ d.versions.getLast?, latest.content_hash ≠ crates.contentSha256 d.content

open Classical in
/-- The row with its content kept as a version, if need be. -/
noncomputable def StoredDocument.versioned (crates : Crates Re) (metadata : DocumentMetadata)
    (changed_by : Option String) (d : StoredDocument) : StoredDocument :=
  if d.NeedsVersion crates metadata then
    d.withVersion d.content (crates.contentSha256 d.content) changed_by
  else d

/-- The texts of the chunks. -/
def StoredDocument.chunkTexts (d : StoredDocument) : List (List Char) := d.chunks.map (·.content)

/-- The chunks that a content is to have. -/
def indexTexts (metadata : DocumentMetadata) (content : List Char) : List (List Char) :=
  if metadata.skip_indexing = some true then [] else chunkDocument content .default

variable {db : Db} {d : StoredDocument}

theorem head?_listVersions (hd : db.documents.get? d.id = some d) :
    (db.listVersions d.id 1).head? = d.versions.getLast? := by
  rw [Db.listVersions, hd, Option.elim_some, List.head?_take, if_neg one_ne_zero,
    List.head?_reverse]

theorem run_maybeSaveVersion (crates : Crates Re) (metadata : DocumentMetadata)
    (changed_by : Option String) (hd : db.documents.get? d.id = some d) : ∃ answer db',
      (maybeSaveVersion crates d.id d.content metadata changed_by).run storageMachine db =
        (answer, db') ∧ Becomes d (d.versioned crates metadata changed_by) db db' := by
  have hskip : ¬ d.NeedsVersion crates metadata →
      Becomes d (d.versioned crates metadata changed_by) db db := by
    intro hneeds
    rw [StoredDocument.versioned, if_neg hneeds]
    exact .refl hd
  rw [maybeSaveVersion]
  by_cases hempty : d.content.isEmpty = true
  · rw [if_pos hempty]
    exact ⟨none, db, rfl, hskip fun h => h.1 (List.isEmpty_iff.mp hempty)⟩
  rw [if_neg hempty]
  by_cases hversions : metadata.skip_versioning = some true
  · rw [if_pos hversions]
    exact ⟨none, db, rfl, hskip fun h => h.2.1 hversions⟩
  rw [if_neg hversions]
  have hread : storageMachine.exec (.listVersions d.id 1) db = (db.listVersions d.id 1, db) := rfl
  have hany : (d.versions.getLast?.any fun v => v.content_hash = crates.contentSha256 d.content) =
      true ↔ ∃ v ∈ d.versions.getLast?, v.content_hash = crates.contentSha256 d.content := by
    cases d.versions.getLast? <;> simp
  by_cases hlatest : ∃ v ∈ d.versions.getLast?, v.content_hash = crates.contentSha256 d.content
  · refine ⟨none, db, ?_, hskip fun h => ?_⟩
    · simp only [Prog.perform_bind, Prog.run_act, hread]
      rw [head?_listVersions hd, if_pos (hany.mpr hlatest)]
      rfl
    · obtain ⟨latest, hmem, heq⟩ := hlatest
      exact h.2.2 latest hmem heq
  · have hneeds : d.NeedsVersion crates metadata :=
      ⟨fun h => hempty (List.isEmpty_iff.mpr h), hversions,
        fun latest hmem heq => hlatest ⟨latest, hmem, heq⟩⟩
    let saved := db.saveVersion d.id d.content (crates.contentSha256 d.content) changed_by
    refine ⟨some saved.1, saved.2, ?_, ?_⟩
    · simp only [Prog.perform_bind, Prog.run_act, hread]
      rw [head?_listVersions hd, if_neg (mt hany.mp hlatest)]
      rfl
    · rw [StoredDocument.versioned, if_pos hneeds]
      exact .of_modify (StoredDocument.sameFile_withVersion _ _ _) hd

/-- Reading a row by its id. -/
theorem exec_getDocumentById {id : ℕ} (hd : db.documents.get? id = some d) :
    storageMachine.exec (.getDocumentById id) db = (some d.toMemoryDocument, db) := by
  show ((db.documents.get? id).map StoredDocument.toMemoryDocument, db) = _
  rw [hd, Option.map_some]

theorem run_reindex (crates : Crates Re) (ws : Workspace) (metadata : DocumentMetadata)
    (hd : db.documents.get? d.id = some d) : ∃ chunks db',
      (ws.reindexDocumentWithMetadata crates d.id metadata).run storageMachine db =
        (.ok (), db') ∧ Becomes d (d.withChunks chunks) db db' ∧
          (d.withChunks chunks).chunkTexts = indexTexts metadata d.content := by
  have hread := exec_getDocumentById hd
  by_cases hskip : metadata.skip_indexing = some true
  · refine ⟨[], db.deleteChunks d.id, ?_, .of_modify (StoredDocument.sameFile_withChunks _) hd, ?_⟩
    · rw [reindexDocumentWithMetadata]
      simp only [Prog.perform_bind, Prog.run_act, hread, hskip, if_true]
      rfl
    · rw [indexTexts, if_pos hskip]
      rfl
  · refine ⟨(ws.chunkWrites d.content).mapIdx fun index write => ⟨write, db.next_id + index⟩,
      db.replaceChunks d.id (ws.chunkWrites d.content), ?_, ?_, ?_⟩
    · rw [reindexDocumentWithMetadata]
      simp only [Prog.perform_bind, Prog.run_act, hread, if_neg hskip, ne_eq, not_true_eq_false,
        if_false]
      rfl
    · exact ⟨hd, (StoredDocument.sameFile_withChunks _).sameAs d, rfl,
        (Becomes.of_modify (StoredDocument.sameFile_withChunks _) hd).values⟩
    · rw [indexTexts, if_neg hskip, StoredDocument.chunkTexts, StoredDocument.withChunks,
        Workspace.chunkWrites]
      refine List.ext_getElem? fun i => ?_
      rw [List.getElem?_map, List.getElem?_mapIdx, List.getElem?_map, Option.map_map,
        Option.map_map]
      exact congrFun Option.map_id _

/-- **The end of a write path**, for the row it was given. -/
theorem run_persist (crates : Crates Re) (ws : Workspace) (content : List Char)
    (metadata : DocumentMetadata) (hd : db.documents.get? d.id = some d) : ∃ d' db',
      (ws.persist crates d.toMemoryDocument content metadata).run storageMachine db =
        (.ok (), db') ∧ Becomes d d' db db' ∧ d'.content = content ∧
          d'.versions = (d.versioned crates metadata (some ws.user_id)).versions ∧
            d'.chunkTexts = indexTexts metadata content := by
  obtain ⟨answer, db₁, hrun₁, h₁⟩ := run_maybeSaveVersion crates metadata (some ws.user_id) hd
  set saved := d.versioned crates metadata (some ws.user_id) with hsaved
  have h₂ := Becomes.of_modify (StoredDocument.sameFile_withContent content db₁.now) h₁.row_after
  obtain ⟨chunks, db₃, hrun₃, h₃, htexts⟩ := run_reindex crates ws metadata h₂.row_after
  refine ⟨_, db₃, ?_, (h₁.trans h₂).trans h₃, rfl, rfl, htexts⟩
  have hid : saved.id = d.id := h₁.same.id
  have hupdate : db₁.updateDocument d.id content =
      db₁.modify saved.id (StoredDocument.withContent content db₁.now)
        (StoredDocument.sameFile_withContent content db₁.now) := by
    rw [hid]
    rfl
  have hid' : (saved.withContent content db₁.now).id = d.id := hid
  rw [hid', ← hupdate] at hrun₃
  rw [persist, Prog.run_bind, hrun₁]
  exact hrun₃

/-- The answer, for a row that is there. -/
theorem run_stored {id : ℕ} (answer : MemoryDocument → Outcome)
    (hd : db.documents.get? id = some d) :
    (stored id answer).run storageMachine db = (.ok (answer d.toMemoryDocument), db) := by
  rw [stored]
  simp only [Prog.perform_bind, Prog.run_act, exec_getDocumentById hd]
  rfl

/-! ### The calls -/

namespace Call

/-- The scope and the path a call writes to, or why it cannot tell. -/
def target (ws : Workspace) : Call → Except WorkspaceError (String × List Char)
  | write path _ | append path _ | patch path _ _ _ => .ok (ws.user_id, normalizePath path)
  | writeToLayer layer_name path content force | appendToLayer layer_name path content force =>
    (ws.resolveLayerTarget layer_name content force).map fun t => (t.1, normalizePath path)
  | appendMemory _ => .ok (ws.user_id, paths.MEMORY)

/-- The content a call stores where this one was. -/
def newContent (old : List Char) : Call → List Char
  | write _ content | writeToLayer _ _ content _ => content
  | append _ content => joined ['\n'] old content
  | patch _ old_string new_string replace_all =>
    if replace_all then Text.replace old_string new_string old
    else Text.replaceFirst old_string new_string old
  | appendToLayer _ _ content _ => joined ['\n', '\n'] old content
  | appendMemory entry => joined ['\n', '\n'] old entry

/-- The calls that scan what they store for injected instructions. -/
def Scans : Call → Prop
  | write .. | append .. | patch .. => True
  | _ => False

/-- The calls that validate what they store, where this content was at this path. -/
def Validates (path old : List Char) : Call → Prop
  | write _ content => isEngineRuntimePath path = false ∧ content ≠ old
  | appendMemory _ => False
  | _ => True

/-- The calls that store, where this content was; a `write` of the same does not. -/
def Overwrites (old : List Char) : Call → Prop
  | write _ content => content ≠ old
  | _ => True

/-- The call is refused, if it is, before it makes sure of its document. -/
def RefusedAtOnce (crates : Crates Re) (ws : Workspace) : Call → Prop
  | write path content | append path content =>
    scanned crates (normalizePath path) content ≠ .ok ()
  | patch .. => True
  | writeToLayer layer_name _ content force | appendToLayer layer_name _ content force =>
    ∀ t, ws.resolveLayerTarget layer_name content force ≠ .ok t
  | appendMemory _ => False

end Call

/-- What a call comes to when it runs alone. -/
inductive Effect (crates : Crates Re) (ws : Workspace) (db : Db) (call : Call) :
    Except WorkspaceError Outcome → Db → Prop
  | refused (e : WorkspaceError) (h : call.RefusedAtOnce crates ws) :
    Effect crates ws db call (.error e) db
  | rejected (e : WorkspaceError) {scope : String} {path : List Char}
    (h : ¬ call.RefusedAtOnce crates ws) (htarget : call.target ws = .ok (scope, path)) :
    Effect crates ws db call (.error e) (db.ensured scope ws.agent_id path)
  | done (outcome : Outcome) {scope : String} {path : List Char} {d' : StoredDocument} {db' : Db}
    (htarget : call.target ws = .ok (scope, path))
    (hbecomes : Becomes (db.target scope ws.agent_id path) d'
      (db.ensured scope ws.agent_id path) db')
    (hcontent : d'.content = call.newContent (db.target scope ws.agent_id path).content)
    (hscans : call.Scans → scanned crates path d'.content = .ok ())
    (hvalidates : call.Validates path (db.target scope ws.agent_id path).content →
      validated crates ((db.ensured scope ws.agent_id path).metadataIn ws.agent_id scope path)
        path d'.content = .ok ())
    (hstored : isEngineRuntimePath path = false →
      call.Overwrites (db.target scope ws.agent_id path).content →
        d'.versions = ((db.target scope ws.agent_id path).versioned crates
          ((db.ensured scope ws.agent_id path).metadataIn ws.agent_id scope path)
          (some ws.user_id)).versions)
    (hkept : ¬ call.Overwrites (db.target scope ws.agent_id path).content →
      d'.versions = (db.target scope ws.agent_id path).versions) :
    Effect crates ws db call (.ok outcome) db'

/-- The row a call is about, once the file was made sure of. -/
theorem get?_ensured (db : Db) (scope : String) (agent_id : Option ℕ) (path : List Char) :
    (db.ensured scope agent_id path).documents.get? (db.target scope agent_id path).id =
      some (db.target scope agent_id path) :=
  Db.get?_of_rowAt (Db.rowAt_ensured db scope agent_id path)

/-- A program that begins with making sure of a file. -/
theorem run_getOrCreate_bind {α : Type} (db : Db) (scope : String) (agent_id : Option ℕ)
    (path : List Char) (f : MemoryDocument → StorageProg α) :
    (query (.getOrCreateDocumentByPath scope agent_id path) >>= f).run storageMachine db =
      (f (db.target scope agent_id path).toMemoryDocument).run storageMachine
        (db.ensured scope agent_id path) := by
  show (f (db.getOrCreateDocumentByPath scope agent_id path).1).run storageMachine
    (db.getOrCreateDocumentByPath scope agent_id path).2 = _
  rw [Db.getOrCreate_eq]

variable (crates ws db)

/-- A call that gets as far as storing its content stores it. -/
theorem effect_of_persist (call : Call) (new : List Char) {scope : String} {path : List Char}
    (htarget : call.target ws = .ok (scope, path))
    (hnew : call.newContent (db.target scope ws.agent_id path).content = new)
    (hover : call.Overwrites (db.target scope ws.agent_id path).content)
    (hscans : call.Scans → scanned crates path new = .ok ())
    (hvalidates : call.Validates path (db.target scope ws.agent_id path).content →
      validated crates ((db.ensured scope ws.agent_id path).metadataIn ws.agent_id scope path)
        path new = .ok ()) :
    ∃ d' db', (ws.persist crates (db.target scope ws.agent_id path).toMemoryDocument new
        ((db.ensured scope ws.agent_id path).metadataIn ws.agent_id scope path)).run
          storageMachine (db.ensured scope ws.agent_id path) = (.ok (), db') ∧
      db'.documents.get? (db.target scope ws.agent_id path).id = some d' ∧
        ∀ outcome, Effect crates ws db call (.ok outcome) db' := by
  obtain ⟨d', db', hrun, hbecomes, hcontent, hversions, -⟩ := run_persist crates ws new
    ((db.ensured scope ws.agent_id path).metadataIn ws.agent_id scope path)
    (get?_ensured db scope ws.agent_id path)
  refine ⟨d', db', hrun, hbecomes.same.id ▸ hbecomes.row_after, fun outcome => ?_⟩
  refine .done outcome htarget hbecomes (hcontent.trans hnew.symm) ?_ ?_ (fun _ _ => hversions)
    fun h => absurd hover h
  · rwa [hcontent]
  · rwa [hcontent]

/-- `append`. -/
theorem effect_append (path content : List Char) :
    Effect crates ws db (.append path content)
      ((ws.append crates path content).run storageMachine db).1
      ((ws.append crates path content).run storageMachine db).2 := by
  have htarget : (Call.append path content).target ws =
      .ok (ws.user_id, normalizePath path) := rfl
  rw [append]
  dsimp only
  cases hscan : scanned crates (normalizePath path) content with
  | error e => exact .refused e (by rw [Call.RefusedAtOnce, hscan]; exact nofun)
  | ok =>
    have hnot : ¬ (Call.append path content).RefusedAtOnce crates ws := by
      rw [Call.RefusedAtOnce, hscan]
      exact fun h => h rfl
    rw [run_getOrCreate_bind]
    split
    case h_1 e hcombined => exact .rejected e hnot htarget
    case h_2 hcombined =>
      simp only [Prog.run_bind, resolveMetadata, run_resolveMetadataInScope]
      split
      case h_1 e hvalid => exact .rejected e hnot htarget
      case h_2 hvalid =>
        obtain ⟨d', db', hrun, -, heffect⟩ := effect_of_persist crates ws db
          (.append path content) _ htarget rfl trivial (fun _ => hcombined) (fun _ => hvalid)
        simp only [Call.newContent] at hrun
        rw [Prog.run_bind, hrun]
        exact heffect .done

/-- `patch`: it works on the row that is there. -/
theorem effect_patch (path old_string new_string : List Char) (replace_all : Bool) :
    Effect crates ws db (.patch path old_string new_string replace_all)
      ((ws.patch crates path old_string new_string replace_all).run storageMachine db).1
      ((ws.patch crates path old_string new_string replace_all).run storageMachine db).2 := by
  have htarget : (Call.patch path old_string new_string replace_all).target ws =
      .ok (ws.user_id, normalizePath path) := rfl
  rw [patch]
  split
  case isTrue => exact .refused _ trivial
  case isFalse =>
    have hread : storageMachine.exec
        (.getDocumentByPath ws.user_id ws.agent_id (normalizePath path)) db =
          (db.getDocumentByPath ws.user_id ws.agent_id (normalizePath path), db) := rfl
    simp only [Prog.perform_bind, Prog.run_act, hread]
    cases hrow : db.rowAt ws.user_id ws.agent_id (normalizePath path) with
    | none =>
      rw [Db.getDocumentByPath, hrow]
      exact .refused _ trivial
    | some d =>
      -- a patch creates nothing: the document is there
      have hensured := Db.ensured_of_some hrow
      have hd : db.target ws.user_id ws.agent_id (normalizePath path) = d := by
        rw [Db.target, hrow, Option.getD_some]
      rw [Db.getDocumentByPath, hrow, Option.map_some]
      dsimp only
      split
      case isTrue => exact .refused _ trivial
      case isFalse =>
        split
        case h_1 e hscan => exact .refused e trivial
        case h_2 hscan =>
          simp only [Prog.run_bind, resolveMetadata, run_resolveMetadataInScope]
          split
          case h_1 e hvalid => exact .refused e trivial
          case h_2 hvalid =>
            obtain ⟨d', db', hrun, hd', heffect⟩ := effect_of_persist crates ws db
              (.patch path old_string new_string replace_all) _ htarget rfl trivial
              (fun _ => by rw [hd]; exact hscan) (fun _ => by rw [hd, hensured]; exact hvalid)
            rw [hd, hensured] at hrun
            simp only [Call.newContent] at hrun
            rw [hd] at hd'
            rw [Prog.run_bind, hrun]
            dsimp only
            rw [run_stored _ hd']
            exact heffect _

/-- The body of the layer writes. -/
theorem effect_storeInLayer (call : Call) (new_content : List Char → List Char)
    (layer_name : String) (path content : List Char) (force : Bool)
    (htarget : call.target ws = (ws.resolveLayerTarget layer_name content force).map fun t =>
      (t.1, normalizePath path))
    (hnew : ∀ old, call.newContent old = new_content old) (hover : ∀ old, call.Overwrites old)
    (hscans : ¬ call.Scans) (hrefused : call.RefusedAtOnce crates ws ↔
      ∀ t, ws.resolveLayerTarget layer_name content force ≠ .ok t) :
    Effect crates ws db call
      ((ws.storeInLayer crates new_content layer_name path content force).run storageMachine db).1
      ((ws.storeInLayer crates new_content layer_name path content force).run
        storageMachine db).2 := by
  rw [storeInLayer]
  cases hlayer : ws.resolveLayerTarget layer_name content force with
  | error e =>
    refine .refused e (hrefused.mpr fun t ht => ?_)
    rw [hlayer] at ht
    cases ht
  | ok t =>
    obtain ⟨scope, actual_layer, redirected⟩ := t
    have hnot : ¬ call.RefusedAtOnce crates ws := fun h => hrefused.mp h _ hlayer
    rw [hlayer] at htarget
    simp only [Except.map] at htarget
    rw [run_getOrCreate_bind]
    simp only [Prog.run_bind, run_resolveMetadataInScope]
    split
    case h_1 e hvalid => exact .rejected e hnot htarget
    case h_2 hvalid =>
      obtain ⟨d', db', hrun, hd', heffect⟩ := effect_of_persist crates ws db call _ htarget
        (hnew _) (hover _) (fun h => absurd h hscans) (fun _ => hvalid)
      rw [Prog.run_bind, hrun]
      dsimp only
      rw [run_stored _ hd']
      exact heffect _

/-- `append_memory`: it checks nothing. -/
theorem effect_appendMemory (entry : List Char) :
    Effect crates ws db (.appendMemory entry)
      ((ws.appendMemory crates entry).run storageMachine db).1
      ((ws.appendMemory crates entry).run storageMachine db).2 := by
  have htarget : (Call.appendMemory entry).target ws = .ok (ws.user_id, paths.MEMORY) := rfl
  obtain ⟨d', db', hrun, -, heffect⟩ := effect_of_persist crates ws db (.appendMemory entry) _
    htarget rfl trivial (fun h => nomatch h) (fun h => nomatch h)
  simp only [Call.newContent] at hrun
  rw [appendMemory]
  rw [run_getOrCreate_bind]
  simp only [Prog.run_bind, resolveMetadata, run_resolveMetadataInScope]
  rw [hrun]
  exact heffect .done

/-- `write`. -/
theorem effect_write (path content : List Char) :
    Effect crates ws db (.write path content)
      ((ws.write crates path content).run storageMachine db).1
      ((ws.write crates path content).run storageMachine db).2 := by
  have htarget : (Call.write path content).target ws =
      .ok (ws.user_id, normalizePath path) := rfl
  rw [write]
  dsimp only
  cases hscan : scanned crates (normalizePath path) content with
  | error e => exact .refused e (by rw [Call.RefusedAtOnce, hscan]; exact nofun)
  | ok =>
    have hnot : ¬ (Call.write path content).RefusedAtOnce crates ws := by
      rw [Call.RefusedAtOnce, hscan]
      exact fun h => h rfl
    have hd := get?_ensured db ws.user_id ws.agent_id (normalizePath path)
    rw [run_getOrCreate_bind]
    split
    case isTrue hruntime =>
      -- engine runtime state is stored without chunks: they are deleted first
      have hdelete := Becomes.of_modify (StoredDocument.sameFile_withChunks []) hd
      split
      case isTrue hsame =>
        exact .done _ htarget hdelete hsame (fun _ => hsame ▸ hscan)
          (fun h => nomatch hruntime.symm.trans h.1) (fun h => nomatch hruntime.symm.trans h)
          fun _ => rfl
      case isFalse hsame =>
        set d := db.target ws.user_id ws.agent_id (normalizePath path) with hdef
        obtain ⟨answer, db₁, hrun₁, h₁⟩ := run_maybeSaveVersion crates
          ⟨some true, some true, none, none⟩ (some ws.user_id) hdelete.row_after
        have h₂ := Becomes.of_modify (StoredDocument.sameFile_withContent content db₁.now)
          h₁.row_after
        rw [(hdelete.trans h₁).same.id] at h₂
        have hbecomes := (hdelete.trans h₁).trans h₂
        have hget := hbecomes.row_after
        rw [hbecomes.same.id] at hget
        have hquery : (query (.deleteChunks d.id)).run storageMachine
            (db.ensured ws.user_id ws.agent_id (normalizePath path)) =
              ((), (db.ensured ws.user_id ws.agent_id (normalizePath path)).deleteChunks d.id) :=
          rfl
        have hrun₁' : (maybeSaveVersion crates d.id d.content ⟨some true, some true, none, none⟩
            (some ws.user_id)).run storageMachine
              ((db.ensured ws.user_id ws.agent_id (normalizePath path)).deleteChunks d.id) =
                (answer, db₁) := hrun₁
        have hupdate : (query (.updateDocument d.id content)).run storageMachine db₁ =
            ((), db₁.modify d.id (StoredDocument.withContent content db₁.now)
              (StoredDocument.sameFile_withContent content db₁.now)) := rfl
        simp only [Prog.run_bind, hquery, hrun₁', hupdate]
        rw [run_stored _ hget]
        exact .done _ htarget hbecomes rfl (fun _ => hscan)
          (fun h => nomatch hruntime.symm.trans h.1) (fun h => nomatch hruntime.symm.trans h)
          fun h => absurd (Ne.symm hsame) h
    case isFalse hruntime =>
      split
      case isTrue hsame =>
        -- the contents stay, and the document is indexed again
        obtain ⟨chunks, db', hrun, hbecomes, -⟩ := run_reindex crates ws
          ((db.ensured ws.user_id ws.agent_id (normalizePath path)).metadataIn ws.agent_id
            ws.user_id (normalizePath path)) hd
        simp only [Prog.run_bind, resolveMetadata, run_resolveMetadataInScope]
        rw [hrun]
        exact .done _ htarget hbecomes hsame (fun _ => hsame ▸ hscan)
          (fun h => absurd hsame.symm h.2) (fun _ h => absurd hsame.symm h) fun _ => rfl
      case isFalse hsame =>
        simp only [Prog.run_bind, resolveMetadata, run_resolveMetadataInScope]
        split
        case h_1 e hvalid => exact .rejected e hnot htarget
        case h_2 hvalid =>
          obtain ⟨d', db', hrun, hd', heffect⟩ := effect_of_persist crates ws db
            (.write path content) _ htarget rfl (Ne.symm hsame) (fun _ => hscan) (fun _ => hvalid)
          simp only [Call.newContent] at hrun
          rw [Prog.run_bind, hrun]
          dsimp only
          rw [run_stored _ hd']
          exact heffect _

/-- **What a call does alone.** -/
theorem effect (call : Call) : Effect crates ws db call
    ((call.code crates ws).run storageMachine db).1
    ((call.code crates ws).run storageMachine db).2 := by
  cases call with
  | write path content => exact effect_write crates ws db path content
  | append path content => exact effect_append crates ws db path content
  | patch path old_string new_string replace_all =>
    exact effect_patch crates ws db path old_string new_string replace_all
  | writeToLayer layer_name path content force =>
    exact effect_storeInLayer crates ws db _ _ layer_name path content force rfl (fun _ => rfl)
      (fun _ => trivial) (fun h => h) Iff.rfl
  | appendToLayer layer_name path content force =>
    exact effect_storeInLayer crates ws db _ _ layer_name path content force rfl (fun _ => rfl)
      (fun _ => trivial) (fun h => h) Iff.rfl
  | appendMemory entry => exact effect_appendMemory crates ws db entry

/-! ### Calls in a row -/

/-- A call that was made: by which workspace, its answer, and the tables around it. -/
structure CallStep where
  ws : Workspace
  call : Call
  before : Db
  answer : Except WorkspaceError Outcome
  after : Db

/-- The calls, one after the other. -/
def trace (crates : Crates Re) : Db → List (Workspace × Call) → List CallStep
  | _, [] => []
  | db, (ws, call) :: calls =>
    let r := (call.code crates ws).run storageMachine db
    ⟨ws, call, db, r.1, r.2⟩ :: trace crates r.2 calls

/-- The call succeeded. -/
def CallStep.Succeeds (s : CallStep) : Prop := ∃ outcome, s.answer = .ok outcome

variable {crates}

theorem effect_of_mem_trace {db : Db} {calls : List (Workspace × Call)} {s : CallStep}
    (h : s ∈ trace crates db calls) : Effect crates s.ws s.before s.call s.answer s.after := by
  induction calls generalizing db with
  | nil => cases h
  | cons c calls ih =>
    obtain rfl | h := List.mem_cons.mp h
    · exact effect crates c.1 db c.2
    · exact ih h

end T3Claw.Workspace
