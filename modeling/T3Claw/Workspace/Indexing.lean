import T3Claw.Conc.System
import T3Claw.Workspace.Versions

/-!
# The search index under concurrent calls

Calls on one document, cut at the operations of the storage and interleaved at will. The content
and the chunks of the document are written at different times, so what a task writes to the index
may be of a content that is gone. As long as nobody stores a content between the second reading of
a task and its chunks (`unraced`), the index follows the content once all calls have returned
(`index_follows`): the task that stored last has the last word, and the others find out that they
are late.
-/

namespace T3Claw.Workspace

open Conc

variable {Re : Type}

/-! ### The system -/

namespace StorageInstr

def isUpdate : StorageInstr → Bool
  | updateDocument .. => true
  | _ => false

def isReplace : StorageInstr → Bool
  | replaceChunks .. => true
  | _ => false

def isDelete : StorageInstr → Bool
  | deleteChunks _ => true
  | _ => false

def isReread : StorageInstr → Bool
  | getDocumentById _ => true
  | _ => false

end StorageInstr

/-- Who did what to the storage, newest first. -/
abbrev StorageLog : Type := List (ℕ × StorageInstr)

/-- What happened since the task last did something of a kind. -/
def sinceOwn (k : ℕ) (kind : StorageInstr → Bool) (log : StorageLog) : StorageLog :=
  log.takeWhile fun e => !(e.1 == k && kind e.2)

/-- The task that stored a content last. -/
def lastUpdate (log : StorageLog) : Option ℕ := (log.find? (·.2.isUpdate)).map (·.1)

/-- Calls over one storage; the clock goes on by itself. -/
def indexSystem (crates : Crates Re) : System (Workspace × Call) ℕ StorageInstr StorageReply Db
    (Except WorkspaceError Outcome) where
  exec := storageExec
  code c := c.2.code crates c.1
  env elapsed db := some { db with now := db.now + elapsed }

/-- The call runs `write` on an engine runtime path. -/
def writesRuntime (path : List Char) : Call → Bool
  | .write .. => isEngineRuntimePath path
  | _ => false

/-- Nobody gets between the second reading of a task and its chunks with another content, nor
between the deletion of the chunks and the content of an engine write with other chunks. -/
def unraced (path : List Char) (call : Call) (k : ℕ) (log : StorageLog) : StorageInstr → Bool
  | .replaceChunks .. => (sinceOwn k (·.isReread) log).all fun e => !e.2.isUpdate
  | .updateDocument .. => !writesRuntime path call ||
      (sinceOwn k (·.isDelete) log).all fun e => !e.2.isReplace
  | _ => true

section

variable (user_id : String) (agent_id : Option ℕ) (path : List Char)

/-- The call is of the file at a path. -/
def isOf (c : Workspace × Call) : Bool :=
  c.1.agent_id = agent_id &&
    match c.2.target c.1 with
    | .ok t => t.1 = user_id && t.2 = path
    | .error _ => false

/-- The calls are of the file, and no task is raced. -/
def unracedMove (c : Conf (Workspace × Call) StorageInstr StorageReply Db
    (Except WorkspaceError Outcome)) : Move (Workspace × Call) ℕ → Bool
  | .start call => isOf user_id agent_id path call
  | .step k =>
    match c.tasks[k]? with
    | some ⟨call, .act i _⟩ => unraced path call.2 k c.log i
    | _ => true
  | .env _ => true

/-- The chunks of a row are those of its content, or none where nothing is indexed. -/
def StoredDocument.Follows (metadata : DocumentMetadata) (path : List Char) (d : StoredDocument) :
    Prop :=
  d.chunkTexts = indexTexts metadata d.content ∨
    (isEngineRuntimePath path = true ∧ d.chunks = [])

/-- The index of the file at a path follows its content. -/
def Db.Indexed (db : Db) : Prop :=
  ∀ row, db.rowAt user_id agent_id path = some row →
    row.Follows (db.metadataIn agent_id user_id path) path

end

/-! ### What the steps do to the file -/

variable (user_id : String) (agent_id : Option ℕ) (path : List Char)

/-- How the tables may change while these steps are made: the file stays, and so does what governs
it; its content changes by an update, its chunks come by a replacement, and an index that follows
the content does so until there is an update. -/
structure Advances (new : StorageLog) (db db' : Db) : Prop where
  row : ∀ row, db.rowAt user_id agent_id path = some row →
    ∃ row', db'.rowAt user_id agent_id path = some row' ∧ row'.id = row.id ∧
      ((∀ e ∈ new, e.2.isUpdate = false) → row'.content = row.content) ∧
      ((∀ e ∈ new, e.2.isReplace = false) → row.chunks = [] → row'.chunks = [])
  own : ∀ row, db.rowAt user_id agent_id path = some row → ∀ q,
    (db'.getDocumentByPath user_id agent_id q).map (·.metadata) =
      (db.getDocumentByPath user_id agent_id q).map (·.metadata)
  config : ∀ row, db.rowAt user_id agent_id path = some row → ∀ q,
    findNearestConfig q (db'.findConfigDocuments user_id agent_id) =
      findNearestConfig q (db.findConfigDocuments user_id agent_id)
  indexed : (∀ e ∈ new, e.2.isUpdate = false) → db.Indexed user_id agent_id path →
    db'.Indexed user_id agent_id path

variable {user_id agent_id path} {new new' : StorageLog} {db db' db'' : Db}

namespace Advances

theorem refl (new : StorageLog) (db : Db) : Advances user_id agent_id path new db db where
  row row hrow := ⟨row, hrow, rfl, fun _ => rfl, fun _ h => h⟩
  own _ _ _ := rfl
  config _ _ _ := rfl
  indexed _ h := h

theorem trans (h : Advances user_id agent_id path new db db')
    (h' : Advances user_id agent_id path new' db' db'') :
    Advances user_id agent_id path (new' ++ new) db db'' where
  row row hrow := by
    obtain ⟨row', hrow', hid, hcontent, hchunks⟩ := h.row row hrow
    obtain ⟨row'', hrow'', hid', hcontent', hchunks'⟩ := h'.row row' hrow'
    refine ⟨row'', hrow'', hid'.trans hid, fun hnew => ?_, fun hnew hnone => ?_⟩
    · rw [hcontent' fun e he => hnew e (List.mem_append_left _ he),
        hcontent fun e he => hnew e (List.mem_append_right _ he)]
    · exact hchunks' (fun e he => hnew e (List.mem_append_left _ he))
        (hchunks (fun e he => hnew e (List.mem_append_right _ he)) hnone)
  own row hrow q := by
    obtain ⟨row', hrow', -⟩ := h.row row hrow
    exact (h'.own row' hrow' q).trans (h.own row hrow q)
  config row hrow q := by
    obtain ⟨row', hrow', -⟩ := h.row row hrow
    exact (h'.config row' hrow' q).trans (h.config row hrow q)
  indexed hnew hindexed :=
    h'.indexed (fun e he => hnew e (List.mem_append_left _ he))
      (h.indexed (fun e he => hnew e (List.mem_append_right _ he)) hindexed)

/-- The metadata of the file stays. -/
theorem metadataIn (h : Advances user_id agent_id path new db db') {row : StoredDocument}
    (hrow : db.rowAt user_id agent_id path = some row) :
    db'.metadataIn agent_id user_id path = db.metadataIn agent_id user_id path := by
  simp only [Db.metadataIn, h.own row hrow, h.config row hrow]

/-- The index after the row of the file was rewritten. -/
theorem indexed_of_becomes {d d' : StoredDocument} (h : Becomes d d' db db')
    (hrow : db.rowAt user_id agent_id path = some d)
    (hfollows : d'.Follows (db.metadataIn agent_id user_id path) path) :
    db'.Indexed user_id agent_id path := by
  intro row hrow'
  obtain rfl : d' = row := Option.some.inj ((h.rowAt_eq hrow).symm.trans hrow')
  rw [h.metadataIn]
  exact hfollows

/-- A step that rewrites the row of the file. -/
theorem of_becomes {d d' : StoredDocument} {k : ℕ} {i : StorageInstr} (h : Becomes d d' db db')
    (hrow : db.rowAt user_id agent_id path = some d)
    (hcontent : i.isUpdate = false → d'.content = d.content)
    (hchunks : i.isReplace = false → d.chunks = [] → d'.chunks = [])
    (hfollows : i.isUpdate = false →
      d.Follows (db.metadataIn agent_id user_id path) path →
        d'.Follows (db.metadataIn agent_id user_id path) path) :
    Advances user_id agent_id path [(k, i)] db db' where
  row row hrow' := by
    obtain rfl : d = row := Option.some.inj (hrow.symm.trans hrow')
    exact ⟨d', h.rowAt_eq hrow, h.same.id,
      fun hnew => hcontent (hnew _ List.mem_cons_self),
      fun hnew => hchunks (hnew _ List.mem_cons_self)⟩
  own _ _ q := h.ownMetadata agent_id user_id q
  config _ _ q := h.nearestConfig agent_id user_id q
  indexed hnew hindexed :=
    indexed_of_becomes h hrow (hfollows (hnew _ List.mem_cons_self) (hindexed d hrow))

/-- Making sure of the file. -/
theorem of_ensured (new : StorageLog) (db : Db) :
    Advances user_id agent_id path new db (db.ensured user_id agent_id path) := by
  cases hrow : db.rowAt user_id agent_id path with
  | some d =>
    rw [Db.ensured_of_some hrow]
    exact refl new db
  | none =>
    refine ⟨fun row h => ?_, fun row h => ?_, fun row h => ?_, fun _ _ row h => .inl ?_⟩
    · rw [hrow] at h
      cases h
    · rw [hrow] at h
      cases h
    · rw [hrow] at h
      cases h
    · rw [Db.rowAt_ensured, Db.target, hrow] at h
      obtain rfl := Option.some.inj h
      rw [indexTexts]
      split <;> rfl

end Advances

/-! ### What the tasks rely on -/

/-- The storage and who did what to it. -/
abbrev StorageMemory : Type := Memory StorageInstr Db

/-- As long as nobody stored a content the index follows it if it did at the start, and the tables
advance. -/
def indexProtocol (first : Db) (user_id : String) (agent_id : Option ℕ) (path : List Char) :
    Protocol (Workspace × Call) StorageInstr Db where
  inv m := first.Indexed user_id agent_id path → (∀ e ∈ m.log, e.2.isUpdate = false) →
    m.state.Indexed user_id agent_id path
  later m m' := ∃ new, m'.log = new ++ m.log ∧
    Advances user_id agent_id path new m.state m'.state
  allowed op k i m := unraced path op.2 k m.log i = true
  later_refl m := ⟨[], rfl, .refl [] m.state⟩
  later_trans := by
    rintro m m' m'' ⟨new, hnew, hadvances⟩ ⟨new', hnew', hadvances'⟩
    exact ⟨new' ++ new, by rw [hnew', hnew, List.append_assoc], hadvances.trans hadvances'⟩

/-- Shorter for `Protocol.Safe`. -/
abbrev IndexSafe {α : Type} (first : Db) (user_id : String) (agent_id : Option ℕ) (path : List Char)
    (op : Workspace × Call) (k : ℕ) (Q : α → StorageMemory → Prop) (p : StorageProg α)
    (m : StorageMemory) : Prop :=
  (indexProtocol first user_id agent_id path).Safe storageMachine op k Q p m

variable {first : Db} {op : Workspace × Call} {k : ℕ} {m m' : StorageMemory} {id : ℕ}

/-- What others did while a task waited. -/
theorem grown_cases (h : (indexProtocol first user_id agent_id path).Grown k m m') :
    ∃ new, m'.log = new ++ m.log ∧ (∀ e ∈ new, e.1 ≠ k) ∧
      Advances user_id agent_id path new m.state m'.state := by
  obtain ⟨⟨new, hnew, hadvances⟩, new', hnew', hothers⟩ := h
  obtain rfl : new = new' := List.append_cancel_right (hnew.symm.trans hnew')
  exact ⟨new, hnew, hothers, hadvances⟩

/-- An instruction whose answer and effect are known. -/
theorem indexSafe_act {α : Type} {Q : α → StorageMemory → Prop} {i : StorageInstr}
    {f : StorageReply i → StorageProg α}
    (h : ∀ m', (indexProtocol first user_id agent_id path).Grown k m m' →
      unraced path op.2 k m'.log i = true → ∃ r s, storageExec i m'.state = (r, s) ∧
        Advances user_id agent_id path [(k, i)] m'.state s ∧
          IndexSafe first user_id agent_id path op k Q (f r) ⟨s, (k, i) :: m'.log⟩) :
    IndexSafe first user_id agent_id path op k Q (query i >>= f) m := by
  refine Protocol.safe_act fun m' hgrown hinv hallowed => ?_
  obtain ⟨r, s, hexec, hadvances, hrest⟩ := h m' hgrown hallowed
  refine ⟨r, s, hexec, fun hfirst hlog => ?_, ⟨[(k, i)], rfl, hadvances⟩, hrest⟩
  obtain ⟨hi, hlog⟩ := List.forall_mem_cons.mp hlog
  exact hadvances.indexed (List.forall_mem_singleton.mpr hi) (hinv hfirst hlog)

/-! ### What a task knows -/

variable (user_id agent_id path) in
/-- The row of the file has this id. -/
def Known (id : ℕ) (m : StorageMemory) : Prop :=
  ∃ row, m.state.rowAt user_id agent_id path = some row ∧ row.id = id

/-- The task has stored no content. -/
def Fresh (k : ℕ) (m : StorageMemory) : Prop :=
  ∀ e ∈ m.log, e.1 = k → e.2.isUpdate = false

variable (user_id agent_id path) in
/-- If the content the task stored is the newest, the index follows it. -/
def Settled (k : ℕ) (m : StorageMemory) : Prop :=
  lastUpdate m.log = some k → m.state.Indexed user_id agent_id path

theorem Known.grown (h : Known user_id agent_id path id m)
    (hgrown : (indexProtocol first user_id agent_id path).Grown k m m') :
    Known user_id agent_id path id m' := by
  obtain ⟨new, -, -, hadvances⟩ := grown_cases hgrown
  obtain ⟨row, hrow, hid⟩ := h
  obtain ⟨row', hrow', hid', -⟩ := hadvances.row row hrow
  exact ⟨row', hrow', hid'.trans hid⟩

theorem Fresh.grown (h : Fresh k m)
    (hgrown : (indexProtocol first user_id agent_id path).Grown k m m') : Fresh k m' := by
  obtain ⟨new, hnew, hothers, -⟩ := grown_cases hgrown
  intro e he hk
  rw [hnew] at he
  obtain he | he := List.mem_append.mp he
  · exact absurd hk (hothers e he)
  · exact h e he hk

/-- A task that has stored nothing has not stored last. -/
theorem Fresh.settled (h : Fresh k m) : Settled user_id agent_id path k m := by
  intro hlast
  obtain ⟨e, he, hk⟩ := Option.map_eq_some_iff.mp hlast
  have hupdate := List.find?_some he
  rw [h e (List.mem_of_find?_eq_some he) hk] at hupdate
  cases hupdate

/-- Whoever stored last among others' steps is another. -/
theorem lastUpdate_append {new log : StorageLog} (hothers : ∀ e ∈ new, e.1 ≠ k)
    (h : lastUpdate (new ++ log) = some k) :
    (∀ e ∈ new, e.2.isUpdate = false) ∧ lastUpdate log = some k := by
  rw [lastUpdate, List.find?_append] at h
  cases hnew : new.find? (·.2.isUpdate) with
  | none =>
    rw [hnew, Option.none_or] at h
    refine ⟨fun e he => ?_, h⟩
    exact Bool.eq_false_iff.mpr (List.find?_eq_none.mp hnew e he)
  | some e =>
    rw [hnew, Option.some_or, Option.map_some] at h
    exact absurd (Option.some.inj h) (hothers e (List.mem_of_find?_eq_some hnew))

theorem Settled.grown (h : Settled user_id agent_id path k m)
    (hgrown : (indexProtocol first user_id agent_id path).Grown k m m') :
    Settled user_id agent_id path k m' := by
  obtain ⟨new, hnew, hothers, hadvances⟩ := grown_cases hgrown
  intro hlast
  rw [hnew] at hlast
  obtain ⟨hnone, hlast⟩ := lastUpdate_append hothers hlast
  exact hadvances.indexed hnone (h hlast)

/-- What others did is since. -/
theorem sinceOwn_append {new : StorageLog} (kind : StorageInstr → Bool) (log : StorageLog)
    (hothers : ∀ e ∈ new, e.1 ≠ k) :
    sinceOwn k kind (new ++ log) = new ++ sinceOwn k kind log := by
  rw [sinceOwn, List.takeWhile_append_of_pos, sinceOwn]
  intro e he
  rw [beq_false_of_ne (hothers e he)]
  rfl

variable (user_id agent_id path) in
/-- The content the task read last is that of the file, unless another was stored since. -/
structure Reread (k : ℕ) (content : List Char) (m : StorageMemory) : Prop where
  others : ∀ e ∈ sinceOwn k (·.isReread) m.log, e.1 ≠ k
  content : (∀ e ∈ sinceOwn k (·.isReread) m.log, e.2.isUpdate = false) →
    ∀ row, m.state.rowAt user_id agent_id path = some row → row.content = content

theorem Reread.grown {content : List Char} (h : Reread user_id agent_id path k content m)
    (hknown : Known user_id agent_id path id m)
    (hgrown : (indexProtocol first user_id agent_id path).Grown k m m') :
    Reread user_id agent_id path k content m' := by
  obtain ⟨new, hnew, hothers, hadvances⟩ := grown_cases hgrown
  have hsince := sinceOwn_append (·.isReread) m.log hothers
  rw [← hnew] at hsince
  constructor
  · rw [hsince]
    exact fun e he => (List.mem_append.mp he).elim (hothers e) (h.others e)
  · rw [hsince]
    intro hnone row' hrow'
    obtain ⟨row, hrow, -⟩ := hknown
    obtain ⟨row'', hrow'', -, hcontent, -⟩ := hadvances.row row hrow
    obtain rfl := Option.some.inj (hrow''.symm.trans hrow')
    rw [hcontent fun e he => hnone e (List.mem_append_left _ he)]
    exact h.content (fun e he => hnone e (List.mem_append_right _ he)) row hrow

/-- A task that finds another content than it read has been overtaken. -/
theorem Reread.settled_of_ne {content : List Char}
    (h : Reread user_id agent_id path k content m) {row : StoredDocument}
    (hrow : m.state.rowAt user_id agent_id path = some row) (hne : row.content ≠ content) :
    Settled user_id agent_id path k m := by
  intro hlast
  have hlog : sinceOwn k (·.isReread) m.log ++
      m.log.dropWhile (fun e => !(e.1 == k && e.2.isReread)) = m.log :=
    List.takeWhile_append_dropWhile
  rw [← hlog] at hlast
  exact absurd (h.content (lastUpdate_append h.others hlast).1 row hrow) hne

variable (user_id agent_id path) in
/-- The file has no chunks, unless some were written since the task deleted them. -/
def Emptied (k : ℕ) (m : StorageMemory) : Prop :=
  (∀ e ∈ sinceOwn k (·.isDelete) m.log, e.2.isReplace = false) →
    ∀ row, m.state.rowAt user_id agent_id path = some row → row.chunks = []

theorem Emptied.grown (h : Emptied user_id agent_id path k m)
    (hknown : Known user_id agent_id path id m)
    (hgrown : (indexProtocol first user_id agent_id path).Grown k m m') :
    Emptied user_id agent_id path k m' := by
  obtain ⟨new, hnew, hothers, hadvances⟩ := grown_cases hgrown
  have hsince := sinceOwn_append (·.isDelete) m.log hothers
  rw [← hnew] at hsince
  rw [Emptied, hsince]
  intro hnone row' hrow'
  obtain ⟨row, hrow, -⟩ := hknown
  obtain ⟨row'', hrow'', -, -, hchunks⟩ := hadvances.row row hrow
  obtain rfl := Option.some.inj (hrow''.symm.trans hrow')
  exact hchunks (fun e he => hnone e (List.mem_append_left _ he))
    (h (fun e he => hnone e (List.mem_append_right _ he)) row hrow)

variable (user_id agent_id path) in
/-- What a task knows once it has found its document and what governs it. -/
structure Governed (id : ℕ) (metadata : DocumentMetadata) (m : StorageMemory) : Prop where
  known : Known user_id agent_id path id m
  metadata : m.state.metadataIn agent_id user_id path = metadata

theorem Governed.grown {metadata : DocumentMetadata}
    (h : Governed user_id agent_id path id metadata m)
    (hgrown : (indexProtocol first user_id agent_id path).Grown k m m') :
    Governed user_id agent_id path id metadata m' := by
  refine ⟨h.known.grown hgrown, ?_⟩
  obtain ⟨new, -, -, hadvances⟩ := grown_cases hgrown
  obtain ⟨row, hrow, -⟩ := h.known
  rw [hadvances.metadataIn hrow]
  exact h.metadata

/-! ### The steps of a task -/

variable {α : Type} {Q : α → StorageMemory → Prop}

/-- The row of the file is rewritten. -/
theorem becomes_modify {d : StoredDocument} {f : StoredDocument → StoredDocument}
    (hf : StoredDocument.SameFile f) (hrow : db.rowAt user_id agent_id path = some d)
    (hid : d.id = id) : Becomes d (f d) db (db.modify id f hf) :=
  hid ▸ Becomes.of_modify hf (Db.get?_of_rowAt hrow)

/-- Reading the file by its id. -/
theorem storageExec_getDocumentById {d : StoredDocument}
    (hrow : db.rowAt user_id agent_id path = some d) (hid : d.id = id) :
    storageExec (.getDocumentById id) db = (some d.toMemoryDocument, db) :=
  exec_getDocumentById (hid ▸ Db.get?_of_rowAt hrow)

/-- A step that changes nothing. -/
theorem indexSafe_read {i : StorageInstr} {f : StorageReply i → StorageProg α}
    (h : ∀ m', (indexProtocol first user_id agent_id path).Grown k m m' → ∃ r,
      storageExec i m'.state = (r, m'.state) ∧
        IndexSafe first user_id agent_id path op k Q (f r) ⟨m'.state, (k, i) :: m'.log⟩) :
    IndexSafe first user_id agent_id path op k Q (query i >>= f) m := by
  refine indexSafe_act fun m' hgrown _ => ?_
  obtain ⟨r, hexec, hrest⟩ := h m' hgrown
  exact ⟨r, m'.state, hexec, .refl _ _, hrest⟩

/-- What a task has done of another kind changes nothing of what it has stored. -/
theorem Fresh.cons {i : StorageInstr} {state : Db} (h : Fresh k m) (hi : i.isUpdate = false) :
    Fresh k ⟨state, (k, i) :: m.log⟩ := by
  intro e he hk
  obtain rfl | he := List.mem_cons.mp he
  · exact hi
  · exact h e he hk

/-- The metadata is read in two steps. -/
theorem indexSafe_resolve {ws : Workspace} (hagent : ws.agent_id = agent_id)
    (hknown : Known user_id agent_id path id m) (hfresh : Fresh k m) :
    IndexSafe first user_id agent_id path op k (fun metadata m' =>
      Governed user_id agent_id path id metadata m' ∧ Fresh k m')
      (ws.resolveMetadataInScope user_id path) m := by
  subst hagent
  rw [resolveMetadataInScope]
  refine indexSafe_read fun m₁ hgrown₁ => ⟨_, rfl, ?_⟩
  have hknown₁ := hknown.grown hgrown₁
  have hfresh₁ : Fresh k ⟨m₁.state, (k, .getDocumentByPath user_id ws.agent_id
      (normalizePath path)) :: m₁.log⟩ := (hfresh.grown hgrown₁).cons rfl
  refine indexSafe_read fun m₂ hgrown₂ => ⟨_, rfl, ?_⟩
  obtain ⟨new, -, -, hadvances⟩ := grown_cases hgrown₂
  obtain ⟨row, hrow, hid⟩ := hknown₁
  obtain ⟨row', hrow', hid', -⟩ := hadvances.row row hrow
  refine Protocol.safe_done ⟨⟨⟨row', hrow', hid'.trans hid⟩, ?_⟩, (hfresh₁.grown hgrown₂).cons rfl⟩
  have hown := hadvances.own row hrow (normalizePath path)
  simp only [Db.metadataIn, hown]

theorem Settled.cons {i : StorageInstr} (h : Settled user_id agent_id path k m)
    (hi : i.isUpdate = false) : Settled user_id agent_id path k ⟨m.state, (k, i) :: m.log⟩ := by
  intro hlast
  rw [lastUpdate, List.find?_cons_of_neg (by simp [hi])] at hlast
  exact h hlast

/-- The task has just read the content. -/
theorem Reread.start {row : StoredDocument}
    (hrow : m.state.rowAt user_id agent_id path = some row) :
    Reread user_id agent_id path k row.content
      ⟨m.state, (k, .getDocumentById id) :: m.log⟩ := by
  have hsince : sinceOwn k (·.isReread) ((k, .getDocumentById id) :: m.log) = [] := by
    rw [sinceOwn, List.takeWhile_cons_of_neg]
    simp [StorageInstr.isReread]
  constructor
  · rw [hsince]
    exact fun e he => nomatch he
  · rintro - row' hrow'
    rw [Option.some.inj (hrow.symm.trans hrow')]

/-- What `replace_chunks` does to the row of the file. -/
theorem becomes_replaceChunks {d : StoredDocument}
    (hrow : db.rowAt user_id agent_id path = some d) (hid : d.id = id) (writes : List ChunkWrite) :
    ∃ chunks, Becomes d (d.withChunks chunks) db (db.replaceChunks id writes) ∧
      chunks.map (·.content) = writes.map (·.content) := by
  have hmodify := becomes_modify (StoredDocument.sameFile_withChunks
    (writes.mapIdx fun index write => ⟨write, db.next_id + index⟩)) hrow hid
  refine ⟨_, ⟨hmodify.row, hmodify.same, hmodify.backend, hmodify.values⟩, List.ext_getElem? fun i => ?_⟩
  rw [List.getElem?_map, List.getElem?_mapIdx, Option.map_map, List.getElem?_map]
  rfl

/-- **Indexing.** Whatever the others do, the task ends with an index that follows the content, or
overtaken. -/
theorem indexSafe_reindex (crates : Crates Re) (hinj : Function.Injective crates.contentSha256)
    (ws : Workspace) {metadata : DocumentMetadata}
    (h : Governed user_id agent_id path id metadata m) :
    IndexSafe first user_id agent_id path op k (fun _ m' => Settled user_id agent_id path k m')
      (ws.reindexDocumentWithMetadata crates id metadata) m := by
  rw [reindexDocumentWithMetadata]
  refine indexSafe_read fun m₁ hgrown₁ => ?_
  have h₁ := h.grown hgrown₁
  obtain ⟨row₁, hrow₁, hid₁⟩ := h₁.known
  refine ⟨some row₁.toMemoryDocument, storageExec_getDocumentById hrow₁ hid₁, ?_⟩
  dsimp only
  have h₁' : Governed user_id agent_id path id metadata
      ⟨m₁.state, (k, .getDocumentById id) :: m₁.log⟩ := ⟨h₁.known, h₁.metadata⟩
  by_cases hskip : metadata.skip_indexing = some true
  · rw [if_pos hskip]
    refine indexSafe_act fun m₂ hgrown₂ _ => ⟨(), m₂.state.deleteChunks id, rfl, ?_⟩
    have h₂ := h₁'.grown hgrown₂
    obtain ⟨row₂, hrow₂, hid₂⟩ := h₂.known
    have hbecomes := becomes_modify (StoredDocument.sameFile_withChunks []) hrow₂ hid₂
    have hfollows : (row₂.withChunks []).Follows (m₂.state.metadataIn agent_id user_id path)
        path := by
      refine .inl ?_
      rw [h₂.metadata, indexTexts, if_pos hskip]
      rfl
    exact ⟨.of_becomes hbecomes hrow₂ (fun _ => rfl) (fun _ _ => rfl) fun _ _ => hfollows,
      Protocol.safe_done fun _ => Advances.indexed_of_becomes hbecomes hrow₂ hfollows⟩
  · rw [if_neg hskip]
    have hread₁ : Reread user_id agent_id path k row₁.content
        ⟨m₁.state, (k, .getDocumentById id) :: m₁.log⟩ := .start hrow₁
    refine indexSafe_read fun m₂ hgrown₂ => ?_
    have h₂ := h₁'.grown hgrown₂
    obtain ⟨row₂, hrow₂, hid₂⟩ := h₂.known
    have hread₂ := hread₁.grown h₁'.known hgrown₂
    refine ⟨some row₂.toMemoryDocument, storageExec_getDocumentById hrow₂ hid₂, ?_⟩
    dsimp only
    by_cases hhash : crates.contentSha256 row₂.content ≠ crates.contentSha256 row₁.content
    · rw [if_pos hhash]
      have hne : row₂.content ≠ row₁.content := fun heq => hhash (congrArg _ heq)
      exact Protocol.safe_done ((hread₂.settled_of_ne hrow₂ hne).cons rfl)
    · rw [if_neg hhash]
      have hsame : row₂.content = row₁.content := hinj (not_not.mp hhash)
      have hread₃ : Reread user_id agent_id path k row₂.content
          ⟨m₂.state, (k, .getDocumentById id) :: m₂.log⟩ := .start hrow₂
      have h₂' : Governed user_id agent_id path id metadata
          ⟨m₂.state, (k, .getDocumentById id) :: m₂.log⟩ := ⟨h₂.known, h₂.metadata⟩
      refine indexSafe_act fun m₃ hgrown₃ hunraced =>
        ⟨(), m₃.state.replaceChunks id (ws.chunkWrites row₁.content), rfl, ?_⟩
      have h₃ := h₂'.grown hgrown₃
      obtain ⟨row₃, hrow₃, hid₃⟩ := h₃.known
      obtain ⟨chunks, hbecomes, htexts⟩ :=
        becomes_replaceChunks hrow₃ hid₃ (ws.chunkWrites row₁.content)
      -- nobody stored a content since the second reading, so the chunks are of this one
      have hcontent : row₃.content = row₂.content := by
        refine (hread₃.grown h₂'.known hgrown₃).content (fun e he => ?_) row₃ hrow₃
        simpa using List.all_eq_true.mp hunraced e he
      have hfollows : (row₃.withChunks chunks).Follows
          (m₃.state.metadataIn agent_id user_id path) path := by
        refine .inl ?_
        rw [h₃.metadata, indexTexts, if_neg hskip]
        refine htexts.trans ?_
        rw [Workspace.chunkWrites, List.map_map, ← hsame, ← hcontent]
        exact List.map_id _
      exact ⟨.of_becomes hbecomes hrow₃ (fun _ => rfl) (fun hi => by cases hi)
        fun _ _ => hfollows,
        Protocol.safe_done fun _ => Advances.indexed_of_becomes hbecomes hrow₃ hfollows⟩

/-- Saving a version touches neither the content nor the chunks. -/
theorem indexSafe_maybeSaveVersion (crates : Crates Re) (content : List Char)
    (changed_by : Option String) {metadata : DocumentMetadata}
    (h : Governed user_id agent_id path id metadata m) (hfresh : Fresh k m) :
    IndexSafe first user_id agent_id path op k (fun _ m' =>
      Governed user_id agent_id path id metadata m' ∧ Fresh k m')
      (maybeSaveVersion crates id content metadata changed_by) m := by
  rw [maybeSaveVersion]
  split
  · exact Protocol.safe_done ⟨h, hfresh⟩
  split
  · exact Protocol.safe_done ⟨h, hfresh⟩
  refine indexSafe_read fun m₁ hgrown₁ => ⟨_, rfl, ?_⟩
  have h₁ := h.grown hgrown₁
  have hfresh₁ : Fresh k ⟨m₁.state, (k, .listVersions id 1) :: m₁.log⟩ :=
    (hfresh.grown hgrown₁).cons rfl
  have h₁' : Governed user_id agent_id path id metadata
      ⟨m₁.state, (k, .listVersions id 1) :: m₁.log⟩ := ⟨h₁.known, h₁.metadata⟩
  split
  · exact Protocol.safe_done ⟨h₁', hfresh₁⟩
  refine indexSafe_act fun m₂ hgrown₂ _ => ⟨_, _, rfl, ?_⟩
  have h₂ := h₁'.grown hgrown₂
  obtain ⟨row, hrow, hid⟩ := h₂.known
  have hbecomes := becomes_modify (StoredDocument.sameFile_withVersion content
    (crates.contentSha256 content) changed_by) hrow hid
  refine ⟨.of_becomes hbecomes hrow (fun _ => rfl) (fun _ hnone => hnone) fun _ hfollows =>
    hfollows, Protocol.safe_done ⟨⟨⟨_, hbecomes.rowAt_eq hrow, hbecomes.same.id.trans hid⟩, ?_⟩,
      (hfresh₁.grown hgrown₂).cons rfl⟩⟩
  exact (hbecomes.metadataIn agent_id user_id path).trans h₂.metadata

/-- The end of a write path. -/
theorem indexSafe_persist (crates : Crates Re) (hinj : Function.Injective crates.contentSha256)
    (ws : Workspace) (doc : MemoryDocument) (content : List Char) {metadata : DocumentMetadata}
    (h : Governed user_id agent_id path doc.id metadata m) (hfresh : Fresh k m) :
    IndexSafe first user_id agent_id path op k (fun _ m' => Settled user_id agent_id path k m')
      (ws.persist crates doc content metadata) m := by
  rw [persist]
  refine Protocol.Safe.bind ((indexSafe_maybeSaveVersion crates doc.content (some ws.user_id) h
    hfresh).mono fun _ m₁ hsaved => ?_)
  obtain ⟨h₁, -⟩ := hsaved
  refine indexSafe_act fun m₂ hgrown₂ _ => ⟨(), m₂.state.updateDocument doc.id content, rfl, ?_⟩
  have h₂ := h₁.grown hgrown₂
  obtain ⟨row, hrow, hid⟩ := h₂.known
  have hbecomes := becomes_modify
    (StoredDocument.sameFile_withContent content m₂.state.now) hrow hid
  refine ⟨.of_becomes hbecomes hrow (fun hi => by cases hi) (fun _ hnone => hnone)
    (fun hi => by cases hi), indexSafe_reindex crates hinj ws
      ⟨⟨_, hbecomes.rowAt_eq hrow, hbecomes.same.id.trans hid⟩, ?_⟩⟩
  exact (hbecomes.metadataIn agent_id user_id path).trans h₂.metadata

/-- The answer. -/
theorem indexSafe_stored (answer : MemoryDocument → Outcome)
    (hsettled : Settled user_id agent_id path k m) :
    IndexSafe first user_id agent_id path op k (fun _ m' => Settled user_id agent_id path k m')
      (stored id answer) m := by
  rw [stored]
  refine indexSafe_read fun m₁ hgrown₁ => ⟨_, rfl, ?_⟩
  have hsettled₁ : Settled user_id agent_id path k
      ⟨m₁.state, (k, .getDocumentById id) :: m₁.log⟩ := (hsettled.grown hgrown₁).cons rfl
  split
  · exact Protocol.safe_done hsettled₁
  · exact Protocol.safe_done hsettled₁

/-- What follows once the document is at hand: its metadata, the validation, and the end. -/
theorem indexSafe_checked (crates : Crates Re) (hinj : Function.Injective crates.contentSha256)
    {ws : Workspace} (hagent : ws.agent_id = agent_id) (doc : MemoryDocument) (p : List Char)
    (content : List Char) {after : StorageProg (Except WorkspaceError Outcome)}
    (hknown : Known user_id agent_id path doc.id m) (hfresh : Fresh k m)
    (hafter : ∀ m', Settled user_id agent_id path k m' →
      IndexSafe first user_id agent_id path op k (fun _ m' => Settled user_id agent_id path k m')
        after m') :
    IndexSafe first user_id agent_id path op k (fun _ m' => Settled user_id agent_id path k m')
      (do
        let metadata ← ws.resolveMetadataInScope user_id path
        match validated crates metadata p content with
        | .error e => return .error e
        | .ok () =>
          match ← ws.persist crates doc content metadata with
          | .error e => return .error e
          | .ok () => after) m := by
  refine Protocol.Safe.bind ((indexSafe_resolve hagent hknown hfresh).mono
    fun metadata m₁ ⟨h₁, hfresh₁⟩ => ?_)
  split
  · exact Protocol.safe_done hfresh₁.settled
  refine Protocol.Safe.bind ((indexSafe_persist crates hinj ws doc content h₁ hfresh₁).mono
    fun r m₂ hsettled => ?_)
  split
  · exact Protocol.safe_done hsettled
  · exact hafter m₂ hsettled

/-- Making sure of the file. -/
theorem indexSafe_getOrCreate {f : MemoryDocument → StorageProg α} (hfresh : Fresh k m)
    (h : ∀ d m', Known user_id agent_id path (MemoryDocument.id d) m' → Fresh k m' →
      IndexSafe first user_id agent_id path op k Q (f d) m') :
    IndexSafe first user_id agent_id path op k Q
      (query (.getOrCreateDocumentByPath user_id agent_id path) >>= f) m := by
  refine indexSafe_act fun m₁ hgrown₁ _ => ⟨_, _, Db.getOrCreate_eq m₁.state user_id agent_id path,
    .of_ensured _ m₁.state, h _ _ ⟨_, Db.rowAt_ensured m₁.state user_id agent_id path, rfl⟩ ?_⟩
  exact (hfresh.grown hgrown₁).cons rfl

/-- The file has no chunks once the task has deleted them. -/
theorem Emptied.start {d d' : StoredDocument} (hbecomes : Becomes d d' m.state db)
    (hrow : m.state.rowAt user_id agent_id path = some d) (hnone : d'.chunks = []) :
    Emptied user_id agent_id path k ⟨db, (k, .deleteChunks id) :: m.log⟩ := by
  intro _ row hrow'
  obtain rfl := Option.some.inj ((hbecomes.rowAt_eq hrow).symm.trans hrow')
  exact hnone

/-- An engine write keeps no version. -/
theorem maybeSaveVersion_skip (crates : Crates Re) (document_id : ℕ) (content : List Char)
    (changed_by : Option String) :
    maybeSaveVersion crates document_id content ⟨some true, some true, none, none⟩ changed_by =
      .done none := by
  rw [maybeSaveVersion]
  split <;> rfl

/-- The part of `write` for the paths of the engine runtime. -/
theorem indexSafe_writeRuntime (crates : Crates Re) (ws : Workspace) (doc : MemoryDocument)
    (content : List Char) (hop : writesRuntime path op.2 = true)
    (hruntime : isEngineRuntimePath path = true)
    (hknown : Known user_id agent_id path doc.id m) (hfresh : Fresh k m) :
    IndexSafe first user_id agent_id path op k (fun _ m' => Settled user_id agent_id path k m')
      (do
        query (.deleteChunks doc.id)
        if doc.content = content then return .ok (.document doc)
        else
          let skip_meta : DocumentMetadata := ⟨some true, some true, none, none⟩
          let _ ← maybeSaveVersion crates doc.id doc.content skip_meta (some ws.user_id)
          query (.updateDocument doc.id content)
          stored doc.id .document : StorageProg (Except WorkspaceError Outcome)) m := by
  refine indexSafe_act fun m₁ hgrown₁ _ => ⟨(), m₁.state.deleteChunks doc.id, rfl, ?_⟩
  obtain ⟨row₁, hrow₁, hid₁⟩ := hknown.grown hgrown₁
  have hbecomes₁ := becomes_modify (StoredDocument.sameFile_withChunks []) hrow₁ hid₁
  refine ⟨.of_becomes hbecomes₁ hrow₁ (fun _ => rfl) (fun _ _ => rfl)
    fun _ _ => .inr ⟨hruntime, rfl⟩, ?_⟩
  have hempty : Emptied user_id agent_id path k
      ⟨m₁.state.deleteChunks doc.id, (k, .deleteChunks doc.id) :: m₁.log⟩ :=
    .start hbecomes₁ hrow₁ rfl
  have hknown₁ : Known user_id agent_id path doc.id
      ⟨m₁.state.deleteChunks doc.id, (k, .deleteChunks doc.id) :: m₁.log⟩ :=
    ⟨_, hbecomes₁.rowAt_eq hrow₁, hbecomes₁.same.id.trans hid₁⟩
  have hfresh₁ : Fresh k
      ⟨m₁.state.deleteChunks doc.id, (k, .deleteChunks doc.id) :: m₁.log⟩ :=
    (hfresh.grown hgrown₁).cons rfl
  split
  · exact Protocol.safe_done hfresh₁.settled
  dsimp only
  rw [maybeSaveVersion_skip]
  refine indexSafe_act fun m₂ hgrown₂ hunraced =>
    ⟨(), m₂.state.updateDocument doc.id content, rfl, ?_⟩
  obtain ⟨row₂, hrow₂, hid₂⟩ := hknown₁.grown hgrown₂
  have hbecomes₂ := becomes_modify
    (StoredDocument.sameFile_withContent content m₂.state.now) hrow₂ hid₂
  -- nobody brought chunks since they were deleted
  have hnone : row₂.chunks = [] := by
    refine hempty.grown hknown₁ hgrown₂ (fun e he => ?_) row₂ hrow₂
    rw [unraced, hop, Bool.not_true, Bool.false_or] at hunraced
    simpa using List.all_eq_true.mp hunraced e he
  refine ⟨.of_becomes hbecomes₂ hrow₂ (fun hi => nomatch hi) (fun _ hnone => hnone)
    (fun hi => nomatch hi), indexSafe_stored .document fun _ => ?_⟩
  exact Advances.indexed_of_becomes hbecomes₂ hrow₂ (.inr ⟨hruntime, hnone⟩)

/-! ### The calls -/

/-- `write`. -/
theorem indexSafe_write (crates : Crates Re) (hinj : Function.Injective crates.contentSha256)
    {ws : Workspace} (hagent : ws.agent_id = agent_id) (p content : List Char)
    (hop : op.2 = .write p content) (hfresh : Fresh k m) :
    IndexSafe first ws.user_id agent_id (normalizePath p) op k
      (fun _ m' => Settled ws.user_id agent_id (normalizePath p) k m')
      (ws.write crates p content) m := by
  subst hagent
  rw [write]
  dsimp only
  split
  · exact Protocol.safe_done hfresh.settled
  refine indexSafe_getOrCreate hfresh fun doc m₁ hknown₁ hfresh₁ => ?_
  split
  case isTrue hruntime =>
    refine indexSafe_writeRuntime crates ws doc content ?_ hruntime hknown₁ hfresh₁
    rw [hop, writesRuntime]
    exact hruntime
  split
  · refine Protocol.Safe.bind ((indexSafe_resolve rfl hknown₁ hfresh₁).mono
      fun metadata m₂ hresolved => ?_)
    exact Protocol.Safe.bind ((indexSafe_reindex crates hinj ws hresolved.1).mono
      fun _ m₃ hsettled => Protocol.safe_done hsettled)
  · exact indexSafe_checked crates hinj rfl doc _ content hknown₁ hfresh₁
      fun m' hsettled => indexSafe_stored .document hsettled

/-- `append`. -/
theorem indexSafe_append (crates : Crates Re) (hinj : Function.Injective crates.contentSha256)
    {ws : Workspace} (hagent : ws.agent_id = agent_id) (p content : List Char)
    (hfresh : Fresh k m) :
    IndexSafe first ws.user_id agent_id (normalizePath p) op k
      (fun _ m' => Settled ws.user_id agent_id (normalizePath p) k m')
      (ws.append crates p content) m := by
  subst hagent
  rw [append]
  dsimp only
  split
  · exact Protocol.safe_done hfresh.settled
  refine indexSafe_getOrCreate hfresh fun doc m₁ hknown₁ hfresh₁ => ?_
  split
  · exact Protocol.safe_done hfresh₁.settled
  · exact indexSafe_checked crates hinj rfl doc _ _ hknown₁ hfresh₁
      fun m' hsettled => Protocol.safe_done hsettled

/-- `patch`. -/
theorem indexSafe_patch (crates : Crates Re) (hinj : Function.Injective crates.contentSha256)
    {ws : Workspace} (hagent : ws.agent_id = agent_id) (p old_string new_string : List Char)
    (replace_all : Bool) (hfresh : Fresh k m) :
    IndexSafe first ws.user_id agent_id (normalizePath p) op k
      (fun _ m' => Settled ws.user_id agent_id (normalizePath p) k m')
      (ws.patch crates p old_string new_string replace_all) m := by
  subst hagent
  rw [patch]
  split
  · exact Protocol.safe_done hfresh.settled
  refine indexSafe_read fun m₁ hgrown₁ => ⟨_, rfl, ?_⟩
  have hfresh₁ : Fresh k ⟨m₁.state, (k, .getDocumentByPath ws.user_id ws.agent_id
      (normalizePath p)) :: m₁.log⟩ := (hfresh.grown hgrown₁).cons rfl
  split
  case h_1 => exact Protocol.safe_done hfresh₁.settled
  case h_2 doc hdoc =>
    obtain ⟨row, hrow, rfl⟩ := Option.map_eq_some_iff.mp hdoc
    have hknown₁ : Known ws.user_id ws.agent_id (normalizePath p) row.id
        ⟨m₁.state, (k, .getDocumentByPath ws.user_id ws.agent_id (normalizePath p)) :: m₁.log⟩ :=
      ⟨row, hrow, rfl⟩
    split
    · exact Protocol.safe_done hfresh₁.settled
    dsimp only
    split
    · exact Protocol.safe_done hfresh₁.settled
    · exact indexSafe_checked crates hinj rfl row.toMemoryDocument _ _ hknown₁ hfresh₁
        fun m' hsettled => indexSafe_stored _ hsettled

/-- The layer writes. -/
theorem indexSafe_storeInLayer (crates : Crates Re)
    (hinj : Function.Injective crates.contentSha256) {ws : Workspace}
    (hagent : ws.agent_id = agent_id) (new_content : List Char → List Char) (layer_name : String)
    (p content : List Char) (force : Bool) {t : String × String × Bool}
    (ht : ws.resolveLayerTarget layer_name content force = .ok t) (hfresh : Fresh k m) :
    IndexSafe first t.1 agent_id (normalizePath p) op k
      (fun _ m' => Settled t.1 agent_id (normalizePath p) k m')
      (ws.storeInLayer crates new_content layer_name p content force) m := by
  subst hagent
  rw [storeInLayer, ht]
  dsimp only
  refine indexSafe_getOrCreate hfresh fun doc m₁ hknown₁ hfresh₁ => ?_
  exact indexSafe_checked crates hinj rfl doc _ _ hknown₁ hfresh₁
    fun m' hsettled => indexSafe_stored _ hsettled

/-- `append_memory`. -/
theorem indexSafe_appendMemory (crates : Crates Re)
    (hinj : Function.Injective crates.contentSha256) {ws : Workspace}
    (hagent : ws.agent_id = agent_id) (entry : List Char) (hfresh : Fresh k m) :
    IndexSafe first ws.user_id agent_id paths.MEMORY op k
      (fun _ m' => Settled ws.user_id agent_id paths.MEMORY k m')
      (ws.appendMemory crates entry) m := by
  subst hagent
  rw [appendMemory]
  refine indexSafe_getOrCreate hfresh fun doc m₁ hknown₁ hfresh₁ => ?_
  refine Protocol.Safe.bind ((indexSafe_resolve rfl hknown₁ hfresh₁).mono
    fun metadata m₂ hresolved => ?_)
  obtain ⟨h₂, hfresh₂⟩ := hresolved
  refine Protocol.Safe.bind ((indexSafe_persist crates hinj ws doc _ h₂ hfresh₂).mono
    fun r m₃ hsettled => ?_)
  split
  · exact Protocol.safe_done hsettled
  · exact Protocol.safe_done hsettled

theorem map_eq_ok {ε β γ : Type} {f : β → γ} {r : Except ε β} {c : γ} (h : r.map f = .ok c) :
    ∃ b, r = .ok b ∧ f b = c := by
  cases r with
  | error e => cases h
  | ok b => exact ⟨b, rfl, Except.ok.inj h⟩

theorem isOf_eq_true {ws : Workspace} {call : Call}
    (h : isOf user_id agent_id path (ws, call) = true) :
    ws.agent_id = agent_id ∧ call.target ws = .ok (user_id, path) := by
  rw [isOf, Bool.and_eq_true, decide_eq_true_iff] at h
  obtain ⟨hagent, htarget⟩ := h
  refine ⟨hagent, ?_⟩
  dsimp only at htarget
  split at htarget
  case h_1 t ht =>
    rw [Bool.and_eq_true, decide_eq_true_iff, decide_eq_true_iff] at htarget
    rw [ht, ← htarget.1, ← htarget.2]
  case h_2 => cases htarget

-- the elaborator would otherwise look into the scan of a path that is not known
attribute [local irreducible] scanned in
/-- **One call.** Among others on the same file it stays within what they rely on, and when it
returns the index follows its content, if that is the newest. -/
theorem indexSafe_code (crates : Crates Re) (hinj : Function.Injective crates.contentSha256)
    {ws : Workspace} {call : Call} (hof : isOf user_id agent_id path (ws, call) = true)
    (hfresh : Fresh k m) :
    IndexSafe first user_id agent_id path (ws, call) k
      (fun _ m' => Settled user_id agent_id path k m') (call.code crates ws) m := by
  obtain ⟨hagent, htarget⟩ := isOf_eq_true hof
  have hown {u : String} {p : List Char} (h : (.ok (u, p) : Except WorkspaceError _) =
      .ok (user_id, path)) : u = user_id ∧ p = path := Prod.mk.inj (Except.ok.inj h)
  cases call with
  | write p content =>
    obtain ⟨rfl, rfl⟩ := hown htarget
    exact indexSafe_write crates hinj hagent p content rfl hfresh
  | append p content =>
    obtain ⟨rfl, rfl⟩ := hown htarget
    exact indexSafe_append crates hinj hagent p content hfresh
  | patch p old_string new_string replace_all =>
    obtain ⟨rfl, rfl⟩ := hown htarget
    exact indexSafe_patch crates hinj hagent p old_string new_string replace_all hfresh
  | writeToLayer layer_name p content force =>
    obtain ⟨t, ht, htarget⟩ := map_eq_ok htarget
    obtain ⟨rfl, rfl⟩ := Prod.mk.inj htarget
    exact indexSafe_storeInLayer crates hinj hagent (fun _ => content) layer_name p content force
      ht hfresh
  | appendToLayer layer_name p content force =>
    obtain ⟨t, ht, htarget⟩ := map_eq_ok htarget
    obtain ⟨rfl, rfl⟩ := Prod.mk.inj htarget
    exact indexSafe_storeInLayer crates hinj hagent (joined ['\n', '\n'] · content) layer_name p
      content force ht hfresh
  | appendMemory entry =>
    obtain ⟨rfl, rfl⟩ := hown htarget
    exact indexSafe_appendMemory crates hinj hagent entry hfresh

/-! ### Runs -/

/-- The clock goes on. -/
theorem advances_env {elapsed : ℕ} {s : Db} (crates : Crates Re)
    (h : (indexSystem crates).env elapsed db = some s) :
    Advances user_id agent_id path [] db s := by
  obtain rfl := Option.some.inj h
  exact ⟨fun row hrow => ⟨row, hrow, rfl, fun _ => rfl, fun _ h => h⟩, fun _ _ _ => rfl,
    fun _ _ _ => rfl, fun _ h => h⟩

/-- A configuration of the calls. -/
abbrev IndexConf : Type :=
  Conf (Workspace × Call) StorageInstr StorageReply Db (Except WorkspaceError Outcome)

/-- In every run in which no task is raced, whoever stored the newest content leaves an index that
follows it. -/
theorem settled_of_reach (crates : Crates Re) (hinj : Function.Injective crates.contentSha256)
    {c : IndexConf} (h : (indexSystem crates).Reach
      (fun c m => unracedMove user_id agent_id path c m = true) (.idle first) c) :
    (indexProtocol first user_id agent_id path).inv c.toMemory ∧
      (∀ k t, c.tasks[k]? = some t → IndexSafe first user_id agent_id path t.op k
        (fun _ m => Settled user_id agent_id path k m) t.prog c.toMemory) ∧
      ∀ e ∈ c.log, e.1 < c.tasks.length := by
  have hreach := h.safe_fresh (P := indexProtocol first user_id agent_id path)
    (Q := fun _ k _ m => Settled user_id agent_id path k m)
    (fun _ k _ m m' hsettled hgrown => hsettled.grown hgrown) ?_ ?_ ?_ (fun hfirst _ => hfirst)
    ?_ (List.forall_mem_nil _)
  · exact ⟨hreach.1.1, hreach.1.2, hreach.2⟩
  · intro c k op i f hok htask
    rw [unracedMove, htask] at hok
    exact hok
  · intro c e s hinv _ henv
    have hadvances : Advances user_id agent_id path [] c.state s := advances_env crates henv
    exact ⟨fun hfirst hnone => hadvances.indexed (List.forall_mem_nil _) (hinv hfirst hnone),
      [], rfl, hadvances⟩
  · intro c op s hinv hok hstart
    obtain rfl := Option.some.inj hstart
    obtain ⟨ws, call⟩ := op
    refine ⟨hinv, ⟨[], rfl, .refl [] _⟩, fun hlog => indexSafe_code crates hinj hok ?_⟩
    exact fun e he hk => absurd hk (Nat.ne_of_lt (hlog e he))
  · intro k t ht
    cases ht

/-- **The index follows the content** once all calls have returned, in every run in which no task
is raced: if a content was stored, and otherwise if it did at the start. -/
theorem index_follows (crates : Crates Re) (hinj : Function.Injective crates.contentSha256)
    {c : IndexConf} (h : (indexSystem crates).Reach
      (fun c m => unracedMove user_id agent_id path c m = true) (.idle first) c)
    (hdone : c.returned = true)
    (hfirst : lastUpdate c.log = none → first.Indexed user_id agent_id path) :
    c.state.Indexed user_id agent_id path := by
  obtain ⟨hinv, hsafe, hlog⟩ := settled_of_reach crates hinj h
  cases hlast : lastUpdate c.log with
  | none =>
    refine hinv (hfirst hlast) fun e he => ?_
    have hnone := Option.map_eq_none_iff.mp hlast
    exact Bool.eq_false_iff.mpr (List.find?_eq_none.mp hnone e he)
  | some k =>
    obtain ⟨e, he, rfl⟩ := Option.map_eq_some_iff.mp hlast
    have hk := hlog e (List.mem_of_find?_eq_some he)
    have htask : c.tasks[e.1]? = some c.tasks[e.1] := List.getElem?_eq_getElem hk
    have hsettled := hsafe e.1 _ htask
    -- the task that stored it has returned
    obtain ⟨r, hprog⟩ := Task.exists_done
      (List.all_eq_true.mp hdone _ (List.mem_of_getElem? htask))
    rw [hprog] at hsettled
    exact hsettled hlast

/-- Two writes of one note: the first has stored its content when the second begins, and finds
another one when it reads again. -/
def overtaken : List (Move (Workspace × Call) ℕ) :=
  .start (.new "alice", .write "notes.md".toList "a".toList) ::
  .start (.new "alice", .write "notes.md".toList "b".toList) ::
  ([0, 0, 0, 0, 0, 1, 1, 1, 1, 1, 1, 0, 0, 1, 1, 1, 1].map .step)

theorem index_follows_overtaken : ∃ c,
    (indexSystem sampleCrates).play (.idle .empty) overtaken = some c ∧
      c.returned = true ∧ c.state.Indexed "alice" none "notes.md".toList := by
  have hplay : ((indexSystem sampleCrates).play (.idle .empty) overtaken).any
      (fun c => c.returned && (lastUpdate c.log).isSome) = true := by
    decide +kernel
  obtain ⟨c, hc, hdone⟩ := (Option.any_eq_true ..).mp hplay
  rw [Bool.and_eq_true] at hdone
  have hallowed : System.Allowed (indexSystem sampleCrates)
      (fun c m => unracedMove "alice" none "notes.md".toList c m = true) (.idle .empty)
      overtaken := by
    decide +kernel
  refine ⟨c, hc, hdone.1, index_follows sampleCrates (fun _ _ h => String.ofList_injective h)
    (System.Reach.init.of_play hallowed hc) hdone.1 fun hnone => ?_⟩
  rw [hnone] at hdone
  cases hdone.2

/-- If the move starts a call, it is one of these. -/
def Move.isStartOf {ω ε : Type} (p : ω → Bool) : Move ω ε → Bool
  | .start op => p op
  | _ => true

/-- The first write has read again when the second stores and indexes its content; then it
replaces the chunks. -/
def late : List (Move (Workspace × Call) ℕ) :=
  .start (.new "alice", .write "notes.md".toList "a".toList) ::
  .start (.new "alice", .write "notes.md".toList "b".toList) ::
  ([0, 0, 0, 0, 0, 0, 1, 1, 1, 1, 1, 1, 1, 1, 1, 1, 0, 0].map .step)

/-- The chunks of a content that is gone. -/
theorem late_not_indexed : ∃ c,
    (indexSystem sampleCrates).Reach
      (fun _ m => Move.isStartOf (isOf "alice" none "notes.md".toList) m = true) (.idle .empty) c ∧
    c.returned = true ∧ ¬ c.state.Indexed "alice" none "notes.md".toList := by
  have hplay : ((indexSystem sampleCrates).play (.idle .empty) late).any (fun c =>
      c.returned && decide ((c.state.rowAt "alice" none "notes.md".toList).map
        (fun row => (row.content, row.chunkTexts)) = some ("b".toList, ["a".toList])) &&
      decide ((c.state.metadataIn none "alice" "notes.md".toList).skip_indexing = none)) =
        true := by
    decide +kernel
  obtain ⟨c, hc, hend⟩ := (Option.any_eq_true ..).mp hplay
  simp only [Bool.and_eq_true, decide_eq_true_eq] at hend
  obtain ⟨⟨hdone, hrow⟩, hskip⟩ := hend
  have hallowed : System.Allowed (indexSystem sampleCrates)
      (fun _ m => Move.isStartOf (isOf "alice" none "notes.md".toList) m = true) (.idle .empty)
      late := by
    decide +kernel
  refine ⟨c, System.Reach.init.of_play hallowed hc, hdone, fun hindexed => ?_⟩
  obtain ⟨row, hrow, htexts⟩ := Option.map_eq_some_iff.mp hrow
  obtain ⟨hcontent, hchunks⟩ := Prod.mk.inj htexts
  obtain hfollows | ⟨hruntime, -⟩ := hindexed row hrow
  · rw [hchunks, hcontent, indexTexts, hskip] at hfollows
    exact absurd hfollows (by decide +kernel)
  · exact absurd hruntime (by decide +kernel)

end T3Claw.Workspace
