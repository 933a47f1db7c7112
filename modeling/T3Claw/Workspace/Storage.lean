import T3Claw.Conc.Program
import T3Claw.Data.KeyedStore
import T3Claw.Workspace.Document

/-!
# The workspace storage

The tables of `db/libsql/workspace.rs` and `workspace/repository.rs`: the documents, and with each
of them the rows that refer to it, its chunks and its versions. An operation of the storage is one
instruction and happens at once; the programs of the workspace are cut at them.
-/

namespace T3Claw.Workspace

open Conc

/-- A document with its chunks, by index, and its versions, in numeric order. -/
structure StoredDocument extends MemoryDocument where
  chunks : List MemoryChunk
  versions : List DocumentVersion

/-- What holds the tables. -/
inductive Backend where
  | postgres
  | libsql

/-- `path LIKE '%/.config'`: the `LIKE` of SQLite ignores the case of ASCII letters. -/
def Backend.LikesConfig (backend : Backend) (path : List Char) : Prop :=
  ('/' :: CONFIG_FILE_NAME) <:+ match backend with
    | .postgres => path
    | .libsql => path.map Char.toLower

instance (backend : Backend) : DecidablePred backend.LikesConfig :=
  fun _ => inferInstanceAs (Decidable (_ <:+ _))

/-- The tables. An id that is given out was not in use; `now` is the clock. -/
structure Db where
  backend : Backend
  documents : KeyedStore ℕ StoredDocument (·.id)
  next_id : ℕ
  now : ℕ
  fresh : ∀ d ∈ documents, d.id < next_id

namespace StoredDocument

/-- The row is the file at a path of a scope. -/
def IsAt (user_id : String) (agent_id : Option ℕ) (path : List Char) (d : StoredDocument) : Prop :=
  d.user_id = user_id ∧ d.agent_id = agent_id ∧ d.path = path

instance (user_id : String) (agent_id : Option ℕ) (path : List Char) :
    DecidablePred (IsAt user_id agent_id path) :=
  fun _ => inferInstanceAs (Decidable (_ ∧ _ ∧ _))

/-- What an operation does to a row leaves it the row of the same file. -/
structure SameFile (f : StoredDocument → StoredDocument) : Prop where
  id : ∀ d, (f d).id = d.id
  user_id : ∀ d, (f d).user_id = d.user_id
  agent_id : ∀ d, (f d).agent_id = d.agent_id
  path : ∀ d, (f d).path = d.path
  metadata : ∀ d, (f d).metadata = d.metadata

/-- The number of the next version: `COALESCE(MAX(version), 0) + 1`. -/
def nextVersion (d : StoredDocument) : ℕ := (d.versions.map (·.version)).foldr max 0 + 1

/-- `UPDATE memory_documents SET content`. -/
def withContent (content : List Char) (now : ℕ) (d : StoredDocument) : StoredDocument :=
  { d with content := content, updated_at := now }

/-- The chunks of the row are replaced. -/
def withChunks (chunks : List MemoryChunk) (d : StoredDocument) : StoredDocument :=
  { d with chunks := chunks }

/-- `INSERT INTO memory_document_versions`. -/
def withVersion (content : List Char) (hash : String) (changed_by : Option String)
    (d : StoredDocument) : StoredDocument :=
  { d with versions := d.versions ++ [⟨d.nextVersion, content, hash, changed_by⟩] }

theorem sameFile_withContent (content : List Char) (now : ℕ) :
    SameFile (withContent content now) :=
  ⟨fun _ => rfl, fun _ => rfl, fun _ => rfl, fun _ => rfl, fun _ => rfl⟩

theorem sameFile_withChunks (chunks : List MemoryChunk) : SameFile (withChunks chunks) :=
  ⟨fun _ => rfl, fun _ => rfl, fun _ => rfl, fun _ => rfl, fun _ => rfl⟩

theorem sameFile_withVersion (content : List Char) (hash : String) (changed_by : Option String) :
    SameFile (withVersion content hash changed_by) :=
  ⟨fun _ => rfl, fun _ => rfl, fun _ => rfl, fun _ => rfl, fun _ => rfl⟩

end StoredDocument

open StoredDocument

namespace Db

/-- The tables before anything was stored. -/
def empty : Db := ⟨.postgres, .empty, 0, 0, fun _ hd => nomatch hd⟩

/-- A row is rewritten. -/
def modify (db : Db) (id : ℕ) (f : StoredDocument → StoredDocument) (hf : SameFile f) : Db where
  backend := db.backend
  documents := db.documents.modify id f hf.id
  next_id := db.next_id
  now := db.now
  fresh := by
    intro d hd
    obtain ⟨a, ha, rfl⟩ := (KeyedStore.mem_modify hf.id).mp hd
    have hid : (if a.id = id then f a else a).id = a.id := by
      split
      · exact hf.id a
      · rfl
    rw [hid]
    exact db.fresh a ha

/-- The row of the file at a path. -/
def rowAt (db : Db) (user_id : String) (agent_id : Option ℕ) (path : List Char) :
    Option StoredDocument :=
  db.documents.values.find? (IsAt user_id agent_id path ·)

/-- `get_document_by_path`. -/
def getDocumentByPath (db : Db) (user_id : String) (agent_id : Option ℕ) (path : List Char) :
    Option MemoryDocument :=
  (db.rowAt user_id agent_id path).map (·.toMemoryDocument)

/-- `get_document_by_id`. -/
def getDocumentById (db : Db) (id : ℕ) : Option MemoryDocument :=
  (db.documents.get? id).map (·.toMemoryDocument)

/-- The row of a file that is created. -/
def newRow (db : Db) (user_id : String) (agent_id : Option ℕ) (path : List Char) :
    StoredDocument :=
  ⟨⟨db.next_id, user_id, agent_id, path, [], db.now, .obj []⟩, [], []⟩

/-- A file is created, empty. -/
def create (db : Db) (user_id : String) (agent_id : Option ℕ) (path : List Char) : Db where
  backend := db.backend
  documents := db.documents.insert (db.newRow user_id agent_id path)
  next_id := db.next_id + 1
  now := db.now
  fresh := by
    intro d hd
    obtain rfl | ⟨hd, -⟩ := KeyedStore.mem_insert.mp hd
    · exact Nat.lt_succ_self _
    · exact Nat.lt_succ_of_lt (db.fresh d hd)

/-- `get_or_create_document_by_path`. -/
def getOrCreateDocumentByPath (db : Db) (user_id : String) (agent_id : Option ℕ)
    (path : List Char) : MemoryDocument × Db :=
  match db.rowAt user_id agent_id path with
  | some d => (d.toMemoryDocument, db)
  | none => ((db.newRow user_id agent_id path).toMemoryDocument, db.create user_id agent_id path)

/-- `update_document`. -/
def updateDocument (db : Db) (id : ℕ) (content : List Char) : Db :=
  db.modify id (withContent content db.now) (sameFile_withContent content db.now)

/-- `delete_chunks`. -/
def deleteChunks (db : Db) (id : ℕ) : Db := db.modify id (withChunks []) (sameFile_withChunks [])

/-- `replace_chunks`, the chunks getting new ids. -/
def replaceChunks (db : Db) (id : ℕ) (writes : List ChunkWrite) : Db :=
  let chunks := writes.mapIdx fun index write => ⟨write, db.next_id + index⟩
  let db := db.modify id (withChunks chunks) (sameFile_withChunks chunks)
  { db with
    next_id := db.next_id + writes.length
    fresh := fun d hd => Nat.lt_add_right _ (db.fresh d hd) }

/-- `find_config_documents`. -/
def findConfigDocuments (db : Db) (user_id : String) (agent_id : Option ℕ) :
    List MemoryDocument :=
  (db.documents.values.filter fun d => d.user_id = user_id ∧ d.agent_id = agent_id ∧
    (db.backend.LikesConfig d.path ∨ d.path = CONFIG_FILE_NAME)).map (·.toMemoryDocument)

/-- `list_versions`: the newest first. -/
def listVersions (db : Db) (id limit : ℕ) : List DocumentVersion :=
  ((db.documents.get? id).elim [] (·.versions)).reverse.take limit

/-- `save_version`: it answers the number of the version. -/
def saveVersion (db : Db) (id : ℕ) (content : List Char) (hash : String)
    (changed_by : Option String) : ℕ × Db :=
  ((db.documents.get? id).elim 1 nextVersion,
    db.modify id (withVersion content hash changed_by)
      (sameFile_withVersion content hash changed_by))

end Db

/-! ### Instructions -/

/-- The operations of the storage that the write paths use. -/
inductive StorageInstr where
  | getDocumentByPath (user_id : String) (agent_id : Option ℕ) (path : List Char)
  | getDocumentById (id : ℕ)
  | getOrCreateDocumentByPath (user_id : String) (agent_id : Option ℕ) (path : List Char)
  | updateDocument (id : ℕ) (content : List Char)
  | deleteChunks (id : ℕ)
  | replaceChunks (id : ℕ) (writes : List ChunkWrite)
  | findConfigDocuments (user_id : String) (agent_id : Option ℕ)
  | listVersions (id limit : ℕ)
  | saveVersion (id : ℕ) (content : List Char) (hash : String) (changed_by : Option String)

/-- What each of them answers. -/
abbrev StorageReply : StorageInstr → Type
  | .getDocumentByPath .. => Option MemoryDocument
  | .getDocumentById _ => Option MemoryDocument
  | .getOrCreateDocumentByPath .. => MemoryDocument
  | .findConfigDocuments .. => List MemoryDocument
  | .listVersions .. => List DocumentVersion
  | .saveVersion .. => ℕ
  | _ => Unit

/-- What an instruction answers and does. -/
def storageExec : (i : StorageInstr) → Db → StorageReply i × Db
  | .getDocumentByPath user_id agent_id path, db =>
    (db.getDocumentByPath user_id agent_id path, db)
  | .getDocumentById id, db => (db.getDocumentById id, db)
  | .getOrCreateDocumentByPath user_id agent_id path, db =>
    db.getOrCreateDocumentByPath user_id agent_id path
  | .updateDocument id content, db => ((), db.updateDocument id content)
  | .deleteChunks id, db => ((), db.deleteChunks id)
  | .replaceChunks id writes, db => ((), db.replaceChunks id writes)
  | .findConfigDocuments user_id agent_id, db => (db.findConfigDocuments user_id agent_id, db)
  | .listVersions id limit, db => (db.listVersions id limit, db)
  | .saveVersion id content hash changed_by, db => db.saveVersion id content hash changed_by

/-- The storage as a machine; none of its operations waits. -/
def storageMachine : Machine StorageInstr StorageReply Db where
  exec := storageExec

/-- A program over the storage. -/
abbrev StorageProg (α : Type) : Type := Prog StorageInstr StorageReply α

/-- The program that is one operation. -/
abbrev query (i : StorageInstr) : StorageProg (StorageReply i) := Prog.perform i

end T3Claw.Workspace
