import T3Claw.Conc.Relational
import T3Claw.Workspace.Calls

/-!
# Reading a workspace

`workspace/mod.rs`: `read`, `read_primary`, `read_or_create` and the system prompt that is put
together from the documents of a workspace. Which scope a document may come from is decided by
each of them: the identity files by the primary scope alone, the memory files by every scope the
workspace reads, and the instructions of the administrator by a scope of their own.
-/

namespace T3Claw

namespace Workspace

open Conc Conc.Prog

/-- Well-known scope identifier for admin-defined content. -/
def ADMIN_SCOPE : String := "__admin__"

/-! ### Reading a path -/

/-- `get_document_by_path_multi`: the scopes are asked in turn. -/
def getDocumentByPathMulti (agent_id : Option ℕ) (path : List Char) :
    List String → StorageProg (Option MemoryDocument)
  | [] => pure none
  | uid :: rest => do
    match ← query (.getDocumentByPath uid agent_id path) with
    | some doc => pure (some doc)
    | none => getDocumentByPathMulti agent_id path rest

section

variable (ws : Workspace)

/-- `read_user_ids`. -/
def readUserIds : List String := ws.user_id :: ws.additional_read_scopes

/-- `is_multi_scope`. -/
def isMultiScope : Bool := 1 < ws.readUserIds.length

/-- `read`, `none` when the document is not found. -/
def read (path : List Char) : StorageProg (Option MemoryDocument) :=
  let path := normalizePath path
  if ws.isMultiScope && isIdentityPath path then
    query (.getDocumentByPath ws.user_id ws.agent_id path)
  else if ws.isMultiScope then getDocumentByPathMulti ws.agent_id path ws.readUserIds
  else query (.getDocumentByPath ws.user_id ws.agent_id path)

/-- `read_primary`. -/
def readPrimary (path : List Char) : StorageProg (Option MemoryDocument) :=
  query (.getDocumentByPath ws.user_id ws.agent_id (normalizePath path))

/-- `read_or_create`. -/
def readOrCreate (path : List Char) : StorageProg MemoryDocument := do
  let found ← (if ws.isMultiScope then
    getDocumentByPathMulti ws.agent_id path ws.readUserIds else pure none)
  match found with
  | some doc => pure doc
  | none => query (.getOrCreateDocumentByPath ws.user_id ws.agent_id path)

end

/-- The first scope that has the file decides. -/
theorem run_getDocumentByPathMulti (agent_id : Option ℕ) (path : List Char)
    (uids : List String) (db : Db) :
    (getDocumentByPathMulti agent_id path uids).run storageMachine db =
      (uids.findSome? fun uid => db.getDocumentByPath uid agent_id path, db) := by
  induction uids with
  | nil => rfl
  | cons uid rest ih =>
    simp only [getDocumentByPathMulti, perform_bind, run_act, storageMachine, storageExec,
      List.findSome?_cons]
    cases hget : db.getDocumentByPath uid agent_id path with
    | some doc => rfl
    | none => exact ih

/-- Reading writes nothing. -/
theorem run_read_snd (ws : Workspace) (path : List Char) (db : Db) :
    ((ws.read path).run storageMachine db).2 = db := by
  simp only [read]
  split
  · rfl
  · split
    · rw [run_getDocumentByPathMulti]
    · rfl

/-! ### The system prompt -/

/-- What the prompt is put together with besides the documents: the shared cache of the admin
prompt, the date, how a date is written, and what is made of a profile, `none` when the document
is not one. -/
structure PromptWorld where
  admin_prompt_cache : Option (List Char)
  today : ℤ
  formatDate : ℤ → List Char
  profileParts : List Char → Option (List (List Char))
  profile_schema : List Char

/-- A part of the prompt, unless the document is missing or empty. -/
def promptSection (header : String) (doc : Option MemoryDocument) : List (List Char) :=
  match doc with
  | some doc => if doc.content = [] then [] else [header.toList ++ "\n\n".toList ++ doc.content]
  | none => []

section

variable (w : PromptWorld) (ws : Workspace)

/-- `daily_log`. -/
def dailyLog (date : ℤ) : StorageProg MemoryDocument :=
  ws.readOrCreate ("daily/".toList ++ w.formatDate date ++ ".md".toList)

/-- `read_admin_prompt`, the part of the prompt it makes. -/
def readAdminPrompt : StorageProg (List (List Char)) := do
  match w.admin_prompt_cache with
  | some content =>
    pure (if content = [] then [] else ["## System Instructions\n\n".toList ++ content])
  | none =>
    let doc ← query (.getDocumentByPath ADMIN_SCOPE none paths.SYSTEM)
    pure (promptSection "## System Instructions" doc)

/-- The bootstrap ritual; suppressed once the onboarding was completed. -/
def bootstrapPart : StorageProg (List (List Char)) := do
  let doc ← ws.readPrimary paths.BOOTSTRAP
  pure (if ws.bootstrap_completed then [] else promptSection "## First-Run Bootstrap" doc)

/-- The files that must come from the primary scope, in order of importance. -/
def primaryFiles : List (List Char × String) :=
  [(paths.AGENTS, "## Agent Instructions"), (paths.SOUL, "## Core Values"),
    (paths.USER, "## User Context"), (paths.IDENTITY, "## Identity"),
    (paths.TOOLS, "## Tool Notes")]

/-- The parts of the primary files. -/
def primaryParts : List (List Char × String) → StorageProg (List (List Char))
  | [] => pure []
  | (path, header) :: rest => do
    let doc ← ws.readPrimary path
    let parts ← primaryParts rest
    pure (promptSection header doc ++ parts)

/-- The last two days of daily logs. -/
def dailyParts : List ℤ → StorageProg (List (List Char))
  | [] => pure []
  | date :: rest => do
    let doc ← ws.dailyLog w date
    let header := if date = w.today then "## Today's Notes" else "## Yesterday's Notes"
    let parts ← dailyParts rest
    pure (promptSection header (some doc) ++ parts)

/-- The parts of the profile: what it asks for, or its schema while the ritual goes on without
one. -/
def profilePart (bootstrap_injected : Bool) : StorageProg (List (List Char)) := do
  let doc ← ws.read paths.PROFILE
  let content := ((doc.map (·.content)).getD [])
  pure (match if content = [] then none else w.profileParts content with
    | some parts => parts
    | none => if bootstrap_injected then [w.profile_schema] else [])

/-- The parts that are left out of group chats. -/
def personalParts (bootstrap_injected : Bool) : StorageProg (List (List Char)) := do
  let profile ← ws.profilePart w bootstrap_injected
  let directives ← ws.read paths.ASSISTANT_DIRECTIVES
  let content := ((directives.map (·.content)).getD [])
  pure (profile ++ if content = [] then [] else [content])

/-- `system_prompt_for_context`. -/
def systemPromptForContext (is_group_chat : Bool) : StorageProg (List Char) := do
  let bootstrap ← ws.bootstrapPart
  let admin ← (if ws.admin_prompt_enabled then readAdminPrompt w else pure [])
  let primary ← ws.primaryParts primaryFiles
  let memory ← (if is_group_chat then pure [] else do
    let doc ← ws.read paths.MEMORY
    pure (promptSection "## Long-Term Memory" doc))
  let daily ← ws.dailyParts w [w.today, w.today - 1]
  let personal ←
    (if is_group_chat then pure [] else ws.personalParts w !bootstrap.isEmpty)
  let parts := bootstrap ++ admin ++ primary ++ memory ++ daily ++ personal
  pure ("\n\n---\n\n".toList.intercalate parts)

/-- `system_prompt`. -/
def systemPrompt : StorageProg (List Char) := ws.systemPromptForContext w false

end

/-! ### What a reader may see -/

/-- The content of the file at a path of a scope. -/
def Db.content? (db : Db) (scope : String) (agent_id : Option ℕ) (path : List Char) :
    Option (List Char) :=
  (db.getDocumentByPath scope agent_id path).map (·.content)

/-- The tables agree on the files of some scopes and on the instructions of the administrator. -/
structure AgreeOn (scopes : List String) (db db' : Db) : Prop where
  own : ∀ scope ∈ scopes, ∀ agent_id path,
    db.content? scope agent_id path = db'.content? scope agent_id path
  admin : db.content? ADMIN_SCOPE none paths.SYSTEM = db'.content? ADMIN_SCOPE none paths.SYSTEM

/-- Making sure of a file gives it the content it had, or none. -/
theorem content?_ensured (db : Db) (user_id : String) (agent_id : Option ℕ) (path : List Char)
    (scope : String) (agent_id' : Option ℕ) (path' : List Char) :
    (db.ensured user_id agent_id path).content? scope agent_id' path' =
      if scope = user_id ∧ agent_id' = agent_id ∧ path' = path then
        some ((db.content? user_id agent_id path).getD [])
      else db.content? scope agent_id' path' := by
  split
  case isTrue h =>
    obtain ⟨rfl, rfl, rfl⟩ := h
    rw [Db.content?, Db.getDocumentByPath, Db.rowAt_ensured, Db.target, Db.content?,
      Db.getDocumentByPath]
    cases db.rowAt scope agent_id' path' <;> rfl
  case isFalse h =>
    rw [Db.content?, Db.content?, Db.getDocumentByPath, Db.getDocumentByPath]
    cases hrow : db.rowAt user_id agent_id path with
    | some d => rw [Db.ensured_of_some hrow]
    | none =>
      have hat : ¬ StoredDocument.IsAt scope agent_id' path' (db.newRow user_id agent_id path) :=
        fun hat => h ⟨hat.1.symm, hat.2.1.symm, hat.2.2.symm⟩
      have hsame : (db.ensured user_id agent_id path).rowAt scope agent_id' path' =
          db.rowAt scope agent_id' path' := by
        rw [Db.rowAt, Db.values_ensured_of_none hrow, List.find?_append, ← Db.rowAt]
        simp [hat]
      rw [hsame]

/-- Two documents that read the same. -/
def SameContent (d d' : Option MemoryDocument) : Prop := d.map (·.content) = d'.map (·.content)

theorem promptSection_congr {header : String} {d d' : Option MemoryDocument}
    (h : SameContent d d') : promptSection header d = promptSection header d' := by
  cases d <;> cases d' <;> simp_all [SameContent, promptSection]

section

variable {scopes : List String}

theorem alike_get {scope : String} (h : scope ∈ scopes) (agent_id : Option ℕ)
    (path : List Char) : Alike storageMachine (AgreeOn scopes) SameContent
      (query (.getDocumentByPath scope agent_id path))
      (query (.getDocumentByPath scope agent_id path)) :=
  alike_perform fun _ _ hr => ⟨hr.own scope h agent_id path, hr⟩

theorem alike_getOrCreate {scope : String} (h : scope ∈ scopes) (agent_id : Option ℕ)
    (path : List Char) : Alike storageMachine (AgreeOn scopes) (fun d d' => d.content = d'.content)
      (query (.getOrCreateDocumentByPath scope agent_id path))
      (query (.getOrCreateDocumentByPath scope agent_id path)) := by
  refine alike_perform fun db db' hr => ?_
  have hown := hr.own scope h agent_id path
  have htarget (db : Db) : (db.target scope agent_id path).content =
      (db.content? scope agent_id path).getD [] := by
    rw [Db.target, Db.content?, Db.getDocumentByPath]
    cases db.rowAt scope agent_id path <;> rfl
  have hexec (db : Db) : storageMachine.exec (.getOrCreateDocumentByPath scope agent_id path) db =
      ((db.target scope agent_id path).toMemoryDocument, db.ensured scope agent_id path) :=
    db.getOrCreate_eq scope agent_id path
  rw [hexec, hexec]
  refine ⟨?_, fun other hother agent_id' path' => ?_, ?_⟩
  · show (db.target scope agent_id path).content = (db'.target scope agent_id path).content
    rw [htarget, htarget, hown]
  · rw [content?_ensured, content?_ensured, hown, hr.own other hother]
  · rw [content?_ensured, content?_ensured, hown, hr.admin]

theorem alike_multi (agent_id : Option ℕ) (path : List Char) {uids : List String}
    (h : ∀ uid ∈ uids, uid ∈ scopes) : Alike storageMachine (AgreeOn scopes) SameContent
      (getDocumentByPathMulti agent_id path uids) (getDocumentByPathMulti agent_id path uids) := by
  induction uids with
  | nil => exact alike_done rfl
  | cons uid rest ih =>
    have hrest := ih fun other hother => h other (List.mem_cons_of_mem _ hother)
    refine (alike_get (h uid List.mem_cons_self) agent_id path).bind fun d d' hd => ?_
    cases d <;> cases d' <;> first | exact hrest | exact alike_done hd | simp [SameContent] at hd

variable {ws : Workspace} (hws : ∀ uid ∈ ws.readUserIds, uid ∈ scopes)

include hws

theorem alike_readPrimary (path : List Char) :
    Alike storageMachine (AgreeOn scopes) SameContent (ws.readPrimary path)
      (ws.readPrimary path) :=
  alike_get (hws _ List.mem_cons_self) _ _

/-- What is read at a path depends on the scopes that are read only. -/
theorem alike_read (path : List Char) :
    Alike storageMachine (AgreeOn scopes) SameContent (ws.read path) (ws.read path) := by
  have hprimary := alike_get (hws ws.user_id List.mem_cons_self) ws.agent_id (normalizePath path)
  simp only [read]
  split
  · exact hprimary
  · split
    · exact alike_multi _ _ hws
    · exact hprimary

theorem alike_readOrCreate (path : List Char) :
    Alike storageMachine (AgreeOn scopes) (fun d d' => d.content = d'.content)
      (ws.readOrCreate path) (ws.readOrCreate path) := by
  have hfound : Alike storageMachine (AgreeOn scopes) SameContent
      (if ws.isMultiScope then getDocumentByPathMulti ws.agent_id path ws.readUserIds
        else pure none)
      (if ws.isMultiScope then getDocumentByPathMulti ws.agent_id path ws.readUserIds
        else pure none) := by
    split
    · exact alike_multi _ _ hws
    · exact alike_done rfl
  refine hfound.bind fun d d' hd => ?_
  cases d <;> cases d' <;> simp only [SameContent, Option.map_none, Option.map_some,
    Option.some.injEq, reduceCtorEq] at hd
  · exact alike_getOrCreate (hws _ List.mem_cons_self) _ _
  · exact alike_done hd

variable (w : PromptWorld)

theorem alike_bootstrapPart :
    Alike storageMachine (AgreeOn scopes) Eq ws.bootstrapPart ws.bootstrapPart :=
  (alike_readPrimary hws _).map fun _ _ h => by rw [promptSection_congr h]

theorem alike_primaryParts (files : List (List Char × String)) :
    Alike storageMachine (AgreeOn scopes) Eq (ws.primaryParts files) (ws.primaryParts files) := by
  induction files with
  | nil => exact alike_done rfl
  | cons file rest ih =>
    exact (alike_readPrimary hws _).bind fun d d' hd =>
      ih.map fun _ _ h => by rw [promptSection_congr hd, h]

theorem alike_dailyParts (dates : List ℤ) :
    Alike storageMachine (AgreeOn scopes) Eq (ws.dailyParts w dates) (ws.dailyParts w dates) := by
  induction dates with
  | nil => exact alike_done rfl
  | cons date rest ih =>
    refine (alike_readOrCreate hws _).bind fun d d' hd => ih.map fun _ _ h => ?_
    have hsome : SameContent (some d) (some d') := congrArg some hd
    rw [promptSection_congr hsome, h]

theorem alike_personalParts (bootstrap_injected : Bool) :
    Alike storageMachine (AgreeOn scopes) Eq (ws.personalParts w bootstrap_injected)
      (ws.personalParts w bootstrap_injected) := by
  have hprofile : Alike storageMachine (AgreeOn scopes) Eq (ws.profilePart w bootstrap_injected)
      (ws.profilePart w bootstrap_injected) :=
    (alike_read hws _).map fun d d' h => by rw [show d.map (·.content) = d'.map (·.content) from h]
  exact hprofile.bind fun profile profile' hp =>
    (alike_read hws _).map fun d d' h => by
      rw [hp, show d.map (·.content) = d'.map (·.content) from h]

/-- The system prompt depends on the scopes that are read, and on the instructions of the
administrator. -/
theorem alike_systemPrompt :
    Alike storageMachine (AgreeOn scopes) Eq (ws.systemPrompt w) (ws.systemPrompt w) := by
  have hadmin : Alike storageMachine (AgreeOn scopes) Eq
      (if ws.admin_prompt_enabled then readAdminPrompt w else pure [])
      (if ws.admin_prompt_enabled then readAdminPrompt w else pure []) := by
    split
    · unfold readAdminPrompt
      split
      · exact alike_done rfl
      · exact (alike_perform fun _ _ hr => ⟨hr.admin, hr⟩).map
          fun _ _ (h : SameContent _ _) => promptSection_congr h
    · exact alike_done rfl
  have hmemory : Alike storageMachine (AgreeOn scopes) Eq
      (ws.read paths.MEMORY >>= fun doc => pure (promptSection "## Long-Term Memory" doc))
      (ws.read paths.MEMORY >>= fun doc => pure (promptSection "## Long-Term Memory" doc)) :=
    (alike_read hws _).map fun _ _ h => promptSection_congr h
  refine (alike_bootstrapPart hws).bind fun bootstrap _ hb => hadmin.bind fun admin _ ha =>
    (alike_primaryParts hws _).bind fun primary _ hp => hmemory.bind fun memory _ hm =>
      (alike_dailyParts hws w _).bind fun daily _ hd => ?_
  subst hb ha hp hm hd
  exact (alike_personalParts hws w _).map fun _ _ h => by rw [h]

end

end Workspace

end T3Claw
