import T3Claw.Routines.Types
import T3Claw.Workspace.Read

/-!
# The workspace a routine runs in

Each way of firing a routine makes an `EngineContext` for the run, and with it decides whose
documents the run reads: the context paths, the state of earlier runs and the system prompt
(`execute_lightweight`). What is made of the readings afterwards, the prompt and the calls of the
model, adds nothing to what they depend on and is left out.
-/

namespace T3Claw.Routines

open Conc Conc.Prog Workspace

/-! ### The context of a run -/

/-- `EngineContext`, as far as it decides what a run reads. -/
structure EngineContext where
  workspace : Workspace

/-- `workspace_for_user`. -/
def workspaceForUser (user_id : String) : Workspace := .new user_id

/-- The context `spawn_fire` makes, for events, system events and the schedule. -/
def spawnFireContext (engine : Workspace) (routine : Routine) : EngineContext :=
  ⟨if routine.user_id = engine.user_id then engine else workspaceForUser routine.user_id⟩

/-- The context `fire_manual` makes. -/
def fireManualContext (engine : Workspace) (routine : Routine) : EngineContext :=
  ⟨if routine.user_id = engine.user_id then engine else workspaceForUser routine.user_id⟩

/-- The context `fire_webhook` makes: the workspace of the engine, whoever owns the routine. -/
def fireWebhookContext (engine : Workspace) (_routine : Routine) : EngineContext := ⟨engine⟩

/-- The ways a routine is fired. -/
inductive Entry where
  | event
  | systemEvent
  | cron
  | webhook
  | manual
  deriving DecidableEq

/-- The context `execute_routine` is given. -/
def Entry.context (engine : Workspace) (routine : Routine) : Entry → EngineContext
  | event | systemEvent | cron => spawnFireContext engine routine
  | manual => fireManualContext engine routine
  | webhook => fireWebhookContext engine routine

/-! ### What a run reads -/

/-- What `execute_lightweight` reads of the workspace. -/
structure LightweightReading where
  context_parts : List (List Char)
  state_content : Option (List Char)
  system_prompt : List Char

/-- `sanitize_routine_name`. -/
def sanitizeRoutineName (name : List Char) : List Char :=
  name.map fun c => if c.isAlphanum || c = '-' || c = '_' then c else '_'

/-- The file the state of a routine is kept in. -/
def statePath (routine : Routine) : List Char :=
  "routines/".toList ++ sanitizeRoutineName routine.name.toList ++ "/state.md".toList

/-- The context paths in turn; one that is not found is passed over. -/
def contextParts (workspace : Workspace) : List String → StorageProg (List (List Char))
  | [] => pure []
  | path :: rest => do
    let doc ← workspace.read path.toList
    let parts ← contextParts workspace rest
    pure ((doc.map fun doc => "## ".toList ++ path.toList ++ "\n\n".toList ++ doc.content).toList
      ++ parts)

/-- The reads of `execute_lightweight`. -/
def lightweightReading (w : PromptWorld) (ctx : EngineContext) (routine : Routine)
    (context_paths : List String) : StorageProg LightweightReading := do
  let context_parts ← contextParts ctx.workspace context_paths
  let state ← ctx.workspace.read (statePath routine)
  let system_prompt ← ctx.workspace.systemPrompt w
  pure ⟨context_parts, state.map (·.content), system_prompt⟩

/-- What a run reads of the workspace; a job that is dispatched reads nothing here. -/
def reading (w : PromptWorld) (ctx : EngineContext) (routine : Routine) :
    StorageProg (Option LightweightReading) :=
  match routine.action with
  | .lightweight _ context_paths _ _ _ => do
    let read ← lightweightReading w ctx routine context_paths
    pure (some read)
  | .fullJob .. => pure none

/-- The run reads at all. -/
def isLightweight (routine : Routine) : Bool :=
  match routine.action with
  | .lightweight .. => true
  | .fullJob .. => false

/-! ### Independence -/

/-- The run is given the workspace of the routine's owner. -/
def RunsAsOwner (engine : Workspace) (routine : Routine) (entry : Entry) : Prop :=
  (entry.context engine routine).workspace.user_id = routine.user_id

/-- What the run reads is the same for any two tables that agree on the scopes. -/
def ReadsOnly (w : PromptWorld) (engine : Workspace) (routine : Routine) (entry : Entry)
    (scopes : List String) : Prop :=
  ∀ db db', AgreeOn scopes db db' →
    ((reading w (entry.context engine routine) routine).run storageMachine db).1 =
      ((reading w (entry.context engine routine) routine).run storageMachine db').1

/-- The scopes of a user's workspace: those the workspace of the engine was configured with, for
its own user, and else the user's own. -/
def scopesOf (engine : Workspace) (user_id : String) : List String :=
  if user_id = engine.user_id then engine.readUserIds else [user_id]

theorem alike_contextParts {scopes : List String} {workspace : Workspace}
    (hws : ∀ uid ∈ workspace.readUserIds, uid ∈ scopes) (paths : List String) :
    Alike storageMachine (AgreeOn scopes) Eq (contextParts workspace paths)
      (contextParts workspace paths) := by
  induction paths with
  | nil => exact alike_done rfl
  | cons path rest ih =>
    refine (alike_read hws _).bind fun d d' hd => ih.map fun parts parts' hparts => ?_
    have hcontent : d.map (·.content) = d'.map (·.content) := hd
    cases d <;> cases d' <;> simp_all

/-- A run reads the scopes of the workspace it is given. -/
theorem readsOnly_of_scopes (w : PromptWorld) {engine : Workspace} {routine : Routine}
    {entry : Entry} {scopes : List String}
    (h : ∀ uid ∈ (entry.context engine routine).workspace.readUserIds, uid ∈ scopes) :
    ReadsOnly w engine routine entry scopes := by
  intro db db' hdb
  suffices halike : Alike storageMachine (AgreeOn scopes) Eq
      (reading w (entry.context engine routine) routine)
      (reading w (entry.context engine routine) routine) from (halike hdb).1
  unfold reading
  split
  · refine Alike.map (q := Eq) ?_ fun _ _ h => by rw [h]
    refine (alike_contextParts h _).bind fun parts _ hp => (alike_read h _).bind fun d d' hd =>
      (alike_systemPrompt h w).map fun _ _ hs => ?_
    rw [hp, hs, show d.map (·.content) = d'.map (·.content) from hd]
  · exact alike_done rfl

/-! ### Files of another scope -/

/-- Trimming the end of a text leaves a front that is not trimmed. -/
private theorem exists_dropEnd_cons {p : Char → Bool} {c : Char} (hc : p c = false)
    (cs : List Char) : ∃ rest, ((c :: cs).reverse.dropWhile p).reverse = c :: rest := by
  have hdrop (xs : List Char) : ∃ ys, (xs ++ [c]).dropWhile p = ys ++ [c] := by
    induction xs with
    | nil => exact ⟨[], by simp [hc]⟩
    | cons x xs ih =>
      cases hx : p x with
      | true => simpa [List.dropWhile_cons_of_pos hx] using ih
      | false => exact ⟨x :: xs, by simp [hx]⟩
  obtain ⟨ys, hys⟩ := hdrop cs.reverse
  exact ⟨ys.reverse, by rw [List.reverse_cons, hys]; simp⟩

/-- The state of a routine lies under `routines`. -/
theorem exists_normalizePath_statePath (routine : Routine) :
    ∃ rest, normalizePath (statePath routine) = 'r' :: rest := by
  obtain ⟨cs, hcs⟩ : ∃ cs, statePath routine = 'r' :: cs := ⟨_, rfl⟩
  obtain ⟨trimmed, htrim⟩ :=
    exists_dropEnd_cons (p := Text.isWhitespace) (c := 'r') (by decide) cs
  obtain ⟨bare, hbare⟩ := exists_dropEnd_cons (p := (· = '/')) (c := 'r') (by decide) trimmed
  have hspace : Text.trim ('r' :: cs) = 'r' :: trimmed := by
    rw [Text.trim, List.dropWhile_cons_of_neg (by decide), htrim]
  have hslash : Text.trimMatches '/' ('r' :: trimmed) = 'r' :: bare := by
    rw [Text.trimMatches, List.dropWhile_cons_of_neg (by decide), hbare]
  exact ⟨collapseSlashes false bare, by rw [hcs, normalizePath, hspace, hslash]; rfl⟩

theorem not_isIdentityPath_statePath (routine : Routine) :
    isIdentityPath (normalizePath (statePath routine)) = false := by
  obtain ⟨rest, hrest⟩ := exists_normalizePath_statePath routine
  have hhead : ∀ path ∈ IDENTITY_PATHS, path.head? ≠ some 'r' := by decide
  rw [hrest, isIdentityPath, Bool.eq_false_iff, Ne, List.contains_iff_mem]
  exact fun hmem => hhead _ hmem rfl

/-- The tables with one file. -/
private def onlyFile (scope : String) (agent_id : Option ℕ) (path : List Char) : Db :=
  Db.empty.ensured scope agent_id path

/-- A scope whose only file is another scope's cannot tell. -/
private theorem agreeOn_onlyFile {owner scope : String} (h : owner ≠ scope)
    (agent_id : Option ℕ) {path : List Char} (hpath : path ≠ paths.SYSTEM) :
    AgreeOn [owner] Db.empty (onlyFile scope agent_id path) where
  own := by
    intro other hother agent_id' path'
    obtain rfl := List.mem_singleton.mp hother
    rw [onlyFile, content?_ensured, if_neg fun heq => h heq.1]
  admin := by rw [onlyFile, content?_ensured, if_neg fun heq => hpath heq.2.2.symm]

theorem run_contextParts_snd (workspace : Workspace) (paths : List String) (db : Db) :
    ((contextParts workspace paths).run storageMachine db).2 = db := by
  induction paths with
  | nil => rfl
  | cons path rest ih =>
    rw [contextParts, run_bind, run_bind, run_read_snd]
    exact ih

/-- What a lightweight run reads of its state. -/
theorem state_content_lightweightReading (w : PromptWorld) (ctx : EngineContext)
    (routine : Routine) (context_paths : List String) (db : Db) :
    ((lightweightReading w ctx routine context_paths).run storageMachine db).1.state_content =
      ((ctx.workspace.read (statePath routine)).run storageMachine db).1.map (·.content) := by
  rw [lightweightReading, run_bind, run_bind, run_contextParts_snd, run_bind]
  rfl

/-- The state of a routine is found in any of the scopes that are read. -/
theorem run_read_statePath (workspace : Workspace) (routine : Routine) (db : Db) :
    ((workspace.read (statePath routine)).run storageMachine db).1 =
      workspace.readUserIds.findSome? fun uid =>
        db.getDocumentByPath uid workspace.agent_id (normalizePath (statePath routine)) := by
  simp only [Workspace.read, not_isIdentityPath_statePath, Bool.and_false, Bool.false_eq_true,
    if_false]
  split
  case isTrue => rw [run_getDocumentByPathMulti]
  case isFalse h =>
    have hnone : workspace.additional_read_scopes = [] := by
      by_contra hmulti
      have hpos := List.length_pos_iff.mpr hmulti
      exact h (by simpa [isMultiScope, readUserIds] using hpos)
    rw [readUserIds, hnone, List.findSome?_singleton]
    rfl

/-- A lightweight run in a workspace that reads another scope than the owner's depends on the
files there. -/
theorem not_readsOnly_of_scope {w : PromptWorld} {engine : Workspace} {routine : Routine}
    {entry : Entry} {scope : String} (hlight : isLightweight routine = true)
    (hscope : scope ∈ (entry.context engine routine).workspace.readUserIds)
    (hne : routine.user_id ≠ scope) : ¬ ReadsOnly w engine routine entry [routine.user_id] := by
  intro hreads
  generalize hctx : entry.context engine routine = ctx at hscope
  obtain ⟨rest, hrest⟩ := exists_normalizePath_statePath routine
  have hpath : normalizePath (statePath routine) ≠ paths.SYSTEM := by
    intro heq
    have hhead := congrArg List.head? (hrest.symm.trans heq)
    rw [List.head?_cons] at hhead
    exact absurd hhead (by decide)
  have hsame := hreads _ _ (agreeOn_onlyFile hne ctx.workspace.agent_id hpath)
  obtain ⟨context_paths, hreading⟩ : ∃ context_paths, reading w ctx routine =
      lightweightReading w ctx routine context_paths >>= fun read => pure (some read) := by
    cases haction : routine.action with
    | lightweight _ context_paths => exact ⟨context_paths, by rw [reading, haction]⟩
    | fullJob => simp [isLightweight, haction] at hlight
  simp only [hctx, hreading, run_bind, pure_eq, run_done, Option.some.injEq] at hsame
  have hstate := congrArg LightweightReading.state_content hsame
  rw [state_content_lightweightReading, state_content_lightweightReading,
    run_read_statePath, run_read_statePath] at hstate
  -- Without files nothing is found, with the one of the other scope it is.
  have hnone : (ctx.workspace.readUserIds.findSome? fun uid => Db.empty.getDocumentByPath uid
      ctx.workspace.agent_id (normalizePath (statePath routine))) = none :=
    List.findSome?_eq_none_iff.mpr fun _ _ => rfl
  rw [hnone, Option.map_none, eq_comm, Option.map_eq_none_iff, List.findSome?_eq_none_iff]
    at hstate
  have hfound := hstate scope hscope
  rw [onlyFile, Db.getDocumentByPath, Db.rowAt_ensured] at hfound
  cases hfound

/-! ### The owner's workspace -/

/-- The context of a run is the owner's but for webhooks. -/
theorem runsAsOwner_iff {engine : Workspace} {routine : Routine} {entry : Entry} :
    RunsAsOwner engine routine entry ↔ (entry = .webhook → routine.user_id = engine.user_id) := by
  have hchoice : (if routine.user_id = engine.user_id then engine
      else workspaceForUser routine.user_id).user_id = routine.user_id := by
    split
    case isTrue h => exact h.symm
    case isFalse => rfl
  cases entry with
  | webhook => exact ⟨fun h _ => Eq.symm h, fun h => (h rfl).symm⟩
  | event => exact iff_of_true hchoice nofun
  | systemEvent => exact iff_of_true hchoice nofun
  | cron => exact iff_of_true hchoice nofun
  | manual => exact iff_of_true hchoice nofun

/-- A run that is the owner's reads in the engine's workspace when that is its own. -/
theorem context_of_eq {engine : Workspace} {routine : Routine} (entry : Entry)
    (h : routine.user_id = engine.user_id) : entry.context engine routine = ⟨engine⟩ := by
  cases entry <;> simp [Entry.context, spawnFireContext, fireManualContext, fireWebhookContext, h]

theorem context_of_ne {engine : Workspace} {routine : Routine} {entry : Entry}
    (h : routine.user_id ≠ engine.user_id) (howner : RunsAsOwner engine routine entry) :
    entry.context engine routine = ⟨workspaceForUser routine.user_id⟩ := by
  have hentry : entry ≠ .webhook := fun hentry => h (runsAsOwner_iff.mp howner hentry)
  cases entry <;> simp_all [Entry.context, spawnFireContext, fireManualContext]

/-- A run that is the owner's reads the scopes of the owner's workspace. -/
theorem readUserIds_context {engine : Workspace} {routine : Routine} {entry : Entry}
    (howner : RunsAsOwner engine routine entry) :
    (entry.context engine routine).workspace.readUserIds = scopesOf engine routine.user_id := by
  by_cases h : routine.user_id = engine.user_id
  · rw [context_of_eq entry h, scopesOf, if_pos h]
  · rw [context_of_ne h howner, scopesOf, if_neg h]
    rfl

/-- **A run is the owner's, unless a webhook fires another user's routine.** The context holds
the workspace of the routine's owner, and what the run reads depends on the scopes of that
workspace only, exactly when it does not come by webhook or the routine belongs to the user of
the engine's workspace. It depends on the files of the owner alone exactly when moreover the
engine's own workspace, where the run reads in it, has no additional scope configured. -/
theorem runs_as_owner_iff (w : PromptWorld) (engine : Workspace) (routine : Routine)
    (entry : Entry) :
    (RunsAsOwner engine routine entry ∧
        ReadsOnly w engine routine entry (scopesOf engine routine.user_id) ↔
      (entry = .webhook → routine.user_id = engine.user_id)) ∧
    (RunsAsOwner engine routine entry ∧ ReadsOnly w engine routine entry [routine.user_id] ↔
      (entry = .webhook → routine.user_id = engine.user_id) ∧
      (isLightweight routine = true → routine.user_id = engine.user_id →
        engine.additional_read_scopes = [])) := by
  rw [← runsAsOwner_iff]
  refine ⟨⟨fun h => h.1, fun howner => ⟨howner, readsOnly_of_scopes w fun uid huid => ?_⟩⟩,
    and_congr_right fun howner => ⟨fun hreads hlight hsame => ?_, fun hscopes => ?_⟩⟩
  · rwa [readUserIds_context howner] at huid
  · by_contra hmulti
    obtain ⟨scope, hscope⟩ := List.exists_mem_of_ne_nil _ hmulti
    have hne : routine.user_id ≠ scope :=
      fun heq => (List.nodup_cons.mp engine.scopes_nodup).1 (hsame ▸ heq ▸ hscope)
    refine not_readsOnly_of_scope hlight ?_ hne hreads
    rw [context_of_eq entry hsame]
    exact List.mem_cons_of_mem _ hscope
  · by_cases hlight : isLightweight routine = true
    · have hids : scopesOf engine routine.user_id = [routine.user_id] := by
        by_cases hsame : routine.user_id = engine.user_id
        · rw [scopesOf, if_pos hsame, readUserIds, hscopes hlight hsame, hsame]
        · rw [scopesOf, if_neg hsame]
      exact readsOnly_of_scopes w fun uid huid => by
        rwa [readUserIds_context howner, hids] at huid
    · intro db db' _
      have hjob : reading w (entry.context engine routine) routine = pure none := by
        cases haction : routine.action with
        | lightweight => simp [isLightweight, haction] at hlight
        | fullJob => rw [reading, haction]
      rw [hjob]
      rfl

/-! ### Another user's webhook -/

/-- A routine that looks over a file whenever its webhook is called. -/
def Routine.sampleWebhook (user_id : String) : Routine where
  id := ⟨0⟩
  name := "triage"
  user_id := user_id
  enabled := true
  trigger := .webhook (some "triage") (some "whsec")
  action := .lightweight "Look over the inbox." ["projects/inbox.md"] 4096 false 3
  guardrails := ⟨300 * 10 ^ 9, 1, none⟩
  last_run_at := none
  next_fire_at := none
  run_count := 0
  consecutive_failures := 0
  state := .obj []

/-- Bob's routine, fired by its webhook in an engine whose workspace is Alice's, is given
Alice's workspace and reads her files. -/
theorem webhook_reads_engine_workspace :
    ¬ RunsAsOwner (.new "alice") (.sampleWebhook "bob") .webhook ∧
      ¬ ReadsOnly ⟨none, 0, fun _ => [], fun _ => none, []⟩ (.new "alice")
        (.sampleWebhook "bob") .webhook ["bob"] := by
  have halice : "alice" ∈ (Entry.webhook.context (.new "alice")
      (.sampleWebhook "bob")).workspace.readUserIds := List.mem_cons_self
  exact ⟨fun h => absurd (runsAsOwner_iff.mp h rfl) (by decide),
    not_readsOnly_of_scope rfl halice (by decide)⟩

end T3Claw.Routines
