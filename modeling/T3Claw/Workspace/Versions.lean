import Mathlib.Data.List.Destutter
import T3Claw.Workspace.Guards

/-!
# The version history of a document

Versions are saved late: a content becomes a version when the next one replaces it, unless the
latest version is of that content already. Over any run of calls the versions of a document are
then the contents that were replaced, without those that repeat the one before
(`versions_complete`).
-/

namespace T3Claw.Workspace

open Conc

/-! ### Without repetitions -/

section

variable {α : Type} [DecidableEq α]

theorem destutter'_concat (l : List α) (a c : α) : (l ++ [c]).destutter' (· ≠ ·) a =
    if (l.destutter' (· ≠ ·) a).getLast? = some c then l.destutter' (· ≠ ·) a
    else l.destutter' (· ≠ ·) a ++ [c] := by
  induction l generalizing a with
  | nil =>
    rw [List.nil_append, List.destutter'_singleton, List.destutter'_nil, List.getLast?_singleton]
    by_cases h : a = c
    · rw [if_neg (not_not.mpr h), if_pos (congrArg some h)]
    · rw [if_pos h, if_neg (fun hsome => h (Option.some.inj hsome)), List.singleton_append]
  | cons b l ih =>
    rw [List.cons_append]
    by_cases h : a ≠ b
    · have hlast : (a :: l.destutter' (· ≠ ·) b).getLast? = (l.destutter' (· ≠ ·) b).getLast? := by
        rw [List.getLast?_cons]
        cases hl : (l.destutter' (· ≠ ·) b).getLast? with
        | none => exact absurd (List.getLast?_eq_none_iff.mp hl) (List.destutter'_ne_nil _ _)
        | some x => rfl
      rw [List.destutter'_cons_pos _ h, List.destutter'_cons_pos _ h, ih, hlast]
      split
      · rfl
      · rw [List.cons_append]
    · rw [List.destutter'_cons_neg _ h, List.destutter'_cons_neg _ h, ih]

/-- One more element stays unless it repeats the last one. -/
theorem destutter_concat (l : List α) (c : α) : (l ++ [c]).destutter (· ≠ ·) =
    if (l.destutter (· ≠ ·)).getLast? = some c then l.destutter (· ≠ ·)
    else l.destutter (· ≠ ·) ++ [c] := by
  cases l with
  | nil => rfl
  | cons a l =>
    rw [List.cons_append, List.destutter_cons', List.destutter_cons', destutter'_concat]

/-- What is dropped is still there once. -/
theorem mem_destutter_ne {l : List α} {c : α} (h : c ∈ l) : c ∈ l.destutter (· ≠ ·) := by
  induction l using List.reverseRecOn with
  | nil => cases h
  | append_singleton l a ih =>
    rw [destutter_concat]
    obtain h | h := List.mem_append.mp h
    · split
      · exact ih h
      · exact List.mem_append_left _ (ih h)
    · obtain rfl := List.mem_singleton.mp h
      split
      case isTrue hlast => exact List.mem_of_getLast? hlast
      case isFalse => exact List.mem_append_right _ (List.mem_singleton_self _)

end

/-- The greatest of the numbers from one on. -/
theorem foldr_max_range' (n b : ℕ) : (List.range' 1 n).foldr max b = max b n := by
  induction n generalizing b with
  | zero => rw [List.range'_zero, List.foldr_nil, Nat.max_zero]
  | succ n ih =>
    rw [List.range'_1_concat, List.foldr_append, ih, List.foldr_cons, List.foldr_nil]
    omega

variable {Re : Type} {crates : Crates Re}

/-! ### The content and the versions of a file -/

namespace Db

variable (user_id : String) (agent_id : Option ℕ) (path : List Char)

/-- The content of the file at a path, empty when there is none. -/
def contentAt (db : Db) : List Char := (db.rowAt user_id agent_id path).elim [] (·.content)

/-- The versions of the file at a path. -/
def versionsAt (db : Db) : List DocumentVersion :=
  (db.rowAt user_id agent_id path).elim [] (·.versions)

variable {user_id : String} {agent_id : Option ℕ} {path : List Char}

theorem target_contentAt (db : Db) :
    (db.target user_id agent_id path).content = db.contentAt user_id agent_id path := by
  rw [target, contentAt]
  cases db.rowAt user_id agent_id path <;> rfl

theorem target_versionsAt (db : Db) :
    (db.target user_id agent_id path).versions = db.versionsAt user_id agent_id path := by
  rw [target, versionsAt]
  cases db.rowAt user_id agent_id path <;> rfl

/-- Making sure of a file adds a file without content and versions, if any. -/
theorem rowAt_ensured_cases (db : Db) (scope : String) (agent : Option ℕ) (p : List Char) :
    (db.ensured scope agent p).rowAt user_id agent_id path = db.rowAt user_id agent_id path ∨
      (db.rowAt user_id agent_id path = none ∧ ∃ d, d.content = [] ∧ d.versions = [] ∧
        (db.ensured scope agent p).rowAt user_id agent_id path = some d) := by
  cases hrow : db.rowAt scope agent p with
  | some d => exact .inl (by rw [ensured_of_some hrow])
  | none =>
    have hvalues := values_ensured_of_none hrow
    cases hat : db.rowAt user_id agent_id path with
    | some d =>
      rw [rowAt] at hat ⊢
      rw [hvalues, List.find?_append, hat]
      exact .inl rfl
    | none =>
      rw [rowAt] at hat ⊢
      rw [hvalues, List.find?_append, hat, Option.none_or]
      cases hnew : [db.newRow scope agent p].find?
        (StoredDocument.IsAt user_id agent_id path ·) with
      | none => exact .inl rfl
      | some d =>
        obtain rfl := List.mem_singleton.mp (List.mem_of_find?_eq_some hnew)
        exact .inr ⟨rfl, _, rfl, rfl, rfl⟩

theorem contentAt_ensured (db : Db) (scope : String) (agent : Option ℕ) (p : List Char) :
    (db.ensured scope agent p).contentAt user_id agent_id path =
      db.contentAt user_id agent_id path := by
  obtain h | ⟨hnone, d, hcontent, -, hd⟩ := db.rowAt_ensured_cases scope agent p
  · rw [contentAt, h, contentAt]
  · rw [contentAt, hd, contentAt, hnone]
    exact hcontent

theorem versionsAt_ensured (db : Db) (scope : String) (agent : Option ℕ) (p : List Char) :
    (db.ensured scope agent p).versionsAt user_id agent_id path =
      db.versionsAt user_id agent_id path := by
  obtain h | ⟨hnone, d, -, hversions, hd⟩ := db.rowAt_ensured_cases scope agent p
  · rw [versionsAt, h, versionsAt]
  · rw [versionsAt, hd, versionsAt, hnone]
    exact hversions

end Db

/-! ### One call -/

namespace CallStep

variable (user_id : String) (agent_id : Option ℕ) (path : List Char)

/-- The call is of the file at a path. -/
def IsFor (s : CallStep) : Prop :=
  s.ws.agent_id = agent_id ∧ s.call.target s.ws = .ok (user_id, path)

/-- The call has overwritten the content of the file. -/
def Overwrote (s : CallStep) : Prop :=
  s.IsFor user_id agent_id path ∧ s.Succeeds ∧
    s.call.Overwrites (s.before.contentAt user_id agent_id path)

/-- The metadata of the file asks for versions, when the call is of it. -/
def KeepsVersions (s : CallStep) : Prop :=
  s.IsFor user_id agent_id path →
    ((s.before.ensured user_id agent_id path).metadataIn agent_id user_id path).skip_versioning ≠
      some true

variable {user_id agent_id path}

/-- A version is due for the content that is overwritten. -/
def Due (crates : Crates Re) (content : List Char) (versions : List DocumentVersion) : Prop :=
  content ≠ [] ∧ ∀ latest ∈ versions.getLast?, latest.content_hash ≠ crates.contentSha256 content

/-- What a call does to a file: nothing, or it overwrites the content, which becomes a version if
one is due. -/
theorem file_step (hruntime : isEngineRuntimePath path = false) {s : CallStep}
    (heffect : Effect crates s.ws s.before s.call s.answer s.after)
    (hkeeps : s.KeepsVersions user_id agent_id path) :
    (¬ s.Overwrote user_id agent_id path ∧
      s.after.contentAt user_id agent_id path = s.before.contentAt user_id agent_id path ∧
      s.after.versionsAt user_id agent_id path = s.before.versionsAt user_id agent_id path) ∨
    (s.Overwrote user_id agent_id path ∧
      (¬ Due crates (s.before.contentAt user_id agent_id path)
          (s.before.versionsAt user_id agent_id path) ∧
        s.after.versionsAt user_id agent_id path = s.before.versionsAt user_id agent_id path ∨
      Due crates (s.before.contentAt user_id agent_id path)
          (s.before.versionsAt user_id agent_id path) ∧
        ∃ changed_by, s.after.versionsAt user_id agent_id path =
          s.before.versionsAt user_id agent_id path ++
            [⟨((s.before.versionsAt user_id agent_id path).map (·.version)).foldr max 0 + 1,
              s.before.contentAt user_id agent_id path,
              crates.contentSha256 (s.before.contentAt user_id agent_id path), changed_by⟩])) := by
  obtain ⟨ws, call, before, answer, after⟩ := s
  dsimp only at heffect ⊢
  cases heffect with
  | refused e _ =>
    refine .inl ⟨fun h => ?_, rfl, rfl⟩
    obtain ⟨_, hok⟩ := h.2.1
    cases hok
  | rejected e _ _ =>
    refine .inl ⟨fun h => ?_, Db.contentAt_ensured .., Db.versionsAt_ensured ..⟩
    obtain ⟨_, hok⟩ := h.2.1
    cases hok
  | @done outcome scope p d' _ htarget hbecomes hcontent _ _ hstored hkept =>
    by_cases hfor : ws.agent_id = agent_id ∧ scope = user_id ∧ p = path
    · obtain ⟨rfl, rfl, rfl⟩ := hfor
      have hrow := hbecomes.rowAt_eq (Db.rowAt_ensured before scope ws.agent_id p)
      have hversions : after.versionsAt scope ws.agent_id p = d'.versions := by
        rw [Db.versionsAt, hrow, Option.elim_some]
      have hcontent' : after.contentAt scope ws.agent_id p = d'.content := by
        rw [Db.contentAt, hrow, Option.elim_some]
      rw [Db.target_contentAt] at hcontent hstored hkept
      rw [Db.target_versionsAt] at hkept
      -- only a call that overwrites the contents reaches `maybe_save_version`
      by_cases hover : call.Overwrites (before.contentAt scope ws.agent_id p)
      · refine .inr ⟨⟨⟨rfl, htarget⟩, ⟨outcome, rfl⟩, hover⟩, ?_⟩
        have hskip := hkeeps ⟨rfl, htarget⟩
        have hstored := hstored hruntime hover
        -- the row's own test is `Due`: the step keeps versions, so they are not skipped
        have hneeds : (before.target scope ws.agent_id p).NeedsVersion crates
            ((before.ensured scope ws.agent_id p).metadataIn ws.agent_id scope p) ↔
              Due crates (before.contentAt scope ws.agent_id p)
                (before.versionsAt scope ws.agent_id p) := by
          rw [StoredDocument.NeedsVersion, Due, Db.target_contentAt, Db.target_versionsAt]
          exact and_congr_right fun _ => and_iff_right hskip
        by_cases hdue : Due crates (before.contentAt scope ws.agent_id p)
            (before.versionsAt scope ws.agent_id p)
        · refine .inr ⟨hdue, some ws.user_id, ?_⟩
          rw [StoredDocument.versioned, if_pos (hneeds.mpr hdue),
            StoredDocument.withVersion] at hstored
          rw [hversions, hstored, StoredDocument.nextVersion, Db.target_contentAt,
            Db.target_versionsAt]
        · refine .inl ⟨hdue, ?_⟩
          rw [StoredDocument.versioned, if_neg (mt hneeds.mp hdue)] at hstored
          rw [hversions, hstored, Db.target_versionsAt]
      · refine .inl ⟨fun h => hover h.2.2, ?_, hversions.trans (hkept hover)⟩
        rw [hcontent', hcontent]
        cases call with
        | write _ content => exact not_not.mp hover
        | _ => exact absurd trivial hover
    · refine .inl ⟨fun h => hfor ?_, ?_⟩
      · obtain ⟨hagent, htarget'⟩ := h.1
        obtain ⟨hscope, hpath⟩ := Prod.mk.inj (Except.ok.inj (htarget.symm.trans htarget'))
        exact ⟨hagent, hscope, hpath⟩
      · have hother : after.rowAt user_id agent_id path =
            (before.ensured scope ws.agent_id p).rowAt user_id agent_id path := by
          rw [hbecomes.rowAt]
          cases hrow : (before.ensured scope ws.agent_id p).rowAt user_id agent_id path with
          | none => rfl
          | some e =>
            rw [Option.map_some, if_neg]
            intro hid
            -- ids are unique: a row with the call's id would stand at the call's own path
            have hmem := List.mem_of_find?_eq_some hrow
            have hat : StoredDocument.IsAt user_id agent_id path e := by
              have hdecide := List.find?_some hrow
              exact of_decide_eq_true hdecide
            rw [Becomes.eq_of_id hbecomes.row hmem hid] at hat
            have htargetAt : StoredDocument.IsAt scope ws.agent_id p
                (before.target scope ws.agent_id p) := by
              have hdecide := List.find?_some (Db.rowAt_ensured before scope ws.agent_id p)
              exact of_decide_eq_true hdecide
            exact hfor ⟨htargetAt.2.1.symm.trans hat.2.1, htargetAt.1.symm.trans hat.1,
              htargetAt.2.2.symm.trans hat.2.2⟩
        rw [Db.contentAt, Db.versionsAt, hother]
        exact ⟨Db.contentAt_ensured .., Db.versionsAt_ensured ..⟩

end CallStep

/-! ### A run -/

variable (user_id : String) (agent_id : Option ℕ) (path : List Char)

/-- The tables after the calls. -/
def play (crates : Crates Re) (db : Db) (calls : List (Workspace × Call)) : Db :=
  calls.foldl (fun db c => ((c.2.code crates c.1).run storageMachine db).2) db

/-- Every content the file had, the first one first. -/
def contents (db : Db) (steps : List CallStep) : List (List Char) :=
  db.contentAt user_id agent_id path :: steps.map fun s => s.after.contentAt user_id agent_id path

open Classical in
/-- The contents of the file that were overwritten, in order. -/
noncomputable def replaced (steps : List CallStep) : List (List Char) :=
  (steps.filter fun s => s.Overwrote user_id agent_id path).map fun s =>
    s.before.contentAt user_id agent_id path

/-- What is known of a file that had the contents `past`, of which `overwritten` were
overwritten. -/
structure Archived (crates : Crates Re) (past overwritten : List (List Char)) (db : Db) : Prop where
  versions : (db.versionsAt user_id agent_id path).map (·.content) =
    (overwritten.filter (· ≠ [])).destutter (· ≠ ·)
  past : ∀ content ∈ past,
    content = db.contentAt user_id agent_id path ∨ content ∈ overwritten
  numbers : (db.versionsAt user_id agent_id path).map (·.version) =
    List.range' 1 (db.versionsAt user_id agent_id path).length
  hashes : ∀ v ∈ db.versionsAt user_id agent_id path,
    v.content_hash = crates.contentSha256 v.content

variable {user_id agent_id path}

open Classical in
/-- **One call.** -/
theorem Archived.step (hinj : Function.Injective crates.contentSha256)
    (hruntime : isEngineRuntimePath path = false) {s : CallStep}
    (heffect : Effect crates s.ws s.before s.call s.answer s.after)
    (hkeeps : s.KeepsVersions user_id agent_id path) {past overwritten : List (List Char)}
    (h : Archived user_id agent_id path crates past overwritten s.before) :
    Archived user_id agent_id path crates
      (past ++ [s.after.contentAt user_id agent_id path])
      (overwritten ++ if s.Overwrote user_id agent_id path then
        [s.before.contentAt user_id agent_id path] else []) s.after := by
  have hpast : ∀ gone : List (List Char), (∀ c ∈ past, c = s.after.contentAt user_id agent_id path ∨
      c ∈ gone) → ∀ c ∈ past ++ [s.after.contentAt user_id agent_id path],
        c = s.after.contentAt user_id agent_id path ∨ c ∈ gone := by
    intro gone hgone c hc
    obtain hc | hc := List.mem_append.mp hc
    · exact hgone c hc
    · exact .inl (List.mem_singleton.mp hc)
  obtain ⟨hnot, hcontent, hversions⟩ | ⟨hover, hstep⟩ :=
    CallStep.file_step hruntime heffect hkeeps
  · rw [if_neg hnot, List.append_nil]
    refine ⟨by rw [hversions, h.versions], hpast _ ?_, by rw [hversions, h.numbers], ?_⟩
    · rw [hcontent]
      exact h.past
    · rw [hversions]
      exact h.hashes
  rw [if_pos hover]
  have hpast' := hpast (overwritten ++ [s.before.contentAt user_id agent_id path]) fun c hc => by
    obtain rfl | hc := h.past c hc
    · exact .inr (List.mem_append_right _ (List.mem_singleton_self _))
    · exact .inr (List.mem_append_left _ hc)
  set old := s.before.contentAt user_id agent_id path with hold
  set versions := s.before.versionsAt user_id agent_id path with hversionsdef
  -- the newest version is the old text exactly when the row's hash test finds it
  have hlast : (versions.map (·.content)).getLast? = some old ↔
      ∃ latest ∈ versions.getLast?, latest.content_hash = crates.contentSha256 old := by
    rw [List.getLast?_map, Option.map_eq_some_iff]
    refine exists_congr fun v => and_congr_right fun hv => ?_
    rw [h.hashes v (List.mem_of_getLast? hv)]
    exact hinj.eq_iff.symm
  have hone (hne : old ≠ []) : [old].filter (· ≠ []) = [old] :=
    List.filter_cons_of_pos (decide_eq_true hne)
  obtain ⟨hdue, hafter⟩ | ⟨hdue, changed_by, hafter⟩ := hstep
  · refine ⟨?_, hpast', by rw [hafter, h.numbers], by rw [hafter]; exact h.hashes⟩
    rw [hafter, h.versions, List.filter_append]
    by_cases hempty : old = []
    · have hnone : [old].filter (· ≠ []) = [] := by
        rw [hempty]
        rfl
      rw [hnone, List.append_nil]
    · rw [hone hempty, destutter_concat, ← h.versions, if_pos]
      rw [hlast]
      by_contra hnone
      exact hdue ⟨hempty, fun latest hmem heq => hnone ⟨latest, hmem, heq⟩⟩
  · refine ⟨?_, hpast', ?_, ?_⟩
    · rw [hafter, List.map_append, List.filter_append, hone hdue.1, destutter_concat,
        ← h.versions, if_neg]
      · rfl
      · rw [hlast]
        rintro ⟨latest, hmem, heq⟩
        exact hdue.2 latest hmem heq
    · rw [hafter, List.map_append, h.numbers, foldr_max_range', List.length_append,
        List.length_singleton, List.range'_1_concat, List.map_singleton, Nat.zero_max,
        Nat.add_comm]
    · rw [hafter]
      intro v hv
      obtain hv | hv := List.mem_append.mp hv
      · exact h.hashes v hv
      · obtain rfl := List.mem_singleton.mp hv
        rfl

open Classical in
theorem replaced_cons (s : CallStep) (steps : List CallStep) :
    replaced user_id agent_id path (s :: steps) =
      (if s.Overwrote user_id agent_id path then
        [s.before.contentAt user_id agent_id path] else []) ++
        replaced user_id agent_id path steps := by
  rw [replaced, List.filter_cons]
  by_cases h : s.Overwrote user_id agent_id path
  · rw [if_pos (decide_eq_true h), if_pos h]
    rfl
  · rw [if_neg (by simpa using h), if_neg h]
    rfl

/-- **A run of calls.** -/
theorem Archived.run (hinj : Function.Injective crates.contentSha256)
    (hruntime : isEngineRuntimePath path = false) {db : Db} {calls : List (Workspace × Call)}
    (hkeeps : ∀ s ∈ trace crates db calls, s.KeepsVersions user_id agent_id path)
    {past overwritten : List (List Char)}
    (h : Archived user_id agent_id path crates past overwritten db) :
    Archived user_id agent_id path crates
      (past ++ (trace crates db calls).map fun s => s.after.contentAt user_id agent_id path)
      (overwritten ++ replaced user_id agent_id path (trace crates db calls))
      (play crates db calls) := by
  induction calls generalizing db past overwritten with
  | nil =>
    rw [trace, replaced, List.filter_nil, List.map_nil, List.map_nil, List.append_nil,
      List.append_nil]
    exact h
  | cons c calls ih =>
    obtain ⟨ws, call⟩ := c
    have hstep := h.step (s := ⟨ws, call, db, ((call.code crates ws).run storageMachine db).1,
      ((call.code crates ws).run storageMachine db).2⟩) hinj hruntime (effect crates ws db call)
      (hkeeps _ List.mem_cons_self)
    have hrest := ih (fun s hs => hkeeps s (List.mem_cons_of_mem _ hs)) hstep
    rw [trace, List.map_cons, replaced_cons, List.append_cons, ← List.append_assoc overwritten]
    exact hrest

/-- **The version history is complete.** Over any run of calls by which the file keeps versions:
each content it had, unless empty, is its content or that of a version; the versions are the
contents that were overwritten, without repetitions; they are numbered from one on. -/
theorem versions_complete (hinj : Function.Injective crates.contentSha256)
    (hruntime : isEngineRuntimePath path = false) (db : Db) (calls : List (Workspace × Call))
    (hnew : db.versionsAt user_id agent_id path = [])
    (hkeeps : ∀ s ∈ trace crates db calls, s.KeepsVersions user_id agent_id path) :
    let versions := (play crates db calls).versionsAt user_id agent_id path
    (∀ content ∈ contents user_id agent_id path db (trace crates db calls), content ≠ [] →
      content = (play crates db calls).contentAt user_id agent_id path ∨
        content ∈ versions.map (·.content)) ∧
    versions.map (·.content) = ((replaced user_id agent_id path (trace crates db calls)).filter
      (· ≠ [])).destutter (· ≠ ·) ∧
    (versions.map (·.content)).IsChain (· ≠ ·) ∧
    versions.map (·.version) = List.range' 1 versions.length := by
  have hstart : Archived user_id agent_id path crates
      [db.contentAt user_id agent_id path] [] db := by
    refine ⟨by rw [hnew]; rfl, fun c hc => .inl (List.mem_singleton.mp hc), by rw [hnew]; rfl, ?_⟩
    rw [hnew]
    exact fun v hv => nomatch hv
  have hrun := hstart.run hinj hruntime hkeeps
  rw [List.nil_append, List.singleton_append] at hrun
  refine ⟨fun c hc hne => ?_, hrun.versions, ?_, hrun.numbers⟩
  · refine (hrun.past c hc).imp_right fun hmem => ?_
    rw [hrun.versions]
    exact mem_destutter_ne (List.mem_filter.mpr ⟨hmem, decide_eq_true hne⟩)
  · rw [hrun.versions]
    exact List.isChain_destutter _ _

/-- Notes that come back to what they were. -/
def notesCalls : List (Workspace × Call) :=
  [ (.new "alice", .write "notes.md".toList "a".toList),
    (.new "alice", .append "/notes.md".toList "b".toList),
    (.new "alice", .write "notes.md".toList "a".toList),
    (.new "alice", .writeToLayer "private" "notes.md".toList [] false) ]

theorem versions_complete_notes :
    ((play sampleCrates .empty notesCalls).versionsAt "alice" none "notes.md".toList).map
        (·.content) =
      ((replaced "alice" none "notes.md".toList (trace sampleCrates .empty notesCalls)).filter
        (· ≠ [])).destutter (· ≠ ·) :=
  have hkeeps : ∀ s ∈ trace sampleCrates .empty notesCalls,
      ((s.before.ensured "alice" none "notes.md".toList).metadataIn none "alice"
        "notes.md".toList).skip_versioning ≠ some true := by decide +kernel
  (versions_complete (fun _ _ h => String.ofList_injective h) (by decide +kernel) .empty
    notesCalls rfl fun s hs _ => hkeeps s hs).2.1

example : ((play sampleCrates .empty notesCalls).versionsAt "alice" none "notes.md".toList).map
    (fun v => (v.version, v.content)) =
      [(1, "a".toList), (2, "a\nb".toList), (3, "a".toList)] := by decide +kernel

end T3Claw.Workspace
