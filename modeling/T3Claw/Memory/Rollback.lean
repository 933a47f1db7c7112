import Mathlib.Data.List.Induction
import Mathlib.Tactic.Common
import T3Claw.Memory.SkillTracker

/-!
# Undoing skill updates

An update archives what a skill was, at most ten times over, and a rollback restores the last
of it. The archive is a stack of the states before the updates not yet undone: its versions go
up to the current one, and the parent version is the last of them (`rollback_law`).
-/

namespace T3Claw.Memory

open Skills (ActivationCriteria)

/-- What a rollback restores of a skill. -/
structure Snapshot where
  content : String
  version : ℕ
  description : String
  activation : ActivationCriteria
  code_snippets : List CodeSnippet
  deriving DecidableEq

def SkillRevision.snapshot (r : SkillRevision) : Snapshot :=
  ⟨r.content, r.version, r.description, r.activation, r.code_snippets⟩

def V2SkillMetadata.snapshot (metadata : V2SkillMetadata) (content : String) : Snapshot :=
  ⟨content, metadata.version, metadata.description, metadata.activation, metadata.code_snippets⟩

namespace V2SkillMetadata

/-- The archived versions go up to the current one, and the parent is the largest of them. -/
structure Consistent (metadata : V2SkillMetadata) : Prop where
  increasing : (metadata.revisions.map (·.version)).Pairwise (· < ·)
  below : ∀ r ∈ metadata.revisions, r.version < metadata.version
  parent : metadata.parent_version = (metadata.revisions.map (·.version)).max?

/-- A skill that was never updated. -/
structure Fresh (metadata : V2SkillMetadata) : Prop where
  revisions : metadata.revisions = []
  parent : metadata.parent_version = none

variable {metadata : V2SkillMetadata} {content content_hash : String} {now : Time}

theorem Fresh.consistent (h : metadata.Fresh) : metadata.Consistent := by
  obtain ⟨hrevisions, hparent⟩ := h
  refine ⟨?_, ?_, ?_⟩
  · rw [hrevisions]
    exact .nil
  · rw [hrevisions]
    exact fun r hr => absurd hr List.not_mem_nil
  · rw [hrevisions, hparent]
    rfl

/-- The archived states, the last one first. -/
def undoable (metadata : V2SkillMetadata) : List Snapshot :=
  (metadata.revisions.map SkillRevision.snapshot).reverse

/-- The last of increasing numbers is the largest. -/
theorem max?_of_increasing {l : List ℕ} {n : ℕ} (h : (l ++ [n]).Pairwise (· < ·)) :
    (l ++ [n]).max? = some n := by
  refine List.max?_eq_some_iff.mpr ⟨by simp, fun m hm => ?_⟩
  obtain hm | hm := List.mem_append.mp hm
  · exact ((List.pairwise_append.mp h).2.2 m hm n List.mem_cons_self).le
  · exact (List.mem_singleton.mp hm).le

/-- Archiving keeps the last of the states before, and the current one. -/
theorem archive_revisions : (metadata.archive content content_hash now).revisions =
    metadata.revisions.drop (metadata.revisions.length - 9) ++
      [metadata.revision content content_hash now] := by
  rw [← List.drop_append_of_le_length (by omega), archive]
  dsimp only
  rw [List.length_append, List.length_singleton]
  split
  · congr 1
  · rw [Nat.sub_eq_zero_of_le (by omega), List.drop_zero]

/-- Archiving puts the state before on top, ten deep at most. -/
theorem undoable_archive : (metadata.archive content content_hash now).undoable =
    (metadata.snapshot content :: metadata.undoable).take 10 := by
  rw [undoable, archive_revisions, List.map_append, List.reverse_append, List.map_drop,
    ← List.length_map SkillRevision.snapshot, ← List.take_reverse]
  rfl

/-- Archiving keeps the archive consistent. -/
theorem Consistent.archive (h : metadata.Consistent) (hbound : metadata.version + 1 < 2 ^ 32) :
    (metadata.archive content content_hash now).Consistent := by
  have hversion : (metadata.archive content content_hash now).version = metadata.version + 1 :=
    succ32_of_lt hbound
  have hall : ((metadata.revisions.drop (metadata.revisions.length - 9)).map (·.version) ++
      [metadata.version]).Pairwise (· < ·) := by
    rw [List.pairwise_append]
    refine ⟨h.increasing.sublist ((List.drop_sublist _ _).map _), List.pairwise_singleton _ _,
      fun m hm n hn => ?_⟩
    obtain ⟨r, hr, rfl⟩ := List.mem_map.mp hm
    obtain rfl := List.mem_singleton.mp hn
    exact h.below r (List.mem_of_mem_drop hr)
  refine ⟨?_, fun r hr => ?_, ?_⟩
  · rw [archive_revisions, List.map_append]
    exact hall
  · rw [archive_revisions] at hr
    rw [hversion]
    obtain hr | hr := List.mem_append.mp hr
    · exact (h.below r (List.mem_of_mem_drop hr)).trans (Nat.lt_succ_self _)
    · obtain rfl := List.mem_singleton.mp hr
      exact Nat.lt_succ_self _
  · rw [archive_revisions, List.map_append]
    exact (max?_of_increasing hall).symm

/-- The last revision is the parent, and going back to it takes it off the archive. -/
theorem Consistent.restore {rs : List SkillRevision} {r : SkillRevision} (h : metadata.Consistent)
    (hlast : metadata.revisions = rs ++ [r]) :
    metadata.parent_version = some r.version ∧
      (metadata.revisions.find? fun revision => revision.version = r.version) = some r ∧
      (metadata.restore r).revisions = rs ∧ (metadata.restore r).Consistent := by
  have hincreasing := h.increasing
  rw [hlast, List.map_append] at hincreasing
  have hbelow : ∀ r' ∈ rs, r'.version < r.version := fun r' hr' =>
    (List.pairwise_append.mp hincreasing).2.2 _ (List.mem_map_of_mem hr') _ List.mem_cons_self
  have hrevisions : (metadata.restore r).revisions = rs := by
    have hkept : rs.filter (fun archived => archived.version < r.version) = rs :=
      List.filter_eq_self.mpr fun r' hr' => decide_eq_true (hbelow r' hr')
    rw [V2SkillMetadata.restore, hlast, List.filter_append, hkept]
    simp
  refine ⟨?_, ?_, hrevisions, ?_, fun r' hr' => ?_, ?_⟩
  · rw [h.parent, hlast, List.map_append]
    exact max?_of_increasing hincreasing
  · have hnone : rs.find? (fun revision => revision.version = r.version) = none :=
      List.find?_eq_none.mpr fun r' hr' => by simpa using (hbelow r' hr').ne
    rw [hlast, List.find?_append, hnone]
    simp
  · rw [hrevisions]
    exact (List.pairwise_append.mp hincreasing).1
  · rw [hrevisions] at hr'
    exact hbelow r' hr'
  · rfl

end V2SkillMetadata

/-! ### Sequences of updates and rollbacks -/

/-- What an updater that touches nothing else sets. -/
structure SkillEdit where
  description : String
  activation : ActivationCriteria
  code_snippets : List CodeSnippet
  repairs : List SkillRepairRecord

/-- The updater that makes an edit. -/
def SkillEdit.updater (edit : V2SkillMetadata → SkillEdit) (metadata : V2SkillMetadata) :
    V2SkillMetadata :=
  { metadata with
    description := (edit metadata).description
    activation := (edit metadata).activation
    code_snippets := (edit metadata).code_snippets
    repairs := (edit metadata).repairs }

inductive SkillOp where
  | update (new_content : String) (expected_version : Option ℕ)
      (edit : V2SkillMetadata → SkillEdit) (now : Time)
  | rollback (now : Time)

/-- A document, and what it was before each update not yet undone, ten deep. -/
structure Tracked (V : Type) where
  doc : MemoryDoc V
  undoable : List Snapshot

namespace SkillTracker

variable {V : Type} (T : SkillTracker V)

/-- What a rollback would restore of a document. -/
def snapshot? (doc : MemoryDoc V) : Option Snapshot :=
  (T.from_value doc.metadata).toOption.map (·.snapshot doc.content)

/-- One operation; one that fails saves nothing. -/
def step (s : Tracked V) : SkillOp → Tracked V
  | .update new_content expected_version edit now =>
    match T.updateSkill s.doc.id new_content expected_version (SkillEdit.updater edit) now
        (some s.doc) with
    | .ok doc => ⟨doc, ((T.snapshot? s.doc).toList ++ s.undoable).take 10⟩
    | .error _ => s
  | .rollback now =>
    match T.rollbackSkill s.doc.id now (some s.doc) with
    | .ok doc => ⟨doc, s.undoable.tail⟩
    | .error _ => s

/-- No update is made at the last version a `u32` can hold. -/
def InRange : Tracked V → List SkillOp → Prop
  | _, [] => True
  | s, op :: ops =>
    (∀ new_content expected_version edit now, op = .update new_content expected_version edit now →
      ∀ metadata, T.from_value s.doc.metadata = .ok metadata → metadata.version + 1 < 2 ^ 32) ∧
    InRange (T.step s op) ops

/-- The document reads as consistent metadata whose archive is what can be undone. -/
def Follows (s : Tracked V) : Prop :=
  ∃ metadata, T.from_value s.doc.metadata = .ok metadata ∧ metadata.Consistent ∧
    metadata.undoable = s.undoable

variable {T} {s : Tracked V}

theorem snapshot?_updated (doc : MemoryDoc V) (content : String) (metadata : V2SkillMetadata)
    (now : Time) :
    T.snapshot? (T.updated doc content metadata now) = some (metadata.snapshot content) := by
  rw [snapshot?, from_value_updated]
  rfl

/-- **A rollback undoes the last update**, or fails when there is none to undo. -/
theorem Follows.rollback (h : T.Follows s) (now : Time) :
    match s.undoable with
    | [] => ∃ e, T.rollbackSkill s.doc.id now (some s.doc) = .error e
    | snapshot :: undoable => ∃ doc, T.rollbackSkill s.doc.id now (some s.doc) = .ok doc ∧
        T.snapshot? doc = some snapshot ∧ T.Follows ⟨doc, undoable⟩ := by
  obtain ⟨metadata, hread, hconsistent, hundoable⟩ := h
  obtain hnil | ⟨rs, r, hlast⟩ := List.eq_nil_or_concat' metadata.revisions
  · have hparent : metadata.parent_version = none := by
      rw [hconsistent.parent, hnil]
      rfl
    rw [← hundoable, V2SkillMetadata.undoable, hnil]
    simp only [rollbackSkill, hread, hparent]
    exact ⟨_, rfl⟩
  · obtain ⟨hparent, hfind, hrevisions, hrestored⟩ := hconsistent.restore hlast
    have hstack : s.undoable = r.snapshot :: (rs.map SkillRevision.snapshot).reverse := by
      rw [← hundoable, V2SkillMetadata.undoable, hlast, List.map_append, List.reverse_append]
      rfl
    rw [hstack]
    refine ⟨T.updated s.doc r.content (metadata.restore r) now, ?_, ?_, metadata.restore r,
      from_value_updated .., hrestored, ?_⟩
    · simp only [rollbackSkill, hread, hparent, hfind]
    · exact snapshot?_updated ..
    · rw [V2SkillMetadata.undoable, hrevisions]

/-- One operation keeps the archive in step. -/
theorem Follows.step (h : T.Follows s) {op : SkillOp}
    (hrange : ∀ new_content expected_version edit now,
      op = .update new_content expected_version edit now →
        ∀ metadata, T.from_value s.doc.metadata = .ok metadata → metadata.version + 1 < 2 ^ 32) :
    T.Follows (T.step s op) := by
  cases op with
  | update new_content expected_version edit now =>
    rw [SkillTracker.step]
    split
    case h_2 => exact h
    case h_1 doc hok =>
      obtain ⟨metadata, hread, -, rfl⟩ := T.updateSkill_eq_ok hok
      obtain ⟨metadata', hread', hconsistent, hundoable⟩ := h
      obtain rfl := Except.ok.inj (hread.symm.trans hread')
      have harchived : (metadata.archive s.doc.content (T.computeContentHash s.doc.content)
          now).Consistent := hconsistent.archive (hrange _ _ _ _ rfl metadata hread)
      refine ⟨_, from_value_updated .., ⟨harchived.increasing, harchived.below, harchived.parent⟩,
        ?_⟩
      rw [snapshot?, hread, ← hundoable]
      exact V2SkillMetadata.undoable_archive
  | rollback now =>
    have hrollback := h.rollback now
    rw [SkillTracker.step]
    split
    case h_2 => exact h
    case h_1 doc hok =>
      cases hstack : s.undoable with
      | nil =>
        rw [hstack] at hrollback
        obtain ⟨e, herror⟩ := hrollback
        rw [hok] at herror
        cases herror
      | cons snapshot undoable =>
        rw [hstack] at hrollback
        obtain ⟨doc', hok', -, hfollows⟩ := hrollback
        obtain rfl := Except.ok.inj (hok.symm.trans hok')
        exact hfollows

/-- Any number of operations do. -/
theorem Follows.run (h : T.Follows s) {ops : List SkillOp} (hrange : T.InRange s ops) :
    T.Follows (ops.foldl T.step s) := by
  induction ops generalizing s with
  | nil => exact h
  | cons op ops ih => exact ih (h.step hrange.1) hrange.2

/-- **Rollbacks undo updates.** After any updates and rollbacks of a skill that was never
updated, none of them at the last version there is: the archive is consistent, and a rollback
restores what the skill was before the last update not yet undone, ten deep, or fails when there
is none. -/
theorem rollback_law (T : SkillTracker V) {doc : MemoryDoc V} {metadata : V2SkillMetadata}
    (hread : T.from_value doc.metadata = .ok metadata) (hfresh : metadata.Fresh)
    {ops : List SkillOp} (hrange : T.InRange ⟨doc, []⟩ ops) (now : Time) :
    let s := ops.foldl T.step ⟨doc, []⟩
    (∃ metadata', T.from_value s.doc.metadata = .ok metadata' ∧ metadata'.Consistent) ∧
    match s.undoable with
    | [] => ∃ e, T.rollbackSkill s.doc.id now (some s.doc) = .error e
    | snapshot :: _ => ∃ doc', T.rollbackSkill s.doc.id now (some s.doc) = .ok doc' ∧
        T.snapshot? doc' = some snapshot := by
  have hstart : T.Follows ⟨doc, []⟩ := by
    refine ⟨metadata, hread, hfresh.consistent, ?_⟩
    rw [V2SkillMetadata.undoable, hfresh.revisions]
    rfl
  have hfollows := hstart.run hrange
  have hrollback := hfollows.rollback now
  obtain ⟨metadata', hread', hconsistent, -⟩ := hfollows
  refine ⟨⟨metadata', hread', hconsistent⟩, ?_⟩
  revert hrollback
  cases (ops.foldl T.step ⟨doc, []⟩).undoable with
  | nil => exact id
  | cons snapshot undoable =>
    rintro ⟨doc', hok, hsnapshot, -⟩
    exact ⟨doc', hok, hsnapshot⟩

/-! ### The last version -/

/-- Metadata that stands for its own JSON. -/
def sampleTracker : SkillTracker V2SkillMetadata := ⟨.ok, id, fun _ => rfl, id⟩

/-- A skill at a version, never updated. -/
def sampleSkill (version : ℕ) : MemoryDoc V2SkillMetadata where
  id := ⟨1⟩
  doc_type := .skill
  content := "first"
  metadata := ⟨"deploy", version, "how to deploy", ⟨[], [], [], [], 2000, none⟩, .extracted,
    .trusted, ⟨[], [], [], []⟩, [], ⟨0, 0, 0, none⟩, none, [], [], "", none, none⟩
  updated_at := 0
  rest := .null

/-- An update that leaves the metadata as it is. -/
def sampleUpdate (new_content : String) : SkillOp :=
  .update new_content none (fun m => ⟨m.description, m.activation, m.code_snippets, m.repairs⟩) 1

theorem rollback_law_sample :
    let s := [sampleUpdate "second", sampleUpdate "third", .rollback 2].foldl
      sampleTracker.step ⟨sampleSkill 1, []⟩
    ∃ doc', sampleTracker.rollbackSkill s.doc.id 3 (some s.doc) = .ok doc' ∧
      sampleTracker.snapshot? doc' = some ((sampleSkill 1).metadata.snapshot "first") := by
  have hread : sampleTracker.from_value (sampleSkill 1).metadata = .ok (sampleSkill 1).metadata :=
    rfl
  have hrange : sampleTracker.InRange ⟨sampleSkill 1, []⟩
      [sampleUpdate "second", sampleUpdate "third", .rollback 2] := by
    refine ⟨fun _ _ _ _ _ m hm => ?_, fun _ _ _ _ _ m hm => ?_, fun _ _ _ _ h => ?_, trivial⟩
    · obtain rfl := Except.ok.inj hm
      decide
    · obtain rfl := Except.ok.inj hm
      decide
    · cases h
  exact (rollback_law sampleTracker hread ⟨rfl, rfl⟩ hrange 3).2

/-- A skill at the last version is updated: it is at version zero, and the version archived is
not below it. -/
theorem last_version_wraps : ∃ doc,
    sampleTracker.updateSkill ⟨1⟩ "second" none id 1 (some (sampleSkill (2 ^ 32 - 1))) = .ok doc ∧
    doc.metadata.version = 0 ∧ doc.metadata.revisions.map (·.version) = [2 ^ 32 - 1] ∧
    ¬ doc.metadata.Consistent := by
  refine ⟨_, rfl, rfl, rfl, fun h => ?_⟩
  exact absurd (h.below _ List.mem_cons_self) (by decide)

end SkillTracker

end T3Claw.Memory
