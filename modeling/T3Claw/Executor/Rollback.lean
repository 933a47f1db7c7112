import T3Claw.Data.KeyedStore
import T3Claw.Types.Basic
import Mathlib.Data.List.Sort

/-!
# Orchestrator versions and automatic rollback

`executor/orchestrator.rs::load_orchestrator_from_docs`, `record_orchestrator_failure` and
`reset_orchestrator_failures`, with `mission.rs::seed_orchestrator_v0`. Versions of the
orchestrator are documents carrying a version number; one further document, the tracker,
holds a pair of a version and a count.

The count is the length of the current streak, the failures of one version that end the
history of runs (`Tracked`). The loader reads the count alone: three failures in a row of
*any* version make it skip the newest one, and the next lower version is then taken without
looking at its record. `load_isTarget_iff` says on which histories this is what rollback is
for, `IsTarget`.
-/

namespace T3Claw

/-- The content of a document; a JSON document is held parsed. -/
inductive DocContent where
  | text (s : String)
  | json (value : Json)

/-- `types/memory.rs::MemoryDoc`, the fields the loader reads. -/
structure MemoryDoc where
  id : ℕ
  title : String
  tags : List String
  content : DocContent
  metadata : Json

def ORCHESTRATOR_TITLE : String := "orchestrator:main"

def ORCHESTRATOR_TAG : String := "orchestrator_code"

def FAILURE_TRACKER_TITLE : String := "orchestrator:failures"

def MAX_FAILURES_BEFORE_ROLLBACK : ℕ := 3

namespace MemoryDoc

/-- A version of the orchestrator. -/
def isOrchestrator (d : MemoryDoc) : Bool :=
  d.title == ORCHESTRATOR_TITLE && d.tags.contains ORCHESTRATOR_TAG

/-- `metadata["version"]` as a number. -/
def version? (d : MemoryDoc) : Option ℕ := (d.metadata.get? "version").bind Json.asU64?

/-- `serde_json::from_str` of the content, `{}` where it fails. -/
def parsed (d : MemoryDoc) : Json :=
  match d.content with
  | .json value => value
  | .text _ => .obj []

/-- A numeric field of the tracker, 0 where it is missing. -/
def counter (d : MemoryDoc) (field : String) : ℕ :=
  ((d.parsed.get? field).bind Json.asU64?).getD 0

end MemoryDoc

/-- The tracker's content. -/
def trackerContent (version count : ℕ) : DocContent :=
  .json (.obj [("version", .num version), ("count", .num count)])

/-- The memory documents of a project, and the next fresh id. -/
structure DocStore where
  docs : KeyedStore ℕ MemoryDoc MemoryDoc.id
  next_id : ℕ

/-- The tracker document. -/
def DocStore.tracker? (s : DocStore) : Option MemoryDoc :=
  s.docs.values.find? fun d => d.title == FAILURE_TRACKER_TITLE

/-- `save_memory_doc` of a document made now. -/
def DocStore.create (s : DocStore) (title : String) (tags : List String) (content : DocContent)
    (metadata : Json) : DocStore :=
  ⟨s.docs.insert ⟨s.next_id, title, tags, content, metadata⟩, s.next_id + 1⟩

/-- `save_memory_doc` of a document that is there, with new content. -/
def DocStore.rewrite (s : DocStore) (d : MemoryDoc) (content : DocContent) : DocStore :=
  { s with docs := s.docs.insert { d with content } }

/-- `orchestrator.rs::load_failure_count`. -/
def loadFailureCount (s : DocStore) : ℕ := (s.tracker?.map fun d => d.counter "count").getD 0

/-- `orchestrator.rs::load_orchestrator_from_docs`: the code and the version to run. -/
def loadOrchestratorFromDocs (default_code : String) (s : DocStore)
    (allow_self_modify : Bool) : DocContent × ℕ :=
  if !allow_self_modify then (.text default_code, 0)
  else
    let versions := (s.docs.values.filter MemoryDoc.isOrchestrator).insertionSort
      fun a b => b.version?.getD 0 ≤ a.version?.getD 0
    match versions with
    | [] => (.text default_code, 0)
    | newest :: _ =>
      let failures := loadFailureCount s
      -- only the newest version is ever skipped
      match versions.find? fun doc => !(doc.version?.getD 1 == newest.version?.getD 1
          && decide (MAX_FAILURES_BEFORE_ROLLBACK ≤ failures)) with
      | some doc => (doc.content, doc.version?.getD 1)
      | none => (.text default_code, 0)

/-- `orchestrator.rs::record_orchestrator_failure`. -/
def recordOrchestratorFailure (s : DocStore) (version : ℕ) : DocStore :=
  match s.tracker? with
  | some tracker =>
    let new_count := if tracker.counter "version" = version then tracker.counter "count" + 1
      else 1
    s.rewrite tracker (trackerContent version new_count)
  -- a tracker made now is empty: version 0, count 0
  | none => s.create FAILURE_TRACKER_TITLE ["orchestrator_meta"]
      (trackerContent version (if 0 = version then 0 + 1 else 1)) (.obj [])

/-- `orchestrator.rs::reset_orchestrator_failures`. -/
def resetOrchestratorFailures (s : DocStore) : DocStore :=
  match s.tracker? with
  | some tracker => s.rewrite tracker (trackerContent 0 0)
  | none => s

/-- `mission.rs::seed_orchestrator_v0`. -/
def seedOrchestratorV0 (default_code : String) (s : DocStore) : DocStore :=
  match s.docs.values.find? fun d => d.isOrchestrator && d.version?.getD 0 == 0 with
  -- the code of a seeded document changes only when the compiled-in code did
  | some d => s.rewrite d (.text default_code)
  | none => s.create ORCHESTRATOR_TITLE [ORCHESTRATOR_TAG] (.text default_code)
      (.obj [("version", .num 0), ("source", .str "compiled_in")])

/-! ### Histories -/

/-- A run of a version, and whether it failed. -/
structure OrchestratorRun where
  version : ℕ
  failed : Bool
  deriving DecidableEq, Repr

inductive OrchestratorEvent where
  | seed
  | publish (version : ℕ) (code : String)
  | run (failed : Bool)

/-- The versions a list of events publishes, with their code. -/
def published (events : List OrchestratorEvent) : List (ℕ × String) :=
  events.filterMap fun
    | .publish version code => some (version, code)
    | _ => none

/-- Events that publish every version number at most once, 0 being the compiled-in one. -/
structure OrchestratorHistory where
  events : List OrchestratorEvent
  versions_nodup : ((published events).map Prod.fst).Nodup
  versions_pos : ∀ p ∈ published events, 0 < p.1

/-- The store, and the runs made so far, newest first. -/
structure OrchestratorState where
  store : DocStore
  runs : List OrchestratorRun

/-- One event. A run loads a version, then records its failure or resets the tracker. -/
def OrchestratorState.step (default_code : String) (s : OrchestratorState) :
    OrchestratorEvent → OrchestratorState
  | .seed => { s with store := seedOrchestratorV0 default_code s.store }
  | .publish version code =>
    let metadata := Json.obj [("version", .num version)]
    { s with store := s.store.create ORCHESTRATOR_TITLE [ORCHESTRATOR_TAG] (.text code) metadata }
  | .run failed =>
    let version := (loadOrchestratorFromDocs default_code s.store true).2
    ⟨if failed then recordOrchestratorFailure s.store version
      else resetOrchestratorFailures s.store, ⟨version, failed⟩ :: s.runs⟩

/-- The state after a list of events, from an empty store. -/
def orchestratorAfter (default_code : String) (events : List OrchestratorEvent) :
    OrchestratorState :=
  events.foldl (OrchestratorState.step default_code) ⟨⟨KeyedStore.empty, 0⟩, []⟩

/-! ### What rollback is for -/

/-- The version has run three times and its last three runs failed. -/
def Excluded (runs : List OrchestratorRun) (version : ℕ) : Prop :=
  let own := (runs.filter fun r => r.version == version).take MAX_FAILURES_BEFORE_ROLLBACK
  own.length = MAX_FAILURES_BEFORE_ROLLBACK ∧ ∀ r ∈ own, r.failed = true

instance (runs : List OrchestratorRun) (v : ℕ) : Decidable (Excluded runs v) :=
  inferInstanceAs (Decidable (_ ∧ _))

/-- What the loader should return: the highest version that is not excluded, or the
compiled-in code when all are. -/
def IsTarget (default_code : String) (versions : List (ℕ × String))
    (runs : List OrchestratorRun) (loaded : DocContent × ℕ) : Prop :=
  (∃ p ∈ versions, ¬Excluded runs p.1 ∧ (∀ u ∈ versions, ¬Excluded runs u.1 → u.1 ≤ p.1) ∧
      loaded = (.text p.2, p.1)) ∨
    ((∀ u ∈ versions, Excluded runs u.1) ∧ loaded = (.text default_code, 0))

/-- The failures of one version that end the history, newest run first. -/
def streak : List OrchestratorRun → ℕ
  | [] => 0
  | r :: rs => if r.failed then (if rs.head? = some r then streak rs + 1 else 1) else 0

/-- The version published with the highest number. -/
def Newest (versions : List (ℕ × String)) (v : ℕ) : Prop :=
  (∃ p ∈ versions, p.1 = v) ∧ ∀ u ∈ versions, u.1 ≤ v

/-- The version with the highest number below another. -/
def NextBelow (versions : List (ℕ × String)) (v w : ℕ) : Prop :=
  (∃ p ∈ versions, p.1 = w) ∧ w < v ∧ ∀ u ∈ versions, u.1 < v → u.1 ≤ w

/-! ### The store along a history -/

theorem mem_create {s : DocStore} (hfresh : ∀ d ∈ s.docs, d.id < s.next_id) {title : String}
    {tags : List String} {content : DocContent} {metadata : Json} {d : MemoryDoc} :
    d ∈ (s.create title tags content metadata).docs ↔
      d = ⟨s.next_id, title, tags, content, metadata⟩ ∨ d ∈ s.docs := by
  rw [DocStore.create, KeyedStore.mem_insert]
  refine or_congr_right (and_iff_left_of_imp fun hd => ?_)
  exact (hfresh d hd).ne

theorem mem_rewrite {s : DocStore} {t d : MemoryDoc} {content : DocContent} :
    d ∈ (s.rewrite t content).docs ↔ d = { t with content } ∨ (d ∈ s.docs ∧ d.id ≠ t.id) :=
  KeyedStore.mem_insert

/-- The store reflects what was published and what ran. -/
structure DocStore.Reflects (default_code : String) (versions : List (ℕ × String))
    (runs : List OrchestratorRun) (s : DocStore) : Prop where
  fresh : ∀ d ∈ s.docs, d.id < s.next_id
  sound : ∀ d ∈ s.docs, d.isOrchestrator = true →
    (∃ p ∈ versions, d.version? = some p.1 ∧ d.content = .text p.2) ∨
      (d.version? = some 0 ∧ d.content = .text default_code)
  complete : ∀ p ∈ versions, ∃ d ∈ s.docs, d.isOrchestrator = true ∧ d.version? = some p.1
  one_tracker : ∀ d ∈ s.docs, ∀ d' ∈ s.docs, d.title = FAILURE_TRACKER_TITLE →
    d'.title = FAILURE_TRACKER_TITLE → d = d'
  /-- The tracker counts the current streak, and names its version. -/
  tracked : ∀ d ∈ s.docs, d.title = FAILURE_TRACKER_TITLE →
    ∃ v, d.content = trackerContent v (streak runs) ∧
      (0 < streak runs → runs.head? = some ⟨v, true⟩)
  untracked : (∀ d ∈ s.docs, d.title ≠ FAILURE_TRACKER_TITLE) → streak runs = 0

theorem title_of_isOrchestrator {d : MemoryDoc} (h : d.isOrchestrator = true) :
    d.title = ORCHESTRATOR_TITLE :=
  beq_iff_eq.mp (Bool.and_eq_true_iff.mp h).1

theorem title_ne_tracker {d : MemoryDoc} (h : d.isOrchestrator = true) :
    d.title ≠ FAILURE_TRACKER_TITLE := by
  rw [title_of_isOrchestrator h]
  decide

theorem isOrchestrator_of_title_tracker {d : MemoryDoc} (h : d.title = FAILURE_TRACKER_TITLE) :
    d.isOrchestrator = false := by
  by_contra hn
  exact title_ne_tracker (by simpa using hn) h

section

variable {default_code : String} {versions : List (ℕ × String)} {runs : List OrchestratorRun}
  {s : DocStore}

theorem DocStore.Reflects.mem_of_tracker? {t : MemoryDoc} (h : s.tracker? = some t) :
    t ∈ s.docs ∧ t.title = FAILURE_TRACKER_TITLE := by
  have htitle : (t.title == FAILURE_TRACKER_TITLE) = true :=
    List.find?_some (p := fun d : MemoryDoc => d.title == FAILURE_TRACKER_TITLE) h
  exact ⟨List.mem_of_find?_eq_some h, by simpa using htitle⟩

theorem DocStore.Reflects.of_tracker?_none (h : s.tracker? = none) {d : MemoryDoc}
    (hd : d ∈ s.docs) : d.title ≠ FAILURE_TRACKER_TITLE := by
  have := List.find?_eq_none.mp h d hd
  simpa using this

@[simp] theorem counter_version_trackerContent {d : MemoryDoc} {v c : ℕ}
    (h : d.content = trackerContent v c) : d.counter "version" = v := by
  simp [MemoryDoc.counter, MemoryDoc.parsed, h, trackerContent, Json.get?, Json.asU64?]

@[simp] theorem counter_count_trackerContent {d : MemoryDoc} {v c : ℕ}
    (h : d.content = trackerContent v c) : d.counter "count" = c := by
  simp [MemoryDoc.counter, MemoryDoc.parsed, h, trackerContent, Json.get?, Json.asU64?]

/-- The loader's failure count is the current streak. -/
theorem DocStore.Reflects.loadFailureCount_eq (h : s.Reflects default_code versions runs) :
    loadFailureCount s = streak runs := by
  rw [loadFailureCount]
  rcases ht : s.tracker? with _ | t
  · exact (h.untracked fun d hd => Reflects.of_tracker?_none ht hd).symm
  · obtain ⟨hmem, htitle⟩ := Reflects.mem_of_tracker? ht
    obtain ⟨v, hc, -⟩ := h.tracked t hmem htitle
    exact counter_count_trackerContent hc

/-- Making a version document publishes it, or seeds the compiled-in version. -/
theorem DocStore.Reflects.create_version (h : s.Reflects default_code versions runs)
    {vs : List (ℕ × String)} {version : ℕ} {code : String} {metadata : Json}
    (hmeta : (metadata.get? "version").bind Json.asU64? = some version)
    (hvs : vs = versions ++ [(version, code)] ∨
      (vs = versions ∧ version = 0 ∧ code = default_code)) :
    (s.create ORCHESTRATOR_TITLE [ORCHESTRATOR_TAG] (.text code) metadata).Reflects
      default_code vs runs := by
  have hmem := @mem_create s h.fresh ORCHESTRATOR_TITLE [ORCHESTRATOR_TAG] (.text code) metadata
  have hsub : ∀ p ∈ versions, p ∈ vs := by
    rcases hvs with rfl | ⟨rfl, -⟩ <;> simp +contextual
  have hold : ∀ d ∈ (s.create ORCHESTRATOR_TITLE [ORCHESTRATOR_TAG] (.text code) metadata).docs,
      d.title = FAILURE_TRACKER_TITLE → d ∈ s.docs := by
    intro d hd htitle
    rcases hmem.mp hd with rfl | hd
    · exact absurd htitle (show ORCHESTRATOR_TITLE ≠ FAILURE_TRACKER_TITLE by decide)
    · exact hd
  refine ⟨fun d hd => ?_, fun d hd ho => ?_, fun p hp => ?_, fun d hd d' hd' ht ht' => ?_,
    fun d hd ht => h.tracked d (hold d hd ht) ht,
    fun hnone => h.untracked fun d hd => hnone d (hmem.mpr (.inr hd))⟩
  · rcases hmem.mp hd with rfl | hd
    · exact Nat.lt_succ_self _
    · exact (h.fresh d hd).trans (Nat.lt_succ_self _)
  · rcases hmem.mp hd with rfl | hd
    · rcases hvs with rfl | ⟨rfl, rfl, rfl⟩
      · exact .inl ⟨(version, code), by simp, hmeta, rfl⟩
      · exact .inr ⟨hmeta, rfl⟩
    · exact (h.sound d hd ho).imp_left fun ⟨p, hp, hv⟩ => ⟨p, hsub p hp, hv⟩
  · have hcases : p ∈ versions ∨ p = (version, code) := by
      rcases hvs with rfl | ⟨rfl, -⟩
      · simpa using hp
      · exact .inl hp
    rcases hcases with hp | rfl
    · obtain ⟨d, hd, ho, hv⟩ := h.complete p hp
      exact ⟨d, hmem.mpr (.inr hd), ho, hv⟩
    · exact ⟨_, hmem.mpr (.inl rfl), by simp [MemoryDoc.isOrchestrator], hmeta⟩
  · exact h.one_tracker d (hold d hd ht) d' (hold d' hd' ht') ht ht'

/-- Writing the seeded document again changes nothing of what the store reflects. -/
theorem DocStore.Reflects.rewrite_seed (h : s.Reflects default_code versions runs)
    (hpos : ∀ p ∈ versions, 0 < p.1) {d : MemoryDoc} (hd : d ∈ s.docs)
    (ho : d.isOrchestrator = true) (hzero : d.version?.getD 0 = 0) :
    (s.rewrite d (.text default_code)).Reflects default_code versions runs := by
  have hver : d.version? = some 0 := by
    rcases h.sound d hd ho with ⟨p, hp, hv, -⟩ | ⟨hv, -⟩
    · have := hpos p hp
      rw [hv, Option.getD_some] at hzero
      omega
    · exact hv
  have hold : ∀ d' ∈ (s.rewrite d (.text default_code)).docs,
      d'.title = FAILURE_TRACKER_TITLE → d' ∈ s.docs := by
    intro d' hd' htitle
    rcases mem_rewrite.mp hd' with rfl | ⟨hd', -⟩
    · exact absurd htitle (title_ne_tracker ho)
    · exact hd'
  have hne : ∀ d' ∈ s.docs, d'.version? ≠ some 0 ∨ d'.isOrchestrator = false → d'.id ≠ d.id := by
    intro d' hd' hdiff heq
    obtain rfl := KeyedStore.eq_of_mem hd' hd heq
    simp [hver, ho] at hdiff
  refine ⟨fun d' hd' => ?_, fun d' hd' ho' => ?_, fun p hp => ?_, fun d1 h1 d2 h2 ht1 ht2 => ?_,
    fun d' hd' ht => h.tracked d' (hold d' hd' ht) ht, fun hnone => h.untracked fun d' hd' => ?_⟩
  · rcases mem_rewrite.mp hd' with rfl | ⟨hd', -⟩
    · exact h.fresh d hd
    · exact h.fresh d' hd'
  · rcases mem_rewrite.mp hd' with rfl | ⟨hd', -⟩
    · exact .inr ⟨hver, rfl⟩
    · exact h.sound d' hd' ho'
  · obtain ⟨d', hd', ho', hv⟩ := h.complete p hp
    have hp0 : p.1 ≠ 0 := (hpos p hp).ne'
    exact ⟨d', mem_rewrite.mpr (.inr ⟨hd', hne d' hd' (.inl (by simp [hv, hp0]))⟩), ho', hv⟩
  · exact h.one_tracker d1 (hold d1 h1 ht1) d2 (hold d2 h2 ht2) ht1 ht2
  · intro ht
    exact hnone d' (mem_rewrite.mpr (.inr ⟨hd', hne d' hd' (.inr
      (isOrchestrator_of_title_tracker ht))⟩)) ht

/-- Writing the tracker brings the store up to the new runs. -/
theorem DocStore.Reflects.rewrite_tracker (h : s.Reflects default_code versions runs)
    {rs : List OrchestratorRun} {t : MemoryDoc} {v : ℕ} (ht : t ∈ s.docs)
    (htitle : t.title = FAILURE_TRACKER_TITLE)
    (hhead : 0 < streak rs → rs.head? = some ⟨v, true⟩) :
    (s.rewrite t (trackerContent v (streak rs))).Reflects default_code versions rs := by
  have honly : ∀ d ∈ (s.rewrite t (trackerContent v (streak rs))).docs,
      d.title = FAILURE_TRACKER_TITLE → d = { t with content := trackerContent v (streak rs) } := by
    intro d hd htd
    rcases mem_rewrite.mp hd with rfl | ⟨hd, hne⟩
    · rfl
    · exact absurd (congrArg MemoryDoc.id (h.one_tracker d hd t ht htd htitle)) hne
  have hnot : ({ t with content := trackerContent v (streak rs) } : MemoryDoc).isOrchestrator =
      false := isOrchestrator_of_title_tracker htitle
  refine ⟨fun d hd => ?_, fun d hd ho => ?_, fun p hp => ?_, fun d1 h1 d2 h2 ht1 ht2 => ?_,
    fun d hd htd => ⟨v, by rw [honly d hd htd], hhead⟩, fun hnone => ?_⟩
  · rcases mem_rewrite.mp hd with rfl | ⟨hd, -⟩
    · exact h.fresh t ht
    · exact h.fresh d hd
  · rcases mem_rewrite.mp hd with rfl | ⟨hd, -⟩
    · simp [hnot] at ho
    · exact h.sound d hd ho
  · obtain ⟨d, hd, ho, hv⟩ := h.complete p hp
    refine ⟨d, mem_rewrite.mpr (.inr ⟨hd, fun heq => ?_⟩), ho, hv⟩
    obtain rfl := KeyedStore.eq_of_mem hd ht heq
    exact title_ne_tracker ho htitle
  · rw [honly d1 h1 ht1, honly d2 h2 ht2]
  · exact absurd htitle (hnone { t with content := trackerContent v (streak rs) }
      (mem_rewrite.mpr (.inl rfl)))

/-- Making the first tracker brings the store up to the new runs. -/
theorem DocStore.Reflects.create_tracker (h : s.Reflects default_code versions runs)
    {rs : List OrchestratorRun} {v : ℕ} {tags : List String} {metadata : Json}
    (hnone : ∀ d ∈ s.docs, d.title ≠ FAILURE_TRACKER_TITLE)
    (hhead : 0 < streak rs → rs.head? = some ⟨v, true⟩) :
    (s.create FAILURE_TRACKER_TITLE tags (trackerContent v (streak rs)) metadata).Reflects
      default_code versions rs := by
  have hmem := @mem_create s h.fresh FAILURE_TRACKER_TITLE tags (trackerContent v (streak rs))
    metadata
  have honly : ∀ d ∈ (s.create FAILURE_TRACKER_TITLE tags (trackerContent v (streak rs))
      metadata).docs, d.title = FAILURE_TRACKER_TITLE →
        d = ⟨s.next_id, FAILURE_TRACKER_TITLE, tags, trackerContent v (streak rs), metadata⟩ := by
    intro d hd htd
    rcases hmem.mp hd with rfl | hd
    · rfl
    · exact absurd htd (hnone d hd)
  refine ⟨fun d hd => ?_, fun d hd ho => ?_, fun p hp => ?_, fun d1 h1 d2 h2 ht1 ht2 => ?_,
    fun d hd htd => ⟨v, by rw [honly d hd htd], hhead⟩, fun hno => ?_⟩
  · rcases hmem.mp hd with rfl | hd
    · exact Nat.lt_succ_self _
    · exact (h.fresh d hd).trans (Nat.lt_succ_self _)
  · rcases hmem.mp hd with rfl | hd
    · exact absurd rfl (title_ne_tracker ho)
    · exact h.sound d hd ho
  · obtain ⟨d, hd, ho, hv⟩ := h.complete p hp
    exact ⟨d, hmem.mpr (.inr hd), ho, hv⟩
  · rw [honly d1 h1 ht1, honly d2 h2 ht2]
  · exact absurd rfl (hno _ (hmem.mpr (.inl rfl)))

/-! ### The streak -/

theorem streak_cons_failed (v : ℕ) (rs : List OrchestratorRun) :
    streak (⟨v, true⟩ :: rs) = if rs.head? = some ⟨v, true⟩ then streak rs + 1 else 1 := rfl

theorem streak_pos_of_head? {v : ℕ} {rs : List OrchestratorRun}
    (h : rs.head? = some ⟨v, true⟩) : 0 < streak rs := by
  rcases rs with _ | ⟨r, rs⟩
  · simp at h
  · obtain rfl : r = ⟨v, true⟩ := by simpa using h
    rw [streak_cons_failed]
    split_ifs <;> omega

/-- Recording a failure keeps the tracker counting the streak. -/
theorem DocStore.Reflects.record (h : s.Reflects default_code versions runs) (v : ℕ) :
    (recordOrchestratorFailure s v).Reflects default_code versions (⟨v, true⟩ :: runs) := by
  have hhead : 0 < streak (⟨v, true⟩ :: runs) →
      (OrchestratorRun.mk v true :: runs).head? = some ⟨v, true⟩ := fun _ => rfl
  rw [recordOrchestratorFailure]
  rcases ht : s.tracker? with _ | t
  · have hno := fun d hd => Reflects.of_tracker?_none ht (d := d) hd
    have hzero := h.untracked hno
    have hone : streak (⟨v, true⟩ :: runs) = 1 := by
      rw [streak_cons_failed, if_neg]
      intro hh
      have := streak_pos_of_head? hh
      omega
    have hcount : (if 0 = v then 0 + 1 else 1) = streak (⟨v, true⟩ :: runs) := by
      rw [hone]
      split_ifs <;> rfl
    dsimp only
    rw [hcount]
    exact h.create_tracker hno hhead
  · obtain ⟨hmem, htitle⟩ := Reflects.mem_of_tracker? ht
    obtain ⟨w, hc, hw⟩ := h.tracked t hmem htitle
    have hcount : (if t.counter "version" = v then t.counter "count" + 1 else 1) =
        streak (⟨v, true⟩ :: runs) := by
      rw [counter_version_trackerContent hc, counter_count_trackerContent hc, streak_cons_failed]
      by_cases hpos : 0 < streak runs
      · simp [hw hpos]
      · have hne : runs.head? ≠ some ⟨v, true⟩ := fun hh => hpos (streak_pos_of_head? hh)
        rw [if_neg hne]
        split_ifs <;> omega
    dsimp only
    rw [hcount]
    exact h.rewrite_tracker hmem htitle hhead

/-- A reset ends the streak. -/
theorem DocStore.Reflects.reset (h : s.Reflects default_code versions runs) (v : ℕ) :
    (resetOrchestratorFailures s).Reflects default_code versions (⟨v, false⟩ :: runs) := by
  have hzero : streak (⟨v, false⟩ :: runs) = 0 := rfl
  rw [resetOrchestratorFailures]
  rcases ht : s.tracker? with _ | t
  · have hno := fun d hd => Reflects.of_tracker?_none ht (d := d) hd
    exact ⟨h.fresh, h.sound, h.complete, h.one_tracker,
      fun d hd htd => absurd htd (hno d hd), fun _ => hzero⟩
  · obtain ⟨hmem, htitle⟩ := Reflects.mem_of_tracker? ht
    change (s.rewrite t (trackerContent 0 (streak (⟨v, false⟩ :: runs)))).Reflects _ _ _
    exact h.rewrite_tracker hmem htitle fun hpos => absurd hpos (by simp [hzero])

end

/-! ### What the loader returns -/

/-- The versions a store holds, newest first. -/
private def sortedVersions (s : DocStore) : List MemoryDoc :=
  (s.docs.values.filter MemoryDoc.isOrchestrator).insertionSort
    fun a b => b.version?.getD 0 ≤ a.version?.getD 0

private theorem mem_sortedVersions {s : DocStore} {d : MemoryDoc} :
    d ∈ sortedVersions s ↔ d ∈ s.docs ∧ d.isOrchestrator = true := by
  rw [sortedVersions, (List.perm_insertionSort ..).mem_iff, List.mem_filter]
  rfl

private theorem sortedVersions_pairwise (s : DocStore) :
    (sortedVersions s).Pairwise fun a b => b.version?.getD 0 ≤ a.version?.getD 0 := by
  have : Std.Total fun a b : MemoryDoc => b.version?.getD 0 ≤ a.version?.getD 0 :=
    ⟨fun a b => le_total _ _⟩
  have : IsTrans MemoryDoc fun a b => b.version?.getD 0 ≤ a.version?.getD 0 :=
    ⟨fun a b c hab hbc => hbc.trans hab⟩
  exact List.pairwise_insertionSort ..

/-- **What the loader returns.** Nothing to load; the newest version; or, after three
failures, the next lower one or the compiled-in code. -/
theorem load_cases (default_code : String) {s : DocStore}
    (hver : ∀ d ∈ s.docs, d.isOrchestrator = true → d.version?.isSome = true) :
    ((∀ d ∈ s.docs, d.isOrchestrator = false) ∧
        loadOrchestratorFromDocs default_code s true = (.text default_code, 0)) ∨
      ∃ n ∈ s.docs, n.isOrchestrator = true ∧
        (∀ d ∈ s.docs, d.isOrchestrator = true → d.version?.getD 0 ≤ n.version?.getD 0) ∧
        ((loadFailureCount s < 3 ∧
            loadOrchestratorFromDocs default_code s true = (n.content, n.version?.getD 0)) ∨
          (3 ≤ loadFailureCount s ∧
            ((∃ d ∈ s.docs, d.isOrchestrator = true ∧ d.version?.getD 0 < n.version?.getD 0 ∧
                (∀ e ∈ s.docs, e.isOrchestrator = true → e.version?.getD 0 < n.version?.getD 0 →
                  e.version?.getD 0 ≤ d.version?.getD 0) ∧
                loadOrchestratorFromDocs default_code s true = (d.content, d.version?.getD 0)) ∨
              ((∀ d ∈ s.docs, d.isOrchestrator = true →
                  d.version?.getD 0 = n.version?.getD 0) ∧
                loadOrchestratorFromDocs default_code s true = (.text default_code, 0))))) := by
  have hload : loadOrchestratorFromDocs default_code s true =
      match sortedVersions s with
      | [] => (.text default_code, 0)
      | newest :: _ =>
        match (sortedVersions s).find? fun doc => !(doc.version?.getD 1 == newest.version?.getD 1
            && decide (3 ≤ loadFailureCount s)) with
        | some doc => (doc.content, doc.version?.getD 1)
        | none => (.text default_code, 0) := rfl
  have hone : ∀ d ∈ s.docs, d.isOrchestrator = true → d.version?.getD 1 = d.version?.getD 0 := by
    intro d hd ho
    obtain ⟨v, hv⟩ := Option.isSome_iff_exists.mp (hver d hd ho)
    simp [hv]
  have hsorted := sortedVersions_pairwise s
  have hmem := @mem_sortedVersions s
  rw [hload]
  rcases hl : sortedVersions s with _ | ⟨n, rest⟩
  · refine .inl ⟨fun d hd => ?_, rfl⟩
    by_contra ho
    have := hmem.mpr ⟨hd, by simpa using ho⟩
    simp [hl] at this
  right
  rw [hl] at hsorted
  simp only [hl] at hmem
  obtain ⟨hn, hno⟩ := (hmem (d := n)).mp (List.mem_cons_self ..)
  obtain ⟨hfirst, hrest⟩ := List.pairwise_cons.mp hsorted
  have hmax : ∀ d ∈ s.docs, d.isOrchestrator = true →
      d.version?.getD 0 ≤ n.version?.getD 0 := by
    intro d hd ho
    rcases List.mem_cons.mp (hmem.mpr ⟨hd, ho⟩) with rfl | hd
    · exact le_rfl
    · exact hfirst d hd
  refine ⟨n, hn, hno, hmax, ?_⟩
  dsimp only
  by_cases hfail : 3 ≤ loadFailureCount s
  · refine .inr ⟨hfail, ?_⟩
    have hskip : (n :: rest).find? (fun doc => !(doc.version?.getD 1 == n.version?.getD 1
        && decide (3 ≤ loadFailureCount s))) =
        rest.find? fun doc => doc.version?.getD 1 != n.version?.getD 1 := by
      rw [List.find?_cons_of_neg (by simp [hfail])]
      simp [hfail, bne]
    rw [hskip]
    rcases hfind : rest.find? fun doc => doc.version?.getD 1 != n.version?.getD 1 with _ | d
    · refine .inr ⟨fun d hd ho => ?_, by rw [hfind]⟩
      rcases List.mem_cons.mp (hmem.mpr ⟨hd, ho⟩) with rfl | hdr
      · rfl
      · have := List.find?_eq_none.mp hfind d hdr
        rw [hone d hd ho, hone n hn hno] at this
        simpa using this
    · obtain ⟨hdne, as, bs, hsplit, hbefore⟩ := List.find?_eq_some_iff_append.mp hfind
      have hdr : d ∈ rest := by simp [hsplit]
      obtain ⟨hd, hdo⟩ := hmem.mp (List.mem_cons_of_mem n hdr)
      have hlt : d.version?.getD 0 < n.version?.getD 0 := by
        have hne : d.version?.getD 0 ≠ n.version?.getD 0 := by
          rw [← hone d hd hdo, ← hone n hn hno]
          simpa using hdne
        exact lt_of_le_of_ne (hmax d hd hdo) hne
      refine .inl ⟨d, hd, hdo, hlt, fun e he heo hel => ?_, ?_⟩
      swap
      · rw [hfind]
        dsimp only
        rw [hone d hd hdo]
      -- everything before `d` has the newest number, everything after it a lower one
      rcases List.mem_cons.mp (hmem.mpr ⟨he, heo⟩) with rfl | her
      · exact absurd hel (lt_irrefl _)
      rw [hsplit] at her hrest
      rcases List.mem_append.mp her with hea | heb
      · have := hbefore e hea
        rw [hone e he heo, hone n hn hno] at this
        simp only [bne, Bool.not_not, beq_iff_eq] at this
        omega
      · rcases List.mem_cons.mp heb with rfl | heb
        · exact le_rfl
        · exact (List.pairwise_cons.mp (List.pairwise_append.mp hrest).2.1).1 e heb
  · refine .inl ⟨by omega, ?_⟩
    have htake : (n :: rest).find? (fun doc => !(doc.version?.getD 1 == n.version?.getD 1
        && decide (3 ≤ loadFailureCount s))) = some n := by
      rw [List.find?_cons_of_pos (by simp [hfail])]
    rw [htake]
    dsimp only
    rw [hone n hn hno]

/-! ### Along every history -/

theorem published_append (es es' : List OrchestratorEvent) :
    published (es ++ es') = published es ++ published es' := List.filterMap_append ..

theorem orchestratorAfter_append (default_code : String) (es : List OrchestratorEvent)
    (e : OrchestratorEvent) : orchestratorAfter default_code (es ++ [e]) =
      (orchestratorAfter default_code es).step default_code e := by
  rw [orchestratorAfter, List.foldl_append]
  rfl

/-- **Every history is reflected** in the store it leaves. -/
theorem reflects_orchestratorAfter (default_code : String) (es : List OrchestratorEvent)
    (hpos : ∀ p ∈ published es, 0 < p.1) :
    (orchestratorAfter default_code es).store.Reflects default_code (published es)
      (orchestratorAfter default_code es).runs := by
  induction es using List.reverseRecOn with
  | nil =>
    have hempty : ∀ d : MemoryDoc, d ∉ (KeyedStore.empty : KeyedStore ℕ MemoryDoc MemoryDoc.id) :=
      fun d => List.not_mem_nil
    exact ⟨fun d hd => absurd hd (hempty d), fun d hd => absurd hd (hempty d), by simp [published],
      fun d hd => absurd hd (hempty d), fun d hd => absurd hd (hempty d), fun _ => rfl⟩
  | append_singleton es e ih =>
    rw [published_append] at hpos ⊢
    have h := ih fun p hp => hpos p (List.mem_append_left _ hp)
    rw [orchestratorAfter_append]
    rcases e with _ | ⟨version, code⟩ | failed
    · have hpub : published es ++ published [.seed] = published es := List.append_nil _
      rw [hpub] at hpos ⊢
      simp only [OrchestratorState.step, seedOrchestratorV0]
      rcases hf : (orchestratorAfter default_code es).store.docs.values.find? fun d =>
          d.isOrchestrator && d.version?.getD 0 == 0 with _ | d
      · rw [hf]
        exact h.create_version (by simp [Json.get?, Json.asU64?]) (.inr ⟨rfl, rfl, rfl⟩)
      · rw [hf]
        have hd := List.find?_some hf
        simp only [Bool.and_eq_true, beq_iff_eq] at hd
        exact h.rewrite_seed hpos (List.mem_of_find?_eq_some hf) hd.1 hd.2
    · exact h.create_version (by simp [Json.get?, Json.asU64?]) (.inl rfl)
    · have hpub : published es ++ published [.run failed] = published es := List.append_nil _
      rw [hpub]
      rcases failed with _ | _
      · exact h.reset _
      · exact h.record _

/-- The version documents of a reflecting store: their numbers are 0 or published. -/
private theorem DocStore.Reflects.version_cases {default_code : String}
    {versions : List (ℕ × String)} {runs : List OrchestratorRun} {s : DocStore}
    (h : s.Reflects default_code versions runs) {d : MemoryDoc} (hd : d ∈ s.docs)
    (ho : d.isOrchestrator = true) :
    (∃ p ∈ versions, d.version?.getD 0 = p.1 ∧ d.content = .text p.2) ∨
      (d.version?.getD 0 = 0 ∧ d.content = .text default_code) := by
  rcases h.sound d hd ho with ⟨p, hp, hv, hc⟩ | ⟨hv, hc⟩
  · exact .inl ⟨p, hp, by rw [hv, Option.getD_some], hc⟩
  · exact .inr ⟨by rw [hv, Option.getD_some], hc⟩

/-- What the loader returns, in terms of the published versions. -/
private theorem DocStore.Reflects.load_cases {default_code : String}
    {versions : List (ℕ × String)} {runs : List OrchestratorRun} {s : DocStore}
    (h : s.Reflects default_code versions runs) (hpos : ∀ p ∈ versions, 0 < p.1) :
    (versions = [] ∧ loadOrchestratorFromDocs default_code s true = (.text default_code, 0)) ∨
      ∃ p ∈ versions, (∀ u ∈ versions, u.1 ≤ p.1) ∧
        ((streak runs < 3 ∧ loadOrchestratorFromDocs default_code s true = (.text p.2, p.1)) ∨
          (3 ≤ streak runs ∧
            ((∃ q ∈ versions, q.1 < p.1 ∧ (∀ u ∈ versions, u.1 < p.1 → u.1 ≤ q.1) ∧
                loadOrchestratorFromDocs default_code s true = (.text q.2, q.1)) ∨
              ((∀ u ∈ versions, u.1 = p.1) ∧
                loadOrchestratorFromDocs default_code s true = (.text default_code, 0))))) := by
  have hdoc : ∀ u ∈ versions, ∃ d ∈ s.docs, d.isOrchestrator = true ∧
      d.version?.getD 0 = u.1 := by
    intro u hu
    obtain ⟨d, hd, ho, hv⟩ := h.complete u hu
    exact ⟨d, hd, ho, by rw [hv, Option.getD_some]⟩
  have hsome : ∀ d ∈ s.docs, d.isOrchestrator = true → d.version?.isSome = true := by
    intro d hd ho
    rcases h.sound d hd ho with ⟨p, -, hv, -⟩ | ⟨hv, -⟩ <;> simp [hv]
  have hnil : (∀ u ∈ versions, False) → versions = [] := List.eq_nil_iff_forall_not_mem.mpr
  rw [← h.loadFailureCount_eq]
  obtain ⟨hnone, hr⟩ | ⟨n, hn, hno, hmax, hr⟩ := T3Claw.load_cases default_code hsome
  · refine .inl ⟨hnil fun u hu => ?_, hr⟩
    obtain ⟨d, hd, ho, -⟩ := hdoc u hu
    simp [hnone d hd] at ho
  obtain ⟨p, hp, hver, hcont⟩ | ⟨hver, hcont⟩ := h.version_cases hn hno
  · have hle : ∀ u ∈ versions, u.1 ≤ p.1 := by
      intro u hu
      obtain ⟨d, hd, ho, hv⟩ := hdoc u hu
      rw [← hv, ← hver]
      exact hmax d hd ho
    refine .inr ⟨p, hp, hle, ?_⟩
    rw [hver] at hr
    obtain ⟨hlt, hr⟩ | ⟨hge, ⟨d, hd, hdo, hdlt, hdmax, hr⟩ | ⟨hall, hr⟩⟩ := hr
    · exact .inl ⟨hlt, by rw [hr, hcont]⟩
    · refine .inr ⟨hge, ?_⟩
      have hbelow : ∀ u ∈ versions, u.1 < p.1 → u.1 ≤ d.version?.getD 0 := by
        intro u hu hlt
        obtain ⟨e, he, heo, hv⟩ := hdoc u hu
        rw [← hv] at hlt ⊢
        exact hdmax e he heo hlt
      obtain ⟨q, hq, hqv, hqc⟩ | ⟨hzero, hdc⟩ := h.version_cases hd hdo
      · rw [hqv] at hdlt hbelow
        exact .inl ⟨q, hq, hdlt, hbelow, by rw [hr, hqv, hqc]⟩
      · refine .inr ⟨fun u hu => (hle u hu).antisymm ?_, by rw [hr, hzero, hdc]⟩
        by_contra hlt
        have h1 := hbelow u hu (by omega)
        have h2 := hpos u hu
        omega
    · refine .inr ⟨hge, .inr ⟨fun u hu => ?_, hr⟩⟩
      obtain ⟨d, hd, ho, hv⟩ := hdoc u hu
      rw [← hv, hall d hd ho]
  · -- only the seeded document is there
    refine .inl ⟨hnil fun u hu => ?_, ?_⟩
    · obtain ⟨d, hd, ho, hv⟩ := hdoc u hu
      have h1 := hmax d hd ho
      have h2 := hpos u hu
      omega
    · rw [hver] at hr
      obtain ⟨-, hr⟩ | ⟨-, ⟨d, -, -, hlt, -⟩ | ⟨-, hr⟩⟩ := hr
      · rw [hr, hcont]
      · exact absurd hlt (Nat.not_lt_zero _)
      · exact hr

section

variable {default_code : String} {versions : List (ℕ × String)} {runs : List OrchestratorRun}

/-- A published version is the target when it is the highest that is not excluded. -/
private theorem isTarget_version_iff (hpos : ∀ p ∈ versions, 0 < p.1) {q : ℕ × String}
    (hq : q ∈ versions) : IsTarget default_code versions runs (.text q.2, q.1) ↔
      ¬Excluded runs q.1 ∧ ∀ u ∈ versions, ¬Excluded runs u.1 → u.1 ≤ q.1 := by
  constructor
  · rintro (⟨p, -, hex, hmax, heq⟩ | ⟨-, heq⟩)
    · obtain ⟨-, hqp⟩ := Prod.mk.inj heq
      rw [hqp]
      exact ⟨hex, hmax⟩
    · obtain ⟨-, hzero⟩ := Prod.mk.inj heq
      have := hpos q hq
      omega
  · rintro ⟨hex, hmax⟩
    exact .inl ⟨q, hq, hex, hmax, rfl⟩

/-- The compiled-in code is the target when every version is excluded. -/
private theorem isTarget_default_iff (hpos : ∀ p ∈ versions, 0 < p.1) :
    IsTarget default_code versions runs (.text default_code, 0) ↔
      ∀ u ∈ versions, Excluded runs u.1 := by
  constructor
  · rintro (⟨p, hp, -, -, heq⟩ | ⟨hall, -⟩)
    · obtain ⟨-, hzero⟩ := Prod.mk.inj heq
      have := hpos p hp
      omega
    · exact hall
  · exact fun hall => .inr ⟨hall, rfl⟩

private theorem newest_iff {p : ℕ × String} (hp : p ∈ versions)
    (hmax : ∀ u ∈ versions, u.1 ≤ p.1) {v : ℕ} : Newest versions v ↔ v = p.1 := by
  constructor
  · rintro ⟨⟨q, hq, rfl⟩, hv⟩
    exact (hmax q hq).antisymm (hv p hp)
  · rintro rfl
    exact ⟨⟨p, hp, rfl⟩, hmax⟩

end

/-- **When rollback is exact.** After every history, the loader returns what it should
exactly when the current streak and the record of the newest version agree, and — if the
newest version is excluded — the next lower one is not. -/
theorem load_isTarget_iff (default_code : String) (h : OrchestratorHistory) :
    IsTarget default_code (published h.events) (orchestratorAfter default_code h.events).runs
        (loadOrchestratorFromDocs default_code (orchestratorAfter default_code h.events).store
          true) ↔
      ∀ v, Newest (published h.events) v →
        ((3 ≤ streak (orchestratorAfter default_code h.events).runs ↔
          Excluded (orchestratorAfter default_code h.events).runs v) ∧
        (Excluded (orchestratorAfter default_code h.events).runs v →
          ∀ w, NextBelow (published h.events) v w →
            ¬Excluded (orchestratorAfter default_code h.events).runs w)) := by
  have hr := reflects_orchestratorAfter default_code h.events h.versions_pos
  have hpos := h.versions_pos
  generalize published h.events = versions at hr hpos ⊢
  generalize orchestratorAfter default_code h.events = s at hr ⊢
  obtain ⟨rfl, hl⟩ | ⟨p, hp, hmax, hl⟩ := hr.load_cases hpos
  · rw [hl, isTarget_default_iff hpos]
    simp [Newest]
  simp only [newest_iff hp hmax, forall_eq]
  obtain ⟨hlt, hl⟩ | ⟨hge, ⟨q, hq, hqp, hqmax, hl⟩ | ⟨hall, hl⟩⟩ := hl
  · -- no streak: the newest version is returned
    rw [hl, isTarget_version_iff hpos hp]
    have hno : ¬3 ≤ streak s.runs := by omega
    constructor
    · rintro ⟨hex, -⟩
      exact ⟨⟨fun h3 => absurd h3 hno, fun he => absurd he hex⟩, fun he => absurd he hex⟩
    · rintro ⟨hiff, -⟩
      exact ⟨fun he => hno (hiff.mpr he), fun u hu _ => hmax u hu⟩
  · -- a streak, and a version below the newest
    rw [hl, isTarget_version_iff hpos hq]
    have hnext : NextBelow versions p.1 q.1 := ⟨⟨q, hq, rfl⟩, hqp, hqmax⟩
    constructor
    · rintro ⟨hex, htop⟩
      have hexp : Excluded s.runs p.1 := by
        by_contra hn
        have := htop p hp hn
        omega
      refine ⟨⟨fun _ => hexp, fun _ => hge⟩, fun _ w hw => ?_⟩
      obtain ⟨⟨u, hu, rfl⟩, hup, humax⟩ := hw
      rwa [(hqmax u hu hup).antisymm (humax q hq hqp)]
    · rintro ⟨hiff, hbelow⟩
      have hexp := hiff.mp hge
      refine ⟨hbelow hexp q.1 hnext, fun u hu hn => hqmax u hu ?_⟩
      exact lt_of_le_of_ne (hmax u hu) fun heq => hn (heq ▸ hexp)
  · -- a streak, and the newest version is the only one
    rw [hl, isTarget_default_iff hpos]
    constructor
    · intro hex
      refine ⟨⟨fun _ => hex p hp, fun _ => hge⟩, fun _ w hw => ?_⟩
      obtain ⟨⟨u, hu, rfl⟩, hup, -⟩ := hw
      exact absurd (hall u hu) hup.ne
    · rintro ⟨hiff, -⟩ u hu
      rw [hall u hu]
      exact hiff.mp hge

/-! ### A version skipped without a failure -/

/-- Version 1 fails three times and version 2 is published: version 2, which never ran, is
skipped for version 1, which is excluded. -/
theorem load_skips_fresh_version : ¬∀ default_code (h : OrchestratorHistory),
    IsTarget default_code (published h.events) (orchestratorAfter default_code h.events).runs
      (loadOrchestratorFromDocs default_code (orchestratorAfter default_code h.events).store
        true) := by
  intro h
  have htarget := h "v0" ⟨[.publish 1 "v1", .run true, .run true, .run true, .publish 2 "v2"],
    by decide, by decide⟩
  have hload : loadOrchestratorFromDocs "v0" (orchestratorAfter "v0" [.publish 1 "v1", .run true,
      .run true, .run true, .publish 2 "v2"]).store true = (.text "v1", 1) := rfl
  rw [hload] at htarget
  have hruns : (orchestratorAfter "v0" [.publish 1 "v1", .run true, .run true, .run true,
      .publish 2 "v2"]).runs = [⟨1, true⟩, ⟨1, true⟩, ⟨1, true⟩] := rfl
  rw [hruns] at htarget
  obtain ⟨p, -, hex, -, heq⟩ | ⟨-, heq⟩ := htarget
  · obtain ⟨-, hone⟩ := Prod.mk.inj heq
    rw [← hone] at hex
    exact hex (by decide)
  · simp at heq

end T3Claw
