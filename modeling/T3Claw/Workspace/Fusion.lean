import Mathlib.Data.Rat.Defs
import Mathlib.Algebra.Order.Field.Rat
import Mathlib.Order.Bounds.Basic
import Mathlib.Tactic.Positivity
import T3Claw.Data.KeyedStore
import T3Claw.Data.Ranked
import T3Claw.Workspace.Search

/-!
# Fusion in exact arithmetic

`reciprocal_rank_fusion` and `weighted_score_fusion` with rational scores, and with the
order in which a hash map gives its entries as a parameter (`MapOrder`). The hits of both searches
are put together chunk by chunk in a map; its entries are normalised, filtered, stably sorted by
their scores and cut.

What comes out is always the best of the chunks by their documented scores. Which of several
chunks with the same score stands first, or is not cut off, is up to the order of the map: a
fusion is well defined exactly if no two chunks tie where it matters
(`fusion_well_defined_iff`).
-/

namespace T3Claw.Workspace.Fusion

/-- What fusing reads of `SearchConfig`. The setters refuse negative weights. -/
structure FusionConfig where
  limit : ℕ
  rrf_k : ℕ
  min_score : ℚ
  fts_weight : ℚ
  vector_weight : ℚ
  fts_weight_nonneg : 0 ≤ fts_weight
  vector_weight_nonneg : 0 ≤ vector_weight

/-- `ChunkInfo`, and `SearchResult`. -/
structure FusedChunk where
  chunk_id : ℕ
  document_id : ℕ
  document_path : List Char
  content : List Char
  score : ℚ
  fts_rank : Option ℕ
  vector_rank : Option ℕ
  deriving DecidableEq

/-- The hits of a search: each chunk once, with a rank that begins with 1. -/
structure RankedList where
  results : List RankedResult
  distinct : (results.map RankedResult.chunk_id).Nodup
  ranks_pos : ∀ result ∈ results, 0 < result.rank

/-- The order in which a hash map gives its entries. -/
structure MapOrder where
  iterate : List FusedChunk → List FusedChunk
  perm : ∀ entries, (iterate entries).Perm entries

/-- A search method. -/
inductive SearchMethod where
  | fts
  | vector

/-- The entries by chunk. -/
abbrev ChunkScores := KeyedStore ℕ FusedChunk FusedChunk.chunk_id

/-- A rank is noted. -/
def FusedChunk.withRank (method : SearchMethod) (rank : ℕ) (info : FusedChunk) : FusedChunk :=
  match method with
  | .fts => { info with fts_rank := some rank }
  | .vector => { info with vector_rank := some rank }

@[simp] theorem FusedChunk.withRank_chunk_id (method : SearchMethod) (rank : ℕ)
    (info : FusedChunk) : (info.withRank method rank).chunk_id = info.chunk_id := by
  cases method <;> rfl

@[simp] theorem FusedChunk.withRank_score (method : SearchMethod) (rank : ℕ)
    (info : FusedChunk) : (info.withRank method rank).score = info.score := by
  cases method <;> rfl

/-! ### The two fusions -/

/-- A hit: another rank of a chunk that has an entry, or an entry. -/
def addRanked (worth : ℕ → ℚ) (method : SearchMethod) (chunk_scores : ChunkScores)
    (result : RankedResult) : ChunkScores :=
  match chunk_scores.get? result.chunk_id with
  | some _ =>
    chunk_scores.modify result.chunk_id
      (fun info =>
        { info with score := info.score + worth result.rank }.withRank method result.rank)
      fun _ => FusedChunk.withRank_chunk_id ..
  | none =>
    chunk_scores.insert
      ((⟨result.chunk_id, result.document_id, result.document_path, result.content,
        worth result.rank, none, none⟩ : FusedChunk).withRank method result.rank)

/-- The entries of the hits of both searches. -/
def combine (fts_worth vector_worth : ℕ → ℚ) (fts_results vector_results : List RankedResult) :
    ChunkScores :=
  vector_results.foldl (addRanked vector_worth .vector)
    (fts_results.foldl (addRanked fts_worth .fts) .empty)

/-- Scores are divided by the greatest, if that is positive. -/
def normalizeScores (results : List FusedChunk) : List FusedChunk :=
  match (results.map FusedChunk.score).max? with
  | none => results
  | some max_score =>
    if 0 < max_score then
      results.map fun result => { result with score := result.score / max_score }
    else results

/-- The end of both fusions: normalise, drop what scores too little, sort, cut. -/
def rankAndCut (config : FusionConfig) (results : List FusedChunk) : List FusedChunk :=
  let results := normalizeScores results
  let results := if 0 < config.min_score then
      results.filter fun result => config.min_score ≤ result.score
    else results
  (ranked FusedChunk.score results).take config.limit

/-- What a rank is worth. -/
def worth (config : FusionConfig) : FusionStrategy → SearchMethod → ℕ → ℚ
  | .rrf, _, rank => 1 / (config.rrf_k + rank)
  | .weightedScore, .fts, rank => config.fts_weight * (1 / rank)
  | .weightedScore, .vector, rank => config.vector_weight * (1 / rank)

/-- `reciprocal_rank_fusion` and `weighted_score_fusion`. -/
def fuse (strategy : FusionStrategy) (order : MapOrder)
    (fts_results vector_results : List RankedResult) (config : FusionConfig) : List FusedChunk :=
  rankAndCut config <| order.iterate
    (combine (worth config strategy .fts) (worth config strategy .vector) fts_results
      vector_results).values

/-- `reciprocal_rank_fusion`. -/
def reciprocalRankFusion := fuse .rrf

/-- `weighted_score_fusion`. -/
def weightedScoreFusion := fuse .weightedScore

/-! ### What is documented -/

/-- What a search adds to a chunk's score. -/
def listScore (worth : ℕ → ℚ) (results : List RankedResult) (chunk_id : ℕ) : ℚ :=
  match results.find? fun result => result.chunk_id = chunk_id with
  | none => 0
  | some result => worth result.rank

section

variable (strategy : FusionStrategy) (config : FusionConfig) (fts vector : RankedList)

/-- The documented score, not normalised. -/
def documentedScore (chunk_id : ℕ) : ℚ :=
  listScore (worth config strategy .fts) fts.results chunk_id +
    listScore (worth config strategy .vector) vector.results chunk_id

/-- The chunks that are hits of a search. -/
def chunkIds : Finset ℕ :=
  (fts.results.map RankedResult.chunk_id ++ vector.results.map RankedResult.chunk_id).toFinset

/-- The greatest of the documented scores. -/
def IsMaxScore (max_score : ℚ) : Prop :=
  IsGreatest (documentedScore strategy config fts vector '' chunkIds fts vector) max_score

/-- The best chunks, by their documented scores divided by the greatest. -/
structure BestChunks (max_score : ℚ) (results : List FusedChunk) : Prop where
  distinct : (results.map FusedChunk.chunk_id).Nodup
  sorted : results.Pairwise fun a b => b.score ≤ a.score
  mem : ∀ result ∈ results, result.chunk_id ∈ chunkIds fts vector
  score : ∀ result ∈ results,
    result.score = documentedScore strategy config fts vector result.chunk_id / max_score
  min_score : ∀ result ∈ results, config.min_score ≤ result.score
  count : results.length = min config.limit ((chunkIds fts vector).filter fun chunk_id =>
    config.min_score ≤ documentedScore strategy config fts vector chunk_id / max_score).card
  top : ∀ chunk_id ∈ chunkIds fts vector,
    config.min_score ≤ documentedScore strategy config fts vector chunk_id / max_score →
      (∀ result ∈ results, result.chunk_id ≠ chunk_id) → ∀ result ∈ results,
        documentedScore strategy config fts vector chunk_id / max_score ≤ result.score

/-- A fusion gives the best chunks, the same ones in any order of the map, and, when both searches
weigh the same, whichever of them comes first. -/
structure WellDefined : Prop where
  best : ∀ (order : MapOrder) (max_score : ℚ), IsMaxScore strategy config fts vector max_score →
    BestChunks strategy config fts vector max_score
      (fuse strategy order fts.results vector.results config)
  none : ∀ order : MapOrder, chunkIds fts vector = ∅ →
    fuse strategy order fts.results vector.results config = []
  order : ∀ order order' : MapOrder, fuse strategy order fts.results vector.results config =
    fuse strategy order' fts.results vector.results config
  swap : strategy = .rrf ∨ config.fts_weight = config.vector_weight →
    ∀ order order' : MapOrder,
      (fuse strategy order fts.results vector.results config).map
          (fun result => (result.chunk_id, result.score)) =
        (fuse strategy order' vector.results fts.results config).map
          fun result => (result.chunk_id, result.score)

/-- No two chunks have the same score, unless it is too low, or as many chunks as are wanted
score higher. -/
def NoTiedChunks : Prop :=
  ∀ max_score : ℚ, IsMaxScore strategy config fts vector max_score →
    ∀ a ∈ chunkIds fts vector, ∀ b ∈ chunkIds fts vector, a ≠ b →
      documentedScore strategy config fts vector a =
        documentedScore strategy config fts vector b →
      config.min_score ≤ documentedScore strategy config fts vector a / max_score →
        config.limit ≤ ((chunkIds fts vector).filter fun c =>
          documentedScore strategy config fts vector a <
            documentedScore strategy config fts vector c).card

end

/-! ### What the map holds -/

/-- The score of a chunk's entry. -/
def scoreAt (chunk_scores : ChunkScores) (chunk_id : ℕ) : Option ℚ :=
  (chunk_scores.get? chunk_id).map FusedChunk.score

theorem scoreAt_addRanked (worth : ℕ → ℚ) (method : SearchMethod) (chunk_scores : ChunkScores)
    (result : RankedResult) (chunk_id : ℕ) :
    scoreAt (addRanked worth method chunk_scores result) chunk_id =
      if chunk_id = result.chunk_id then
        some ((scoreAt chunk_scores chunk_id).getD 0 + worth result.rank)
      else scoreAt chunk_scores chunk_id := by
  rw [scoreAt, scoreAt, addRanked]
  cases hget : chunk_scores.get? result.chunk_id with
  | none =>
    simp only [KeyedStore.get?_insert, FusedChunk.withRank_chunk_id]
    split_ifs with h
    · simp [h, hget]
    · rfl
  | some info =>
    simp only
    split_ifs with h
    · subst h
      rw [KeyedStore.get?_modify_self, hget]
      simp
    · rw [KeyedStore.get?_modify_of_ne _ h]

/-- Each hit of a search adds to the score of its chunk. -/
theorem scoreAt_foldl (worth : ℕ → ℚ) (method : SearchMethod) {results : List RankedResult}
    (h : (results.map RankedResult.chunk_id).Nodup) (chunk_scores : ChunkScores) (chunk_id : ℕ) :
    scoreAt (results.foldl (addRanked worth method) chunk_scores) chunk_id =
      if chunk_id ∈ results.map RankedResult.chunk_id then
        some ((scoreAt chunk_scores chunk_id).getD 0 + listScore worth results chunk_id)
      else scoreAt chunk_scores chunk_id := by
  induction results generalizing chunk_scores with
  | nil => rfl
  | cons result results ih =>
    obtain ⟨hnot, hrest⟩ := List.nodup_cons.mp h
    rw [List.foldl_cons, ih hrest, scoreAt_addRanked, List.map_cons, listScore, listScore,
      List.find?_cons]
    by_cases hid : chunk_id = result.chunk_id
    · subst hid
      simp [hnot]
    · have hne : ¬result.chunk_id = chunk_id := fun heq => hid heq.symm
      simp [hid, hne]

section

variable {strategy : FusionStrategy} {config : FusionConfig} {fts vector : RankedList}

/-- The entries, in one of their orders. -/
def entries (strategy : FusionStrategy) (config : FusionConfig) (fts vector : RankedList) :
    ChunkScores :=
  combine (worth config strategy .fts) (worth config strategy .vector) fts.results vector.results

theorem listScore_eq_zero {worth : ℕ → ℚ} {results : List RankedResult} {chunk_id : ℕ}
    (h : chunk_id ∉ results.map RankedResult.chunk_id) :
    listScore worth results chunk_id = 0 := by
  rw [listScore, List.find?_eq_none.mpr]
  intro result hresult heq
  exact h (List.mem_map.mpr ⟨result, hresult, of_decide_eq_true heq⟩)

theorem mem_chunkIds {chunk_id : ℕ} : chunk_id ∈ chunkIds fts vector ↔
    chunk_id ∈ fts.results.map RankedResult.chunk_id ∨
      chunk_id ∈ vector.results.map RankedResult.chunk_id := by
  rw [chunkIds, List.mem_toFinset, List.mem_append]

theorem scoreAt_entries (strategy : FusionStrategy) (config : FusionConfig)
    (fts vector : RankedList) (chunk_id : ℕ) :
    scoreAt (entries strategy config fts vector) chunk_id =
      if chunk_id ∈ chunkIds fts vector then
        some (documentedScore strategy config fts vector chunk_id)
      else none := by
  have hempty : scoreAt .empty chunk_id = none := rfl
  rw [entries, combine, scoreAt_foldl _ _ vector.distinct, scoreAt_foldl _ _ fts.distinct, hempty,
    documentedScore]
  simp only [mem_chunkIds]
  by_cases hfts : chunk_id ∈ fts.results.map RankedResult.chunk_id
  · by_cases hvector : chunk_id ∈ vector.results.map RankedResult.chunk_id
    · simp only [if_pos hfts, if_pos hvector, if_pos (Or.inl hfts), Option.getD_none,
        Option.getD_some, zero_add]
    · simp only [if_pos hfts, if_neg hvector, if_pos (Or.inl hfts), Option.getD_none, zero_add,
        listScore_eq_zero hvector, add_zero]
  · by_cases hvector : chunk_id ∈ vector.results.map RankedResult.chunk_id
    · simp only [if_neg hfts, if_pos hvector, if_pos (Or.inr hvector), Option.getD_none, zero_add,
        listScore_eq_zero hfts]
    · simp only [if_neg hfts, if_neg hvector, if_neg (not_or.mpr ⟨hfts, hvector⟩)]

/-- An entry has the documented score of its chunk. -/
theorem mem_entries {info : FusedChunk} (h : info ∈ (entries strategy config fts vector).values) :
    info.chunk_id ∈ chunkIds fts vector ∧
      info.score = documentedScore strategy config fts vector info.chunk_id := by
  have hscore := scoreAt_entries strategy config fts vector info.chunk_id
  rw [scoreAt, KeyedStore.get?_key h, Option.map_some] at hscore
  split_ifs at hscore with hid
  exact ⟨hid, Option.some.inj hscore⟩

theorem exists_entry (strategy : FusionStrategy) (config : FusionConfig) {chunk_id : ℕ}
    (h : chunk_id ∈ chunkIds fts vector) :
    ∃ info ∈ (entries strategy config fts vector).values, info.chunk_id = chunk_id := by
  have hscore := scoreAt_entries strategy config fts vector chunk_id
  rw [if_pos h, scoreAt, Option.map_eq_some_iff] at hscore
  obtain ⟨info, hget, -⟩ := hscore
  exact ⟨info, KeyedStore.mem_of_get? hget, KeyedStore.key_of_get? hget⟩

theorem worth_nonneg (strategy : FusionStrategy) (config : FusionConfig) (method : SearchMethod)
    (rank : ℕ) : 0 ≤ worth config strategy method rank := by
  have hfts := config.fts_weight_nonneg
  have hvector := config.vector_weight_nonneg
  cases strategy <;> cases method <;> simp only [worth] <;> positivity

theorem listScore_nonneg {worth : ℕ → ℚ} (h : ∀ rank, 0 ≤ worth rank)
    (results : List RankedResult) (chunk_id : ℕ) : 0 ≤ listScore worth results chunk_id := by
  rw [listScore]
  split
  · exact le_rfl
  · exact h _

theorem documentedScore_nonneg (chunk_id : ℕ) :
    0 ≤ documentedScore strategy config fts vector chunk_id :=
  add_nonneg (listScore_nonneg (worth_nonneg strategy config .fts) _ _)
    (listScore_nonneg (worth_nonneg strategy config .vector) _ _)

/-! ### Normalising and filtering -/

/-- An entry with its score divided. -/
def FusedChunk.normalized (max_score : ℚ) (info : FusedChunk) : FusedChunk :=
  { info with score := info.score / max_score }

/-- The normalised entries that score enough. -/
def eligible (config : FusionConfig) (max_score : ℚ) (results : List FusedChunk) :
    List FusedChunk :=
  (results.map (FusedChunk.normalized max_score)).filter fun result =>
    config.min_score ≤ result.score

theorem mem_eligible {max_score : ℚ} {results : List FusedChunk} {result : FusedChunk} :
    result ∈ eligible config max_score results ↔
      (∃ info ∈ results, info.normalized max_score = result) ∧
        config.min_score ≤ result.score := by
  rw [eligible, List.mem_filter, List.mem_map, decide_eq_true_iff]

theorem eligible_perm {results results' : List FusedChunk} (max_score : ℚ)
    (h : results.Perm results') :
    (eligible config max_score results).Perm (eligible config max_score results') :=
  (h.map _).filter _

theorem eligible_ids_sublist (max_score : ℚ) (results : List FusedChunk) :
    ((eligible config max_score results).map FusedChunk.chunk_id).Sublist
      (results.map FusedChunk.chunk_id) := by
  have hsublist := (List.filter_sublist (p := fun result : FusedChunk =>
    decide (config.min_score ≤ result.score))
    (l := results.map (FusedChunk.normalized max_score))).map FusedChunk.chunk_id
  rwa [List.map_map] at hsublist

/-- A maximum that is not positive is zero, as are all the scores then. -/
theorem normalizeScores_eq {results : List FusedChunk} {max_score : ℚ}
    (hnonneg : ∀ info ∈ results, 0 ≤ info.score)
    (hmax : max_score ∈ results.map FusedChunk.score)
    (hle : ∀ info ∈ results, info.score ≤ max_score) :
    normalizeScores results = results.map (FusedChunk.normalized max_score) := by
  have hmax? : (results.map FusedChunk.score).max? = some max_score := by
    refine List.max?_eq_some_iff.mpr ⟨hmax, fun score hscore => ?_⟩
    obtain ⟨info, hinfo, rfl⟩ := List.mem_map.mp hscore
    exact hle info hinfo
  rw [normalizeScores, hmax?]
  simp only
  split_ifs with hpos
  · rfl
  · refine (List.map_id _).symm.trans (List.map_congr_left fun info hinfo => ?_)
    have hzero : info.score = 0 :=
      le_antisymm ((hle info hinfo).trans (not_lt.mp hpos)) (hnonneg info hinfo)
    rw [FusedChunk.normalized, hzero, zero_div, ← hzero]
    rfl

theorem rankAndCut_eq {results : List FusedChunk} {max_score : ℚ}
    (hnonneg : ∀ info ∈ results, 0 ≤ info.score)
    (hmax : max_score ∈ results.map FusedChunk.score)
    (hle : ∀ info ∈ results, info.score ≤ max_score) :
    rankAndCut config results =
      (ranked FusedChunk.score (eligible config max_score results)).take config.limit := by
  rw [rankAndCut, normalizeScores_eq hnonneg hmax hle, eligible]
  split_ifs with hpos
  · rfl
  · -- without a threshold, no score is too low
    congr 2
    refine (List.filter_eq_self.mpr fun result hresult => ?_).symm
    obtain ⟨info, hinfo, rfl⟩ := List.mem_map.mp hresult
    obtain ⟨top, htop, rfl⟩ := List.mem_map.mp hmax
    exact decide_eq_true ((not_lt.mp hpos).trans
      (div_nonneg (hnonneg info hinfo) (hnonneg top htop)))

/-! ### What a fusion gives -/

variable {max_score : ℚ}

/-- There is a greatest score when there is a chunk. -/
theorem exists_isMaxScore (strategy : FusionStrategy) (config : FusionConfig)
    (h : (chunkIds fts vector).Nonempty) :
    ∃ max_score, IsMaxScore strategy config fts vector max_score := by
  obtain ⟨chunk_id, hid, hmax⟩ := (chunkIds fts vector).exists_max_image
    (documentedScore strategy config fts vector) h
  exact ⟨_, ⟨chunk_id, hid, rfl⟩, by rintro _ ⟨other, hother, rfl⟩; exact hmax other hother⟩

theorem fuse_eq (hmax : IsMaxScore strategy config fts vector max_score) (order : MapOrder) :
    fuse strategy order fts.results vector.results config =
      (ranked FusedChunk.score (eligible config max_score
        (order.iterate (entries strategy config fts vector).values))).take config.limit := by
  have hmem : ∀ info ∈ order.iterate (entries strategy config fts vector).values,
      info.chunk_id ∈ chunkIds fts vector ∧
        info.score = documentedScore strategy config fts vector info.chunk_id := fun info hinfo =>
    mem_entries ((order.perm _).mem_iff.mp hinfo)
  refine rankAndCut_eq (fun info hinfo => ?_) ?_ fun info hinfo => ?_
  · rw [(hmem info hinfo).2]
    exact documentedScore_nonneg _
  · obtain ⟨chunk_id, hid, rfl⟩ := hmax.1
    obtain ⟨info, hinfo, rfl⟩ := exists_entry strategy config hid
    exact List.mem_map.mpr ⟨info, (order.perm _).mem_iff.mpr hinfo, (mem_entries hinfo).2⟩
  · rw [(hmem info hinfo).2]
    exact hmax.2 ⟨_, (hmem info hinfo).1, rfl⟩

/-- The chunks that score enough are those of the entries. -/
theorem eligible_ids (order : MapOrder) (chunk_id : ℕ) :
    (∃ result ∈ eligible config max_score
      (order.iterate (entries strategy config fts vector).values), result.chunk_id = chunk_id) ↔
      chunk_id ∈ chunkIds fts vector ∧
        config.min_score ≤ documentedScore strategy config fts vector chunk_id / max_score := by
  constructor
  · rintro ⟨result, hresult, rfl⟩
    obtain ⟨⟨info, hinfo, rfl⟩, hmin⟩ := mem_eligible.mp hresult
    obtain ⟨hid, hscore⟩ := mem_entries ((order.perm _).mem_iff.mp hinfo)
    rw [FusedChunk.normalized, hscore] at hmin
    exact ⟨hid, hmin⟩
  · rintro ⟨hid, hmin⟩
    obtain ⟨info, hinfo, rfl⟩ := exists_entry strategy config hid
    refine ⟨info.normalized max_score, mem_eligible.mpr
      ⟨⟨info, (order.perm _).mem_iff.mpr hinfo, rfl⟩, ?_⟩, rfl⟩
    rwa [FusedChunk.normalized, (mem_entries hinfo).2]

theorem score_of_mem_eligible {order : MapOrder} {result : FusedChunk}
    (h : result ∈ eligible config max_score
      (order.iterate (entries strategy config fts vector).values)) :
    result.score = documentedScore strategy config fts vector result.chunk_id / max_score := by
  obtain ⟨⟨info, hinfo, rfl⟩, -⟩ := mem_eligible.mp h
  rw [FusedChunk.normalized, (mem_entries ((order.perm _).mem_iff.mp hinfo)).2]

theorem eligible_ids_nodup (order : MapOrder) :
    ((eligible config max_score
      (order.iterate (entries strategy config fts vector).values)).map
        FusedChunk.chunk_id).Nodup :=
  (((order.perm _).map FusedChunk.chunk_id).nodup_iff.mpr
    (entries strategy config fts vector).nodup).sublist (eligible_ids_sublist _ _)

theorem eligible_nodup (order : MapOrder) :
    (eligible config max_score
      (order.iterate (entries strategy config fts vector).values)).Nodup :=
  (eligible_ids_nodup order).of_map _

/-- Entries are counted by their chunks. -/
theorem length_eq_card {results : List FusedChunk} {ids : Finset ℕ}
    (hnodup : (results.map FusedChunk.chunk_id).Nodup)
    (h : ∀ chunk_id, (∃ result ∈ results, result.chunk_id = chunk_id) ↔ chunk_id ∈ ids) :
    results.length = ids.card := by
  rw [← List.length_map FusedChunk.chunk_id, ← List.toFinset_card_of_nodup hnodup]
  congr 1
  ext chunk_id
  rw [List.mem_toFinset, List.mem_map, h]

theorem length_eligible (order : MapOrder) :
    (eligible config max_score
      (order.iterate (entries strategy config fts vector).values)).length =
      ((chunkIds fts vector).filter fun chunk_id =>
        config.min_score ≤
          documentedScore strategy config fts vector chunk_id / max_score).card :=
  length_eq_card (eligible_ids_nodup order) fun chunk_id => by
    rw [eligible_ids, Finset.mem_filter]

/-- How many entries score higher is how many chunks do. -/
theorem higher_eligible (hmax : IsMaxScore strategy config fts vector max_score)
    (order : MapOrder) {result : FusedChunk}
    (h : result ∈ eligible config max_score
      (order.iterate (entries strategy config fts vector).values)) :
    higher FusedChunk.score (eligible config max_score
        (order.iterate (entries strategy config fts vector).values)) result =
      ((chunkIds fts vector).filter fun c =>
        documentedScore strategy config fts vector result.chunk_id <
          documentedScore strategy config fts vector c).card := by
  obtain ⟨-, hmin⟩ := mem_eligible.mp h
  have hscore := score_of_mem_eligible h
  rw [higher, List.countP_eq_length_filter]
  refine length_eq_card ((eligible_ids_nodup order).sublist (List.filter_sublist.map _))
    fun chunk_id => ?_
  rw [Finset.mem_filter]
  constructor
  · rintro ⟨other, hother, rfl⟩
    obtain ⟨hmem, hlt⟩ := List.mem_filter.mp hother
    obtain ⟨hid, -⟩ := (eligible_ids order other.chunk_id).mp ⟨other, hmem, rfl⟩
    have hlt := of_decide_eq_true hlt
    rw [hscore, score_of_mem_eligible hmem] at hlt
    have hle := hmax.2 ⟨_, hid, rfl⟩
    refine ⟨hid, lt_of_not_ge fun hge => absurd hlt (not_lt.mpr ?_)⟩
    exact div_le_div_of_nonneg_right hge ((documentedScore_nonneg _).trans hle)
  · rintro ⟨hid, hlt⟩
    have hle := hmax.2 ⟨_, hid, rfl⟩
    have hpos : 0 < max_score := (documentedScore_nonneg _).trans_lt (hlt.trans_le hle)
    have hlt' := div_lt_div_of_pos_right hlt hpos
    obtain ⟨other, hother, rfl⟩ := (eligible_ids order chunk_id).mpr
      ⟨hid, hmin.trans (hscore.le.trans hlt'.le)⟩
    refine ⟨other, List.mem_filter.mpr ⟨hother, decide_eq_true ?_⟩, rfl⟩
    rwa [hscore, score_of_mem_eligible hother]

/-- Chunks that do not tie have entries that do not. -/
theorem noTies_eligible (hmax : IsMaxScore strategy config fts vector max_score)
    (h : NoTiedChunks strategy config fts vector) (order : MapOrder) :
    NoTies FusedChunk.score config.limit (eligible config max_score
      (order.iterate (entries strategy config fts vector).values)) := by
  intro a ha b hb hne heq
  rw [higher_eligible hmax order ha]
  obtain ⟨hida, hmin⟩ := (eligible_ids order a.chunk_id).mp ⟨a, ha, rfl⟩
  obtain ⟨hidb, -⟩ := (eligible_ids order b.chunk_id).mp ⟨b, hb, rfl⟩
  refine h max_score hmax a.chunk_id hida b.chunk_id hidb (fun hid => hne ?_) ?_ hmin
  · exact List.inj_on_of_nodup_map (eligible_ids_nodup order) ha hb hid
  · rw [score_of_mem_eligible ha, score_of_mem_eligible hb] at heq
    obtain hzero | hpos := ((documentedScore_nonneg _).trans
      (hmax.2 ⟨_, hida, rfl⟩)).eq_or_lt
    · -- all scores are zero
      have hall : ∀ c ∈ chunkIds fts vector,
          documentedScore strategy config fts vector c = 0 := fun c hc =>
        le_antisymm ((hmax.2 ⟨c, hc, rfl⟩).trans hzero.symm.le) (documentedScore_nonneg c)
      rw [hall _ hida, hall _ hidb]
    · exact (div_left_inj' hpos.ne').mp heq

/-- **A fusion gives the best chunks**, in any order of the map. -/
theorem bestChunks_fuse (hmax : IsMaxScore strategy config fts vector max_score)
    (order : MapOrder) :
    BestChunks strategy config fts vector max_score
      (fuse strategy order fts.results vector.results config) := by
  rw [fuse_eq hmax order]
  have hsub : ∀ result ∈ (ranked FusedChunk.score (eligible config max_score (order.iterate
      (entries strategy config fts vector).values))).take config.limit,
        result ∈ eligible config max_score
          (order.iterate (entries strategy config fts vector).values) :=
    fun result hresult => mem_ranked.mp (List.mem_of_mem_take hresult)
  constructor
  · exact (((ranked_perm _ _).map _).nodup_iff.mpr (eligible_ids_nodup order)).sublist
      ((List.take_sublist _ _).map _)
  · exact (pairwise_ranked _ _).sublist (List.take_sublist _ _)
  · exact fun result hresult =>
      ((eligible_ids order result.chunk_id).mp ⟨result, hsub result hresult, rfl⟩).1
  · exact fun result hresult => score_of_mem_eligible (hsub result hresult)
  · exact fun result hresult => (mem_eligible.mp (hsub result hresult)).2
  · rw [List.length_take, (ranked_perm _ _).length_eq, length_eligible]
  · intro chunk_id hid hmin hnot result hresult
    obtain ⟨other, hother, rfl⟩ := (eligible_ids order chunk_id).mpr ⟨hid, hmin⟩
    rw [← score_of_mem_eligible hother]
    exact le_of_not_mem_take hresult hother fun hmem => hnot other hmem rfl

theorem fuse_of_empty (h : chunkIds fts vector = ∅) (order : MapOrder) :
    fuse strategy order fts.results vector.results config = [] := by
  have hnil : order.iterate (entries strategy config fts vector).values = [] := by
    refine List.eq_nil_iff_forall_not_mem.mpr fun info hinfo => ?_
    have hid := (mem_entries ((order.perm _).mem_iff.mp hinfo)).1
    rw [h] at hid
    exact absurd hid (Finset.notMem_empty _)
  rw [fuse, ← entries, hnil, rankAndCut]
  have hnone : normalizeScores [] = [] := rfl
  have hranked : ranked FusedChunk.score [] = [] := rfl
  simp only [hnone, List.filter_nil, ite_self, hranked, List.take_nil]

/-- Without ties, the order of the map makes no difference. -/
theorem fuse_order (h : NoTiedChunks strategy config fts vector) (order order' : MapOrder) :
    fuse strategy order fts.results vector.results config =
      fuse strategy order' fts.results vector.results config := by
  obtain hempty | hne := (chunkIds fts vector).eq_empty_or_nonempty
  · rw [fuse_of_empty hempty, fuse_of_empty hempty]
  · obtain ⟨max_score, hmax⟩ := exists_isMaxScore strategy config hne
    rw [fuse_eq hmax order, fuse_eq hmax order']
    exact take_ranked_eq (eligible_nodup order)
      (eligible_perm _ ((order.perm _).trans (order'.perm _).symm)) (noTies_eligible hmax h order)

/-- What of a result does not depend on which search comes first. -/
def FusedChunk.scored (result : FusedChunk) : ℕ × ℚ := (result.chunk_id, result.score)

theorem map_fuse (hmax : IsMaxScore strategy config fts vector max_score) (order : MapOrder) :
    (fuse strategy order fts.results vector.results config).map FusedChunk.scored =
      (ranked Prod.snd ((eligible config max_score
        (order.iterate (entries strategy config fts vector).values)).map
          FusedChunk.scored)).take config.limit := by
  rw [fuse_eq hmax order, List.map_take, ranked_map]
  rfl

theorem mem_map_eligible {order : MapOrder} {scored : ℕ × ℚ} :
    scored ∈ (eligible config max_score
        (order.iterate (entries strategy config fts vector).values)).map FusedChunk.scored ↔
      scored.1 ∈ chunkIds fts vector ∧
        config.min_score ≤ documentedScore strategy config fts vector scored.1 / max_score ∧
        scored.2 = documentedScore strategy config fts vector scored.1 / max_score := by
  rw [List.mem_map]
  constructor
  · rintro ⟨result, hresult, rfl⟩
    obtain ⟨hid, hmin⟩ := (eligible_ids order result.chunk_id).mp ⟨result, hresult, rfl⟩
    exact ⟨hid, hmin, score_of_mem_eligible hresult⟩
  · rintro ⟨hid, hmin, hscore⟩
    obtain ⟨result, hresult, heq⟩ := (eligible_ids order scored.1).mpr ⟨hid, hmin⟩
    refine ⟨result, hresult, Prod.ext heq ?_⟩
    rw [hscore, ← heq]
    exact score_of_mem_eligible hresult

theorem nodup_map_eligible (order : MapOrder) :
    ((eligible config max_score
      (order.iterate (entries strategy config fts vector).values)).map
        FusedChunk.scored).Nodup := by
  have hids : ((eligible config max_score (order.iterate
      (entries strategy config fts vector).values)).map FusedChunk.scored).map Prod.fst =
        (eligible config max_score (order.iterate
          (entries strategy config fts vector).values)).map FusedChunk.chunk_id := by
    rw [List.map_map]
    rfl
  exact List.Nodup.of_map Prod.fst (hids ▸ eligible_ids_nodup order)

section

variable (hweights : strategy = .rrf ∨ config.fts_weight = config.vector_weight)
include hweights

theorem worth_swap : worth config strategy .fts = worth config strategy .vector := by
  obtain rfl | heq := hweights
  · rfl
  · cases strategy with
    | rrf => rfl
    | weightedScore => exact funext fun rank => by rw [worth, worth, heq]

theorem documentedScore_swap (chunk_id : ℕ) :
    documentedScore strategy config vector fts chunk_id =
      documentedScore strategy config fts vector chunk_id := by
  rw [documentedScore, documentedScore, worth_swap hweights, add_comm]

omit hweights in
theorem chunkIds_swap : chunkIds vector fts = chunkIds fts vector := by
  ext chunk_id
  rw [mem_chunkIds, mem_chunkIds, or_comm]

theorem isMaxScore_swap (h : IsMaxScore strategy config fts vector max_score) :
    IsMaxScore strategy config vector fts max_score := by
  have heq : documentedScore strategy config vector fts =
      documentedScore strategy config fts vector := funext (documentedScore_swap hweights)
  rwa [IsMaxScore, heq, chunkIds_swap]

/-- Without ties, nor does it which of two searches of the same weight comes first. -/
theorem fuse_swap (h : NoTiedChunks strategy config fts vector) (order order' : MapOrder) :
    (fuse strategy order fts.results vector.results config).map FusedChunk.scored =
      (fuse strategy order' vector.results fts.results config).map FusedChunk.scored := by
  obtain hempty | hne := (chunkIds fts vector).eq_empty_or_nonempty
  · rw [fuse_of_empty hempty, fuse_of_empty (chunkIds_swap.trans hempty)]
  · obtain ⟨max_score, hmax⟩ := exists_isMaxScore strategy config hne
    rw [map_fuse hmax order, map_fuse (isMaxScore_swap hweights hmax) order']
    refine take_ranked_eq (nodup_map_eligible order) ?_
      (NoTies.map (noTies_eligible hmax h order))
    refine (List.perm_ext_iff_of_nodup (nodup_map_eligible order)
      (nodup_map_eligible order')).mpr fun scored => ?_
    rw [mem_map_eligible, mem_map_eligible, chunkIds_swap, documentedScore_swap hweights]

end

/-! ### When two chunks tie -/

/-- An order of the map in which an entry is the first. -/
def bringForward (first : FusedChunk) : MapOrder where
  iterate entries := if first ∈ entries then first :: entries.erase first else entries
  perm entries := by
    split_ifs with h
    · exact (List.perm_cons_erase h).symm
    · exact List.Perm.refl entries

/-- An entry that comes first stands behind those that score higher. -/
theorem fuse_bringForward (hmax : IsMaxScore strategy config fts vector max_score)
    {info : FusedChunk} (hinfo : info ∈ (entries strategy config fts vector).values)
    (hmin : config.min_score ≤ info.score / max_score)
    (hlimit : ((chunkIds fts vector).filter fun c =>
      documentedScore strategy config fts vector info.chunk_id <
        documentedScore strategy config fts vector c).card < config.limit) :
    (fuse strategy (bringForward info) fts.results vector.results config)[
      ((chunkIds fts vector).filter fun c =>
        documentedScore strategy config fts vector info.chunk_id <
          documentedScore strategy config fts vector c).card]? =
      some (info.normalized max_score) := by
  have hfirst : eligible config max_score
      ((bringForward info).iterate (entries strategy config fts vector).values) =
        info.normalized max_score :: eligible config max_score
          ((entries strategy config fts vector).values.erase info) := by
    have hpass : config.min_score ≤ (info.normalized max_score).score := hmin
    have hiterate : (bringForward info).iterate (entries strategy config fts vector).values =
        info :: (entries strategy config fts vector).values.erase info := if_pos hinfo
    rw [hiterate, eligible, List.map_cons]
    exact List.filter_cons_of_pos (decide_eq_true hpass)
  have hmem : info.normalized max_score ∈ eligible config max_score
      ((bringForward info).iterate (entries strategy config fts vector).values) :=
    hfirst ▸ List.mem_cons_self
  have hhigher := higher_eligible hmax (bringForward info) hmem
  have hsame : (info.normalized max_score).chunk_id = info.chunk_id := rfl
  rw [fuse_eq hmax, List.getElem?_take_of_lt hlimit, ← hsame, ← hhigher, hfirst]
  exact ranked_cons _ _

/-- Chunks that tie stand in each other's place in another order of the map. -/
theorem noTiedChunks_of_order (h : ∀ order order' : MapOrder,
    fuse strategy order fts.results vector.results config =
      fuse strategy order' fts.results vector.results config) :
    NoTiedChunks strategy config fts vector := by
  intro max_score hmax a ha b hb hne heq hmin
  by_contra hlimit
  obtain ⟨x, hx, rfl⟩ := exists_entry strategy config ha
  obtain ⟨y, hy, rfl⟩ := exists_entry strategy config hb
  have hfirst := fuse_bringForward hmax hx (by rwa [(mem_entries hx).2]) (not_le.mp hlimit)
  have hsecond := fuse_bringForward hmax hy (by rwa [(mem_entries hy).2, ← heq])
    (heq ▸ not_le.mp hlimit)
  rw [← heq, h (bringForward y) (bringForward x), hfirst] at hsecond
  have hsame := congrArg FusedChunk.chunk_id (Option.some.inj hsecond)
  exact hne hsame

/-- **A fusion is well defined** exactly if no two chunks tie where it matters. -/
theorem fusion_well_defined_iff (strategy : FusionStrategy) (config : FusionConfig)
    (fts vector : RankedList) :
    WellDefined strategy config fts vector ↔ NoTiedChunks strategy config fts vector :=
  ⟨fun h => noTiedChunks_of_order h.order, fun h =>
    { best := fun order _ hmax => bestChunks_fuse hmax order
      none := fun order hempty => fuse_of_empty hempty order
      order := fuse_order h
      swap := fun hweights => fuse_swap hweights h }⟩

/-- The default configuration. -/
def defaultFusion : FusionConfig := ⟨10, 60, 0, 1 / 2, 1 / 2, by norm_num, by norm_num⟩

/-- A search with a single hit. -/
def singleHit (chunk_id : ℕ) : RankedList :=
  ⟨[⟨chunk_id, 1, [], [], 1⟩], List.nodup_singleton _, by simp⟩

/-- Two searches find a chunk each: which one is first is up to the map. -/
theorem order_depends :
    ¬WellDefined .rrf defaultFusion (singleHit 1) (singleHit 2) := by
  intro h
  have := congrArg (List.map FusedChunk.chunk_id)
    (h.order ⟨id, fun _ => List.Perm.refl _⟩ ⟨List.reverse, List.reverse_perm⟩)
  revert this
  decide +kernel

end

end T3Claw.Workspace.Fusion
