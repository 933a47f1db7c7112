import T3Claw.Workspace.Document

/-!
# Searches

How a hybrid search is configured, and the hits of the full-text query and of the vector query,
each with its rank (`workspace/search.rs`).
-/

namespace T3Claw.Workspace

/-- Strategy used to fuse full-text and vector search results. -/
inductive FusionStrategy where
  | rrf
  | weightedScore
  deriving DecidableEq

/-- Configuration for hybrid search. -/
structure SearchConfig where
  limit : ℕ
  rrf_k : ℕ
  use_fts : Bool
  use_vector : Bool
  min_score : F32
  pre_fusion_limit : ℕ
  fusion_strategy : FusionStrategy
  fts_weight : F32
  vector_weight : F32

/-- `SearchConfig::default`; both weights are a half. -/
def SearchConfig.default : SearchConfig :=
  ⟨10, 60, true, true, 0x00000000, 50, .rrf, 0x3F000000, 0x3F000000⟩

/-- Raw result from a single search method; ranks begin with 1. -/
structure RankedResult where
  chunk_id : ℕ
  document_id : ℕ
  document_path : List Char
  content : List Char
  rank : ℕ

end T3Claw.Workspace
