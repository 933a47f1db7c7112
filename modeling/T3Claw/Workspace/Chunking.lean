import T3Claw.Data.Window
import T3Claw.Data.Words
import T3Claw.Workspace.Document

/-!
# The chunks of a document

`chunk_document` cuts the words of a document into chunks of `chunk_size` words, each beginning
`step_size` words behind the last one. What is left at the end decides what comes of it. When it
is shorter than `min_chunk_size` it is put behind the chunk before, together with the words the
two have in common, which then stand there twice. When it is so long that another step leaves more
than `min_chunk_size` words, there is another chunk, which has no word that the one before
has not. And when `min_chunk_size` is greater than `chunk_size` the second chunk is already
taken for such a rest, and the document ends there.

`chunks_cover_iff` says exactly when the chunks are a covering of the document
(`Window.Covering`).
-/

namespace T3Claw.Workspace

open T3Claw.Text

variable {config : ChunkConfig} {words : List (List Char)} {start : ℕ}

/-- The text of a window of the words. -/
def chunkText (words : List (List Char)) (w : Window) : List Char :=
  [' '].intercalate (w.slice words)

/-! ### A turn of the loop -/

theorem chunkLoop_done (h : words.length ≤ start) (chunks : List (List Char)) :
    chunkLoop config words start chunks = chunks := by
  rw [chunkLoop, if_neg (Nat.not_lt.mpr h)]

theorem slice_turn (h : start < words.length) :
    (words.drop start).take (min (start + config.chunk_size) words.length - start) =
      (⟨start, min config.chunk_size (words.length - start)⟩ : Window).slice words := by
  have hlength : min (start + config.chunk_size) words.length - start =
      min config.chunk_size (words.length - start) := by omega
  rw [hlength, Window.slice]

theorem length_turn (h : start < words.length) :
    ((⟨start, min config.chunk_size (words.length - start)⟩ : Window).slice words).length =
      min config.chunk_size (words.length - start) :=
  Window.length_slice (by rw [Window.stop]; simp only; omega)

/-- What is too short is merged with the chunk before. -/
theorem chunkLoop_merge (h : start < words.length)
    (hshort : min config.chunk_size (words.length - start) < config.min_chunk_size)
    (last : List Char) (before : List (List Char)) :
    chunkLoop config words start (last :: before) =
      (last ++ ' ' :: chunkText words ⟨start, min config.chunk_size (words.length - start)⟩) ::
        before := by
  rw [chunkLoop, if_pos h]
  simp only [slice_turn h, length_turn h, decide_eq_true hshort]
  rfl

/-- What is long enough, and the first chunk in any case, is a chunk of its own. -/
theorem chunkLoop_push (h : start < words.length) {chunks : List (List Char)}
    (hlong : config.min_chunk_size ≤ min config.chunk_size (words.length - start) ∨
      chunks = []) :
    chunkLoop config words start chunks =
      if words.length ≤ start + config.stepSize + config.min_chunk_size ∧
          words.length ≤ start + config.chunk_size then
        chunkText words ⟨start, min config.chunk_size (words.length - start)⟩ :: chunks
      else
        chunkLoop config words (start + config.stepSize)
          (chunkText words ⟨start, min config.chunk_size (words.length - start)⟩ :: chunks) := by
  rw [chunkLoop, if_pos h]
  have hstop : min (start + config.chunk_size) words.length = words.length ↔
      words.length ≤ start + config.chunk_size := min_eq_right_iff
  simp only [slice_turn h, length_turn h, hstop]
  split
  · next last before hshort =>
    -- not both: a chunk before, and too few words
    obtain hlong | hnone := hlong
    · exact absurd (of_decide_eq_true hshort) (Nat.not_lt.mpr hlong)
    · cases hnone
  · rfl

/-! ### The loop -/

/-- The texts of full chunks. -/
def fullTexts (config : ChunkConfig) (words : List (List Char)) (count : ℕ) : List (List Char) :=
  (List.range count).map fun k => chunkText words ⟨k * config.stepSize, config.chunk_size⟩

/-- While there are more words than a chunk takes, there are full chunks. -/
theorem chunkLoop_full (hmin : config.min_chunk_size ≤ config.chunk_size) {count : ℕ}
    (h : ∀ k < count, k * config.stepSize + config.chunk_size < words.length) :
    chunkLoop config words 0 [] =
      chunkLoop config words (count * config.stepSize)
        (fullTexts config words count).reverse := by
  induction count with
  | zero => rw [Nat.zero_mul]; rfl
  | succ count ih =>
    have hlast := h count (Nat.lt_succ_self count)
    rw [ih fun k hk => h k (hk.trans (Nat.lt_succ_self count)),
      chunkLoop_push (by omega) (.inl (by omega)), if_neg (by omega), fullTexts, fullTexts,
      List.range_succ, List.map_append, List.reverse_append, Nat.succ_mul,
      min_eq_left (by omega : config.chunk_size ≤ words.length - count * config.stepSize)]
    rfl

/-- Once what is left is long enough for a last chunk, no chunk is changed any more. -/
theorem chunkLoop_tail (config : ChunkConfig) (words : List (List Char)) (start : ℕ)
    (h : start < words.length)
    (hend : words.length ≤ start + config.chunk_size)
    (hlong : start + config.min_chunk_size ≤ words.length) (chunks : List (List Char)) :
    ∃ more, chunkLoop config words start chunks =
      more ++ chunkText words ⟨start, words.length - start⟩ :: chunks := by
  induction hleft : words.length - start using Nat.strong_induction_on
    generalizing start chunks with
  | h left ih =>
    have hstep : 0 < config.stepSize := config.step_pos
    rw [chunkLoop_push h (.inl (by omega)), min_eq_right (by omega), hleft]
    split_ifs with hstop
    · exact ⟨[], rfl⟩
    by_cases hmore : start + config.stepSize < words.length
    · obtain ⟨more, heq⟩ := ih (words.length - (start + config.stepSize)) (by omega) _ hmore
        (by omega) (by omega) (chunkText words ⟨start, left⟩ :: chunks) rfl
      exact ⟨more ++ [chunkText words ⟨start + config.stepSize,
        words.length - (start + config.stepSize)⟩], by rw [heq, List.append_assoc]; rfl⟩
    · exact ⟨[], chunkLoop_done (Nat.not_lt.mp hmore) _⟩

/-! ### The last step -/

/-- The words of the first chunk that reaches the end of a document of more words than a
chunk takes. -/
def lastLength (config : ChunkConfig) (n : ℕ) : ℕ :=
  config.overlap_size + 1 + (n - config.chunk_size - 1) % config.stepSize

/-- The steps before that chunk. -/
def lastStep (config : ChunkConfig) (n : ℕ) : ℕ :=
  (n - config.chunk_size - 1) / config.stepSize + 1

theorem stepSize_add_overlap (config : ChunkConfig) :
    config.stepSize + config.overlap_size = config.chunk_size := by
  have hstep := config.step_pos
  rw [ChunkConfig.stepSize]
  omega

theorem lastStep_spec {n : ℕ} (h : config.chunk_size < n) :
    lastStep config n * config.stepSize + lastLength config n = n ∧
      lastLength config n ≤ config.chunk_size ∧
      ∀ k < lastStep config n, k * config.stepSize + config.chunk_size < n := by
  have hstep : 0 < config.stepSize := config.step_pos
  have hsize := stepSize_add_overlap config
  have hmod := Nat.mod_lt (n - config.chunk_size - 1) hstep
  have hdiv := Nat.div_add_mod' (n - config.chunk_size - 1) config.stepSize
  rw [lastStep, lastLength]
  refine ⟨?_, by omega, fun k hk => ?_⟩
  · rw [Nat.succ_mul]
    omega
  · have hle := Nat.mul_le_mul_right config.stepSize (Nat.le_of_lt_succ hk)
    omega

/-- Where the loop is when it comes to that chunk. -/
theorem chunkLoop_lastStep (hmin : config.min_chunk_size ≤ config.chunk_size)
    (h : config.chunk_size < words.length) :
    chunkLoop config words 0 [] =
      chunkLoop config words (lastStep config words.length * config.stepSize)
        (fullTexts config words (lastStep config words.length)).reverse :=
  chunkLoop_full hmin (lastStep_spec h).2.2

/-- It is long enough. -/
theorem chunkLoop_of_le (h : config.chunk_size < words.length)
    (hmin : config.min_chunk_size ≤ lastLength config words.length)
    (hstep : lastLength config words.length ≤ config.stepSize + config.min_chunk_size) :
    (chunkLoop config words 0 []).reverse =
      fullTexts config words (lastStep config words.length) ++
        [chunkText words ⟨lastStep config words.length * config.stepSize,
          lastLength config words.length⟩] := by
  obtain ⟨hsum, hle, -⟩ := lastStep_spec h
  have hpos : 0 < lastLength config words.length := by rw [lastLength]; omega
  have hleft : words.length - lastStep config words.length * config.stepSize =
      lastLength config words.length := by omega
  rw [chunkLoop_lastStep (hmin.trans hle) h, chunkLoop_push (by omega) (.inl (by omega)),
    if_pos (by omega), hleft, min_eq_right hle, List.reverse_cons, List.reverse_reverse]

/-- It is so long that there is another. -/
theorem chunkLoop_of_gt (h : config.chunk_size < words.length)
    (hstep : config.stepSize + config.min_chunk_size < lastLength config words.length) :
    ∃ more, (chunkLoop config words 0 []).reverse =
      fullTexts config words (lastStep config words.length) ++
        chunkText words ⟨lastStep config words.length * config.stepSize,
          lastLength config words.length⟩ ::
        chunkText words ⟨lastStep config words.length * config.stepSize + config.stepSize,
          lastLength config words.length - config.stepSize⟩ :: more := by
  obtain ⟨hsum, hle, -⟩ := lastStep_spec h
  have hsize := stepSize_add_overlap config
  have hleft : words.length - lastStep config words.length * config.stepSize =
      lastLength config words.length := by omega
  have hleft' : words.length - (lastStep config words.length * config.stepSize +
      config.stepSize) = lastLength config words.length - config.stepSize := by omega
  rw [chunkLoop_lastStep (by omega) h, chunkLoop_push (by omega) (.inl (by omega)),
    if_neg (by omega), hleft, min_eq_right hle]
  have hpos : 0 < config.stepSize := config.step_pos
  obtain ⟨more, heq⟩ := chunkLoop_tail config words
    (lastStep config words.length * config.stepSize + config.stepSize) (by omega) (by omega)
    (by omega) (chunkText words ⟨lastStep config words.length * config.stepSize,
      lastLength config words.length⟩ ::
        (fullTexts config words (lastStep config words.length)).reverse)
  rw [heq, hleft']
  exact ⟨more.reverse, by simp⟩

/-- It is too short. -/
theorem chunkLoop_of_lt (h : config.chunk_size < words.length)
    (hmin : config.min_chunk_size ≤ config.chunk_size)
    (hshort : lastLength config words.length < config.min_chunk_size) :
    ∃ before, lastStep config words.length = before + 1 ∧
      (chunkLoop config words 0 []).reverse =
        fullTexts config words before ++
          [chunkText words ⟨before * config.stepSize, config.chunk_size⟩ ++
            ' ' :: chunkText words ⟨(before + 1) * config.stepSize,
              lastLength config words.length⟩] := by
  obtain ⟨hsum, hle, -⟩ := lastStep_spec h
  have hpos : 0 < lastLength config words.length := by rw [lastLength]; omega
  refine ⟨(words.length - config.chunk_size - 1) / config.stepSize, rfl, ?_⟩
  have hleft : words.length - lastStep config words.length * config.stepSize =
      lastLength config words.length := by omega
  have hfull : (fullTexts config words (lastStep config words.length)).reverse =
      chunkText words ⟨(words.length - config.chunk_size - 1) / config.stepSize *
        config.stepSize, config.chunk_size⟩ ::
        (fullTexts config words
          ((words.length - config.chunk_size - 1) / config.stepSize)).reverse := by
    rw [fullTexts, lastStep, List.range_succ, List.map_append, List.reverse_append]
    rfl
  rw [chunkLoop_lastStep hmin h, hfull, chunkLoop_merge (by omega) (by omega), hleft,
    min_eq_right hle, List.reverse_cons, List.reverse_reverse]
  rfl

/-- A chunk can have fewer words than a chunk must have. -/
theorem chunkLoop_of_small (h : config.chunk_size < words.length)
    (hmin : config.chunk_size < config.min_chunk_size) :
    chunkLoop config words 0 [] =
      [chunkText words ⟨0, config.chunk_size⟩ ++ ' ' :: chunkText words ⟨config.stepSize,
        min config.chunk_size (words.length - config.stepSize)⟩] := by
  have hsize := stepSize_add_overlap config
  rw [chunkLoop_push (by omega) (.inr rfl), if_neg (by omega), Nat.zero_add, Nat.sub_zero,
    min_eq_left h.le, chunkLoop_merge (by omega) (by omega)]

/-! ### Chunks as windows -/

/-- The chunks are windows of the document's words that cover the document, and none is too
short when there is more than one chunk's worth of words. -/
def ChunksCover (content : List Char) (config : ChunkConfig) : Prop :=
  ∃ windows : List Window,
    (chunkDocument content config).map splitWhitespace =
        windows.map (fun w => w.slice (splitWhitespace content)) ∧
      Window.Covering config.overlap_size (splitWhitespace content).length windows ∧
      (config.chunk_size < (splitWhitespace content).length →
        ∀ w ∈ windows, min config.min_chunk_size config.chunk_size ≤ w.length)

/-- The number of words leaves a last chunk that is neither too short nor so long that there is
another; or there is no overlap, so that merging puts no word twice, and the second chunk is no
rest, or has all that is left. -/
def ChunksFit (config : ChunkConfig) (n : ℕ) : Prop :=
  n ≤ config.chunk_size ∨
    config.overlap_size = 0 ∧
      (config.min_chunk_size ≤ config.chunk_size ∨ n ≤ 2 * config.chunk_size) ∨
    config.min_chunk_size ≤ lastLength config n ∧
      lastLength config n ≤ config.stepSize + config.min_chunk_size

section

variable {content : List Char}

theorem splitWhitespace_chunkText (content : List Char) (w : Window) :
    splitWhitespace (chunkText (splitWhitespace content) w) =
      w.slice (splitWhitespace content) :=
  splitWhitespace_intercalate fun _ hword =>
    isWord_of_mem ((w.slice_sublist _).subset hword)

theorem splitWhitespace_merged (content : List Char) (w v : Window) :
    splitWhitespace (chunkText (splitWhitespace content) w ++
        ' ' :: chunkText (splitWhitespace content) v) =
      w.slice (splitWhitespace content) ++ v.slice (splitWhitespace content) := by
  rw [splitWhitespace_append_cons _ _ (by decide), splitWhitespace_chunkText,
    splitWhitespace_chunkText]

theorem map_fullTexts (content : List Char) (count : ℕ) :
    (fullTexts config (splitWhitespace content) count).map splitWhitespace =
      ((List.range count).map fun k => (⟨k * config.stepSize, config.chunk_size⟩ : Window)).map
        fun w => w.slice (splitWhitespace content) := by
  rw [fullTexts, List.map_map, List.map_map]
  exact List.map_congr_left fun k _ => splitWhitespace_chunkText content _

theorem chunkDocument_of_le (h : (splitWhitespace content).length ≤ config.chunk_size)
    (hpos : 0 < (splitWhitespace content).length) :
    chunkDocument content config = [content] := by
  have hne : ¬(splitWhitespace content).isEmpty = true := by
    simpa [List.isEmpty_iff] using List.ne_nil_of_length_pos hpos
  rw [chunkDocument, if_neg hne, if_pos h]

theorem chunkDocument_of_lt (h : config.chunk_size < (splitWhitespace content).length) :
    chunkDocument content config =
      (chunkLoop config (splitWhitespace content) 0 []).reverse := by
  have hne : ¬(splitWhitespace content).isEmpty = true := by
    simpa [List.isEmpty_iff] using List.ne_nil_of_length_pos (Nat.zero_lt_of_lt h)
  rw [chunkDocument, if_neg hne, if_neg (Nat.not_le.mpr h)]

/-- Full chunks, and one of all that is left. -/
theorem chunksCover_of_steps (count : ℕ)
    (hlast : count * config.stepSize ≤ (splitWhitespace content).length)
    (hbefore : ∀ k < count,
      k * config.stepSize + config.chunk_size < (splitWhitespace content).length)
    (hmin : config.chunk_size < (splitWhitespace content).length →
      min config.min_chunk_size config.chunk_size ≤
        (splitWhitespace content).length - count * config.stepSize)
    (hchunks : (chunkDocument content config).map splitWhitespace =
      (Window.steps config.chunk_size config.stepSize count (splitWhitespace content).length).map
        fun w => w.slice (splitWhitespace content)) :
    ChunksCover content config := by
  refine ⟨_, hchunks, Window.covering_steps config.step_pos (stepSize_add_overlap config) hlast
    hbefore, fun hlong w hw => ?_⟩
  rw [Window.steps_eq] at hw
  obtain hw | hw := List.mem_append.mp hw
  · obtain ⟨k, -, rfl⟩ := List.mem_map.mp hw
    exact min_le_right _ _
  · rw [List.mem_singleton.mp hw]
    exact hmin hlong

/-- The last chunk is long enough, and there is none behind it. -/
theorem chunksCover_of_last (hlong : config.chunk_size < (splitWhitespace content).length)
    (hmin : config.min_chunk_size ≤ lastLength config (splitWhitespace content).length)
    (hstep : lastLength config (splitWhitespace content).length ≤
      config.stepSize + config.min_chunk_size) :
    ChunksCover content config := by
  obtain ⟨hsum, -, hbefore⟩ := lastStep_spec hlong
  have hleft : (splitWhitespace content).length -
      lastStep config (splitWhitespace content).length * config.stepSize =
        lastLength config (splitWhitespace content).length := by omega
  refine chunksCover_of_steps _ (by omega) hbefore (fun _ => by omega) ?_
  rw [chunkDocument_of_lt hlong, chunkLoop_of_le hlong hmin hstep, Window.steps_eq, hleft,
    List.map_append, List.map_append, map_fullTexts, List.map_singleton, List.map_singleton,
    splitWhitespace_chunkText]

/-- Without an overlap, the last chunk may be merged with the one before. -/
theorem chunksCover_of_merged (hlong : config.chunk_size < (splitWhitespace content).length)
    (hzero : config.overlap_size = 0) (hmin : config.min_chunk_size ≤ config.chunk_size)
    (hshort : lastLength config (splitWhitespace content).length < config.min_chunk_size) :
    ChunksCover content config := by
  obtain ⟨hsum, -, hbefore⟩ := lastStep_spec hlong
  obtain ⟨before, hlast, hchunks⟩ := chunkLoop_of_lt hlong hmin hshort
  have hsize : config.stepSize = config.chunk_size := by
    rw [← stepSize_add_overlap config, hzero, Nat.add_zero]
  have hnext : (before + 1) * config.stepSize = before * config.stepSize + config.stepSize :=
    Nat.succ_mul before config.stepSize
  rw [hlast] at hsum hbefore
  refine chunksCover_of_steps before (by omega) (fun k hk => hbefore k (by omega))
    (fun _ => by omega) ?_
  have hleft : (splitWhitespace content).length - before * config.stepSize =
      config.chunk_size + lastLength config (splitWhitespace content).length := by omega
  rw [chunkDocument_of_lt hlong, hchunks, Window.steps_eq, hleft, List.map_append,
    List.map_append, map_fullTexts, List.map_singleton, List.map_singleton,
    splitWhitespace_merged, hnext, hsize, Window.slice_append]

/-- Without an overlap, a rest that all the words behind the first chunk are may be merged. -/
theorem chunksCover_of_small (hlong : config.chunk_size < (splitWhitespace content).length)
    (hzero : config.overlap_size = 0) (hmin : config.chunk_size < config.min_chunk_size)
    (hdouble : (splitWhitespace content).length ≤ 2 * config.chunk_size) :
    ChunksCover content config := by
  have hsize : config.stepSize = config.chunk_size := by
    rw [← stepSize_add_overlap config, hzero, Nat.add_zero]
  refine chunksCover_of_steps 0 (by omega) nofun (fun _ => by omega) ?_
  have hleft : (splitWhitespace content).length - 0 * config.chunk_size = config.chunk_size +
      min config.chunk_size ((splitWhitespace content).length - config.chunk_size) := by omega
  rw [chunkDocument_of_lt hlong, chunkLoop_of_small hlong hmin, Window.steps_eq, hsize, hleft,
    List.reverse_singleton, List.map_singleton, splitWhitespace_merged, Nat.zero_mul]
  have happend := Window.slice_append 0 config.chunk_size
    (min config.chunk_size ((splitWhitespace content).length - config.chunk_size))
    (splitWhitespace content)
  rw [Nat.zero_add] at happend
  rw [happend]
  rfl

/-- **Enough for the chunks to cover the document.** -/
theorem chunksCover_of_fit (h : ChunksFit config (splitWhitespace content).length) :
    ChunksCover content config := by
  obtain hshort | hlong := Nat.lt_or_ge config.chunk_size (splitWhitespace content).length |>.symm
  · obtain hzero | hpos := Nat.eq_zero_or_pos (splitWhitespace content).length
    · -- no words, no chunks
      have hnil := List.eq_nil_of_length_eq_zero hzero
      refine ⟨[], ?_, hzero ▸ Window.covering_nil _, nofun⟩
      rw [chunkDocument, hnil]
      rfl
    · -- the document is its only chunk
      refine chunksCover_of_steps 0 (by omega) nofun (by omega) ?_
      rw [chunkDocument_of_le hshort hpos, Window.steps_eq]
      simp [Window.slice]
  obtain hle | ⟨hzero, hwhole⟩ | ⟨hmin, hstep⟩ := h
  · exact absurd hlong (Nat.not_lt.mpr hle)
  · obtain hmin | hmin := Nat.lt_or_ge config.chunk_size config.min_chunk_size |>.symm
    · obtain hshort | hlast := Nat.lt_or_ge
        (lastLength config (splitWhitespace content).length) config.min_chunk_size
      · exact chunksCover_of_merged hlong hzero hmin hshort
      · have hsize := stepSize_add_overlap config
        have hle := (lastStep_spec hlong).2.1
        exact chunksCover_of_last hlong hlast (by omega)
    · exact chunksCover_of_small hlong hzero hmin (by omega)
  · exact chunksCover_of_last hlong hmin hstep

/-! ### When words do not repeat -/

section

variable (hnodup : (splitWhitespace content).Nodup)
include hnodup

/-- Words that a merged chunk has twice are in no window. -/
theorem merged_not_mem {windows : List Window} (w v : Window)
    (hw : w.stop ≤ (splitWhitespace content).length) (hle : w.start ≤ v.start)
    (hlt : v.start < w.stop) (hpos : 0 < v.length) :
    w.slice (splitWhitespace content) ++ v.slice (splitWhitespace content) ∉
      windows.map fun w => w.slice (splitWhitespace content) := by
  intro hmem
  obtain ⟨u, -, heq⟩ := List.mem_map.mp hmem
  exact Window.not_nodup_append hw hle hlt hpos (heq ▸ hnodup.sublist (u.slice_sublist _))

/-- A short last chunk is merged, with the words of the overlap. -/
theorem not_chunksCover_of_merged (hlong : config.chunk_size < (splitWhitespace content).length)
    (hoverlap : 0 < config.overlap_size) (hmin : config.min_chunk_size ≤ config.chunk_size)
    (hshort : lastLength config (splitWhitespace content).length < config.min_chunk_size) :
    ¬ChunksCover content config := by
  rintro ⟨windows, hchunks, -, -⟩
  obtain ⟨hsum, -, -⟩ := lastStep_spec hlong
  obtain ⟨before, hstep, heq⟩ := chunkLoop_of_lt hlong hmin hshort
  have hsize := stepSize_add_overlap config
  have hlast : config.overlap_size < lastLength config (splitWhitespace content).length := by
    rw [lastLength]
    omega
  have hnext : (before + 1) * config.stepSize = before * config.stepSize + config.stepSize :=
    Nat.succ_mul before config.stepSize
  rw [hstep] at hsum
  rw [chunkDocument_of_lt hlong, heq, List.map_append, List.map_singleton,
    splitWhitespace_merged] at hchunks
  refine merged_not_mem hnodup ⟨before * config.stepSize, config.chunk_size⟩
    ⟨(before + 1) * config.stepSize, lastLength config (splitWhitespace content).length⟩
    ?_ ?_ ?_ (Nat.zero_lt_of_lt hlast) (hchunks ▸ List.mem_append_right _ List.mem_cons_self)
  · rw [Window.stop]
    simp only
    omega
  · simp only
    omega
  · rw [Window.stop]
    simp only
    omega

/-- Behind a long last chunk there is another, with no word of its own. -/
theorem not_chunksCover_of_contained
    (hlong : config.chunk_size < (splitWhitespace content).length)
    (hstep : config.stepSize + config.min_chunk_size <
      lastLength config (splitWhitespace content).length) :
    ¬ChunksCover content config := by
  rintro ⟨windows, hchunks, hcovering, -⟩
  obtain ⟨hsum, -, -⟩ := lastStep_spec hlong
  obtain ⟨more, heq⟩ := chunkLoop_of_gt hlong hstep
  rw [chunkDocument_of_lt hlong, heq, List.map_append, List.map_cons, List.map_cons,
    splitWhitespace_chunkText, splitWhitespace_chunkText] at hchunks
  have hpair : [_, _] <:+: windows.map fun w => w.slice (splitWhitespace content) :=
    ⟨_, _, (List.append_assoc _ _ _).trans hchunks⟩
  refine hcovering.not_contained hnodup ?_ ?_ ?_ ?_ hpair ⟨?_, ?_⟩
  all_goals simp only [Window.stop]; omega

/-- A rest that the second chunk is taken for is put behind the first. -/
theorem fit_of_small (hlong : config.chunk_size < (splitWhitespace content).length)
    (hmin : config.chunk_size < config.min_chunk_size) (h : ChunksCover content config) :
    config.overlap_size = 0 ∧ (splitWhitespace content).length ≤ 2 * config.chunk_size := by
  obtain ⟨windows, hchunks, hcovering, -⟩ := h
  have hsize := stepSize_add_overlap config
  have hpos : 0 < config.stepSize := config.step_pos
  rw [chunkDocument_of_lt hlong, chunkLoop_of_small hlong hmin, List.reverse_singleton,
    List.map_singleton, splitWhitespace_merged] at hchunks
  obtain hzero | hoverlap := Nat.eq_zero_or_pos config.overlap_size
  · -- the first word and the last are in the only window
    obtain ⟨w, rfl, hslice⟩ := List.map_eq_singleton_iff.mp hchunks.symm
    obtain ⟨u, hu, hfirst, -⟩ := hcovering.runs 0 (by omega)
    obtain rfl := List.mem_singleton.mp hu
    obtain ⟨u', hu', -, hlast⟩ := hcovering.runs ((splitWhitespace content).length - 1) (by omega)
    obtain rfl := List.mem_singleton.mp hu'
    have hlength := congrArg List.length hslice
    rw [Window.length_slice (hcovering.bounded u' hu), List.length_append,
      Window.length_slice (by rw [Window.stop]; simp only; omega),
      Window.length_slice (by rw [Window.stop]; simp only; omega)] at hlength
    rw [Window.stop] at hlast
    exact ⟨hzero, by simp only at hlength; omega⟩
  · refine absurd (hchunks ▸ List.mem_cons_self) (merged_not_mem hnodup ⟨0, config.chunk_size⟩
      ⟨config.stepSize, min config.chunk_size
        ((splitWhitespace content).length - config.stepSize)⟩ ?_ (Nat.zero_le _) ?_ ?_)
    · rw [Window.stop]
      simp only
      omega
    · rw [Window.stop]
      simp only
      omega
    · simp only
      omega

/-- **And necessary when no word repeats.** -/
theorem chunksFit_of_cover (h : ChunksCover content config) :
    ChunksFit config (splitWhitespace content).length := by
  obtain hshort | hlong := Nat.lt_or_ge config.chunk_size (splitWhitespace content).length |>.symm
  · exact .inl hshort
  obtain hmin | hmin := Nat.lt_or_ge config.chunk_size config.min_chunk_size |>.symm
  · obtain hzero | hoverlap := Nat.eq_zero_or_pos config.overlap_size
    · exact .inr (.inl ⟨hzero, .inl hmin⟩)
    · refine .inr (.inr ⟨?_, ?_⟩)
      · exact Nat.not_lt.mp fun hshort =>
          not_chunksCover_of_merged hnodup hlong hoverlap hmin hshort h
      · exact Nat.not_lt.mp fun hstep => not_chunksCover_of_contained hnodup hlong hstep h
  · obtain ⟨hzero, hdouble⟩ := fit_of_small hnodup hlong hmin h
    exact .inr (.inl ⟨hzero, .inr hdouble⟩)

end

/-- **The chunks cover the document** when, and for a document in which no word repeats only
when, the number of its words fits. -/
theorem chunks_cover_iff (config : ChunkConfig) (content : List Char) :
    (ChunksFit config (splitWhitespace content).length → ChunksCover content config) ∧
      ((splitWhitespace content).Nodup → ChunksCover content config →
        ChunksFit config (splitWhitespace content).length) :=
  ⟨chunksCover_of_fit, chunksFit_of_cover⟩

/-- Four words a chunk, of which one overlaps, and no chunk of fewer than three. -/
def smallChunks : ChunkConfig := ⟨4, 1, 3, by decide⟩

/-- With seven words, the last chunk is full as well. -/
theorem chunks_cover_seven : ChunksCover "a b c d e f g".toList smallChunks :=
  (chunks_cover_iff smallChunks "a b c d e f g".toList).1
    (.inr (.inr ⟨by decide, by decide⟩))

/-- The last two of five words are merged with the first four, so that the fourth is
there twice. -/
theorem chunkDocument_smallChunks :
    chunkDocument "a b c d e".toList smallChunks = ["a b c d d e".toList] := by
  have hwords : splitWhitespace "a b c d e".toList = [['a'], ['b'], ['c'], ['d'], ['e']] := by
    decide
  have hmerged : chunkLoop smallChunks [['a'], ['b'], ['c'], ['d'], ['e']] 0 [] =
      ["a b c d d e".toList] := by
    rw [chunkLoop_push (by decide) (.inr rfl), if_neg (by decide),
      chunkLoop_merge (by decide) (by decide)]
    rfl
  rw [chunkDocument, hwords]
  exact congrArg List.reverse hmerged

theorem word_twice : ¬ChunksCover "a b c d e".toList smallChunks := by
  rintro ⟨windows, hchunks, hcovering, -⟩
  rw [chunkDocument_smallChunks] at hchunks
  obtain ⟨w, rfl, hslice⟩ := List.map_eq_singleton_iff.mp hchunks.symm
  have hle := (w.slice_sublist (splitWhitespace "a b c d e".toList)).length_le
  rw [hslice] at hle
  exact absurd hle (by decide)

end

end T3Claw.Workspace
