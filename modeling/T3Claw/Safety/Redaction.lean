import Mathlib.Data.List.Sort
import T3Claw.Safety.LeakScan

/-!
# Is redaction exact?

`scan_and_clean` cuts the ranges that the patterns with the action `Redact` match out of the
content. `apply_redactions` goes through them in the order in which they begin and goes on behind
the end of each, so that a range that ends before the one in front of it takes it back: what is
left of the longer one is put out again. To tell what is put out from what it looks like, the same
run is made over the positions of the content (`pieces`); the output is what the pieces stand for
(`render_pieces`). `redaction_exact_iff` has the exact condition.
-/

namespace T3Claw.Safety

/-- `apply_redactions` over any kind of content, from the end of the last range. -/
def redactFrom {α : Type} (content mark : List α) : ℕ → List Range → List α
  | last_end, [] => content.drop last_end
  | last_end, range :: ranges =>
    (content.drop last_end).take (range.start - last_end) ++ mark ++
      redactFrom content mark range.stop ranges

/-- What is put out for a content of some length: positions of the content, and markers. -/
def pieces (length last_end : ℕ) (ranges : List Range) : List (Option ℕ) :=
  redactFrom ((List.range length).map some) [none] last_end ranges

/-- What the pieces stand for. -/
def render (content : List Char) (list : List (Option ℕ)) : List Char :=
  list.flatMap fun piece =>
    match piece with
    | some i => content[i]?.toList
    | none => "[REDACTED]".toList

/-- A position of a range. -/
def Range.Covers (range : Range) (i : ℕ) : Prop := range.start ≤ i ∧ i < range.stop

instance (range : Range) (i : ℕ) : Decidable (range.Covers i) :=
  inferInstanceAs (Decidable (_ ∧ _))

/-- A marker between two lists of pieces stands in the place of a range. -/
def Range.Between (range : Range) (front back : List (Option ℕ)) : Prop :=
  (∀ i, some i ∈ front → i < range.start) ∧ ∀ i, some i ∈ back → range.stop ≤ i

/-- Every position outside the ranges is put out once, in order, and none inside; each range has a
marker in its place, and each marker stands in the place of a range. An empty range, of which
there is nothing to redact, need not have a marker. -/
structure ExactRedaction (length : ℕ) (ranges : List Range) (list : List (Option ℕ)) : Prop where
  emitted : list.filterMap id =
    (List.range length).filter fun i => ∀ range ∈ ranges, ¬range.Covers i
  marked : ∀ range ∈ ranges, range.start < range.stop →
    ∃ front back, list = front ++ none :: back ∧ range.Between front back
  marks : ∀ front back, list = front ++ none :: back →
    ∃ range ∈ ranges, range.Between front back

/-! ### The run over positions -/

/-- One range of `apply_redactions`. -/
def redactStep (content : List Char) (out : List Char × ℕ) (range : Range) : List Char × ℕ :=
  (out.1 ++ (content.drop out.2).take (range.start - out.2) ++ "[REDACTED]".toList, range.stop)

theorem foldl_redactStep (content : List Char) (ranges : List Range) (out : List Char × ℕ) :
    (ranges.foldl (redactStep content) out).1 ++
        content.drop (ranges.foldl (redactStep content) out).2 =
      out.1 ++ redactFrom content "[REDACTED]".toList out.2 ranges := by
  induction ranges generalizing out with
  | nil => rfl
  | cons range ranges ih =>
    rw [List.foldl_cons, ih, redactStep, redactFrom]
    simp only [List.append_assoc]

theorem applyRedactions_eq (content : List Char) (ranges : List Range) :
    applyRedactions content ranges = redactFrom content "[REDACTED]".toList 0 ranges :=
  (foldl_redactStep content ranges ([], 0)).trans (List.nil_append _)

theorem flatMap_redactFrom {α β : Type} (f : α → List β) (content mark : List α)
    (ranges : List Range) (last_end : ℕ) :
    (redactFrom content mark last_end ranges).flatMap f =
      (redactFrom (content.map f) [mark.flatMap f] last_end ranges).flatten := by
  induction ranges generalizing last_end with
  | nil => rw [redactFrom, redactFrom, List.flatMap_def, List.map_drop]
  | cons range ranges ih =>
    rw [redactFrom, redactFrom, List.flatMap_append, List.flatMap_append, ih,
      List.flatten_append, List.flatten_append, List.flatten_singleton, List.flatMap_def,
      List.map_take, List.map_drop]

/-- **The output** is what the pieces stand for. -/
theorem render_pieces (content : List Char) (last_end : ℕ) (ranges : List Range) :
    render content (pieces content.length last_end ranges) =
      redactFrom content "[REDACTED]".toList last_end ranges := by
  have hsingle : ((List.range content.length).map some).map (fun piece : Option ℕ =>
      match piece with
      | some i => content[i]?.toList
      | none => "[REDACTED]".toList) = content.map ([·]) := by
    refine List.ext_getElem (by simp) fun i hi hi' => ?_
    have hlt : i < content.length := by simpa using hi'
    simp [hlt]
  rw [render, pieces, flatMap_redactFrom, hsingle]
  have hflat := flatMap_redactFrom (fun c : Char => [c]) content "[REDACTED]".toList ranges last_end
  rw [List.flatMap_singleton', List.flatMap_singleton'] at hflat
  exact hflat.symm

/-! ### What is put out -/

section Pieces

variable {length last_end : ℕ} {ranges : List Range}

theorem pieces_nil : pieces length last_end [] =
    (List.range' last_end (length - last_end)).map some := by
  rw [pieces, redactFrom, ← List.map_drop, List.range_eq_range', List.drop_range', Nat.zero_add,
    Nat.mul_one]

theorem pieces_cons (range : Range) (hle : range.start ≤ length) :
    pieces length last_end (range :: ranges) =
      (List.range' last_end (range.start - last_end)).map some ++
        none :: pieces length range.stop ranges := by
  have hchunk : (((List.range length).map some).drop last_end).take (range.start - last_end) =
      (List.range' last_end (range.start - last_end)).map some := by
    rw [← List.map_drop, ← List.map_take, List.range_eq_range', List.drop_range', Nat.zero_add,
      Nat.mul_one, List.take_range'_of_length_ge (by omega)]
  rw [pieces, redactFrom, hchunk, List.append_assoc]
  rfl

/-- The range of those that begin at or before a position that stands last. -/
def lastBegun (ranges : List Range) (i : ℕ) : Option Range :=
  (ranges.filter (·.start ≤ i)).getLast?

/-- Where the run goes on behind what begins at or before a position. -/
def resume (last_end : ℕ) (ranges : List Range) (i : ℕ) : ℕ :=
  ((lastBegun ranges i).map Range.stop).getD last_end

theorem resume_cons_of_le {range : Range} {i : ℕ} (h : range.start ≤ i) :
    resume last_end (range :: ranges) i = resume range.stop ranges i := by
  have hfilter : (range :: ranges).filter (·.start ≤ i) =
      range :: ranges.filter (·.start ≤ i) := List.filter_cons_of_pos (decide_eq_true h)
  rw [resume, lastBegun, hfilter, List.getLast?_cons, resume, lastBegun]
  cases (ranges.filter (·.start ≤ i)).getLast? <;> rfl

/-- A position before all of the ranges. -/
theorem resume_of_lt {i : ℕ} (h : ∀ range ∈ ranges, i < range.start) :
    resume last_end ranges i = last_end := by
  have hnil : ranges.filter (·.start ≤ i) = [] :=
    List.filter_eq_nil_iff.mpr fun range hrange => by simpa using h range hrange
  rw [resume, lastBegun, hnil]
  rfl

/-- The ranges stand in the order in which they begin, and within the content. -/
structure Ordered (length : ℕ) (ranges : List Range) : Prop where
  pairwise : ranges.Pairwise (·.start ≤ ·.start)
  start_le : ∀ range ∈ ranges, range.start ≤ range.stop
  stop_le : ∀ range ∈ ranges, range.stop ≤ length

theorem Ordered.tail {range : Range} (h : Ordered length (range :: ranges)) :
    Ordered length ranges where
  pairwise := h.pairwise.of_cons
  start_le r hr := h.start_le r (List.mem_cons_of_mem _ hr)
  stop_le r hr := h.stop_le r (List.mem_cons_of_mem _ hr)

theorem Ordered.head_le {range : Range} (h : Ordered length (range :: ranges)) :
    range.start ≤ length :=
  (h.start_le range List.mem_cons_self).trans (h.stop_le range List.mem_cons_self)

/-- **A position is put out** when the last range that begins at or before it ends there or
before. -/
theorem some_mem_pieces (h : Ordered length ranges) (i : ℕ) :
    some i ∈ pieces length last_end ranges ↔ i < length ∧ resume last_end ranges i ≤ i := by
  induction ranges generalizing last_end with
  | nil =>
    rw [pieces_nil, resume_of_lt (fun _ h => absurd h List.not_mem_nil)]
    simp only [List.mem_map, Option.some.injEq, exists_eq_right, List.mem_range'_1]
    omega
  | cons range ranges ih =>
    have hlength := h.head_le
    have hstop := h.start_le range List.mem_cons_self
    rw [pieces_cons range h.head_le, List.mem_append, List.mem_cons, ih h.tail]
    simp only [List.mem_map, Option.some.injEq, exists_eq_right, List.mem_range'_1, reduceCtorEq,
      false_or]
    by_cases hbegun : range.start ≤ i
    · rw [resume_cons_of_le hbegun]
      omega
    · have hafter : ∀ r ∈ ranges, i < r.start := fun r hr =>
        (not_le.mp hbegun).trans_le (List.rel_of_pairwise_cons h.pairwise hr)
      have hall : ∀ r ∈ range :: ranges, i < r.start :=
        List.forall_mem_cons.mpr ⟨not_le.mp hbegun, hafter⟩
      rw [resume_of_lt hafter, resume_of_lt hall]
      omega

/-- What is put out stands behind what the ranges and the last end do. -/
theorem le_of_some_mem_pieces (h : Ordered length ranges) {low : ℕ} (hlow : low ≤ last_end)
    (hranges : ∀ range ∈ ranges, low ≤ range.start) {i : ℕ}
    (hi : some i ∈ pieces length last_end ranges) : low ≤ i := by
  have hresume := ((some_mem_pieces h i).mp hi).2
  rw [resume] at hresume
  cases hlast : lastBegun ranges i with
  | none =>
    rw [hlast] at hresume
    exact hlow.trans hresume
  | some range =>
    have hmem := List.mem_filter.mp (List.mem_of_getLast? hlast)
    exact (hranges range hmem.1).trans (of_decide_eq_true hmem.2)

/-- What is put out is put out in order. -/
theorem pairwise_pieces (h : Ordered length ranges) :
    ((pieces length last_end ranges).filterMap id).Pairwise (· < ·) := by
  have hsome : ∀ l : List ℕ, (l.map some).filterMap id = l := fun l => by
    rw [List.filterMap_map]
    exact List.filterMap_some
  induction ranges generalizing last_end with
  | nil =>
    rw [pieces_nil, hsome]
    exact List.pairwise_lt_range'
  | cons range ranges ih =>
    rw [pieces_cons range h.head_le, List.filterMap_append, hsome]
    refine List.pairwise_append.mpr ⟨List.pairwise_lt_range', ih h.tail, fun i hi j hj => ?_⟩
    have hlow : range.start ≤ j := by
      have hpiece : some j ∈ pieces length range.stop ranges := by
        simpa [List.mem_filterMap] using hj
      exact le_of_some_mem_pieces h.tail (h.start_le range List.mem_cons_self)
        (fun r hr => List.rel_of_pairwise_cons h.pairwise hr) hpiece
    have hchunk := List.mem_range'_1.mp hi
    omega

/-- **Each marker is a range's**, and each range has one: in front of it only positions before
the range are put out, and behind it none of those before the range. -/
theorem exists_mark (h : Ordered length ranges) {range : Range} (hrange : range ∈ ranges) :
    ∃ front back, pieces length last_end ranges = front ++ none :: back ∧
      (∀ i, some i ∈ front → i < range.start) ∧ ∀ i, some i ∈ back → range.start ≤ i := by
  induction ranges generalizing last_end with
  | nil => cases hrange
  | cons head ranges ih =>
    have hchunk : ∀ i, some i ∈ (List.range' last_end (head.start - last_end)).map some →
        i < head.start := by
      intro i hi
      simp only [List.mem_map, Option.some.injEq, exists_eq_right, List.mem_range'_1] at hi
      omega
    rw [pieces_cons head h.head_le]
    rcases List.mem_cons.mp hrange with rfl | hrange
    · exact ⟨_, _, rfl, hchunk, fun i hi => le_of_some_mem_pieces h.tail
        (h.start_le range List.mem_cons_self)
        (fun r hr => List.rel_of_pairwise_cons h.pairwise hr) hi⟩
    · obtain ⟨front, back, heq, hfront, hback⟩ := @ih head.stop h.tail hrange
      refine ⟨(List.range' last_end (head.start - last_end)).map some ++ none :: front, back,
        by rw [heq, List.append_assoc, List.cons_append], fun i hi => ?_, hback⟩
      rw [List.mem_append, List.mem_cons] at hi
      obtain hi | hi | hi := hi
      · exact (hchunk i hi).trans_le (List.rel_of_pairwise_cons h.pairwise hrange)
      · cases hi
      · exact hfront i hi

theorem exists_range_of_mark (h : Ordered length ranges) {front back : List (Option ℕ)}
    (heq : pieces length last_end ranges = front ++ none :: back) :
    ∃ range ∈ ranges, (∀ i, some i ∈ front → i < range.start) ∧
      ∀ i, some i ∈ back → range.start ≤ i := by
  induction ranges generalizing last_end front with
  | nil =>
    have hmem : none ∈ pieces length last_end [] := by
      rw [heq]
      exact List.mem_append_right _ List.mem_cons_self
    rw [pieces_nil] at hmem
    simp at hmem
  | cons head ranges ih =>
    have hchunk : ∀ i, some i ∈ (List.range' last_end (head.start - last_end)).map some →
        i < head.start := by
      intro i hi
      simp only [List.mem_map, Option.some.injEq, exists_eq_right, List.mem_range'_1] at hi
      omega
    -- the marker of the first range
    have hfirst : front = (List.range' last_end (head.start - last_end)).map some →
        back = pieces length head.stop ranges →
        ∃ range ∈ head :: ranges, (∀ i, some i ∈ front → i < range.start) ∧
          ∀ i, some i ∈ back → range.start ≤ i := by
      rintro rfl rfl
      exact ⟨head, List.mem_cons_self, hchunk, fun i hi => le_of_some_mem_pieces h.tail
        (h.start_le head List.mem_cons_self)
        (fun r hr => List.rel_of_pairwise_cons h.pairwise hr) hi⟩
    rw [pieces_cons head h.head_le] at heq
    rcases List.append_eq_append_iff.mp heq with ⟨rest, hfront, hrest⟩ | ⟨rest, hfront, hrest⟩
    · rcases rest with _ | ⟨piece, rest⟩
      · exact hfirst (hfront.trans (List.append_nil _)) (List.cons.inj hrest).2.symm
      · obtain ⟨rfl, htail⟩ := List.cons.inj hrest
        obtain ⟨range, hrange, hbefore, hbehind⟩ := @ih head.stop h.tail _ htail
        refine ⟨range, List.mem_cons_of_mem _ hrange, fun i hi => ?_, hbehind⟩
        rw [hfront, List.mem_append, List.mem_cons] at hi
        obtain hi | hi | hi := hi
        · exact (hchunk i hi).trans_le (List.rel_of_pairwise_cons h.pairwise hrange)
        · cases hi
        · exact hbefore i hi
    · rcases rest with _ | ⟨piece, rest⟩
      · exact hfirst (hfront.trans (List.append_nil _)).symm (List.cons.inj hrest).2
      · have hmem : none ∈ (List.range' last_end (head.start - last_end)).map some := by
          rw [hfront, ← (List.cons.inj hrest).1]
          exact List.mem_append_right _ List.mem_cons_self
        simp at hmem

end Pieces

/-! ### The ranges of a scan -/

variable {Re : Type}

/-- The documented behaviour of `find_iter`: the ranges are ranges of the content. -/
def RegexCrate.InContent (regex : RegexCrate Re) : Prop :=
  ∀ re content, ∀ range ∈ regex.find_iter re content,
    range.start ≤ range.stop ∧ range.stop ≤ content.length

/-- The ranges that the patterns with the action `Redact` match. -/
def redactRanges (regex : RegexCrate Re) (patterns : List (LeakPattern Re))
    (content : List Char) : List Range :=
  (patterns.filter (·.action = .redact)).flatMap fun pattern =>
    regex.find_iter pattern.regex content

namespace LeakDetector

variable {regex : RegexCrate Re} {d : LeakDetector Re} {content : List Char}

/-- The ranges that a scan hands over to `apply_redactions`: those of the patterns it runs, in the
order in which they begin, and those that begin together in the order in which it finds them. -/
def redactedRanges (regex : RegexCrate Re) (d : LeakDetector Re) (content : List Char) :
    List Range :=
  ((((d.candidateIndices content).flatMap fun idx =>
    (d.patterns.get idx).matchesIn regex content).filter (·.action = .redact)).map
      LeakMatch.location).mergeSort fun a b => a.start ≤ b.start

/-- A scan that does not block puts out the content without these ranges. -/
theorem scanAndClean_of_not_block (h : (d.scan regex content).should_block = false) :
    d.scanAndClean regex content =
      .ok (applyRedactions content (d.redactedRanges regex content)) := by
  rw [scanAndClean, if_neg (by rw [h]; exact Bool.false_ne_true)]
  change Except.ok (Option.getD (if (d.redactedRanges regex content).isEmpty then none else
    some (applyRedactions content (d.redactedRanges regex content))) content) = _
  split_ifs with hempty
  · rw [List.isEmpty_iff.mp hempty]
    rfl
  · rfl

theorem scanAndClean_ok {output : List Char} (h : d.scanAndClean regex content = .ok output) :
    output = applyRedactions content (d.redactedRanges regex content) := by
  cases hblock : (d.scan regex content).should_block with
  | true =>
    rw [scanAndClean, if_pos hblock] at h
    cases h
  | false =>
    rw [scanAndClean_of_not_block hblock] at h
    exact (Except.ok.inj h).symm

theorem mem_redactedRanges {range : Range} (h : range ∈ d.redactedRanges regex content) :
    range ∈ redactRanges regex d.patterns content := by
  rw [redactedRanges, List.mem_mergeSort] at h
  obtain ⟨mat, hmat, rfl⟩ := List.mem_map.mp h
  obtain ⟨hmat, hredact⟩ := List.mem_filter.mp hmat
  obtain ⟨idx, -, hidx⟩ := List.mem_flatMap.mp hmat
  obtain ⟨location, hlocation, rfl⟩ := List.mem_map.mp hidx
  exact List.mem_flatMap.mpr
    ⟨d.patterns.get idx, List.mem_filter.mpr ⟨List.get_mem _ _, hredact⟩, hlocation⟩

theorem ordered_redactedRanges (hregex : regex.InContent) :
    Ordered content.length (d.redactedRanges regex content) := by
  have hin : ∀ range ∈ d.redactedRanges regex content,
      range.start ≤ range.stop ∧ range.stop ≤ content.length := by
    intro range hrange
    obtain ⟨pattern, -, hfound⟩ := List.mem_flatMap.mp (mem_redactedRanges hrange)
    exact hregex pattern.regex content range hfound
  refine ⟨?_, fun range hrange => (hin range hrange).1, fun range hrange => (hin range hrange).2⟩
  have hsorted := @List.pairwise_mergeSort _ (fun a b : Range => decide (a.start ≤ b.start))
    (fun a b c hab hbc => decide_eq_true ((of_decide_eq_true hab).trans (of_decide_eq_true hbc)))
    (fun a b => by simpa using le_total a.start b.start)
    ((((d.candidateIndices content).flatMap fun idx =>
      (d.patterns.get idx).matchesIn regex content).filter (·.action = .redact)).map
        LeakMatch.location)
  exact hsorted.imp fun h => of_decide_eq_true h

end LeakDetector

open LeakDetector

/-- **Redaction is exact** if and only if each position of a range that a pattern with the action
`Redact` matches is in the last of the ranges, in the order of `apply_redactions`, that begin at
it or before. -/
theorem redaction_exact_iff (regex : RegexCrate Re) (hregex : regex.InContent)
    (aho : AhoCorasick) (patterns : List (LeakPattern Re)) (content output : List Char)
    (hok : (withPatterns regex aho patterns).scanAndClean regex content = .ok output) :
    output = render content (pieces content.length 0
        ((withPatterns regex aho patterns).redactedRanges regex content)) ∧
    (ExactRedaction content.length (redactRanges regex patterns content)
        (pieces content.length 0
          ((withPatterns regex aho patterns).redactedRanges regex content)) ↔
      ∀ range ∈ redactRanges regex patterns content, ∀ i, range.Covers i →
        ∃ last ∈ lastBegun ((withPatterns regex aho patterns).redactedRanges regex content) i,
          last.Covers i) := by
  set d := withPatterns regex aho patterns
  set ranges := d.redactedRanges regex content
  have hordered : Ordered content.length ranges := ordered_redactedRanges hregex
  have hmem : ∀ range ∈ ranges, range ∈ redactRanges regex patterns content := fun range hrange =>
    mem_redactedRanges hrange
  have hin : ∀ range ∈ redactRanges regex patterns content, range.stop ≤ content.length := by
    intro range hrange
    obtain ⟨pattern, -, hfound⟩ := List.mem_flatMap.mp hrange
    exact (hregex pattern.regex content range hfound).2
  have hemitted : ∀ i, i ∈ (pieces content.length 0 ranges).filterMap id ↔
      i < content.length ∧ resume 0 ranges i ≤ i := by
    intro i
    rw [← some_mem_pieces hordered]
    simp [List.mem_filterMap]
  -- the last range that begins at or before a position covers it or is over
  have hresume : ∀ i, i < resume 0 ranges i ↔ ∃ last ∈ lastBegun ranges i, last.Covers i := by
    intro i
    rw [resume]
    cases hlast : lastBegun ranges i with
    | none => simp
    | some last =>
      have hstart : last.start ≤ i :=
        of_decide_eq_true (List.mem_filter.mp (List.mem_of_getLast? hlast)).2
      simp [Range.Covers, hstart]
  refine ⟨?_, ?_, ?_⟩
  · rw [render_pieces, ← applyRedactions_eq]
    exact scanAndClean_ok hok
  · intro hexact range hrange i hi
    rw [← hresume]
    by_contra hnot
    have hput : i ∈ (pieces content.length 0 ranges).filterMap id :=
      (hemitted i).mpr ⟨hi.2.trans_le (hin range hrange), not_lt.mp hnot⟩
    rw [hexact.emitted] at hput
    exact of_decide_eq_true (List.mem_filter.mp hput).2 range hrange hi
  · intro hcover
    -- what is put out is in none of the ranges
    have houtside : ∀ i, some i ∈ pieces content.length 0 ranges →
        ∀ range ∈ redactRanges regex patterns content, ¬range.Covers i := by
      intro i hi range hrange hcovers
      have hle := ((some_mem_pieces hordered i).mp hi).2
      exact absurd ((hresume i).mpr (hcover range hrange i hcovers)) hle.not_gt
    refine ⟨?_, ?_, ?_⟩
    · refine (pairwise_pieces hordered).eq_of_mem_iff
        (List.pairwise_lt_range.filter _) fun i => ?_
      rw [hemitted, List.mem_filter, List.mem_range, decide_eq_true_eq]
      refine and_congr_right fun hlt => ⟨fun hle range hrange hcovers => ?_, fun hnone => ?_⟩
      · exact absurd ((hresume i).mpr (hcover range hrange i hcovers)) hle.not_gt
      · by_contra hnot
        obtain ⟨last, hlast, hcovers⟩ := (hresume i).mp (not_le.mp hnot)
        exact hnone last (hmem last (List.mem_filter.mp (List.mem_of_getLast? hlast)).1) hcovers
    · intro range hrange hlt
      obtain ⟨last, hlast, hcovers⟩ := hcover range hrange range.start ⟨Nat.le_refl _, hlt⟩
      have hlast := (List.mem_filter.mp (List.mem_of_getLast? hlast)).1
      obtain ⟨front, back, heq, hfront, hback⟩ := exists_mark hordered hlast
      refine ⟨front, back, heq, fun i hi => (hfront i hi).trans_le hcovers.1, fun i hi => ?_⟩
      have hput : some i ∈ pieces content.length 0 ranges := by
        rw [heq]
        exact List.mem_append_right _ (List.mem_cons_of_mem _ hi)
      have hout := houtside i hput range hrange
      have hout' := houtside i hput last (hmem last hlast)
      have hlow := hback i hi
      rw [Range.Covers] at hout hout' hcovers
      omega
    · intro front back heq
      obtain ⟨range, hrange, hfront, hback⟩ := exists_range_of_mark hordered heq
      refine ⟨range, hmem range hrange, hfront, fun i hi => ?_⟩
      have hput : some i ∈ pieces content.length 0 ranges := by
        rw [heq]
        exact List.mem_append_right _ (List.mem_cons_of_mem _ hi)
      have hout := houtside i hput range (hmem range hrange)
      by_contra hlt
      exact hout ⟨hback i hi, not_le.mp hlt⟩

/-! ### A range inside another -/

/-- Patterns that stand for themselves. -/
def literalRegex : RegexCrate String where
  new pattern := pattern
  as_str re := re
  find_iter re content :=
    if re.toList = [] then [] else
      (Search.search [re.toList] content).map fun mat => ⟨mat.start, mat.stop⟩
  is_match _ _ := false

theorem literalRegex_inContent : literalRegex.InContent := by
  intro re content range hrange
  change range ∈ ite _ _ _ at hrange
  split_ifs at hrange with hre
  · cases hrange
  · obtain ⟨mat, hmat, rfl⟩ := List.mem_map.mp hrange
    have hne : ∀ needle ∈ [re.toList], needle ≠ [] := by simpa using hre
    have hoccurs := (Search.standardSearch_search hne content).occurs mat hmat
    exact ⟨Nat.le_add_right _ _, hoccurs.stop_le (hne _ Search.Hit.text_mem)⟩

/-- A long secret, and a short one that may stand inside it. -/
def nestedPatterns : List (LeakPattern String) :=
  [⟨"long", "abcdefgh", .high, .redact⟩, ⟨"short", "cd", .high, .redact⟩]

/-- What is found in a short text, in order. -/
theorem redactedRanges_nested {content : List Char} {ranges : List Range}
    (hfound : ((((withPatterns literalRegex searchAho nestedPatterns).candidateIndices
      content).flatMap fun idx =>
        ((withPatterns literalRegex searchAho nestedPatterns).patterns.get idx).matchesIn
          literalRegex content).filter (·.action = .redact)).map LeakMatch.location = ranges)
    (hordered : ranges.Pairwise fun r r' => decide (r.start ≤ r'.start) = true) :
    (withPatterns literalRegex searchAho nestedPatterns).redactedRanges literalRegex content =
      ranges := by
  rw [redactedRanges, hfound]
  exact List.mergeSort_of_pairwise hordered

theorem redaction_exact_iff_short :
    "[REDACTED] abef [REDACTED]".toList = render "cd abef cd".toList
        (pieces "cd abef cd".toList.length 0
          ((withPatterns literalRegex searchAho nestedPatterns).redactedRanges literalRegex
            "cd abef cd".toList)) ∧
    (ExactRedaction "cd abef cd".toList.length
        (redactRanges literalRegex nestedPatterns "cd abef cd".toList)
        (pieces "cd abef cd".toList.length 0
          ((withPatterns literalRegex searchAho nestedPatterns).redactedRanges literalRegex
            "cd abef cd".toList)) ↔
      ∀ range ∈ redactRanges literalRegex nestedPatterns "cd abef cd".toList, ∀ i,
        range.Covers i →
          ∃ last ∈ lastBegun ((withPatterns literalRegex searchAho nestedPatterns).redactedRanges
            literalRegex "cd abef cd".toList) i, last.Covers i) := by
  have hranges := @redactedRanges_nested "cd abef cd".toList [⟨0, 2⟩, ⟨8, 10⟩] (by decide +kernel)
    (by decide)
  have hblock : ((withPatterns literalRegex searchAho nestedPatterns).scan literalRegex
      "cd abef cd".toList).should_block = false := by decide +kernel
  refine redaction_exact_iff literalRegex literalRegex_inContent searchAho nestedPatterns _ _ ?_
  rw [scanAndClean_of_not_block hblock, hranges]
  decide +kernel

/-- The end of the long secret is put out. -/
theorem nested_secret_leaks :
    (withPatterns literalRegex searchAho nestedPatterns).scanAndClean literalRegex
        "abcdefgh".toList = .ok "[REDACTED][REDACTED]efgh".toList ∧
      ⟨0, 8⟩ ∈ redactRanges literalRegex nestedPatterns "abcdefgh".toList ∧
      pieces "abcdefgh".toList.length 0
          ((withPatterns literalRegex searchAho nestedPatterns).redactedRanges literalRegex
            "abcdefgh".toList) = [none, none, some 4, some 5, some 6, some 7] := by
  have hblock : ((withPatterns literalRegex searchAho nestedPatterns).scan literalRegex
      "abcdefgh".toList).should_block = false := by decide +kernel
  have hranges := @redactedRanges_nested "abcdefgh".toList [⟨0, 8⟩, ⟨2, 4⟩] (by decide +kernel)
    (by decide)
  rw [scanAndClean_of_not_block hblock, hranges]
  decide +kernel

end T3Claw.Safety
