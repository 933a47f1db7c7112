import Mathlib.Data.List.Sort
import Mathlib.Data.List.TakeWhile
import T3Claw.Data.Split
import T3Claw.Data.Text

/-!
# Code regions and lines

`find_code_regions` of `llm/reasoning.rs`: the fenced blocks of a text, found line by line, and
behind them the backtick spans outside those. Positions count characters where the source counts
bytes; it only ever cuts at an ASCII character.

A backtick that stands alone is in a region when the next run of backticks is another single one
(`exists_region_of_tick`).
-/

namespace T3Claw.Llm

/-- A range of the text that is inside a code region. -/
structure CodeRegion where
  start : ℕ
  stop : ℕ
  deriving DecidableEq

/-- `is_inside_code`. -/
def isInsideCode (pos : ℕ) (regions : List CodeRegion) : Bool :=
  regions.any fun r => r.start ≤ pos && pos < r.stop

/-- `overlaps_code_region`. -/
def overlapsCodeRegion (start stop : ℕ) (regions : List CodeRegion) : Bool :=
  regions.any fun r => start < r.stop && r.start < stop

/-- A blank of a fence line. -/
def isFenceBlank (c : Char) : Bool := c = ' ' || c = '\t'

/-- The characters up to the end of the line, with it; all of them when it does not end. -/
def lineLength (cs : List Char) : ℕ :=
  match Split.cut? ['\n'] cs with
  | some (line, _) => line.length + 1
  | none => cs.length

theorem lineLength_pos {c : Char} {cs : List Char} : 0 < lineLength (c :: cs) := by
  rw [lineLength]
  split
  · exact Nat.succ_pos _
  · exact Nat.succ_pos _

/-- The line closes a fence of `fence_len` times `fence_char`: where it ends. -/
def closesFence (fence_char : Char) (fence_len : ℕ) (line : List Char) : Option ℕ :=
  let indent := (line.takeWhile isFenceBlank).length
  let run := ((line.drop indent).takeWhile (· = fence_char)).length
  let blanks := ((line.drop (indent + run)).takeWhile isFenceBlank).length
  if fence_len ≤ run then
    match (line.drop (indent + run + blanks)).head? with
    | none => some line.length
    | some c => if c = '\n' then some (indent + run + blanks + 1) else none
  else none

/-- The lines behind an opening fence, up to one that closes it: how far that is. -/
def closeFence (fence_char : Char) (fence_len : ℕ) : List Char → Option ℕ
  | [] => none
  | c :: cs =>
    match closesFence fence_char fence_len (c :: cs) with
    | some n => some n
    | none =>
      (closeFence fence_char fence_len ((c :: cs).drop (lineLength (c :: cs)))).map
        (· + lineLength (c :: cs))
termination_by cs => cs.length
decreasing_by
  rw [List.length_drop]
  exact Nat.sub_lt (Nat.succ_pos _) lineLength_pos

/-- A line that opens a fence: its character and length, and where the line ends if it does. -/
def opensFence (line : List Char) : Option (Char × ℕ × Option ℕ) :=
  let indent := (line.takeWhile isFenceBlank).length
  match (line.drop indent).head? with
  | some fence_char =>
    let fence_len := ((line.drop indent).takeWhile (· = fence_char)).length
    if (fence_char = '`' ∨ fence_char = '~') ∧ 3 ≤ fence_len then
      match Split.cut? ['\n'] (line.drop (indent + fence_len)) with
      | some (info, _) => some (fence_char, fence_len, some (indent + fence_len + info.length + 1))
      | none => some (fence_char, fence_len, none)
    else none
  | none => none

theorem opensFence_pos {line : List Char} {fence_char : Char} {fence_len n : ℕ}
    (h : opensFence line = some (fence_char, fence_len, some n)) : 0 < n := by
  rw [opensFence] at h
  dsimp only at h
  cases hhead : (line.drop (line.takeWhile isFenceBlank).length).head? with
  | none => simp [hhead] at h
  | some c =>
    rw [hhead] at h
    dsimp only at h
    split_ifs at h
    split at h
    · cases h
      exact Nat.succ_pos _
    · cases h

/-- The first loop of `find_code_regions`, at the start of a line. -/
def fencedBlocks (pos : ℕ) : List Char → List CodeRegion
  | [] => []
  | c :: cs =>
    match _hopens : opensFence (c :: cs) with
    | none =>
      fencedBlocks (pos + lineLength (c :: cs)) ((c :: cs).drop (lineLength (c :: cs)))
    | some (_, _, none) => [⟨pos, pos + (c :: cs).length⟩]
    | some (fence_char, fence_len, some n) =>
      match closeFence fence_char fence_len ((c :: cs).drop n) with
      | some m => ⟨pos, pos + n + m⟩ :: fencedBlocks (pos + n + m) ((c :: cs).drop (n + m))
      | none => [⟨pos, pos + (c :: cs).length⟩]
termination_by cs => cs.length
decreasing_by
  · rw [List.length_drop]
    exact Nat.sub_lt (Nat.succ_pos _) lineLength_pos
  · rw [List.length_drop]
    exact Nat.sub_lt (Nat.succ_pos _) (Nat.add_pos_left (opensFence_pos _hopens) m)

/-- The run of backticks at the front. -/
def tickRun (cs : List Char) : ℕ := (cs.takeWhile (· = '`')).length

theorem tickRun_pos (cs : List Char) : 0 < tickRun ('`' :: cs) := Nat.succ_pos _

/-- Where the next run of exactly `tick_len` backticks ends. -/
def closingRun (tick_len pos : ℕ) : List Char → Option ℕ
  | [] => none
  | c :: cs =>
    if c = '`' then
      if tickRun (c :: cs) = tick_len then some (pos + tick_len)
      else closingRun tick_len (pos + tickRun (c :: cs)) ((c :: cs).drop (tickRun (c :: cs)))
    else closingRun tick_len (pos + 1) cs
termination_by cs => cs.length
decreasing_by
  · rename_i htick _
    subst htick
    rw [List.length_drop]
    exact Nat.sub_lt (Nat.succ_pos _) (tickRun_pos cs)
  · exact Nat.lt_succ_self _

theorem le_closingRun {tick_len pos k : ℕ} {cs : List Char}
    (h : closingRun tick_len pos cs = some k) : pos + tick_len ≤ k := by
  induction pos, cs using closingRun.induct tick_len with
  | case1 pos => rw [closingRun] at h; cases h
  | case2 pos cs hrun =>
    rw [closingRun, if_pos rfl, if_pos hrun] at h
    exact (Option.some.inj h).le
  | case3 pos cs hrun ih =>
    rw [closingRun, if_pos rfl, if_neg hrun] at h
    have hle := ih h
    omega
  | case4 pos c cs htick ih =>
    rw [closingRun, if_neg htick] at h
    have hle := ih h
    omega

/-- The second loop of `find_code_regions`. -/
def inlineSpans (regions : List CodeRegion) (pos : ℕ) : List Char → List CodeRegion
  | [] => regions
  | c :: cs =>
    if c ≠ '`' ∨ isInsideCode pos regions then inlineSpans regions (pos + 1) cs
    else
      let tick_len := tickRun (c :: cs)
      match h : closingRun tick_len (pos + tick_len) ((c :: cs).drop tick_len) with
      | some k => inlineSpans (regions ++ [⟨pos, k⟩]) k ((c :: cs).drop (k - pos))
      | none => inlineSpans regions (pos + tick_len) ((c :: cs).drop tick_len)
termination_by cs => cs.length
decreasing_by
  · exact Nat.lt_succ_self _
  · rename_i hopen
    obtain rfl : c = '`' := not_not.mp fun hne => hopen (.inl hne)
    have hle := le_closingRun h
    have hpos := tickRun_pos cs
    rw [List.length_drop]
    exact Nat.sub_lt (Nat.succ_pos _) (by omega)
  · rename_i hopen
    obtain rfl : c = '`' := not_not.mp fun hne => hopen (.inl hne)
    rw [List.length_drop]
    exact Nat.sub_lt (Nat.succ_pos _) (tickRun_pos cs)

/-- `find_code_regions`. -/
def findCodeRegions (text : List Char) : List CodeRegion :=
  (inlineSpans (fencedBlocks 0 text) 0 text).insertionSort fun a b => a.start ≤ b.start

/-- The part of the line of `pos` in front of it. -/
def linePrefix (text : List Char) (pos : ℕ) : List Char :=
  ((text.take pos).reverse.takeWhile (· ≠ '\n')).reverse

/-- The part of the line of `pos` from there on. -/
def lineSuffix (text : List Char) (pos : ℕ) : List Char := (text.drop pos).takeWhile (· ≠ '\n')

/-- The line of `pos` is a quoted one. -/
def isQuotedLine (text : List Char) (pos : ℕ) : Bool :=
  ((linePrefix text pos ++ lineSuffix text pos).dropWhile Text.isWhitespace).head? = some '>'

@[simp] theorem mem_findCodeRegions {text : List Char} {r : CodeRegion} :
    r ∈ findCodeRegions text ↔ r ∈ inlineSpans (fencedBlocks 0 text) 0 text :=
  List.mem_insertionSort _

/-! ### Where the regions are -/

/-- Fences are found from the line on. -/
theorem le_start_of_mem_fencedBlocks {pos : ℕ} {cs : List Char} {r : CodeRegion}
    (h : r ∈ fencedBlocks pos cs) : pos ≤ r.start := by
  induction pos, cs using fencedBlocks.induct with
  | case1 pos => rw [fencedBlocks] at h; cases h
  | case2 pos c cs hopens ih =>
    rw [fencedBlocks, hopens] at h
    exact (Nat.le_add_right _ _).trans (ih h)
  | case3 pos c cs fence_char fence_len hopens =>
    rw [fencedBlocks, hopens] at h
    obtain rfl := List.mem_singleton.mp h
    exact le_rfl
  | case4 pos c cs fence_char fence_len n hopens m hcloses ih =>
    rw [fencedBlocks, hopens] at h
    dsimp only at h
    rw [hcloses] at h
    obtain rfl | h := List.mem_cons.mp h
    · exact le_rfl
    · have hle := ih h
      omega
  | case5 pos c cs fence_char fence_len n hopens hcloses =>
    rw [fencedBlocks, hopens] at h
    dsimp only at h
    rw [hcloses] at h
    obtain rfl := List.mem_singleton.mp h
    exact le_rfl

/-- A line opens no fence whose first character behind the blanks is none of one. -/
theorem opensFence_eq_none {line : List Char}
    (h : ∀ c ∈ (line.drop (line.takeWhile isFenceBlank).length).head?, c ≠ '`' ∧ c ≠ '~') :
    opensFence line = none := by
  rw [opensFence]
  dsimp only
  cases hhead : (line.drop (line.takeWhile isFenceBlank).length).head? with
  | none => rfl
  | some c =>
    obtain ⟨htick, htilde⟩ := h c hhead
    exact if_neg fun hfence => hfence.1.elim htick htilde

/-- The first line opens no fence. -/
theorem fencedBlocks_of_opensFence {c : Char} {cs : List Char} (h : opensFence (c :: cs) = none)
    (pos : ℕ) : fencedBlocks pos (c :: cs) =
      fencedBlocks (pos + lineLength (c :: cs)) ((c :: cs).drop (lineLength (c :: cs))) := by
  rw [fencedBlocks]
  split
  · rfl
  · rename_i hsome
    exact absurd (hsome.symm.trans h) (Option.some_ne_none _)
  · rename_i hsome
    exact absurd (hsome.symm.trans h) (Option.some_ne_none _)

/-- Regions that are there stay. -/
theorem mem_inlineSpans {regions : List CodeRegion} {pos : ℕ} {cs : List Char} {r : CodeRegion}
    (h : r ∈ regions) : r ∈ inlineSpans regions pos cs := by
  induction regions, pos, cs using inlineSpans.induct with
  | case1 regions pos => rwa [inlineSpans]
  | case2 regions pos c cs hskip ih =>
    rw [inlineSpans, if_pos hskip]
    exact ih h
  | case3 regions pos c cs hopen tick_len k hclosing ih =>
    rw [inlineSpans, if_neg hopen]
    dsimp only
    split
    · rename_i k' hk'
      obtain rfl := Option.some.inj (hk'.symm.trans hclosing)
      exact ih (List.mem_append_left _ h)
    · rename_i hnone
      exact absurd (hclosing.symm.trans hnone) (Option.some_ne_none k)
  | case4 regions pos c cs hopen tick_len hclosing ih =>
    rw [inlineSpans, if_neg hopen]
    dsimp only
    split
    · rename_i k hk
      exact absurd (hk.symm.trans hclosing) (Option.some_ne_none k)
    · exact ih h

/-- The other ones begin from the position on. -/
theorem le_start_of_mem_inlineSpans {regions : List CodeRegion} {pos : ℕ} {cs : List Char}
    {r : CodeRegion} (h : r ∈ inlineSpans regions pos cs) : r ∈ regions ∨ pos ≤ r.start := by
  induction regions, pos, cs using inlineSpans.induct with
  | case1 regions pos =>
    rw [inlineSpans] at h
    exact .inl h
  | case2 regions pos c cs hskip ih =>
    rw [inlineSpans, if_pos hskip] at h
    exact (ih h).imp_right (Nat.le_succ _).trans
  | case3 regions pos c cs hopen tick_len k hclosing ih =>
    have hle := le_closingRun hclosing
    rw [inlineSpans, if_neg hopen] at h
    dsimp only at h
    split at h
    · rename_i k' hk'
      obtain rfl := Option.some.inj (hk'.symm.trans hclosing)
      rcases ih h with hr | hr
      · rcases List.mem_append.mp hr with hr | hr
        · exact .inl hr
        · rw [List.mem_singleton.mp hr]
          exact .inr le_rfl
      · exact .inr (by omega)
    · rename_i hnone
      exact absurd (hclosing.symm.trans hnone) (Option.some_ne_none k)
  | case4 regions pos c cs hopen tick_len hclosing ih =>
    rw [inlineSpans, if_neg hopen] at h
    dsimp only at h
    split at h
    · rename_i k hk
      exact absurd (hk.symm.trans hclosing) (Option.some_ne_none k)
    · exact (ih h).imp_right (Nat.le_add_right _ _).trans

/-- What the loop does at a run of backticks outside code. -/
theorem inlineSpans_tick {regions : List CodeRegion} {pos : ℕ} {cs : List Char}
    (h : isInsideCode pos regions = false) :
    inlineSpans regions pos ('`' :: cs) =
      match closingRun (tickRun ('`' :: cs)) (pos + tickRun ('`' :: cs))
          (('`' :: cs).drop (tickRun ('`' :: cs))) with
      | some k => inlineSpans (regions ++ [⟨pos, k⟩]) k (('`' :: cs).drop (k - pos))
      | none =>
        inlineSpans regions (pos + tickRun ('`' :: cs))
          (('`' :: cs).drop (tickRun ('`' :: cs))) := by
  rw [inlineSpans, if_neg (by simp [h])]
  dsimp only
  split
  · rename_i k hk
    rw [hk]
  · rename_i hnone
    rw [hnone]

theorem inlineSpans_skip {regions : List CodeRegion} {pos : ℕ} {c : Char} {cs : List Char}
    (h : c ≠ '`' ∨ isInsideCode pos regions) :
    inlineSpans regions pos (c :: cs) = inlineSpans regions (pos + 1) cs := by
  rw [inlineSpans, if_pos h]

/-- Text without a backtick has no span. -/
theorem inlineSpans_append {regions : List CodeRegion} {front : List Char} (h : '`' ∉ front)
    (pos : ℕ) (cs : List Char) :
    inlineSpans regions pos (front ++ cs) = inlineSpans regions (pos + front.length) cs := by
  induction front generalizing pos with
  | nil => rfl
  | cons c front ih =>
    obtain ⟨hc, hfront⟩ := not_or.mp (mt List.mem_cons.mpr h)
    rw [List.cons_append, inlineSpans_skip (.inl (Ne.symm hc)), ih hfront, List.length_cons,
      Nat.add_right_comm, Nat.add_assoc]

/-- A run in front of other characters. -/
theorem tickRun_cons_of_ne {c : Char} (h : c ≠ '`') (cs : List Char) :
    tickRun ('`' :: c :: cs) = 1 := by
  rw [tickRun, List.takeWhile_cons_of_pos (by simp), List.takeWhile_cons_of_neg (by simpa using h)]
  rfl

theorem closingRun_append {tick_len : ℕ} {front : List Char} (h : '`' ∉ front) (pos : ℕ)
    (cs : List Char) : closingRun tick_len pos (front ++ cs) =
      closingRun tick_len (pos + front.length) cs := by
  induction front generalizing pos with
  | nil => rfl
  | cons c front ih =>
    obtain ⟨hc, hfront⟩ := not_or.mp (mt List.mem_cons.mpr h)
    rw [List.cons_append, closingRun, if_neg (Ne.symm hc), ih hfront, List.length_cons,
      Nat.add_right_comm, Nat.add_assoc]

/-- A single backtick is closed by the next one, if that is single too. -/
theorem closingRun_single {mid back : List Char} (hmid : '`' ∉ mid)
    (hback : back.head? ≠ some '`') (pos : ℕ) :
    closingRun 1 pos (mid ++ '`' :: back) = some (pos + mid.length + 1) := by
  have hrun : tickRun ('`' :: back) = 1 := by
    cases back with
    | nil => rfl
    | cons c back =>
      exact tickRun_cons_of_ne (fun h => hback (congrArg some h)) back
  rw [closingRun_append hmid, closingRun, if_pos rfl, if_pos hrun]

/-- The backticks around `mid` make a region, when the opening one is outside code. -/
theorem mem_inlineSpans_single {regions : List CodeRegion} {pos : ℕ} {mid back : List Char}
    (hne : mid ≠ []) (hmid : '`' ∉ mid) (hback : back.head? ≠ some '`')
    (hinside : isInsideCode pos regions = false) :
    ⟨pos, pos + mid.length + 2⟩ ∈ inlineSpans regions pos ('`' :: (mid ++ '`' :: back)) := by
  obtain ⟨c, mid', rfl⟩ := List.exists_cons_of_ne_nil hne
  have hrun : tickRun ('`' :: (c :: mid' ++ '`' :: back)) = 1 :=
    tickRun_cons_of_ne (fun h => hmid (h ▸ List.mem_cons_self)) _
  have hclosing := closingRun_single hmid hback (pos + 1)
  rw [inlineSpans_tick hinside, hrun, List.drop_one, List.tail_cons, hclosing]
  refine mem_inlineSpans (List.mem_append_right _ (List.mem_singleton.mpr ?_))
  rw [CodeRegion.mk.injEq]
  exact ⟨rfl, by omega⟩

/-- The first backticks of a text, on a line that opens no fence. -/
theorem mem_findCodeRegions_first {front mid back : List Char} (hfront : '`' ∉ front)
    (hne : mid ≠ []) (hmid : '`' ∉ mid) (hback : back.head? ≠ some '`')
    (hinside : isInsideCode front.length (fencedBlocks 0 (front ++ '`' :: (mid ++ '`' :: back))) =
      false) :
    ⟨front.length, front.length + mid.length + 2⟩ ∈
      findCodeRegions (front ++ '`' :: (mid ++ '`' :: back)) := by
  rw [mem_findCodeRegions, inlineSpans_append hfront, Nat.zero_add]
  exact mem_inlineSpans_single hne hmid hback hinside

/-- No region begins with a character that neither opens code nor is blank. -/
theorem not_inside_zero {c : Char} (hblank : isFenceBlank c = false) (htick : c ≠ '`')
    (htilde : c ≠ '~') (cs : List Char) :
    isInsideCode 0 (findCodeRegions (c :: cs)) = false := by
  have hopens : opensFence (c :: cs) = none := by
    refine opensFence_eq_none fun d hd => ?_
    rw [List.takeWhile_cons_of_neg (by rw [hblank]; exact Bool.false_ne_true)] at hd
    obtain rfl := Option.some.inj hd
    exact ⟨htick, htilde⟩
  rw [isInsideCode, List.any_eq_false]
  intro r hr
  have hpos : 0 < r.start := by
    rw [mem_findCodeRegions, inlineSpans_skip (.inl htick)] at hr
    rcases le_start_of_mem_inlineSpans hr with hr | hr
    · rw [fencedBlocks_of_opensFence hopens, Nat.zero_add] at hr
      exact lineLength_pos.trans_le (le_start_of_mem_fencedBlocks hr)
    · exact hr
  rw [Bool.and_eq_true, decide_eq_true_eq]
  exact fun h => absurd h.1 (Nat.not_le.mpr hpos)

/-- Text without backticks and tildes has no code. -/
theorem findCodeRegions_eq_nil {text : List Char} (htick : '`' ∉ text) (htilde : '~' ∉ text) :
    findCodeRegions text = [] := by
  have hnone : ∀ line : List Char, '`' ∉ line → '~' ∉ line → opensFence line = none := by
    intro line htick htilde
    refine opensFence_eq_none fun d hd => ?_
    have hmem : d ∈ line := List.mem_of_mem_drop (List.mem_of_mem_head? hd)
    exact ⟨fun h => htick (h ▸ hmem), fun h => htilde (h ▸ hmem)⟩
  have hfences : ∀ pos, fencedBlocks pos text = [] := by
    intro pos
    induction pos, text using fencedBlocks.induct with
    | case1 pos => rw [fencedBlocks]
    | case2 pos c cs hopens ih =>
      rw [fencedBlocks_of_opensFence hopens]
      exact ih (fun h => htick (List.mem_of_mem_drop h)) (fun h => htilde (List.mem_of_mem_drop h))
    | case3 pos c cs fence_char fence_len hopens =>
      exact absurd ((hnone _ htick htilde).symm.trans hopens) (Option.some_ne_none _).symm
    | case4 pos c cs fence_char fence_len n hopens =>
      exact absurd ((hnone _ htick htilde).symm.trans hopens) (Option.some_ne_none _).symm
    | case5 pos c cs fence_char fence_len n hopens =>
      exact absurd ((hnone _ htick htilde).symm.trans hopens) (Option.some_ne_none _).symm
  refine List.eq_nil_iff_forall_not_mem.mpr fun r hr => ?_
  rw [mem_findCodeRegions, hfences, ← List.append_nil text, inlineSpans_append htick,
    inlineSpans] at hr
  cases hr

theorem getLast?_drop_ne {front : List Char} (h : front.getLast? ≠ some '`') (n : ℕ) :
    (front.drop n).getLast? ≠ some '`' := by
  rw [List.getLast?_drop]
  split_ifs
  · exact Option.some_ne_none _ ∘ Eq.symm
  · exact h

/-- A run does not go past a character that is no backtick. -/
theorem tickRun_le {front : List Char} (hne : front ≠ []) (h : front.getLast? ≠ some '`')
    (rest : List Char) : tickRun (front ++ rest) ≤ front.length := by
  have hlt : (front.takeWhile (· = '`')).length ≠ front.length := by
    intro hlength
    have hall := List.takeWhile_eq_self_iff.mp ((List.takeWhile_sublist _).eq_of_length hlength)
    refine h ((List.getLast?_eq_some_getLast hne).trans (congrArg some ?_))
    exact of_decide_eq_true (hall _ (List.getLast_mem hne))
  rw [tickRun, List.takeWhile_append, if_neg hlt]
  exact (List.takeWhile_sublist _).length_le

/-- **Single backticks are a span**: the first of two that stand alone, with other characters and
no backtick between them, is in a region. -/
theorem exists_region_of_tick {front mid back : List Char}
    (hfront : front.getLast? ≠ some '`') (hne : mid ≠ []) (hmid : '`' ∉ mid)
    (hback : back.head? ≠ some '`') :
    isInsideCode front.length (findCodeRegions (front ++ '`' :: (mid ++ '`' :: back))) = true := by
  have hspans : ∀ (regions : List CodeRegion) (pos : ℕ) (cs front : List Char),
      front.getLast? ≠ some '`' → cs = front ++ '`' :: (mid ++ '`' :: back) →
      ∃ r ∈ inlineSpans regions pos cs, r.start ≤ pos + front.length ∧
        pos + front.length < r.stop := by
    intro regions pos cs
    induction regions, pos, cs using inlineSpans.induct with
    | case1 regions pos =>
      intro front _ hcs
      cases front <;> cases hcs
    | case2 regions pos c cs hskip ih =>
      intro front hlast hcs
      cases front with
      | nil =>
        -- the backtick itself is inside a region
        obtain ⟨rfl, rfl⟩ := List.cons.inj hcs
        obtain ⟨r, hr, hinside⟩ := List.any_eq_true.mp (hskip.resolve_left (not_not.mpr rfl))
        rw [Bool.and_eq_true, decide_eq_true_eq, decide_eq_true_eq] at hinside
        exact ⟨r, mem_inlineSpans hr, hinside⟩
      | cons d front =>
        obtain ⟨rfl, hrest⟩ := List.cons.inj hcs
        rw [inlineSpans_skip hskip]
        have hlast' : front.getLast? ≠ some '`' := by
          cases front with
          | nil => exact Option.some_ne_none _ ∘ Eq.symm
          | cons e front => rwa [List.getLast?_cons_cons] at hlast
        obtain ⟨r, hr, hle, hlt⟩ := ih front hlast' hrest
        exact ⟨r, hr, by rw [List.length_cons]; omega, by rw [List.length_cons]; omega⟩
    | case3 regions pos c cs hopen tick_len k hclosing ih =>
      intro front hlast hcs
      obtain ⟨rfl, hinside⟩ := not_or.mp hopen |>.imp not_not.mp Bool.eq_false_of_not_eq_true
      have hk := le_closingRun hclosing
      have hresult : inlineSpans regions pos ('`' :: cs) =
          inlineSpans (regions ++ [⟨pos, k⟩]) k (('`' :: cs).drop (k - pos)) := by
        rw [inlineSpans_tick hinside, hclosing]
      rw [hresult]
      by_cases hle : k ≤ pos + front.length
      · -- the span ends in front of the backtick
        have hdrop : ('`' :: cs).drop (k - pos) =
            front.drop (k - pos) ++ '`' :: (mid ++ '`' :: back) := by
          rw [hcs, List.drop_append_of_le_length (by omega)]
        have hlength : k + (front.drop (k - pos)).length = pos + front.length := by
          rw [List.length_drop]
          omega
        have hregion := ih (front.drop (k - pos)) (getLast?_drop_ne hlast _) hdrop
        rwa [hlength] at hregion
      · -- the backtick is in the span, or closes it
        exact ⟨⟨pos, k⟩, mem_inlineSpans (List.mem_append_right _ List.mem_cons_self),
          Nat.le_add_right _ _, Nat.lt_of_not_le hle⟩
    | case4 regions pos c cs hopen tick_len hclosing ih =>
      intro front hlast hcs
      obtain ⟨rfl, hinside⟩ := not_or.mp hopen |>.imp not_not.mp Bool.eq_false_of_not_eq_true
      cases front with
      | nil =>
        obtain rfl := (List.cons.inj hcs).2
        obtain ⟨c, mid', rfl⟩ := List.exists_cons_of_ne_nil hne
        have hrun : tick_len = 1 :=
          tickRun_cons_of_ne (fun h => hmid (h ▸ List.mem_cons_self)) _
        rw [hrun, List.drop_one, List.tail_cons, closingRun_single hmid hback] at hclosing
        cases hclosing
      | cons d front =>
        have hrun : tick_len ≤ (d :: front).length := by
          have hle := tickRun_le (List.cons_ne_nil d front) hlast ('`' :: (mid ++ '`' :: back))
          rwa [← hcs] at hle
        have hdrop : ('`' :: cs).drop tick_len =
            (d :: front).drop tick_len ++ '`' :: (mid ++ '`' :: back) := by
          rw [hcs, List.drop_append_of_le_length hrun]
        have hlength : pos + tick_len + ((d :: front).drop tick_len).length =
            pos + (d :: front).length := by
          rw [List.length_drop]
          omega
        have hregion := ih _ (getLast?_drop_ne hlast _) hdrop
        rw [hlength] at hregion
        rwa [inlineSpans_tick hinside, show closingRun (tickRun ('`' :: cs))
          (pos + tickRun ('`' :: cs)) (('`' :: cs).drop (tickRun ('`' :: cs))) = none from hclosing]
  obtain ⟨r, hr, hle, hlt⟩ := hspans (fencedBlocks 0 (front ++ '`' :: (mid ++ '`' :: back))) 0 _
    front hfront rfl
  rw [Nat.zero_add] at hle hlt
  refine List.any_eq_true.mpr ⟨r, mem_findCodeRegions.mpr hr, ?_⟩
  rw [Bool.and_eq_true, decide_eq_true_eq, decide_eq_true_eq]
  exact ⟨hle, hlt⟩

end T3Claw.Llm
