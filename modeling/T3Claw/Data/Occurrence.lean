import Mathlib.Data.List.Infix
import Mathlib.Data.List.PeriodicityLemma
import Mathlib.Data.List.TakeWhile
import T3Claw.Data.Text

/-!
# Patterns in a text

What `str::replace`, `str::rfind` and `str::trim` do. `occurrences` counts every place at which a
pattern stands in a text, `count` only those that `str::replace` goes through: from left to right,
each behind the one before it. The two differ where occurrences overlap
(`count_eq_occurrences_iff`). When a replacement breaks the pattern with a character of its own,
the occurrences that are left are the ones that were not replaced (`occurrences_replace`).
-/

namespace T3Claw.Text

/-- The number of places at which a pattern, not the empty one, stands in a text. -/
def occurrences (pattern : List Char) : List Char → ℕ
  | [] => 0
  | c :: cs => (if pattern <+: c :: cs then 1 else 0) + occurrences pattern cs

/-- `str::rfind`: what stands in front of the last occurrence. -/
def beforeLast? (pattern : List Char) : List Char → Option (List Char)
  | [] => if pattern.isEmpty then some [] else none
  | c :: cs =>
    match beforeLast? pattern cs with
    | some front => some (c :: front)
    | none => if pattern.isPrefixOf (c :: cs) then some [] else none

variable {pattern replacement : List Char}

theorem occurrences_cons (c : Char) (cs : List Char) :
    occurrences pattern (c :: cs) =
      (if pattern <+: c :: cs then 1 else 0) + occurrences pattern cs := rfl

/-! ### Occurrences -/

/-- An occurrence at the front stays clear of a character that is not in the pattern. -/
theorem prefix_append_cons_iff {c : Char} (h : c ∉ pattern) (X Y : List Char) :
    pattern <+: X ++ c :: Y ↔ pattern <+: X := by
  refine ⟨fun hpre => ?_, fun hpre => hpre.trans (List.prefix_append _ _)⟩
  rcases List.prefix_or_prefix_of_prefix hpre (List.prefix_append X (c :: Y)) with hX | hX
  · exact hX
  · obtain ⟨rest, rfl⟩ := hX
    have hrest : rest <+: c :: Y := (List.prefix_append_right_inj X).mp hpre
    rcases rest with _ | ⟨d, rest⟩
    · exact (List.append_nil X).symm ▸ List.prefix_refl X
    · obtain ⟨rfl, -⟩ := List.cons_prefix_cons.mp hrest
      exact absurd (List.mem_append_right X List.mem_cons_self) h

/-- A text falls into two at a character that is not in the pattern. -/
theorem occurrences_append_cons {c : Char} (hne : pattern ≠ []) (h : c ∉ pattern)
    (X Y : List Char) :
    occurrences pattern (X ++ c :: Y) = occurrences pattern X + occurrences pattern Y := by
  induction X with
  | nil =>
    have hnot : ¬pattern <+: c :: Y := fun hpre =>
      hne (List.prefix_nil.mp ((prefix_append_cons_iff h [] Y).mp hpre))
    rw [List.nil_append, occurrences_cons, if_neg hnot, occurrences]
  | cons a X ih =>
    have hiff := prefix_append_cons_iff h (a :: X) Y
    rw [List.cons_append] at hiff
    simp only [List.cons_append, occurrences, hiff, ih, Nat.add_assoc]

theorem occurrences_of_length_lt {cs : List Char} (h : cs.length < pattern.length) :
    occurrences pattern cs = 0 := by
  induction cs with
  | nil => rfl
  | cons c cs ih =>
    have hnot : ¬pattern <+: c :: cs := fun hpre =>
      absurd hpre.length_le (Nat.not_le_of_lt h)
    rw [occurrences_cons, if_neg hnot, ih (Nat.lt_of_succ_lt h)]

theorem occurrences_self (hne : pattern ≠ []) : occurrences pattern pattern = 1 := by
  rcases hpattern : pattern with _ | ⟨c, rest⟩
  · exact absurd hpattern hne
  · rw [occurrences_cons, if_pos (List.prefix_refl _),
      occurrences_of_length_lt (Nat.lt_succ_self _)]

/-- A text without the first character of the pattern. -/
theorem occurrences_of_head_not_mem {c : Char} {rest cs : List Char} (h : c ∉ cs) :
    occurrences (c :: rest) cs = 0 := by
  induction cs with
  | nil => rfl
  | cons d cs ih =>
    rw [List.mem_cons, not_or] at h
    rw [occurrences_cons, if_neg fun hpre => h.1 (List.cons_prefix_cons.mp hpre).1, ih h.2]

theorem occurrences_eq_zero_iff (hne : pattern ≠ []) {cs : List Char} :
    occurrences pattern cs = 0 ↔ contains pattern cs = false := by
  induction cs with
  | nil => simp [occurrences, contains, find?, hne]
  | cons c cs ih =>
    rw [contains] at ih
    by_cases h : pattern <+: c :: cs
    · have hpre : pattern.isPrefixOf (c :: cs) = true := List.isPrefixOf_iff_prefix.mpr h
      rw [occurrences_cons, contains, find?, if_pos h, if_pos hpre]
      simp
    · have hpre : ¬pattern.isPrefixOf (c :: cs) = true := fun h' =>
        h (List.isPrefixOf_iff_prefix.mp h')
      rw [occurrences_cons, contains, find?, if_neg h, if_neg hpre, Nat.zero_add, ih,
        Option.isSome_map]

/-! ### The last occurrence -/

theorem beforeLast?_of_length_lt {cs : List Char} (h : cs.length < pattern.length) :
    beforeLast? pattern cs = none := by
  induction cs with
  | nil =>
    have hempty : ¬pattern.isEmpty = true := fun hempty => by
      rw [List.isEmpty_iff.mp hempty] at h
      exact absurd h (Nat.lt_irrefl 0)
    rw [beforeLast?, if_neg hempty]
  | cons c cs ih =>
    have hpre : ¬pattern.isPrefixOf (c :: cs) = true := fun hpre =>
      absurd (List.isPrefixOf_iff_prefix.mp hpre).length_le (Nat.not_le_of_lt h)
    rw [beforeLast?, ih (Nat.lt_of_succ_lt h), if_neg hpre]

/-- The pattern at the end of a text is its last occurrence there. -/
theorem beforeLast?_append_self (hne : pattern ≠ []) (X : List Char) :
    beforeLast? pattern (X ++ pattern) = some X := by
  induction X with
  | nil =>
    rcases hpattern : pattern with _ | ⟨c, rest⟩
    · exact absurd hpattern hne
    · have hpre : (c :: rest).isPrefixOf (c :: rest) = true :=
        List.isPrefixOf_iff_prefix.mpr (List.prefix_refl _)
      rw [List.nil_append, beforeLast?, beforeLast?_of_length_lt (Nat.lt_succ_self _), if_pos hpre]
  | cons a X ih => rw [List.cons_append, beforeLast?, ih]

/-! ### Replacing -/

theorem replaceFrom_skip (n : ℕ) (cs : List Char) :
    replaceFrom pattern replacement n cs = replace pattern replacement (cs.drop n) := by
  induction cs generalizing n with
  | nil => cases n <;> rfl
  | cons c cs ih =>
    cases n with
    | zero => rfl
    | succ n => exact ih n

theorem countFrom_skip (n : ℕ) (cs : List Char) :
    countFrom pattern n cs = count pattern (cs.drop n) := by
  induction cs generalizing n with
  | nil => cases n <;> rfl
  | cons c cs ih =>
    cases n with
    | zero => rfl
    | succ n => exact ih n

theorem replace_cons {c : Char} {cs : List Char} (h : ¬pattern <+: c :: cs) :
    replace pattern replacement (c :: cs) = c :: replace pattern replacement cs := by
  have hpre : ¬pattern.isPrefixOf (c :: cs) = true := fun hpre =>
    h (List.isPrefixOf_iff_prefix.mp hpre)
  rw [replace, replaceFrom, if_neg hpre, replace]

theorem count_cons {c : Char} {cs : List Char} (h : ¬pattern <+: c :: cs) :
    count pattern (c :: cs) = count pattern cs := by
  have hpre : ¬pattern.isPrefixOf (c :: cs) = true := fun hpre =>
    h (List.isPrefixOf_iff_prefix.mp hpre)
  rw [count, countFrom, if_neg hpre, count]

theorem replace_self_append (hne : pattern ≠ []) (cs : List Char) :
    replace pattern replacement (pattern ++ cs) =
      replacement ++ replace pattern replacement cs := by
  obtain ⟨c, rest, hpattern⟩ := List.exists_cons_of_ne_nil hne
  have hpre : pattern.isPrefixOf (c :: (rest ++ cs)) = true :=
    List.isPrefixOf_iff_prefix.mpr ⟨cs, by rw [hpattern, List.cons_append]⟩
  have hlength : pattern.length - 1 = rest.length := by rw [hpattern]; rfl
  have hshape : pattern ++ cs = c :: (rest ++ cs) := by rw [hpattern, List.cons_append]
  rw [hshape, replace, replaceFrom, if_pos hpre, replaceFrom_skip, hlength, List.drop_left]

theorem count_self_append (hne : pattern ≠ []) (cs : List Char) :
    count pattern (pattern ++ cs) = count pattern cs + 1 := by
  obtain ⟨c, rest, hpattern⟩ := List.exists_cons_of_ne_nil hne
  have hpre : pattern.isPrefixOf (c :: (rest ++ cs)) = true :=
    List.isPrefixOf_iff_prefix.mpr ⟨cs, by rw [hpattern, List.cons_append]⟩
  have hlength : pattern.length - 1 = rest.length := by rw [hpattern]; rfl
  have hshape : pattern ++ cs = c :: (rest ++ cs) := by rw [hpattern, List.cons_append]
  rw [hshape, count, countFrom, if_pos hpre, countFrom_skip, hlength, List.drop_left]

/-- The way of `str::replace` through a text: behind a character at which the pattern does not
stand, or behind the pattern. -/
theorem replace_induction (hne : pattern ≠ []) {motive : List Char → Prop} (nil : motive [])
    (skip : ∀ c cs, ¬pattern <+: c :: cs → motive cs → motive (c :: cs))
    (found : ∀ cs, motive cs → motive (pattern ++ cs)) (cs : List Char) : motive cs := by
  induction h : cs.length using Nat.strongRecOn generalizing cs with
  | ind n ih =>
    rcases hcs : cs with _ | ⟨c, rest⟩
    · exact nil
    · by_cases hpre : pattern <+: c :: rest
      · obtain ⟨rest', hrest'⟩ := hpre
        rw [← hrest']
        refine found rest' (ih rest'.length ?_ rest' rfl)
        have hpos : 0 < pattern.length := List.length_pos_of_ne_nil hne
        rw [← h, hcs, ← hrest', List.length_append]
        omega
      · refine skip c rest hpre (ih rest.length ?_ rest rfl)
        rw [← h, hcs]
        exact Nat.lt_succ_self _

theorem length_replace (hne : pattern ≠ []) (cs : List Char) :
    (replace pattern replacement cs).length + count pattern cs * pattern.length =
      cs.length + count pattern cs * replacement.length := by
  induction cs using replace_induction hne with
  | nil => simp [replace, replaceFrom, count, countFrom]
  | skip c cs h ih =>
    rw [replace_cons h, count_cons h, List.length_cons, List.length_cons]
    omega
  | found cs ih =>
    rw [replace_self_append hne, count_self_append hne, List.length_append, List.length_append,
      Nat.add_mul, Nat.add_mul]
    omega

theorem replace_of_count_eq_zero (hne : pattern ≠ []) {cs : List Char}
    (h : count pattern cs = 0) : replace pattern replacement cs = cs := by
  induction cs using replace_induction hne with
  | nil => rfl
  | skip c cs hnot ih => rw [replace_cons hnot, ih (count_cons hnot ▸ h)]
  | found cs ih =>
    rw [count_self_append hne] at h
    exact absurd h (Nat.succ_ne_zero _)

theorem count_eq_zero_iff (hne : pattern ≠ []) {cs : List Char} :
    count pattern cs = 0 ↔ contains pattern cs = false := by
  rw [← occurrences_eq_zero_iff hne]
  induction cs using replace_induction hne with
  | nil => exact Iff.rfl
  | skip c cs hnot ih => rw [count_cons hnot, occurrences_cons, if_neg hnot, Nat.zero_add, ih]
  | found cs =>
    obtain ⟨c, rest, hpattern⟩ := List.exists_cons_of_ne_nil hne
    have hshape : pattern ++ cs = c :: (rest ++ cs) := by rw [hpattern, List.cons_append]
    have hocc : occurrences pattern (pattern ++ cs) = 1 + occurrences pattern (rest ++ cs) := by
      rw [hshape, occurrences_cons, if_pos (hshape ▸ List.prefix_append pattern cs)]
    rw [count_self_append hne, hocc]
    omega

/-- A replacement that is shorter than the pattern leaves only a text without it as it is. -/
theorem replace_eq_self_iff (hne : pattern ≠ []) (hlt : replacement.length < pattern.length)
    {cs : List Char} :
    replace pattern replacement cs = cs ↔ contains pattern cs = false := by
  rw [← count_eq_zero_iff hne]
  refine ⟨fun heq => ?_, replace_of_count_eq_zero hne⟩
  have hlength := @length_replace pattern replacement hne cs
  rw [heq, Nat.add_right_inj] at hlength
  by_contra hcount
  exact absurd (Nat.eq_of_mul_eq_mul_left (Nat.pos_of_ne_zero hcount) hlength)
    (Nat.ne_of_gt hlt)

theorem length_replace_le (hne : pattern ≠ []) (hle : replacement.length ≤ pattern.length)
    (cs : List Char) : (replace pattern replacement cs).length ≤ cs.length := by
  have hlength := @length_replace pattern replacement hne cs
  have hmul := Nat.mul_le_mul_left (count pattern cs) hle
  omega

/-- A replacement that only deletes from the pattern only deletes from the text. -/
theorem replace_sublist (hne : pattern ≠ []) (h : replacement.Sublist pattern) (cs : List Char) :
    (replace pattern replacement cs).Sublist cs := by
  induction cs using replace_induction hne with
  | nil => exact List.Sublist.refl _
  | skip c cs hnot ih =>
    rw [replace_cons hnot]
    exact ih.cons_cons c
  | found cs ih =>
    rw [replace_self_append hne]
    exact h.append ih

/-! ### Trimming -/

/-- What stands between white space, and itself neither begins nor ends with it. -/
theorem trim_append {front body back : List Char} (hfront : ∀ c ∈ front, isWhitespace c = true)
    (hback : ∀ c ∈ back, isWhitespace c = true)
    (hhead : ∀ c ∈ body.head?, isWhitespace c = false)
    (hlast : ∀ c ∈ body.getLast?, isWhitespace c = false) :
    trim (front ++ body ++ back) = body := by
  have hkept : ∀ l : List Char, (∀ c ∈ l.head?, isWhitespace c = false) →
      l.dropWhile isWhitespace = l := by
    intro l hl
    rcases l with _ | ⟨c, l⟩
    · rfl
    · exact List.dropWhile_cons_of_neg (by rw [hl c rfl]; exact Bool.false_ne_true)
  rw [trim, List.append_assoc, List.dropWhile_append_of_pos hfront]
  rcases hbody : body with _ | ⟨a, rest⟩
  · rw [List.nil_append, ← List.append_nil back, List.dropWhile_append_of_pos hback]
    rfl
  · have hdrop : (a :: rest ++ back).dropWhile isWhitespace = a :: rest ++ back :=
      hkept _ fun c hc => hhead c (hbody ▸ hc)
    rw [hdrop, List.reverse_append,
      List.dropWhile_append_of_pos fun c hc => hback c (List.mem_reverse.mp hc), hkept,
      List.reverse_reverse]
    rw [List.head?_reverse, ← hbody]
    exact hlast

/-- A text is what trimming leaves, between white space. -/
theorem exists_trim (cs : List Char) :
    ∃ front back, cs = front ++ trim cs ++ back ∧ (∀ c ∈ front, isWhitespace c = true) ∧
      (∀ c ∈ back, isWhitespace c = true) ∧ (∀ c ∈ (trim cs).head?, isWhitespace c = false) ∧
      ∀ c ∈ (trim cs).getLast?, isWhitespace c = false := by
  have hhead : ∀ (l : List Char), ∀ c ∈ (l.dropWhile isWhitespace).head?,
      isWhitespace c = false := by
    intro l c hc
    have hnot := List.head?_dropWhile_not isWhitespace l
    rw [hc] at hnot
    simpa using hnot
  let rest := cs.dropWhile isWhitespace
  have htrim : trim cs = (rest.reverse.dropWhile isWhitespace).reverse := rfl
  have hrest : rest = trim cs ++ (rest.reverse.takeWhile isWhitespace).reverse := by
    rw [htrim, ← List.reverse_append, List.takeWhile_append_dropWhile, List.reverse_reverse]
  refine ⟨cs.takeWhile isWhitespace, (rest.reverse.takeWhile isWhitespace).reverse, ?_,
    fun c hc => List.mem_takeWhile_imp hc,
    fun c hc => List.mem_takeWhile_imp (List.mem_reverse.mp hc), ?_, ?_⟩
  · rw [List.append_assoc, ← hrest]
    exact List.takeWhile_append_dropWhile.symm
  · intro c hc
    refine hhead cs c ?_
    change c ∈ rest.head?
    rw [hrest, List.head?_append, Option.mem_def.mp hc]
    rfl
  · rw [htrim, List.getLast?_reverse]
    exact hhead _

theorem length_trim_le (cs : List Char) : (trim cs).length ≤ cs.length := by
  obtain ⟨front, back, hcs, -⟩ := exists_trim cs
  have hlength := congrArg List.length hcs
  rw [List.length_append, List.length_append] at hlength
  omega

theorem trim_eq_self_of_length_le {cs : List Char} (h : cs.length ≤ (trim cs).length) :
    trim cs = cs := by
  obtain ⟨front, back, hcs, -⟩ := exists_trim cs
  have hlength := congrArg List.length hcs
  rw [List.length_append, List.length_append] at hlength
  have hfront : front = [] := List.length_eq_zero_iff.mp (by omega)
  have hback : back = [] := List.length_eq_zero_iff.mp (by omega)
  rw [hfront, hback, List.nil_append, List.append_nil] at hcs
  exact hcs.symm

/-! ### Occurrences that overlap -/

/-- No two occurrences of the pattern overlap. -/
def OccurrencesApart (pattern cs : List Char) : Prop :=
  ∀ i j, i < j → pattern <+: cs.drop i → pattern <+: cs.drop j → i + pattern.length ≤ j

theorem occurrences_le_append (w t : List Char) :
    occurrences pattern t ≤ occurrences pattern (w ++ t) := by
  induction w with
  | nil => exact Nat.le_refl _
  | cons c w ih => exact Nat.le_trans ih (Nat.le_add_left _ _)

/-- A text in front adds no occurrence if none begins in it. -/
theorem occurrences_append_eq_iff (w t : List Char) :
    occurrences pattern (w ++ t) = occurrences pattern t ↔
      ∀ x, x <:+ w → x ≠ [] → ¬pattern <+: x ++ t := by
  induction w with
  | nil =>
    refine ⟨fun _ x hx hne => absurd (List.suffix_nil.mp hx) hne, fun _ => rfl⟩
  | cons c w ih =>
    have hle := @occurrences_le_append pattern w t
    rw [List.cons_append, occurrences_cons]
    constructor
    · intro heq x hx hne
      have hnot : ¬pattern <+: c :: (w ++ t) := fun hpre => by
        rw [if_pos hpre] at heq
        omega
      rcases List.suffix_cons_iff.mp hx with rfl | hx
      · exact hnot
      · rw [if_neg hnot, Nat.zero_add] at heq
        exact ih.mp heq x hx hne
    · intro hall
      have hnot : ¬pattern <+: c :: (w ++ t) :=
        hall (c :: w) (List.suffix_refl _) (List.cons_ne_nil _ _)
      rw [if_neg hnot, Nat.zero_add, ih]
      exact fun x hx => hall x (hx.trans (List.suffix_cons c w))

/-- Two texts behind the same front, when it makes no difference to the occurrences that begin in
the front. -/
theorem occurrences_append_congr (w : List Char) {t t' : List Char}
    (h : ∀ x, x <:+ w → x ≠ [] → (pattern <+: x ++ t ↔ pattern <+: x ++ t')) :
    occurrences pattern (w ++ t) + occurrences pattern t' =
      occurrences pattern (w ++ t') + occurrences pattern t := by
  induction w with
  | nil => exact Nat.add_comm _ _
  | cons c w ih =>
    have hcons : pattern <+: c :: (w ++ t) ↔ pattern <+: c :: (w ++ t') :=
      h (c :: w) (List.suffix_refl _) (List.cons_ne_nil _ _)
    have hrest := ih fun x hx => h x (hx.trans (List.suffix_cons c w))
    simp only [List.cons_append, occurrences_cons, hcons]
    omega

instance decidableHasPeriod (w : List Char) (p : ℕ) : Decidable (w.HasPeriod p) :=
  inferInstanceAs (Decidable (w <+: w.take p ++ w))

/-- A word that begins again inside itself has a period. -/
theorem hasPeriod_of_overlap {w : List Char} {p : ℕ} (h : w.drop p <+: w) :
    w.HasPeriod p := by
  rw [← List.prefix_append_right_inj (w.take p), List.take_append_drop] at h
  exact h

/-- Of a pattern without a period, no two occurrences overlap. -/
theorem occurrencesApart_of_not_hasPeriod
    (h : ∀ p, p < pattern.length → 0 < p → ¬pattern.HasPeriod p) (cs : List Char) :
    OccurrencesApart pattern cs := by
  intro i j hij hi hj
  by_contra hlt
  obtain ⟨p, rfl⟩ := Nat.exists_eq_add_of_le (Nat.le_of_lt hij)
  have hdrop : pattern.drop p <+: cs.drop (i + p) := by
    rw [← List.drop_drop]
    exact List.IsPrefix.drop hi p
  have hle : (pattern.drop p).length ≤ pattern.length := by
    rw [List.length_drop]
    omega
  exact h p (by omega) (by omega)
    (hasPeriod_of_overlap (List.prefix_of_prefix_length_le hdrop hj hle))

theorem occurrencesApart_cons {c : Char} {cs : List Char} (h : ¬pattern <+: c :: cs) :
    OccurrencesApart pattern (c :: cs) ↔ OccurrencesApart pattern cs := by
  constructor
  · intro hapart i j hij hi hj
    have hle := hapart (i + 1) (j + 1) (Nat.succ_lt_succ hij) hi hj
    omega
  · intro hapart i j hij hi hj
    obtain ⟨j, rfl⟩ := Nat.exists_eq_succ_of_ne_zero (Nat.ne_zero_of_lt hij)
    rcases i with _ | i
    · exact absurd hi h
    · have hle := hapart i j (Nat.lt_of_succ_lt_succ hij) hi hj
      omega

/-- Behind an occurrence at the front: none begins inside it, and the rest has none that
overlap. -/
theorem occurrencesApart_self_append {c : Char} {rest : List Char} (cs : List Char) :
    OccurrencesApart (c :: rest) (c :: rest ++ cs) ↔
      (∀ x, x <:+ rest → x ≠ [] → ¬c :: rest <+: x ++ cs) ∧ OccurrencesApart (c :: rest) cs := by
  have hdrop : ∀ i, (c :: rest ++ cs).drop (i + (c :: rest).length) = cs.drop i := by
    intro i
    rw [Nat.add_comm, ← List.drop_drop, List.drop_left]
  constructor
  · intro hapart
    refine ⟨fun x hx hne hpre => ?_, fun i j hij hi hj => ?_⟩
    · obtain ⟨y, rfl⟩ := hx
      have hpos : 0 < x.length := List.length_pos_of_ne_nil hne
      have hfront : (c :: (y ++ x) ++ cs).drop (y.length + 1) = x ++ cs := by
        rw [List.cons_append, List.drop_succ_cons, List.append_assoc, List.drop_left]
      have hle := hapart 0 (y.length + 1) (Nat.succ_pos _) (List.prefix_append _ _)
        (by rw [hfront]; exact hpre)
      rw [List.length_cons, List.length_append] at hle
      omega
    · have hle := hapart (i + (c :: rest).length) (j + (c :: rest).length)
        (Nat.add_lt_add_right hij _) (by rw [hdrop]; exact hi) (by rw [hdrop]; exact hj)
      omega
  · rintro ⟨hinside, hapart⟩
    -- an occurrence that does not begin behind the first one is the first one
    have hzero : ∀ i, i < (c :: rest).length → c :: rest <+: (c :: rest ++ cs).drop i → i = 0 := by
      intro i hlt hi
      rcases i with _ | i
      · rfl
      · have hlt' : i < rest.length := Nat.lt_of_succ_lt_succ hlt
        have hne : rest.drop i ≠ [] := fun hnil => by
          have := List.drop_eq_nil_iff.mp hnil
          omega
        rw [List.cons_append, List.drop_succ_cons,
          List.drop_append_of_le_length (Nat.le_of_lt hlt')] at hi
        exact absurd hi (hinside _ (List.drop_suffix i rest) hne)
    intro i j hij hi hj
    by_cases hjlt : j < (c :: rest).length
    · exact absurd (hzero j hjlt hj) (Nat.ne_zero_of_lt hij)
    · by_cases hilt : i < (c :: rest).length
      · rw [hzero i hilt hi, Nat.zero_add]
        exact Nat.le_of_not_lt hjlt
      · obtain ⟨i, rfl⟩ := Nat.exists_eq_add_of_le' (Nat.le_of_not_lt hilt)
        obtain ⟨j, rfl⟩ := Nat.exists_eq_add_of_le' (Nat.le_of_not_lt hjlt)
        rw [hdrop] at hi hj
        have hle := hapart i j (Nat.lt_of_add_lt_add_right hij) hi hj
        omega

theorem count_le_occurrences (hne : pattern ≠ []) (cs : List Char) :
    count pattern cs ≤ occurrences pattern cs := by
  induction cs using replace_induction hne with
  | nil => exact Nat.le_refl _
  | skip c cs h ih =>
    rw [count_cons h]
    exact Nat.le_trans ih (Nat.le_add_left _ _)
  | found cs ih =>
    obtain ⟨c, rest, hpattern⟩ := List.exists_cons_of_ne_nil hne
    have hle := @occurrences_le_append pattern rest cs
    have hocc : occurrences pattern (pattern ++ cs) = 1 + occurrences pattern (rest ++ cs) := by
      have hshape : pattern ++ cs = c :: (rest ++ cs) := by rw [hpattern, List.cons_append]
      rw [hshape, occurrences_cons, if_pos (hshape ▸ List.prefix_append pattern cs)]
    rw [count_self_append hne, hocc]
    omega

/-- **The replacement goes through every occurrence** if and only if no two of them overlap. -/
theorem count_eq_occurrences_iff (hne : pattern ≠ []) (cs : List Char) :
    count pattern cs = occurrences pattern cs ↔ OccurrencesApart pattern cs := by
  induction cs using replace_induction hne with
  | nil =>
    refine ⟨fun _ i j _ hi _ => ?_, fun _ => rfl⟩
    rw [List.drop_nil] at hi
    exact absurd (List.prefix_nil.mp hi) hne
  | skip c cs h ih => rw [count_cons h, occurrences_cons, if_neg h, Nat.zero_add,
      occurrencesApart_cons h, ih]
  | found cs ih =>
    obtain ⟨c, rest, rfl⟩ := List.exists_cons_of_ne_nil hne
    have hcount := count_le_occurrences hne cs
    have hle := @occurrences_le_append (c :: rest) rest cs
    rw [count_self_append hne, List.cons_append, occurrences_cons, ← List.cons_append,
      if_pos (List.prefix_append _ _), occurrencesApart_self_append, ← ih,
      ← occurrences_append_eq_iff]
    omega

/-! ### A replacement that breaks the pattern -/

/-- The character between the halves of the pattern is not in it, and it breaks the pattern
early: two occurrences of the pattern, which overlap when it has a period, overlap by no more
than the first half. -/
structure Breaks (u v : List Char) (z : Char) : Prop where
  ne_nil : u ≠ []
  length_le : u.length ≤ v.length
  fresh : z ∉ u ++ v
  shift : ∀ p, p < v.length → 0 < p → ¬(u ++ v).HasPeriod p

namespace Breaks

variable {u v : List Char} {z : Char}

theorem pattern_ne_nil (h : Breaks u v z) : u ++ v ≠ [] :=
  List.append_ne_nil_of_left_ne_nil h.ne_nil v

/-- Two occurrences are not close to each other. -/
theorem not_drop_prefix (h : Breaks u v z) {p : ℕ} (hp : p < v.length) (hpos : 0 < p) :
    ¬(u ++ v).drop p <+: u ++ v :=
  fun hpre => h.shift p hp hpos (hasPeriod_of_overlap hpre)

/-- What stands at the front after replacing, without the new character, stood there before. -/
theorem prefix_of_prefix_replace (h : Breaks u v z) {w cs : List Char} (hz : z ∉ w)
    (hw : w <+: replace (u ++ v) (u ++ z :: v) cs) : w <+: cs := by
  induction cs using replace_induction h.pattern_ne_nil generalizing w with
  | nil => exact hw
  | skip c cs hnot ih =>
    rw [replace_cons hnot] at hw
    rcases w with _ | ⟨d, w⟩
    · exact List.nil_prefix
    · obtain ⟨rfl, hrest⟩ := List.cons_prefix_cons.mp hw
      exact List.cons_prefix_cons.mpr
        ⟨rfl, ih (fun hmem => hz (List.mem_cons_of_mem d hmem)) hrest⟩
  | found cs =>
    rw [replace_self_append h.pattern_ne_nil, List.append_assoc, List.cons_append,
      prefix_append_cons_iff hz] at hw
    exact (hw.trans (List.prefix_append u v)).trans (List.prefix_append _ cs)

/-- What stands at the front stays there when the pattern does not stand close to it. -/
theorem prefix_replace (h : Breaks u v z) {w cs : List Char} (hw : w <+: cs)
    (hfar : ∀ i, i + u.length < w.length → ¬u ++ v <+: cs.drop i) :
    w <+: replace (u ++ v) (u ++ z :: v) cs := by
  induction cs using replace_induction h.pattern_ne_nil generalizing w with
  | nil => exact hw
  | skip c cs hnot ih =>
    rw [replace_cons hnot]
    rcases w with _ | ⟨d, w⟩
    · exact List.nil_prefix
    · obtain ⟨rfl, hrest⟩ := List.cons_prefix_cons.mp hw
      refine List.cons_prefix_cons.mpr ⟨rfl, ih hrest fun i hi => hfar (i + 1) ?_⟩
      rw [List.length_cons]
      omega
  | found cs =>
    have hle : w.length ≤ u.length := Nat.le_of_not_lt fun hlt =>
      hfar 0 (by omega) (List.prefix_append _ cs)
    rw [List.append_assoc] at hw
    have hu : w <+: u := List.prefix_of_prefix_length_le hw (List.prefix_append u _) hle
    rw [replace_self_append h.pattern_ne_nil, List.append_assoc]
    exact hu.trans (List.prefix_append u _)

/-- An occurrence that begins in a replaced one is left as it is. -/
theorem prefix_append_replace_iff (h : Breaks u v z) {x cs : List Char} (hx : x <:+ v)
    (hne : x ≠ []) :
    u ++ v <+: x ++ replace (u ++ v) (u ++ z :: v) cs ↔ u ++ v <+: x ++ cs := by
  have hlength : x.length ≤ (u ++ v).length := by
    rw [List.length_append]
    exact Nat.le_trans hx.length_le (Nat.le_add_left _ _)
  have hpos : 0 < x.length := List.length_pos_of_ne_nil hne
  constructor
  · intro hpre
    have hfront : x <+: u ++ v :=
      List.prefix_of_prefix_length_le (List.prefix_append x _) hpre hlength
    obtain ⟨w, hw⟩ := hfront
    have hfresh : z ∉ w := fun hmem => h.fresh (hw ▸ List.mem_append_right x hmem)
    generalize hafter : replace (u ++ v) (u ++ z :: v) cs = after at hpre
    rw [← hw, List.prefix_append_right_inj] at hpre ⊢
    exact h.prefix_of_prefix_replace hfresh (hafter ▸ hpre)
  · intro hpre
    have hfront : x <+: u ++ v :=
      List.prefix_of_prefix_length_le (List.prefix_append x _) hpre hlength
    obtain ⟨w, hw⟩ := hfront
    have hwcs : w <+: cs := by
      rw [← hw] at hpre
      exact (List.prefix_append_right_inj x).mp hpre
    have hkept : w <+: replace (u ++ v) (u ++ z :: v) cs := by
      refine h.prefix_replace hwcs fun i hi hocc => ?_
      -- the two occurrences would be fewer than `v.length` apart
      have hdrop : (u ++ v).drop (x.length + i) = w.drop i := by
        rw [← hw, ← List.drop_drop, List.drop_left]
      have hsum : x.length + w.length = u.length + v.length := by
        rw [← List.length_append, hw, List.length_append]
      refine h.not_drop_prefix (p := x.length + i) (by omega) (by omega) ?_
      rw [hdrop]
      refine List.prefix_of_prefix_length_le (List.IsPrefix.drop hwcs i) hocc ?_
      rw [List.length_drop, List.length_append]
      omega
    have hboth : x ++ w <+: x ++ replace (u ++ v) (u ++ z :: v) cs :=
      (List.prefix_append_right_inj x).mpr hkept
    rwa [hw] at hboth

/-- Of the places in one occurrence, only the first is one of an occurrence or the places in its
second half are. -/
theorem occurrences_self_append (h : Breaks u v z) (cs : List Char) :
    occurrences (u ++ v) (u ++ v ++ cs) = 1 + occurrences (u ++ v) (v ++ cs) := by
  obtain ⟨c, rest, hu⟩ := List.exists_cons_of_ne_nil h.ne_nil
  have hshape : u ++ v ++ cs = c :: (rest ++ (v ++ cs)) := by
    rw [hu, List.append_assoc, List.cons_append]
  have hrest : occurrences (u ++ v) (rest ++ (v ++ cs)) = occurrences (u ++ v) (v ++ cs) := by
    refine (occurrences_append_eq_iff rest (v ++ cs)).mpr fun x hx hne hpre => ?_
    obtain ⟨y, rfl⟩ := hx
    have hdrop : (u ++ v).drop (y.length + 1) = x ++ v := by
      rw [hu, List.cons_append, List.drop_succ_cons, List.append_assoc, List.drop_left]
    have hlen : u.length = y.length + x.length + 1 := by
      rw [hu, List.length_cons, List.length_append]
    have hpos : 0 < x.length := List.length_pos_of_ne_nil hne
    have hle := h.length_le
    refine h.not_drop_prefix (p := y.length + 1) (by omega) (Nat.succ_pos _) ?_
    rw [hdrop]
    rw [← List.append_assoc] at hpre
    refine List.prefix_of_prefix_length_le (List.prefix_append (x ++ v) cs) hpre ?_
    rw [List.length_append, List.length_append]
    omega
  rw [hshape, occurrences_cons, if_pos (hshape ▸ List.prefix_append (u ++ v) cs), hrest]

/-- **What is left after replacing**: the occurrences that were not replaced. -/
theorem occurrences_replace (h : Breaks u v z) (cs : List Char) :
    occurrences (u ++ v) cs =
      count (u ++ v) cs + occurrences (u ++ v) (replace (u ++ v) (u ++ z :: v) cs) := by
  induction cs using replace_induction h.pattern_ne_nil with
  | nil => rfl
  | skip c cs hnot ih =>
    have hnot' : ¬u ++ v <+: c :: replace (u ++ v) (u ++ z :: v) cs := fun hpre =>
      hnot (h.prefix_of_prefix_replace h.fresh (by rw [replace_cons hnot]; exact hpre))
    rw [occurrences_cons, if_neg hnot, count_cons hnot, replace_cons hnot, occurrences_cons,
      if_neg hnot', Nat.zero_add, Nat.zero_add, ih]
  | found cs ih =>
    have hbroken : occurrences (u ++ v) (replace (u ++ v) (u ++ z :: v) (u ++ v ++ cs)) =
        occurrences (u ++ v) (v ++ replace (u ++ v) (u ++ z :: v) cs) := by
      have hshort : u.length < (u ++ v).length := by
        have hpos : 0 < u.length := List.length_pos_of_ne_nil h.ne_nil
        have hle := h.length_le
        rw [List.length_append]
        omega
      rw [replace_self_append h.pattern_ne_nil, List.append_assoc, List.cons_append,
        occurrences_append_cons h.pattern_ne_nil h.fresh, occurrences_of_length_lt hshort,
        Nat.zero_add]
    have hcongr := occurrences_append_congr v fun x hx hne =>
      @Breaks.prefix_append_replace_iff _ _ _ h x cs hx hne
    rw [h.occurrences_self_append, count_self_append h.pattern_ne_nil, hbroken]
    omega

/-- **Nothing is left** if and only if no two occurrences of the pattern overlap. -/
theorem occurrences_replace_eq_zero_iff (h : Breaks u v z) (cs : List Char) :
    occurrences (u ++ v) (replace (u ++ v) (u ++ z :: v) cs) = 0 ↔
      OccurrencesApart (u ++ v) cs := by
  rw [← count_eq_occurrences_iff h.pattern_ne_nil, h.occurrences_replace cs]
  omega

end Breaks

end T3Claw.Text
