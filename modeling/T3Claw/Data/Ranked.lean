import Mathlib.Data.List.Nodup
import Mathlib.Data.List.Sort

/-!
# The highest scores of a list

A list is ranked by sorting it, stably, by falling scores. How many entries score higher than an
entry is where it stands, as long as no other entry scores the same. So the first entries of a
ranking are the same in whatever order the list comes, if no two of them tie (`take_ranked_eq`);
and of entries that tie, the one that comes first in the list stands first (`ranked_cons`).
-/

namespace T3Claw

variable {α K : Type} [LinearOrder K] (score : α → K)

/-- A list sorted by falling scores. -/
def ranked (l : List α) : List α := l.insertionSort fun a b => score b ≤ score a

/-- How many entries score higher. -/
def higher (l : List α) (a : α) : ℕ := l.countP fun b => score a < score b

/-- Entries with the same score have `n` entries before them. -/
def NoTies (n : ℕ) (l : List α) : Prop :=
  ∀ a ∈ l, ∀ b ∈ l, a ≠ b → score a = score b → n ≤ higher score l a

theorem ranked_perm (l : List α) : (ranked score l).Perm l := List.perm_insertionSort _ l

theorem pairwise_ranked (l : List α) :
    (ranked score l).Pairwise fun a b => score b ≤ score a := by
  have : Std.Total fun a b : α => score b ≤ score a := ⟨fun a b => le_total (score b) (score a)⟩
  have : IsTrans α fun a b : α => score b ≤ score a := ⟨fun _ _ _ hab hbc => hbc.trans hab⟩
  exact List.pairwise_insertionSort _ l

theorem higher_perm {l l' : List α} (h : l.Perm l') (a : α) :
    higher score l a = higher score l' a := h.countP_eq _

variable {score}

theorem mem_ranked {l : List α} {a : α} : a ∈ ranked score l ↔ a ∈ l :=
  (ranked_perm score l).mem_iff

theorem NoTies.map {β : Type} {f : β → α} {n : ℕ} {l : List β}
    (h : NoTies (fun b => score (f b)) n l) : NoTies score n (l.map f) := by
  intro _ ha _ hb hne heq
  obtain ⟨a, hmem, rfl⟩ := List.mem_map.mp ha
  obtain ⟨b, hmem', rfl⟩ := List.mem_map.mp hb
  rw [higher, List.countP_map]
  exact h a hmem b hmem' (fun hab => hne (congrArg f hab)) heq

theorem ranked_map {β : Type} (f : β → α) (l : List β) :
    ranked score (l.map f) = (ranked (fun b => score (f b)) l).map f :=
  (List.map_insertionSort _ _ f l fun _ _ _ _ => Iff.rfl).symm

/-- The entries of a sorted list that score higher than one of them are before it. -/
theorem higher_of_sorted {l front back : List α} {a : α}
    (hsorted : l.Pairwise fun a b => score b ≤ score a) (h : l = front ++ a :: back) :
    higher score l a = higher score front a := by
  rw [h, List.pairwise_append, List.pairwise_cons] at hsorted
  have hback : higher score (a :: back) a = 0 := by
    rw [higher, List.countP_eq_zero]
    intro b hb
    obtain rfl | hb := List.mem_cons.mp hb
    · simp
    · simpa using hsorted.2.1.1 b hb
  rw [h, higher, List.countP_append]
  exact (congrArg (higher score front a + ·) hback).trans (Nat.add_zero _)

/-- An entry of a ranking has no more entries above it than stand before it. -/
theorem higher_le {l front back : List α} {a : α} (h : ranked score l = front ++ a :: back) :
    higher score l a ≤ front.length := by
  rw [← higher_perm score (ranked_perm score l), higher_of_sorted (pairwise_ranked score l) h]
  exact List.countP_le_length

/-- Where an entry stands that no other ties with. -/
theorem length_front {l front back : List α} {a : α} (hnodup : l.Nodup)
    (h : ranked score l = front ++ a :: back)
    (halone : ∀ b ∈ l, b ≠ a → score b ≠ score a) : front.length = higher score l a := by
  rw [← higher_perm score (ranked_perm score l),
    higher_of_sorted (pairwise_ranked score l) h, higher,
    eq_comm, List.countP_eq_length]
  intro b hb
  have hmem : b ∈ ranked score l := h ▸ List.mem_append_left _ hb
  have hsorted := pairwise_ranked score l
  have hrank := (ranked_perm score l).nodup_iff.mpr hnodup
  rw [h] at hsorted hrank
  -- what stands before it scores no lower, and is another entry
  have hle := (List.pairwise_append.mp hsorted).2.2 b hb a List.mem_cons_self
  have hne : b ≠ a := (List.nodup_append.mp hrank).2.2 b hb a List.mem_cons_self
  exact decide_eq_true (lt_of_le_of_ne hle (halone b (mem_ranked.mp hmem) hne).symm)

/-- **The first entries of a ranking**, if no two of them tie. -/
theorem take_ranked_eq {n : ℕ} {l l' : List α} (hnodup : l.Nodup) (h : l.Perm l')
    (hties : NoTies score n l) : (ranked score l).take n = (ranked score l').take n := by
  refine List.ext_getElem? fun i => ?_
  obtain hi | hi := Nat.lt_or_ge i n
  · rw [List.getElem?_take_of_lt hi, List.getElem?_take_of_lt hi]
    have hlength : (ranked score l).length = (ranked score l').length :=
      (((ranked_perm score l).trans h).trans (ranked_perm score l').symm).length_eq
    obtain hlt | hge := Nat.lt_or_ge i (ranked score l).length
    · -- the entry at the place, in the other ranking
      have hsplit : ranked score l = (ranked score l).take i ++
          (ranked score l)[i] :: (ranked score l).drop (i + 1) := by
        rw [List.getElem_cons_drop, List.take_append_drop]
      have hmem : (ranked score l)[i] ∈ l := mem_ranked.mp (List.getElem_mem hlt)
      have hhigher := higher_le hsplit
      rw [List.length_take] at hhigher
      have halone : ∀ b ∈ l, b ≠ (ranked score l)[i] →
          score b ≠ score (ranked score l)[i] := by
        intro b hb hne heq
        have := hties _ hmem b hb hne.symm heq.symm
        omega
      obtain ⟨front, back, hsplit'⟩ :=
        List.append_of_mem (mem_ranked.mpr (h.mem_iff.mp hmem) : _ ∈ ranked score l')
      have hfront := length_front hnodup hsplit halone
      have hfront' := length_front (h.nodup_iff.mp hnodup) hsplit'
        fun b hb => halone b (h.mem_iff.mpr hb)
      rw [← higher_perm score h, ← hfront, List.length_take, Nat.min_eq_left hlt.le] at hfront'
      rw [List.getElem?_eq_getElem hlt, hsplit', List.getElem?_append_right (by omega), hfront',
        Nat.sub_self, List.getElem?_cons_zero]
    · rw [List.getElem?_eq_none hge, List.getElem?_eq_none (hlength ▸ hge)]
  · rw [List.getElem?_take_eq_none hi, List.getElem?_take_eq_none hi]

theorem length_takeWhile_of_sorted {l : List α}
    (hsorted : l.Pairwise fun a b => score b ≤ score a) (a : α) :
    (l.takeWhile fun b => ¬score b ≤ score a).length = higher score l a := by
  induction l with
  | nil => rfl
  | cons b l ih =>
    obtain ⟨hb, hsorted⟩ := List.pairwise_cons.mp hsorted
    by_cases hle : score b ≤ score a
    · -- what is behind it does not score higher either
      rw [List.takeWhile_cons_of_neg (by simpa using hle), List.length_nil, higher, eq_comm,
        List.countP_eq_zero]
      intro c hc
      obtain rfl | hc := List.mem_cons.mp hc
      · simpa using hle
      · simpa using (hb c hc).trans hle
    · rw [List.takeWhile_cons_of_pos (by simpa using hle), List.length_cons, ih hsorted, higher,
        higher, List.countP_cons_of_pos (by simpa using hle)]

/-- The first entry of a list stands first among those that tie with it. -/
theorem ranked_cons (a : α) (l : List α) :
    (ranked score (a :: l))[higher score (a :: l) a]? = some a := by
  have hsplit := List.orderedInsert_eq_take_drop (fun a b : α => score b ≤ score a) a
    (ranked score l)
  have hfront := length_takeWhile_of_sorted (pairwise_ranked score l) a
  have hself : higher score (a :: l) a = higher score l a := by
    rw [higher, List.countP_cons_of_neg (by simp), higher]
  rw [hself, ← higher_perm score (ranked_perm score l), ranked, List.insertionSort_cons, ← ranked,
    hsplit, ← hfront, List.getElem?_append_right le_rfl, Nat.sub_self, List.getElem?_cons_zero]

/-- Nothing behind the first entries of a ranking scores higher than they do. -/
theorem le_of_not_mem_take {n : ℕ} {l : List α} {a b : α} (ha : a ∈ (ranked score l).take n)
    (hb : b ∈ l) (hnot : b ∉ (ranked score l).take n) : score b ≤ score a := by
  have hsorted := pairwise_ranked score l
  rw [← List.take_append_drop n (ranked score l), List.pairwise_append] at hsorted
  have hmem : b ∈ (ranked score l).take n ++ (ranked score l).drop n := by
    rw [List.take_append_drop]
    exact mem_ranked.mpr hb
  exact hsorted.2.2 a ha b ((List.mem_append.mp hmem).resolve_left hnot)

end T3Claw
