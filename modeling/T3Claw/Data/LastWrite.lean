import Mathlib.Data.List.Basic

/-!
# The last write

A list of writes, oldest first, seen through an index: under each value of `f` only the last
write stands (`lastWith`). Two indexes of one list agree when what stands under one also
stands under the other. That is decided by a look at the list alone, since a write is
superseded in both or in neither (`matched_iff`).
-/

namespace LastWrite

variable {α κ ρ : Type*} [DecidableEq κ] [DecidableEq ρ] {f : α → κ} {h : α → ρ} {a : α}
  {l : List α}

/-- The last member with the value `k`. -/
def lastWith (f : α → κ) (k : κ) : List α → Option α
  | [] => none
  | a :: l => (lastWith f k l).or (if f a = k then some a else none)

/-- Each member is superseded under `f` exactly when it is superseded under `h`. -/
def Matched (f : α → κ) (h : α → ρ) : List α → Prop
  | [] => True
  | a :: l => ((∃ b ∈ l, f b = f a) ↔ ∃ b ∈ l, h b = h a) ∧ Matched f h l

theorem lastWith_append (k : κ) (l l' : List α) :
    lastWith f k (l ++ l') = (lastWith f k l').or (lastWith f k l) := by
  induction l with
  | nil => simp [lastWith]
  | cons a l ih => rw [List.cons_append, lastWith, ih, lastWith, Option.or_assoc]

theorem lastWith_concat (k : κ) (l : List α) (a : α) :
    lastWith f k (l ++ [a]) = if f a = k then some a else lastWith f k l := by
  rw [lastWith_append]
  by_cases hk : f a = k <;> simp [lastWith, hk]

theorem mem_of_lastWith {k : κ} (hl : lastWith f k l = some a) : a ∈ l ∧ f a = k := by
  induction l with
  | nil => cases hl
  | cons b l ih =>
    obtain hl | ⟨-, hb⟩ := Option.or_eq_some_iff.mp hl
    · exact ⟨List.mem_cons_of_mem _ (ih hl).1, (ih hl).2⟩
    · obtain ⟨hk, hba⟩ := Option.ite_none_right_eq_some.mp hb
      obtain rfl := Option.some.inj hba
      exact ⟨List.mem_cons_self, hk⟩

theorem lastWith_eq_none_iff {k : κ} : lastWith f k l = none ↔ ∀ b ∈ l, f b ≠ k := by
  induction l with
  | nil => simp [lastWith]
  | cons b l ih => simp [lastWith, ih, and_comm]

/-- Where no two members share a value, every member stands. -/
theorem lastWith_of_inj (hinj : ∀ b ∈ l, f b = f a → b = a) (ha : a ∈ l) :
    lastWith f (f a) l = some a := by
  cases hl : lastWith f (f a) l with
  | none => exact absurd rfl (lastWith_eq_none_iff.mp hl a ha)
  | some b =>
    obtain ⟨hb, hf⟩ := mem_of_lastWith hl
    rw [hinj b hb hf]

/-- What stands under `f` stands under `h`, and the other way round. -/
def Agree (f : α → κ) (h : α → ρ) (l : List α) : Prop :=
  ∀ k r, (∃ a, lastWith f k l = some a ∧ h a = r) ↔ ∃ a, lastWith h r l = some a ∧ f a = k

theorem exists_lastWith {k : κ} (hb : ∃ b ∈ l, f b = k) : ∃ a, lastWith f k l = some a := by
  rw [← Option.isSome_iff_exists, Option.isSome_iff_ne_none, ne_eq, lastWith_eq_none_iff]
  push Not
  exact hb

/-- The first write of a list stands exactly where nothing later does. -/
private theorem lastWith_cons_eq_some {k : κ} {b : α} : lastWith f k (a :: l) = some b ↔
    lastWith f k l = some b ∨ (∀ c ∈ l, f c ≠ k) ∧ f a = k ∧ a = b := by
  rw [lastWith, Option.or_eq_some_iff, lastWith_eq_none_iff, Option.ite_none_right_eq_some,
    Option.some.injEq]

/-- A write under `f` and `h` in front: one half of the agreement. -/
private theorem stands_cons (hfh : (∃ b ∈ l, f b = f a) ↔ ∃ b ∈ l, h b = h a)
    (hl : Agree f h l) {k : κ} {r : ρ} (hs : ∃ b, lastWith f k (a :: l) = some b ∧ h b = r) :
    ∃ b, lastWith h r (a :: l) = some b ∧ f b = k := by
  obtain ⟨b, hb, rfl⟩ := hs
  obtain hb | ⟨hnone, hk, rfl⟩ := lastWith_cons_eq_some.mp hb
  · obtain ⟨c, hc, hck⟩ := (hl k (h b)).mp ⟨b, hb, rfl⟩
    exact ⟨c, lastWith_cons_eq_some.mpr (.inl hc), hck⟩
  · refine ⟨a, lastWith_cons_eq_some.mpr (.inr ⟨fun c hc hca => ?_, rfl, rfl⟩), hk⟩
    obtain ⟨d, hd, hda⟩ := hfh.mpr ⟨c, hc, hca⟩
    exact hnone d hd (hda.trans hk)

/-- The same half, without the write in front. -/
private theorem stands_tail (hal : Agree f h (a :: l)) {k : κ} {r : ρ}
    (hs : ∃ b, lastWith f k l = some b ∧ h b = r) : ∃ b, lastWith h r l = some b ∧ f b = k := by
  obtain ⟨b, hb, rfl⟩ := hs
  obtain ⟨c, hc, hck⟩ := (hal k (h b)).mp ⟨b, lastWith_cons_eq_some.mpr (.inl hb), rfl⟩
  obtain hc | ⟨hnone, -, rfl⟩ := lastWith_cons_eq_some.mp hc
  · exact ⟨c, hc, hck⟩
  · exact absurd rfl (hnone b (mem_of_lastWith hb).1)

/-- Half of what an agreement says about its first write. -/
private theorem superseded (hal : Agree f h (a :: l)) (hf : ∃ b ∈ l, f b = f a) :
    ∃ b ∈ l, h b = h a := by
  by_contra hnone
  push Not at hnone
  obtain ⟨c, hc, hca⟩ := (hal (f a) (h a)).mpr
    ⟨a, lastWith_cons_eq_some.mpr (.inr ⟨hnone, rfl, rfl⟩), rfl⟩
  obtain ⟨d, hd⟩ := exists_lastWith hf
  obtain hc | ⟨hfirst, -, -⟩ := lastWith_cons_eq_some.mp hc
  · exact hnone c (mem_of_lastWith hc).1 hca
  · exact hfirst d (mem_of_lastWith hd).1 (mem_of_lastWith hd).2

theorem Agree.symm (hl : Agree f h l) : Agree h f l := fun k r => (hl r k).symm

/-- **Two indexes agree exactly when every write is superseded in both or in neither.** -/
theorem matched_iff : Matched f h l ↔ Agree f h l := by
  induction l with
  | nil => simp [Matched, Agree, lastWith]
  | cons a l ih =>
    rw [Matched, ih]
    constructor
    · rintro ⟨hfh, hl⟩ k r
      exact ⟨stands_cons hfh hl, stands_cons hfh.symm hl.symm⟩
    · intro hal
      refine ⟨⟨superseded hal, superseded hal.symm⟩, fun k r => ?_⟩
      exact ⟨stands_tail hal, stands_tail hal.symm⟩

end LastWrite
