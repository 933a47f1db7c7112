import Mathlib.Data.List.Nodup

/-!
# Keyed stores

A finite collection of records, each carrying its own key, no two of them the same key:
what a hash map from `key v` to `v` holds, in the order it is iterated. Uniqueness of keys
is a field, so a store that lists a key twice cannot be built, and looking a key up is the
same as finding the one member that has it (`get?_eq_some_iff`).

Writing is `insert` (replace the record with that key where it stands, or append) and
`modify`; both are described by what `get?` reads afterwards, at the written key and at
every other one.
-/

/-- A list of records with pairwise different keys. -/
structure KeyedStore (κ α : Type*) (key : α → κ) where
  values : List α
  nodup : (values.map key).Nodup

namespace KeyedStore

variable {κ α : Type*} {key : α → κ}

instance : Membership α (KeyedStore κ α key) := ⟨fun s a => a ∈ s.values⟩

theorem mem_def {s : KeyedStore κ α key} {a : α} : a ∈ s ↔ a ∈ s.values := Iff.rfl

/-- The store with no record. -/
def empty : KeyedStore κ α key := ⟨[], List.nodup_nil⟩

/-- Two members with one key are one member. -/
theorem eq_of_mem {s : KeyedStore κ α key} {a b : α} (ha : a ∈ s) (hb : b ∈ s)
    (h : key a = key b) : a = b :=
  List.inj_on_of_nodup_map s.nodup ha hb h

/-- The records a predicate keeps. -/
def retain (s : KeyedStore κ α key) (p : α → Bool) : KeyedStore κ α key where
  values := s.values.filter p
  nodup := s.nodup.sublist (List.filter_sublist.map key)

@[simp] theorem mem_retain {s : KeyedStore κ α key} {p : α → Bool} {a : α} :
    a ∈ s.retain p ↔ a ∈ s ∧ p a = true := by
  simp [mem_def, retain]

/-- Fewer records are kept. -/
theorem countP_retain_le (s : KeyedStore κ α key) (q p : α → Bool) :
    (s.retain q).values.countP p ≤ s.values.countP p :=
  List.Sublist.countP_le List.filter_sublist

variable [DecidableEq κ]

/-- The record with a key. -/
def get? (s : KeyedStore κ α key) (k : κ) : Option α := s.values.find? fun a => key a = k

theorem key_of_get? {s : KeyedStore κ α key} {k : κ} {a : α} (h : s.get? k = some a) :
    key a = k := by
  simpa using List.find?_some h

theorem mem_of_get? {s : KeyedStore κ α key} {k : κ} {a : α} (h : s.get? k = some a) :
    a ∈ s :=
  List.mem_of_find?_eq_some h

/-- Looking a key up finds the one member that has it. -/
theorem get?_eq_some_iff {s : KeyedStore κ α key} {k : κ} {a : α} :
    s.get? k = some a ↔ a ∈ s ∧ key a = k := by
  refine ⟨fun h => ⟨mem_of_get? h, key_of_get? h⟩, fun ⟨ha, hk⟩ => ?_⟩
  cases hg : s.get? k with
  | none =>
    have := List.find?_eq_none.mp hg a ha
    simp [hk] at this
  | some b => rw [eq_of_mem (mem_of_get? hg) ha ((key_of_get? hg).trans hk.symm)]

theorem get?_eq_none_iff {s : KeyedStore κ α key} {k : κ} :
    s.get? k = none ↔ ∀ a ∈ s, key a ≠ k := by
  simp [get?, mem_def]

theorem get?_key {s : KeyedStore κ α key} {a : α} (h : a ∈ s) : s.get? (key a) = some a :=
  get?_eq_some_iff.mpr ⟨h, rfl⟩

@[simp] theorem get?_empty (k : κ) : (empty : KeyedStore κ α key).get? k = none := rfl

/-- What is kept of the record with a key. -/
theorem get?_retain (s : KeyedStore κ α key) (p : α → Bool) (k : κ) :
    (s.retain p).get? k = (s.get? k).filter p := by
  refine Option.ext fun a => ?_
  rw [get?_eq_some_iff, Option.filter_eq_some_iff, mem_retain, get?_eq_some_iff]
  exact and_right_comm

/-! ### Writing one record -/

/-- Apply `f` to the record with key `k`; `f` keeps keys. -/
def modify (s : KeyedStore κ α key) (k : κ) (f : α → α) (hf : ∀ a, key (f a) = key a) :
    KeyedStore κ α key where
  values := s.values.map fun a => if key a = k then f a else a
  nodup := by
    rw [List.map_map]
    have : key ∘ (fun a => if key a = k then f a else a) = key := by
      funext a
      by_cases h : key a = k <;> simp [h, hf]
    rw [this]
    exact s.nodup

theorem mem_modify {s : KeyedStore κ α key} {k : κ} {f : α → α}
    (hf : ∀ a, key (f a) = key a) {b : α} :
    b ∈ s.modify k f hf ↔ ∃ a ∈ s, (if key a = k then f a else a) = b := by
  simp [mem_def, modify]

/-- Modifying reads as mapping at its own key. -/
theorem get?_modify_self {s : KeyedStore κ α key} {k : κ} {f : α → α}
    (hf : ∀ a, key (f a) = key a) : (s.modify k f hf).get? k = (s.get? k).map f := by
  cases hg : s.get? k with
  | none =>
    refine get?_eq_none_iff.mpr fun b hb => ?_
    obtain ⟨a, ha, rfl⟩ := (mem_modify hf).mp hb
    have hne := get?_eq_none_iff.mp hg a ha
    simp [hne]
  | some a =>
    obtain ⟨ha, hk⟩ := get?_eq_some_iff.mp hg
    exact get?_eq_some_iff.mpr ⟨(mem_modify hf).mpr ⟨a, ha, by simp [hk]⟩, by simp [hf, hk]⟩

/-- Modifying one key leaves every other key alone. -/
theorem get?_modify_of_ne {s : KeyedStore κ α key} {k l : κ} {f : α → α}
    (hf : ∀ a, key (f a) = key a) (h : l ≠ k) : (s.modify k f hf).get? l = s.get? l := by
  cases hg : s.get? l with
  | none =>
    refine get?_eq_none_iff.mpr fun b hb => ?_
    obtain ⟨a, ha, rfl⟩ := (mem_modify hf).mp hb
    have hne := get?_eq_none_iff.mp hg a ha
    by_cases hk : key a = k <;> simp [hk, hf, hne, h.symm]
  | some a =>
    obtain ⟨ha, hk⟩ := get?_eq_some_iff.mp hg
    refine get?_eq_some_iff.mpr ⟨(mem_modify hf).mpr ⟨a, ha, ?_⟩, hk⟩
    simp [hk, h]

/-- Put a record in: it replaces the one with its key, or goes to the end. -/
def insert (s : KeyedStore κ α key) (v : α) : KeyedStore κ α key :=
  if h : s.get? (key v) = none then
    ⟨s.values ++ [v], by
      rw [List.map_append, List.nodup_append]
      refine ⟨s.nodup, by simp, fun a ha b hb => ?_⟩
      obtain ⟨w, hw, rfl⟩ := List.mem_map.mp ha
      obtain rfl : b = key v := by simpa using hb
      exact get?_eq_none_iff.mp h w hw⟩
  else
    ⟨s.values.map fun a => if key a = key v then v else a, by
      rw [List.map_map]
      have : key ∘ (fun a => if key a = key v then v else a) = key := by
        funext a
        by_cases hk : key a = key v <;> simp [hk]
      rw [this]
      exact s.nodup⟩

/-- After inserting, the key holds the record and every other key what it held. -/
theorem get?_insert (s : KeyedStore κ α key) (v : α) (k : κ) :
    (s.insert v).get? k = if k = key v then some v else s.get? k := by
  unfold insert
  split
  case isTrue h =>
    by_cases hk : k = key v
    · subst hk
      simpa using get?_eq_some_iff.mpr ⟨by simp [mem_def], rfl⟩
    · simp [get?, List.find?_append, hk, Ne.symm hk]
  case isFalse h =>
    obtain ⟨w, hw⟩ := Option.ne_none_iff_exists'.mp h
    have hwm := get?_eq_some_iff.mp hw
    by_cases hk : k = key v
    · subst hk
      rw [if_pos rfl]
      refine get?_eq_some_iff.mpr ⟨?_, rfl⟩
      exact List.mem_map.mpr ⟨w, hwm.1, by simp [hwm.2]⟩
    · rw [if_neg hk]
      cases hg : s.get? k with
      | none =>
        refine get?_eq_none_iff.mpr fun b hb => ?_
        obtain ⟨a, ha, rfl⟩ := List.mem_map.mp hb
        have hne := get?_eq_none_iff.mp hg a ha
        by_cases hka : key a = key v <;> simp [hka, hne, Ne.symm hk]
      | some a =>
        obtain ⟨ha, hka⟩ := get?_eq_some_iff.mp hg
        refine get?_eq_some_iff.mpr ⟨List.mem_map.mpr ⟨a, ha, ?_⟩, hka⟩
        simp [hka, hk]

@[simp] theorem get?_insert_self (s : KeyedStore κ α key) (v : α) :
    (s.insert v).get? (key v) = some v := by
  simp [get?_insert]

theorem get?_insert_of_ne {s : KeyedStore κ α key} {v : α} {k : κ} (h : k ≠ key v) :
    (s.insert v).get? k = s.get? k := by
  simp [get?_insert, h]

theorem mem_insert {s : KeyedStore κ α key} {v a : α} :
    a ∈ s.insert v ↔ a = v ∨ (a ∈ s ∧ key a ≠ key v) := by
  have hget : a ∈ s.insert v ↔ (s.insert v).get? (key a) = some a :=
    ⟨get?_key, fun h => mem_of_get? h⟩
  rw [hget, get?_insert]
  by_cases hk : key a = key v
  · simp only [hk, if_true, Option.some.injEq, ne_eq, not_true_eq_false, and_false, or_false]
    exact eq_comm
  · have hne : a ≠ v := fun h => hk (by rw [h])
    simp only [hk, if_false, hne, ne_eq, not_false_eq_true, and_true, false_or]
    exact ⟨mem_of_get?, get?_key⟩

/-- At most one record more. -/
theorem length_insert_le (s : KeyedStore κ α key) (v : α) :
    (s.insert v).values.length ≤ s.values.length + 1 := by
  rw [insert]
  split
  · exact Nat.le_of_eq List.length_append
  · rw [List.length_map]
    exact Nat.le_succ _

/-! ### Counting records -/

/-- A new record counts once more. -/
theorem countP_insert_of_none {s : KeyedStore κ α key} {v : α} (h : s.get? (key v) = none)
    (p : α → Bool) :
    (s.insert v).values.countP p = s.values.countP p + if p v then 1 else 0 := by
  rw [insert, dif_pos h, List.countP_append, List.countP_singleton]

/-- Replacing the one record with a key. -/
theorem countP_map_replace {l : List α} {v w : α} (hnodup : (l.map key).Nodup) (hw : w ∈ l)
    (hkey : key w = key v) (p : α → Bool) :
    (l.map fun a => if key a = key v then v else a).countP p + (if p w then 1 else 0) =
      l.countP p + if p v then 1 else 0 := by
  induction l with
  | nil => cases hw
  | cons a l ih =>
    rw [List.map_cons, List.nodup_cons] at hnodup
    obtain ⟨ha, hnodup⟩ := hnodup
    rw [List.map_cons, List.countP_cons, List.countP_cons]
    obtain rfl | hw := List.mem_cons.mp hw
    · have hrest : l.map (fun a => if key a = key v then v else a) = l := by
        refine (List.map_congr_left fun b hb => ?_).trans (List.map_id l)
        have hne : key b ≠ key v := fun hbv =>
          ha ((hbv.trans hkey.symm) ▸ List.mem_map_of_mem hb)
        rw [if_neg hne]
        rfl
      rw [hrest, if_pos hkey]
      omega
    · have hne : key a ≠ key v := fun hav => ha ((hav.trans hkey.symm) ▸ List.mem_map_of_mem hw)
      have hrest := ih hnodup hw
      rw [if_neg hne]
      omega

/-- A record that replaces one counts in its place. -/
theorem countP_insert_of_some {s : KeyedStore κ α key} {v w : α} (h : s.get? (key v) = some w)
    (p : α → Bool) :
    (s.insert v).values.countP p + (if p w then 1 else 0) =
      s.values.countP p + if p v then 1 else 0 := by
  obtain ⟨hw, hkey⟩ := get?_eq_some_iff.mp h
  rw [insert, dif_neg (by simp [h])]
  exact countP_map_replace s.nodup hw hkey p

end KeyedStore
