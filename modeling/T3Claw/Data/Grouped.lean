import Mathlib.Data.List.Nodup

/-!
# Grouping by a key

A list is read entry by entry into a table with one entry a key: the first entry of a key is put
in as it is, a later one is joined onto what the table has. What a join makes of two entries shows
in the table as what it makes of all entries of the key (`of_mem_group`).
-/

namespace Grouped

variable {κ α : Type*} [DecidableEq κ] (key : α → κ) (join : α → α → α)

/-- An entry is joined onto the one with its key, or is put in behind the others. -/
def put (a : α) : List α → List α
  | [] => [a]
  | b :: table => if key b = key a then join b a :: table else b :: put a table

/-- The table of a list. -/
def group (l : List α) : List α := l.foldl (fun table a => put key join a table) []

variable {key join}

/-- The keys of a table, after an entry was put in. -/
theorem exists_key_put (hkey : ∀ a b, key (join a b) = key a) {a : α} {table : List α} {k : κ} :
    (∃ e ∈ put key join a table, key e = k) ↔ k = key a ∨ ∃ e ∈ table, key e = k := by
  induction table with
  | nil => simp [put, eq_comm]
  | cons b table ih =>
    rw [put]
    split
    case isTrue hb =>
      simp only [List.mem_cons, exists_eq_or_imp, hkey]
      rw [hb, eq_comm (a := k), ← or_assoc, or_self]
    case isFalse hb =>
      simp only [List.mem_cons, exists_eq_or_imp, ih]
      exact or_left_comm

/-- An entry of the table is what it was, of another key, or has the new one joined onto it, or is
the new one. -/
theorem of_mem_put {a e : α} {table : List α} (hnodup : (table.map key).Nodup)
    (he : e ∈ put key join a table) :
    (e ∈ table ∧ key e ≠ key a) ∨ (∃ b ∈ table, key b = key a ∧ e = join b a) ∨
      (e = a ∧ ∀ b ∈ table, key b ≠ key a) := by
  induction table with
  | nil => exact .inr (.inr ⟨List.mem_singleton.mp he, fun _ hb => nomatch hb⟩)
  | cons b table ih =>
    rw [List.map_cons, List.nodup_cons] at hnodup
    rw [put] at he
    split at he
    case isTrue hb =>
      obtain rfl | he := List.mem_cons.mp he
      · exact .inr (.inl ⟨b, List.mem_cons_self, hb, rfl⟩)
      · refine .inl ⟨List.mem_cons_of_mem _ he, fun hk => hnodup.1 ?_⟩
        rw [hb, ← hk]
        exact List.mem_map_of_mem he
    case isFalse hb =>
      obtain rfl | he := List.mem_cons.mp he
      · exact .inl ⟨List.mem_cons_self, hb⟩
      · obtain ⟨he, hk⟩ | ⟨c, hc, hk, rfl⟩ | ⟨rfl, hnone⟩ := ih hnodup.2 he
        · exact .inl ⟨List.mem_cons_of_mem _ he, hk⟩
        · exact .inr (.inl ⟨c, List.mem_cons_of_mem _ hc, hk, rfl⟩)
        · exact .inr (.inr ⟨rfl, List.forall_mem_cons.mpr ⟨hb, hnone⟩⟩)

theorem nodup_put (hkey : ∀ a b, key (join a b) = key a) {a : α} {table : List α}
    (hnodup : (table.map key).Nodup) : ((put key join a table).map key).Nodup := by
  induction table with
  | nil => exact List.nodup_singleton _
  | cons b table ih =>
    rw [List.map_cons, List.nodup_cons] at hnodup
    rw [put]
    split
    case isTrue hb => rwa [List.map_cons, hkey, List.nodup_cons]
    case isFalse hb =>
      rw [List.map_cons, List.nodup_cons]
      refine ⟨fun hmem => ?_, ih hnodup.2⟩
      obtain ⟨e, he, hk⟩ := List.mem_map.mp hmem
      obtain hka | ⟨c, hc, hkc⟩ := (exists_key_put hkey).mp ⟨e, he, hk⟩
      · exact hb hka
      · exact hnodup.1 (hkc ▸ List.mem_map_of_mem hc)

/-- A property that a join has when one of the two has it; `I` is what it may rely on. -/
structure Joins (join : α → α → α) (I P : α → Prop) : Prop where
  keeps : ∀ a b, I a → I b → I (join a b)
  iff : ∀ a b, I a → I b → (P (join a b) ↔ P a ∨ P b)

/-- The table holds the entries read so far. -/
structure Holds (key : α → κ) (I P : α → Prop) (l table : List α) : Prop where
  nodup : (table.map key).Nodup
  keys : ∀ k, (∃ e ∈ table, key e = k) ↔ ∃ a ∈ l, key a = k
  inv : ∀ e ∈ table, I e
  iff : ∀ e ∈ table, P e ↔ ∃ a ∈ l, key a = key e ∧ P a

theorem Holds.put {I P : α → Prop} {l table : List α} (h : Holds key I P l table)
    (hkey : ∀ a b, key (join a b) = key a) (hjoin : Joins join I P) {a : α} (ha : I a) :
    Holds key I P (l ++ [a]) (put key join a table) where
  nodup := nodup_put hkey h.nodup
  keys k := by
    rw [exists_key_put hkey, h.keys]
    simp only [List.mem_append, List.mem_singleton, or_and_right, exists_or, exists_eq_left]
    rw [or_comm, eq_comm]
  inv e he := by
    obtain ⟨he, -⟩ | ⟨b, hb, -, rfl⟩ | ⟨rfl, -⟩ := of_mem_put h.nodup he
    · exact h.inv e he
    · exact hjoin.keeps b a (h.inv b hb) ha
    · exact ha
  iff e he := by
    simp only [List.mem_append, List.mem_singleton, or_and_right, exists_or, exists_eq_left]
    obtain ⟨he, hk⟩ | ⟨b, hb, hk, rfl⟩ | ⟨rfl, hnone⟩ := of_mem_put h.nodup he
    · rw [h.iff e he]
      exact ⟨.inl, fun hor => hor.resolve_right fun hand => hk hand.1.symm⟩
    · rw [hjoin.iff b a (h.inv b hb) ha, h.iff b hb, hkey, hk]
      simp
    · have hnew : ¬∃ x ∈ l, key x = key e ∧ P x := fun ⟨x, hx, hkx, _⟩ =>
        have ⟨c, hc, hkc⟩ := (h.keys (key e)).mpr ⟨x, hx, hkx⟩
        hnone c hc hkc
      simp [hnew]

/-- The table of a list holds its entries. -/
theorem holds_group {I P : α → Prop} (hkey : ∀ a b, key (join a b) = key a)
    (hjoin : Joins join I P) {l : List α} (hl : ∀ a ∈ l, I a) :
    Holds key I P l (group key join l) := by
  suffices ∀ rest done table, Holds key I P done table → (∀ a ∈ rest, I a) →
      Holds key I P (done ++ rest)
        (rest.foldl (fun table a => Grouped.put key join a table) table) from
    this l [] [] ⟨List.nodup_nil, by simp, by simp, by simp⟩ hl
  intro rest
  induction rest with
  | nil => exact fun done table h _ => by rwa [List.append_nil]
  | cons a rest ih =>
    intro done table h hrest
    have hnext := ih (done ++ [a]) _ (h.put hkey hjoin (hrest a List.mem_cons_self))
      fun b hb => hrest b (List.mem_cons_of_mem _ hb)
    rwa [List.append_assoc, List.singleton_append] at hnext

end Grouped
