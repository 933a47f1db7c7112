import Mathlib.Data.List.Induction
import Mathlib.Data.Int.Notation
import Mathlib.Data.Set.Function
import Mathlib.Logic.Function.Basic

/-!
# Deduplication by a table of instants

A table remembers for each key when it was last let through. A visit whose key was let
through less than a window ago is skipped; any other is let through, and the table remembers
it. The table is written before anything is known of what comes of the visit, so a visit that
was let through and came to nothing still has later ones skipped.

The table may be kept under a hash of the key.
-/

namespace Dedup

variable {κ η : Type*} [DecidableEq η]

/-- A visit: its key and window, when the table was asked, whether it was skipped, and
whether it came to something. -/
structure Visit (κ : Type*) where
  key : κ
  window : ℤ
  now : ℤ
  seen : Bool
  fired : Bool

/-- The table after a visit. -/
def Visit.record (hash : κ → η) (v : Visit κ) (table : η → Option ℤ) : η → Option ℤ :=
  if v.seen then table else Function.update table (hash v.key) (some v.now)

/-- The visits went by the table, which they took from one state to the other. -/
def Follows (hash : κ → η) : (η → Option ℤ) → List (Visit κ) → (η → Option ℤ) → Prop
  | table, [], table' => table' = table
  | table, v :: visits, table' =>
    v.seen = (table (hash v.key)).any (fun last => v.now - last < v.window) ∧
      Follows hash (v.record hash table) visits table'

theorem follows_append {hash : κ → η} {table table' : η → Option ℤ} {l l' : List (Visit κ)} :
    Follows hash table (l ++ l') table' ↔
      ∃ between, Follows hash table l between ∧ Follows hash between l' table' := by
  induction l generalizing table with
  | nil => simp [Follows]
  | cons v l ih => simp [Follows, ih, and_assoc]

/-- The table holds the visits let through: what it remembers is one of them, and each has
itself or a later one remembered. -/
structure Holds (hash : κ → η) (l : List (Visit κ)) (table : η → Option ℤ) : Prop where
  known : ∀ x last, table x = some last →
    ∃ u ∈ l, u.seen = false ∧ hash u.key = x ∧ u.now = last
  kept : ∀ u ∈ l, u.seen = false → ∃ last, table (hash u.key) = some last ∧ u.now ≤ last

theorem Holds.record {hash : κ → η} {l : List (Visit κ)} {table : η → Option ℤ}
    (h : Holds hash l table) {v : Visit κ} (hlast : ∀ u ∈ l, u.now ≤ v.now) :
    Holds hash (l ++ [v]) (v.record hash table) := by
  cases hv : v.seen with
  | true =>
    have hsame : v.record hash table = table := by rw [Visit.record, hv, if_pos rfl]
    rw [hsame]
    refine ⟨fun x last hx => ?_, fun u hu hnew => ?_⟩
    · obtain ⟨u, hu, hknown⟩ := h.known x last hx
      exact ⟨u, List.mem_append_left _ hu, hknown⟩
    · rcases List.mem_append.mp hu with hu | hu
      · exact h.kept u hu hnew
      · obtain rfl := List.mem_singleton.mp hu
        rw [hv] at hnew
        cases hnew
  | false =>
    have hwrite : v.record hash table = Function.update table (hash v.key) (some v.now) := by
      rw [Visit.record, hv, if_neg Bool.false_ne_true]
    rw [hwrite]
    refine ⟨fun x last hx => ?_, fun u hu hnew => ?_⟩
    · by_cases hkey : x = hash v.key
      · subst hkey
        rw [Function.update_self, Option.some.injEq] at hx
        exact ⟨v, List.mem_append_right _ (List.mem_singleton_self v), hv, rfl, hx⟩
      · rw [Function.update_of_ne hkey] at hx
        obtain ⟨u, hu, hknown⟩ := h.known x last hx
        exact ⟨u, List.mem_append_left _ hu, hknown⟩
    · by_cases hkey : hash u.key = hash v.key
      · refine ⟨v.now, by rw [hkey, Function.update_self], ?_⟩
        rcases List.mem_append.mp hu with hu | hu
        · exact hlast u hu
        · obtain rfl := List.mem_singleton.mp hu
          exact le_rfl
      · rw [Function.update_of_ne hkey]
        rcases List.mem_append.mp hu with hu | hu
        · exact h.kept u hu hnew
        · obtain rfl := List.mem_singleton.mp hu
          exact absurd rfl hkey

/-- From an empty table on, the table holds the visits. -/
theorem Follows.holds {hash : κ → η} {l : List (Visit κ)} {table : η → Option ℤ}
    (h : Follows hash (fun _ => none) l table)
    (hsorted : l.Pairwise fun u v => u.now ≤ v.now) : Holds hash l table := by
  induction l using List.reverseRecOn generalizing table with
  | nil =>
    obtain rfl : table = fun _ => none := h
    exact ⟨nofun, nofun⟩
  | append_singleton l v ih =>
    obtain ⟨between, hl, -, htable⟩ := follows_append.mp h
    obtain rfl : table = v.record hash between := htable
    obtain ⟨hsorted, -, hlast⟩ := List.pairwise_append.mp hsorted
    exact (ih hl hsorted).record fun u hu => hlast u hu v (List.mem_singleton_self v)

/-! ### What is skipped -/

/-- A visit is skipped exactly when one of its key came to something within its window. -/
def SkipsRepeats (l : List (Visit κ)) : Prop :=
  ∀ (i : ℕ) (v : Visit κ), l[i]? = some v →
    (v.seen = true ↔ ∃ (j : ℕ) (u : Visit κ), j < i ∧ l[j]? = some u ∧ u.fired = true ∧
      u.key = v.key ∧ v.now - u.now < v.window)

/-- No visit that was let through and came to nothing is followed by one of its key within
the window. -/
def WastesNone (l : List (Visit κ)) : Prop :=
  ∀ (i j : ℕ) (u v : Visit κ), j < i → l[j]? = some u → l[i]? = some v → u.key = v.key →
    u.seen = false → u.fired = false → v.window ≤ v.now - u.now

section Skipped

variable {hash : κ → η} {l : List (Visit κ)} {table : η → Option ℤ}

/-- A visit is skipped exactly when one of its key was let through within its window. -/
theorem Follows.seen_iff (h : Follows hash (fun _ => none) l table)
    (hsorted : l.Pairwise fun u v => u.now ≤ v.now)
    (hinj : ∀ u ∈ l, ∀ v ∈ l, hash u.key = hash v.key → u.key = v.key) {i : ℕ} {v : Visit κ}
    (hv : l[i]? = some v) :
    v.seen = true ↔ ∃ (j : ℕ) (u : Visit κ), j < i ∧ l[j]? = some u ∧ u.seen = false ∧
      u.key = v.key ∧ v.now - u.now < v.window := by
  obtain ⟨hi, hget⟩ := List.getElem?_eq_some_iff.mp hv
  have hsplit : l = l.take i ++ v :: l.drop (i + 1) := by
    rw [← hget, ← List.drop_eq_getElem_cons hi, List.take_append_drop]
  rw [hsplit] at h
  obtain ⟨between, hbefore, hseen, -⟩ := follows_append.mp h
  have hholds := hbefore.holds (hsorted.sublist (List.take_sublist i l))
  have hmem : ∀ u ∈ l.take i, ∃ j, j < i ∧ l[j]? = some u := by
    intro u hu
    obtain ⟨j, hj, hget⟩ := List.getElem_of_mem hu
    rw [List.length_take] at hj
    refine ⟨j, by omega, ?_⟩
    rw [← hget, List.getElem_take, List.getElem?_eq_getElem]
  rw [hseen, Option.any_eq_true]
  constructor
  · rintro ⟨last, hlast, hwithin⟩
    obtain ⟨u, hu, hnew, hkey, rfl⟩ := hholds.known _ last hlast
    obtain ⟨j, hj, hget⟩ := hmem u hu
    exact ⟨j, u, hj, hget, hnew,
      hinj u (List.mem_of_mem_take hu) v (List.mem_of_getElem? hv) hkey, of_decide_eq_true hwithin⟩
  · rintro ⟨j, u, hj, hget, hnew, hkey, hwithin⟩
    have hu : u ∈ l.take i :=
      List.mem_of_getElem? (i := j) (by rw [List.getElem?_take_of_lt hj, hget])
    obtain ⟨last, hlast, hle⟩ := hholds.kept u hu hnew
    rw [hkey] at hlast
    exact ⟨last, hlast, decide_eq_true (by omega)⟩

/-- **When only repeats are skipped.** That is so exactly when none is wasted. -/
theorem Follows.skipsRepeats_iff (h : Follows hash (fun _ => none) l table)
    (hsorted : l.Pairwise fun u v => u.now ≤ v.now)
    (hinj : ∀ u ∈ l, ∀ v ∈ l, hash u.key = hash v.key → u.key = v.key)
    (hwindow : ∀ u ∈ l, ∀ v ∈ l, u.key = v.key → u.window = v.window)
    (hfired : ∀ v ∈ l, v.fired = true → v.seen = false) : SkipsRepeats l ↔ WastesNone l := by
  have hle : ∀ {j i : ℕ} {u v : Visit κ}, j < i → l[j]? = some u → l[i]? = some v →
      u.now ≤ v.now := by
    intro j i u v hji hu hv
    obtain ⟨hj, rfl⟩ := List.getElem?_eq_some_iff.mp hu
    obtain ⟨hi, rfl⟩ := List.getElem?_eq_some_iff.mp hv
    exact List.pairwise_iff_getElem.mp hsorted j i hj hi hji
  constructor
  · intro hexact i j u v hji hu hv hkey hnew hidle
    by_contra hwithin
    have hseen : v.seen = true :=
      (h.seen_iff hsorted hinj hv).mpr ⟨j, u, hji, hu, hnew, hkey, by omega⟩
    obtain ⟨m, x, hmi, hx, hxfired, hxkey, hxwithin⟩ := (hexact i v hv).mp hseen
    have hxnew := hfired x (List.mem_of_getElem? hx) hxfired
    have hwu := hwindow u (List.mem_of_getElem? hu) v (List.mem_of_getElem? hv) hkey
    have hwx := hwindow x (List.mem_of_getElem? hx) v (List.mem_of_getElem? hv) hxkey
    -- the one of the two that came later would have been skipped for the other
    rcases Nat.lt_trichotomy m j with hmj | rfl | hjm
    · have huseen : u.seen = true := (h.seen_iff hsorted hinj hu).mpr
        ⟨m, x, hmj, hx, hxnew, hxkey.trans hkey.symm, by have := hle hji hu hv; omega⟩
      rw [hnew] at huseen
      cases huseen
    · obtain rfl := Option.some.inj (hu.symm.trans hx)
      rw [hidle] at hxfired
      cases hxfired
    · have hxseen : x.seen = true := (h.seen_iff hsorted hinj hx).mpr
        ⟨j, u, hjm, hu, hnew, hkey.trans hxkey.symm, by have := hle hmi hx hv; omega⟩
      rw [hxnew] at hxseen
      cases hxseen
  · intro hcondition i v hv
    rw [h.seen_iff hsorted hinj hv]
    constructor
    · rintro ⟨j, u, hji, hu, hnew, hkey, hwithin⟩
      refine ⟨j, u, hji, hu, ?_, hkey, hwithin⟩
      by_contra hidle
      have := hcondition i j u v hji hu hv hkey hnew (Bool.eq_false_iff.mpr hidle)
      omega
    · rintro ⟨j, u, hji, hu, hufired, hkey, hwithin⟩
      exact ⟨j, u, hji, hu, hfired u (List.mem_of_getElem? hu) hufired, hkey, hwithin⟩

end Skipped

end Dedup
