import Mathlib.Data.List.Basic
import Mathlib.Data.List.FinRange
import Mathlib.Tactic

/-!
# Searching for several needles at once

The standard non-overlapping search (`StandardSearch`): from where the last hit stopped, the
occurrence that stops first is reported, and the search goes on behind it. Of occurrences that
stop at the same place any may be reported.

Such a search does not find every needle that occurs. What it finds of an occurrence is a hit
that stops inside it (`StandardSearch.exists_stop`). Whether one of some chosen needles is found is
then seen in the text alone, when the needles are such that only one of them can be in the way of
another (`StandardSearch.exists_good_iff`).

`search` is one such search, by trying every place.
-/

namespace Search

variable {α : Type*} {needles : List (List α)} {hay : List α}

/-- A place for one of the needles. -/
structure Hit (needles : List (List α)) where
  pattern : Fin needles.length
  start : ℕ

namespace Hit

def text (hit : Hit needles) : List α := needles.get hit.pattern

def stop (hit : Hit needles) : ℕ := hit.start + hit.text.length

/-- The needle is in its place. -/
def Occurs (hay : List α) (hit : Hit needles) : Prop := hit.text <+: hay.drop hit.start

variable {hit other : Hit needles}

theorem text_mem : hit.text ∈ needles := List.get_mem _ _

/-- An occurrence lies in the text, when its needle is not empty. -/
theorem Occurs.stop_le (h : hit.Occurs hay) (hne : hit.text ≠ []) : hit.stop ≤ hay.length := by
  have hlength := h.length_le
  rw [List.length_drop] at hlength
  have hpos : 0 < hit.text.length := List.length_pos_iff.mpr hne
  rw [stop]
  omega

end Hit

/-- `a` can stop in the text `n` characters into an occurrence of `b`. -/
def StopsAt (a b : List α) (n : ℕ) : Prop := b.take n <:+ a ∨ a <:+ b.take n

instance [DecidableEq α] (a b : List α) (n : ℕ) : Decidable (StopsAt a b n) :=
  inferInstanceAs (Decidable (_ ∨ _))

/-- Two kinds of needles: no two, one of each kind, can stop together, and nothing can stop inside
one of the second kind that can stop inside one of the first. -/
structure Separate (needles : List (List α)) (good : Fin needles.length → Prop) : Prop where
  together : ∀ i j, good i → ¬good j →
    ¬StopsAt (needles.get i) (needles.get j) (needles.get j).length
  way : ∀ i j, good i → ¬good j →
    (∃ n < (needles.get i).length, StopsAt (needles.get j) (needles.get i) (n + 1)) →
      ∀ k, ∀ n < (needles.get j).length - 1, ¬StopsAt (needles.get k) (needles.get j) (n + 1)

/-- Two occurrences, one of which stops inside the other. -/
theorem Hit.Occurs.stopsAt {hit other : Hit needles} (h : hit.Occurs hay)
    (h' : other.Occurs hay) (hlt : other.start < hit.stop) (hle : hit.stop ≤ other.stop) :
    StopsAt hit.text other.text (hit.stop - other.start) := by
  have htake : ∀ {place : Hit needles} {n : ℕ}, place.Occurs hay → n ≤ place.text.length →
      place.text.take n <:+ hay.take (place.start + n) := by
    intro place n hplace hn
    have hpart : place.text.take n = (hay.drop place.start).take n := by
      obtain ⟨rest, hrest⟩ := hplace
      rw [← hrest, List.take_append_of_le_length hn]
    rw [hpart, List.take_drop]
    exact List.drop_suffix _ _
  have hself := htake h le_rfl
  rw [List.take_length] at hself
  have hstop : other.stop = other.start + other.text.length := rfl
  have hother := htake h' (show hit.stop - other.start ≤ other.text.length by omega)
  rw [Nat.add_sub_cancel' hlt.le] at hother
  exact List.suffix_or_suffix_of_suffix hother hself

/-- **The standard search** from `p` on. -/
inductive StandardSearch (needles : List (List α)) (hay : List α) : ℕ → List (Hit needles) → Prop
  | done {p : ℕ} (hnone : ∀ hit : Hit needles, p ≤ hit.start → ¬hit.Occurs hay) :
    StandardSearch needles hay p []
  | hit {p : ℕ} {hit : Hit needles} {hits : List (Hit needles)} (hoccurs : hit.Occurs hay)
    (hstart : p ≤ hit.start)
    (hfirst : ∀ other : Hit needles, p ≤ other.start → other.Occurs hay → hit.stop ≤ other.stop)
    (hrest : StandardSearch needles hay hit.stop hits) :
    StandardSearch needles hay p (hit :: hits)

namespace StandardSearch

variable {p : ℕ} {hits : List (Hit needles)}

theorem occurs (h : StandardSearch needles hay p hits) : ∀ hit ∈ hits, hit.Occurs hay := by
  induction h with
  | done => exact nofun
  | hit hoccurs _ _ _ ih =>
    intro hit hmem
    obtain rfl | hmem := List.mem_cons.mp hmem
    · exact hoccurs
    · exact ih hit hmem

/-- **What is found of an occurrence**: some hit stops inside it. -/
theorem exists_stop (h : StandardSearch needles hay p hits) {other : Hit needles}
    (hother : other.Occurs hay) (hp : p ≤ other.start) :
    ∃ hit ∈ hits, other.start < hit.stop ∧ hit.stop ≤ other.stop := by
  induction h with
  | done hnone => exact absurd hother (hnone other hp)
  | @hit p hit hits hoccurs hstart hfirst hrest ih =>
    by_cases hlt : other.start < hit.stop
    · exact ⟨hit, List.mem_cons_self, hlt, hfirst other hp hother⟩
    · obtain ⟨found, hfound, hinside⟩ := ih (not_lt.mp hlt)
      exact ⟨found, List.mem_cons_of_mem _ hfound, hinside⟩

/-- The hits come one behind the other. -/
theorem le_start (h : StandardSearch needles hay p hits) : ∀ hit ∈ hits, p ≤ hit.start := by
  induction h with
  | done => exact nofun
  | @hit p first hits _ hstart _ _ ih =>
    intro hit hmem
    obtain rfl | hmem := List.mem_cons.mp hmem
    · exact hstart
    · have hstop := ih hit hmem
      rw [Hit.stop] at hstop
      omega

theorem pairwise (h : StandardSearch needles hay p hits) :
    hits.Pairwise fun hit later => hit.stop ≤ later.start := by
  induction h with
  | done => exact .nil
  | hit _ _ _ hrest ih => exact ih.cons hrest.le_start

theorem apart (h : StandardSearch needles hay p hits) {hit other : Hit needles}
    (hhit : hit ∈ hits) (hother : other ∈ hits) :
    hit = other ∨ hit.stop ≤ other.start ∨ other.stop ≤ hit.start := by
  have hpairwise := h.pairwise
  clear h
  induction hpairwise with
  | nil => cases hhit
  | cons hfirst _ ih =>
    rcases List.mem_cons.mp hhit with rfl | hhit' <;>
      rcases List.mem_cons.mp hother with rfl | hother'
    · exact Or.inl rfl
    · exact Or.inr (Or.inl (hfirst other hother'))
    · exact Or.inr (Or.inr (hfirst hit hhit'))
    · exact ih hhit' hother'

/-- **Whether one of some needles is found.** It is when one of them stands in the text and none
of the others stops inside it. -/
theorem exists_good_iff (h : StandardSearch needles hay 0 hits)
    (hne : ∀ needle ∈ needles, needle ≠ []) {good : Fin needles.length → Prop}
    (hseparate : Separate needles good) :
    (∃ hit ∈ hits, good hit.pattern) ↔ ∃ place : Hit needles, place.Occurs hay ∧
      good place.pattern ∧ ∀ other : Hit needles, other.Occurs hay → place.start < other.stop →
        other.stop ≤ place.stop → good other.pattern := by
  constructor
  · rintro ⟨hit, hhit, hgood⟩
    have hoccurs := h.occurs hit hhit
    refine ⟨hit, hoccurs, hgood, fun other hother hlt hle => ?_⟩
    by_contra hbad
    have hhitStop : hit.stop = hit.start + hit.text.length := rfl
    have hotherStop : other.stop = other.start + other.text.length := rfl
    obtain ⟨found, hfound, hstart, hstop⟩ := h.exists_stop hother (Nat.zero_le _)
    have hfoundOccurs := h.occurs found hfound
    have hstops := hfoundOccurs.stopsAt hother hstart hstop
    rcases h.apart hfound hhit with rfl | hbefore | hafter
    · -- the hit itself: both stop at one place
      have hsame : found.stop - other.start = other.text.length := by omega
      rw [hsame] at hstops
      exact hseparate.together _ _ hgood hbad hstops
    · -- an earlier hit stops inside the needle that is in the way
      have hin := hother.stopsAt hoccurs hlt hle
      refine hseparate.way _ _ hgood hbad ⟨other.stop - hit.start - 1, ?_, ?_⟩ found.pattern
        (found.stop - other.start - 1) ?_ ?_
      · change _ < hit.text.length
        omega
      · rw [Nat.sub_add_cancel (by omega)]
        exact hin
      · change _ < other.text.length - 1
        omega
      · rw [Nat.sub_add_cancel (by omega)]
        exact hstops
    · -- there is no room behind the hit
      have hpos : 0 < found.text.length := List.length_pos_iff.mpr (hne _ Hit.text_mem)
      have hfoundStop : found.stop = found.start + found.text.length := rfl
      omega
  · rintro ⟨place, hplace, -, hall⟩
    obtain ⟨hit, hhit, hlt, hle⟩ := h.exists_stop hplace (Nat.zero_le _)
    exact ⟨hit, hhit, hall hit (h.occurs hit hhit) hlt hle⟩

end StandardSearch

/-! ### A search -/

section Executable

variable [DecidableEq α]

instance (hit : Hit needles) : Decidable (hit.Occurs hay) :=
  inferInstanceAs (Decidable (hit.text <+: hay.drop hit.start))

/-- An occurrence that starts at `p` or later and stops at `e`. -/
def stoppingAt (needles : List (List α)) (hay : List α) (p e : ℕ) : Option (Hit needles) :=
  ((List.finRange needles.length).map fun i => Hit.mk i (e - (needles.get i).length)).find?
    fun hit => p ≤ hit.start ∧ hit.stop = e ∧ hit.Occurs hay

/-- The first hit from `p` on. -/
def next? (needles : List (List α)) (hay : List α) (p : ℕ) : Option (Hit needles) :=
  ((List.range (hay.length + 1)).find? fun e => (stoppingAt needles hay p e).isSome).bind
    (stoppingAt needles hay p)

/-- The hits from `p` on, no more than `fuel`. -/
def searchFrom (needles : List (List α)) (hay : List α) : ℕ → ℕ → List (Hit needles)
  | 0, _ => []
  | fuel + 1, p =>
    match next? needles hay p with
    | none => []
    | some hit => hit :: searchFrom needles hay fuel hit.stop

/-- All hits. -/
def search (needles : List (List α)) (hay : List α) : List (Hit needles) :=
  searchFrom needles hay (hay.length + 1) 0

theorem of_stoppingAt {p e : ℕ} {hit : Hit needles} (h : stoppingAt needles hay p e = some hit) :
    p ≤ hit.start ∧ hit.stop = e ∧ hit.Occurs hay := by
  have hfound := List.find?_some h
  exact of_decide_eq_true hfound

theorem stoppingAt_isSome {p : ℕ} {hit : Hit needles} (hoccurs : hit.Occurs hay)
    (hstart : p ≤ hit.start) : (stoppingAt needles hay p hit.stop).isSome := by
  rw [stoppingAt, List.find?_isSome]
  refine ⟨hit, List.mem_map.mpr ⟨hit.pattern, List.mem_finRange _, ?_⟩, ?_⟩
  · obtain ⟨pattern, start⟩ := hit
    rw [Hit.stop, Hit.text, Nat.add_sub_cancel]
  · exact decide_eq_true ⟨hstart, rfl, hoccurs⟩

/-- **The next hit** is the occurrence that stops first, and there is none when there is no
occurrence. -/
theorem next?_eq_none {p : ℕ} (hne : ∀ needle ∈ needles, needle ≠ [])
    (h : next? needles hay p = none) (hit : Hit needles) (hstart : p ≤ hit.start) :
    ¬hit.Occurs hay := by
  intro hoccurs
  have hstop := hoccurs.stop_le (hne _ Hit.text_mem)
  have hsome := stoppingAt_isSome hoccurs hstart
  rw [next?, Option.bind_eq_none_iff] at h
  cases hfind : (List.range (hay.length + 1)).find? fun e =>
      (stoppingAt needles hay p e).isSome with
  | none =>
    have hnot := List.find?_eq_none.mp hfind hit.stop (List.mem_range.mpr (by omega))
    exact hnot hsome
  | some e =>
    have hisSome := List.find?_some hfind
    rw [h e hfind] at hisSome
    cases hisSome

theorem next?_eq_some {p : ℕ} {hit : Hit needles} (h : next? needles hay p = some hit) :
    hit.Occurs hay ∧ p ≤ hit.start ∧
      ∀ other : Hit needles, p ≤ other.start → other.Occurs hay → hit.stop ≤ other.stop := by
  obtain ⟨e, hfind, hat⟩ := Option.bind_eq_some_iff.mp h
  obtain ⟨hstart, hstop, hoccurs⟩ := of_stoppingAt hat
  refine ⟨hoccurs, hstart, fun other hother hothers => ?_⟩
  by_contra hlt
  obtain ⟨-, -, hbefore⟩ := List.find?_range_eq_some.mp hfind
  have hnot := hbefore other.stop (by omega)
  rw [stoppingAt_isSome hothers hother] at hnot
  cases hnot

/-- **The search** is a standard one, when no needle is empty. -/
theorem standardSearch_searchFrom (hne : ∀ needle ∈ needles, needle ≠ []) :
    ∀ (fuel p : ℕ), hay.length < p + fuel →
      StandardSearch needles hay p (searchFrom needles hay fuel p)
  | 0, p, hfuel => by
    refine .done fun hit hstart hoccurs => ?_
    have hstop := hoccurs.stop_le (hne _ Hit.text_mem)
    rw [Hit.stop] at hstop
    omega
  | fuel + 1, p, hfuel => by
    rw [searchFrom]
    cases hnext : next? needles hay p with
    | none => exact .done (next?_eq_none hne hnext)
    | some hit =>
      obtain ⟨hoccurs, hstart, hfirst⟩ := next?_eq_some hnext
      have hpos : 0 < hit.text.length := List.length_pos_iff.mpr (hne _ Hit.text_mem)
      refine .hit hoccurs hstart hfirst (standardSearch_searchFrom hne fuel hit.stop ?_)
      rw [Hit.stop]
      omega

theorem standardSearch_search (hne : ∀ needle ∈ needles, needle ≠ []) (hay : List α) :
    StandardSearch needles hay 0 (search needles hay) :=
  standardSearch_searchFrom hne (hay.length + 1) 0 (by omega)

end Executable

end Search
