import Mathlib.Data.List.Basic

/-!
# Chains

A chain is a fold whose steps may fail: each step works on what the steps before it have made, and
the first that fails ends it. A chain fails at the first step that does
(`foldlM_eq_error_iff`), keeps what each of its steps keeps (`of_foldlM_eq_ok`), and never gets
past a step that lets nothing through (`foldlM_error_of_mem`).
-/

namespace Chain

variable {ε α β : Type*} {f : β → α → Except ε β} {l front back : List α} {a : α} {b c : β}

theorem foldlM_cons_ok (h : f b a = .ok c) : (a :: l).foldlM f b = l.foldlM f c := by
  rw [List.foldlM_cons, h]
  rfl

theorem foldlM_cons_error {err : ε} (h : f b a = .error err) :
    (a :: l).foldlM f b = .error err := by
  rw [List.foldlM_cons, h]
  rfl

/-- A chain fails at the first step that does. -/
theorem foldlM_eq_error_iff {err : ε} :
    l.foldlM f b = .error err ↔
      ∃ front a back c, l = front ++ a :: back ∧ front.foldlM f b = .ok c ∧
        f c a = .error err := by
  induction l generalizing b with
  | nil =>
    refine iff_of_false (fun h => by cases h) ?_
    rintro ⟨front, a, back, c, h, -⟩
    exact absurd h.symm (by simp)
  | cons a l ih =>
    cases hstep : f b a with
    | error stop =>
      rw [foldlM_cons_error hstep]
      constructor
      · intro h
        exact ⟨[], a, l, b, rfl, rfl, hstep.trans (congrArg _ (Except.error.inj h))⟩
      · rintro ⟨front, a', back, c, h, hfront, herr⟩
        cases front with
        | nil =>
          obtain ⟨rfl, rfl⟩ := List.cons.inj h
          obtain rfl : b = c := Except.ok.inj hfront
          rw [← hstep, herr]
        | cons a'' front =>
          obtain ⟨rfl, -⟩ := List.cons.inj h
          rw [foldlM_cons_error hstep] at hfront
          cases hfront
    | ok next =>
      rw [foldlM_cons_ok hstep, ih]
      constructor
      · rintro ⟨front, a', back, c, rfl, hfront, herr⟩
        exact ⟨a :: front, a', back, c, rfl, (foldlM_cons_ok hstep).trans hfront, herr⟩
      · rintro ⟨front, a', back, c, h, hfront, herr⟩
        cases front with
        | nil =>
          obtain ⟨rfl, -⟩ := List.cons.inj h
          obtain rfl : b = c := Except.ok.inj hfront
          rw [hstep] at herr
          cases herr
        | cons a'' front =>
          obtain ⟨rfl, rfl⟩ := List.cons.inj h
          rw [foldlM_cons_ok hstep] at hfront
          exact ⟨front, a', back, c, rfl, hfront, herr⟩

/-- What each step keeps, a chain keeps. -/
theorem of_foldlM_eq_ok {P : β → Prop} (hstep : ∀ a ∈ l, ∀ b c, P b → f b a = .ok c → P c)
    (hb : P b) (h : l.foldlM f b = .ok c) : P c := by
  induction l generalizing b with
  | nil =>
    obtain rfl : b = c := Except.ok.inj h
    exact hb
  | cons a l ih =>
    obtain ⟨hfirst, hrest⟩ := List.forall_mem_cons.mp hstep
    cases hnext : f b a with
    | error err =>
      rw [foldlM_cons_error hnext] at h
      cases h
    | ok next =>
      rw [foldlM_cons_ok hnext] at h
      exact ih hrest (hfirst b next hb hnext) h

/-- A chain does not get past a step that lets nothing through of what the steps keep. -/
theorem foldlM_error_of_mem {P : β → Prop}
    (hstep : ∀ a ∈ l, ∀ b c, P b → f b a = .ok c → P c) (ha : a ∈ l)
    (hstop : ∀ b, P b → ∃ err, f b a = .error err) (hb : P b) :
    ∃ err, l.foldlM f b = .error err := by
  obtain ⟨front, back, rfl⟩ := List.append_of_mem ha
  cases hfront : front.foldlM f b with
  | error err =>
    obtain ⟨fr, x, bk, c, rfl, hfr, herr⟩ := foldlM_eq_error_iff.mp hfront
    refine ⟨err, foldlM_eq_error_iff.mpr ⟨fr, x, bk ++ a :: back, c, ?_, hfr, herr⟩⟩
    rw [List.append_assoc, List.cons_append]
  | ok c =>
    have hc : P c := of_foldlM_eq_ok
      (fun x hx => hstep x (List.mem_append_left _ hx)) hb hfront
    obtain ⟨err, herr⟩ := hstop c hc
    exact ⟨err, foldlM_eq_error_iff.mpr ⟨front, a, back, c, rfl, hfront, herr⟩⟩

end Chain
