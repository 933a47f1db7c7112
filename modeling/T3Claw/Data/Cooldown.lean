import Mathlib.Data.Int.Notation
import Mathlib.Data.Int.Order.Basic
import Mathlib.Order.Basic
import Mathlib.Tactic.ByContra

/-!
# A cooldown armed by a mismatch

A schedule says when the next fire is due. A fire moves it on, but what it writes can be lost;
so the instant of the latest fire is kept in memory too, and while it is younger than a window
a due schedule is left alone unless the written instant of the last fire is the same.

This suppresses a second fire for one due time as long as the two instants agree only where
the schedule has moved on (`Inv.last`). A fire writes both at once. A reconciliation, which
writes the instant of a fire later, keeps that when it moves the schedule on, or when the
fire is no longer the latest.
-/

namespace Cooldown

/-- What decides whether a due schedule is fired. -/
structure State where
  clock : ℤ
  /-- The instant of the latest fire, in memory. -/
  attempt : Option ℤ
  /-- The instant of the last fire, as it is written. -/
  last : Option ℤ
  /-- When the next fire is due, as it is written. -/
  next : Option ℤ
  /-- The fires that may still be reconciled. -/
  pending : ℤ → Prop

/-- A fire for a due time. -/
structure Fire where
  saw : Option ℤ
  instant : ℤ

/-- Time passes; an attempt that has left the window may be forgotten. -/
structure Passes (window : ℤ) (s s' : State) : Prop where
  clock : s.clock ≤ s'.clock
  attempt : s'.attempt = s.attempt ∨
    s'.attempt = none ∧ ∀ t, s.attempt = some t → window ≤ s'.clock - t
  last : s'.last = s.last
  next : s'.next = s.next
  pending : ∀ t, s'.pending t → s.pending t

/-- A fire at `t`; what it writes may be lost. -/
structure Fires (t : ℤ) (s s' : State) : Prop where
  clock : s.clock ≤ t
  clock' : t ≤ s'.clock
  attempt : s'.attempt = some t
  written : s'.last = s.last ∧ s'.next = s.next ∨
    s'.last = some t ∧ ∀ n, s'.next = some n → t < n
  pending : ∀ u, s'.pending u → s.pending u ∨ u = t

/-- The instant of an earlier fire is written. -/
structure Reconciles (t : ℤ) (s s' : State) : Prop where
  clock : s.clock ≤ s'.clock
  attempt : s'.attempt = s.attempt
  fired : s.pending t
  last : s'.last = some t
  moved : (∀ n, s'.next = some n → t < n) ∨ s.attempt ≠ some t
  pending : ∀ u, s'.pending u → s.pending u

/-- The due time has come at `now`, and no younger attempt is missing from what is written. -/
structure Due (window now n : ℤ) (s : State) : Prop where
  next : s.next = some n
  come : n ≤ now
  cool : ∀ t, s.attempt = some t → now - t < window → s.last = some t

/-- What holds between the steps, after the given fires. -/
structure Inv (window : ℤ) (fires : List Fire) (s : State) : Prop where
  attempt : ∀ t, s.attempt = some t → t ≤ s.clock
  pending : ∀ t, s.pending t → t ≤ s.clock ∧ (s.attempt = some t ∨ t < s.clock)
  last : ∀ t n, s.last = some t → s.next = some n →
    t < n ∨ t < s.clock ∧ s.attempt ≠ some t
  due : ∀ f ∈ fires, ∃ n, f.saw = some n ∧ n ≤ f.instant
  armed : ∀ f ∈ fires, (∃ t, s.attempt = some t ∧ f.instant ≤ t) ∨
    window ≤ s.clock - f.instant
  apart : fires.Pairwise fun f g => g.instant - f.instant < window → f.saw ≠ g.saw

variable {window t : ℤ} {past : List Fire} {s s' : State}

theorem Passes.trans {s'' : State} (h : Passes window s s') (h' : Passes window s' s'') :
    Passes window s s'' := by
  have hclock := h'.clock
  refine ⟨h.clock.trans hclock, ?_, h'.last.trans h.last, h'.next.trans h.next,
    fun t ht => h.pending t (h'.pending t ht)⟩
  obtain hsame | ⟨hnone, hold⟩ := h'.attempt
  · rw [hsame]
    refine h.attempt.imp_right fun ⟨hnone, hold⟩ => ⟨hnone, fun t ht => ?_⟩
    have hgone := hold t ht
    omega
  · refine .inr ⟨hnone, fun t ht => ?_⟩
    obtain hsame | ⟨-, hold'⟩ := h.attempt
    · exact hold t (hsame.trans ht)
    · have hgone := hold' t ht
      omega

theorem Passes.fires {s'' : State} (h : Passes window s s') (h' : Fires t s' s'') :
    Fires t s s'' where
  clock := h.clock.trans h'.clock
  clock' := h'.clock'
  attempt := h'.attempt
  written := h'.written.imp_left fun hw => ⟨hw.1.trans h.last, hw.2.trans h.next⟩
  pending u hu := (h'.pending u hu).imp_left (h.pending u)

theorem Fires.passes {s'' : State} (h : Fires t s s') (hkept : s''.attempt = s'.attempt)
    (h' : Passes window s' s'') : Fires t s s'' where
  clock := h.clock
  clock' := h.clock'.trans h'.clock
  attempt := hkept.trans h.attempt
  written := by
    rw [h'.last, h'.next]
    exact h.written
  pending u hu := h.pending u (h'.pending u hu)

theorem Inv.passes (h : Inv window past s) (hwindow : 0 < window)
    (hstep : Passes window s s') : Inv window past s' := by
  have hclock := hstep.clock
  refine ⟨fun t ht => ?_, fun t ht => ?_, fun t n hlast hnext => ?_, h.due, fun f hf => ?_,
    h.apart⟩
  · obtain hsame | ⟨hnone, -⟩ := hstep.attempt
    · exact (h.attempt t (hsame ▸ ht)).trans hclock
    · rw [hnone] at ht
      cases ht
  · obtain ⟨hle, hcase⟩ := h.pending t (hstep.pending t ht)
    refine ⟨hle.trans hclock, ?_⟩
    obtain hattempt | hlt := hcase
    · obtain hsame | ⟨-, hold⟩ := hstep.attempt
      · exact .inl (hsame.trans hattempt)
      · have hgone := hold t hattempt
        exact .inr (by omega)
    · exact .inr (hlt.trans_le hclock)
  · rw [hstep.last] at hlast
    rw [hstep.next] at hnext
    obtain hlt | ⟨hlt, hne⟩ := h.last t n hlast hnext
    · exact .inl hlt
    · refine .inr ⟨hlt.trans_le hclock, ?_⟩
      obtain hsame | ⟨hnone, -⟩ := hstep.attempt
      · rwa [hsame]
      · rw [hnone]
        exact nofun
  · obtain ⟨t, ht, hle⟩ | hpast := h.armed f hf
    · obtain hsame | ⟨-, hold⟩ := hstep.attempt
      · exact .inl ⟨t, hsame.trans ht, hle⟩
      · have hgone := hold t ht
        exact .inr (by omega)
    · exact .inr (by omega)

theorem Inv.fires (h : Inv window past s) (hstep : Fires t s s') : Inv window past s' := by
  have hclock := hstep.clock
  have hclock' := hstep.clock'
  have hattempt := hstep.attempt
  refine ⟨fun u hu => ?_, fun u hu => ?_, fun u n hlast hnext => ?_, h.due, fun f hf => ?_,
    h.apart⟩
  · rw [hattempt] at hu
    obtain rfl := Option.some.inj hu
    exact hclock'
  · obtain hold | rfl := hstep.pending u hu
    · obtain ⟨hle, -⟩ := h.pending u hold
      refine ⟨by omega, ?_⟩
      by_cases hut : u = t
      · exact .inl (hut ▸ hattempt)
      · exact .inr (by omega)
    · exact ⟨hclock', .inl hattempt⟩
  · obtain ⟨hlast', hnext'⟩ | ⟨hlast', hmoved⟩ := hstep.written
    · rw [hlast'] at hlast
      rw [hnext'] at hnext
      obtain hlt | ⟨hlt, -⟩ := h.last u n hlast hnext
      · exact .inl hlt
      · refine .inr ⟨by omega, fun hsame => ?_⟩
        rw [hattempt] at hsame
        have htu := Option.some.inj hsame
        omega
    · rw [hlast'] at hlast
      obtain rfl := Option.some.inj hlast
      exact .inl (hmoved n hnext)
  · obtain ⟨u, hu, hle⟩ | hpast := h.armed f hf
    · have hut := h.attempt u hu
      exact .inl ⟨t, hattempt, by omega⟩
    · exact .inr (by omega)

theorem Inv.reconciles (h : Inv window past s) (hstep : Reconciles t s s') :
    Inv window past s' := by
  have hclock := hstep.clock
  refine ⟨fun u hu => ?_, fun u hu => ?_, fun u n hlast hnext => ?_, h.due, fun f hf => ?_,
    h.apart⟩
  · rw [hstep.attempt] at hu
    exact (h.attempt u hu).trans hclock
  · obtain ⟨hle, hcase⟩ := h.pending u (hstep.pending u hu)
    rw [hstep.attempt]
    exact ⟨hle.trans hclock, hcase.imp_right fun hlt => hlt.trans_le hclock⟩
  · rw [hstep.last] at hlast
    obtain rfl := Option.some.inj hlast
    rw [hstep.attempt]
    obtain hmoved | hother := hstep.moved
    · exact .inl (hmoved n hnext)
    · have hlt := (h.pending t hstep.fired).2.resolve_left hother
      exact .inr ⟨hlt.trans_le hclock, hother⟩
  · rw [hstep.attempt]
    exact (h.armed f hf).imp_right fun hpast => by omega

/-- **Fires for due times** less than the window apart saw different due times: the attempt in
memory is not older than the first of them, so it is written, and then the schedule has moved
on beyond it. -/
theorem Inv.fires_due (h : Inv window past s) {now n : ℤ} (hdue : Due window now n s)
    (hnow : now ≤ t) (hstep : Fires t s s') :
    Inv window (past ++ [⟨some n, t⟩]) s' := by
  have hkept := h.fires hstep
  have hclock := hstep.clock
  have hcome := hdue.come
  refine ⟨hkept.attempt, hkept.pending, hkept.last, fun f hf => ?_, fun f hf => ?_, ?_⟩
  · rcases List.mem_append.mp hf with hf | hf
    · exact hkept.due f hf
    · obtain rfl := List.mem_singleton.mp hf
      exact ⟨n, rfl, hcome.trans hnow⟩
  · rcases List.mem_append.mp hf with hf | hf
    · exact hkept.armed f hf
    · obtain rfl := List.mem_singleton.mp hf
      exact .inl ⟨t, hstep.attempt, le_rfl⟩
  · refine List.pairwise_append.mpr ⟨h.apart, List.pairwise_singleton _ _, ?_⟩
    intro f hf g hg hwithin hsame
    obtain rfl := List.mem_singleton.mp hg
    dsimp only at hwithin hsame
    obtain ⟨m, hsaw, hm⟩ := h.due f hf
    obtain rfl := Option.some.inj (hsaw.symm.trans hsame)
    obtain ⟨u, hu, hle⟩ | hpast := h.armed f hf
    · have hlast := hdue.cool u hu (by omega)
      obtain hlt | ⟨-, hne⟩ := h.last u m hlast hdue.next
      · omega
      · exact hne hu
    · omega

end Cooldown
