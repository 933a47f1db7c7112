import Mathlib.Tactic.SplitIfs
import T3Claw.Conc.Program

/-!
# Programs that are interfered with

`Prog.run` gives a program the machine to itself. Here each instruction is answered as a
relation allows: others may act before it, it may fail, its answer may depend on what is not
in the state. `Ends` says how a program may come to its end. What the relation keeps, a whole
run keeps (`Ends.of_obeys`).

`noting` has a program return, beside its value, what it noted of its instructions. A run of
it is a run of the program, with the notes kept beside the state (`Ends.noted`).
-/

namespace Conc

variable {ι : Type} {R : ι → Type} {σ α β ν : Type}

namespace Prog

/-- The program may come to its end with a value, from one state to another, its instructions
being answered as `E` allows. -/
inductive Ends (E : (i : ι) → σ → R i → σ → Prop) : Prog ι R α → σ → α → σ → Prop
  | done {a : α} {s : σ} : Ends E (done a) s a s
  | act {i : ι} {k : R i → Prog ι R α} {s s' s'' : σ} {r : R i} {a : α} (hanswer : E i s r s')
    (hrest : Ends E (k r) s' a s'') : Ends E (act i k) s a s''

/-- Run a program with nothing in between, as long as all is well. -/
def runWhile (M : Machine ι R σ) (ok : σ → Bool) : Prog ι R α → σ → Option (α × σ)
  | done a, s => some (a, s)
  | act i k, s =>
    if ok s then (k (M.exec i s).1).runWhile M ok (M.exec i s).2 else none

/-- A program that notes its instructions. -/
def noting (note : (i : ι) → R i → List ν) : Prog ι R α → Prog ι R (α × List ν)
  | done a => done (a, [])
  | act i k => act i fun r => (k r).noting note >>= fun x => done (x.1, note i r ++ x.2)

/-- Leaving the notes out gives the program back. -/
theorem noting_fst (note : (i : ι) → R i → List ν) (p : Prog ι R α) :
    (p.noting note >>= fun x => done x.1) = p := by
  induction p with
  | done a => rfl
  | act i k ih =>
    rw [noting, act_bind]
    refine congrArg _ (funext fun r => ?_)
    rw [bind_bind]
    exact ih r

/-- An answer that `E` allows, and what is noted of it. -/
def Noted (E : (i : ι) → σ → R i → σ → Prop) (note : (i : ι) → R i → List ν) (i : ι)
    (s : σ × List ν) (r : R i) (s' : σ × List ν) : Prop :=
  E i s.1 r s'.1 ∧ s'.2 = s.2 ++ note i r

section Ends

variable {E : (i : ι) → σ → R i → σ → Prop} {s s' s'' : σ}

@[simp] theorem ends_done {a b : α} : (done a : Prog ι R α).Ends E s b s' ↔ b = a ∧ s' = s := by
  constructor
  · rintro ⟨⟩
    exact ⟨rfl, rfl⟩
  · rintro ⟨rfl, rfl⟩
    exact .done

@[simp] theorem ends_act {i : ι} {k : R i → Prog ι R α} {a : α} :
    (act i k).Ends E s a s'' ↔ ∃ r s', E i s r s' ∧ (k r).Ends E s' a s'' := by
  constructor
  · rintro ⟨⟩
    exact ⟨_, _, ‹_›, ‹_›⟩
  · rintro ⟨r, s', hanswer, hrest⟩
    exact .act hanswer hrest

/-- A sequence comes to its end where its second part does. -/
theorem ends_bind {p : Prog ι R α} {f : α → Prog ι R β} {b : β} :
    (p >>= f).Ends E s b s'' ↔ ∃ a s', p.Ends E s a s' ∧ (f a).Ends E s' b s'' := by
  induction p generalizing s with
  | done a =>
    constructor
    · exact fun h => ⟨a, s, .done, h⟩
    · rintro ⟨a', s', hdone, hf⟩
      obtain ⟨rfl, rfl⟩ := ends_done.mp hdone
      exact hf
  | act i k ih =>
    rw [act_bind, ends_act]
    constructor
    · rintro ⟨r, s₁, hanswer, hrest⟩
      obtain ⟨a, s', hk, hf⟩ := (ih r).mp hrest
      exact ⟨a, s', .act hanswer hk, hf⟩
    · rintro ⟨a, s', hp, hf⟩
      obtain ⟨r, s₁, hanswer, hk⟩ := ends_act.mp hp
      exact ⟨r, s₁, hanswer, (ih r).mpr ⟨a, s', hk, hf⟩⟩

/-- What the allowed answers keep, a whole run keeps. -/
theorem Ends.of_obeys {A : (i : ι) → R i → Prop} {G : ι → Prop} {Q : α → Prop} {I : σ → Prop}
    (hE : ∀ i s r s', I s → G i → E i s r s' → A i r ∧ I s') {p : Prog ι R α} {a : α}
    (hp : p.Obeys A G Q) (hs : I s) (h : p.Ends E s a s') : I s' ∧ Q a := by
  induction h with
  | done => exact ⟨hs, hp⟩
  | act hanswer hrest ih =>
    obtain ⟨hr, hs'⟩ := hE _ _ _ _ hs hp.1 hanswer
    exact ih (hp.2 _ hr) hs'

/-- A run of a program that notes is one of the program. -/
theorem Ends.of_noting {note : (i : ι) → R i → List ν} {p : Prog ι R α} {x : α × List ν}
    (h : (p.noting note).Ends E s x s') : p.Ends E s x.1 s' := by
  rw [← noting_fst note p]
  exact ends_bind.mpr ⟨x, s', h, .done⟩

/-- The notes of a run, kept beside the state. -/
theorem Ends.noted {note : (i : ι) → R i → List ν} {p : Prog ι R α} {a : α} {notes : List ν}
    (h : (p.noting note).Ends E s (a, notes) s') (before : List ν) :
    p.Ends (Noted E note) (s, before) a (s', before ++ notes) := by
  induction p generalizing s notes before with
  | done b =>
    obtain ⟨hvalue, rfl⟩ := ends_done.mp h
    obtain ⟨rfl, rfl⟩ := Prod.mk.inj hvalue
    rw [List.append_nil]
    exact .done
  | act i k ih =>
    obtain ⟨r, s₁, hanswer, hrest⟩ := ends_act.mp h
    obtain ⟨⟨b, later⟩, s₂, hk, hdone⟩ := ends_bind.mp hrest
    obtain ⟨hvalue, rfl⟩ := ends_done.mp hdone
    obtain ⟨rfl, rfl⟩ := Prod.mk.inj hvalue
    rw [← List.append_assoc]
    exact .act ⟨hanswer, rfl⟩ (ih r hk (before ++ note i r))

/-- Every run has notes. -/
theorem Ends.exists_noting (note : (i : ι) → R i → List ν) {p : Prog ι R α} {a : α}
    (h : p.Ends E s a s') : ∃ notes, (p.noting note).Ends E s (a, notes) s' := by
  induction h with
  | done => exact ⟨[], .done⟩
  | act hanswer hrest ih =>
    obtain ⟨notes, hnotes⟩ := ih
    exact ⟨_, .act hanswer (ends_bind.mpr ⟨_, _, hnotes, .done⟩)⟩

/-- A program left to itself comes to its end, if all goes well. -/
theorem ends_of_runWhile {M : Machine ι R σ} {ok : σ → Bool}
    (hM : ∀ i s, ok s = true → E i s (M.exec i s).1 (M.exec i s).2) {p : Prog ι R α} {a : α}
    (h : p.runWhile M ok s = some (a, s')) : p.Ends E s a s' := by
  induction p generalizing s with
  | done b =>
    obtain ⟨rfl, rfl⟩ := Prod.mk.inj (Option.some.inj h)
    exact .done
  | act i k ih =>
    rw [runWhile] at h
    split_ifs at h with hok
    exact .act (hM i s hok) (ih _ h)

theorem ends_of_run {M : Machine ι R σ} (hM : ∀ i s, E i s (M.exec i s).1 (M.exec i s).2)
    (p : Prog ι R α) (s : σ) : p.Ends E s (p.run M s).1 (p.run M s).2 := by
  have hrun : p.runWhile M (fun _ => true) s = some (p.run M s) := by
    induction p generalizing s with
    | done a => rfl
    | act i k ih => exact ih _ _
  exact ends_of_runWhile (fun i s _ => hM i s) hrun

end Ends

end Prog

end Conc
