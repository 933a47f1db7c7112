import Mathlib.Tactic.ByContra

/-!
# Programs over a shared state

Asynchronous code, cut at its awaits. A program is a tree: it either is done with a value
or issues one instruction and goes on with the answer. Between two instructions nothing of
the shared state is held, so what a task knows is exactly the answers it has had — which is
why a value read earlier may be stale by the time it is written back.

A `Machine` says what an instruction answers and does, atomically. `Prog.run` executes a
program alone. `Prog.Obeys` is the part of a program's behaviour that does not depend on the
state at all: which instructions it issues and which results it gives, as long as the
answers it gets are of a given kind. An invariant that forces the answers, and that the
instructions keep, is then kept by the whole run (`run_of_obeys`), and equally by any
interleaving of such programs, since nothing in `Obeys` says who else is running.
-/

namespace Conc

variable {ι : Type} {R : ι → Type} {σ α β γ : Type}

/-- A program over instructions `ι`, the instruction `i` being answered in `R i`. -/
inductive Prog (ι : Type) (R : ι → Type) (α : Type) where
  | done (a : α) : Prog ι R α
  | act (i : ι) (k : R i → Prog ι R α) : Prog ι R α

namespace Prog

/-- Run the first program, then the one its value chooses. -/
def bind : Prog ι R α → (α → Prog ι R β) → Prog ι R β
  | done a, f => f a
  | act i k, f => act i fun r => (k r).bind f

/-- The program that issues one instruction. -/
def perform (i : ι) : Prog ι R (R i) := act i done

instance : Monad (Prog ι R) where
  pure := done
  bind := bind

@[simp] theorem pure_eq (a : α) : (pure a : Prog ι R α) = done a := rfl

@[simp] theorem done_bind (a : α) (f : α → Prog ι R β) : (done a >>= f) = f a := rfl

@[simp] theorem act_bind (i : ι) (k : R i → Prog ι R α) (f : α → Prog ι R β) :
    (act i k >>= f) = act i fun r => k r >>= f := rfl

@[simp] theorem perform_bind (i : ι) (f : R i → Prog ι R β) :
    (perform i >>= f) = act i f := rfl

/-- Binding is associative. -/
theorem bind_bind (p : Prog ι R α) (f : α → Prog ι R β) (g : β → Prog ι R γ) :
    (p >>= f >>= g) = p >>= fun a => f a >>= g := by
  induction p with
  | done a => rfl
  | act i k ih =>
    have hk : (fun r => k r >>= f >>= g) = fun r => k r >>= fun a => f a >>= g :=
      funext ih
    simp only [act_bind, hk]

end Prog

/-- What the instructions do: the answer and the next state. An instruction that is not
`ready` blocks its task. -/
structure Machine (ι : Type) (R : ι → Type) (σ : Type) where
  exec : (i : ι) → σ → R i × σ
  ready : ι → σ → Bool := fun _ _ => true

namespace Prog

/-- Run a program with nothing in between. -/
def run (M : Machine ι R σ) : Prog ι R α → σ → α × σ
  | done a, s => (a, s)
  | act i k, s => (k (M.exec i s).1).run M (M.exec i s).2

section run

variable {M : Machine ι R σ}

@[simp] theorem run_done (a : α) (s : σ) : (done a : Prog ι R α).run M s = (a, s) := rfl

@[simp] theorem run_act (i : ι) (k : R i → Prog ι R α) (s : σ) :
    (act i k).run M s = (k (M.exec i s).1).run M (M.exec i s).2 := rfl

@[simp] theorem run_bind (p : Prog ι R α) (f : α → Prog ι R β) (s : σ) :
    (p >>= f).run M s = (f (p.run M s).1).run M (p.run M s).2 := by
  induction p generalizing s with
  | done a => rfl
  | act i k ih => exact ih _ _

end run

/-- As long as every answer meets `A`, every instruction issued meets `G`, and a result
meets `Q`. -/
def Obeys (A : (i : ι) → R i → Prop) (G : ι → Prop) (Q : α → Prop) : Prog ι R α → Prop
  | done a => Q a
  | act i k => G i ∧ ∀ r, A i r → (k r).Obeys A G Q

section Obeys

variable {A : (i : ι) → R i → Prop} {G : ι → Prop} {Q Q' : α → Prop}

@[simp] theorem obeys_done {a : α} : (done a : Prog ι R α).Obeys A G Q ↔ Q a := Iff.rfl

@[simp] theorem obeys_act {i : ι} {k : R i → Prog ι R α} :
    (act i k).Obeys A G Q ↔ G i ∧ ∀ r, A i r → (k r).Obeys A G Q := Iff.rfl

/-- A weaker result is enough. -/
theorem Obeys.mono {p : Prog ι R α} (h : p.Obeys A G Q) (hQ : ∀ a, Q a → Q' a) :
    p.Obeys A G Q' := by
  induction p with
  | done a => exact hQ a h
  | act i k ih => exact ⟨h.1, fun r hr => ih r (h.2 r hr)⟩

/-- **Sequencing.** The first program's results choose programs that obey. -/
theorem Obeys.bind {p : Prog ι R α} {f : α → Prog ι R β} {P : β → Prop}
    (h : p.Obeys A G Q) (hf : ∀ a, Q a → (f a).Obeys A G P) : (p >>= f).Obeys A G P := by
  induction p with
  | done a => exact hf a h
  | act i k ih => exact ⟨h.1, fun r hr => ih r (h.2 r hr)⟩

/-- Better answers and a laxer contract. -/
theorem Obeys.weaken {B : (i : ι) → R i → Prop} {H : ι → Prop} {p : Prog ι R α}
    (h : p.Obeys A G Q) (hA : ∀ i r, B i r → A i r) (hG : ∀ i, G i → H i) :
    p.Obeys B H Q := by
  induction p with
  | done a => exact h
  | act i k ih => exact ⟨hG i h.1, fun r hr => ih r (h.2 r (hA i r hr))⟩

/-- Two contracts at once. -/
theorem Obeys.and {G' : ι → Prop} {p : Prog ι R α} (h : p.Obeys A G Q)
    (h' : p.Obeys A G' Q') : p.Obeys A (fun i => G i ∧ G' i) fun a => Q a ∧ Q' a := by
  induction p with
  | done a => exact ⟨h, h'⟩
  | act i k ih => exact ⟨⟨h.1, h'.1⟩, fun r hr => ih r (h.2 r hr) (h'.2 r hr)⟩

/-- Some answers that meet `A` lead to an instruction in `bad`. -/
inductive MayIssue (A : (i : ι) → R i → Prop) (bad : ι → Prop) : Prog ι R α → Prop
  | here {i : ι} {k : R i → Prog ι R α} (h : bad i) : MayIssue A bad (act i k)
  | later {i : ι} {k : R i → Prog ι R α} {r : R i} (hr : A i r) (h : MayIssue A bad (k r)) :
    MayIssue A bad (act i k)

/-- A program obeys or may break the contract. -/
theorem obeys_iff_not_mayIssue {p : Prog ι R α} :
    (p.Obeys A G fun _ => True) ↔ ¬ p.MayIssue A fun i => ¬ G i := by
  induction p with
  | done a => exact ⟨fun _ hmay => (nomatch hmay), fun _ => trivial⟩
  | act i k ih =>
    constructor
    · rintro ⟨hi, hk⟩ hmay
      cases hmay with
      | here hbad => exact hbad hi
      | later hr hlater => exact (ih _).mp (hk _ hr) hlater
    · intro h
      refine ⟨by_contra fun hi => h (.here hi), fun r hr => (ih r).mpr fun hlater => ?_⟩
      exact h (.later hr hlater)

/-- **An invariant that forces the answers, and that the instructions keep, is kept by the
whole run.** -/
theorem run_of_obeys {M : Machine ι R σ} {I : σ → Prop}
    (hA : ∀ i s, I s → G i → A i (M.exec i s).1) (hG : ∀ i s, I s → G i → I (M.exec i s).2)
    {p : Prog ι R α} (h : p.Obeys A G Q) {s : σ} (hs : I s) :
    I (p.run M s).2 ∧ Q (p.run M s).1 := by
  induction p generalizing s with
  | done a => exact ⟨hs, h⟩
  | act i k ih => exact ih _ (h.2 _ (hA i s hs h.1)) (hG i s hs h.1)

end Obeys

end Prog

end Conc
