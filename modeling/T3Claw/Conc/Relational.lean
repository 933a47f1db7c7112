import T3Claw.Conc.Program

/-!
# Two runs side by side

The relational rules for programs: `Alike M r q p p'` says that, started in states related by
`r`, the two programs end with values related by `q` and leave states related by `r`. With `r`
for "agree on what this reader may see" and `p' = p`, it says that the program tells two such
states apart neither by its value nor by what it leaves behind.
-/

namespace Conc.Prog

variable {ι : Type} {R : ι → Type} {σ α β : Type}

/-- From related states to related values and related states. -/
def Alike (M : Machine ι R σ) (r : σ → σ → Prop) (q : α → α → Prop) (p p' : Prog ι R α) : Prop :=
  ∀ ⦃s s' : σ⦄, r s s' →
    q (p.run M s).1 (p'.run M s').1 ∧ r (p.run M s).2 (p'.run M s').2

variable {M : Machine ι R σ} {r : σ → σ → Prop} {q : α → α → Prop} {t : β → β → Prop}

theorem alike_done {a a' : α} (h : q a a') : Alike M r q (done a) (done a') :=
  fun _ _ hr => ⟨h, hr⟩

/-- **Sequencing.** Related values choose programs that are alike. -/
theorem Alike.bind {p p' : Prog ι R α} {f f' : α → Prog ι R β} (hp : Alike M r q p p')
    (hf : ∀ a a', q a a' → Alike M r t (f a) (f' a')) : Alike M r t (p >>= f) (p' >>= f') := by
  intro s s' hr
  obtain ⟨hq, hr⟩ := hp hr
  rw [run_bind, run_bind]
  exact hf _ _ hq hr

/-- A single instruction. -/
theorem alike_perform {i : ι} {q : R i → R i → Prop}
    (h : ∀ s s', r s s' → q (M.exec i s).1 (M.exec i s').1 ∧ r (M.exec i s).2 (M.exec i s').2) :
    Alike M r q (perform i) (perform i) :=
  fun s s' hr => h s s' hr

/-- A value that is looked at through a function. -/
theorem Alike.map {p p' : Prog ι R α} {f f' : α → β} (hp : Alike M r q p p')
    (hf : ∀ a a', q a a' → t (f a) (f' a')) :
    Alike M r t (p >>= fun a => done (f a)) (p' >>= fun a => done (f' a)) :=
  hp.bind fun a a' ha => alike_done (hf a a' ha)

end Conc.Prog
