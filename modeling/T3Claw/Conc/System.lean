import Mathlib.Data.List.Basic
import T3Claw.Conc.Program

/-!
# Interleaved runs

Any number of tasks over one shared state. A move lets one task perform its next
instruction, starts a new task, or lets the environment act (the clock moves, an outside
process goes on); which move comes next is unrestricted, so a run is an arbitrary
interleaving. The log of who performed which instruction belongs to the configuration and
to no program: statements about a run may read it, the code cannot.

Two ways to reason about all runs at once:

* `System.Quiet` — all tasks obey the same state-free contract (`Prog.Obeys`) and the
  invariant behind it holds; every move keeps that (`Quiet.next`).
* `Protocol` — rely and guarantee. A task is `Safe` when each of its steps, taken after
  anything the others may have done meanwhile (`Grown`), keeps the invariant and stays
  within what the others rely on. Tasks that are safe one by one are safe together
  (`Reach.safe`).
-/

namespace Conc

variable {ω ε ι : Type} {R : ι → Type} {σ ρ α β : Type}

/-- A task: the operation it was started for and what is left of its program. -/
structure Task (ω ι : Type) (R : ι → Type) (ρ : Type) where
  op : ω
  prog : Prog ι R ρ

/-- Nothing is left of the program. -/
def Task.returned (t : Task ω ι R ρ) : Bool :=
  match t.prog with
  | .done _ => true
  | .act .. => false

theorem Task.exists_done {t : Task ω ι R ρ} (h : t.returned = true) : ∃ r, t.prog = .done r := by
  obtain ⟨op, r | ⟨i, f⟩⟩ := t
  · exact ⟨r, rfl⟩
  · cases h

/-- The shared state, and who performed which instruction so far, newest first. -/
structure Memory (ι σ : Type) where
  state : σ
  log : List (ℕ × ι)

/-- A configuration of a run. A task is known by its position. -/
structure Conf (ω ι : Type) (R : ι → Type) (σ ρ : Type) extends Memory ι σ where
  tasks : List (Task ω ι R ρ)

/-- All tasks have returned. -/
def Conf.returned (c : Conf ω ι R σ ρ) : Bool := c.tasks.all Task.returned

/-- A run starts with no task. -/
def Conf.idle (s : σ) : Conf ω ι R σ ρ := ⟨⟨s, []⟩, []⟩

/-- One move of a run. -/
inductive Move (ω ε : Type) where
  | step (k : ℕ)
  | start (op : ω)
  | env (e : ε)

/-- A machine with the operations that run on it and an environment. `start` is what
beginning an operation does to the state, `none` when it may not begin. -/
structure System (ω ε ι : Type) (R : ι → Type) (σ ρ : Type) extends Machine ι R σ where
  code : ω → Prog ι R ρ
  start : ω → σ → Option σ := fun _ s => some s
  env : ε → σ → Option σ

/-- Task `k` performs `i`. -/
def Memory.after (M : Machine ι R σ) (m : Memory ι σ) (k : ℕ) (i : ι) : Memory ι σ :=
  ⟨(M.exec i m.state).2, (k, i) :: m.log⟩

@[simp] theorem Memory.state_after {M : Machine ι R σ} {m : Memory ι σ} {k : ℕ} {i : ι} :
    (m.after M k i).state = (M.exec i m.state).2 := rfl

@[simp] theorem Memory.log_after {M : Machine ι R σ} {m : Memory ι σ} {k : ℕ} {i : ι} :
    (m.after M k i).log = (k, i) :: m.log := rfl

namespace System

variable {S : System ω ε ι R σ ρ}

/-- The effect of a move, `none` when it is not possible. -/
def next (S : System ω ε ι R σ ρ) (c : Conf ω ι R σ ρ) : Move ω ε → Option (Conf ω ι R σ ρ)
  | .step k =>
    match c.tasks[k]? with
    | some ⟨op, .act i f⟩ =>
      if S.ready i c.state then
        some ⟨c.toMemory.after S.toMachine k i,
          c.tasks.set k ⟨op, f (S.exec i c.state).1⟩⟩
      else none
    | _ => none
  | .start op => (S.start op c.state).map fun s => ⟨⟨s, c.log⟩, c.tasks ++ [⟨op, S.code op⟩]⟩
  | .env e => (S.env e c.state).map fun s => ⟨⟨s, c.log⟩, c.tasks⟩

/-- The configuration after a list of moves. -/
def play (S : System ω ε ι R σ ρ) (c : Conf ω ι R σ ρ) (moves : List (Move ω ε)) :
    Option (Conf ω ι R σ ρ) :=
  moves.foldlM S.next c

/-- What a task's move does. -/
theorem next_step_eq_some {c c' : Conf ω ι R σ ρ} {k : ℕ} :
    S.next c (.step k) = some c' ↔ ∃ op i f, c.tasks[k]? = some ⟨op, .act i f⟩ ∧
      S.ready i c.state = true ∧ c' = ⟨c.toMemory.after S.toMachine k i,
        c.tasks.set k ⟨op, f (S.exec i c.state).1⟩⟩ := by
  rw [next]
  constructor
  · intro h
    split at h
    case h_1 op i f hk =>
      split at h
      · exact ⟨op, i, f, hk, ‹_›, (Option.some.inj h).symm⟩
      · cases h
    case h_2 => cases h
  · rintro ⟨op, i, f, hk, hready, rfl⟩
    simp only [hk, hready, if_true]

theorem next_start_eq_some {c c' : Conf ω ι R σ ρ} {op : ω} :
    S.next c (.start op) = some c' ↔ ∃ s, S.start op c.state = some s ∧
      c' = ⟨⟨s, c.log⟩, c.tasks ++ [⟨op, S.code op⟩]⟩ := by
  simp only [next, Option.map_eq_some_iff, eq_comm (a := c')]

theorem next_env_eq_some {c c' : Conf ω ι R σ ρ} {e : ε} :
    S.next c (.env e) = some c' ↔ ∃ s, S.env e c.state = some s ∧
      c' = ⟨⟨s, c.log⟩, c.tasks⟩ := by
  simp only [next, Option.map_eq_some_iff, eq_comm (a := c')]

/-- The configurations a run can reach when every move it makes meets `ok`. -/
inductive Reach (S : System ω ε ι R σ ρ) (ok : Conf ω ι R σ ρ → Move ω ε → Prop)
    (c₀ : Conf ω ι R σ ρ) : Conf ω ι R σ ρ → Prop
  | init : Reach S ok c₀ c₀
  | move {c c' : Conf ω ι R σ ρ} {m : Move ω ε} (h : Reach S ok c₀ c) (hok : ok c m)
      (hnext : S.next c m = some c') : Reach S ok c₀ c'

/-- A property that holds at the start and that every allowed move keeps. -/
theorem Reach.induction {ok : Conf ω ι R σ ρ → Move ω ε → Prop} {c₀ c : Conf ω ι R σ ρ}
    {J : Conf ω ι R σ ρ → Prop} (h : Reach S ok c₀ c) (h₀ : J c₀)
    (hJ : ∀ c c' m, J c → ok c m → S.next c m = some c' → J c') : J c := by
  induction h with
  | init => exact h₀
  | move _ hok hnext ih => exact hJ _ _ _ ih hok hnext

/-- What holds in every state reached may be added to what the moves meet. -/
theorem Reach.strengthen {ok : Conf ω ι R σ ρ → Move ω ε → Prop} {c₀ c : Conf ω ι R σ ρ}
    {J : Conf ω ι R σ ρ → Prop} (hJ : ∀ c', Reach S ok c₀ c' → J c') (h : Reach S ok c₀ c) :
    Reach S (fun c m => ok c m ∧ J c) c₀ c := by
  induction h with
  | init => exact .init
  | move hreach hok hnext ih => exact .move ih ⟨hok, hJ _ hreach⟩ hnext

/-- Each of the moves, made in turn, meets `ok`. -/
def Allowed (S : System ω ε ι R σ ρ) (ok : Conf ω ι R σ ρ → Move ω ε → Prop) :
    Conf ω ι R σ ρ → List (Move ω ε) → Prop
  | _, [] => True
  | c, m :: moves => ok c m ∧
    match S.next c m with
    | some c' => Allowed S ok c' moves
    | none => True

/-- Whether they do can be tested when `ok` can. -/
instance Allowed.decidable {ok : Conf ω ι R σ ρ → Move ω ε → Prop} [∀ c m, Decidable (ok c m)] :
    ∀ (c : Conf ω ι R σ ρ) (moves : List (Move ω ε)), Decidable (Allowed S ok c moves)
  | _, [] => .isTrue trivial
  | c, m :: moves =>
    have : Decidable (match S.next c m with
        | some c' => Allowed S ok c' moves
        | none => True) :=
      match S.next c m with
      | some c' => Allowed.decidable c' moves
      | none => .isTrue trivial
    inferInstanceAs (Decidable (ok c m ∧ match S.next c m with
      | some c' => Allowed S ok c' moves
      | none => True))

/-- What a list of such moves leads to is reached. -/
theorem Reach.of_play {ok : Conf ω ι R σ ρ → Move ω ε → Prop} {c₀ c c' : Conf ω ι R σ ρ}
    {moves : List (Move ω ε)} (h : Reach S ok c₀ c) (hok : Allowed S ok c moves)
    (hplay : S.play c moves = some c') : Reach S ok c₀ c' := by
  induction moves generalizing c with
  | nil => exact Option.some.inj hplay ▸ h
  | cons m moves ih =>
    rw [play, List.foldlM_cons] at hplay
    obtain ⟨c₁, hnext, hplay⟩ := Option.bind_eq_some_iff.mp hplay
    obtain ⟨hm, hrest⟩ := hok
    rw [hnext] at hrest
    exact ih (h.move hm hnext) hrest hplay

/-- The tasks after a step of task `k`. -/
theorem getElem?_set_cases {l : List α} {k j : ℕ} {a b : α} (h : (l.set k a)[j]? = some b) :
    (j = k ∧ b = a) ∨ (j ≠ k ∧ l[j]? = some b) := by
  rw [List.getElem?_set] at h
  split at h
  case isTrue hkj =>
    split at h
    · exact .inl ⟨hkj.symm, (Option.some.inj h).symm⟩
    · cases h
  case isFalse hkj => exact .inr ⟨fun hj => hkj hj.symm, h⟩

/-- The tasks after a start. -/
theorem getElem?_append_cases {l : List α} {j : ℕ} {a b : α} (h : (l ++ [a])[j]? = some b) :
    l[j]? = some b ∨ (j = l.length ∧ b = a) := by
  rcases Nat.lt_trichotomy j l.length with hj | hj | hj
  · rw [List.getElem?_append_left hj] at h
    exact .inl h
  · subst hj
    simp only [List.getElem?_concat_length, Option.some.injEq] at h
    exact .inr ⟨rfl, h.symm⟩
  · rw [List.getElem?_eq_none (by simp only [List.length_append, List.length_singleton]; omega)]
      at h
    cases h

/-! ### State-free contracts -/

/-- The invariant holds and every task obeys the contract for its operation. -/
structure Quiet (A : (i : ι) → R i → Prop) (G : ω → ι → Prop) (I : σ → Prop)
    (c : Conf ω ι R σ ρ) : Prop where
  inv : I c.state
  tasks : ∀ t ∈ c.tasks, t.prog.Obeys A (G t.op) fun _ => True

/-- **Quiet configurations stay quiet.** -/
theorem Quiet.next {A : (i : ι) → R i → Prop} {G : ω → ι → Prop} {I : σ → Prop}
    (hA : ∀ op i s, I s → G op i → A i (S.exec i s).1)
    (hG : ∀ op i s, I s → G op i → I (S.exec i s).2)
    (henv : ∀ e s s', I s → S.env e s = some s' → I s')
    (hstart : ∀ op s s', I s → S.start op s = some s' → I s')
    {c c' : Conf ω ι R σ ρ} {m : Move ω ε}
    (hcode : ∀ op, m = .start op → (S.code op).Obeys A (G op) fun _ => True)
    (h : Quiet A G I c) (hnext : S.next c m = some c') : Quiet A G I c' := by
  rcases m with k | op | e
  · obtain ⟨op, i, f, hk, -, rfl⟩ := next_step_eq_some.mp hnext
    obtain ⟨hi, hf⟩ := Prog.obeys_act.mp (h.tasks _ (List.mem_of_getElem? hk))
    refine ⟨hG op i _ h.inv hi, fun t ht => ?_⟩
    rcases List.mem_or_eq_of_mem_set ht with ht | rfl
    · exact h.tasks t ht
    · exact hf _ (hA op i _ h.inv hi)
  · obtain ⟨s, hs, rfl⟩ := next_start_eq_some.mp hnext
    refine ⟨hstart op _ _ h.inv hs, fun t ht => ?_⟩
    rcases List.mem_append.mp ht with ht | ht
    · exact h.tasks t ht
    · obtain rfl := List.mem_singleton.mp ht
      exact hcode op rfl
  · obtain ⟨s, hs, rfl⟩ := next_env_eq_some.mp hnext
    exact ⟨henv e _ _ h.inv hs, h.tasks⟩

end System

/-! ### Rely and guarantee -/

/-- What the tasks of a system agree on: an invariant, a preorder that every step climbs, and
which steps a run may take. -/
structure Protocol (ω ι σ : Type) where
  inv : Memory ι σ → Prop
  later : Memory ι σ → Memory ι σ → Prop
  allowed : ω → ℕ → ι → Memory ι σ → Prop
  later_refl : ∀ m, later m m
  later_trans : ∀ {m m' m''}, later m m' → later m' m'' → later m m''

namespace Protocol

variable (P : Protocol ω ι σ) {M : Machine ι R σ}

/-- What task `k` may find changed when it takes its next step: the memory is a later one
and the log has grown by what others did. -/
def Grown (k : ℕ) (m m' : Memory ι σ) : Prop :=
  P.later m m' ∧ ∃ new, m'.log = new ++ m.log ∧ ∀ e ∈ new, e.1 ≠ k

theorem grown_refl (k : ℕ) (m : Memory ι σ) : P.Grown k m m :=
  ⟨P.later_refl _, [], rfl, by simp⟩

theorem grown_trans {k : ℕ} {m m' m'' : Memory ι σ} (h : P.Grown k m m')
    (h' : P.Grown k m' m'') : P.Grown k m m'' := by
  obtain ⟨hl, new, hnew, hk⟩ := h
  obtain ⟨hl', new', hnew', hk'⟩ := h'
  refine ⟨P.later_trans hl hl', new' ++ new, by rw [hnew', hnew, List.append_assoc], ?_⟩
  intro e he
  exact (List.mem_append.mp he).elim (hk' e) (hk e)

/-- A step of one task is growth to every other. -/
theorem grown_after {j k : ℕ} (hjk : k ≠ j) {m : Memory ι σ} {i : ι}
    (h : P.later m (m.after M k i)) : P.Grown j m (m.after M k i) :=
  ⟨h, [(k, i)], rfl, by simpa using hjk⟩

variable (M)

/-- Each step the program takes as task `k`, whatever the others did before it, keeps the
invariant and leads to a later memory; at the end `Q` holds. -/
def Safe (op : ω) (k : ℕ) (Q : α → Memory ι σ → Prop) : Prog ι R α → Memory ι σ → Prop
  | .done a, m => Q a m
  | .act i f, m => ∀ m', P.Grown k m m' → P.inv m' → P.allowed op k i m' →
      M.ready i m'.state = true →
      P.inv (m'.after M k i) ∧ P.later m' (m'.after M k i) ∧
        Safe op k Q (f (M.exec i m'.state).1) (m'.after M k i)

variable {M} {P} {op : ω} {k : ℕ} {Q Q' : α → Memory ι σ → Prop}

theorem safe_done {a : α} {m : Memory ι σ} (h : Q a m) :
    P.Safe M op k Q (.done a) m := h

/-- An instruction whose answer and effect are known. -/
theorem safe_act {i : ι} {f : R i → Prog ι R α} {m : Memory ι σ}
    (h : ∀ m', P.Grown k m m' → P.inv m' → P.allowed op k i m' → ∃ r s,
      M.exec i m'.state = (r, s) ∧ P.inv ⟨s, (k, i) :: m'.log⟩ ∧
        P.later m' ⟨s, (k, i) :: m'.log⟩ ∧ P.Safe M op k Q (f r) ⟨s, (k, i) :: m'.log⟩) :
    P.Safe M op k Q (.act i f) m := by
  intro m' hg hi ha _
  obtain ⟨r, s, hexec, hinv, hlater, hrest⟩ := h m' hg hi ha
  rw [Memory.after, hexec]
  exact ⟨hinv, hlater, hrest⟩

theorem Safe.mono {p : Prog ι R α} {m : Memory ι σ} (h : P.Safe M op k Q p m)
    (hQ : ∀ a m, Q a m → Q' a m) : P.Safe M op k Q' p m := by
  induction p generalizing m with
  | done a => exact hQ a m h
  | act i f ih =>
    intro m' hg hi ha hr
    obtain ⟨h₁, h₂, h₃⟩ := h m' hg hi ha hr
    exact ⟨h₁, h₂, ih _ h₃⟩

/-- **Sequencing.** -/
theorem Safe.bind {p : Prog ι R α} {f : α → Prog ι R β} {m : Memory ι σ}
    {P' : β → Memory ι σ → Prop}
    (h : P.Safe M op k (fun a m => P.Safe M op k P' (f a) m) p m) :
    P.Safe M op k P' (p >>= f) m := by
  induction p generalizing m with
  | done a => exact h
  | act i g ih =>
    intro m' hg hi ha hr
    obtain ⟨h₁, h₂, h₃⟩ := h m' hg hi ha hr
    exact ⟨h₁, h₂, ih _ h₃⟩

/-- **A contract whose instructions are safe.** `J` is what the task knows all along. -/
theorem Safe.of_obeys {A : (i : ι) → R i → Prop} {G : ι → Prop} {q : α → Prop}
    {J : Memory ι σ → Prop} (hgrown : ∀ m m', P.Grown k m m' → J m → J m')
    (hstep : ∀ i m, G i → P.inv m → P.allowed op k i m → J m → P.inv (m.after M k i) ∧
      P.later m (m.after M k i) ∧ A i (M.exec i m.state).1 ∧ J (m.after M k i))
    {p : Prog ι R α} (hp : p.Obeys A G q) {m : Memory ι σ} (hm : J m) :
    P.Safe M op k (fun a m => q a ∧ J m) p m := by
  induction p generalizing m with
  | done a => exact ⟨hp, hm⟩
  | act i f ih =>
    intro m' hg hi ha _
    obtain ⟨hinv, hlater, hans, hJ⟩ := hstep i m' hp.1 hi ha (hgrown m m' hg hm)
    exact ⟨hinv, hlater, ih _ (hp.2 _ hans) hJ⟩

/-- What the others do leaves a task safe. -/
theorem Safe.grown {p : Prog ι R α} {m m' : Memory ι σ} (h : P.Safe M op k Q p m)
    (hg : P.Grown k m m') (hQ : ∀ a, Q a m → Q a m') : P.Safe M op k Q p m' := by
  cases p with
  | done a => exact hQ a h
  | act i f => exact fun m'' hg' => h m'' (P.grown_trans hg hg')

end Protocol

/-- **Tasks that are safe one by one are safe together.** A task that is started has done nothing
yet, since only tasks that there are have. -/
theorem System.Reach.safe_fresh {P : Protocol ω ι σ} {S : System ω ε ι R σ ρ}
    {c₀ c : Conf ω ι R σ ρ} {ok : Conf ω ι R σ ρ → Move ω ε → Prop}
    {Q : ω → ℕ → ρ → Memory ι σ → Prop}
    (hQ : ∀ op k a m m', Q op k a m → P.Grown k m m' → Q op k a m')
    (hok : ∀ c k op i f, ok c (.step k) → c.tasks[k]? = some ⟨op, .act i f⟩ →
      P.allowed op k i c.toMemory)
    (henv : ∀ c e s, P.inv c.toMemory → ok c (.env e) → S.env e c.state = some s →
      P.inv ⟨s, c.log⟩ ∧ P.later c.toMemory ⟨s, c.log⟩)
    (hstart : ∀ c op s, P.inv c.toMemory → ok c (.start op) → S.start op c.state = some s →
      P.inv ⟨s, c.log⟩ ∧ P.later c.toMemory ⟨s, c.log⟩ ∧ ((∀ e ∈ c.log, e.1 < c.tasks.length) →
        P.Safe S.toMachine op c.tasks.length (Q op c.tasks.length) (S.code op) ⟨s, c.log⟩))
    (h₀ : P.inv c₀.toMemory) (htasks : ∀ k t, c₀.tasks[k]? = some t →
      P.Safe S.toMachine t.op k (Q t.op k) t.prog c₀.toMemory)
    (hlog : ∀ e ∈ c₀.log, e.1 < c₀.tasks.length)
    (h : S.Reach ok c₀ c) : (P.inv c.toMemory ∧ ∀ k t, c.tasks[k]? = some t →
      P.Safe S.toMachine t.op k (Q t.op k) t.prog c.toMemory) ∧
        ∀ e ∈ c.log, e.1 < c.tasks.length := by
  refine h.induction (J := fun c => (P.inv c.toMemory ∧ ∀ k t, c.tasks[k]? = some t →
    P.Safe S.toMachine t.op k (Q t.op k) t.prog c.toMemory) ∧
      ∀ e ∈ c.log, e.1 < c.tasks.length) ⟨⟨h₀, htasks⟩, hlog⟩
    fun c c' m ⟨⟨hinv, hsafe⟩, hlog⟩ hmove hnext => ?_
  rcases m with k | op | e
  · obtain ⟨op, i, f, hk, hready, rfl⟩ := System.next_step_eq_some.mp hnext
    -- the step of one task only grows the memory of every other one
    obtain ⟨hinv', hlater, hrest⟩ := hsafe k _ hk c.toMemory (P.grown_refl k _) hinv
      (hok c k op i f hmove hk) hready
    refine ⟨⟨hinv', fun j t ht => ?_⟩, ?_⟩
    · obtain ⟨rfl, rfl⟩ | ⟨hjk, ht⟩ := System.getElem?_set_cases ht
      · exact hrest
      · have hg : P.Grown j c.toMemory (c.toMemory.after S.toMachine k i) :=
          P.grown_after (Ne.symm hjk) hlater
        exact (hsafe j t ht).grown hg fun a ha => hQ _ _ _ _ _ ha hg
    · rw [List.length_set]
      exact List.forall_mem_cons.mpr ⟨(List.getElem?_eq_some_iff.mp hk).1, hlog⟩
  · obtain ⟨s, hs, rfl⟩ := System.next_start_eq_some.mp hnext
    obtain ⟨hinv', hlater, hcode⟩ := hstart c op s hinv hmove hs
    refine ⟨⟨hinv', fun j t ht => ?_⟩, fun e he => ?_⟩
    · obtain ht | ⟨rfl, rfl⟩ := System.getElem?_append_cases ht
      · have hg : P.Grown j c.toMemory ⟨s, c.log⟩ := ⟨hlater, [], rfl, by simp⟩
        exact (hsafe j t ht).grown hg fun a ha => hQ _ _ _ _ _ ha hg
      · exact hcode hlog
    · rw [List.length_append]
      exact Nat.lt_add_right _ (hlog e he)
  · obtain ⟨s, hs, rfl⟩ := System.next_env_eq_some.mp hnext
    obtain ⟨hinv', hlater⟩ := henv c e s hinv hmove hs
    refine ⟨⟨hinv', fun j t ht => ?_⟩, hlog⟩
    have hg : P.Grown j c.toMemory ⟨s, c.log⟩ := ⟨hlater, [], rfl, by simp⟩
    exact (hsafe j t ht).grown hg fun a ha => hQ _ _ _ _ _ ha hg

/-- The same from the start of a run, with nothing asked of a new task. -/
theorem System.Reach.safe {P : Protocol ω ι σ} {S : System ω ε ι R σ ρ} {s₀ : σ}
    {c : Conf ω ι R σ ρ} {ok : Conf ω ι R σ ρ → Move ω ε → Prop}
    {Q : ω → ℕ → ρ → Memory ι σ → Prop}
    (hQ : ∀ op k a m m', Q op k a m → P.Grown k m m' → Q op k a m')
    (hok : ∀ c k op i f, ok c (.step k) → c.tasks[k]? = some ⟨op, .act i f⟩ →
      P.allowed op k i c.toMemory)
    (henv : ∀ c e s, P.inv c.toMemory → ok c (.env e) → S.env e c.state = some s →
      P.inv ⟨s, c.log⟩ ∧ P.later c.toMemory ⟨s, c.log⟩)
    (hstart : ∀ c op s, P.inv c.toMemory → ok c (.start op) → S.start op c.state = some s →
      P.inv ⟨s, c.log⟩ ∧ P.later c.toMemory ⟨s, c.log⟩ ∧
        ∀ k, P.Safe S.toMachine op k (Q op k) (S.code op) ⟨s, c.log⟩)
    (h₀ : P.inv ⟨s₀, []⟩) (h : S.Reach ok (.idle s₀) c) :
    P.inv c.toMemory ∧ ∀ k t, c.tasks[k]? = some t →
      P.Safe S.toMachine t.op k (Q t.op k) t.prog c.toMemory := by
  refine (h.safe_fresh hQ hok henv (fun c op s hinv hmove hs => ?_) h₀ (fun k t ht => ?_)
    (List.forall_mem_nil _)).1
  · obtain ⟨hinv', hlater, hcode⟩ := hstart c op s hinv hmove hs
    exact ⟨hinv', hlater, fun _ => hcode _⟩
  · cases ht

end Conc
