import T3Claw.Mission.Accounts

/-!
# The limits on fires, under concurrency

A fire checks the daily budget, the running threads and the user's rate on what it has loaded,
and spawns later. `Guarded` says which runs keep the limits: no spawn acts on a copy that has
missed a thread its limits ask about, no outcome takes the date of the last fire back, and no
fire is recorded on a check another fire has overtaken (`Unraced`).

The proof is by rely and guarantee: all tasks keep `InOrder` and climb `Later`, and each
operation is followed through once, with what it knows of its copy at every step.
-/

namespace T3Claw

open Conc

/-- What the tasks of the manager agree on. -/
def guardProtocol (h : Host) : Protocol Op Instr World where
  inv := InOrder h
  later := Later
  allowed := Unraced h
  later_refl := Later.refl
  later_trans := Later.trans

/-- The program is safe as task `k` of operation `op`. -/
abbrev SafeAs (h : Host) (op : Op) (k : ℕ) {α : Type} (Q : α → Memory Instr World → Prop)
    (p : Act α) (m : Memory Instr World) : Prop :=
  (guardProtocol h).Safe (missionMachine h) op k Q p m

/-- The instruction is no check of a fire log. -/
def Instr.checksNoRate : Instr → Prop
  | .checkUserRate .. => False
  | _ => True

/-- What task `k` finds later on, its own steps between two checks included. -/
def Since (k : ℕ) (m m' : Memory Instr World) : Prop :=
  Later m m' ∧ ∃ new, m'.log = new ++ m.log ∧ ∀ e ∈ new, e.1 = k → e.2.checksNoRate

/-- An assertion of task `k` that lasts until its next check. -/
def Lasting (k : ℕ) (A : Memory Instr World → Prop) : Prop :=
  ∀ m m', A m → Since k m m' → A m'

section

variable {h : Host} {op : Op} {k : ℕ} {α β : Type} {m m' : Memory Instr World}
  {A : Memory Instr World → Prop} {Q : α → Memory Instr World → Prop}

theorem since_of_grown (hg : (guardProtocol h).Grown k m m') : Since k m m' := by
  obtain ⟨hl, new, hnew, hothers⟩ := hg
  exact ⟨hl, new, hnew, fun e he hk => absurd hk (hothers e he)⟩

theorem since_after {M : Machine Instr Answer World} {i : Instr} (hi : i.checksNoRate)
    (hl : Later m (m.after M k i)) : Since k m (m.after M k i) := by
  refine ⟨hl, [(k, i)], rfl, fun e he _ => ?_⟩
  obtain rfl := List.mem_singleton.mp he
  exact hi

/-- An assertion about what nobody undoes lasts. -/
theorem Lasting.of_later (hA : ∀ m m', A m → Later m m' → A m') : Lasting k A :=
  fun m m' hm hs => hA m m' hm hs.1

theorem Lasting.and {B : Memory Instr World → Prop} (hA : Lasting k A) (hB : Lasting k B) :
    Lasting k fun m => A m ∧ B m :=
  fun m m' hm hs => ⟨hA m m' hm.1 hs, hB m m' hm.2 hs⟩

/-- One step, taken when `A` still holds. -/
theorem SafeAs.step {i : Instr} {f : Answer i → Act α} (hA : Lasting k A) (hm : A m)
    (hstep : ∀ m', InOrder h m' → Unraced h op k i m' → A m' →
      InOrder h (m'.after (missionMachine h) k i) ∧
      Later m' (m'.after (missionMachine h) k i) ∧
      SafeAs h op k Q (f (worldExec h i m'.state).1) (m'.after (missionMachine h) k i)) :
    SafeAs h op k Q (await i >>= f) m :=
  fun m' hg hi ha _ => hstep m' hi ha (hA m m' hm (since_of_grown hg))

/-- A neutral step keeps what lasts. -/
theorem SafeAs.neutral {i : Instr} {f : Answer i → Act α} (hi : i.isNeutral) (hA : Lasting k A)
    (hm : A m) (hf : ∀ m', InOrder h m' → Unraced h op k i m' → A m' →
      A (m'.after (missionMachine h) k i) →
      SafeAs h op k Q (f (worldExec h i m'.state).1) (m'.after (missionMachine h) k i)) :
    SafeAs h op k Q (await i >>= f) m := by
  refine SafeAs.step hA hm fun m' hord ha hm' => ?_
  obtain ⟨hord', hl⟩ := hord.neutral (k := k) hi
  have hquiet : i.checksNoRate := by
    cases i with
    | checkUserRate => exact hi.elim
    | _ => trivial
  exact ⟨hord', hl, hf m' hord ha hm' (hA _ _ hm' (since_after hquiet hl))⟩

/-- So does a neutral program. -/
theorem SafeAs.of_neutral {p : Act α} {P : α → Prop} (hp : Neutral p P) (hA : Lasting k A)
    (hm : A m) : SafeAs h op k (fun a m => P a ∧ A m) p m := by
  induction p generalizing m with
  | done a => exact ⟨hp, hm⟩
  | act i f ih =>
    exact SafeAs.neutral hp.1 hA hm fun m' _ _ _ hafter => ih _ (hp.2 _ trivial) hafter

/-- Two programs in turn. -/
theorem SafeAs.bind {p : Act α} {f : α → Act β} {P : β → Memory Instr World → Prop}
    (hp : SafeAs h op k Q p m) (hf : ∀ a m, Q a m → SafeAs h op k P (f a) m) :
    SafeAs h op k P (p >>= f) m :=
  Protocol.Safe.bind (hp.mono hf)

/-- What nobody undoes is not undone by the program either. -/
theorem SafeAs.frame {p : Act α} (hp : SafeAs h op k Q p m)
    (hA : ∀ m m', A m → Later m m' → A m') (hm : A m) :
    SafeAs h op k (fun a m => Q a m ∧ A m) p m := by
  induction p generalizing m with
  | done a => exact ⟨hp, hm⟩
  | act i f ih =>
    intro m' hg hi ha hr
    obtain ⟨h₁, h₂, h₃⟩ := hp m' hg hi ha hr
    exact ⟨h₁, h₂, ih _ h₃ (hA _ _ (hA _ _ hm hg.1) h₂)⟩

/-- A neutral program, and then another. -/
theorem SafeAs.after {p : Act α} {f : α → Act β} {P : α → Prop}
    {R : β → Memory Instr World → Prop} (hp : Neutral p P) (hA : Lasting k A) (hm : A m)
    (hf : ∀ a m, P a → A m → SafeAs h op k R (f a) m) : SafeAs h op k R (p >>= f) m :=
  SafeAs.bind (SafeAs.of_neutral hp hA hm) fun a m ha => hf a m ha.1 ha.2

end

/-! ### The checks of a fire -/

section

variable {h : Host} {op : Op} {k : ℕ} {c : Mission} {w w' : World} {m : Memory Instr World}

theorem lasting_fit : Lasting k fun m => Fit m.state c :=
  Lasting.of_later fun _ _ hc hl => hc.later hl.world

/-- A counter of an earlier day may be cleared. -/
theorem Fit.reset (hc : Fit w c) (hstale : dailyStale c w.clock = true) :
    Fit w { c with threads_today := 0 } := by
  refine ⟨hc.limits, hc.listed, fun hlimit => ?_⟩
  have hzero : c.countedOn (day w.clock) = 0 := by
    rw [Mission.countedOn]
    refine if_neg fun hany => ?_
    obtain ⟨last, hlast, hday⟩ := (Option.any_eq_true _ _).mp hany
    rw [dailyStale, hlast] at hstale
    exact (of_decide_eq_true hstale).ne (of_decide_eq_true hday)
  exact ((hc.honest hlimit).trans hzero.le).trans (Nat.zero_le _)

theorem safe_dailyReset (hc : Fit m.state c) :
    SafeAs h op k (fun c' m => Fit m.state c') (dailyReset c) m := by
  rw [dailyReset]
  split
  case isFalse => exact hc
  refine SafeAs.neutral trivial lasting_fit hc fun m₁ _ _ hc₁ hafter => ?_
  dsimp only [worldExec]
  split
  case isFalse => exact hafter
  case isTrue hstale =>
    have hreset := hc₁.reset hstale
    refine SafeAs.step lasting_fit hreset fun m₂ hord₂ _ hc₂ => ?_
    obtain ⟨hord₃, hl⟩ := hord₂.save (k := k) hc₂
    exact ⟨hord₃, hl, hc₂.later hl.world⟩

/-- The listed threads that run become fewer: a record lists only threads that are there. -/
theorem runningIn_later {ids : List ThreadId} (hids : ∀ tid ∈ ids, ∃ t, w.thread? tid = some t)
    (hl : w.Later w') :
    ids.countP (fun tid => (w'.thread? tid).any fun t => !t.state.isTerminal) ≤
      ids.countP fun tid => (w.thread? tid).any fun t => !t.state.isTerminal := by
  refine List.countP_mono_left fun tid htid hrun => ?_
  obtain ⟨t, ht⟩ := hids tid htid
  obtain ⟨t', ht', -, -, hterminal⟩ := hl.threads tid t ht
  rw [ht', Option.any_some] at hrun
  rw [ht, Option.any_some]
  cases hs : t.state.isTerminal with
  | true =>
    rw [hterminal hs] at hrun
    cases hrun
  | false => rfl

/-- The count is no less than the listed threads that still run when it is done. -/
theorem safe_countRunningThreads {ids : List ThreadId}
    (hids : ∀ tid ∈ ids, ∃ t, m.state.thread? tid = some t) :
    SafeAs h op k (fun n m => ids.countP (fun tid =>
      (m.state.thread? tid).any fun t => !t.state.isTerminal) ≤ n) (countRunningThreads ids) m := by
  induction ids generalizing m with
  | nil => exact Nat.zero_le _
  | cons tid rest ih =>
    have hthere : Lasting k fun m => ∀ tid' ∈ tid :: rest, ∃ t, m.state.thread? tid' = some t :=
      Lasting.of_later fun m m' hm hl tid' htid' => by
        obtain ⟨t, ht⟩ := hm tid' htid'
        obtain ⟨t', ht', -⟩ := hl.world.threads tid' t ht
        exact ⟨t', ht'⟩
    refine SafeAs.neutral trivial hthere hids fun m₁ hord _ hm₁ _ => ?_
    -- what is read of the first thread bounds what it is later
    have hrest := (ih (m := m₁.after (missionMachine h) k (.loadThread tid))
      fun tid' htid' => hm₁ tid' (List.mem_cons_of_mem _ htid')).frame
      (A := fun m => m₁.state.Later m.state) (fun _ _ hm hl => hm.trans hl.world)
      (World.Later.refl m₁.state)
    refine SafeAs.bind hrest fun n m₂ ⟨hn, hl⟩ => ?_
    have hfirst : ∀ tid' ∈ [tid], ∃ t, m₁.state.thread? tid' = some t :=
      fun tid' htid' => hm₁ tid' (List.mem_singleton.mp htid' ▸ List.mem_cons_self)
    have hhead := runningIn_later hfirst hl
    rw [List.countP_singleton, List.countP_singleton] at hhead
    change (tid :: rest).countP _ ≤ if (m₁.state.thread? tid).any _ then n + 1 else n
    rw [List.countP_cons]
    split at hhead
    case isTrue hrun =>
      rw [if_pos hrun]
      split at hhead
      · rename_i hread
        rw [if_pos hread]
        exact Nat.add_le_add_right hn 1
      · omega
    case isFalse hrun =>
      rw [if_neg hrun]
      split
      · exact Nat.le_succ_of_le hn
      · exact hn

/-- A copy in the hand of a fire, every check of it passed but the rate. -/
structure Checked (w : World) (c : Mission) : Prop where
  fit : Fit w c
  budget : 0 < c.max_threads_per_day → c.threads_today < c.max_threads_per_day
  room : 0 < c.max_concurrent → w.listedRunning c < c.max_concurrent.toNat

theorem Checked.later (hc : Checked w c) (hl : w.Later w') : Checked w' c :=
  ⟨hc.fit.later hl, hc.budget, fun hlimit =>
    (runningIn_later (fun tid htid => (hc.fit.listed tid htid).imp fun _ => And.left) hl).trans_lt
      (hc.room hlimit)⟩

theorem safe_concurrencyReached (hc : Fit m.state c) :
    SafeAs h op k (fun full m => full = false → 0 < c.max_concurrent →
      m.state.listedRunning c < c.max_concurrent.toNat) (concurrencyReached c) m := by
  rw [concurrencyReached]
  split
  case isFalse hlimit => exact fun _ hlimit' => absurd hlimit' hlimit
  refine SafeAs.bind (safe_countRunningThreads fun tid htid => ?_) fun n m₁ hn hfull _ => ?_
  · exact (hc.listed tid (List.mem_reverse.mp htid)).imp fun _ => And.left
  · rw [List.countP_reverse] at hn
    exact hn.trans_lt (not_le.mp (of_decide_eq_false hfull))

/-- Task `k` was admitted by a check of the user's log when the clock was at `t`. -/
def Admitted (h : Host) (k : ℕ) (user : String) (t : Time) (m : Memory Instr World) : Prop :=
  t ≤ m.state.clock ∧ ∃ new now old s, m.log = new ++ (k, .checkUserRate user now) :: old ∧
    (∀ e ∈ new, e.1 = k → e.2.checksNoRate) ∧
    HasRoom h user t ⟨s, (k, .checkUserRate user now) :: old⟩ ∧
    Later ⟨s, (k, .checkUserRate user now) :: old⟩ m

theorem admitted_of_check {user : String} {t now : Time} {s : World} {old : List (ℕ × Instr)}
    (hroom : HasRoom h user t ⟨s, (k, .checkUserRate user now) :: old⟩) (ht : t ≤ s.clock) :
    ∃ t, Admitted h k user t ⟨s, (k, .checkUserRate user now) :: old⟩ :=
  ⟨t, ht, [], now, old, s, rfl, fun _ he => absurd he List.not_mem_nil, hroom, Later.refl _⟩

theorem lasting_admitted {user : String} {t : Time} : Lasting k (Admitted h k user t) := by
  rintro m m' ⟨ht, new, now, old, s, hlog, hown, hroom, hl⟩ ⟨hl', new', hlog', hown'⟩
  refine ⟨ht.trans hl'.world.clock, new' ++ new, now, old, s, ?_, fun e he => ?_, hroom,
    hl.trans hl'⟩
  · rw [hlog', hlog, List.append_assoc]
  · exact (List.mem_append.mp he).elim (hown' e) (hown e)

theorem safe_checkUserRate {user : String} :
    SafeAs h op k (fun ok m => ok = true → ∃ t, Admitted h k user t m) (checkUserRate user) m := by
  have htrue : Lasting k fun _ => True := fun _ _ hm _ => hm
  rw [checkUserRate]
  refine SafeAs.neutral trivial htrue trivial fun m₁ _ _ _ _ => ?_
  have hclock : Lasting k fun m => m₁.state.clock ≤ m.state.clock :=
    Lasting.of_later fun _ _ hm hl => hm.trans hl.world.clock
  refine SafeAs.step (f := Prog.done) hclock le_rfl fun m₂ hord _ hle => ?_
  obtain ⟨hord', hl, hroom⟩ := @InOrder.check h m₂ k hord user m₁.state.clock hle
  refine ⟨hord', hl, fun hok => ?_⟩
  exact admitted_of_check (hroom hok) le_rfl

/-- **At the record nothing has come between, so there is still room.** -/
theorem Admitted.hasRoom {user : String} {t : Time} (ha : Admitted h k user t m)
    (hn : NotOvertaken k user m.log) : HasRoom h user t m := by
  obtain ⟨-, new, now, old, s, hlog, hown, hroom, hl⟩ := ha
  have hnone := hn new now old hlog fun e he now' heq => by
    subst heq
    exact hown _ he rfl
  refine hroom.later hl ?_
  have hm : m = ⟨m.state, new ++ (k, .checkUserRate user now) :: old⟩ := by
    rw [← hlog]
  rw [hm]
  exact fires_append hnone

end

/-! ### What a fire and an outcome write -/

section

variable {h : Host} {op : Op} {k : ℕ} {c : Mission} {w w' : World} {m : Memory Instr World}
  {tid : ThreadId} {t : Time}

/-- Only the accounts matter. -/
theorem Fit.congr {a : Mission} (hc : Fit w c) (hid : a.id = c.id)
    (hlimits : a.limits = c.limits) (hhistory : a.thread_history = c.thread_history)
    (htoday : a.threads_today = c.threads_today) (hlast : a.last_fire_at = c.last_fire_at) :
    Fit w a := by
  refine ⟨?_, ?_, fun hlimit => ?_⟩
  · rw [hid, hlimits]
    exact hc.limits
  · rw [hhistory]
    exact hc.listed
  · have hmax : a.max_threads_per_day = c.max_threads_per_day := congrArg Prod.fst hlimits
    rw [World.listedOn, hhistory, Mission.countedOn, htoday, hlast]
    exact hc.honest (hmax ▸ hlimit)

theorem countedOn_le (c : Mission) (d : ℤ) : c.countedOn d ≤ c.threads_today.toNat := by
  rw [Mission.countedOn]
  split
  · exact le_rfl
  · exact Nat.zero_le _

/-- One more of each, under a ceiling. -/
theorem min_add_le {n x a b ceiling : ℕ} (h : min n ceiling ≤ b)
    (h' : min (b + 1) ceiling ≤ a) (hx : x ≤ 1) : min (n + x) ceiling ≤ a := by
  omega

/-- A thread spawned by `t` is put into a record that dates itself to `t`. What must hold of
the record: its counter goes up by one, and none of its threads is of a later day than `t`. -/
theorem Fit.listing {a : Mission} (hc : Fit w c) (hw : Watched w tid t) (hid : a.id = c.id)
    (hlimits : a.limits = c.limits) (hhistory : a.thread_history = c.thread_history ++ [tid])
    (hlast : a.last_fire_at = some t)
    (htoday : 0 < c.max_threads_per_day →
      min (c.threads_today.toNat + 1) (2 ^ 32 - 1) ≤ a.threads_today.toNat)
    (hday : 0 < c.max_threads_per_day → day t < day w.clock → w.listedOn c (day w.clock) = 0) :
    Fit w a := by
  obtain ⟨th, hth, hcreated, hclock⟩ := hw
  refine ⟨by rw [hid, hlimits]; exact hc.limits, fun tid' htid' => ?_, fun hlimit => ?_⟩
  · rw [hhistory] at htid'
    rcases List.mem_append.mp htid' with htid' | htid'
    · exact hc.listed tid' htid'
    · obtain rfl := List.mem_singleton.mp htid'
      exact ⟨th, hth, hcreated.trans hclock⟩
  have hmax : a.max_threads_per_day = c.max_threads_per_day := congrArg Prod.fst hlimits
  rw [hmax] at hlimit
  have hhonest := (hc.honest hlimit).trans (countedOn_le c _)
  have hadded := htoday hlimit
  have hlisted : w.listedOn a (day w.clock) = w.listedOn c (day w.clock) +
      if day th.created_at = day w.clock then 1 else 0 := by
    rw [World.listedOn, hhistory, List.countP_append, List.countP_singleton, hth, Option.any_some,
      World.listedOn]
    simp only [decide_eq_true_eq]
  rw [hlisted]
  rcases (day_mono hclock).eq_or_lt with hsame | hlater
  · have hcounted : a.countedOn (day w.clock) = a.threads_today.toNat := by
      rw [Mission.countedOn, hlast, Option.any_some, hsame]
      exact if_pos (decide_eq_true rfl)
    rw [hcounted]
    refine min_add_le hhonest hadded ?_
    split
    · exact le_rfl
    · exact Nat.zero_le _
  · -- a new day has begun since: nothing listed is of it
    have hthday := ((day_mono hcreated).trans_lt hlater).ne
    rw [hday hlimit hlater, if_neg hthday]
    exact Nat.zero_le _

/-- The copy a fire saves. -/
theorem Fit.fired {a : Mission} {now : Time} {payload : Option Json} (hc : Fit w c)
    (hold : ∀ tid' ∈ c.thread_history, ∃ th, w.thread? tid' = some th ∧ th.created_at ≤ t)
    (hw : Watched w tid t)
    (hbudget : 0 < c.max_threads_per_day → c.threads_today < c.max_threads_per_day)
    (hsched : 0 < c.max_threads_per_day → c.schedulable h = true)
    (ha : (∃ next, a = { c.recordThread tid now with
        threads_today := c.threads_today + 1, last_trigger_payload := payload
        next_fire_at := next, last_fire_at := some t }) ∨
      (c.schedulable h = false ∧ a = { c.recordThread tid now with
        threads_today := c.threads_today + 1, last_trigger_payload := payload })) :
    Fit w a := by
  obtain ⟨next, rfl⟩ | ⟨hnot, rfl⟩ := ha
  · refine hc.listing hw rfl rfl rfl rfl (fun hlimit => ?_) fun _ hday => ?_
    · have hlt := UInt32.lt_iff_toNat_lt.mp (hbudget hlimit)
      have hmax := c.max_threads_per_day.toNat_lt
      have hone : (1 : UInt32).toNat = 1 := rfl
      rw [UInt32.toNat_add, hone, Nat.mod_eq_of_lt (by omega)]
      exact Nat.min_le_left _ _
    · exact listedOn_eq_zero hold hday
  · -- the schedule stood still, so the mission has no daily limit
    have hnolimit : ¬ 0 < c.max_threads_per_day := fun hlimit => by
      rw [hsched hlimit] at hnot
      cases hnot
    refine ⟨hc.limits, fun tid' htid' => ?_, fun hlimit => absurd hlimit hnolimit⟩
    rcases List.mem_append.mp htid' with htid' | htid'
    · exact hc.listed tid' htid'
    · obtain rfl := List.mem_singleton.mp htid'
      obtain ⟨th, hth, hcreated, hclock⟩ := hw
      exact ⟨th, hth, hcreated.trans hclock⟩

/-- The record an outcome processor makes of one that lacks its thread. -/
theorem Fit.reconciled {now : Time} {next : Option Time} (hc : Fit w c)
    (hget : w.missions.get? c.id = some c) (hout : tid ∉ c.thread_history)
    (hw : Watched w tid t) (hn : NotBackdated w c.id tid t) :
    Fit w { c with
      thread_history := c.thread_history ++ [tid], updated_at := now
      threads_today := saturatingSucc c.threads_today, last_fire_at := some t
      next_fire_at := next } := by
  refine hc.listing hw rfl rfl rfl rfl (fun _ => ?_) fun hlimit hday => ?_
  · rw [toNat_saturatingSucc]
  · have hzero : c.countedOn (day w.clock) = 0 := by
      rw [Mission.countedOn]
      refine if_neg fun hany => ?_
      obtain ⟨last, hlast, heq⟩ := (Option.any_eq_true _ _).mp hany
      have hle := hn c hget hlimit hout last hlast
      exact (hle.trans_lt hday).ne (of_decide_eq_true heq)
    have hhonest := hc.honest hlimit
    omega

end

/-! ### The operations -/

section

variable {h : Host} {op : Op} {k : ℕ} {c : Mission} {m : Memory Instr World}

/-- What a fire knows between its spawn and its last step: its copy, the thread spawned by
`t`, and the check it was admitted by. -/
structure Fired (h : Host) (k : ℕ) (c : Mission) (tid : ThreadId) (t t₀ : Time)
    (m : Memory Instr World) : Prop where
  fit : Fit m.state c
  before : ∀ tid' ∈ c.thread_history, ∃ th, m.state.thread? tid' = some th ∧ th.created_at ≤ t
  watched : Watched m.state tid t
  admitted : Admitted h k c.user_id t₀ m

theorem lasting_fired {tid : ThreadId} {t t₀ : Time} : Lasting k (Fired h k c tid t t₀) := by
  intro m m' hf hs
  refine ⟨hf.fit.later hs.1.world, fun tid' htid' => ?_, hf.watched.later hs.1.world,
    lasting_admitted m m' hf.admitted hs⟩
  obtain ⟨th, hth, hle⟩ := hf.before tid' htid'
  obtain ⟨th', hth', -, hcreated, -⟩ := hs.1.world.threads tid' th hth
  exact ⟨th', hth', hcreated.trans_le hle⟩

/-- The last step of a fire: it is recorded for its user. -/
theorem safe_recordUserRate {user : String} {t : Time} (ha : Admitted h k user t m) :
    SafeAs h op k (fun _ _ => True) (recordUserRate user) m := by
  rw [recordUserRate]
  refine SafeAs.neutral trivial lasting_admitted ha fun m₁ _ _ ha₁ hafter => ?_
  have hclock : Lasting k fun m => Admitted h k user t m ∧ t ≤ m₁.state.clock :=
    fun m m' hm hs => ⟨lasting_admitted m m' hm.1 hs, hm.2⟩
  refine SafeAs.step (f := Prog.done) hclock ⟨hafter, ha₁.1⟩ fun m₂ hord hn ha₂ => ?_
  obtain ⟨hord', hl⟩ := hord.record (k := k) (ha₂.1.hasRoom hn) ha₂.2
  exact ⟨hord', hl, trivial⟩

theorem safe_recordFire {tid : ThreadId} {payload : Option Json} {t₀ : Time}
    (hbudget : 0 < c.max_threads_per_day → c.threads_today < c.max_threads_per_day)
    (hsched : 0 < c.max_threads_per_day → c.schedulable h = true)
    (hf : Fit m.state c ∧ Watched m.state tid m.state.clock ∧ Admitted h k c.user_id t₀ m) :
    SafeAs h op k (fun _ _ => True) (recordFire h c tid payload) m := by
  have hspawned : Lasting k fun m => Fit m.state c ∧ Watched m.state tid m.state.clock ∧
      Admitted h k c.user_id t₀ m := by
    rintro m m' ⟨hfit, ⟨th, hth, hle, -⟩, hadm⟩ hs
    obtain ⟨th', hth', -, hcreated, -⟩ := hs.1.world.threads tid th hth
    exact ⟨hfit.later hs.1.world,
      ⟨th', hth', (hcreated.trans_le hle).trans hs.1.world.clock, le_rfl⟩,
      lasting_admitted m m' hadm hs⟩
  refine SafeAs.neutral trivial hspawned hf fun m₁ _ _ hf₁ hafter => ?_
  -- the instant of the fire
  have hfired : Fired h k c tid m₁.state.clock t₀
      (m₁.after (missionMachine h) k .now) :=
    ⟨hf₁.1, hf₁.1.listed, hf₁.2.1, hafter.2.2⟩
  refine SafeAs.step lasting_fired hfired fun m₂ hord₂ _ hf₂ => ?_
  obtain ⟨hord₂', hl₂⟩ := @InOrder.watch h m₂ k hord₂ c.id tid _ hf₂.watched
  refine ⟨hord₂', hl₂, ?_⟩
  have hf₂' := lasting_fired _ _ hf₂
    (since_after (i := .spawnOutcomeWatcher c.id tid m₁.state.clock) trivial hl₂)
  refine SafeAs.neutral trivial lasting_fired hf₂' fun m₃ _ _ _ hf₃ => ?_
  refine SafeAs.after silent_advanced.neutral lasting_fired hf₃ fun a m₄ ha hf₄ => ?_
  refine SafeAs.neutral trivial lasting_fired hf₄ fun m₅ _ _ _ hf₅ => ?_
  refine SafeAs.step lasting_fired hf₅ fun m₆ hord₆ _ hf₆ => ?_
  have hfit : Fit m₆.state a :=
    hf₆.fit.fired hf₆.before hf₆.watched hbudget hsched ha
  obtain ⟨hord₆', hl₆⟩ := hord₆.save (k := k) hfit
  refine ⟨hord₆', hl₆, ?_⟩
  have hf₆' := lasting_fired _ _ hf₆ (since_after (i := .saveMission a) trivial hl₆)
  exact safe_recordUserRate hf₆'.admitted

/-- A copy every check has admitted. -/
def Ready (h : Host) (k : ℕ) (c : Mission) (t₀ : Time) (m : Memory Instr World) : Prop :=
  Checked m.state c ∧ Admitted h k c.user_id t₀ m

theorem lasting_ready {t₀ : Time} : Lasting k (Ready h k c t₀) :=
  Lasting.and (Lasting.of_later fun _ _ hc hl => hc.later hl.world) lasting_admitted

theorem safe_spawnFire {user : String} {payload : Option Json} {t₀ : Time}
    (hc : Ready h k c t₀ m) :
    SafeAs h op k (fun _ _ => True) (spawnFire h c user payload) m := by
  rw [spawnFire]
  refine SafeAs.after (silent_contextBlocks _).neutral lasting_ready hc fun _ m₁ _ hc₁ => ?_
  refine SafeAs.neutral trivial lasting_ready hc₁ fun m₂ _ _ _ hc₂ => ?_
  refine SafeAs.step lasting_ready hc₂ fun m₃ hord hall hc₃ => ?_
  obtain ⟨hord', hl⟩ := hord.spawn (k := k) hc₃.1.fit hall hc₃.1.budget hc₃.1.room
  refine ⟨hord', hl, ?_⟩
  have hready := lasting_ready _ _ hc₃ (since_after (i := .spawnThread c _ user) trivial hl)
  split
  case h_1 => exact trivial
  case h_2 tid htid =>
    obtain ⟨th, hstate, hcreated, -, -, hanswer⟩ := @exec_spawnThread h c m₃.state _ user
    obtain rfl := hanswer tid htid
    refine SafeAs.bind (safe_recordFire hc₃.1.budget (fun hlimit => (hall.1 hlimit).1)
      ⟨hready.1.fit, ⟨th, ?_, ?_, le_rfl⟩, hready.2⟩) fun _ _ _ => trivial
    · rw [Memory.state_after, exec_missionMachine, hstate]
      exact List.getElem?_concat_length
    · rw [Memory.state_after, exec_missionMachine, hstate]
      exact hcreated.le

theorem safe_checkedFire {user : String} {payload : Option Json} (hc : Fit m.state c) :
    SafeAs h op k (fun _ _ => True) (checkedFire h c user payload) m := by
  rw [checkedFire]
  refine SafeAs.bind (safe_dailyReset hc) fun c' m₁ hc' => ?_
  split
  · exact trivial
  case isFalse hbudget =>
  have hleft : 0 < c'.max_threads_per_day → c'.threads_today < c'.max_threads_per_day := by
    intro hlimit
    by_contra hge
    refine hbudget ?_
    rw [budgetExhausted, Bool.and_eq_true, decide_eq_true_eq, decide_eq_true_eq]
    exact ⟨hlimit, UInt32.not_lt.mp hge⟩
  refine SafeAs.after silent_onCooldown.neutral lasting_fit hc' fun cooling m₂ _ hc₂ => ?_
  split
  · exact trivial
  refine SafeAs.bind ((safe_concurrencyReached hc₂).frame
    (fun _ _ hc hl => Fit.later hc hl.world) hc₂) fun full m₃ ⟨hroom, hc₃⟩ => ?_
  split
  · exact trivial
  case isFalse hfull =>
  have hchecked : Checked m₃.state c' := ⟨hc₃, hleft, hroom (by simpa using hfull)⟩
  refine SafeAs.bind (safe_checkUserRate.frame
    (fun _ _ hc hl => Checked.later hc hl.world) hchecked) fun rate_ok m₄ ⟨hadm, hc₄⟩ => ?_
  split
  · exact trivial
  case isFalse hrate =>
  obtain ⟨t₀, hadm⟩ := hadm (by simpa using hrate)
  refine SafeAs.neutral trivial lasting_ready ⟨hc₄, hadm⟩ fun m₅ _ _ _ hc₅ => ?_
  split
  · exact trivial
  · exact safe_spawnFire hc₅

theorem safe_fireMission {id : MissionId} {user : String} {payload : Option Json} :
    SafeAs h op k (fun _ _ => True) (fireMission h id user payload) m := by
  have htrue : Lasting k fun _ => True := fun _ _ hm _ => hm
  refine SafeAs.neutral trivial htrue trivial fun m₁ hord _ _ _ => ?_
  dsimp only [worldExec]
  split
  · exact trivial
  case h_2 c hget =>
  split
  · exact trivial
  split
  · exact trivial
  · exact safe_checkedFire (hord.records c (KeyedStore.mem_of_get? hget))

theorem lasting_true : Lasting k fun _ => True := fun _ _ hm _ => hm

theorem safe_tick : SafeAs h op k (fun _ _ => True) (tick h) m := by
  have hloop : ∀ now ids m, SafeAs h op k (fun _ _ => True) (tickLoop h now ids) m := by
    intro now ids
    induction ids with
    | nil => exact fun _ => trivial
    | cons mid rest ih =>
      intro m
      refine SafeAs.neutral trivial lasting_true trivial fun m₁ _ _ _ _ => ?_
      dsimp only [worldExec]
      split
      · exact ih _
      split
      case isFalse => exact ih _
      refine SafeAs.neutral trivial lasting_true trivial fun m₂ _ _ _ _ => ?_
      split
      · exact ih _
      refine SafeAs.bind safe_fireMission fun fired m₃ _ => ?_
      split
      · exact SafeAs.bind (ih _) fun _ _ _ => trivial
      · exact ih _
  refine SafeAs.neutral trivial lasting_true trivial fun m₁ _ _ _ _ =>
    SafeAs.neutral trivial lasting_true trivial fun m₂ _ _ _ _ =>
    SafeAs.neutral trivial lasting_true trivial fun m₃ _ _ _ _ => ?_
  exact SafeAs.bind (hloop _ _ _) fun _ _ _ => trivial

theorem safe_fireOnLoop {fires : Mission → Act Bool} (hf : ∀ c, Neutral (fires c))
    {user : String} {payload : Option Json} (ids : List MissionId) (m : Memory Instr World) :
    SafeAs h op k (fun _ _ => True) (fireOnLoop h fires user payload ids) m := by
  induction ids generalizing m with
  | nil => trivial
  | cons mid rest ih =>
    refine SafeAs.neutral trivial lasting_true trivial fun m₁ _ _ _ _ => ?_
    dsimp only [worldExec]
    split
    · exact ih _
    split
    · exact ih _
    refine SafeAs.after (hf _) lasting_true trivial fun hit m₂ _ _ => ?_
    split
    · exact ih _
    refine SafeAs.after neutral_dedupEvent lasting_true trivial fun seen m₃ _ _ => ?_
    split
    · exact ih _
    refine SafeAs.bind safe_fireMission fun fired m₄ _ => ?_
    split
    · exact trivial
    refine SafeAs.bind (ih _) fun spawned m₅ _ => ?_
    split <;> exact trivial

/-- What an outcome leaves alone: everything but the results. -/
theorem applyOutcome_accounts {lowercase : String → String} {outcome : ThreadOutcome}
    {a : Mission} (ha : applyOutcome lowercase outcome c = some a) :
    a.id = c.id ∧ a.limits = c.limits ∧ a.thread_history = c.thread_history ∧
      a.threads_today = c.threads_today ∧ a.last_fire_at = c.last_fire_at := by
  rw [applyOutcome.eq_def] at ha
  split at ha
  · dsimp only at ha
    split at ha
    · cases ha
    · obtain rfl := Option.some.inj ha
      exact ⟨rfl, rfl, rfl, rfl, rfl⟩
  all_goals
    obtain rfl := Option.some.inj ha
    exact ⟨rfl, rfl, rfl, rfl, rfl⟩

theorem safe_processMissionOutcome {id : MissionId} {tid : ThreadId} {outcome : ThreadOutcome}
    {t : Time} (hw : Watched m.state tid t) :
    SafeAs h (.processOutcome id tid outcome t) k (fun _ _ => True)
      (processMissionOutcome h id tid outcome t) m := by
  have hwatched : Lasting k fun m => Watched m.state tid t :=
    Lasting.of_later fun _ _ hm hl => hm.later hl.world
  refine SafeAs.neutral trivial hwatched hw fun m₁ hord hdated hw₁ _ => ?_
  dsimp only [worldExec]
  split
  · exact trivial
  case h_2 c hget =>
  obtain ⟨hmem, rfl⟩ := KeyedStore.get?_eq_some_iff.mp hget
  -- whatever reconciling makes of the record, it is fit
  have hreconciled : ∀ a, (tid ∈ c.thread_history ∧ a = c) ∨
      (tid ∉ c.thread_history ∧ ∃ now next, a = { c with
        thread_history := c.thread_history ++ [tid], updated_at := now
        threads_today := saturatingSucc c.threads_today, last_fire_at := some t
        next_fire_at := next }) → Fit m₁.state a := by
    rintro a (⟨-, rfl⟩ | ⟨hout, now, next, rfl⟩)
    · exact hord.records a hmem
    · exact (hord.records c hmem).reconciled hget hout hw₁ hdated
  have hlasting : Lasting k fun m => ∀ a, (tid ∈ c.thread_history ∧ a = c) ∨
      (tid ∉ c.thread_history ∧ ∃ now next, a = { c with
        thread_history := c.thread_history ++ [tid], updated_at := now
        threads_today := saturatingSucc c.threads_today, last_fire_at := some t
        next_fire_at := next }) → Fit m.state a :=
    Lasting.of_later fun _ _ hm hl a ha => (hm a ha).later hl.world
  refine SafeAs.after silent_reconcile.neutral hlasting hreconciled fun a m₂ ha hm₂ => ?_
  have hfit := hm₂ a ha
  split
  · exact trivial
  case h_2 b hb =>
  obtain ⟨hid, hlimits, hhistory, htoday, hlast⟩ := applyOutcome_accounts hb
  have hfit' : Fit m₂.state b := hfit.congr hid hlimits hhistory htoday hlast
  refine SafeAs.after silent_processOutputs.neutral lasting_fit hfit' fun _ m₃ _ hm₃ =>
    SafeAs.after silent_notifyOutcome.neutral lasting_fit hm₃ fun _ m₄ _ hm₄ =>
    SafeAs.neutral trivial lasting_fit hm₄ fun m₅ _ _ _ hm₅ =>
    SafeAs.step lasting_fit hm₅ fun m₆ hord₆ _ hm₆ => ?_
  obtain ⟨hord', hl⟩ := hord₆.save (k := k)
    (hm₆.congr (a := { b with updated_at := m₅.state.clock }) rfl rfl rfl rfl rfl)
  exact ⟨hord', hl, trivial⟩

/-- The operations that fire missions and take their outcomes. -/
def Op.FiresOrRecords : Op → Prop
  | .fireMission .. | .tick | .fireOnSystemEvent .. | .fireOnMessageEvent .. | .fireOnWebhook ..
  | .processOutcome .. => True
  | _ => False

/-- **Each such operation is safe from its start.** -/
theorem safe_code (hop : op.FiresOrRecords)
    (hw : ∀ id tid outcome t, op = .processOutcome id tid outcome t → Watched m.state tid t) :
    SafeAs h op k (fun _ _ => True) (op.code h) m := by
  cases op with
  | fireMission => exact SafeAs.bind safe_fireMission fun _ _ _ => trivial
  | tick => exact SafeAs.bind safe_tick fun _ _ _ => trivial
  | fireOnSystemEvent =>
    exact SafeAs.bind (SafeAs.neutral trivial lasting_true trivial fun m₁ _ _ _ _ =>
      safe_fireOnLoop (fun _ => silent_systemEventMatches.neutral) _ _) fun _ _ _ => trivial
  | fireOnMessageEvent =>
    exact SafeAs.bind (SafeAs.neutral trivial lasting_true trivial fun m₁ _ _ _ _ =>
      safe_fireOnLoop (fun _ => silent_messageMatches.neutral) _ _) fun _ _ _ => trivial
  | fireOnWebhook =>
    exact SafeAs.bind (SafeAs.neutral trivial lasting_true trivial fun m₁ _ _ _ _ =>
      safe_fireOnLoop (fun _ => silent_webhookMatches.neutral) _ _) fun _ _ _ => trivial
  | processOutcome id tid outcome t =>
    exact SafeAs.bind (safe_processMissionOutcome (hw _ _ _ _ rfl)) fun _ _ _ => trivial
  | _ => exact hop.elim

end

/-! ### The limits -/

/-- No mission has more threads of one day, or running, than its limits say, and no window of
the rate limit has more fires of a user than it allows. -/
structure LimitsKept (h : Host) (c : Conf Op Instr Answer World Done) : Prop where
  daily : ∀ r ∈ c.state.missions, 0 < r.max_threads_per_day →
    ∀ d, c.state.spawnedOn r.id d ≤ r.max_threads_per_day.toNat
  concurrent : ∀ r ∈ c.state.missions, 0 < r.max_concurrent →
    c.state.running r.id ≤ r.max_concurrent.toNat
  rate : ∀ (user : String) (a : Time), (fires user c.toMemory).countP
    (fun ts : Time => a ≤ ts && ts ≤ a + h.rate_limit.window) ≤ h.rate_limit.max_fires.toNat

/-- The runs in question: any number of fires and outcomes, no step of which acts on what
others have overtaken. -/
def Guarded (h : Host) (c : Conf Op Instr Answer World Done) : Move Op Outside → Prop
  | .step k => ∀ op i f, c.tasks[k]? = some ⟨op, .act i f⟩ → Unraced h op k i c.toMemory
  | .start op => op.FiresOrRecords
  | .env _ => True

/-- **The limits hold in every state of every such run.** -/
theorem limits_kept {h : Host} {w : World} {c : Conf Op Instr Answer World Done}
    (hw : InOrder h ⟨w, []⟩) (hrun : (missionSystem h).Reach (Guarded h) (Conf.idle w) c) :
    LimitsKept h c := by
  have h₀ : (guardProtocol h).inv ⟨w, []⟩ := hw
  have hsafe := System.Reach.safe (P := guardProtocol h) (Q := fun _ _ _ _ => True)
    (fun _ _ _ _ _ _ _ => trivial) (fun c k op i f hok hk => hok op i f hk)
    (fun c e s hord _ he => ?_) (fun c op s hord hok hs => ?_) h₀ hrun
  · obtain ⟨hord, -⟩ := hsafe
    exact ⟨hord.daily, hord.concurrent, fun user a => (hord.rate user).window a⟩
  · rcases e with now | ⟨id, state⟩
    · dsimp only [missionSystem] at he
      split at he
      case isFalse => cases he
      case isTrue hnow =>
        obtain rfl := Option.some.inj he
        exact InOrder.clock hord hnow
    · exact InOrder.moveThread hord he
  · obtain ⟨hord', hl, hwatched⟩ := InOrder.start hord hs
    exact ⟨hord', hl, fun k => safe_code hok hwatched⟩

/-- A store nothing has been fired from is in order. -/
theorem inOrder_unfired {h : Host} {w : World} (hthreads : w.threads = [])
    (hwatchers : w.watchers = []) (hlog : ∀ user, w.user_fire_log user = [])
    (hmissions : ∀ r ∈ w.missions, r.thread_history = []) : InOrder h ⟨w, []⟩ := by
  have hspawned : ∀ id d, w.spawnedOn id d = 0 := fun id d => by rw [World.spawnedOn, hthreads]; rfl
  have hrunning : ∀ id, w.running id = 0 := fun id => by rw [World.running, hthreads]; rfl
  refine ⟨fun r hr => ⟨⟨r, KeyedStore.get?_key hr, rfl⟩, ?_, fun _ => ?_⟩, ?_, ?_, ?_, ?_, ?_⟩
  · rw [hmissions r hr]
    exact fun _ hin => absurd hin List.not_mem_nil
  · rw [World.listedOn, hmissions r hr]
    exact Nat.zero_le _
  · rw [hthreads]
    exact fun _ hin => absurd hin List.not_mem_nil
  · rw [hwatchers]
    exact fun _ hin => absurd hin List.not_mem_nil
  · intro r _ _ d
    rw [hspawned]
    exact Nat.zero_le _
  · intro r _ _
    rw [hrunning]
    exact Nat.zero_le _
  · intro user
    refine ⟨⟨[], (hlog user).symm, fun _ hin => absurd hin List.not_mem_nil⟩, ?_, fun a => ?_⟩
    · rw [hlog]
      exact Nat.zero_le _
    · exact Nat.zero_le _

/-- A host with one fire an hour, and a mission with one thread a day and at a time. -/
def tightHost : Host := { plainHost with rate_limit := ⟨1, 3600000000000⟩ }

def tightWorld : World :=
  (World.withMission .manual).call tightHost
    (.op (.updateMission ⟨1⟩ "ada" { max_threads_per_day := some 1, max_concurrent := some 1 }))

theorem inOrder_tightWorld : InOrder tightHost ⟨tightWorld, []⟩ := by
  refine inOrder_unfired rfl rfl (fun _ => rfl) fun r hr => ?_
  obtain rfl := List.mem_singleton.mp hr
  rfl

/-- What the next step of a task has to meet. -/
theorem guarded_step {h : Host} {c : Conf Op Instr Answer World Done} {k : ℕ} {op : Op}
    {i : Instr} {f : Answer i → Act Done} (hk : c.tasks[k]? = some ⟨op, .act i f⟩)
    (hu : Unraced h op k i c.toMemory) : Guarded h c (.step k) := by
  intro op' i' f' hk'
  obtain ⟨rfl, hp⟩ := Task.mk.inj (Option.some.inj (hk.symm.trans hk'))
  obtain ⟨rfl, -⟩ := Prog.act.inj hp
  exact hu

theorem listsAll_of_no_threads {h : Host} {w : World} {c : Mission} (hw : w.threads = [])
    (hs : c.schedulable h = true) : ListsAll h w c := by
  have hnone : ∀ tid t, w.thread? tid ≠ some t := by
    intro tid t ht
    rw [World.thread?, hw] at ht
    cases ht
  exact ⟨fun _ => ⟨hs, fun tid t ht => absurd ht (hnone tid t)⟩,
    fun _ tid t ht => absurd ht (hnone tid t)⟩

theorem notOvertaken_of_none {k : ℕ} {user : String} {log : List (ℕ × Instr)}
    (hlog : log.Forall fun e => e.2.recordsNoFire) : NotOvertaken k user log := by
  rintro new t old rfl - e he ts heq
  have hnone := List.forall_iff_forall_mem.mp hlog e (List.mem_append_left _ he)
  rw [heq] at hnone
  exact hnone

/-- Two fires, of which the second loads the mission when the first has been saved with it, and is
over before the first is recorded. -/
def twoFires : List (Move Op Outside) :=
  [.start (.fireMission ⟨1⟩ "ada" none), .start (.fireMission ⟨1⟩ "ada" none)] ++
    List.replicate 11 (.step 0) ++ [.step 1, .step 0, .step 1, .step 0]

theorem limits_kept_two_fires : ∃ c,
    (missionSystem tightHost).play (Conf.idle tightWorld) twoFires = some c ∧
      c.state.spawnedOn ⟨1⟩ 0 = 1 ∧ LimitsKept tightHost c := by
  have hallowed : (missionSystem tightHost).Allowed (Guarded tightHost) (Conf.idle tightWorld)
      twoFires := by
    have hrecord : ∀ log : List (ℕ × Instr), log.Forall (fun e => e.2.recordsNoFire) →
        NotOvertaken 0 "ada" log := fun _ => notOvertaken_of_none
    exact ⟨trivial, trivial, guarded_step rfl trivial, guarded_step rfl trivial,
      guarded_step rfl trivial, guarded_step rfl trivial, guarded_step rfl trivial,
      guarded_step rfl (listsAll_of_no_threads rfl rfl),
      guarded_step rfl trivial, guarded_step rfl trivial, guarded_step rfl trivial,
      guarded_step rfl trivial, guarded_step rfl trivial, guarded_step rfl trivial,
      guarded_step rfl trivial, guarded_step rfl trivial,
      guarded_step rfl (hrecord _ ⟨trivial, trivial, trivial, trivial, trivial, trivial, trivial,
        trivial, trivial, trivial, trivial, trivial, trivial, trivial⟩), trivial⟩
  exact ⟨_, rfl, rfl, limits_kept inOrder_tightWorld (System.Reach.init.of_play hallowed rfl)⟩

/-- **Two fires that both pass the checks before either has spawned** break all three limits. -/
theorem two_fires_break_limits : ∃ c,
    (missionSystem tightHost).play (Conf.idle tightWorld)
      ([.start (.fireMission ⟨1⟩ "ada" none), .start (.fireMission ⟨1⟩ "ada" none)] ++
        List.replicate 5 (.step 0) ++ List.replicate 5 (.step 1) ++ List.replicate 8 (.step 0) ++
        List.replicate 8 (.step 1)) = some c ∧
      (c.state.missions.get? ⟨1⟩).map Mission.limits = some (1, 1) ∧
      c.state.spawnedOn ⟨1⟩ 0 = 2 ∧ c.state.running ⟨1⟩ = 2 ∧
      fires "ada" c.toMemory = [0, 0] ∧ tightHost.rate_limit.max_fires = 1 ∧
      ¬ LimitsKept tightHost c := by
  refine ⟨_, rfl, rfl, rfl, rfl, rfl, rfl, fun hkept => ?_⟩
  have htwo := hkept.rate "ada" 0
  revert htwo
  decide

end T3Claw
