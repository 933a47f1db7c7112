import T3Claw.Llm.Failover

/-!
# Who served the call

What a task reads after a call belongs to the provider that served it, as long as the task is
not overtaken: the last success of all is of a provider that gives the reader the same answer,
and no binding of an earlier call is left when the name is read after a failed one.

Both are told by the log: which provider was last stored (`lastServed`), how the last call of a
task ended (`outcomeOf`) and what is bound to it (`boundOf`). The state agrees with the log
(`Recorded`), so a reader that passes the condition reports what it should.
-/

namespace T3Claw.Llm

open Conc

section

variable {Cost Request Response : Type} {n : ℕ}

/-- Who did what in a failover provider. -/
abbrev FailoverLog (Cost Request : Type) (n : ℕ) : Type := List (ℕ × FailoverInstr Cost Request n)

namespace FailoverInstr

/-- The provider a step stores. -/
def stored? : FailoverInstr Cost Request n → Option (Fin n)
  | storeLastUsed i => some i
  | _ => none

/-- How a call ends in a step: served by a provider, or not at all. -/
def ending? : FailoverInstr Cost Request n → Option (Option (Fin n))
  | bind _ i => some (some i)
  | failed => some none
  | _ => none

/-- What a step leaves bound to its task. -/
def binding? : FailoverInstr Cost Request n → Option (Option (Fin n))
  | bind _ i => some (some i)
  | take _ => some none
  | _ => none

/-- What a step reports: the reader, the reading, and whether it is of a binding. -/
def report? : FailoverInstr Cost Request n → Option (Reader × Reading Cost × Bool)
  | report reader reading bound => some (reader, reading, bound)
  | _ => none

end FailoverInstr

/-- The provider that served the last success of all. -/
def lastServed (first : Fin n) (log : FailoverLog Cost Request n) : Fin n :=
  (log.findSome? fun e => e.2.stored?).getD first

/-- How the last call of a task ended. -/
def outcomeOf (k : ℕ) (log : FailoverLog Cost Request n) : Option (Option (Fin n)) :=
  log.findSome? fun e => if e.1 = k then e.2.ending? else none

/-- What is bound to a task. -/
def boundOf (k : ℕ) (log : FailoverLog Cost Request n) : Option (Fin n) :=
  (log.findSome? fun e => if e.1 = k then e.2.binding? else none).getD none

variable (h : FailoverProvider Cost)

/-- A report is what the provider that served the task's last call answers, and after a failed
call it is not of something that was bound before. -/
def Fits (k : ℕ) (log : FailoverLog Cost Request h.size) (report : Reader × Reading Cost × Bool) :
    Prop :=
  (∀ outcome ∈ outcomeOf k log, ∀ p ∈ outcome, report.2.1 = (h.provider p).read report.1) ∧
    (outcomeOf k log = some none → report.2.2 = false)

/-- Every report has been so. -/
def Attributed : FailoverLog Cost Request h.size → Prop
  | [] => True
  | (k, i) :: log => (∀ report ∈ i.report?, Fits h k log report) ∧ Attributed log

instance Attributed.decidable [DecidableEq Cost] :
    ∀ log : FailoverLog Cost Request h.size, Decidable (Attributed h log)
  | [] => .isTrue trivial
  | (k, i) :: log =>
    have := Attributed.decidable log
    inferInstanceAs (Decidable ((∀ report ∈ i.report?,
      (∀ outcome ∈ outcomeOf k log, ∀ p ∈ outcome, report.2.1 = (h.provider p).read report.1) ∧
        (outcomeOf k log = some none → report.2.2 = false)) ∧ Attributed h log))

/-- The task is not overtaken in this step: `last_used` is read when the last success of all is
of a provider that answers the reader as the task's own does, and a binding is not taken after
a failed call. -/
def unovertaken [DecidableEq Cost] (k : ℕ) (log : FailoverLog Cost Request h.size) :
    FailoverInstr Cost Request h.size → Bool
  | .loadLastUsed reader => (outcomeOf k log).all fun outcome => outcome.all fun p =>
      decide ((h.provider (lastServed ⟨0, h.nonempty⟩ log)).read reader =
        (h.provider p).read reader)
  | .take _ => outcomeOf k log ≠ some none || boundOf k log = none
  | _ => true

/-- The task that moves is not overtaken. -/
def unovertakenMove [DecidableEq Cost] (c : FailoverConf Request Response h) :
    Move (CallerTask Request) (ProviderChange Response h.size) → Bool
  | .step k =>
    match c.tasks[k]? with
    | some ⟨_, .act i _⟩ => unovertaken h k c.log i
    | _ => true
  | _ => true

/-! ### The state agrees with the log -/

/-- What holds at any time. -/
structure Recorded (m : FailoverMemory Request Response h) : Prop where
  last_used : m.state.last_used = lastServed ⟨0, h.nonempty⟩ m.log
  bound : ∀ k, m.state.provider_for_task k = boundOf k m.log
  attributed : Attributed h m.log

end

section

variable {Cost Request Response α : Type} {n k : ℕ}

/-- What the others do is not told of a task. -/
theorem outcomeOf_append {new log : FailoverLog Cost Request n} (hnew : ∀ e ∈ new, e.1 ≠ k) :
    outcomeOf k (new ++ log) = outcomeOf k log := by
  rw [outcomeOf, List.findSome?_append, List.findSome?_eq_none_iff.mpr, Option.none_or, outcomeOf]
  intro e he
  rw [if_neg (hnew e he)]

/-- A step that ends no call. -/
theorem outcomeOf_cons {log : FailoverLog Cost Request n} {j : ℕ} {i : FailoverInstr Cost Request n}
    (hi : i.ending? = none) : outcomeOf k ((j, i) :: log) = outcomeOf k log := by
  rw [outcomeOf, List.findSome?_cons, hi, ite_self, outcomeOf]

theorem lastServed_cons {first : Fin n} {log : FailoverLog Cost Request n} {j : ℕ}
    {i : FailoverInstr Cost Request n} (hi : i.stored? = none) :
    lastServed first ((j, i) :: log) = lastServed first log := by
  rw [lastServed, List.findSome?_cons, hi, lastServed]

theorem boundOf_cons {log : FailoverLog Cost Request n} {j : ℕ} {i : FailoverInstr Cost Request n}
    (hi : j ≠ k ∨ i.binding? = none) : boundOf k ((j, i) :: log) = boundOf k log := by
  have hnone : (if j = k then i.binding? else none) = none := by
    obtain hj | hi := hi
    · exact if_neg hj
    · rw [hi, ite_self]
  rw [boundOf, List.findSome?_cons, hnone, boundOf]

theorem boundOf_cons_self {log : FailoverLog Cost Request n} {i : FailoverInstr Cost Request n}
    {bound : Option (Fin n)} (hi : i.binding? = some bound) :
    boundOf k ((k, i) :: log) = bound := by
  rw [boundOf, List.findSome?_cons, if_pos rfl, hi, Option.getD_some]

/-- What is bound to a task whose last call was served is bound by that call. -/
theorem boundOf_of_outcomeOf {log : FailoverLog Cost Request n} {p q : Fin n}
    (hout : outcomeOf k log = some (some p)) (hbound : boundOf k log = some q) : q = p := by
  induction log with
  | nil => cases hout
  | cons e log ih =>
    obtain ⟨j, i⟩ := e
    by_cases hj : j = k
    · subst hj
      cases i with
      | bind id i =>
        rw [boundOf_cons_self rfl] at hbound
        rw [outcomeOf, List.findSome?_cons, if_pos rfl] at hout
        obtain rfl := Option.some.inj (Option.some.inj hout)
        exact (Option.some.inj hbound).symm
      | take =>
        rw [boundOf_cons_self rfl] at hbound
        cases hbound
      | failed =>
        rw [outcomeOf, List.findSome?_cons, if_pos rfl] at hout
        cases hout
      | _ =>
        rw [outcomeOf_cons rfl] at hout
        rw [boundOf_cons (.inr rfl)] at hbound
        exact ih hout hbound
    · rw [outcomeOf, List.findSome?_cons, if_neg hj] at hout
      rw [boundOf_cons (.inl hj)] at hbound
      exact ih hout hbound

/-- What a task must know to take a step. -/
def Requires (h : FailoverProvider Cost) (k : ℕ) (log : FailoverLog Cost Request h.size) :
    FailoverInstr Cost Request h.size → Prop
  | .bind task_id _ | .take task_id => task_id = k
  | .report reader reading bound => Fits h k log (reader, reading, bound)
  | _ => True

variable {h : FailoverProvider Cost}
  {m : FailoverMemory Request Response h} {i : FailoverInstr Cost Request h.size}

/-- The steps. -/
abbrev failoverMachine (n : ℕ) : Machine (FailoverInstr Cost Request n)
    (FailoverInstr.Answer Cost Request Response n) (FailoverState Response n) where
  exec := FailoverState.exec

/-- A step that touches neither `last_used` nor a binding. -/
theorem Recorded.quiet (hm : Recorded h m) {s' : FailoverState Response h.size}
    (hstored : i.stored? = none) (hbinding : i.binding? = none)
    (hused : s'.last_used = m.state.last_used)
    (hbound : s'.provider_for_task = m.state.provider_for_task)
    (hatt : Attributed h ((k, i) :: m.log)) : Recorded h ⟨s', (k, i) :: m.log⟩ where
  last_used := by rw [hused, lastServed_cons hstored, hm.last_used]
  bound j := by rw [hbound, boundOf_cons (.inr hbinding), hm.bound j]
  attributed := hatt

/-- A change of the binding of the task that makes it. -/
theorem Recorded.rebind (hm : Recorded h m) {s' : FailoverState Response h.size}
    {bound : Option (Fin h.size)} (hstored : i.stored? = none)
    (hbinding : i.binding? = some bound) (hused : s'.last_used = m.state.last_used)
    (hbound : s'.provider_for_task = Function.update m.state.provider_for_task k bound)
    (hatt : Attributed h ((k, i) :: m.log)) : Recorded h ⟨s', (k, i) :: m.log⟩ where
  last_used := by rw [hused, lastServed_cons hstored, hm.last_used]
  bound j := by
    rw [hbound]
    by_cases hj : j = k
    · subst hj
      rw [boundOf_cons_self hbinding, Function.update_self]
    · rw [boundOf_cons (.inl (Ne.symm hj)), Function.update_of_ne hj, hm.bound j]
  attributed := hatt

/-- **Every step keeps the state in agreement with the log.** -/
theorem Recorded.after (hm : Recorded h m) (hreq : Requires h k m.log i) :
    Recorded h (m.after (failoverMachine h.size) k i) := by
  cases i with
  | storeLastUsed i =>
    refine ⟨rfl, fun j => ?_, nofun, hm.attributed⟩
    rw [Memory.log_after, boundOf_cons (.inr rfl), ← hm.bound j]
    rfl
  | bind id p =>
    obtain rfl := hreq
    exact hm.rebind rfl rfl rfl rfl ⟨nofun, hm.attributed⟩
  | take id =>
    obtain rfl := hreq
    exact hm.rebind rfl rfl rfl rfl ⟨nofun, hm.attributed⟩
  | report reader reading bound =>
    exact hm.quiet rfl rfl rfl rfl ⟨fun report hreport => Option.some.inj hreport ▸ hreq,
      hm.attributed⟩
  | _ => exact hm.quiet rfl rfl rfl rfl ⟨nofun, hm.attributed⟩

/-- The step of a call as task `k`. -/
def ofCall (k : ℕ) : FailoverInstr Cost Request n → Prop
  | .bind task_id _ => task_id = k
  | .take _ | .report .. => False
  | _ => True

/-- The program makes calls as task `k`. -/
abbrev Calls (k : ℕ) (p : FailoverProg Cost Request Response n α) : Prop :=
  p.Obeys (fun _ _ => True) (ofCall k) fun _ => True

/-- One step first. -/
theorem calls_bind {i : FailoverInstr Cost Request n}
    {f : i.Answer Cost Request Response n → FailoverProg Cost Request Response n α}
    (hi : ofCall k i) (hf : ∀ r, Calls k (f r)) : Calls k (i.act >>= f) := ⟨hi, fun r _ => hf r⟩

namespace FailoverProvider

theorem calls_availableOf (now_nanos cooldown_nanos : ℕ) (is : List (Fin h.size)) :
    Calls k (h.availableOf now_nanos cooldown_nanos is :
      FailoverProg Cost Request Response h.size _) := by
  induction is with
  | nil => trivial
  | cons i rest ih =>
    refine calls_bind trivial fun activated => Prog.Obeys.bind ih fun available _ => ?_
    split <;> trivial

theorem calls_oldestOf (best : Fin h.size) (oldest : ℕ) (is : List (Fin h.size)) :
    Calls k (h.oldestOf best oldest is : FailoverProg Cost Request Response h.size _) := by
  induction is generalizing best oldest with
  | nil => trivial
  | cons i rest ih =>
    refine calls_bind trivial fun activated => ?_
    split
    · exact ih _ _
    · exact ih _ _

theorem calls_tryEach (call : LlmCall Request) (is : List (Fin h.size))
    (last_error : Option LlmError) :
    Calls k (h.tryEach call is last_error : FailoverProg Cost Request Response h.size _) := by
  induction is generalizing last_error with
  | nil => trivial
  | cons i rest ih =>
    refine calls_bind trivial fun result => ?_
    cases result with
    | ok response =>
      exact calls_bind trivial fun _ => calls_bind trivial fun _ => calls_bind trivial fun _ =>
        trivial
    | error err =>
      dsimp only
      split
      · trivial
      · refine calls_bind trivial fun prev => ?_
        split
        · exact calls_bind trivial fun _ => calls_bind trivial fun _ => ih _
        · exact ih _

theorem calls_tryProviders (call : LlmCall Request) :
    Calls k (h.tryProviders call : FailoverProg Cost Request Response h.size _) := by
  refine calls_bind trivial fun now => ?_
  refine Prog.Obeys.bind (calls_availableOf _ _ _) fun available _ => ?_
  cases available with
  | nil =>
    exact calls_bind trivial fun activated => Prog.Obeys.bind (calls_oldestOf _ _ _)
      fun oldest _ => calls_tryEach _ _ _
  | cons i rest => exact calls_tryEach _ _ _

/-- A call takes the steps of one. -/
theorem calls_method (call : LlmCall Request) :
    Calls k (h.method k call : FailoverProg Cost Request Response h.size _) := by
  have hserved : Calls k (h.served k call : FailoverProg Cost Request Response h.size _) := by
    refine Prog.Obeys.bind (calls_tryProviders call) fun result _ => ?_
    rcases result with err | ⟨i, response⟩
    · trivial
    · exact calls_bind rfl fun _ => trivial
  cases call with
  | complete => exact hserved
  | completeWithTools => exact hserved

end FailoverProvider

end

/-! ### The code is safe -/

section

variable {Cost Request Response α : Type} [DecidableEq Cost] {h : FailoverProvider Cost} {k : ℕ}
  {op : CallerTask Request} {m : FailoverMemory Request Response h}

/-- What the tasks agree on. -/
def attributionProtocol (Request Response : Type) (h : FailoverProvider Cost) :
    Protocol (CallerTask Request) (FailoverInstr Cost Request h.size)
      (FailoverState Response h.size) where
  inv := Recorded h
  later _ _ := True
  allowed _ k i m := unovertaken h k m.log i = true
  later_refl _ := trivial
  later_trans _ _ := trivial

/-- The program keeps the state in agreement with the log, whatever the other tasks do. -/
abbrev Attributes (h : FailoverProvider Cost) (op : CallerTask Request) (k : ℕ)
    (p : FailoverProg Cost Request Response h.size α) (m : FailoverMemory Request Response h)
    (Q : α → FailoverMemory Request Response h → Prop) : Prop :=
  (attributionProtocol Request Response h).Safe (failoverMachine h.size) op k Q p m

/-- What others may have done meanwhile. -/
abbrev Meanwhile (h : FailoverProvider Cost) (k : ℕ)
    (m m' : FailoverMemory Request Response h) : Prop :=
  (attributionProtocol Request Response h).Grown k m m'

theorem outcomeOf_meanwhile {m' : FailoverMemory Request Response h} (hg : Meanwhile h k m m') :
    outcomeOf k m'.log = outcomeOf k m.log := by
  obtain ⟨-, new, hnew, hothers⟩ := hg
  rw [hnew, outcomeOf_append hothers]

/-- A step, and what follows in the memory after it. -/
theorem attributes_step {i : FailoverInstr Cost Request h.size}
    {f : i.Answer Cost Request Response h.size → FailoverProg Cost Request Response h.size α}
    {Q : α → FailoverMemory Request Response h → Prop}
    (hreq : ∀ m', Meanwhile h k m m' → Requires h k m'.log i)
    (hf : ∀ m', Meanwhile h k m m' → Recorded h m' → unovertaken h k m'.log i = true →
      Attributes h op k (f (FailoverState.exec i m'.state).1)
        (m'.after (failoverMachine h.size) k i) Q) :
    Attributes h op k (i.act >>= f) m Q := by
  intro m' hg hm hallowed _
  exact ⟨hm.after (hreq m' hg), trivial, hf m' hg hm hallowed⟩

theorem attributes_of_calls {p : FailoverProg Cost Request Response h.size α} (hp : Calls k p) :
    Attributes h op k p m fun _ _ => True := by
  have hrequires : ∀ (i : FailoverInstr Cost Request h.size) log, ofCall k i →
      Requires h k log i := by
    intro i log hi
    cases i with
    | bind => exact hi
    | take | report => exact hi.elim
    | _ => trivial
  have hsafe : Attributes h op k p m fun a _ => True ∧ True :=
    Protocol.Safe.of_obeys (fun _ _ _ hm => hm) (fun i m hi hm _ _ =>
      ⟨Recorded.after hm (hrequires i m.log hi), trivial, trivial, trivial⟩) hp trivial
  exact hsafe.mono fun _ _ _ => trivial

namespace FailoverProvider

/-! ### The readers report what they should -/

/-- The provider `last_used` names answers as the task's own does, when it is read. -/
theorem attributes_readLastUsed (reader : Reader) :
    Attributes h op k (h.readLastUsed reader) m fun _ _ => True := by
  refine attributes_step (fun _ _ => trivial) fun m₁ _ hm₁ hallowed => ?_
  refine attributes_step (fun m₂ hg₂ => ⟨fun outcome hout p hp => ?_, fun _ => rfl⟩)
    fun _ _ _ _ => trivial
  obtain rfl := hp
  rw [outcomeOf_meanwhile hg₂, Memory.log_after, outcomeOf_cons rfl] at hout
  have hsame := hallowed
  simp only [unovertaken, Option.mem_def.mp hout, Option.all_some, decide_eq_true_eq] at hsame
  rw [← hsame, ← hm₁.last_used]
  rfl

/-- So does a binding, which is of the last call. -/
theorem attributes_effectiveModelName (requested_model : Option String) :
    Attributes h op k (h.effectiveModelName k requested_model) m fun _ _ => True := by
  refine attributes_step (fun _ _ => rfl) fun m₁ _ hm₁ hallowed => ?_
  cases htaken : (FailoverState.exec (.take k : FailoverInstr Cost Request h.size) m₁.state).1 with
  | none => exact attributes_readLastUsed _
  | some q =>
    have hbound : boundOf k m₁.log = some q := (hm₁.bound k).symm.trans htaken
    refine attributes_step (fun m₂ hg₂ => ⟨fun outcome hout p hp => ?_, fun hfailed => ?_⟩)
      fun _ _ _ _ => trivial
    · obtain rfl := hp
      rw [outcomeOf_meanwhile hg₂, Memory.log_after, outcomeOf_cons rfl] at hout
      rw [boundOf_of_outcomeOf hout hbound]
    · rw [outcomeOf_meanwhile hg₂, Memory.log_after, outcomeOf_cons rfl] at hfailed
      simp [unovertaken, hfailed, hbound] at hallowed

theorem attributes_readAs (reader : Reader) :
    Attributes h op k (h.readAs k reader) m fun _ _ => True := by
  cases reader with
  | effectiveModelName => exact attributes_effectiveModelName _
  | _ => exact attributes_readLastUsed _

theorem attributes_runSteps (steps : List (TaskStep Request)) :
    Attributes h op k (h.runSteps k steps) m fun _ _ => True := by
  induction steps generalizing m with
  | nil => trivial
  | cons step rest ih =>
    cases step with
    | read reader =>
      refine Protocol.Safe.bind ((attributes_readAs reader).mono fun reading m' _ => ?_)
      exact Protocol.Safe.bind (ih.mono fun _ _ _ => trivial)
    | call call =>
      refine Protocol.Safe.bind ((attributes_of_calls (calls_method call)).mono
        fun result m' _ => ?_)
      cases result with
      | ok => exact ih
      | error => exact attributes_step (fun _ _ => trivial) fun _ _ _ _ => ih

end FailoverProvider

/-- **In every run in which no task is overtaken, every reader reports what it should.** -/
theorem attributed_of_reach {replies : Fin h.size → Except LlmError Response}
    {c : FailoverConf Request Response h}
    (hreach : (failoverSystem h).Reach (fun c m => unovertakenMove h c m = true)
      (.idle (h.start replies)) c) : Attributed h c.log := by
  -- Tasks are numbered by the positions they get.
  have hspawned : ∀ c' : FailoverConf Request Response h,
      (failoverSystem h).Reach (fun c m => unovertakenMove h c m = true)
        (.idle (h.start replies)) c' → c'.state.spawned = c'.tasks.length := by
    intro c' hc'
    refine hc'.induction (J := fun c' => c'.state.spawned = c'.tasks.length) rfl
      fun c₁ c₂ m hc₁ _ hnext => ?_
    rcases m with k | task | e
    · obtain ⟨op, i, f, hk, -, rfl⟩ := System.next_step_eq_some.mp hnext
      rw [List.length_set, ← hc₁]
      cases i <;> rfl
    · obtain ⟨s, hs, rfl⟩ := System.next_start_eq_some.mp hnext
      dsimp only [failoverSystem] at hs
      split at hs
      · obtain rfl := Option.some.inj hs
        rw [List.length_append, List.length_singleton, ← hc₁]
      · cases hs
    · obtain ⟨s, hs, rfl⟩ := System.next_env_eq_some.mp hnext
      cases e with
      | clock | reply =>
        obtain rfl := Option.some.inj hs
        exact hc₁
  have hrecorded : Recorded h c.toMemory := by
    refine ((hreach.strengthen hspawned).safe_fresh (P := attributionProtocol Request Response h)
      (Q := fun _ _ _ _ => True) (fun _ _ _ _ _ _ _ => trivial) ?_ ?_ ?_ ?_ ?_ ?_).1.1
    · intro c k op i f hok hk
      obtain ⟨hok, -⟩ := hok
      rw [unovertakenMove, hk] at hok
      exact hok
    · intro c e s hm _ hs
      cases e with
      | clock | reply =>
        obtain rfl := Option.some.inj hs
        exact ⟨⟨hm.last_used, hm.bound, hm.attributed⟩, trivial⟩
    · intro c task s hm hok hs
      dsimp only [failoverSystem] at hs
      split at hs
      · next hid =>
        obtain rfl := Option.some.inj hs
        refine ⟨⟨hm.last_used, hm.bound, hm.attributed⟩, trivial, fun _ => ?_⟩
        rw [← hok.2, ← hid]
        exact FailoverProvider.attributes_runSteps task.steps
      · cases hs
    · exact ⟨rfl, fun _ => rfl, trivial⟩
    · intro k t ht
      cases ht
    · exact List.forall_mem_nil _
  exact hrecorded.attributed

end

/-! ### Two runs -/

/-- A provider with a name and a price. -/
def LlmProvider.sample (name : String) (price : ℕ) : LlmProvider ℕ where
  model_name := name
  active_model_name := name
  cost_per_token := (price, price)
  cache_write_multiplier := 1
  cache_read_discount := 1
  calculate_cost input_tokens output_tokens :=
    price * (input_tokens.toNat + output_tokens.toNat)
  effective_model_name requested_model := requested_model.getD name

/-- A dear provider and a cheap one. -/
def FailoverProvider.sample : FailoverProvider ℕ where
  providers := [.sample "dear" 9, .sample "cheap" 1]
  cooldown_config := ⟨300 * 10 ^ 9, 3⟩
  nonempty := Nat.two_pos

/-- Both are up. -/
abbrev FailoverConf.sample : FailoverConf Unit Unit FailoverProvider.sample :=
  .idle (FailoverProvider.sample.start fun _ => .ok ())

/-- A task that makes a call and reads what it has cost. -/
def callAndRead (task_id : ℕ) : CallerTask Unit :=
  ⟨task_id, [.call (.complete ()), .read (.effectiveModelName none), .read .costPerToken]⟩

/-- A move of such tasks. -/
abbrev SampleMove : Type :=
  Move (CallerTask Unit) (ProviderChange Unit FailoverProvider.sample.size)

/-- The first provider stops answering and the second goes on. -/
def failOver : SampleMove :=
  .env (.reply ⟨0, Nat.two_pos⟩ (.error (.requestFailed "dear" "down")))

/-- One task after the other, each served by another provider. -/
def inTurn : List SampleMove :=
  [.start (callAndRead 0) :: List.replicate 12 (.step 0), [failOver],
    .start (callAndRead 1) :: List.replicate 14 (.step 1)].flatten

/-- What has been read so far, newest first. -/
def reportsOf {Cost Request : Type} {n : ℕ} (log : FailoverLog Cost Request n) :
    List (ℕ × Reading Cost) :=
  log.filterMap fun e => match e.2 with
    | .report _ reading _ => some (e.1, reading)
    | _ => none

/-- The theorem on that run. -/
theorem attributed_inTurn : ∃ c, (failoverSystem .sample).play FailoverConf.sample inTurn = some c ∧
    reportsOf c.log = [(1, .rates 1 1), (1, .name "cheap"), (0, .rates 9 9), (0, .name "dear")] ∧
      Attributed .sample c.log := by
  have hplay : ((failoverSystem .sample).play FailoverConf.sample inTurn).any (fun c =>
      decide (reportsOf c.log =
        [(1, .rates 1 1), (1, .name "cheap"), (0, .rates 9 9), (0, .name "dear")])) = true := by
    decide +kernel
  obtain ⟨c, hc, hreports⟩ := (Option.any_eq_true _ _).mp hplay
  have hallowed : System.Allowed (failoverSystem .sample)
      (fun c m => unovertakenMove .sample c m = true) FailoverConf.sample inTurn := by
    decide +kernel
  exact ⟨c, hc, of_decide_eq_true hreports,
    attributed_of_reach (System.Reach.init.of_play hallowed hc)⟩

/-- The second task is served between the two readings of the first. -/
def overtaken : List SampleMove :=
  [.start (callAndRead 0) :: List.replicate 10 (.step 0), [failOver],
    .start (callAndRead 1) :: List.replicate 10 (.step 1), List.replicate 2 (.step 0)].flatten

/-- A task whose second call fails reads the name before it has read the one of the first. -/
def readAfterFailure : List SampleMove :=
  [.start ⟨0, [.call (.complete ()), .call (.complete ()), .read (.effectiveModelName none)]⟩ ::
      List.replicate 8 (.step 0),
    [failOver, .env (.reply ⟨1, Nat.one_lt_two⟩ (.error (.requestFailed "cheap" "down")))],
    List.replicate 10 (.step 0)].flatten

/-- The first task is charged the price of the second one's provider, and a failed call is
attributed to the provider of the call before. -/
theorem overtaken_misattributed :
    (∃ c, (failoverSystem .sample).play FailoverConf.sample overtaken = some c ∧
      reportsOf c.log = [(0, .rates 1 1), (0, .name "dear")] ∧
      outcomeOf 0 c.log = some (some ⟨0, Nat.two_pos⟩) ∧ ¬ Attributed .sample c.log) ∧
    ∃ c, (failoverSystem .sample).play FailoverConf.sample readAfterFailure = some c ∧
      reportsOf c.log = [(0, .name "dear")] ∧ outcomeOf 0 c.log = some none ∧
      ¬ Attributed .sample c.log := by
  have hplay : ((failoverSystem .sample).play FailoverConf.sample overtaken).any (fun c =>
      decide (reportsOf c.log = [(0, .rates 1 1), (0, .name "dear")] ∧
        outcomeOf 0 c.log = some (some ⟨0, Nat.two_pos⟩) ∧ ¬ Attributed .sample c.log)) = true := by
    decide +kernel
  have hstale : ((failoverSystem .sample).play FailoverConf.sample readAfterFailure).any (fun c =>
      decide (reportsOf c.log = [(0, .name "dear")] ∧ outcomeOf 0 c.log = some none ∧
        ¬ Attributed .sample c.log)) = true := by
    decide +kernel
  obtain ⟨c, hc, hwrong⟩ := (Option.any_eq_true _ _).mp hplay
  obtain ⟨d, hd, hleft⟩ := (Option.any_eq_true _ _).mp hstale
  exact ⟨⟨c, hc, of_decide_eq_true hwrong⟩, d, hd, of_decide_eq_true hleft⟩

end T3Claw.Llm
