import T3Claw.Capability.Ledger
import T3Claw.Executor.Dispatch

/-!
# Settling the uses of a batch

Phase 1 of a batch takes a use for every call it approves, before any of them runs; after
Phase 2 the calls that ended at a gate give theirs back. `Uses` lists both, and `Charges` says
that the lists are what happened to the budgets.

A batch that gets through Phase 1 pays for exactly the calls that completed. A batch that is
interrupted in Phase 1 runs nothing and gives nothing back, so it pays for every call approved
before the interruption (`batches_settle_iff`).
-/

namespace T3Claw

/-- The leases a batch took a use from and gave one back to, in order. -/
structure Uses where
  taken : List LeaseId
  returned : List LeaseId

/-- The uses Phase 1 takes until it ends. -/
def takenUses (gateAt : BatchGate) : ℕ → List ActionCall → LeaseManager → List LeaseId
  | _, [], _ => []
  | i, call :: calls, m =>
    match gateAt i m call.action_name with
    | (.settled (.approved lease), m) => lease.id :: takenUses gateAt (i + 1) calls m
    | (.settled _, m) => takenUses gateAt (i + 1) calls m
    | _ => []

/-- The uses of the calls that ended at a gate. -/
def handedBack (env : DispatchEnv) (calls : List ActionCall) (outcomes : List Settled) :
    List LeaseId :=
  (calls.zip outcomes).filterMap fun slot =>
    match slot.2 with
    | .approved lease =>
      if interruptedCallNeedsRefund (env.execute slot.1 lease).1 then some lease.id else none
    | _ => none

/-- The uses of a batch; an interrupted one gives nothing back. -/
def batchUses (env : DispatchEnv) (gateAt : BatchGate) (calls : List ActionCall)
    (m : LeaseManager) : Uses where
  taken := takenUses gateAt 0 calls m
  returned :=
    match preflightAll gateAt 0 calls m with
    | .ready outcomes _ => handedBack env calls outcomes
    | _ => []

/-- The calls that ran and did not end at a gate. -/
def ranToCompletion (env : DispatchEnv) (calls : List ActionCall) (executed : List Execution) :
    List Execution :=
  executed.filter fun x => (calls[x.index]?).all fun call =>
    !interruptedCallNeedsRefund (env.execute call x.lease).1

/-- The budgets of `m'` are those of `m` after these uses. -/
def Charges (uses : Uses) (m m' : LeaseManager) : Prop :=
  ∀ l ∈ m.active, ∀ max_uses remaining, l.max_uses = some max_uses →
    l.uses_remaining = some remaining → remaining ≤ max_uses →
      ∃ l' ∈ m'.active, l'.id = l.id ∧ ∃ remaining', l'.uses_remaining = some remaining' ∧
        remaining' + uses.taken.count l.id = remaining + uses.returned.count l.id

/-- What a batch leaves is charged for the calls it completed. -/
structure Settles {ρ : Type} (env : DispatchEnv) (gateAt : BatchGate) (calls : List ActionCall)
    (m : LeaseManager) (d : Dispatched ρ) : Prop where
  charges : Charges (batchUses env gateAt calls m) m d.leases
  balanced : ((batchUses env gateAt calls m).taken.length : ℤ) -
    (batchUses env gateAt calls m).returned.length = (ranToCompletion env calls d.executed).length

/-- Phase 1 gets through, or no call is approved before the first that interrupts it. -/
def Undisturbed (gateAt : BatchGate) (calls : List ActionCall) (m : LeaseManager) : Prop :=
  (∀ p ∈ positions gateAt 0 calls m, (p.answer gateAt).interrupts = false) ∨
    ∀ q ∈ positions gateAt 0 calls m, (q.answer gateAt).verdict = .allow →
      ∃ p ∈ positions gateAt 0 calls m, p.index < q.index ∧ (p.answer gateAt).interrupts = true

/-! ### Charging budgets -/

/-- A refund that something was taken for has effect. -/
theorem CapabilityLease.Accounted.giveBack {l : CapabilityLease} {c f : ℕ}
    (h : l.Accounted c f) (hlt : f < c) : l.refundUse.Accounted c (f + 1) := by
  obtain hsame | h' := h.refundUse
  · rcases hm : l.max_uses with _ | max_uses <;> rcases hu : l.uses_remaining with _ | remaining
    · simp [Accounted, hsame, hm, hu]
    · simp [Accounted, hm, hu] at h
    · simp [Accounted, hm, hu] at h
    · -- the budget is not full, so the refund cannot have been without effect
      have hroom : remaining < max_uses := by
        simp only [Accounted, hm, hu] at h
        omega
      have huses := congrArg uses_remaining hsame
      simp [CapabilityLease.refundUse, hm, hu, hroom] at huses
  · exact h'

theorem CapabilityLease.max_uses_consumeUse (l : CapabilityLease) :
    l.consumeUse.1.max_uses = l.max_uses := by
  unfold CapabilityLease.consumeUse
  split <;> rfl

theorem CapabilityLease.max_uses_refundUse (l : CapabilityLease) :
    l.refundUse.max_uses = l.max_uses := by
  unfold CapabilityLease.refundUse
  split
  · split <;> rfl
  · rfl

/-- The lease `l` of a manager, with its books carried on to `c` uses and `f` refunds. -/
def HasBooks (l : CapabilityLease) (m : LeaseManager) (c f : ℕ) : Prop :=
  ∃ l' ∈ m.active, l'.id = l.id ∧ l'.max_uses = l.max_uses ∧ l'.Accounted c f

/-- Taking a use from some lease of the manager. -/
theorem HasBooks.take {l k : CapabilityLease} {m : LeaseManager} {c f : ℕ}
    (h : HasBooks l m c f) (hk : k ∈ m.active) (hused : k.consumeUse.2 = true) :
    HasBooks l ⟨m.active.insert k.consumeUse.1⟩ (c + [k.id].count l.id) f := by
  obtain ⟨l', hl', hid, hmax, hacc⟩ := h
  by_cases heq : k.id = l.id
  · obtain rfl : l' = k := KeyedStore.eq_of_mem hl' hk (hid.trans heq.symm)
    refine ⟨l'.consumeUse.1, KeyedStore.mem_insert.mpr (.inl rfl), ?_, ?_, ?_⟩
    · rw [CapabilityLease.id_consumeUse, hid]
    · rw [CapabilityLease.max_uses_consumeUse, hmax]
    · simpa [heq] using hacc.consumeUse hused
  · have hne : l'.id ≠ k.consumeUse.1.id := by
      rw [CapabilityLease.id_consumeUse, hid]
      exact Ne.symm heq
    refine ⟨l', KeyedStore.mem_insert.mpr (.inr ⟨hl', hne⟩), hid, hmax, ?_⟩
    simpa [heq] using hacc

/-- Giving uses back that were taken. -/
theorem HasBooks.giveBack {l : CapabilityLease} {ids : List LeaseId} {m : LeaseManager}
    {c f : ℕ} (h : HasBooks l m c f) (hle : f + ids.count l.id ≤ c) :
    HasBooks l (ids.foldl LeaseManager.refund m) c (f + ids.count l.id) := by
  induction ids generalizing m f with
  | nil => simpa using h
  | cons id ids ih =>
    obtain ⟨l', hl', hid, hmax, hacc⟩ := h
    rw [List.foldl_cons, LeaseManager.refund, LeaseManager.refundUse]
    by_cases heq : id = l.id
    · subst heq
      rw [List.count_cons_self] at hle ⊢
      rw [← hid, KeyedStore.get?_key hl', hid, Nat.add_comm _ 1, ← Nat.add_assoc]
      refine ih ⟨l'.refundUse, KeyedStore.mem_insert.mpr (.inl rfl), ?_, ?_, ?_⟩ (by omega)
      · rw [CapabilityLease.id_refundUse, hid]
      · rw [CapabilityLease.max_uses_refundUse, hmax]
      · exact hacc.giveBack (by omega)
    · rw [List.count_cons_of_ne heq] at hle ⊢
      refine ih ?_ hle
      cases hg : m.active.get? id with
      | none => exact ⟨l', hl', hid, hmax, hacc⟩
      | some k =>
        have hne : l'.id ≠ k.refundUse.id := by
          rw [CapabilityLease.id_refundUse, hid, KeyedStore.key_of_get? hg]
          exact Ne.symm heq
        exact ⟨l', KeyedStore.mem_insert.mpr (.inr ⟨hl', hne⟩), hid, hmax, hacc⟩

/-- Books carried on are charges. -/
theorem charges_of_hasBooks {m m' : LeaseManager} {uses : Uses}
    (h : ∀ l ∈ m.active, ∀ c, l.Accounted c 0 →
      HasBooks l m' (c + uses.taken.count l.id) (uses.returned.count l.id)) :
    Charges uses m m' := by
  intro l hl max_uses remaining hm hu hle
  have hacc : l.Accounted (max_uses - remaining) 0 := by
    simp only [CapabilityLease.Accounted, hm, hu]
    omega
  obtain ⟨l', hl', hid, hmax, hacc'⟩ := h l hl _ hacc
  refine ⟨l', hl', hid, ?_⟩
  rw [hm] at hmax
  rcases hu' : l'.uses_remaining with _ | remaining'
  · simp [CapabilityLease.Accounted, hmax, hu'] at hacc'
  · simp only [CapabilityLease.Accounted, hmax, hu'] at hacc'
    exact ⟨remaining', rfl, by omega⟩

/-! ### Phase 1 -/

/-- The gate takes one use for a call it approves, and no other. -/
def TakesForApproved (gateAt : BatchGate) : Prop :=
  ∀ i m name, (∃ l ∈ m.active, l.consumeUse.2 = true ∧
      gateAt i m name = (.settled (.approved l.consumeUse.1), ⟨m.active.insert l.consumeUse.1⟩)) ∨
    ((gateAt i m name).1.verdict ≠ .allow ∧ (gateAt i m name).2 = m)

/-- Both batch paths have such a gate. -/
theorem takesForApproved_gate {style : LookupStyle} {env : DispatchEnv} {caps : List PolicyRule}
    {clock : ℕ → Readings} (hstyle : style.consumesFound = false) :
    TakesForApproved fun i m name => style.gate env caps (clock i) m name := by
  intro i m name
  have htake : ∀ lease, (∃ l ∈ m.active, l.consumeUse.2 = true ∧
      style.takeUse env (clock i) m lease name =
        (.settled (.approved l.consumeUse.1), ⟨m.active.insert l.consumeUse.1⟩)) ∨
      ((style.takeUse env (clock i) m lease name).1.verdict ≠ .allow ∧
        (style.takeUse env (clock i) m lease name).2 = m) := by
    intro lease
    unfold LookupStyle.takeUse LookupStyle.consume
    simp only [hstyle, Bool.false_eq_true, if_false]
    cases hf : m.findAndConsume (clock i).consume env.thread_id name with
    | ok p =>
      obtain ⟨l', m'⟩ := p
      obtain ⟨l, hl, -, hused, rfl, rfl⟩ := LeaseManager.findAndConsume_eq_ok hf
      exact .inl ⟨l, hl, hused, rfl⟩
    | error e =>
      right
      cases style.propagates <;> exact ⟨by simp [Gate.verdict], rfl⟩
  dsimp only
  unfold LookupStyle.gate
  split
  case h_1 => exact .inr ⟨by simp [Gate.verdict], rfl⟩
  case h_2 lease hl =>
    split
    case h_1 => exact .inr ⟨by simp [Gate.verdict], rfl⟩
    case h_2 actions ha =>
      split
      case h_1 => exact .inr ⟨by simp [Gate.verdict], rfl⟩
      case h_2 => exact .inr ⟨by simp [Gate.verdict], rfl⟩
      case h_3 => exact htake lease
      case h_4 => exact htake lease

/-- The leases when Phase 1 has ended. -/
def Phase1.leases : Phase1 → LeaseManager
  | .ready _ m => m
  | .paused _ _ m => m
  | .aborted _ m => m

@[simp] theorem Phase1.leases_cons (outcome : Settled) (p : Phase1) :
    (p.cons outcome).leases = p.leases := by
  cases p <;> rfl

/-- **Phase 1 keeps the books**: each approved call costs one use. -/
theorem HasBooks.preflightAll {gateAt : BatchGate} (hgate : TakesForApproved gateAt)
    {l : CapabilityLease} {i : ℕ} {calls : List ActionCall} {m : LeaseManager} {c f : ℕ}
    (h : HasBooks l m c f) :
    HasBooks l (T3Claw.preflightAll gateAt i calls m).leases
      (c + (takenUses gateAt i calls m).count l.id) f := by
  induction calls generalizing i m c with
  | nil => exact h
  | cons call calls ih =>
    rw [T3Claw.preflightAll, takenUses]
    obtain ⟨k, hk, hused, hg⟩ | ⟨hdeny, hsame⟩ := hgate i m call.action_name
    · simp only [hg, Phase1.leases_cons, CapabilityLease.id_consumeUse]
      have hrest := ih (i := i + 1) (h.take hk hused)
      rw [← List.singleton_append, List.count_append, ← Nat.add_assoc]
      exact hrest
    · rcases hp : gateAt i m call.action_name with ⟨g, m'⟩
      obtain rfl : m' = m := by simpa [hp] using hsame
      rcases g with outcome | _ | e
      · rcases outcome with _ | reason | e | lease
        · simpa using ih h
        · simpa using ih h
        · simpa using ih h
        · simp [hp, Gate.verdict] at hdeny
      · exact h
      · exact h

/-- The leases whose use an approved call took. -/
def approvedLeases (outcomes : List Settled) : List LeaseId :=
  outcomes.filterMap fun outcome =>
    match outcome with
    | .approved lease => some lease.id
    | _ => none

/-- A Phase 1 that gets through has an outcome for every call. -/
theorem takenUses_of_ready {gateAt : BatchGate} {i : ℕ} {calls : List ActionCall}
    {m m' : LeaseManager} {outcomes : List Settled}
    (h : preflightAll gateAt i calls m = .ready outcomes m') :
    outcomes.length = calls.length ∧ takenUses gateAt i calls m = approvedLeases outcomes := by
  induction calls generalizing i m outcomes with
  | nil =>
    obtain ⟨rfl, -⟩ : [] = outcomes ∧ m = m' := by simpa [preflightAll] using h
    exact ⟨rfl, rfl⟩
  | cons call calls ih =>
    rw [preflightAll] at h
    rw [takenUses]
    rcases hg : gateAt i m call.action_name with ⟨g, m₁⟩
    rw [hg] at h
    cases g with
    | needsApproval => cases h
    | aborted e => cases h
    | settled outcome =>
      cases hrest : preflightAll gateAt (i + 1) calls m₁ with
      | paused before c m₂ => simp [hrest, Phase1.cons] at h
      | aborted e m₂ => simp [hrest, Phase1.cons] at h
      | ready outs m₂ =>
        obtain ⟨rfl, rfl⟩ : outcome :: outs = outcomes ∧ m₂ = m' := by
          simpa [hrest, Phase1.cons] using h
        obtain ⟨hlen, htaken⟩ := ih hrest
        refine ⟨by simp [hlen], ?_⟩
        cases outcome <;> simp [htaken, approvedLeases]

/-- A batch takes nothing exactly when no call is approved before Phase 1 is interrupted. -/
theorem takenUses_eq_nil_iff {gateAt : BatchGate} {i : ℕ} {calls : List ActionCall}
    {m : LeaseManager} : takenUses gateAt i calls m = [] ↔
      ∀ q ∈ positions gateAt i calls m, (q.answer gateAt).verdict = .allow →
        ∃ p ∈ positions gateAt i calls m, p.index < q.index ∧
          (p.answer gateAt).interrupts = true := by
  induction calls generalizing i m with
  | nil => simp [takenUses, positions]
  | cons call calls ih =>
    rcases hg : gateAt i m call.action_name with ⟨g, m₁⟩
    have hpos : positions gateAt i (call :: calls) m =
        ⟨i, call, m⟩ :: positions gateAt (i + 1) calls m₁ := by simp [positions, hg]
    have hhead : Position.answer gateAt ⟨i, call, m⟩ = g := by simp [Position.answer, hg]
    have hlater : ∀ q ∈ positions gateAt (i + 1) calls m₁, i < q.index :=
      fun q hq => le_index_of_mem_positions hq
    rw [hpos, List.forall_mem_cons, hhead, takenUses, hg]
    -- nothing stands before the head
    have hfirst : ¬∃ p ∈ Position.mk i call m :: positions gateAt (i + 1) calls m₁,
        p.index < i ∧ (p.answer gateAt).interrupts = true := by
      rintro ⟨p, hp, hlt, -⟩
      rcases List.mem_cons.mp hp with rfl | hp
      · exact lt_irrefl _ hlt
      · exact lt_asymm hlt (hlater p hp)
    have hrest : (∀ q ∈ positions gateAt (i + 1) calls m₁, (q.answer gateAt).verdict = .allow →
          ∃ p ∈ Position.mk i call m :: positions gateAt (i + 1) calls m₁,
            p.index < q.index ∧ (p.answer gateAt).interrupts = true) ↔
        g.interrupts = true ∨ takenUses gateAt (i + 1) calls m₁ = [] := by
      rw [ih]
      constructor
      · intro h
        refine or_iff_not_imp_left.mpr fun hgo q hq hallow => ?_
        obtain ⟨p, hp, hlt, hint⟩ := h q hq hallow
        rcases List.mem_cons.mp hp with rfl | hp
        · exact absurd (hhead ▸ hint) hgo
        · exact ⟨p, hp, hlt, hint⟩
      · rintro (hstop | h) q hq hallow
        · exact ⟨_, List.mem_cons_self, hlater q hq, hhead ▸ hstop⟩
        · obtain ⟨p, hp, hlt, hint⟩ := h q hq hallow
          exact ⟨p, List.mem_cons_of_mem _ hp, hlt, hint⟩
    rw [hrest]
    rcases g with outcome | _ | e
    · rcases outcome with _ | reason | e | lease
      · simp [Gate.verdict, Gate.interrupts]
      · simp [Gate.verdict, Gate.interrupts]
      · simp [Gate.verdict, Gate.interrupts]
      · exact iff_of_false (List.cons_ne_nil _ _) fun h => hfirst (h.1 rfl)
    · simp [Gate.verdict, Gate.interrupts]
    · simp [Gate.verdict, Gate.interrupts]

/-! ### After Phase 1 -/

/-- What is handed back had been taken. -/
theorem handedBack_sublist (env : DispatchEnv) {calls : List ActionCall}
    {outcomes : List Settled} (hlen : outcomes.length = calls.length) :
    (handedBack env calls outcomes).Sublist (approvedLeases outcomes) := by
  induction calls generalizing outcomes with
  | nil => rw [List.length_eq_zero_iff.mp hlen]; exact .slnil
  | cons call calls ih =>
    rcases outcomes with _ | ⟨outcome, outcomes⟩
    · cases hlen
    · have hlen' : outcomes.length = calls.length := by simpa using hlen
      have hrest := ih hlen'
      cases outcome with
      | approved lease =>
        simp only [handedBack, List.zip_cons_cons, List.filterMap_cons, approvedLeases]
        split
        case h_1 => exact hrest.cons _
        case h_2 id hid =>
          split at hid
          · obtain rfl := Option.some.inj hid
            exact hrest.cons_cons _
          · cases hid
      | noLease => exact hrest
      | denied reason => exact hrest
      | notConsumed e => exact hrest

/-- The refunds of a batch are those of the calls that ended at a gate. -/
theorem refundInterrupted_eq (env : DispatchEnv) (calls : List ActionCall)
    (outcomes : List Settled) (m : LeaseManager) : refundInterrupted env calls outcomes m =
      (handedBack env calls outcomes).foldl LeaseManager.refund m := by
  rw [refundInterrupted, handedBack, List.foldl_filterMap]
  congr 1
  funext m slot
  cases slot.2 with
  | approved lease => dsimp only; split <;> rfl
  | _ => rfl

/-- Every approved call completed or handed its use back. -/
theorem length_approvedLeases (env : DispatchEnv) {all calls : List ActionCall} {i : ℕ}
    {outcomes : List Settled} (hall : all.drop i = calls)
    (hlen : outcomes.length = calls.length) : (approvedLeases outcomes).length =
      (handedBack env calls outcomes).length +
        (ranToCompletion env all (executions i calls outcomes)).length := by
  induction calls generalizing i outcomes with
  | nil => rw [List.length_eq_zero_iff.mp hlen]; rfl
  | cons call calls ih =>
    rcases outcomes with _ | ⟨outcome, outcomes⟩
    · cases hlen
    · have hget : all[i]? = some call := by
        rw [← List.head?_drop, hall]
        rfl
      have hdrop : all.drop (i + 1) = calls := by
        rw [← List.drop_drop, hall]
        rfl
      have hlen' : outcomes.length = calls.length := by simpa using hlen
      have hrest := ih hdrop hlen'
      cases outcome with
      | approved lease =>
        by_cases hgate : interruptedCallNeedsRefund (env.execute call lease).1 = true
        · simp_all [approvedLeases, handedBack, executions, ranToCompletion]
          omega
        · simp_all [approvedLeases, handedBack, executions, ranToCompletion]
          omega
      | noLease => exact hrest
      | denied reason => exact hrest
      | notConsumed e => exact hrest

/-- What a batch leaves behind and has executed, in terms of its Phase 1. -/
def Follows {ρ : Type} (env : DispatchEnv) (calls : List ActionCall) (p : Phase1)
    (d : Dispatched ρ) : Prop :=
  match p with
  | .ready outcomes m =>
    d.leases = refundInterrupted env calls outcomes m ∧ d.executed = executions 0 calls outcomes
  | p => d.leases = p.leases ∧ d.executed = []

/-- An interrupted batch settles its uses when it has taken none. -/
theorem settles_interrupted_iff {ρ : Type} {env : DispatchEnv} {gateAt : BatchGate}
    {calls : List ActionCall} {m m' : LeaseManager} {d : Dispatched ρ} (hleases : d.leases = m')
    (hexecuted : d.executed = [])
    (hbooks : ∀ l ∈ m.active, ∀ c, l.Accounted c 0 →
      HasBooks l m' (c + (takenUses gateAt 0 calls m).count l.id) 0)
    (hreturned : (batchUses env gateAt calls m).returned = [])
    (hdisturbed : ¬∀ p ∈ positions gateAt 0 calls m, (p.answer gateAt).interrupts = false)
    (hnone : takenUses gateAt 0 calls m = [] ↔
      ∀ q ∈ positions gateAt 0 calls m, (q.answer gateAt).verdict = .allow →
        ∃ p ∈ positions gateAt 0 calls m, p.index < q.index ∧
          (p.answer gateAt).interrupts = true) :
    Settles env gateAt calls m d ↔ Undisturbed gateAt calls m := by
  rw [Undisturbed, or_iff_right hdisturbed, ← hnone]
  constructor
  · intro h
    have hbalanced := h.balanced
    rw [hreturned, hexecuted] at hbalanced
    simpa [batchUses, ranToCompletion] using hbalanced
  · intro h
    refine ⟨charges_of_hasBooks fun l hl c hacc => ?_, ?_⟩
    · rw [hleases, hreturned]
      exact hbooks l hl c hacc
    · rw [hreturned, hexecuted]
      simp [batchUses, ranToCompletion, h]

/-- **When a batch settles its uses**, for any gate that takes them one by one. -/
theorem settles_iff {ρ : Type} {env : DispatchEnv} {gateAt : BatchGate}
    {calls : List ActionCall} {m : LeaseManager} {d : Dispatched ρ}
    (hgate : TakesForApproved gateAt) (hd : Follows env calls (preflightAll gateAt 0 calls m) d) :
    Settles env gateAt calls m d ↔ Undisturbed gateAt calls m := by
  have hbooks : ∀ l ∈ m.active, ∀ c, l.Accounted c 0 →
      HasBooks l (preflightAll gateAt 0 calls m).leases
        (c + (takenUses gateAt 0 calls m).count l.id) 0 :=
    fun l hl c hacc => HasBooks.preflightAll hgate ⟨l, hl, rfl, rfl, hacc⟩
  have hready := @preflightAll_ready_iff gateAt 0 calls m
  have hnone := @takenUses_eq_nil_iff gateAt 0 calls m
  cases hp : preflightAll gateAt 0 calls m with
  | ready outcomes m' =>
    rw [hp] at hd hbooks hready
    obtain ⟨hleases, hexecuted⟩ := hd
    obtain ⟨hlen, htaken⟩ := takenUses_of_ready hp
    refine iff_of_true ⟨charges_of_hasBooks fun l hl c hacc => ?_, ?_⟩
      (.inl (hready.mp ⟨_, _, rfl⟩))
    · rw [hleases, refundInterrupted_eq]
      simp only [batchUses, hp]
      have hle : (handedBack env calls outcomes).count l.id ≤
          (takenUses gateAt 0 calls m).count l.id := by
        rw [htaken]
        exact (handedBack_sublist env hlen).count_le l.id
      have hback := (hbooks l hl c hacc).giveBack
        (by omega : 0 + (handedBack env calls outcomes).count l.id ≤ _)
      rw [Nat.zero_add] at hback
      exact hback
    · have hcount := length_approvedLeases env (List.drop_zero : calls.drop 0 = calls) hlen
      simp only [batchUses, hp, hexecuted, htaken]
      omega
  | paused before call m' =>
    rw [hp] at hd hbooks hready
    exact settles_interrupted_iff hd.1 hd.2 hbooks (by simp [batchUses, hp])
      (by simpa using hready) hnone
  | aborted e m' =>
    rw [hp] at hd hbooks hready
    exact settles_interrupted_iff hd.1 hd.2 hbooks (by simp [batchUses, hp])
      (by simpa using hready) hnone

/-- Uses are settled on both batch paths. -/
structure BatchesSettle (env : DispatchEnv) (serde : Serde) (caps : List PolicyRule)
    (clock : ℕ → Readings) (calls : List ActionCall) (m : LeaseManager) : Prop where
  structured : Settles env (structuredGate env caps clock) calls m
    (executeActionCalls env serde caps clock calls m)
  parallel : Settles env (orchestratorGate env clock) calls m
    (handleExecuteActionsParallel env serde clock calls m)

/-- On neither path does an interruption of Phase 1 follow an approved call. -/
structure BatchesUndisturbed (env : DispatchEnv) (caps : List PolicyRule)
    (clock : ℕ → Readings) (calls : List ActionCall) (m : LeaseManager) : Prop where
  structured : Undisturbed (structuredGate env caps clock) calls m
  parallel : Undisturbed (orchestratorGate env clock) calls m

/-- **When batches settle their uses.** For every batch, lease set, policy and clock. -/
theorem batches_settle_iff (env : DispatchEnv) (serde : Serde) (caps : List PolicyRule)
    (clock : ℕ → Readings) (calls : List ActionCall) (m : LeaseManager) :
    BatchesSettle env serde caps clock calls m ↔ BatchesUndisturbed env caps clock calls m := by
  have hs : Settles env (structuredGate env caps clock) calls m
      (executeActionCalls env serde caps clock calls m) ↔
        Undisturbed (structuredGate env caps clock) calls m := by
    refine settles_iff (takesForApproved_gate rfl) ?_
    unfold executeActionCalls
    cases preflightAll (structuredGate env caps clock) 0 calls m <;> exact ⟨rfl, rfl⟩
  have hp : Settles env (orchestratorGate env clock) calls m
      (handleExecuteActionsParallel env serde clock calls m) ↔
        Undisturbed (orchestratorGate env clock) calls m := by
    refine settles_iff (takesForApproved_gate rfl) ?_
    unfold handleExecuteActionsParallel
    cases preflightAll (orchestratorGate env clock) 0 calls m <;> exact ⟨rfl, rfl⟩
  exact ⟨fun h => ⟨hs.mp h.structured, hp.mp h.parallel⟩,
    fun h => ⟨hs.mpr h.structured, hp.mpr h.parallel⟩⟩

/-! ### A use that is lost -/

section LostUse

/-- One lease covers `shell` and `deploy`; only `deploy` needs approval. -/
private def twoUses : CapabilityLease where
  id := ⟨1⟩
  thread_id := ⟨1⟩
  capability_name := "tools"
  granted_actions := .specific ["shell", "deploy"]
  granted_at := 0
  expires_at := none
  max_uses := some 2
  uses_remaining := some 2
  revoked := false
  revoked_reason := none

private def deployEnv : DispatchEnv where
  thread_id := ⟨1⟩
  step_id := ⟨1⟩
  policy := PolicyEngine.new
  effects := ⟨fun _ => .ok [⟨"shell", [], false⟩, ⟨"deploy", [], true⟩],
    fun _ _ _ _ => (.error (.effect "offline"), 0)⟩

/-- The batch pauses for the approval of `deploy`, `shell` never runs, and its use is gone. -/
theorem paused_batch_loses_use : ¬∀ env serde caps clock calls m,
    BatchesSettle env serde caps clock calls m := by
  intro h
  have hbalanced := (h deployEnv ⟨fun _ => "", fun _ => .null, fun _ => none⟩ []
    (fun _ => ⟨0, 0, 0⟩) [⟨"call-1", "shell", .obj []⟩, ⟨"call-2", "deploy", .obj []⟩]
    ⟨⟨[twoUses], by decide⟩⟩).structured.balanced
  revert hbalanced
  decide

end LostUse

end T3Claw
