import T3Claw.Capability.Lease

/-!
# Lease budgets over whole runs

A run is any sequence of lease manager operations, each at clock readings of its own, from
the empty manager on; between two operations the map may come to be iterated in any other
order. The trace records the uses taken and the refunds that had effect.

The law is an equation between the trace and the map (`Accounted`): what is missing from a
limited lease's budget is what was taken from it and not given back. It holds of a new lease
because its id is fresh, so nothing in the trace is about it yet.
-/

namespace T3Claw

/-- An operation of the lease manager, with the clock readings it makes. -/
inductive LeaseOp where
  | grant (now : Time) (thread_id : ThreadId) (capability_name : String)
      (granted_actions : GrantedActions) (duration : Option ℤ) (max_uses : Option ℕ)
  | consumeUse (now : Time) (lease_id : LeaseId)
  | findAndConsume (now : Time) (thread_id : ThreadId) (action_name : String)
  | refundUse (lease_id : LeaseId)
  | updateGrantedActions (lease_id : LeaseId) (granted_actions : GrantedActions)
  | revoke (lease_id : LeaseId) (reason : String)
  | expireStale (now : Time)
  | deriveChildLeases (lookup_at check_at granted_at : Time)
      (parent_thread_id child_thread_id : ThreadId) (requested_actions : Option (List String))

/-- What the trace of a run records. -/
inductive LeaseEvent where
  | consumed (lease_id : LeaseId)
  | refunded (lease_id : LeaseId)
  deriving DecidableEq

/-- A lease manager in the middle of a run: `issued` ids have been drawn, newest event
first. -/
structure LeaseRun where
  manager : LeaseManager
  issued : ℕ
  trace : List LeaseEvent

namespace LeaseRun

/-- The start of a run. -/
def start : LeaseRun := ⟨LeaseManager.new, 0, []⟩

/-- The manager after an operation, and what happened. -/
def record (r : LeaseRun) (manager : LeaseManager) (events : List LeaseEvent) : LeaseRun :=
  { r with manager, trace := events ++ r.trace }

/-- `LeaseId::new` has been called `n` times. -/
def draw (r : LeaseRun) (manager : LeaseManager) (n : ℕ) : LeaseRun :=
  { r with manager, issued := r.issued + n }

/-- One operation; `newId` is the sequence of ids `LeaseId::new` draws. -/
def perform (newId : ℕ → LeaseId) (r : LeaseRun) : LeaseOp → LeaseRun
  | .grant now thread_id capability_name granted_actions duration max_uses =>
    match r.manager.grant (newId r.issued) now thread_id capability_name granted_actions
        duration max_uses with
    | .ok (_, m) => r.draw m 1
    | .error _ => r
  | .consumeUse now lease_id =>
    match r.manager.consumeUse now lease_id with
    | .ok m => r.record m [.consumed lease_id]
    | .error _ => r
  | .findAndConsume now thread_id action_name =>
    match r.manager.findAndConsume now thread_id action_name with
    | .ok (lease, m) => r.record m [.consumed lease.id]
    | .error _ => r
  | .refundUse lease_id =>
    match r.manager.refundUse lease_id with
    | .ok m =>
      -- a refund has effect when it changes the lease
      if m.active.get? lease_id = r.manager.active.get? lease_id then r.record m []
      else r.record m [.refunded lease_id]
    | .error _ => r
  | .updateGrantedActions lease_id granted_actions =>
    match r.manager.updateGrantedActions lease_id granted_actions with
    | .ok (_, m) => r.record m []
    | .error _ => r
  | .revoke lease_id reason => r.record (r.manager.revoke lease_id reason) []
  | .expireStale now => r.record (r.manager.expireStale now).2 []
  | .deriveChildLeases lookup_at check_at granted_at parent child requested_actions =>
    r.draw (r.manager.deriveChildLeases lookup_at check_at granted_at
        (fun i => newId (r.issued + i)) parent child requested_actions).2
      (r.manager.activeForThread lookup_at parent).length

/-- What runs reach. -/
inductive Reached (newId : ℕ → LeaseId) : LeaseRun → Prop
  | start : Reached newId start
  | perform {r : LeaseRun} (op : LeaseOp) (h : Reached newId r) : Reached newId (r.perform newId op)
  | rehash {r : LeaseRun} {m : LeaseManager} (h : Reached newId r)
    (hm : m.active.values.Perm r.manager.active.values) : Reached newId { r with manager := m }

/-- The uses taken from a lease so far. -/
def consumed (r : LeaseRun) (id : LeaseId) : ℕ := r.trace.count (.consumed id)

/-- The refunds of a lease that had effect. -/
def refunded (r : LeaseRun) (id : LeaseId) : ℕ := r.trace.count (.refunded id)

end LeaseRun

/-! ### The budget of one lease -/

/-- A lease with `consumed` uses taken and `refunded` given back. -/
def CapabilityLease.Accounted (lease : CapabilityLease) (consumed refunded : ℕ) : Prop :=
  match lease.max_uses, lease.uses_remaining with
  | none, none => True
  | some max_uses, some remaining =>
    remaining ≤ max_uses ∧ max_uses + refunded = remaining + consumed
  | _, _ => False

namespace CapabilityLease

/-- A lease with a full budget. -/
theorem accounted_full {lease : CapabilityLease}
    (h : lease.uses_remaining = lease.max_uses) : lease.Accounted 0 0 := by
  unfold Accounted
  rw [h]
  cases lease.max_uses with
  | none => trivial
  | some max_uses => exact ⟨le_rfl, rfl⟩

/-- The budget is all that accounting reads. -/
theorem Accounted.congr {l l' : CapabilityLease} {c f : ℕ} (h : l.Accounted c f)
    (hmax : l'.max_uses = l.max_uses) (huses : l'.uses_remaining = l.uses_remaining) :
    l'.Accounted c f := by
  unfold Accounted
  rw [hmax, huses]
  exact h

/-- Taking a use. -/
theorem Accounted.consumeUse {l : CapabilityLease} {c f : ℕ} (h : l.Accounted c f)
    (hused : l.consumeUse.2 = true) : l.consumeUse.1.Accounted (c + 1) f := by
  unfold CapabilityLease.consumeUse at hused ⊢
  rcases hu : l.uses_remaining with _ | _ | n
  · unfold Accounted at h ⊢
    cases hm : l.max_uses with
    | none => simp [hu]
    | some max_uses => simp [hu, hm] at h
  · simp [hu] at hused
  · unfold Accounted at h ⊢
    cases hm : l.max_uses with
    | none => simp [hu, hm] at h
    | some max_uses =>
      simp only [hu, hm] at h ⊢
      omega

/-- Giving a use back: there was one to give back, or nothing changes. -/
theorem Accounted.refundUse {l : CapabilityLease} {c f : ℕ} (h : l.Accounted c f) :
    l.refundUse = l ∨ l.refundUse.Accounted c (f + 1) := by
  unfold CapabilityLease.refundUse
  split
  case h_1 max_uses remaining hm hu =>
    by_cases hlt : remaining < max_uses
    · right
      rw [if_pos hlt]
      unfold Accounted at h ⊢
      simp only [hm, hu] at h ⊢
      omega
    · left
      rw [if_neg hlt]
  case h_2 => exact .inl rfl

@[simp] theorem id_consumeUse (l : CapabilityLease) : l.consumeUse.1.id = l.id :=
  l.consumeUse_frame.1

@[simp] theorem id_refundUse (l : CapabilityLease) : l.refundUse.id = l.id := by
  unfold CapabilityLease.refundUse
  split
  · split <;> rfl
  · rfl

end CapabilityLease

/-! ### The invariant -/

namespace LeaseRun

/-- Every lease of the map is accounted for, and nothing has happened to ids not drawn. -/
structure Sound (newId : ℕ → LeaseId) (r : LeaseRun) : Prop where
  drawn : ∀ l ∈ r.manager.active, ∃ k < r.issued, l.id = newId k
  untouched : ∀ k, r.issued ≤ k → r.consumed (newId k) = 0 ∧ r.refunded (newId k) = 0
  accounted : ∀ l ∈ r.manager.active, l.Accounted (r.consumed l.id) (r.refunded l.id)

variable {newId : ℕ → LeaseId} {r : LeaseRun}

theorem sound_start : Sound newId start where
  drawn := nofun
  untouched _ _ := ⟨rfl, rfl⟩
  accounted := nofun

/-- An operation that keeps the trace keeps the invariant, if the leases it leaves have the
budgets of leases that were there. -/
theorem Sound.keep {m : LeaseManager} (h : Sound newId r)
    (hm : ∀ l' ∈ m.active, ∃ l ∈ r.manager.active, l'.id = l.id ∧
      l'.max_uses = l.max_uses ∧ l'.uses_remaining = l.uses_remaining) :
    Sound newId (r.record m []) where
  drawn l' hl' := by
    obtain ⟨l, hl, hid, -, -⟩ := hm l' hl'
    rw [hid]
    exact h.drawn l hl
  untouched := h.untouched
  accounted l' hl' := by
    obtain ⟨l, hl, hid, hmax, huses⟩ := hm l' hl'
    rw [hid]
    exact (h.accounted l hl).congr hmax huses

/-- The leases after one of them has been replaced. -/
theorem mem_replace {m : LeaseManager} {l l' a : CapabilityLease}
    (hid : l'.id = l.id) (ha : a ∈ m.active.insert l') :
    a = l' ∨ a ∈ m.active ∧ a.id ≠ l.id := by
  rw [KeyedStore.mem_insert, hid] at ha
  exact ha

/-- Replacing one lease and recording what was done to it. -/
theorem Sound.replace {l l' : CapabilityLease} {e : LeaseEvent}
    (hnew : Function.Injective newId) (h : Sound newId r)
    (hl : l ∈ r.manager.active) (hid : l'.id = l.id)
    (he : e = .consumed l.id ∨ e = .refunded l.id)
    (hacc : l'.Accounted ((r.record ⟨r.manager.active.insert l'⟩ [e]).consumed l.id)
      ((r.record ⟨r.manager.active.insert l'⟩ [e]).refunded l.id)) :
    Sound newId (r.record ⟨r.manager.active.insert l'⟩ [e]) := by
  -- the event is about `l`, so every other id keeps its counts
  have hother : ∀ id, id ≠ l.id →
      (r.record ⟨r.manager.active.insert l'⟩ [e]).consumed id = r.consumed id ∧
        (r.record ⟨r.manager.active.insert l'⟩ [e]).refunded id = r.refunded id := by
    intro id hne
    obtain rfl | rfl := he
    · simp [record, consumed, refunded, Ne.symm hne]
    · simp [record, consumed, refunded, Ne.symm hne]
  refine ⟨fun a ha => ?_, fun k hk => ?_, fun a ha => ?_⟩
  · obtain rfl | ⟨ha, -⟩ := mem_replace hid ha
    · rw [hid]
      exact h.drawn l hl
    · exact h.drawn a ha
  · obtain ⟨j, hj, hlid⟩ := h.drawn l hl
    by_cases hkl : newId k = l.id
    · -- `l` has an id that has been drawn
      obtain rfl : k = j := hnew (hkl.trans hlid)
      exact absurd hj (Nat.not_lt.mpr hk)
    · obtain ⟨h₁, h₂⟩ := hother _ hkl
      rw [h₁, h₂]
      exact h.untouched k hk
  · obtain rfl | ⟨ha, hne⟩ := mem_replace hid ha
    · rw [hid]
      exact hacc
    · obtain ⟨h₁, h₂⟩ := hother _ hne
      rw [h₁, h₂]
      exact h.accounted a ha

/-- A lease replaced by one with the same budget. -/
theorem mem_sameBudget {m : LeaseManager} {l l' a : CapabilityLease} (hl : l ∈ m.active)
    (hid : l'.id = l.id) (hmax : l'.max_uses = l.max_uses)
    (huses : l'.uses_remaining = l.uses_remaining) (ha : a ∈ m.active.insert l') :
    ∃ b ∈ m.active, a.id = b.id ∧ a.max_uses = b.max_uses ∧
      a.uses_remaining = b.uses_remaining := by
  obtain rfl | ⟨ha, -⟩ := mem_replace hid ha
  · exact ⟨l, hl, hid, hmax, huses⟩
  · exact ⟨a, ha, rfl, rfl, rfl⟩

/-- A use taken from a lease is recorded. -/
theorem Sound.consume {id : LeaseId} {l : CapabilityLease} (hnew : Function.Injective newId)
    (h : Sound newId r) (hl : r.manager.active.get? id = some l)
    (hused : l.consumeUse.2 = true) :
    Sound newId (r.record ⟨r.manager.active.insert l.consumeUse.1⟩ [.consumed id]) := by
  obtain ⟨hmem, rfl⟩ := KeyedStore.get?_eq_some_iff.mp hl
  refine h.replace hnew hmem l.id_consumeUse (.inl rfl) ?_
  have hacc := (h.accounted l hmem).consumeUse hused
  simpa [record, consumed, refunded] using hacc

/-- A refund that has effect is recorded, and only such a one. -/
theorem Sound.refund {id : LeaseId} {l : CapabilityLease} (hnew : Function.Injective newId)
    (h : Sound newId r) (hl : r.manager.active.get? id = some l) :
    Sound newId
      (if (r.manager.active.insert l.refundUse).get? id = r.manager.active.get? id then
        r.record ⟨r.manager.active.insert l.refundUse⟩ []
      else r.record ⟨r.manager.active.insert l.refundUse⟩ [.refunded id]) := by
  obtain ⟨hmem, rfl⟩ := KeyedStore.get?_eq_some_iff.mp hl
  have hget : (r.manager.active.insert l.refundUse).get? l.id = some l.refundUse := by
    rw [← l.id_refundUse, KeyedStore.get?_insert_self]
  split
  case isTrue hsame =>
    rw [hget, hl, Option.some.injEq] at hsame
    refine h.keep fun a ha => ?_
    rw [hsame] at ha
    exact mem_sameBudget hmem rfl rfl rfl ha
  case isFalse hne =>
    rw [hget, hl, Option.some.injEq] at hne
    refine h.replace hnew hmem l.id_refundUse (.inr rfl) ?_
    have hacc := (h.accounted l hmem).refundUse.resolve_left hne
    simpa [record, consumed, refunded] using hacc

/-- New leases with full budgets under fresh ids. -/
theorem Sound.draw {m : LeaseManager} {n : ℕ} (h : Sound newId r)
    (hm : ∀ l ∈ m.active, l ∈ r.manager.active ∨
      l.uses_remaining = l.max_uses ∧ ∃ i < n, l.id = newId (r.issued + i)) :
    Sound newId (r.draw m n) where
  drawn l hl := by
    obtain hl | ⟨-, i, hi, hid⟩ := hm l hl
    · obtain ⟨k, hk, hid⟩ := h.drawn l hl
      exact ⟨k, Nat.lt_add_right n hk, hid⟩
    · exact ⟨r.issued + i, Nat.add_lt_add_left hi _, hid⟩
  untouched k hk := h.untouched k (Nat.le_of_add_right_le hk)
  accounted l hl := by
    obtain hl | ⟨hfull, i, -, hid⟩ := hm l hl
    · exact h.accounted l hl
    · obtain ⟨hc, hf⟩ := h.untouched (r.issued + i) (Nat.le_add_right _ _)
      have hcount : (r.draw m n).consumed l.id = 0 ∧ (r.draw m n).refunded l.id = 0 := by
        rw [hid]
        exact ⟨hc, hf⟩
      rw [hcount.1, hcount.2]
      exact CapabilityLease.accounted_full hfull

theorem mem_foldl_insert {cs : List CapabilityLease}
    {s : KeyedStore LeaseId CapabilityLease CapabilityLease.id} {l : CapabilityLease}
    (h : l ∈ cs.foldl KeyedStore.insert s) : l ∈ cs ∨ l ∈ s := by
  induction cs generalizing s with
  | nil => exact .inr h
  | cons c cs ih =>
    obtain h | h := ih h
    · exact .inl (List.mem_cons_of_mem _ h)
    · obtain rfl | ⟨h, -⟩ := KeyedStore.mem_insert.mp h
      · exact .inl List.mem_cons_self
      · exact .inr h

/-- **Every operation keeps the books.** -/
theorem Sound.perform (hnew : Function.Injective newId) (h : Sound newId r) (op : LeaseOp) :
    Sound newId (r.perform newId op) := by
  cases op with
  | grant now tid cap acts dur max_uses =>
    rw [LeaseRun.perform]
    split
    case h_1 lease m hg =>
      obtain ⟨hid, hfull, rfl⟩ := LeaseManager.grant_eq_ok hg
      refine h.draw fun l hl => ?_
      obtain rfl | ⟨hl, -⟩ := KeyedStore.mem_insert.mp hl
      · exact .inr ⟨hfull, 0, Nat.one_pos, hid⟩
      · exact .inl hl
    case h_2 => exact h
  | consumeUse now id =>
    rw [LeaseRun.perform]
    split
    case h_1 m hc =>
      obtain ⟨l, hl, -, hused, rfl⟩ := LeaseManager.consumeUse_eq_ok hc
      exact h.consume hnew hl hused
    case h_2 => exact h
  | findAndConsume now tid name =>
    rw [LeaseRun.perform]
    split
    case h_1 l' m hc =>
      obtain ⟨l, hl, -, hused, rfl, rfl⟩ := LeaseManager.findAndConsume_eq_ok hc
      rw [CapabilityLease.id_consumeUse]
      exact h.consume hnew (KeyedStore.get?_key hl) hused
    case h_2 => exact h
  | refundUse id =>
    rw [LeaseRun.perform]
    split
    case h_1 m hr =>
      obtain ⟨l, hl, rfl⟩ := LeaseManager.refundUse_eq_ok hr
      exact h.refund hnew hl
    case h_2 => exact h
  | updateGrantedActions id acts =>
    rw [LeaseRun.perform]
    split
    case h_1 l' m hu =>
      obtain ⟨l, hl, rfl, rfl⟩ := LeaseManager.updateGrantedActions_eq_ok hu
      refine h.keep fun a ha => ?_
      refine mem_sameBudget (KeyedStore.mem_of_get? hl) ?_ ?_ ?_ ha
      all_goals rfl
    case h_2 => exact h
  | revoke id reason =>
    rw [LeaseRun.perform, LeaseManager.revoke]
    cases hg : r.manager.active.get? id with
    | none => exact h.keep fun a ha => ⟨a, ha, rfl, rfl, rfl⟩
    | some l =>
      refine h.keep fun a ha => ?_
      refine mem_sameBudget (KeyedStore.mem_of_get? hg) ?_ ?_ ?_ ha
      all_goals rfl
  | expireStale now =>
    exact h.keep fun a ha => ⟨a, (KeyedStore.mem_retain.mp ha).1, rfl, rfl, rfl⟩
  | deriveChildLeases lookup_at check_at granted_at parent child req =>
    refine h.draw fun l hl => ?_
    -- a derived lease starts with its whole budget, under an id drawn here
    obtain hl | hl := mem_foldl_insert hl
    · have hderived : l ∈ (r.manager.deriveChildLeases lookup_at check_at granted_at
          (fun i => newId (r.issued + i)) parent child req).1 := hl
      obtain ⟨i, hi, p, -, hid, -, hmax, huses, -, -⟩ :=
        LeaseManager.mem_deriveChildLeases_budget hderived
      exact .inr ⟨huses.trans hmax.symm, i, hi, hid⟩
    · exact .inl hl

/-- What holds along every run. -/
theorem Reached.sound (hnew : Function.Injective newId) (h : Reached newId r) :
    Sound newId r := by
  induction h with
  | start => exact sound_start
  | perform op _ ih => exact ih.perform hnew op
  | rehash _ hm ih =>
    exact ih.keep fun a ha => ⟨a, hm.mem_iff.mp ha, rfl, rfl, rfl⟩

/-- A list of operations, one after the other. -/
theorem Reached.foldl (ops : List LeaseOp) (h : Reached newId r) :
    Reached newId (ops.foldl (LeaseRun.perform newId) r) := by
  induction ops generalizing r with
  | nil => exact h
  | cons op ops ih => exact ih (h.perform op)

/-! ### The law -/

/-- The budgets of a run are conserved and its manager hands out nothing it should not. -/
structure Conserved (r : LeaseRun) : Prop where
  unlimited : ∀ l ∈ r.manager.active, l.uses_remaining = none ↔ l.max_uses = none
  counted : ∀ l ∈ r.manager.active, ∀ max_uses remaining, l.max_uses = some max_uses →
    l.uses_remaining = some remaining → remaining ≤ max_uses ∧
      (max_uses - remaining : ℤ) = r.consumed l.id - r.refunded l.id
  consumes : ∀ now id m, r.manager.consumeUse now id = .ok m →
    ∃ l ∈ r.manager.active, l.id = id ∧ l.revoked = false ∧
      (∀ expires_at, l.expires_at = some expires_at → now < expires_at) ∧
      l.uses_remaining ≠ some 0
  findsAndConsumes : ∀ now tid name l' m, r.manager.findAndConsume now tid name = .ok (l', m) →
    ∃ l ∈ r.manager.active, l.id = l'.id ∧ l.thread_id = tid ∧ l.coversAction name = true ∧
      l.revoked = false ∧ (∀ expires_at, l.expires_at = some expires_at → now < expires_at) ∧
      l.uses_remaining ≠ some 0
  derives : ∀ lookup_at check_at granted_at id parent child req,
    ∀ c ∈ (r.manager.deriveChildLeases lookup_at check_at granted_at id parent child req).1,
      ∃ p ∈ r.manager.active, p.thread_id = parent ∧ p.isValid lookup_at = true ∧
        c.max_uses = p.uses_remaining ∧ c.uses_remaining = p.uses_remaining ∧
        c.expires_at = p.expires_at ∧
        ∀ name, c.coversAction name = true → p.coversAction name = true ∧
          ∀ names, req = some names → (GrantedActions.specific names).covers name = true

/-- **Budgets are conserved along every run.** -/
theorem budgets_conserved (hnew : Function.Injective newId) (h : Reached newId r) :
    Conserved r where
  unlimited l hl := by
    have hacc := (h.sound hnew).accounted l hl
    unfold CapabilityLease.Accounted at hacc
    cases hm : l.max_uses <;> cases hu : l.uses_remaining <;> simp_all
  counted l hl max_uses remaining hm hu := by
    have hacc := (h.sound hnew).accounted l hl
    unfold CapabilityLease.Accounted at hacc
    simp only [hm, hu] at hacc
    omega
  consumes now id m hc := by
    obtain ⟨l, hl, hv, -, -⟩ := LeaseManager.consumeUse_eq_ok hc
    exact ⟨l, KeyedStore.mem_of_get? hl, KeyedStore.key_of_get? hl,
      CapabilityLease.isValid_iff.mp hv⟩
  findsAndConsumes now tid name l' m hc := by
    obtain ⟨l, hl, ⟨htid, hv, hcov⟩, -, rfl, -⟩ := LeaseManager.findAndConsume_eq_ok hc
    exact ⟨l, hl, (l.id_consumeUse).symm, htid, hcov, CapabilityLease.isValid_iff.mp hv⟩
  derives lookup_at check_at granted_at id parent child req c hc := by
    obtain ⟨-, -, p, hp, -, -, hmax, huses, hexp, hacts⟩ :=
      LeaseManager.mem_deriveChildLeases_budget hc
    obtain ⟨hpm, hpv⟩ := List.mem_filter.mp hp
    simp only [Bool.and_eq_true, beq_iff_eq] at hpv
    refine ⟨p, hpm, hpv.1, hpv.2, hmax, huses, hexp, fun name hcov => ?_⟩
    rw [CapabilityLease.coversAction, hacts] at hcov
    refine ⟨LeaseManager.covers_childGrants hcov, ?_⟩
    rintro names rfl
    exact LeaseManager.covers_request_of_childGrants hcov

/-- A grant of two uses, of which one is taken, given back and taken again, and a child that
inherits the other one. -/
theorem budgets_conserved_refunded :
    Conserved (([.grant 0 ⟨1⟩ "tools" .all none (some 2), .consumeUse 1 ⟨0⟩, .refundUse ⟨0⟩,
      .findAndConsume 2 ⟨1⟩ "shell", .deriveChildLeases 3 3 3 ⟨1⟩ ⟨2⟩ (some ["shell"])] :
        List LeaseOp).foldl (perform LeaseId.mk) start) :=
  budgets_conserved (fun _ _ h => LeaseId.mk.inj h)
    (Reached.start.foldl _)

end LeaseRun

end T3Claw
