import T3Claw.Data.LastWrite
import T3Claw.Gate.Store

/-!
# The two maps of the gate store

The store keeps its gates under their keys and the keys under the request ids. `insert` looks
whether the key is free before it writes; `restore_from_persistence` writes without looking,
and neither looks at the request id. So the maps stay inverse to each other exactly as long as
no write meets the key or the request id of another gate (`gate_index_consistent_iff`).
-/

namespace T3Claw

open LastWrite

/-- An operation on the maps, with the clock reading it makes. A restore comes with the gates
the backend has loaded. -/
inductive GateOp where
  | insert (gate : PendingGate)
  | takeVerified (now : Time) (key : PendingGateKey) (request_id : ℕ)
      (responding_channel : String)
  | discard (key : PendingGateKey)
  | discardForThread (thread_id : ThreadId)
  | expireStale (now : Time)
  | restoreFromPersistence (now : Time) (gates : List PendingGate)

/-- The maps after an operation. -/
def GateOp.perform (s : StoreInner) : GateOp → StoreInner
  | .insert gate => (s.insert gate).toOption.getD s
  | .takeVerified now key request_id channel => (s.takeVerified now key request_id channel).2
  | .discard key => (s.discard key).toOption.getD s
  | .discardForThread thread_id => (s.discardForThread thread_id).2
  | .expireStale now => (s.expireStale now).2
  | .restoreFromPersistence now gates => (s.restore now gates).2

/-- What a restore puts in. -/
def restorable (now : Time) (gates : List PendingGate) : List PendingGate :=
  (gates.filter fun g => !g.isExpired now).map PendingGate.withoutHint

namespace StoreInner

/-- The maps are inverse to each other. -/
structure Consistent (s : StoreInner) : Prop where
  of_key : ∀ k gate, s.by_key.lookup k = some gate →
    k = gate.key ∧ s.by_request_id.lookup gate.request_id = some k
  of_request : ∀ r k, s.by_request_id.lookup r = some k →
    ∃ gate, s.by_key.lookup k = some gate ∧ gate.request_id = r

/-- A gate is only taken for its own key and request id, by an authorised channel and in time;
otherwise nothing changes, but for an expired gate that is cleaned up. -/
def TakesVerified (s : StoreInner) : Prop :=
  ∀ now key request_id channel, match s.takeVerified now key request_id channel with
    | (.ok gate, s') => s.by_key.lookup key = some gate ∧ gate.key = key ∧
        gate.request_id = request_id ∧
        (gate.source_channel = channel ∨ channel ∈ TRUSTED_GATE_CHANNELS) ∧
        gate.isExpired now = false ∧ s' = (s.remove key).2
    | (.error .expired, s') => s' = (s.remove key).2 ∧
        ∃ gate, s.by_key.lookup key = some gate ∧ gate.isExpired now = true
    | (.error _, s') => s' = s

/-- Both halves of what is promised of a state of the store. -/
structure Indexed (s : StoreInner) : Prop where
  consistent : s.Consistent
  takesVerified : s.TakesVerified

variable {s : StoreInner} {gate : PendingGate} {key : PendingGateKey}

theorem consistent_new : new.Consistent where
  of_key _ _ h := nomatch h
  of_request _ _ h := nomatch h

/-- In a consistent store a gate is only taken as it should be. -/
theorem Consistent.takesVerified (h : s.Consistent) : s.TakesVerified := by
  intro now key request_id channel
  rw [takeVerified]
  cases hk : s.by_key.lookup key with
  | none => rfl
  | some gate =>
    dsimp only
    split_ifs with hr hc hexp
    · rfl
    · exact ⟨rfl, gate, rfl, hexp⟩
    · refine ⟨rfl, (h.of_key key gate hk).1.symm, not_not.mp hr, hc, ?_, rfl⟩
      exact Bool.eq_false_iff.mpr hexp
    · rfl

/-! ### Taking gates out -/

/-- No other gate has the request id of a gate that is taken out. -/
theorem Consistent.remove (h : s.Consistent) (key : PendingGateKey) :
    (s.remove key).2.Consistent := by
  rw [StoreInner.remove]
  cases hk : s.by_key.lookup key with
  | none => exact h
  | some gate =>
    have hreq := (h.of_key key gate hk).2
    constructor
    · intro k g hg
      have hne : k ≠ key := by
        rintro rfl
        rw [AList.lookup_erase] at hg
        cases hg
      rw [AList.lookup_erase_ne hne] at hg
      obtain ⟨hkey, hr⟩ := h.of_key k g hg
      refine ⟨hkey, ?_⟩
      rw [AList.lookup_erase_ne fun hsame => hne ?_]
      · exact hr
      · rw [hsame, hreq] at hr
        exact (Option.some.inj hr).symm
    · intro r k hr
      have hne : r ≠ gate.request_id := by
        rintro rfl
        rw [AList.lookup_erase] at hr
        cases hr
      rw [AList.lookup_erase_ne hne] at hr
      obtain ⟨g, hg, hgr⟩ := h.of_request r k hr
      refine ⟨g, ?_, hgr⟩
      rw [AList.lookup_erase_ne]
      · exact hg
      · rintro rfl
        rw [hk] at hg
        exact hne (hgr.symm.trans (congrArg PendingGate.request_id (Option.some.inj hg).symm))

theorem Consistent.removeAll (h : s.Consistent) (keys : List PendingGateKey) :
    (StoreInner.removeAll keys s).2.Consistent := by
  induction keys generalizing s with
  | nil => exact h
  | cons key keys ih =>
    have hrest := ih (h.remove key)
    rw [StoreInner.removeAll]
    split
    case h_1 s' hs => simpa [hs] using hrest
    case h_2 g s' hs => simpa [hs] using hrest

/-! ### Putting gates in -/

/-- The maps after several writes. -/
theorem lookup_foldl_put {L : List PendingGate} {k : PendingGateKey} :
    (L.foldl put s).by_key.lookup k =
      (lastWith PendingGate.key k L).or (s.by_key.lookup k) := by
  induction L generalizing s with
  | nil => rfl
  | cons g L ih =>
    rw [List.foldl_cons, ih, lookup_put, lastWith, Option.or_assoc]
    congr 1
    by_cases hk : k = g.key
    · simp [hk]
    · simp [hk, Ne.symm hk]

theorem lookup_request_foldl_put {L : List PendingGate} {r : ℕ} :
    (L.foldl put s).by_request_id.lookup r =
      ((lastWith PendingGate.request_id r L).map PendingGate.key).or
        (s.by_request_id.lookup r) := by
  induction L generalizing s with
  | nil => rfl
  | cons g L ih =>
    rw [List.foldl_cons, ih, lookup_request_put, lastWith]
    by_cases hr : r = g.request_id
    · cases lastWith PendingGate.request_id r L <;> simp [hr]
    · cases lastWith PendingGate.request_id r L <;> simp [hr, Ne.symm hr]

/-- A consistent store reads as the list of its gates. -/
theorem Consistent.lookup_eq (h : s.Consistent) (k : PendingGateKey) :
    s.by_key.lookup k = lastWith PendingGate.key k s.gates := by
  cases hk : s.by_key.lookup k with
  | none =>
    refine (lastWith_eq_none_iff.mpr fun g hg hgk => ?_).symm
    obtain ⟨k', hk'⟩ := mem_gates.mp hg
    rw [← hgk, ← (h.of_key k' g hk').1, hk'] at hk
    cases hk
  | some g =>
    obtain rfl := (h.of_key k g hk).1
    refine (lastWith_of_inj (fun b hb hkey => ?_) (mem_gates.mpr ⟨_, hk⟩)).symm
    obtain ⟨k', hk'⟩ := mem_gates.mp hb
    rw [(h.of_key k' b hk').1, hkey, hk] at hk'
    exact (Option.some.inj hk').symm

theorem Consistent.lookup_request_eq (h : s.Consistent) (r : ℕ) :
    s.by_request_id.lookup r =
      (lastWith PendingGate.request_id r s.gates).map PendingGate.key := by
  cases hr : s.by_request_id.lookup r with
  | none =>
    have hnone : lastWith PendingGate.request_id r s.gates = none := by
      refine lastWith_eq_none_iff.mpr fun g hg hgr => ?_
      obtain ⟨k, hk⟩ := mem_gates.mp hg
      rw [← hgr, (h.of_key k g hk).2] at hr
      cases hr
    rw [hnone]
    rfl
  | some k =>
    obtain ⟨g, hg, rfl⟩ := h.of_request r k hr
    have hstands : lastWith PendingGate.request_id g.request_id s.gates = some g := by
      refine lastWith_of_inj (fun b hb hreq => ?_) (mem_gates.mpr ⟨k, hg⟩)
      obtain ⟨k', hk'⟩ := mem_gates.mp hb
      have hb' := (h.of_key k' b hk').2
      rw [hreq, hr] at hb'
      rw [← Option.some.inj hb', hg] at hk'
      exact (Option.some.inj hk').symm
    rw [hstands, (h.of_key k g hg).1]
    rfl

/-- A store that reads as a list of writes is consistent when the two indexes of the list
agree. -/
theorem consistent_iff_agree {H : List PendingGate}
    (hkey : ∀ k, s.by_key.lookup k = lastWith PendingGate.key k H)
    (hreq : ∀ r, s.by_request_id.lookup r =
      (lastWith PendingGate.request_id r H).map PendingGate.key) :
    s.Consistent ↔ Agree PendingGate.key PendingGate.request_id H := by
  constructor
  · intro h k r
    rw [← hkey]
    constructor
    · rintro ⟨g, hg, rfl⟩
      have hr := (h.of_key k g hg).2
      rw [hreq] at hr
      exact Option.map_eq_some_iff.mp hr
    · intro hr
      rw [← Option.map_eq_some_iff, ← hreq] at hr
      exact h.of_request r k hr
  · intro h
    constructor
    · intro k g hg
      rw [hkey] at hg
      refine ⟨(mem_of_lastWith hg).2.symm, ?_⟩
      rw [hreq, Option.map_eq_some_iff]
      exact (h k g.request_id).mp ⟨g, hg, rfl⟩
    · intro r k hr
      rw [hreq, Option.map_eq_some_iff] at hr
      rw [hkey]
      exact (h k r).mpr hr

/-- Writes into a consistent store. -/
theorem Consistent.foldl_put_iff (h : s.Consistent) (L : List PendingGate) :
    (L.foldl put s).Consistent ↔
      Matched PendingGate.key PendingGate.request_id (s.gates ++ L) := by
  rw [matched_iff]
  refine consistent_iff_agree (fun k => ?_) fun r => ?_
  · rw [lookup_foldl_put, lastWith_append, h.lookup_eq]
  · rw [lookup_request_foldl_put, lastWith_append, h.lookup_request_eq, Option.map_or]

theorem restore_eq (now : Time) (gates : List PendingGate) :
    (s.restore now gates).2 = (restorable now gates).foldl put s := by
  have hfold : ∀ (n : ℕ) (s : StoreInner), (gates.foldl (restoreGate now) (n, s)).2 =
      (restorable now gates).foldl put s := by
    induction gates with
    | nil => exact fun _ _ => rfl
    | cons g gates ih =>
      intro n s
      rw [List.foldl_cons, restoreGate]
      by_cases hexp : g.isExpired now = true
      · simpa [hexp, restorable] using ih n s
      · simpa [hexp, restorable] using ih (n + 1) (s.put g.withoutHint)
  exact hfold 0 s

/-- A gate put under a free key. -/
theorem Consistent.put_iff (h : s.Consistent) (hfree : s.by_key.lookup gate.key = none) :
    (s.put gate).Consistent ↔ gate.request_id ∉ s.by_request_id := by
  constructor
  · intro hput hmem
    obtain ⟨k, hk⟩ := Option.isSome_iff_exists.mp (AList.lookup_isSome.mpr hmem)
    obtain ⟨g, hg, hgr⟩ := h.of_request _ k hk
    have hne : k ≠ gate.key := by
      rintro rfl
      rw [hfree] at hg
      cases hg
    -- the older gate stands under its key, and its request id now leads to the new one
    have hold : (s.put gate).by_key.lookup k = some g := by rw [lookup_put, if_neg hne, hg]
    have hreq := (hput.of_key k g hold).2
    rw [lookup_request_put, if_pos hgr] at hreq
    exact hne (Option.some.inj hreq).symm
  · intro hnew
    constructor
    · intro k g hg
      rw [lookup_put] at hg
      split_ifs at hg with hk
      · obtain rfl := Option.some.inj hg
        exact ⟨hk, by rw [lookup_request_put, if_pos rfl, hk]⟩
      · obtain ⟨hkey, hr⟩ := h.of_key k g hg
        refine ⟨hkey, ?_⟩
        rw [lookup_request_put, if_neg]
        · exact hr
        · intro hsame
          have hin : s.by_request_id.lookup gate.request_id = some k := hsame ▸ hr
          exact hnew (AList.lookup_isSome.mp (Option.isSome_iff_exists.mpr ⟨k, hin⟩))
    · intro r k hr
      rw [lookup_request_put] at hr
      split_ifs at hr with hreq
      · obtain rfl := Option.some.inj hr
        exact ⟨gate, by rw [lookup_put, if_pos rfl], hreq.symm⟩
      · obtain ⟨g, hg, hgr⟩ := h.of_request r k hr
        refine ⟨g, ?_, hgr⟩
        rw [lookup_put, if_neg]
        · exact hg
        · rintro rfl
          rw [hfree] at hg
          cases hg

end StoreInner

/-! ### Runs -/

/-- No write of the operation meets one half of another gate. An insert into a free key brings
a request id of its own; of the gates in memory and the gates a restore puts in, each is
overwritten by a later one under its key exactly when it is under its request id. -/
def GateOp.NoClash (s : StoreInner) : GateOp → Prop
  | .insert gate => gate.key ∈ s.by_key ∨ gate.request_id ∉ s.by_request_id
  | .restoreFromPersistence now gates =>
    Matched PendingGate.key PendingGate.request_id (s.gates ++ restorable now gates)
  | _ => True

/-- The maps are as promised before, between and after the operations. -/
def IndexedAlong (s : StoreInner) : List GateOp → Prop
  | [] => s.Indexed
  | op :: ops => s.Indexed ∧ IndexedAlong (op.perform s) ops

/-- No operation of the run clashes. -/
def NoClashAlong (s : StoreInner) : List GateOp → Prop
  | [] => True
  | op :: ops => op.NoClash s ∧ NoClashAlong (op.perform s) ops

namespace StoreInner

variable {s : StoreInner}

/-- One operation on a consistent store. -/
theorem Consistent.perform_iff (h : s.Consistent) (op : GateOp) :
    (op.perform s).Consistent ↔ op.NoClash s := by
  cases op with
  | insert gate =>
    rw [GateOp.perform, GateOp.NoClash, StoreInner.insert]
    split_ifs with hmem
    · exact iff_of_true h (.inl hmem)
    · have hfree := AList.lookup_eq_none.mpr hmem
      rw [or_iff_right hmem]
      exact h.put_iff hfree
  | takeVerified now key request_id channel =>
    refine iff_of_true ?_ trivial
    rw [GateOp.perform]
    obtain ⟨e, he⟩ | ⟨gate, -, -, hexp⟩ | ⟨gate, -, -, hok⟩ :=
      s.takeVerified_cases now key request_id channel
    · rw [he]
      exact h
    · rw [hexp]
      exact h.remove key
    · rw [hok]
      exact h.remove key
  | discard key =>
    refine iff_of_true ?_ trivial
    rw [GateOp.perform, StoreInner.discard]
    have hremoved := h.remove key
    split
    case h_1 => exact h
    case h_2 gate s' hs =>
      rw [hs] at hremoved
      exact hremoved
  | discardForThread thread_id => exact iff_of_true (h.removeAll _) trivial
  | expireStale now => exact iff_of_true (h.removeAll _) trivial
  | restoreFromPersistence now gates =>
    rw [GateOp.perform, GateOp.NoClash, restore_eq]
    exact h.foldl_put_iff _

theorem Consistent.indexed (h : s.Consistent) : s.Indexed := ⟨h, h.takesVerified⟩

theorem Consistent.along_iff (h : s.Consistent) (ops : List GateOp) :
    IndexedAlong s ops ↔ NoClashAlong s ops := by
  induction ops generalizing s with
  | nil => exact iff_of_true h.indexed trivial
  | cons op ops ih =>
    rw [IndexedAlong, NoClashAlong, and_iff_right h.indexed]
    constructor
    · intro hrun
      have hnext : (op.perform s).Consistent := by
        cases ops with
        | nil => exact hrun.consistent
        | cons => exact hrun.1.consistent
      exact ⟨(h.perform_iff op).mp hnext, (ih hnext).mp hrun⟩
    · rintro ⟨hop, hrun⟩
      exact (ih ((h.perform_iff op).mpr hop)).mpr hrun

end StoreInner

/-- **The maps stay inverse to each other, and gates are only taken as promised, exactly in the
runs in which no write meets one half of another gate.** -/
theorem gate_index_consistent_iff (ops : List GateOp) :
    IndexedAlong .new ops ↔ NoClashAlong .new ops :=
  StoreInner.consistent_new.along_iff ops

/-- A restore over a pending gate of the same user and thread: the older request id still leads
to the key, under which another gate stands. -/
theorem restore_leaves_stale_request : ¬IndexedAlong .new
    [.insert (shellGate 0), .restoreFromPersistence 10 [shellGate 1]] := by
  intro h
  obtain ⟨gate, hgate, hreq⟩ := h.2.2.consistent.of_request 0 ⟨"u1", ⟨7⟩⟩ rfl
  have hput : some (shellGate 1).withoutHint = some gate := hgate
  rw [← Option.some.inj hput] at hreq
  cases hreq

end T3Claw
