import T3Claw.Gate.Index
import T3Claw.Gate.Restart

/-!
# A gate is used at most once

Every operation passes through the lock once, and then owes the backend a call for each key it
has touched. Counting the calls it still owes with those it has made, the newest pass on a key
decides what is in memory there, up to gates that have expired (`Kept.memory`), and the newest
call what is in the file (`Kept.file`). At rest nothing is owed, so a restart that finds the two
orders agreeing brings back what was in memory; and as the request ids are distinct, what has
left the memory has left it for good.
-/

namespace T3Claw

open Conc LastWrite

/-! ### What a restart sees of a gate -/

theorem asRestored_eq_some {now : Time} {gate : Option PendingGate} {g : PendingGate} :
    asRestored now gate = some g ↔
      ∃ h, gate = some h ∧ h.isExpired now = false ∧ h.withoutHint = g := by
  cases gate with
  | none => simp [asRestored]
  | some h => simp [asRestored, Option.filter_eq_some_iff, and_assoc]

/-- A later look sees no more. -/
theorem asRestored_of_le {now later : Time} (hle : now ≤ later) (gate : Option PendingGate) :
    asRestored later (asRestored now gate) = asRestored later gate := by
  refine Option.ext fun g => ?_
  simp only [asRestored_eq_some]
  constructor
  · rintro ⟨_, ⟨h, rfl, -, rfl⟩, hlive, rfl⟩
    exact ⟨h, rfl, hlive, rfl⟩
  · rintro ⟨h, rfl, hlive, rfl⟩
    refine ⟨h.withoutHint, ⟨h, rfl, ?_, rfl⟩, hlive, rfl⟩
    by_contra hexp
    rw [Bool.not_eq_false] at hexp
    rw [PendingGate.isExpired_mono hle hexp] at hlive
    cases hlive

/-- What two gates look like later depends on what they look like now. -/
theorem asRestored_congr {now later : Time} (hle : now ≤ later) {gate other : Option PendingGate}
    (h : asRestored now gate = asRestored now other) :
    asRestored later gate = asRestored later other := by
  rw [← asRestored_of_le hle gate, h, asRestored_of_le hle other]

/-! ### The course of an operation -/

/-- The backend calls a program still makes once it is past the lock. -/
def owed : GateProg → List PersistenceCall
  | .done _ => []
  | .act (.lock _) _ => []
  | .act (.persist call) f => call :: owed (f ())

/-- What it returns once it is past the lock. -/
def outcome? : GateProg → Option GateResult
  | .done result => some result
  | .act (.lock _) _ => none
  | .act (.persist _) f => outcome? (f ())

namespace GateCall

/-- The backend calls owed after an answer of the lock section. -/
def owes : (call : GateCall) → GateInstr.Answer (.lock call) → List PersistenceCall
  | .insert gate, .ok () => [.save gate]
  | .insert _, .error _ => []
  | .takeVerified key _ _, .ok _ => [.remove key]
  | .takeVerified .., .error _ => []
  | .discard key, .ok () => [.remove key]
  | .discard _, .error _ => []
  | .discardForThread _, (keys, _) => keys.map .remove
  | .expireStale, expired_keys => expired_keys.map .remove

/-- What is returned after it. -/
def result : (call : GateCall) → GateInstr.Answer (.lock call) → GateResult
  | .insert _, answer => .inserted answer
  | .takeVerified .., answer => .taken answer
  | .discard _, answer => .discarded answer
  | .discardForThread _, (_, gates) => .removed gates
  | .expireStale, expired_keys => .expired expired_keys.length

end GateCall

theorem owed_removeEach (keys : List PendingGateKey) (a : GateResult) :
    owed (removeEach keys >>= fun _ => pure a) = keys.map .remove ∧
      outcome? (removeEach keys >>= fun _ => pure a) = some a := by
  induction keys with
  | nil => exact ⟨rfl, rfl⟩
  | cons key keys ih =>
    constructor
    · exact congrArg (PersistenceCall.remove key :: ·) ih.1
    · exact ih.2

/-- An operation starts with its lock section and is then set on its course. -/
theorem GateCall.code_eq (call : GateCall) : ∃ f, call.code = .act (.lock call) f ∧
    ∀ answer, owed (f answer) = call.owes answer ∧
      outcome? (f answer) = some (call.result answer) := by
  cases call with
  | insert gate => exact ⟨_, rfl, fun answer => by cases answer <;> exact ⟨rfl, rfl⟩⟩
  | takeVerified key request_id channel =>
    exact ⟨_, rfl, fun answer => by cases answer <;> exact ⟨rfl, rfl⟩⟩
  | discard key => exact ⟨_, rfl, fun answer => by cases answer <;> exact ⟨rfl, rfl⟩⟩
  | discardForThread thread_id => exact ⟨_, rfl, fun _ => owed_removeEach _ _⟩
  | expireStale => exact ⟨_, rfl, fun _ => owed_removeEach _ _⟩

/-! ### The lock sections -/

/-- What a lock section does, told apart by the keys for which a backend call is then owed. -/
structure Locked (call : GateCall) (s : GateWorld) (answer : GateInstr.Answer (.lock call))
    (s' : GateWorld) : Prop where
  file : s'.file = s.file
  now : s'.now = s.now
  touched : ∀ key ∈ (call.owes answer).map PersistenceCall.key,
    s'.inner.by_key.lookup key = call.leaves
  untouched : ∀ key ∉ (call.owes answer).map PersistenceCall.key,
    asRestored s.now (s'.inner.by_key.lookup key) = asRestored s.now (s.inner.by_key.lookup key)
  from_memory : ∀ key gate, s'.inner.by_key.lookup key = some gate →
    s.inner.by_key.lookup key = some gate ∨ call = .insert gate ∧ gate.key = key
  taken : ∀ gate, call.result answer = .taken (.ok gate) → ∃ key,
    s.inner.by_key.lookup key = some gate ∧ s'.inner.by_key.lookup key = none

section Locked

variable {s : GateWorld} {call : GateCall} {answer : GateInstr.Answer (.lock call)}

theorem not_taken_inserted {result : Except GateStoreError Unit} {gate : PendingGate} :
    GateResult.inserted result ≠ .taken (.ok gate) := nofun

theorem not_taken_error {e : GateStoreError} {gate : PendingGate} :
    GateResult.taken (.error e) ≠ .taken (.ok gate) := nofun

/-- A section that changes nothing. -/
theorem locked_nothing (howes : call.owes answer = [])
    (hresult : ∀ gate, call.result answer ≠ .taken (.ok gate)) : Locked call s answer s where
  file := rfl
  now := rfl
  touched key hkey := by
    rw [howes] at hkey
    cases hkey
  untouched _ _ := rfl
  from_memory _ _ := .inl
  taken gate h := absurd h (hresult gate)

/-- A section that takes gates out, and owes a removal for each key it has emptied, but for
expired gates. -/
theorem locked_removal {inner : StoreInner} (hleaves : call.leaves = none)
    (hnone : ∀ key ∈ (call.owes answer).map PersistenceCall.key, inner.by_key.lookup key = none)
    (hsame : ∀ key, inner.by_key.lookup key = s.inner.by_key.lookup key ∨
      inner.by_key.lookup key = none ∧
        (key ∈ (call.owes answer).map PersistenceCall.key ∨
          asRestored s.now (s.inner.by_key.lookup key) = none))
    (htaken : ∀ gate, call.result answer = .taken (.ok gate) → ∃ key,
      s.inner.by_key.lookup key = some gate ∧ inner.by_key.lookup key = none) :
    Locked call s answer { s with inner } where
  file := rfl
  now := rfl
  touched key hkey := (hnone key hkey).trans hleaves.symm
  untouched key hkey := by
    obtain hk | ⟨hk, hmem | hexp⟩ := hsame key
    · exact congrArg _ hk
    · exact absurd hmem hkey
    · exact (congrArg _ hk).trans hexp.symm
  from_memory key gate hgate := by
    obtain hk | ⟨hk, -⟩ := hsame key
    · exact .inl (hk.symm.trans hgate)
    · exact nomatch hk.symm.trans hgate
  taken := htaken

/-- A section that takes out the gates of several keys, and owes a removal for each. -/
theorem locked_removeAll {keys : List PendingGateKey} (hleaves : call.leaves = none)
    (howes : call.owes answer = keys.map .remove)
    (hresult : ∀ gate, call.result answer ≠ .taken (.ok gate)) :
    Locked call s answer { s with inner := (StoreInner.removeAll keys s.inner).2 } := by
  have hkeys : (call.owes answer).map PersistenceCall.key = keys := by
    rw [howes, List.map_map]
    exact List.map_id keys
  refine locked_removal hleaves (fun k hk => ?_) (fun k => ?_) fun g hg => absurd hg (hresult g)
  · rw [hkeys] at hk
    exact StoreInner.lookup_removeAll.trans (if_pos hk)
  · rw [StoreInner.lookup_removeAll, hkeys]
    split_ifs with hk
    · exact .inr ⟨rfl, .inl hk⟩
    · exact .inl rfl

/-- **The lock sections.** -/
theorem locked (call : GateCall) (s : GateWorld) :
    Locked call s (GateWorld.exec (.lock call) s).1 (GateWorld.exec (.lock call) s).2 := by
  cases call with
  | insert gate =>
    rw [GateWorld.exec, StoreInner.insert]
    by_cases hmem : gate.key ∈ s.inner.by_key
    · rw [if_pos hmem]
      exact locked_nothing rfl fun _ h => by cases h
    · rw [if_neg hmem]
      -- an inserted gate answers to its own key only
      have hput (key : PendingGateKey) (h : key ≠ gate.key) :
          (s.inner.put gate).by_key.lookup key = s.inner.by_key.lookup key := by
        rw [StoreInner.lookup_put, if_neg h]
      refine ⟨rfl, rfl, fun key hkey => ?_, fun key hkey => ?_, fun key g hg => ?_,
        fun g hg => absurd hg not_taken_inserted⟩
      · obtain rfl := List.mem_singleton.mp hkey
        exact StoreInner.lookup_put.trans (if_pos rfl)
      · exact congrArg _ (hput key fun h => hkey (List.mem_singleton.mpr h))
      · by_cases hkey : key = gate.key
        · have hlookup : some gate = some g :=
            (StoreInner.lookup_put.trans (if_pos hkey)).symm.trans hg
          obtain rfl := Option.some.inj hlookup
          exact .inr ⟨rfl, hkey.symm⟩
        · exact .inl ((hput key hkey).symm.trans hg)
  | takeVerified key request_id channel =>
    have hremoved (k : PendingGateKey) : (s.inner.remove key).2.by_key.lookup k =
        if k = key then none else s.inner.by_key.lookup k := StoreInner.lookup_remove
    rw [GateWorld.exec]
    obtain ⟨e, he⟩ | ⟨gate, hkey, hexp, htake⟩ | ⟨gate, hkey, -, htake⟩ :=
      s.inner.takeVerified_cases s.now key request_id channel
    · rw [he]
      exact locked_nothing rfl fun _ => not_taken_error
    · rw [htake]
      refine locked_removal rfl (fun _ h => by cases h) (fun k => ?_) fun _ h =>
        absurd h not_taken_error
      -- a refused take removes the entry only where it has expired
      rw [hremoved]
      split_ifs with hk
      · rw [hk, hkey]
        exact .inr ⟨rfl, .inr (by simp [asRestored, hexp])⟩
      · exact .inl rfl
    · rw [htake]
      refine locked_removal rfl (fun k hk => ?_) (fun k => ?_) fun g hg => ?_
      · obtain rfl := List.mem_singleton.mp hk
        exact (hremoved _).trans (if_pos rfl)
      · rw [hremoved]
        split_ifs with hk
        · exact .inr ⟨rfl, .inl (List.mem_singleton.mpr hk)⟩
        · exact .inl rfl
      · obtain rfl : gate = g := Except.ok.inj (GateResult.taken.inj hg)
        exact ⟨key, hkey, (hremoved _).trans (if_pos rfl)⟩
  | discard key =>
    rw [GateWorld.exec, StoreInner.discard]
    cases hkey : s.inner.by_key.lookup key with
    | none =>
      rw [StoreInner.remove, hkey]
      exact locked_nothing rfl fun _ h => by cases h
    | some gate =>
      have hremoved (k : PendingGateKey) : (s.inner.remove key).2.by_key.lookup k =
          if k = key then none else s.inner.by_key.lookup k := StoreInner.lookup_remove
      rw [StoreInner.remove, hkey] at hremoved ⊢
      refine locked_removal rfl (fun k hk => ?_) (fun k => ?_) fun _ h => by cases h
      · obtain rfl := List.mem_singleton.mp hk
        exact (hremoved _).trans (if_pos rfl)
      · rw [hremoved]
        split_ifs with hk
        · exact .inr ⟨rfl, .inl (List.mem_singleton.mpr hk)⟩
        · exact .inl rfl
  | discardForThread thread_id => exact locked_removeAll rfl rfl fun _ h => by cases h
  | expireStale => exact locked_removeAll rfl rfl fun _ h => by cases h

end Locked

/-! ### The invariant -/

/-- The operations of a configuration. -/
abbrev GateTasks : Type := List (Task GateCall GateInstr GateInstr.Answer GateResult)

/-- Operation `k` owes a backend call about the key. -/
def owedOn (tasks : GateTasks) (key : PendingGateKey) (k : ℕ) : Bool :=
  match tasks[k]? with
  | none => false
  | some t => (owed t.prog).any fun call => call.key == key

/-- Operation `k` has touched the key: it has made a backend call about it or owes one. -/
def touches (c : GateConf) (key : PendingGateKey) (k : ℕ) : Bool :=
  calledOn c.log key k || owedOn c.tasks key k

/-- The operations and their traces in the log. -/
structure OnCourse (tasks : GateTasks) (log : GateLog) : Prop where
  /-- Before its lock section an operation has done nothing, after it its result is settled. -/
  phase : ∀ (k : ℕ) (call : GateCall) (prog : GateProg), tasks[k]? = some ⟨call, prog⟩ →
    (prog = call.code ∧ ∀ i, (k, i) ∉ log) ∨ (outcome? prog).isSome
  /-- What is in the log was done by an operation past its lock section, which was its own. -/
  logged : ∀ k i, (k, i) ∈ log → ∃ call prog, tasks[k]? = some ⟨call, prog⟩ ∧
    (outcome? prog).isSome ∧ ∀ lock, i = .lock lock → lock = call
  /-- Request ids are not inserted twice. -/
  distinct : ∀ (j k : ℕ) (gate other : PendingGate) (p q : GateProg),
    tasks[j]? = some ⟨.insert gate, p⟩ → tasks[k]? = some ⟨.insert other, q⟩ →
    gate.request_id = other.request_id → j = k

/-- What holds in every run whose restarts find the calls landed in order. -/
structure Kept (c : GateConf) : Prop extends OnCourse c.tasks c.log where
  /-- The file holds what the newest calls have left. -/
  file : ∀ gate, gate ∈ c.state.file ↔ fileView gate.key c.log = some gate
  /-- The memory holds what the newest passes have left, up to expired gates and hints. -/
  memory : ∀ key, asRestored c.state.now (c.state.inner.by_key.lookup key) =
    asRestored c.state.now (lockView (touches c key) c.log)
  /-- A gate in memory stands under its key and was inserted. -/
  inserted : ∀ key gate, c.state.inner.by_key.lookup key = some gate → gate.key = key ∧
    ∃ k g, (k, .lock (.insert g)) ∈ c.log ∧ g.withoutHint = gate.withoutHint

theorem fileView_key {key : PendingGateKey} {log : GateLog} {gate : PendingGate}
    (h : fileView key log = some gate) : gate.key = key := by
  induction log with
  | nil => cases h
  | cons e log ih =>
    obtain ⟨k, call | call⟩ := e
    · exact ih h
    · rw [fileView] at h
      split_ifs at h with hkey
      · cases call with
        | save g =>
          obtain rfl : g = gate := Option.some.inj h
          exact hkey
        | remove key => cases h
      · exact ih h

/-- Only what is said of operations with a lock section in the log matters. -/
theorem lockView_congr {p q : ℕ → Bool} {log : GateLog}
    (h : ∀ k call, (k, GateInstr.lock call) ∈ log → p k = q k) :
    lockView p log = lockView q log := by
  induction log with
  | nil => rfl
  | cons e log ih =>
    have hrest := ih fun k call hmem => h k call (List.mem_cons_of_mem _ hmem)
    obtain ⟨k, call | call⟩ := e
    · rw [lockView, lockView, h k call List.mem_cons_self, hrest]
    · exact hrest

/-- An edit of the file is one more call in the log. -/
theorem mem_edit_iff {file : List PendingGate} {log : GateLog} {call : PersistenceCall} {k : ℕ}
    (h : ∀ gate, gate ∈ file ↔ fileView gate.key log = some gate) (gate : PendingGate) :
    gate ∈ call.edit file ↔
      fileView gate.key ((k, GateInstr.persist call) :: log) = some gate := by
  rw [fileView]
  cases call with
  | save g =>
    have hmem : gate ∈ (PersistenceCall.save g).edit file ↔
        gate ∈ file ∧ gate.key ≠ g.key ∨ gate = g := by
      simp [PersistenceCall.edit, FileGatePersistence.retainOthers]
    rw [hmem, h gate]
    by_cases hkey : (PersistenceCall.save g).key = gate.key
    · rw [if_pos hkey, or_iff_right fun hold => hold.2 hkey.symm, eq_comm]
      exact Option.some_inj.symm
    · rw [if_neg hkey, or_iff_left, and_iff_left fun hk => hkey hk.symm]
      rintro rfl
      exact hkey rfl
  | remove key =>
    have hmem : gate ∈ (PersistenceCall.remove key).edit file ↔
        gate ∈ file ∧ gate.key ≠ key := by
      simp [PersistenceCall.edit, FileGatePersistence.retainOthers]
    rw [hmem, h gate]
    by_cases hkey : (PersistenceCall.remove key).key = gate.key
    · rw [if_pos hkey]
      exact iff_of_false (fun hold => hold.2 hkey.symm) (nomatch ·)
    · rw [if_neg hkey, and_iff_left fun hk => hkey hk.symm]

section OnCourse

variable {tasks : GateTasks} {log : GateLog} {k : ℕ} {call : GateCall}

/-- What holds before a lock section, of an operation that has not passed it. -/
theorem OnCourse.fresh (h : OnCourse tasks log) {lock : GateCall}
    {f : GateInstr.Answer (.lock lock) → GateProg}
    (hk : tasks[k]? = some ⟨call, .act (.lock lock) f⟩) :
    lock = call ∧ (∀ i, (k, i) ∉ log) ∧
      ∀ answer, owed (f answer) = lock.owes answer ∧
        outcome? (f answer) = some (lock.result answer) := by
  obtain ⟨hcode, hlog⟩ | hpast := h.phase k call _ hk
  · obtain ⟨g, hg, hcourse⟩ := call.code_eq
    rw [hg] at hcode
    injection hcode with hi hf
    obtain rfl := GateInstr.lock.inj hi
    obtain rfl := eq_of_heq hf
    exact ⟨rfl, hlog, hcourse⟩
  · cases hpast

/-- A step, after which the operation is past its lock section. -/
theorem OnCourse.step (h : OnCourse tasks log) {i : GateInstr} {prog prog' : GateProg}
    (hk : tasks[k]? = some ⟨call, prog⟩) (hpast : (outcome? prog').isSome)
    (hi : ∀ lock, i = .lock lock → lock = call) :
    OnCourse (tasks.set k ⟨call, prog'⟩) ((k, i) :: log) := by
  have hself : (tasks.set k ⟨call, prog'⟩)[k]? = some ⟨call, prog'⟩ :=
    List.getElem?_set_self (List.getElem?_eq_some_iff.mp hk).1
  -- the operation of a task does not change
  have hop : ∀ (j : ℕ) (op : GateCall) (p : GateProg),
      (tasks.set k ⟨call, prog'⟩)[j]? = some ⟨op, p⟩ →
        ∃ p', tasks[j]? = some ⟨op, p'⟩ := by
    intro j op p hj
    obtain ⟨rfl, ht⟩ | ⟨-, hj⟩ := System.getElem?_set_cases hj
    · obtain ⟨rfl, rfl⟩ := Task.mk.inj ht
      exact ⟨prog, hk⟩
    · exact ⟨p, hj⟩
  constructor
  · intro j op p hj
    obtain ⟨rfl, ht⟩ | ⟨hne, hj⟩ := System.getElem?_set_cases hj
    · obtain ⟨rfl, rfl⟩ := Task.mk.inj ht
      exact .inr hpast
    · refine (h.phase j op p hj).imp_left fun ⟨hcode, hlog⟩ => ⟨hcode, fun i' hmem => ?_⟩
      obtain heq | hmem := List.mem_cons.mp hmem
      · exact hne (Prod.mk.inj heq).1
      · exact hlog i' hmem
  · intro j i' hmem
    obtain heq | hmem := List.mem_cons.mp hmem
    · obtain ⟨rfl, rfl⟩ := Prod.mk.inj heq
      exact ⟨call, prog', hself, hpast, hi⟩
    · obtain ⟨op, p, hj, hsome, hlock⟩ := h.logged j i' hmem
      by_cases hjk : j = k
      · subst hjk
        obtain ⟨rfl, rfl⟩ := Task.mk.inj (Option.some.inj (hj.symm.trans hk))
        exact ⟨op, prog', hself, hpast, hlock⟩
      · exact ⟨op, p, (List.getElem?_set_ne (Ne.symm hjk)).trans hj, hsome, hlock⟩
  · intro j l gate other p q hj hl hid
    obtain ⟨p', hj⟩ := hop j _ p hj
    obtain ⟨q', hl⟩ := hop l _ q hl
    exact h.distinct j l gate other p' q' hj hl hid

/-- A start, with a request id of its own. -/
theorem OnCourse.start (h : OnCourse tasks log)
    (hnew : ∀ gate, call = .insert gate → ∀ t ∈ tasks, ∀ other, t.op = .insert other →
      other.request_id ≠ gate.request_id) : OnCourse (tasks ++ [⟨call, call.code⟩]) log := by
  have hold : ∀ (j : ℕ) (i : GateInstr), (j, i) ∈ log → j < tasks.length := by
    intro j i hmem
    obtain ⟨op, p, hj, -, -⟩ := h.logged j i hmem
    exact (List.getElem?_eq_some_iff.mp hj).1
  constructor
  · intro j op p hj
    obtain hj | ⟨rfl, ht⟩ := System.getElem?_append_cases hj
    · exact h.phase j op p hj
    · obtain ⟨rfl, rfl⟩ := Task.mk.inj ht
      exact .inl ⟨rfl, fun i hmem => (hold _ i hmem).false⟩
  · intro j i hmem
    obtain ⟨op, p, hj, hsome, hlock⟩ := h.logged j i hmem
    exact ⟨op, p, (List.getElem?_append_left (hold j i hmem)).trans hj, hsome, hlock⟩
  · intro j l gate other p q hj hl hid
    obtain hj | ⟨rfl, ht⟩ := System.getElem?_append_cases hj <;>
      obtain hl | ⟨rfl, hu⟩ := System.getElem?_append_cases hl
    · exact h.distinct j l gate other p q hj hl hid
    · exact absurd hid (hnew other (Task.mk.inj hu).1.symm _ (List.mem_of_getElem? hj) gate rfl)
    · exact absurd hid.symm
        (hnew gate (Task.mk.inj ht).1.symm _ (List.mem_of_getElem? hl) other rfl)
    · rfl

end OnCourse

/-! ### Steps keep the invariant -/

section Steps

variable {c : GateConf} {k : ℕ} {call : GateCall}

theorem owedOn_set {tasks : GateTasks} {t : Task GateCall GateInstr GateInstr.Answer GateResult}
    {prog : GateProg} (hk : tasks[k]? = some t) (key : PendingGateKey) (j : ℕ) :
    owedOn (tasks.set k ⟨call, prog⟩) key j =
      if j = k then (owed prog).any fun call => call.key == key else owedOn tasks key j := by
  unfold owedOn
  split_ifs with hj
  · rw [hj, List.getElem?_set_self (List.getElem?_eq_some_iff.mp hk).1]
  · rw [List.getElem?_set_ne (Ne.symm hj)]

theorem owedOn_append {tasks : GateTasks} (key : PendingGateKey) :
    owedOn (tasks ++ [⟨call, call.code⟩]) key = owedOn tasks key := by
  funext j
  obtain ⟨f, hf, -⟩ := call.code_eq
  unfold owedOn
  obtain hj | rfl | hj := Nat.lt_trichotomy j tasks.length
  · rw [List.getElem?_append_left hj]
  · rw [List.getElem?_concat_length, List.getElem?_eq_none le_rfl, hf]
    rfl
  · rw [List.getElem?_eq_none hj.le, List.getElem?_eq_none]
    rw [List.length_append]
    exact hj

theorem any_key_iff {calls : List PersistenceCall} {key : PendingGateKey} :
    (calls.any fun call => call.key == key) = true ↔ key ∈ calls.map PersistenceCall.key := by
  simp only [List.any_eq_true, List.mem_map, beq_iff_eq]

theorem calledOn_eq_false {log : GateLog} (h : ∀ i, (k, i) ∉ log) (key : PendingGateKey) :
    calledOn log key k = false := by
  refine List.any_eq_false.mpr fun e he => ?_
  obtain ⟨j, lock | persist⟩ := e
  · exact Bool.false_ne_true
  · intro hboth
    have hj : (j == k) = true := (Bool.and_eq_true _ _ ▸ hboth).1
    obtain rfl := beq_iff_eq.mp hj
    exact h _ he

/-- An operation passes through the lock. -/
theorem Kept.lock (h : Kept c) {lock : GateCall} {f : GateInstr.Answer (.lock lock) → GateProg}
    (hk : c.tasks[k]? = some ⟨call, .act (.lock lock) f⟩) :
    Kept ⟨c.toMemory.after gateSystem.toMachine k (.lock lock),
      c.tasks.set k ⟨call, f (GateWorld.exec (.lock lock) c.state).1⟩⟩ := by
  obtain ⟨rfl, hnolog, hcourse⟩ := h.fresh hk
  obtain ⟨howed, hout⟩ := hcourse (GateWorld.exec (.lock lock) c.state).1
  have hlocked := locked lock c.state
  refine ⟨h.toOnCourse.step hk (by rw [hout]; rfl) fun _ hl => (GateInstr.lock.inj hl).symm,
    fun gate => ?_, fun key => ?_, fun key gate hgate => ?_⟩
  · exact (iff_of_eq (congrArg _ hlocked.file)).trans (h.file gate)
  · set c' : GateConf := ⟨c.toMemory.after gateSystem.toMachine k (.lock lock),
      c.tasks.set k ⟨lock, f (GateWorld.exec (.lock lock) c.state).1⟩⟩
    have htouch : ∀ j, touches c' key j = (calledOn c.log key j ||
        if j = k then (lock.owes (GateWorld.exec (.lock lock) c.state).1).any
          fun call => call.key == key
        else owedOn c.tasks key j) := by
      intro j
      rw [← howed]
      exact congrArg (calledOn c.log key j || ·) (owedOn_set hk key j)
    have hself : touches c' key k = (lock.owes (GateWorld.exec (.lock lock) c.state).1).any
        fun call => call.key == key := by
      rw [htouch, if_pos rfl, calledOn_eq_false hnolog, Bool.false_or]
    -- the older passes are those of other operations
    have hothers : lockView (touches c' key) c.log = lockView (touches c key) c.log := by
      refine lockView_congr fun j other hj => ?_
      rw [htouch, if_neg]
      · rfl
      · rintro rfl
        exact hnolog _ hj
    change asRestored (GateWorld.exec (.lock lock) c.state).2.now
        ((GateWorld.exec (.lock lock) c.state).2.inner.by_key.lookup key) =
      asRestored (GateWorld.exec (.lock lock) c.state).2.now
        (if touches c' key k then lock.leaves else lockView (touches c' key) c.log)
    rw [hself, hothers, hlocked.now]
    by_cases hmem : key ∈ (lock.owes (GateWorld.exec (.lock lock) c.state).1).map
        PersistenceCall.key
    · rw [if_pos (any_key_iff.mpr hmem), hlocked.touched key hmem]
    · rw [if_neg fun hany => hmem (any_key_iff.mp hany), hlocked.untouched key hmem]
      exact h.memory key
  · obtain hold | ⟨rfl, hkey⟩ := hlocked.from_memory key gate hgate
    · obtain ⟨hkey, j, g, hmem, hg⟩ := h.inserted key gate hold
      exact ⟨hkey, j, g, List.mem_cons_of_mem _ hmem, hg⟩
    · exact ⟨hkey, k, gate, List.mem_cons_self, rfl⟩

/-- A backend call that was owed is made. -/
theorem Kept.persist (h : Kept c) {persist : PersistenceCall} {f : Unit → GateProg}
    (hk : c.tasks[k]? = some ⟨call, .act (.persist persist) f⟩) :
    Kept ⟨c.toMemory.after gateSystem.toMachine k (.persist persist),
      c.tasks.set k ⟨call, f ()⟩⟩ := by
  have hpast : (outcome? (f ())).isSome := by
    obtain ⟨hcode, -⟩ | hpast := h.phase k call _ hk
    · obtain ⟨g, hg, -⟩ := call.code_eq
      cases hcode.trans hg
    · exact hpast
  refine ⟨h.toOnCourse.step hk hpast (fun _ hl => nomatch hl), mem_edit_iff h.file,
    fun key => ?_, fun key gate hgate => ?_⟩
  · set c' : GateConf := ⟨c.toMemory.after gateSystem.toMachine k (.persist persist),
      c.tasks.set k ⟨call, f ()⟩⟩
    have htouch : touches c' key = touches c key := by
      funext j
      have hmade : touches c' key j = (((k == j && persist.key == key) || calledOn c.log key j) ||
          if j = k then (owed (f ())).any fun call => call.key == key
          else owedOn c.tasks key j) :=
        congrArg ((k == j && persist.key == key || calledOn c.log key j) || ·)
          (owedOn_set hk key j)
      rw [hmade, touches]
      split_ifs with hj
      · -- the call moves from what is owed to what is made
        have howed : owedOn c.tasks key k = (persist.key == key ||
            (owed (f ())).any fun call => call.key == key) := by
          rw [owedOn, hk]
          rfl
        rw [hj, howed, beq_self_eq_true, Bool.true_and, Bool.or_left_comm, Bool.or_assoc,
          Bool.or_left_comm]
      · rw [beq_eq_false_iff_ne.mpr (Ne.symm hj), Bool.false_and, Bool.false_or]
    change asRestored c.state.now (c.state.inner.by_key.lookup key) =
      asRestored c.state.now (lockView (touches c' key) c.log)
    rw [htouch]
    exact h.memory key
  · obtain ⟨hkey, j, g, hmem, hg⟩ := h.inserted key gate hgate
    exact ⟨hkey, j, g, List.mem_cons_of_mem _ hmem, hg⟩

/-- An operation starts. -/
theorem Kept.start (h : Kept c) (hlegal : Legal c (.start call)) :
    Kept ⟨c.toMemory, c.tasks ++ [⟨call, call.code⟩]⟩ := by
  refine ⟨h.toOnCourse.start fun gate hgate => ?_, h.file, fun key => ?_, h.inserted⟩
  · subst hgate
    exact hlegal
  · have htouch : touches ⟨c.toMemory, c.tasks ++ [⟨call, call.code⟩]⟩ key =
        touches c key := by
      funext j
      exact congrArg (calledOn c.log key j || ·) (congrFun (owedOn_append key) j)
    rw [htouch]
    exact h.memory key

/-- The clock moves. -/
theorem Kept.clock (h : Kept c) (seconds : ℕ) :
    Kept ⟨⟨{ c.state with now := c.state.now + seconds }, c.log⟩, c.tasks⟩ := by
  refine ⟨h.toOnCourse, h.file, fun key => ?_, h.inserted⟩
  refine asRestored_congr ?_ (h.memory key)
  exact le_add_of_nonneg_right (Int.natCast_nonneg seconds)

/-- What a restart makes of the file. -/
theorem lookup_restart {file : List PendingGate} {now : Time} {log : GateLog}
    (hfile : ∀ gate, gate ∈ file ↔ fileView gate.key log = some gate) (key : PendingGateKey) :
    (StoreInner.new.restore now file).2.by_key.lookup key =
      asRestored now (fileView key log) := by
  have hmem : ∀ gate, gate ∈ restorable now file ↔
      ∃ g, fileView g.key log = some g ∧ g.isExpired now = false ∧ g.withoutHint = gate := by
    intro gate
    simp only [restorable, List.mem_map, List.mem_filter, hfile, Bool.not_eq_true', and_assoc]
  rw [StoreInner.restore_eq, StoreInner.lookup_foldl_put]
  refine (Option.or_none (o := lastWith PendingGate.key key (restorable now file))).trans ?_
  cases hview : asRestored now (fileView key log) with
  | none =>
    refine lastWith_eq_none_iff.mpr fun gate hgate hkey => ?_
    obtain ⟨g, hg, hlive, rfl⟩ := (hmem gate).mp hgate
    have hkey : g.key = key := hkey
    rw [hkey] at hg
    cases hview.symm.trans (asRestored_eq_some.mpr ⟨g, hg, hlive, rfl⟩)
  | some gate =>
    obtain ⟨g, hg, hlive, rfl⟩ := asRestored_eq_some.mp hview
    obtain rfl := fileView_key hg
    refine lastWith_of_inj (fun other hother hkey => ?_) ((hmem _).mpr ⟨g, hg, hlive, rfl⟩)
    obtain ⟨g', hg', -, rfl⟩ := (hmem other).mp hother
    have hkey : g'.key = g.key := hkey
    rw [hkey, hg] at hg'
    rw [Option.some.inj hg']

/-- At rest an operation has touched what it has called the backend about. -/
theorem touches_atRest (hrest : AtRest c) (key : PendingGateKey) :
    touches c key = calledOn c.log key := by
  funext j
  have hnone : owedOn c.tasks key j = false := by
    unfold owedOn
    split
    case h_1 => rfl
    case h_2 t ht =>
      obtain ⟨result, hdone⟩ := hrest t (List.mem_of_getElem? ht)
      rw [hdone]
      rfl
  rw [touches, hnone, Bool.or_false]

/-- **A restart that finds the calls landed in order brings back what was in memory.** -/
theorem Kept.lookup_restart (h : Kept c) (hrest : AtRest c) (horder : LandedInOrder c)
    (key : PendingGateKey) :
    (StoreInner.new.restore c.state.now c.state.file).2.by_key.lookup key =
      asRestored c.state.now (c.state.inner.by_key.lookup key) := by
  rw [T3Claw.lookup_restart h.file, horder key, h.memory key, touches_atRest hrest]

theorem Kept.restart (h : Kept c) (hrest : AtRest c) (horder : LandedInOrder c) :
    Kept ⟨⟨GateEvent.restart.occur c.state, c.log⟩, c.tasks⟩ := by
  have hlookup := h.lookup_restart hrest horder
  refine ⟨h.toOnCourse, h.file, fun key => ?_, fun key gate hgate => ?_⟩
  · change asRestored c.state.now ((StoreInner.new.restore c.state.now
      c.state.file).2.by_key.lookup key) = asRestored c.state.now (lockView (touches c key) c.log)
    rw [hlookup, asRestored_of_le le_rfl]
    exact h.memory key
  · have hold : asRestored c.state.now (c.state.inner.by_key.lookup key) = some gate :=
      (hlookup key).symm.trans hgate
    obtain ⟨g, hg, -, rfl⟩ := asRestored_eq_some.mp hold
    exact h.inserted key g hg

/-- The moves of a run, told apart. -/
inductive GateMove (c : GateConf) : Move GateCall GateEvent → GateConf → Prop
  | lock (k : ℕ) (call lock : GateCall) (f : GateInstr.Answer (.lock lock) → GateProg)
      (hk : c.tasks[k]? = some ⟨call, .act (.lock lock) f⟩) :
      GateMove c (.step k) ⟨c.toMemory.after gateSystem.toMachine k (.lock lock),
        c.tasks.set k ⟨call, f (GateWorld.exec (.lock lock) c.state).1⟩⟩
  | persist (k : ℕ) (call : GateCall) (persist : PersistenceCall) (f : Unit → GateProg)
      (hk : c.tasks[k]? = some ⟨call, .act (.persist persist) f⟩) :
      GateMove c (.step k) ⟨c.toMemory.after gateSystem.toMachine k (.persist persist),
        c.tasks.set k ⟨call, f ()⟩⟩
  | start (call : GateCall) :
      GateMove c (.start call) ⟨c.toMemory, c.tasks ++ [⟨call, call.code⟩]⟩
  | clock (seconds : ℕ) : GateMove c (.env (.clock seconds))
      ⟨⟨{ c.state with now := c.state.now + seconds }, c.log⟩, c.tasks⟩
  | restart : GateMove c (.env .restart) ⟨⟨GateEvent.restart.occur c.state, c.log⟩, c.tasks⟩

theorem gateMove {m : Move GateCall GateEvent} {c' : GateConf}
    (hnext : gateSystem.next c m = some c') : GateMove c m c' := by
  cases m with
  | step k =>
    obtain ⟨call, i, f, hk, -, rfl⟩ := System.next_step_eq_some.mp hnext
    cases i with
    | lock lock => exact .lock k call lock f hk
    | persist persist => exact .persist k call persist f hk
  | start call =>
    obtain ⟨s, hs, rfl⟩ := System.next_start_eq_some.mp hnext
    obtain rfl := Option.some.inj hs
    exact .start call
  | env e =>
    obtain ⟨s, hs, rfl⟩ := System.next_env_eq_some.mp hnext
    obtain rfl := Option.some.inj hs
    cases e with
    | clock seconds => exact .clock seconds
    | restart => exact .restart

theorem Kept.next (h : Kept c) {m : Move GateCall GateEvent} {c' : GateConf}
    (hok : Orderly c m) (hnext : gateSystem.next c m = some c') : Kept c' := by
  cases gateMove hnext with
  | lock k call lock f hk => exact h.lock hk
  | persist k call persist f hk => exact h.persist hk
  | start call => exact h.start hok.1
  | clock seconds => exact h.clock seconds
  | restart => exact h.restart hok.1 (hok.2 rfl)

theorem kept_idle (now : Time) : Kept (Conf.idle (GateWorld.fresh now)) where
  phase _ _ _ h := nomatch h
  logged _ _ h := nomatch h
  distinct _ _ _ _ _ _ h := nomatch h
  file _ := ⟨nofun, nofun⟩
  memory _ := rfl
  inserted _ _ h := nomatch h

/-! ### What has left the memory has left it for good -/

/-- A gate of the request id was inserted and is not in memory. -/
structure Retired (c : GateConf) (request_id : ℕ) : Prop where
  inserted : ∃ k g, (k, GateInstr.lock (.insert g)) ∈ c.log ∧ g.request_id = request_id
  unavailable : ¬Available c request_id

/-- Two inserts of one request id are one. -/
theorem OnCourse.insert_eq {tasks : GateTasks} {log : GateLog} (h : OnCourse tasks log)
    {j k : ℕ} {gate other : PendingGate} (hj : (j, .lock (.insert gate)) ∈ log)
    (hk : (k, .lock (.insert other)) ∈ log) (hid : gate.request_id = other.request_id) :
    j = k ∧ gate = other := by
  obtain ⟨call, p, hp, -, hlock⟩ := h.logged j _ hj
  obtain rfl := hlock _ rfl
  obtain ⟨call, q, hq, -, hlock⟩ := h.logged k _ hk
  obtain rfl := hlock _ rfl
  obtain rfl := h.distinct j k gate other p q hp hq hid
  obtain ⟨hop, -⟩ := Task.mk.inj (Option.some.inj (hp.symm.trans hq))
  exact ⟨rfl, GateCall.insert.inj hop⟩

theorem Retired.next {r : ℕ} (hr : Retired c r) (h : Kept c) {m : Move GateCall GateEvent}
    {c' : GateConf} (hok : Orderly c m) (hnext : gateSystem.next c m = some c') :
    Retired c' r := by
  obtain ⟨⟨j, g, hj, hid⟩, hgone⟩ := hr
  cases gateMove hnext with
  | lock k call lock f hk =>
    refine ⟨⟨j, g, List.mem_cons_of_mem _ hj, hid⟩, ?_⟩
    rintro ⟨key, gate, hlookup, hgate⟩
    obtain hold | ⟨rfl, -⟩ := (locked lock c.state).from_memory key gate hlookup
    · exact hgone ⟨key, gate, hold, hgate⟩
    · -- the request id would be inserted a second time
      obtain ⟨rfl, hnolog, -⟩ := h.fresh hk
      obtain ⟨op, p, hp, -, hlock⟩ := h.logged j _ hj
      obtain rfl := hlock _ rfl
      obtain rfl := h.distinct j k g gate p _ hp hk (hid.trans hgate.symm)
      exact hnolog _ hj
  | persist k call persist f hk =>
    exact ⟨⟨j, g, List.mem_cons_of_mem _ hj, hid⟩, hgone⟩
  | start call => exact ⟨⟨j, g, hj, hid⟩, hgone⟩
  | clock seconds => exact ⟨⟨j, g, hj, hid⟩, hgone⟩
  | restart =>
    refine ⟨⟨j, g, hj, hid⟩, ?_⟩
    rintro ⟨key, gate, hlookup, hgate⟩
    have hold := (h.lookup_restart hok.1 (hok.2 rfl) key).symm.trans hlookup
    obtain ⟨g', hg', -, rfl⟩ := asRestored_eq_some.mp hold
    exact hgone ⟨key, g', hg', hgate⟩

/-- Operation `k` is past its lock section and will return the gate for resolution. -/
def Taking (c : GateConf) (k : ℕ) (gate : PendingGate) : Prop :=
  ∃ call prog, c.tasks[k]? = some ⟨call, prog⟩ ∧ outcome? prog = some (.taken (.ok gate))

/-- What is taken is retired, and was taken by one operation. -/
structure TakenOnce (c : GateConf) : Prop where
  retired : ∀ k gate, Taking c k gate → Retired c gate.request_id
  unique : ∀ j k gate other, Taking c j gate → Taking c k other →
    gate.request_id = other.request_id → j = k

/-- A gate a lock section hands out is retired with it. -/
theorem Kept.retired_of_taken (h : Kept c) {lock : GateCall} {tasks : GateTasks}
    {gate : PendingGate}
    (htaken : lock.result (GateWorld.exec (.lock lock) c.state).1 = .taken (.ok gate)) :
    Available c gate.request_id ∧
      Retired ⟨c.toMemory.after gateSystem.toMachine k (.lock lock), tasks⟩
        gate.request_id := by
  have hlocked := locked lock c.state
  obtain ⟨key, hkey, hnone⟩ := hlocked.taken gate htaken
  obtain ⟨hstands, j, g, hj, hg⟩ := h.inserted key gate hkey
  have hid : g.request_id = gate.request_id := PendingGate.request_id_eq_of_withoutHint hg
  refine ⟨⟨key, gate, hkey, rfl⟩, ⟨j, g, List.mem_cons_of_mem _ hj, hid⟩, ?_⟩
  rintro ⟨key', gate', hkey', hid'⟩
  obtain hold | ⟨rfl, -⟩ := hlocked.from_memory key' gate' hkey'
  · obtain ⟨hstands', l, g', hl, hg'⟩ := h.inserted key' gate' hold
    have hsame : g'.request_id = g.request_id :=
      (PendingGate.request_id_eq_of_withoutHint hg').trans (hid'.trans hid.symm)
    obtain ⟨-, rfl⟩ := h.insert_eq hl hj hsame
    have hkeys : gate'.key = gate.key := PendingGate.key_eq_of_withoutHint (hg'.symm.trans hg)
    rw [hstands', hstands] at hkeys
    subst hkeys
    exact nomatch hnone.symm.trans hkey'
  · cases htaken

/-- An operation that will return a gate did so before, or its lock section has just handed the
gate out. -/
theorem Taking.of_next (h : Kept c) {m : Move GateCall GateEvent} {c' : GateConf}
    (hnext : gateSystem.next c m = some c') {j : ℕ} {gate : PendingGate}
    (ht : Taking c' j gate) : Taking c j gate ∨
      m = .step j ∧ Available c gate.request_id ∧ Retired c' gate.request_id := by
  obtain ⟨op, prog, hj, hout⟩ := ht
  cases gateMove hnext with
  | lock k call lock f hk =>
    obtain ⟨rfl, ht⟩ | ⟨-, hj⟩ := System.getElem?_set_cases hj
    · obtain ⟨rfl, rfl⟩ := Task.mk.inj ht
      obtain ⟨-, -, hcourse⟩ := h.fresh hk
      rw [(hcourse _).2] at hout
      exact .inr ⟨rfl, h.retired_of_taken (Option.some.inj hout)⟩
    · exact .inl ⟨op, prog, hj, hout⟩
  | persist k call persist f hk =>
    obtain ⟨rfl, ht⟩ | ⟨-, hj⟩ := System.getElem?_set_cases hj
    · obtain ⟨rfl, rfl⟩ := Task.mk.inj ht
      exact .inl ⟨op, _, hk, hout⟩
    · exact .inl ⟨op, prog, hj, hout⟩
  | start call =>
    obtain hj | ⟨-, ht⟩ := System.getElem?_append_cases hj
    · exact .inl ⟨op, prog, hj, hout⟩
    · obtain ⟨rfl, rfl⟩ := Task.mk.inj ht
      obtain ⟨f, hf, -⟩ := op.code_eq
      rw [hf] at hout
      cases hout
  | clock seconds => exact .inl ⟨op, prog, hj, hout⟩
  | restart => exact .inl ⟨op, prog, hj, hout⟩

theorem TakenOnce.next (ht : TakenOnce c) (h : Kept c) {m : Move GateCall GateEvent}
    {c' : GateConf} (hok : Orderly c m) (hnext : gateSystem.next c m = some c') :
    TakenOnce c' := by
  constructor
  · intro k gate hk
    obtain hold | ⟨-, -, hretired⟩ := hk.of_next h hnext
    · exact (ht.retired k gate hold).next h hok hnext
    · exact hretired
  · intro j k gate other hj hk hid
    obtain hj | ⟨hmj, havail, -⟩ := hj.of_next h hnext <;>
      obtain hk | ⟨hmk, havail', -⟩ := hk.of_next h hnext
    · exact ht.unique j k gate other hj hk hid
    · exact absurd (hid ▸ havail') (ht.retired j gate hj).unavailable
    · exact absurd (hid ▸ havail) (ht.retired k other hk).unavailable
    · exact Move.step.inj (hmj.symm.trans hmk)

end Steps

/-! ### Runs -/

section Runs

variable {now : Time} {c : GateConf}

theorem kept_of_reach (h : gateSystem.Reach Orderly (.idle (.fresh now)) c) :
    Kept c ∧ TakenOnce c := by
  refine h.induction (J := fun c => Kept c ∧ TakenOnce c) ⟨kept_idle now, ?_, ?_⟩
    fun c c' m ⟨hkept, htaken⟩ hok hnext =>
      ⟨hkept.next hok hnext, htaken.next hkept hok hnext⟩
  · rintro k gate ⟨call, prog, hk, -⟩
    cases hk
  · rintro j k gate other ⟨call, prog, hj, -⟩
    cases hj

/-- A gate that was available was inserted. -/
theorem Kept.inserted_of_available (h : Kept c) {r : ℕ} (havail : Available c r) :
    ∃ k g, (k, GateInstr.lock (.insert g)) ∈ c.log ∧ g.request_id = r := by
  obtain ⟨key, gate, hlookup, rfl⟩ := havail
  obtain ⟨-, k, g, hk, hg⟩ := h.inserted key gate hlookup
  exact ⟨k, g, hk, PendingGate.request_id_eq_of_withoutHint hg⟩

/-- The log only grows. -/
theorem log_of_reach {ok : GateConf → Move GateCall GateEvent → Prop} {c c' : GateConf}
    (h : gateSystem.Reach ok c c') : ∀ e ∈ c.log, e ∈ c'.log := by
  refine h.induction (J := fun c' => ∀ e ∈ c.log, e ∈ c'.log) (fun _ => id)
    fun c₁ c₂ m hmem _ hnext e he => ?_
  cases gateMove hnext with
  | lock => exact List.mem_cons_of_mem _ (hmem e he)
  | persist => exact List.mem_cons_of_mem _ (hmem e he)
  | start => exact hmem e he
  | clock => exact hmem e he
  | restart => exact hmem e he

/-- **In a run whose restarts find the backend calls landed in order, a gate is used at most
once, across restarts.** -/
theorem gates_used_once (h : gateSystem.Reach Orderly (.idle (.fresh now)) c) :
    UsedOnce Orderly (.idle (.fresh now)) c := by
  obtain ⟨hkept, htaken⟩ := kept_of_reach h
  constructor
  · rintro j k gate other ⟨call, hj⟩ ⟨call', hk⟩ hid
    exact htaken.unique j k gate other ⟨call, _, hj, rfl⟩ ⟨call', _, hk, rfl⟩ hid
  · intro c₁ c₂ r h₁ h₂ h₃ havail hgone
    obtain ⟨hkept₁, -⟩ := kept_of_reach h₁
    obtain ⟨k, g, hk, hg⟩ := hkept₁.inserted_of_available havail
    have hretired : Retired c₂ r := ⟨⟨k, g, log_of_reach h₂ _ hk, hg⟩, hgone⟩
    have hkept₂ : Kept c₂ := h₂.induction hkept₁ fun _ _ _ hkept hok hnext =>
      hkept.next hok hnext
    have hend := h₃.induction (J := fun c => Kept c ∧ Retired c r) ⟨hkept₂, hretired⟩
      fun c c' m ⟨hkept, hr⟩ hok hnext => ⟨hkept.next hok hnext, hr.next hkept hok hnext⟩
    exact hend.2.unavailable
  · intro c' hok hnext key
    cases gateMove hnext
    exact hkept.lookup_restart hok.1 (hok.2 rfl) key

/-- Insert a gate, take it, restart. -/
def takenInOrder : List (Move GateCall GateEvent) :=
  [.start (.insert (shellGate 0)), .step 0, .step 0,
    .start (.takeVerified (shellGate 0).key 0 "web"), .step 1, .step 1, .env .restart]

/-- A first insert meets no other. -/
theorem legal_first {gate : PendingGate} :
    Legal (.idle (.fresh now)) (.start (.insert gate)) := by
  intro t ht
  cases ht

theorem Legal.orderly {m : Move GateCall GateEvent} (h : Legal c m) (hm : m ≠ .env .restart) :
    Orderly c m :=
  ⟨h, fun hrestart => absurd hrestart hm⟩

/-- After an insert and a take of its gate, each saved at once. -/
theorem landedInOrder_taken {gate : PendingGate} {request_id : ℕ} {channel : String}
    (hlog : c.log = [(1, .persist (.remove gate.key)),
      (1, .lock (.takeVerified gate.key request_id channel)), (0, .persist (.save gate)),
      (0, .lock (.insert gate))]) : LandedInOrder c := by
  intro key
  rw [hlog]
  by_cases hkey : gate.key = key
  · simp [fileView, lockView, calledOn, PersistenceCall.key, PersistenceCall.leaves,
      GateCall.leaves, hkey]
  · simp [fileView, lockView, calledOn, PersistenceCall.key, hkey]

end Runs

/-- The theorem on a gate that is taken once everything about it is in the file. -/
theorem gates_used_once_taken : ∃ c,
    gateSystem.play (.idle (.fresh 0)) takenInOrder = some c ∧ HasTaken c 1 (shellGate 0) ∧
      UsedOnce Orderly (.idle (.fresh 0)) c := by
  have hstep : ∀ (c : GateConf) (k : ℕ), Orderly c (.step k) := fun _ _ =>
    Legal.orderly trivial (nomatch ·)
  have hallowed : gateSystem.Allowed Orderly (.idle (.fresh 0)) takenInOrder :=
    ⟨legal_first.orderly (nomatch ·), hstep _ 0, hstep _ 0, Legal.orderly trivial (nomatch ·),
      hstep _ 1, hstep _ 1, ⟨List.forall_iff_forall_mem.mp ⟨⟨_, rfl⟩, _, rfl⟩,
        fun _ => landedInOrder_taken rfl⟩, trivial⟩
  exact ⟨_, rfl, ⟨_, rfl⟩, gates_used_once (System.Reach.init.of_play hallowed rfl)⟩

/-- Take a gate while its insert has yet to save it, restart, and take it again. -/
def savedTooLate : List (Move GateCall GateEvent) :=
  [.start (.insert (shellGate 0)), .step 0,
    .start (.takeVerified (shellGate 0).key 0 "web"), .step 1, .step 1, .step 0, .env .restart,
    .start (.takeVerified (shellGate 0).key 0 "web"), .step 2, .step 2]

/-- **A save that lands after the removal revives the gate**: it is taken twice. -/
theorem late_save_revives_gate : ∃ c,
    gateSystem.play (.idle (.fresh 0)) savedTooLate = some c ∧
      gateSystem.Reach Legal (.idle (.fresh 0)) c ∧ ¬UsedOnce Legal (.idle (.fresh 0)) c := by
  have hallowed : gateSystem.Allowed Legal (.idle (.fresh 0)) savedTooLate :=
    ⟨legal_first, trivial, trivial, trivial, trivial, trivial,
      List.forall_iff_forall_mem.mp ⟨⟨_, rfl⟩, _, rfl⟩, trivial, trivial, trivial, trivial⟩
  refine ⟨_, rfl, System.Reach.init.of_play hallowed rfl, fun h => ?_⟩
  have hsame := h.taken_once 1 2 (shellGate 0) (shellGate 0) ⟨_, rfl⟩ ⟨_, rfl⟩ rfl
  cases hsame

end T3Claw
