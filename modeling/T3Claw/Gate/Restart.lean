import T3Claw.Conc.System
import T3Claw.Gate.Persistence

/-!
# Concurrent gate operations and restarts

The operations of the gate store as tasks: a pass through the lock, and after it, with the
lock released, one call of the backend for each key the pass has touched. The backend works
(each call is atomic and succeeds), the clock moves at will, and when no operation is in
progress the process may be restarted: a new store, filled from the file.

Since the calls come after the lock, those of two operations on one key can land in the other
order. Two readings of the log tell the orders apart: `fileView`, what the newest call on a key
has left, and `lockView`, what the newest pass has left there.
-/

namespace T3Claw

open Conc

/-! ### The operations -/

/-- A call on the gate store. -/
inductive GateCall where
  | insert (gate : PendingGate)
  | takeVerified (key : PendingGateKey) (request_id : ℕ) (responding_channel : String)
  | discard (key : PendingGateKey)
  | discardForThread (thread_id : ThreadId)
  | expireStale

/-- A call on the backend. -/
inductive PersistenceCall where
  | save (gate : PendingGate)
  | remove (key : PendingGateKey)

/-- An operation passes through the lock and calls the backend. -/
inductive GateInstr where
  | lock (call : GateCall)
  | persist (call : PersistenceCall)

/-- What the instructions answer. -/
abbrev GateInstr.Answer : GateInstr → Type
  | .lock (.insert _) => Except GateStoreError Unit
  | .lock (.takeVerified ..) => Except GateStoreError PendingGate
  | .lock (.discard _) => Except GateStoreError Unit
  | .lock (.discardForThread _) => List PendingGateKey × List PendingGate
  | .lock .expireStale => List PendingGateKey
  | .persist _ => Unit

/-- What the operations return. -/
inductive GateResult where
  | inserted (result : Except GateStoreError Unit)
  | taken (result : Except GateStoreError PendingGate)
  | discarded (result : Except GateStoreError Unit)
  | removed (gates : List PendingGate)
  | expired (count : ℕ)

/-- The code of an operation. -/
abbrev GateProg : Type := Prog GateInstr GateInstr.Answer GateResult

/-- Pass through the lock. -/
def lockFor (call : GateCall) :
    Prog GateInstr GateInstr.Answer (GateInstr.Answer (.lock call)) :=
  Prog.perform (GateInstr.lock call)

/-- `persistence.save(..).await`, and `remove`. -/
def persist (call : PersistenceCall) : Prog GateInstr GateInstr.Answer Unit :=
  Prog.perform (GateInstr.persist call)

/-- `persistence.remove(..)` for each key. -/
def removeEach : List PendingGateKey → Prog GateInstr GateInstr.Answer Unit
  | [] => .done ()
  | key :: keys => do
    persist (.remove key)
    removeEach keys

/-- The operations of `PendingGateStore`. -/
def GateCall.code : GateCall → GateProg
  | .insert gate => do
    match ← lockFor (.insert gate) with
    | .error e => pure (.inserted (.error e))
    | .ok () =>
      persist (.save gate)
      pure (.inserted (.ok ()))
  | .takeVerified key request_id responding_channel => do
    match ← lockFor (.takeVerified key request_id responding_channel) with
    | .error e => pure (.taken (.error e))
    | .ok gate =>
      persist (.remove key)
      pure (.taken (.ok gate))
  | .discard key => do
    match ← lockFor (.discard key) with
    | .error e => pure (.discarded (.error e))
    | .ok () =>
      persist (.remove key)
      pure (.discarded (.ok ()))
  | .discardForThread thread_id => do
    let (keys, gates) ← lockFor (.discardForThread thread_id)
    removeEach keys
    pure (.removed gates)
  | .expireStale => do
    let expired_keys ← lockFor .expireStale
    removeEach expired_keys
    pure (.expired expired_keys.length)

/-! ### The process -/

/-- The maps, the gates in the file and the clock. -/
structure GateWorld where
  inner : StoreInner
  file : List PendingGate
  now : Time

/-- A first process, with nothing persisted. -/
def GateWorld.fresh (now : Time) : GateWorld := ⟨.new, [], now⟩

/-- A call on the backend edits the list of gates in the file. -/
def PersistenceCall.edit : PersistenceCall → List PendingGate → List PendingGate
  | .save gate => fun gates => FileGatePersistence.retainOthers gate.key gates ++ [gate]
  | .remove key => FileGatePersistence.retainOthers key

/-- What an instruction answers and does. -/
def GateWorld.exec : (i : GateInstr) → GateWorld → i.Answer × GateWorld
  | .lock (.insert gate), s =>
    match s.inner.insert gate with
    | .error e => (.error e, s)
    | .ok inner => (.ok (), { s with inner })
  | .lock (.takeVerified key request_id responding_channel), s =>
    let (result, inner) := s.inner.takeVerified s.now key request_id responding_channel
    (result, { s with inner })
  | .lock (.discard key), s =>
    match s.inner.discard key with
    | .error e => (.error e, s)
    | .ok inner => (.ok (), { s with inner })
  | .lock (.discardForThread thread_id), s =>
    let (removed, inner) := s.inner.discardForThread thread_id
    (removed, { s with inner })
  | .lock .expireStale, s =>
    let (expired_keys, inner) := s.inner.expireStale s.now
    (expired_keys, { s with inner })
  | .persist call, s => ((), { s with file := call.edit s.file })

/-- What happens around the operations. -/
inductive GateEvent where
  | clock (seconds : ℕ)
  | restart

/-- A restart loses the maps and restores them from the file. -/
def GateEvent.occur : GateEvent → GateWorld → GateWorld
  | .clock seconds, s => { s with now := s.now + seconds }
  | .restart, s => { s with inner := (StoreInner.new.restore s.now s.file).2 }

/-- The store with any number of operations on it, and any number of restarts. -/
def gateSystem : System GateCall GateEvent GateInstr GateInstr.Answer GateWorld GateResult where
  exec := GateWorld.exec
  code := GateCall.code
  env e s := some (e.occur s)

/-- A configuration of the gate store. -/
abbrev GateConf : Type := Conf GateCall GateInstr GateInstr.Answer GateWorld GateResult

/-- What has happened so far: which operation performed which instruction, newest first. -/
abbrev GateLog : Type := List (ℕ × GateInstr)

/-- No operation is in progress. -/
def AtRest (c : GateConf) : Prop := ∀ t ∈ c.tasks, ∃ result, t.prog = .done result

/-- Inserts come with request ids of their own, and a restart finds no operation in progress. -/
def Legal (c : GateConf) : Move GateCall GateEvent → Prop
  | .start (.insert gate) => ∀ t ∈ c.tasks, ∀ other, t.op = .insert other →
    other.request_id ≠ gate.request_id
  | .env .restart => AtRest c
  | _ => True

/-! ### The two orders -/

/-- The key a backend call is about. -/
def PersistenceCall.key : PersistenceCall → PendingGateKey
  | .save gate => gate.key
  | .remove key => key

/-- The gate a backend call leaves under its key. -/
def PersistenceCall.leaves : PersistenceCall → Option PendingGate
  | .save gate => some gate
  | .remove _ => none

/-- The gate an operation leaves under the keys it touches. -/
def GateCall.leaves : GateCall → Option PendingGate
  | .insert gate => some gate
  | _ => none

/-- What the newest backend call on `key` has left. -/
def fileView (key : PendingGateKey) : GateLog → Option PendingGate
  | [] => none
  | (_, .lock _) :: log => fileView key log
  | (_, .persist call) :: log => if call.key = key then call.leaves else fileView key log

/-- Operation `k` has called the backend about `key`. -/
def calledOn (log : GateLog) (key : PendingGateKey) (k : ℕ) : Bool :=
  log.any fun e => match e.2 with
    | .lock _ => false
    | .persist call => e.1 == k && call.key == key

/-- What the operation has left that passed through the lock last, of those that `touched`
names. -/
def lockView (touched : ℕ → Bool) : GateLog → Option PendingGate
  | [] => none
  | (k, .lock call) :: log => if touched k then call.leaves else lockView touched log
  | (_, .persist _) :: log => lockView touched log

/-- The gate as far as a restart can tell: nothing of an expired one, and no hint. -/
def asRestored (now : Time) (gate : Option PendingGate) : Option PendingGate :=
  (gate.filter fun g => !g.isExpired now).map PendingGate.withoutHint

/-- Under each key the backend call that landed last belongs to the operation that passed
through the lock last, or leaves the same unexpired gate. -/
def LandedInOrder (c : GateConf) : Prop := ∀ key,
  asRestored c.state.now (fileView key c.log) =
    asRestored c.state.now (lockView (calledOn c.log key) c.log)

/-- Restarts find the backend calls landed in order. -/
def Orderly (c : GateConf) (m : Move GateCall GateEvent) : Prop :=
  Legal c m ∧ (m = .env .restart → LandedInOrder c)

/-! ### What is promised -/

/-- A gate of this request id is in memory. -/
def Available (c : GateConf) (request_id : ℕ) : Prop :=
  ∃ key gate, c.state.inner.by_key.lookup key = some gate ∧ gate.request_id = request_id

/-- Operation `k` has returned the gate for resolution. -/
def HasTaken (c : GateConf) (k : ℕ) (gate : PendingGate) : Prop :=
  ∃ call, c.tasks[k]? = some ⟨call, .done (.taken (.ok gate))⟩

/-- What is promised of a configuration reached from `start` by moves that meet `ok`. -/
structure UsedOnce (ok : GateConf → Move GateCall GateEvent → Prop) (start c : GateConf) :
    Prop where
  /-- Two operations do not take gates of one request id. -/
  taken_once : ∀ j k gate other, HasTaken c j gate → HasTaken c k other →
    gate.request_id = other.request_id → j = k
  /-- A gate that was available and is no longer does not come back. -/
  gone_for_good : ∀ c₁ c₂ request_id, gateSystem.Reach ok start c₁ →
    gateSystem.Reach ok c₁ c₂ → gateSystem.Reach ok c₂ c →
    Available c₁ request_id → ¬Available c₂ request_id → ¬Available c request_id
  /-- A restart restores the unexpired gates. -/
  restored : ∀ c', ok c (.env .restart) → gateSystem.next c (.env .restart) = some c' →
    ∀ key, c'.state.inner.by_key.lookup key =
      asRestored c.state.now (c.state.inner.by_key.lookup key)

end T3Claw
