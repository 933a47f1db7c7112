import T3Claw.Conc.System
import T3Claw.Memory.Rollback

/-!
# Skill calls at once

`record_usage` and `update_skill` load the document of a skill, and save it later. Whatever
another call has saved meanwhile is overwritten, and the version is checked against the document
that was loaded. Nothing is lost when every save finds the document as its call loaded it
(`updates_kept`).
-/

namespace T3Claw.Memory

open Conc

variable {V : Type}

/-! ### Calls -/

/-- What the store holds of the skill. How often it was saved is for statements only. -/
structure SkillState (V : Type) where
  doc : MemoryDoc V
  saves : ℕ

inductive SkillInstr (V : Type) where
  | load
  | save (doc : MemoryDoc V) (loaded : ℕ)

abbrev SkillReply : SkillInstr V → Type
  | .load => MemoryDoc V × ℕ
  | .save .. => Unit

def SkillState.exec : (i : SkillInstr V) → SkillState V → SkillReply i × SkillState V
  | .load, s => ((s.doc, s.saves), s)
  | .save doc _, s => ((), ⟨doc, s.saves + 1⟩)

abbrev SkillProg (V ρ : Type) : Type := Prog (SkillInstr V) SkillReply ρ

def load : SkillProg V (MemoryDoc V × ℕ) := .act SkillInstr.load .done

def save (doc : MemoryDoc V) (loaded : ℕ) : SkillProg V Unit :=
  .act (SkillInstr.save doc loaded) .done

inductive SkillCall where
  | recordUsage (success : Bool) (now : Time)
  | updateSkill (new_content : String) (expected_version : Option ℕ)
      (updater : V2SkillMetadata → V2SkillMetadata) (now : Time)

namespace SkillCall

/-- What a call makes of the document it has loaded. -/
def apply (T : SkillTracker V) (doc : MemoryDoc V) : SkillCall → Except SkillError (MemoryDoc V)
  | recordUsage success now => T.recordUsage doc.id success now (some doc)
  | updateSkill new_content expected_version updater now =>
    T.updateSkill doc.id new_content expected_version updater now (some doc)

/-- What a call does with the document it has loaded. -/
def finish (T : SkillTracker V) (call : SkillCall) (loaded : MemoryDoc V × ℕ) :
    SkillProg V (Except SkillError Unit) :=
  match call.apply T loaded.1 with
  | .error e => pure (.error e)
  | .ok updated => do
    save updated loaded.2
    pure (.ok ())

/-- `record_usage` and `update_skill`. -/
def code (T : SkillTracker V) (call : SkillCall) : SkillProg V (Except SkillError Unit) := do
  let loaded ← load
  call.finish T loaded

end SkillCall

/-- Calls on one skill. -/
def skillSystem (T : SkillTracker V) :
    System SkillCall Empty (SkillInstr V) SkillReply (SkillState V) (Except SkillError Unit) where
  exec := SkillState.exec
  code := SkillCall.code T
  env e _ := e.elim

abbrev SkillConf (V : Type) : Type :=
  Conf SkillCall (SkillInstr V) SkillReply (SkillState V) (Except SkillError Unit)

abbrev SkillTask (V : Type) : Type :=
  Task SkillCall (SkillInstr V) SkillReply (Except SkillError Unit)

/-! ### What is to hold, and when it does -/

/-- A use that has been recorded. -/
def SkillTask.recorded (success : Bool) (t : SkillTask V) : Bool :=
  match t.op, t.prog with
  | .recordUsage outcome _, .done (.ok _) => outcome == success
  | _, _ => false

/-- An update of a version that has succeeded. -/
def SkillTask.updatedFrom (expected : ℕ) (t : SkillTask V) : Prop :=
  t.prog = .done (.ok ()) ∧
    ∃ new_content updater now, t.op = .updateSkill new_content (some expected) updater now

/-- Every successful use is counted, and a version is updated once. -/
structure Kept (T : SkillTracker V) (metrics : SkillMetrics) (c : SkillConf V) : Prop where
  counts : ∃ metadata, T.from_value c.state.doc.metadata = .ok metadata ∧
    metadata.metrics.usage_count = metrics.usage_count +
      (c.tasks.countP (SkillTask.recorded true) + c.tasks.countP (SkillTask.recorded false)) ∧
    metadata.metrics.success_count =
      metrics.success_count + c.tasks.countP (SkillTask.recorded true) ∧
    metadata.metrics.failure_count =
      metrics.failure_count + c.tasks.countP (SkillTask.recorded false)
  once : ∀ expected (i j : ℕ) (t t' : SkillTask V), c.tasks[i]? = some t → c.tasks[j]? = some t' →
    t.updatedFrom expected → t'.updatedFrom expected → i = j

/-- No counter of the metadata is at the last number it can hold. -/
def V2SkillMetadata.Counts (metadata : V2SkillMetadata) : Prop :=
  metadata.version + 1 < 2 ^ 32 ∧ metadata.metrics.usage_count + 1 < 2 ^ 64 ∧
    metadata.metrics.success_count + 1 < 2 ^ 64 ∧ metadata.metrics.failure_count + 1 < 2 ^ 64

/-- A call whose updater leaves the version and the metrics alone. -/
def SkillCall.Mild : SkillCall → Prop
  | recordUsage .. => True
  | updateSkill _ _ updater _ =>
    ∀ metadata, (updater metadata).version = metadata.version ∧
      (updater metadata).metrics = metadata.metrics

/-- Updaters leave the version and the metrics alone, and a save finds the document as its call
loaded it, with no counter at its last number. -/
def savesInTurn (T : SkillTracker V) (c : SkillConf V) : Move SkillCall Empty → Prop
  | .step k => ∀ call doc loaded f, c.tasks[k]? = some ⟨call, .act (.save doc loaded) f⟩ →
      loaded = c.state.saves ∧
        ∀ metadata, T.from_value c.state.doc.metadata = .ok metadata → metadata.Counts
  | .start call => call.Mild
  | .env _ => True

/-! ### The invariant -/

/-- Where a call stands: about to load, about to save what it has made of the document loaded,
or at its end. -/
inductive Stage (T : SkillTracker V) (s : SkillState V) (call : SkillCall) :
    SkillProg V (Except SkillError Unit) → Prop
  | start {prog : SkillProg V (Except SkillError Unit)} (h : prog = call.code T) :
      Stage T s call prog
  | loaded {doc : MemoryDoc V} {saves : ℕ} {f : Unit → SkillProg V (Except SkillError Unit)}
      (hle : saves ≤ s.saves) (happly : saves = s.saves → call.apply T s.doc = .ok doc)
      (hf : f () = .done (.ok ())) : Stage T s call (.act (.save doc saves) f)
  | returned (r : Except SkillError Unit) : Stage T s call (.done r)

variable {T : SkillTracker V}

/-- What a call does to the metadata. -/
theorem SkillCall.apply_eq_ok {call : SkillCall} {doc updated : MemoryDoc V}
    {metadata : V2SkillMetadata} (hmild : call.Mild)
    (hread : T.from_value doc.metadata = .ok metadata) (hcounts : metadata.Counts)
    (h : call.apply T doc = .ok updated) :
    ∃ metadata', T.from_value updated.metadata = .ok metadata' ∧
      match call with
      | recordUsage success _ => metadata'.version = metadata.version ∧
          metadata'.metrics.usage_count = metadata.metrics.usage_count + 1 ∧
          metadata'.metrics.success_count =
            metadata.metrics.success_count + (if success then 1 else 0) ∧
          metadata'.metrics.failure_count =
            metadata.metrics.failure_count + (if success then 0 else 1)
      | updateSkill _ expected_version _ _ => metadata'.version = metadata.version + 1 ∧
          metadata'.metrics = metadata.metrics ∧
          ∀ expected, expected_version = some expected → metadata.version = expected := by
  obtain ⟨hversion, husage, hsuccess, hfailure⟩ := hcounts
  cases call with
  | recordUsage success now =>
    obtain ⟨-, metadata', hread', rfl⟩ := T.recordUsage_eq_ok h
    obtain rfl := Except.ok.inj (hread.symm.trans hread')
    refine ⟨_, T.from_value_updated .., rfl, succ64_of_lt husage, ?_, ?_⟩
    · cases success
      · rfl
      · exact succ64_of_lt hsuccess
    · cases success
      · exact succ64_of_lt hfailure
      · rfl
  | updateSkill new_content expected_version updater now =>
    obtain ⟨metadata', hread', hexpected, rfl⟩ := T.updateSkill_eq_ok h
    obtain rfl := Except.ok.inj (hread.symm.trans hread')
    obtain ⟨hkept, hmetrics⟩ := hmild
      (metadata.archive doc.content (T.computeContentHash doc.content) now)
    refine ⟨_, T.from_value_updated .., ?_, hmetrics, hexpected⟩
    exact hkept.trans (succ32_of_lt hversion)

/-- What holds along a run: with what was promised, where each call stands, and that the version
has left behind those updated from. -/
structure UsageInv (T : SkillTracker V) (metrics : SkillMetrics) (c : SkillConf V) : Prop
    extends Kept T metrics c where
  stages : ∀ t ∈ c.tasks, Stage T c.state t.op t.prog ∧ t.op.Mild
  older : ∀ t : SkillTask V, t ∈ c.tasks → ∀ expected, t.updatedFrom expected →
    ∀ metadata, T.from_value c.state.doc.metadata = .ok metadata → expected < metadata.version

/-- Only a call that has succeeded has recorded a use. -/
theorem recorded_eq_false {call : SkillCall} {prog : SkillProg V (Except SkillError Unit)}
    (h : prog ≠ .done (.ok ())) (success : Bool) :
    SkillTask.recorded success (⟨call, prog⟩ : SkillTask V) = false := by
  rw [SkillTask.recorded]
  split
  case h_1 heq => exact absurd heq h
  case h_2 => rfl

/-- Where a call stands when another one has saved. -/
theorem Stage.after_save {s : SkillState V} {call : SkillCall} {doc : MemoryDoc V}
    {prog : SkillProg V (Except SkillError Unit)} (h : Stage T s call prog) :
    Stage T ⟨doc, s.saves + 1⟩ call prog := by
  cases h with
  | start h => exact .start h
  | loaded hle happly hf =>
    exact .loaded (hle.trans (Nat.le_succ _)) (fun heq => by dsimp only at heq; omega) hf
  | returned r => exact .returned r

section Tasks

variable {tasks : List (SkillTask V)} {k : ℕ} {call : SkillCall} {i : SkillInstr V}
  {f : SkillReply i → SkillProg V (Except SkillError Unit)}

/-- The uses recorded once a task has gone on. -/
theorem countP_recorded_set (hk : tasks[k]? = some ⟨call, .act i f⟩) (success : Bool)
    (prog : SkillProg V (Except SkillError Unit)) :
    (tasks.set k ⟨call, prog⟩).countP (SkillTask.recorded success) =
      tasks.countP (SkillTask.recorded success) +
        if SkillTask.recorded success ⟨call, prog⟩ = true then 1 else 0 := by
  obtain ⟨hlt, hget⟩ := List.getElem?_eq_some_iff.mp hk
  have hnot : SkillTask.recorded success (tasks[k]) = false := by
    rw [hget]
    cases call <;> rfl
  rw [List.countP_set hlt, hnot]
  simp

/-- An update that has succeeded once a task has gone on is the task's own, or had before. -/
theorem updatedFrom_set {prog : SkillProg V (Except SkillError Unit)} {j expected : ℕ}
    {t : SkillTask V} (h : (tasks.set k ⟨call, prog⟩)[j]? = some t)
    (hupdated : t.updatedFrom expected) :
    (j = k ∧ SkillTask.updatedFrom expected (⟨call, prog⟩ : SkillTask V)) ∨
      (j ≠ k ∧ tasks[j]? = some t) := by
  obtain ⟨hj, rfl⟩ | hother := System.getElem?_set_cases h
  · exact .inl ⟨hj, hupdated⟩
  · exact .inr hother

end Tasks

namespace UsageInv

variable {metrics : SkillMetrics} {c : SkillConf V} {k : ℕ} {call : SkillCall}

/-- A call loads the document. -/
theorem load_step {f : MemoryDoc V × ℕ → SkillProg V (Except SkillError Unit)}
    {log : List (ℕ × SkillInstr V)} (h : UsageInv T metrics c)
    (hk : c.tasks[k]? = some ⟨call, .act .load f⟩) :
    UsageInv T metrics ⟨⟨c.state, log⟩,
      c.tasks.set k ⟨call, f (c.state.doc, c.state.saves)⟩⟩ := by
  obtain ⟨hstage, hmild⟩ : Stage T c.state call (.act .load f) ∧ call.Mild :=
    h.stages _ (List.mem_of_getElem? hk)
  -- what is left of the call has not succeeded, and is about to save what it has made
  obtain ⟨hnext, hpending⟩ : Stage T c.state call (f (c.state.doc, c.state.saves)) ∧
      f (c.state.doc, c.state.saves) ≠ .done (.ok ()) := by
    obtain hcode | _ | _ := hstage
    obtain rfl := eq_of_heq (Prog.act.inj hcode).2
    show Stage T c.state call (call.finish T (c.state.doc, c.state.saves)) ∧
      call.finish T (c.state.doc, c.state.saves) ≠ .done (.ok ())
    rw [SkillCall.finish]
    cases happly : call.apply T c.state.doc with
    | error e => exact ⟨.returned _, by simp⟩
    | ok doc => exact ⟨.loaded le_rfl (fun _ => happly) rfl, fun h => by cases h⟩
  have hcount : ∀ success, (c.tasks.set k ⟨call, f (c.state.doc, c.state.saves)⟩).countP
      (SkillTask.recorded success) = c.tasks.countP (SkillTask.recorded success) :=
    fun success => by
      rw [countP_recorded_set hk, recorded_eq_false hpending]
      rfl
  refine ⟨⟨?_, fun expected i j t t' hi hj ht ht' => ?_⟩, fun t ht => ?_,
    fun t ht expected hupdated => ?_⟩
  · simpa only [hcount] using h.counts
  · obtain ⟨rfl, hself⟩ | ⟨-, hi⟩ := updatedFrom_set hi ht
    · exact absurd hself.1 hpending
    obtain ⟨rfl, hself⟩ | ⟨-, hj⟩ := updatedFrom_set hj ht'
    · exact absurd hself.1 hpending
    exact h.once expected i j t t' hi hj ht ht'
  · obtain ht | rfl := List.mem_or_eq_of_mem_set ht
    · exact h.stages t ht
    · exact ⟨hnext, hmild⟩
  · obtain ht | rfl := List.mem_or_eq_of_mem_set ht
    · exact h.older t ht expected hupdated
    · exact absurd hupdated.1 hpending

/-- A call saves the document it has found as it loaded it. -/
theorem save_step {doc : MemoryDoc V} {loaded : ℕ}
    {f : Unit → SkillProg V (Except SkillError Unit)} {log : List (ℕ × SkillInstr V)}
    (h : UsageInv T metrics c) (hk : c.tasks[k]? = some ⟨call, .act (.save doc loaded) f⟩)
    (hloaded : loaded = c.state.saves)
    (hcounts : ∀ metadata, T.from_value c.state.doc.metadata = .ok metadata →
      metadata.Counts) :
    UsageInv T metrics ⟨⟨⟨doc, c.state.saves + 1⟩, log⟩, c.tasks.set k ⟨call, f ()⟩⟩ := by
  obtain ⟨hstage, hmild⟩ : Stage T c.state call (.act (.save doc loaded) f) ∧ call.Mild :=
    h.stages _ (List.mem_of_getElem? hk)
  obtain ⟨happly, hf⟩ : call.apply T c.state.doc = .ok doc ∧ f () = .done (.ok ()) := by
    obtain hcode | ⟨-, happly, hf⟩ | _ := hstage
    · cases (Prog.act.inj hcode).1
    · exact ⟨happly hloaded, hf⟩
  obtain ⟨metadata, hread, husage, hsuccess, hfailure⟩ := h.counts
  obtain ⟨metadata', hread', hspec⟩ :=
    SkillCall.apply_eq_ok hmild hread (hcounts metadata hread) happly
  rw [hf]
  -- the version goes up when the call is an update, and the version it expected is left behind
  have hversion : metadata.version ≤ metadata'.version := by
    cases call with
    | recordUsage success now => exact hspec.1.ge
    | updateSkill => exact hspec.1.ge.trans' (Nat.le_succ _)
  have hself : ∀ expected,
      SkillTask.updatedFrom expected (⟨call, .done (.ok ())⟩ : SkillTask V) →
        metadata.version = expected ∧ expected < metadata'.version := by
    rintro expected ⟨-, new_content, updater, now, rfl⟩
    obtain ⟨hnext, -, hexpected⟩ := hspec
    have heq := hexpected expected rfl
    exact ⟨heq, by omega⟩
  refine ⟨⟨⟨metadata', hread', ?_⟩, fun expected i j t t' hi hj ht ht' => ?_⟩, fun t ht => ?_,
    fun t ht expected hupdated metadata'' hread'' => ?_⟩
  · simp only [countP_recorded_set hk]
    cases call with
    | recordUsage success now =>
      obtain ⟨-, husage', hsuccess', hfailure'⟩ := hspec
      cases success <;> simp only [SkillTask.recorded, beq_self_eq_true, reduceCtorEq, if_true,
        if_false, Bool.false_eq_true, beq_iff_eq] at husage' hsuccess' hfailure' ⊢ <;> omega
    | updateSkill new_content expected_version updater now =>
      obtain ⟨-, hmetrics, -⟩ := hspec
      simp only [SkillTask.recorded, Bool.false_eq_true, if_false, Nat.add_zero, hmetrics]
      exact ⟨husage, hsuccess, hfailure⟩
  · obtain ⟨hik, hown⟩ | ⟨hik, hi⟩ := updatedFrom_set hi ht
    · obtain ⟨hjk, -⟩ | ⟨-, hj⟩ := updatedFrom_set hj ht'
      · exact hik.trans hjk.symm
      · have hlt := h.older t' (List.mem_of_getElem? hj) expected ht' metadata hread
        exact absurd (hself expected hown).1 hlt.ne'
    · obtain ⟨-, hown⟩ | ⟨-, hj⟩ := updatedFrom_set hj ht'
      · have hlt := h.older t (List.mem_of_getElem? hi) expected ht metadata hread
        exact absurd (hself expected hown).1 hlt.ne'
      · exact h.once expected i j t t' hi hj ht ht'
  · obtain ht | rfl := List.mem_or_eq_of_mem_set ht
    · exact ⟨(h.stages t ht).1.after_save, (h.stages t ht).2⟩
    · exact ⟨.returned _, hmild⟩
  · obtain rfl := Except.ok.inj (hread'.symm.trans hread'')
    obtain ht | rfl := List.mem_or_eq_of_mem_set ht
    · exact (h.older t ht expected hupdated metadata hread).trans_le hversion
    · exact (hself expected hupdated).2

/-- Every move keeps the counts. -/
theorem next {c' : SkillConf V} {m : Move SkillCall Empty} (h : UsageInv T metrics c)
    (hturn : savesInTurn T c m) (hnext : (skillSystem T).next c m = some c') :
    UsageInv T metrics c' := by
  rcases m with k | call | e
  · obtain ⟨call, i, f, hk, -, rfl⟩ := System.next_step_eq_some.mp hnext
    cases i with
    | load => exact h.load_step hk
    | save doc loaded =>
      obtain ⟨hloaded, hcounts⟩ := hturn call doc loaded f hk
      exact h.save_step hk hloaded hcounts
  · obtain ⟨s, hs, rfl⟩ := System.next_start_eq_some.mp hnext
    obtain rfl := Option.some.inj hs
    have hpending : call.code T ≠ .done (.ok ()) := fun h => by cases h
    have hcount : ∀ success, (c.tasks ++ [(⟨call, call.code T⟩ : SkillTask V)]).countP
        (SkillTask.recorded success) = c.tasks.countP (SkillTask.recorded success) :=
      fun success => by
        rw [List.countP_append, List.countP_singleton, recorded_eq_false hpending]
        rfl
    refine ⟨⟨?_, fun expected i j t t' hi hj ht ht' => ?_⟩, fun t ht => ?_,
      fun t ht expected hupdated => ?_⟩
    · obtain ⟨metadata, hread, husage⟩ := h.counts
      exact ⟨metadata, hread, by simpa only [skillSystem, hcount] using husage⟩
    · obtain hi | ⟨-, rfl⟩ := System.getElem?_append_cases hi
      · obtain hj | ⟨-, rfl⟩ := System.getElem?_append_cases hj
        · exact h.once expected i j t t' hi hj ht ht'
        · exact absurd ht'.1 hpending
      · exact absurd ht.1 hpending
    · obtain ht | ht := List.mem_append.mp ht
      · exact h.stages t ht
      · obtain rfl := List.mem_singleton.mp ht
        exact ⟨.start rfl, hturn⟩
    · obtain ht | ht := List.mem_append.mp ht
      · exact h.older t ht expected hupdated
      · obtain rfl := List.mem_singleton.mp ht
        exact absurd hupdated.1 hpending
  · exact e.elim

end UsageInv

/-- **No use is lost and no version is updated twice** in a run whose saves each find the
document as their call loaded it. -/
theorem updates_kept {doc : MemoryDoc V} {metadata : V2SkillMetadata}
    (hread : T.from_value doc.metadata = .ok metadata) {c : SkillConf V}
    (hreach : (skillSystem T).Reach (savesInTurn T) (.idle ⟨doc, 0⟩) c) :
    Kept T metadata.metrics c := by
  have hinv : UsageInv T metadata.metrics c := by
    refine hreach.induction ⟨⟨⟨metadata, hread, ?_⟩, ?_⟩, ?_, ?_⟩
      fun _ _ _ hinv hturn hnext => hinv.next hturn hnext
    · simp [Conf.idle]
    · simp [Conf.idle]
    · simp [Conf.idle]
    · simp [Conf.idle]
  exact hinv.toKept

/-! ### Three calls on one skill -/

open SkillTracker

/-- An update of version one. -/
def sampleCall (new_content : String) : SkillCall := .updateSkill new_content (some 1) id 1

/-- A use is recorded, and then the skill is updated. -/
def oneAfterTheOther : List (Move SkillCall Empty) :=
  [.start (.recordUsage true 1), .step 0, .step 0, .start (sampleCall "second"), .step 1, .step 1]

theorem updates_kept_sample : ∃ c,
    (skillSystem sampleTracker).play (.idle ⟨sampleSkill 1, 0⟩) oneAfterTheOther = some c ∧
    Kept sampleTracker ⟨0, 0, 0, none⟩ c := by
  have hread : sampleTracker.from_value (sampleSkill 1).metadata = .ok (sampleSkill 1).metadata :=
    rfl
  refine ⟨_, rfl, updates_kept hread (System.Reach.init.of_play ?_
    (show (skillSystem sampleTracker).play _ oneAfterTheOther = some _ from rfl))⟩
  refine ⟨trivial, fun _ _ _ _ h => ?_, fun _ _ _ _ h => ?_, fun _ => ⟨rfl, rfl⟩,
    fun _ _ _ _ h => ?_, fun _ _ _ _ h => ?_, trivial⟩
  · cases h
  · cases h
    refine ⟨rfl, fun m hm => ?_⟩
    obtain rfl := Except.ok.inj hm
    exact ⟨by decide, by decide, by decide, by decide⟩
  · cases h
  · cases h
    refine ⟨rfl, fun m hm => ?_⟩
    obtain rfl := Except.ok.inj hm
    exact ⟨by decide, by decide, by decide, by decide⟩

/-- A use and two updates of one version load the document before any of them saves. -/
def allLoadedFirst : List (Move SkillCall Empty) :=
  [.start (.recordUsage true 1), .start (sampleCall "second"), .start (sampleCall "third"),
    .step 0, .step 1, .step 2, .step 0, .step 1, .step 2]

/-- All three calls succeed, and the use is not counted. -/
theorem use_and_update_lost : ∃ c,
    (skillSystem sampleTracker).play (.idle ⟨sampleSkill 1, 0⟩) allLoadedFirst = some c ∧
    c.tasks.map (·.prog) = [.done (.ok ()), .done (.ok ()), .done (.ok ())] ∧
    c.state.doc.content = "third" ∧ c.state.doc.metadata.version = 2 ∧
    c.state.doc.metadata.metrics.usage_count = 0 :=
  ⟨_, rfl, rfl, rfl, rfl, rfl⟩

end T3Claw.Memory
