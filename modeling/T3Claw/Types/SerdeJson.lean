import T3Claw.Types.Value

/-!
# `serde_json`

The crate's printer and reader, as parameters. What is printed is read back for values without a
`f64` that are nested no deeper than the reader goes; `Value.Exact` says which these are.
-/

namespace T3Claw

/-- `serde_json::to_string` and `serde_json::from_str`, on values. -/
structure SerdeJson where
  to_string : Value → String
  from_str : String → Option Value

/-- The levels of arrays and objects that `from_str` enters. -/
def SerdeJson.RECURSION_LIMIT : ℕ := 127

/-- What is printed for the value is read back as it. -/
def SerdeJson.ReadsBack (serde : SerdeJson) (v : Value) : Prop :=
  serde.from_str (serde.to_string v) = some v

namespace Value

/-- A value without a `f64`, of at most so many levels. -/
inductive Exact : ℕ → Value → Prop where
  | null (n : ℕ) : Exact n .null
  | bool (n : ℕ) (b : Bool) : Exact n (.bool b)
  | posInt (n : ℕ) (k : UInt64) : Exact n (.number (.posInt k))
  | negInt (n : ℕ) (i : ℤ) (range : -2 ^ 63 ≤ i ∧ i < 0) : Exact n (.number (.negInt i range))
  | string (n : ℕ) (s : String) : Exact n (.string s)
  | array {n length : ℕ} {item : Fin length → Value} (h : ∀ i, Exact n (item i)) :
      Exact (n + 1) (.array length item)
  | object {n length : ℕ} {key : Fin length → String} {ascending : StrictMono key}
      {value : Fin length → Value} (h : ∀ i, Exact n (value i)) :
      Exact (n + 1) (.object length key ascending value)

/-- A list of such values. -/
theorem Exact.ofList {n : ℕ} {items : List Value} (h : ∀ v ∈ items, Exact n v) :
    Exact (n + 1) (.ofList items) :=
  .array fun i => h _ (List.get_mem items i)

/-- An object collected from such values. -/
theorem Exact.ofPairs {n : ℕ} {pairs : List (String × Value)}
    (h : ∀ pair ∈ pairs, Exact n pair.2) : Exact (n + 1) (.ofPairs pairs) := by
  have hinsert : ∀ (key : String) (v : Value) (fields : List (String × Value)), Exact n v →
      (∀ field ∈ fields, Exact n field.2) →
      ∀ field ∈ Fields.insert key v fields, Exact n field.2 := by
    intro key v fields hv hfields
    induction fields with
    | nil => simpa [Fields.insert] using hv
    | cons field rest ih =>
      obtain ⟨hfield, hrest⟩ := List.forall_mem_cons.mp hfields
      rw [Fields.insert]
      split_ifs
      · exact List.forall_mem_cons.mpr ⟨hv, hfields⟩
      · exact List.forall_mem_cons.mpr ⟨hv, hrest⟩
      · exact List.forall_mem_cons.mpr ⟨hfield, ih hrest⟩
  have hcollect : ∀ (pairs fields : List (String × Value)), (∀ pair ∈ pairs, Exact n pair.2) →
      (∀ field ∈ fields, Exact n field.2) →
      ∀ field ∈ pairs.foldl (fun fields pair => Fields.insert pair.1 pair.2 fields) fields,
        Exact n field.2 := by
    intro pairs
    induction pairs with
    | nil => exact fun _ _ hfields => hfields
    | cons pair rest ih =>
      intro fields hpairs hfields
      obtain ⟨hpair, hrest⟩ := List.forall_mem_cons.mp hpairs
      exact ih _ hrest (hinsert _ _ _ hpair hfields)
  exact .object fun i => hcollect pairs [] h (fun _ h => absurd h List.not_mem_nil) _
    (List.get_mem _ i)

end Value

/-- Exact values are read back. -/
def SerdeJson.Documented (serde : SerdeJson) : Prop :=
  ∀ v, v.Exact SerdeJson.RECURSION_LIMIT → serde.ReadsBack v

end T3Claw
