import Mathlib.Algebra.Group.Int.Defs
import Mathlib.Data.List.FinRange
import Mathlib.Data.List.OfFn
import Mathlib.Data.String.Basic

/-!
# JSON values, exactly

`serde_json::Value` where its numbers matter: an integer of 64 bits, signed or not, or a finite
`f64`. An array is a family over its length, an object a family over its keys, which ascend as
those of a `BTreeMap` do; so two objects are equal when they hold the same.

`ofPairs` collects pairs into an object, the later of two with one key winning.
-/

namespace T3Claw

/-- `serde_json::Number`. -/
inductive Number where
  | posInt (n : UInt64)
  | negInt (i : ℤ) (range : -2 ^ 63 ≤ i ∧ i < 0)
  | float (f : Float) (finite : f.isFinite = true)

/-- `serde_json::Value`. -/
inductive Value where
  | null
  | bool (b : Bool)
  | number (n : Number)
  | string (s : String)
  | array (length : ℕ) (item : Fin length → Value)
  | object (length : ℕ) (key : Fin length → String) (ascending : StrictMono key)
    (value : Fin length → Value)

namespace Fields

variable {α β : Type} {key k : String} {v : α} {fields : List (String × α)}

/-- `BTreeMap::insert`. -/
def insert (key : String) (v : α) : List (String × α) → List (String × α)
  | [] => [(key, v)]
  | field :: rest =>
    if key < field.1 then (key, v) :: field :: rest
    else if key = field.1 then (key, v) :: rest
    else field :: insert key v rest

/-- `Map::from_iter`. -/
def collect (pairs : List (String × α)) : List (String × α) :=
  pairs.foldl (fun fields pair => insert pair.1 pair.2 fields) []

/-- The keys ascend. -/
abbrev Ascending (fields : List (String × α)) : Prop := fields.Pairwise fun a b => a.1 < b.1

/-- `Map::get`. -/
def get? (fields : List (String × α)) (key : String) : Option α :=
  (fields.find? fun field => field.1 == key).map Prod.snd

theorem mem_keys_insert (h : k ∈ (insert key v fields).map Prod.fst) :
    k = key ∨ k ∈ fields.map Prod.fst := by
  induction fields with
  | nil => exact .inl (List.mem_singleton.mp h)
  | cons field rest ih =>
    rw [insert] at h
    split_ifs at h with hlt heq
    · exact List.mem_cons.mp h
    · exact (List.mem_cons.mp h).imp_right (List.mem_cons_of_mem _)
    · obtain rfl | h := List.mem_cons.mp h
      · exact .inr List.mem_cons_self
      · exact (ih h).imp_right (List.mem_cons_of_mem _)

theorem ascending_insert (h : Ascending fields) : Ascending (insert key v fields) := by
  induction fields with
  | nil => exact List.pairwise_singleton _ _
  | cons field rest ih =>
    obtain ⟨hfirst, hrest⟩ := List.pairwise_cons.mp h
    rw [insert]
    split_ifs with hlt heq
    · refine List.pairwise_cons.mpr ⟨fun other hother => ?_, h⟩
      obtain rfl | hother := List.mem_cons.mp hother
      · exact hlt
      · exact hlt.trans (hfirst other hother)
    · exact List.pairwise_cons.mpr ⟨fun other hother => heq ▸ hfirst other hother, hrest⟩
    · refine List.pairwise_cons.mpr ⟨fun other hother => ?_, ih hrest⟩
      obtain heq' | hmem := mem_keys_insert (List.mem_map_of_mem hother)
      · rw [heq']
        exact lt_of_le_of_ne (not_lt.mp hlt) fun h => heq h.symm
      · obtain ⟨old, hold, hkey⟩ := List.mem_map.mp hmem
        rw [← hkey]
        exact hfirst old hold

theorem ascending_collect (pairs : List (String × α)) : Ascending (collect pairs) := by
  have hfold : ∀ (pairs fields : List (String × α)), Ascending fields →
      Ascending (pairs.foldl (fun fields pair => insert pair.1 pair.2 fields) fields) := by
    intro pairs
    induction pairs with
    | nil => exact fun _ h => h
    | cons pair rest ih => exact fun fields h => ih _ (ascending_insert h)
  exact hfold pairs [] List.Pairwise.nil

/-- A new greatest key goes to the end. -/
theorem insert_last (h : ∀ field ∈ fields, field.1 < key) :
    insert key v fields = fields ++ [(key, v)] := by
  induction fields with
  | nil => rfl
  | cons field rest ih =>
    obtain ⟨hfirst, hrest⟩ := List.forall_mem_cons.mp h
    rw [insert, if_neg hfirst.not_gt, if_neg hfirst.ne', ih hrest, List.cons_append]

/-- Fields whose keys ascend are collected as they are. -/
theorem collect_of_ascending {pairs : List (String × α)} (h : Ascending pairs) :
    collect pairs = pairs := by
  have hfold : ∀ (rest front : List (String × α)), Ascending (front ++ rest) →
      rest.foldl (fun fields pair => insert pair.1 pair.2 fields) front = front ++ rest := by
    intro rest
    induction rest with
    | nil => exact fun front _ => (List.append_nil front).symm
    | cons pair rest ih =>
      intro front h
      have hlast : ∀ field ∈ front, field.1 < pair.1 := fun field hfield =>
        (List.pairwise_append.mp h).2.2 field hfield pair List.mem_cons_self
      rw [List.foldl_cons, insert_last hlast, ih, List.append_assoc, List.singleton_append]
      rwa [List.append_assoc, List.singleton_append]
  exact hfold pairs [] h

theorem get?_insert (h : Ascending fields) :
    get? (insert key v fields) k = if k = key then some v else get? fields k := by
  induction fields with
  | nil =>
    rw [insert, get?, List.find?_singleton]
    by_cases hk : k = key
    · simp [hk]
    · simp [hk, Ne.symm hk, get?]
  | cons field rest ih =>
    have hcons : ∀ (f : String × α) (fs : List (String × α)),
        get? (f :: fs) k = if k = f.1 then some f.2 else get? fs k := by
      intro f fs
      by_cases hk : k = f.1
      · simp [get?, hk]
      · simp [get?, hk, Ne.symm hk]
    rw [insert]
    by_cases hlt : key < field.1
    · rw [if_pos hlt, hcons]
    by_cases heq : key = field.1
    · rw [if_neg hlt, if_pos heq, hcons, hcons]
      by_cases hk : k = key
      · rw [if_pos hk, if_pos hk]
      · rw [if_neg hk, if_neg hk, if_neg fun h => hk (h.trans heq.symm)]
    · rw [if_neg hlt, if_neg heq, hcons, hcons, ih (List.pairwise_cons.mp h).2]
      by_cases hk : k = field.1
      · rw [if_pos hk, if_pos hk, if_neg fun hkey => heq (hkey.symm.trans hk)]
      · rw [if_neg hk, if_neg hk]

/-- What is collected under a key is the last pair with it. -/
theorem get?_collect (pairs : List (String × α)) (key : String) :
    get? (collect pairs) key = get? pairs.reverse key := by
  have hfold : ∀ (pairs fields : List (String × α)), Ascending fields →
      get? (pairs.foldl (fun fields pair => insert pair.1 pair.2 fields) fields) key =
        (get? pairs.reverse key).or (get? fields key) := by
    intro pairs
    induction pairs with
    | nil => exact fun _ _ => rfl
    | cons pair rest ih =>
      intro fields h
      rw [List.foldl_cons, ih _ (ascending_insert h), get?_insert h, List.reverse_cons]
      simp only [get?, List.find?_append, List.find?_singleton]
      cases rest.reverse.find? fun field => field.1 == key with
      | some found => rfl
      | none =>
        by_cases hk : key = pair.1
        · simp [hk]
        · simp [hk, Ne.symm hk]
  rw [collect, hfold pairs [] List.Pairwise.nil]
  exact Option.or_none

end Fields

namespace Value

/-- The object with these fields. -/
def ofAscending (fields : List (String × Value)) (h : Fields.Ascending fields) : Value :=
  .object fields.length (fun i => (fields.get i).1)
    (fun i j hij => List.pairwise_iff_getElem.mp h i j i.isLt j.isLt hij)
    fun i => (fields.get i).2

/-- An object collected from pairs, as `json!` and `Map::from_iter` do. -/
def ofPairs (pairs : List (String × Value)) : Value :=
  ofAscending (Fields.collect pairs) (Fields.ascending_collect pairs)

/-- An array of a list. -/
def ofList (items : List Value) : Value := .array items.length items.get

/-- `Value::get` with a string key. -/
def get? : Value → String → Option Value
  | .object _ key _ value, k => Fields.get? (List.ofFn fun i => (key i, value i)) k
  | _, _ => none

/-- `Value::as_str`. -/
def asStr? : Value → Option String
  | .string s => some s
  | _ => none

/-- `Value::as_array`. -/
def asArray? : Value → Option (List Value)
  | .array _ item => some (List.ofFn item)
  | _ => none

/-- `Value::is_null`. -/
def isNull : Value → Bool
  | .null => true
  | _ => false

@[simp] theorem asStr?_string (s : String) : (string s).asStr? = some s := rfl

@[simp] theorem asStr?_null : null.asStr? = none := rfl

/-- Objects of the same fields. -/
theorem object_congr {m n : ℕ} (h : m = n) {key : Fin m → String} {key' : Fin n → String}
    (ascending : StrictMono key) (ascending' : StrictMono key') {value : Fin m → Value}
    {value' : Fin n → Value} (hkey : ∀ i, key i = key' (i.cast h))
    (hvalue : ∀ i, value i = value' (i.cast h)) :
    object m key ascending value = object n key' ascending' value' := by
  subst h
  obtain rfl : key = key' := funext hkey
  obtain rfl : value = value' := funext hvalue
  rfl

theorem ascending_ofFn {n : ℕ} {key : Fin n → String} (ascending : StrictMono key)
    (value : Fin n → Value) : Fields.Ascending (List.ofFn fun i => (key i, value i)) :=
  List.pairwise_ofFn.mpr fun _ _ hij => ascending hij

/-- An object is what is collected from its fields. -/
theorem ofPairs_ofFn {n : ℕ} {key : Fin n → String} (ascending : StrictMono key)
    (value : Fin n → Value) :
    ofPairs (List.ofFn fun i => (key i, value i)) = .object n key ascending value := by
  have hcollect := Fields.collect_of_ascending (ascending_ofFn ascending value)
  have hlength : (Fields.collect (List.ofFn fun i => (key i, value i))).length = n := by
    rw [hcollect, List.length_ofFn]
  rw [ofPairs, ofAscending]
  refine object_congr hlength _ _ (fun i => ?_) fun i => ?_
  all_goals
    simp only [List.get_eq_getElem, hcollect, List.getElem_ofFn]
    rfl

@[simp] theorem get?_ofPairs (pairs : List (String × Value)) (key : String) :
    (ofPairs pairs).get? key = Fields.get? pairs.reverse key :=
  (congrArg (Fields.get? · key) (List.ofFn_get _)).trans (Fields.get?_collect pairs key)

@[simp] theorem asArray?_ofList (items : List Value) : (ofList items).asArray? = some items :=
  congrArg some (List.ofFn_get items)

end Value

end T3Claw
