import PodpingAlpha.Library.JsonReader

/-!
# Records in JSON

The rules by which a record is read from a JSON value, field by field. A record is an object, which
names each field at most once and may have others, or an array with the fields in their order. A
field that may be absent may also be null.

A parser is any function that takes back the flat objects from their texts: those whose values are
strings, 64-bit numbers and lists of strings. `fromBytes` is one.
-/

namespace PodpingAlpha.Json

/-! ### Values -/

/-- A string. -/
def str? : Json → Option String
  | .str s => some s
  | _ => none

/-- A number below `bound`. -/
def nat? (bound : ℕ) : Json → Option ℕ
  | .num n => if n < bound then some n else none
  | _ => none

/-- A `u64`. -/
def u64? (v : Json) : Option UInt64 := (v.nat? (2 ^ 64)).map UInt64.ofNat

/-- A `u32`. -/
def u32? (v : Json) : Option UInt32 := (v.nat? (2 ^ 32)).map UInt32.ofNat

/-- A number of any kind. -/
def number? : Json → Option ℕ
  | .num n => some n
  | _ => none

/-- A list of strings. -/
def strs? : Json → Option (List String)
  | .arr vs => vs.mapM str?
  | _ => none

@[simp] theorem str?_str (s : String) : str? (.str s) = some s := rfl

@[simp] theorem u64?_u64 (n : UInt64) : u64? (.u64 n) = some n := by
  have hlt : n.toNat < 2 ^ 64 := n.toNat_lt
  rw [u64?, u64, nat?, if_pos hlt, Option.map_some, UInt64.ofNat_toNat]

@[simp] theorem strs?_arr (l : List String) : strs? (.arr (l.map .str)) = some l := by
  rw [strs?]
  induction l with
  | nil => rfl
  | cons s l ih => simp [ih]

/-! ### Fields -/

/-- The values of the fields of a record, of which an array gives at least the first `least`. -/
def entries (keys : List String) (least : ℕ) : Json → Option (String → Option Json)
  | .obj fields =>
    if ((fields.map Prod.fst).filter (· ∈ keys)).Nodup then some fun k => fields.lookup k else none
  | .arr vs =>
    if least ≤ vs.length ∧ vs.length ≤ keys.length then some fun k => (keys.zip vs).lookup k
    else none
  | _ => none

/-- A field that must be there. -/
def must {α : Type} (read : Json → Option α) : Option Json → Option α
  | none => none
  | some v => read v

/-- A field that may be absent. -/
def may {α : Type} (read : Json → Option α) : Option Json → Option (Option α)
  | none => some none
  | some .null => some none
  | some v => (read v).map some

@[simp] theorem must_none {α : Type} (read : Json → Option α) : must read none = none := rfl

@[simp] theorem must_some {α : Type} (read : Json → Option α) (v : Json) :
    must read (some v) = read v := rfl

@[simp] theorem may_none {α : Type} (read : Json → Option α) : may read none = some none := rfl

@[simp] theorem may_str (o : Option String) : may str? (o.map .str) = some o := by
  cases o <;> rfl

@[simp] theorem may_u64 (o : Option UInt64) : may u64? (o.map .u64) = some o := by
  cases o with
  | none => rfl
  | some n =>
    show (u64? (.u64 n)).map some = _
    rw [u64?_u64, Option.map_some]

@[simp] theorem may_arr (o : Option (List String)) :
    may strs? (o.map fun l => .arr (l.map .str)) = some o := by
  cases o with
  | none => rfl
  | some l =>
    show (strs? (.arr (l.map .str))).map some = _
    rw [strs?_arr, Option.map_some]

/-- An object that names no field twice. -/
theorem entries_obj {keys : List String} {least : ℕ} {fields : List (String × Json)}
    (h : (fields.map Prod.fst).Nodup) :
    entries keys least (.obj fields) = some fun k => fields.lookup k :=
  if_pos (h.filter _)

theorem lookup_field (k key : String) (v : Json) (fields : List (String × Json)) :
    ((key, v) :: fields).lookup k = if k = key then some v else fields.lookup k := by
  by_cases h : k = key
  · simp [h]
  · simp [List.lookup_cons, h, beq_eq_false_iff_ne.2 h]

@[simp] theorem lookup_optionalField {α : Type} (k key : String) (value : α → Json)
    (o : Option α) : (optionalField key value o).lookup k = if k = key then o.map value else none := by
  cases o with
  | none => simp [optionalField]
  | some a => simp [optionalField, lookup_field]

/-- The key of an optional field. -/
theorem keys_optionalField {α : Type} (key : String) (value : α → Json) (o : Option α) :
    List.Sublist ((optionalField key value o).map Prod.fst) [key] := by
  cases o with
  | none => exact List.nil_sublist _
  | some a => exact List.Sublist.refl _

/-! ### Parsers -/

/-- A string, a 64-bit number or a list of strings. -/
def Flat : Json → Prop
  | .str _ => True
  | .num n => n < 2 ^ 64
  | .arr vs => ∀ v ∈ vs, ∃ s, v = .str s
  | _ => False

@[simp] theorem flat_str (s : String) : Flat (.str s) := trivial

@[simp] theorem flat_u64 (n : UInt64) : Flat (.u64 n) := n.toNat_lt

@[simp] theorem flat_arr (l : List String) : Flat (.arr (l.map .str)) := by
  intro v hv
  obtain ⟨s, -, rfl⟩ := List.mem_map.1 hv
  exact ⟨s, rfl⟩

/-- The parser takes back the flat objects from their texts. -/
def RoundTrips (fromSlice : Bytes → Option Json) : Prop :=
  ∀ fields, (∀ f ∈ fields, Flat f.2) → fromSlice (Json.obj fields).toBytes = some (.obj fields)

theorem roundTrips_fromBytes : RoundTrips fromBytes := fun fields _ => fromBytes_toBytes (.obj fields)

end PodpingAlpha.Json
