import Mathlib.Algebra.Order.Ring.Int
import Mathlib.Data.Fin.Basic
import Mathlib.Data.List.Basic
import Mathlib.Tactic.SplitIfs

/-! JSON values as `serde_json` holds them with `preserve_order`: an object is
its entries in insertion order, a number is one of three representations. -/

namespace Lobster

/-- A finite binary64 value by its three bit fields. -/
structure F64 where
  neg : Bool
  exponent : Fin 2047
  fraction : Fin (2 ^ 52)
  deriving DecidableEq, Repr

namespace F64

def zero : F64 := ⟨false, 0, 0⟩

/-- Nearest double of an integer magnitude below `2 ^ 64`, ties to even. -/
def ofNat (neg : Bool) (n : Nat) : F64 :=
  if n = 0 then zero
  else
    let e := n.log2
    if e ≤ 52 then ⟨neg, Fin.ofNat 2047 (1023 + e), Fin.ofNat (2 ^ 52) (n * 2 ^ (52 - e))⟩
    else
      let unit := 2 ^ (e - 52)
      let q := n / unit
      let r := n % unit
      let q' := if unit < 2 * r ∨ (2 * r = unit ∧ q % 2 = 1) then q + 1 else q
      if q' = 2 ^ 53 then ⟨neg, Fin.ofNat 2047 (1024 + e), 0⟩
      else ⟨neg, Fin.ofNat 2047 (1023 + e), Fin.ofNat (2 ^ 52) q'⟩

end F64

inductive Number where
  | posInt (n : UInt64)
  | negInt (k : Fin (2 ^ 63))
  | float (f : F64)
  deriving DecidableEq, Repr

inductive Json where
  | null
  | bool (b : Bool)
  | num (n : Number)
  | str (s : String)
  | arr (items : List Json)
  | obj (fields : List (String × Json))

abbrev Fields := List (String × Json)

namespace Json

mutual

def decEq : (a b : Json) → Decidable (a = b)
  | .null, .null => isTrue rfl
  | .bool a, .bool b => decidable_of_iff (a = b) (by simp)
  | .num a, .num b => decidable_of_iff (a = b) (by simp)
  | .str a, .str b => decidable_of_iff (a = b) (by simp)
  | .arr a, .arr b => let _ := decEqItems a b; decidable_of_iff (a = b) (by simp)
  | .obj a, .obj b => let _ := decEqFields a b; decidable_of_iff (a = b) (by simp)
  | .null, .bool _ | .null, .num _ | .null, .str _ | .null, .arr _ | .null, .obj _
  | .bool _, .null | .bool _, .num _ | .bool _, .str _ | .bool _, .arr _ | .bool _, .obj _
  | .num _, .null | .num _, .bool _ | .num _, .str _ | .num _, .arr _ | .num _, .obj _
  | .str _, .null | .str _, .bool _ | .str _, .num _ | .str _, .arr _ | .str _, .obj _
  | .arr _, .null | .arr _, .bool _ | .arr _, .num _ | .arr _, .str _ | .arr _, .obj _
  | .obj _, .null | .obj _, .bool _ | .obj _, .num _ | .obj _, .str _ | .obj _, .arr _ =>
    isFalse nofun

def decEqItems : (a b : List Json) → Decidable (a = b)
  | [], [] => isTrue rfl
  | [], _ :: _ => isFalse nofun
  | _ :: _, [] => isFalse nofun
  | a :: as, b :: bs =>
    let _ := decEq a b
    let _ := decEqItems as bs
    decidable_of_iff (a = b ∧ as = bs) (by simp)

def decEqFields : (a b : List (String × Json)) → Decidable (a = b)
  | [], [] => isTrue rfl
  | [], _ :: _ => isFalse nofun
  | _ :: _, [] => isFalse nofun
  | (k, a) :: as, (l, b) :: bs =>
    let _ := decEq a b
    let _ := decEqFields as bs
    decidable_of_iff ((k = l ∧ a = b) ∧ as = bs) (by simp)

end

instance : DecidableEq Json := decEq

instance : Inhabited Json := ⟨.null⟩

end Json

namespace Fields

def get? (fields : Fields) (key : String) : Option Json := fields.lookup key

def containsKey (fields : Fields) (key : String) : Bool := (fields.get? key).isSome

/-- Replaces the value of a present key where it stands, else appends. -/
def insert (key : String) (value : Json) : Fields → Fields
  | [] => [(key, value)]
  | (k, v) :: rest => if k = key then (k, value) :: rest else (k, v) :: insert key value rest

def insertSome (key : String) (value : Option Json) (fields : Fields) : Fields :=
  match value with
  | some v => fields.insert key v
  | none => fields

/-- `Map::remove` is a swap: the last entry takes the place of the removed one. -/
def swapRemove (key : String) (fields : Fields) : Fields :=
  match fields.findIdx? (fun e => e.1 = key), fields.getLast? with
  | some i, some last => (fields.set i last).dropLast
  | _, _ => fields

@[simp] theorem get?_nil (key : String) : get? [] key = none := rfl

theorem get?_cons (k key : String) (v : Json) (rest : Fields) :
    get? ((k, v) :: rest) key = if k = key then some v else get? rest key := by
  unfold get?
  rw [List.lookup_cons]
  by_cases h : k = key
  · simp [h]
  · have hb : (key == k) = false := beq_eq_false_iff_ne.mpr (Ne.symm h)
    simp [h, hb]

@[simp] theorem get?_insert_self (fields : Fields) (key : String) (value : Json) :
    (fields.insert key value).get? key = some value := by
  induction fields with
  | nil => simp [insert, get?_cons]
  | cons e rest ih =>
    obtain ⟨k, v⟩ := e
    unfold insert
    split_ifs with h <;> simp [get?_cons, h, ih]

theorem get?_insert_ne (fields : Fields) {key other : String} (value : Json) (h : key ≠ other) :
    (fields.insert key value).get? other = fields.get? other := by
  induction fields with
  | nil => simp [insert, get?_cons, h]
  | cons e rest ih =>
    obtain ⟨k, v⟩ := e
    unfold insert
    split_ifs with hk
    · subst hk
      simp [get?_cons, h]
    · simp [get?_cons, ih]

theorem get?_insertSome_self (fields : Fields) (key : String) (value : Option Json) :
    (fields.insertSome key value).get? key = value.or (fields.get? key) := by
  cases value with
  | none => rfl
  | some v => exact get?_insert_self fields key v

theorem get?_insertSome_ne (fields : Fields) {key other : String} (value : Option Json)
    (h : key ≠ other) : (fields.insertSome key value).get? other = fields.get? other := by
  cases value with
  | none => rfl
  | some v => exact get?_insert_ne fields v h

end Fields

namespace Json

/-- `Value::get` with a string index: only objects have members. -/
def get? : Json → String → Option Json
  | .obj fields, key => Fields.get? fields key
  | _, _ => none

/-- `Value::pointer` for a path of member names. -/
def pointer : Json → List String → Option Json
  | v, [] => some v
  | v, key :: path => (v.get? key).bind (fun w => w.pointer path)

def asStr : Json → Option String
  | .str s => some s
  | _ => none

def asBool : Json → Option Bool
  | .bool b => some b
  | _ => none

def asArray : Json → Option (List Json)
  | .arr items => some items
  | _ => none

def asObject : Json → Option Fields
  | .obj fields => some fields
  | _ => none

def asU64 : Json → Option UInt64
  | .num (.posInt n) => some n
  | _ => none

def asI64 : Json → Option Int
  | .num (.posInt n) => if n.toNat < 2 ^ 63 then some n.toNat else none
  | .num (.negInt k) => some (-(k.val + 1 : Int))
  | _ => none

def asF64 : Json → Option F64
  | .num (.posInt n) => some (.ofNat false n.toNat)
  | .num (.negInt k) => some (.ofNat true (k.val + 1))
  | .num (.float f) => some f
  | _ => none

def isObject (v : Json) : Bool := v.asObject.isSome

def isBoolean (v : Json) : Bool := v.asBool.isSome

def ofNat (n : Nat) : Json := .num (.posInt (UInt64.ofNat n))

/-- `get(key).and_then(Value::as_str)`. -/
def getStr? (v : Json) (key : String) : Option String := (v.get? key).bind asStr

/-- `get(key).and_then(Value::as_str).unwrap_or_default()`. -/
def getStrD (v : Json) (key : String) : String := (v.getStr? key).getD ""

/-- Assignment `v[key] = value` on an object. -/
def set (v : Json) (key : String) (value : Json) : Json :=
  match v with
  | .obj fields => .obj (Fields.insert key value fields)
  | v => v

@[simp] theorem get?_obj (fields : Fields) (key : String) :
    (obj fields).get? key = Fields.get? fields key :=
  rfl

@[simp] theorem asStr_str (s : String) : (str s).asStr = some s := rfl

@[simp] theorem asArray_arr (items : List Json) : (arr items).asArray = some items := rfl

@[simp] theorem asObject_obj (fields : Fields) : (obj fields).asObject = some fields := rfl

theorem obj_of_get? {v w : Json} {key : String} (h : v.get? key = some w) :
    ∃ fields, v = obj fields := by
  cases v with
  | obj fields => exact ⟨fields, rfl⟩
  | _ => cases h

theorem asObject_eq_some {v : Json} {fields : Fields} :
    v.asObject = some fields ↔ v = obj fields := by
  cases v <;> simp [asObject]

theorem asArray_eq_some {v : Json} {items : List Json} :
    v.asArray = some items ↔ v = arr items := by
  cases v <;> simp [asArray]

end Json

/-- The parts of the third-party serializer that the program calls: `to_string`
on a value, and parsing of a byte slice or a string. -/
structure Serde where
  toString : Json → String
  fromSlice : List UInt8 → Option Json
  fromStr : String → Option Json

/-- Answers as the real serializer does on the empty object and its text. -/
def Serde.emptyObject : Serde where
  toString _ := "\x7b\x7d"
  fromSlice _ := some (.obj [])
  fromStr _ := some (.obj [])

end Lobster
