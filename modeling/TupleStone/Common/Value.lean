import TupleStone.Common.Status
import TupleStone.Lib.Binary64

/-! # SQL values, columns and schemas -/

set_option autoImplicit false

namespace TupleStone

inductive TypeId where
  | kNull
  | kBoolean
  | kInteger
  | kReal
  | kText
  | kBlob
  deriving DecidableEq, Repr

def TypeId.toByte : TypeId → UInt8
  | kNull => 0
  | kBoolean => 1
  | kInteger => 2
  | kReal => 3
  | kText => 4
  | kBlob => 5

/-- The enumerator that a byte cast to `TypeId` equals, if any. -/
def TypeId.ofByte? (tag : UInt8) : Option TypeId :=
  [kNull, kBoolean, kInteger, kReal, kText, kBlob][tag.toNat]?

inductive Value where
  | null
  | boolean (value : Bool)
  | integer (value : Int64)
  | real (value : Binary64)
  | text (value : Bytes)
  | blob (value : Bytes)
  deriving DecidableEq, Repr

namespace Value

def type : Value → TypeId
  | null => .kNull
  | boolean _ => .kBoolean
  | integer _ => .kInteger
  | real _ => .kReal
  | text _ => .kText
  | blob _ => .kBlob

def isNull : Value → Bool
  | null => true
  | _ => false

/-- A numeric value converted to `double`. -/
def asDouble? : Value → Option Binary64
  | integer n => some (Binary64.ofInt n.toInt)
  | real x => some x
  | _ => none

def integerText (n : Int) : Bytes := (if n < 0 then [45] else []) ++ Binary64.decimalDigits n.natAbs

def hexDigit (n : UInt8) : UInt8 := if n < 10 then 48 + n else 87 + n

def toString : Value → Bytes
  | null => ascii "NULL"
  | boolean b => if b then ascii "TRUE" else ascii "FALSE"
  | integer n => integerText n.toInt
  | real x => x.toText
  | text s => s
  | blob b => ascii "X'" ++ b.flatMap (fun byte => [hexDigit (byte / 16), hexDigit (byte % 16)]) ++ ascii "'"

/-- `(left > right) - (left < right)`. -/
def threeWay (less greater : Bool) : Int := (if greater then 1 else 0) - (if less then 1 else 0)

def compareDouble (left right : Binary64) : Option Int :=
  if left.isNaN || right.isNaN then none else some (threeWay (left.lt right) (right.lt left))

def compareOther : Value → Value → Option Int
  | boolean left, boolean right => some (threeWay (!left && right) (left && !right))
  | text left, text right => some (threeWay (decide (left < right)) (decide (right < left)))
  | blob left, blob right => some (threeWay (decide (left < right)) (decide (right < left)))
  | _, _ => none

def compare (a b : Value) : Option Int :=
  match a.asDouble?, b.asDouble? with
  | some left, some right => compareDouble left right
  | _, _ => compareOther a b

def equals (a b : Value) : Option Bool := (a.compare b).map (· == 0)

/-- `operator==`: NULL equals NULL only, and values that do not compare are different. -/
def same (a b : Value) : Bool :=
  if a.isNull || b.isNull then a.isNull && b.isNull else (a.equals b).getD false

theorem threeWay_swap (less greater : Bool) : threeWay greater less = -threeWay less greater := by
  cases less <;> cases greater <;> rfl

theorem compareDouble_swap (left right : Binary64) :
    compareDouble right left = (compareDouble left right).map (fun c => -c) := by
  rw [compareDouble, compareDouble, Bool.or_comm]
  split
  · rfl
  · rw [threeWay_swap, Option.map_some]

theorem compareOther_swap (a b : Value) : compareOther b a = (compareOther a b).map (fun c => -c) := by
  cases a <;> cases b <;> simp only [compareOther, Option.map_none, Option.map_some, ← threeWay_swap]
  rw [Bool.and_comm, Bool.and_comm (!_)]

theorem compare_swap (a b : Value) : b.compare a = (a.compare b).map (fun c => -c) := by
  rw [compare, compare]
  cases a.asDouble? with
  | none => cases b.asDouble? <;> exact compareOther_swap a b
  | some left =>
    cases b.asDouble? with
    | none => exact compareOther_swap a b
    | some right => exact compareDouble_swap left right

theorem same_comm (a b : Value) : a.same b = b.same a := by
  have hEquals : b.equals a = a.equals b := by
    rw [equals, equals, compare_swap a b]
    cases a.compare b with
    | none => rfl
    | some c => simp
  rw [same, same, hEquals, Bool.or_comm, Bool.and_comm]

theorem scaled_eq_of_compareDouble {x y : Binary64} (h : compareDouble x y = some 0) : x.scaled = y.scaled := by
  rw [compareDouble] at h
  split at h
  · cases h
  · rename_i hNaN
    have hNaN : x.isNaN = false ∧ y.isNaN = false := by simpa using hNaN
    have hThree := Option.some.inj h
    simp only [threeWay, Binary64.lt, hNaN.1, hNaN.2, Bool.not_false, Bool.true_and, decide_eq_true_eq] at hThree
    split at hThree <;> split at hThree <;> omega

theorem compareDouble_of_same {a b : Value} {x y : Binary64} (ha : a.asDouble? = some x)
    (hb : b.asDouble? = some y) (h : a.same b = true) : compareDouble x y = some 0 := by
  have hNull : ∀ {v : Value} {z : Binary64}, v.asDouble? = some z → v.isNull = false := by
    intro v z hv
    cases v <;> first | rfl | cases hv
  rw [same, hNull ha, hNull hb, equals, compare, ha, hb] at h
  cases hCompared : compareDouble x y with
  | none => simp [hCompared] at h
  | some c =>
    have hc : c = 0 := by simpa [hCompared] using h
    rw [hc]

/-- Small integers are equal only when identical, although they are compared as `double`. -/
theorem eq_of_same_integer {m n : Int64} (hm : m.toInt.natAbs ≤ 2 ^ 53) (hn : n.toInt.natAbs ≤ 2 ^ 53)
    (h : (integer m).same (integer n) = true) : m = n := by
  have hScaled := scaled_eq_of_compareDouble (compareDouble_of_same rfl rfl h)
  exact Int64.toInt_inj.mp (Binary64.eq_of_scaled_ofInt_eq hm hn hScaled)

end Value

structure Column where
  name : Bytes
  type : TypeId := .kNull
  nullable : Bool := true
  primaryKey : Bool := false
  unique : Bool := false
  deriving DecidableEq, Repr

structure Schema where
  columns : List Column
  deriving DecidableEq, Repr

def Schema.size (schema : Schema) : Nat := schema.columns.length

def equalIgnoringCase (left right : Bytes) : Bool :=
  left.length == right.length && (left.zip right).all (fun pair => toLower pair.1 == toLower pair.2)

/-- The index of the first column of that name, `none` for the source's `-1`. -/
def Schema.find (schema : Schema) (name : Bytes) : Option Nat :=
  schema.columns.findIdx? (fun column => equalIgnoringCase column.name name)

end TupleStone
