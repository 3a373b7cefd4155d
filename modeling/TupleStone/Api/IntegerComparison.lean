import TupleStone.Lib.NearestInteger
import TupleStone.Api.DeleteSelect
import TupleStone.Api.ThreeValued

/-! # Comparison of integers

Two integers are compared as `double`, before the branch that would compare them as they are. So they are compared by
the nearest numbers of 53 significant bits, and neighbours above `2 ^ 53` are equal.
-/

set_option autoImplicit false

namespace TupleStone

open Binary64 (nearestInt)
open Attempt

/-! ## Two integers -/

/-- The comparison has the sign of the difference, and equality is equality. -/
structure ComparesExactly (a b : Int64) : Prop where
  compare : (Value.integer a).compare (.integer b) = some (a.toInt - b.toInt).sign
  equals : (Value.integer a).equals (.integer b) = some (decide (a = b))
  same : (Value.integer a).same (.integer b) = decide (a = b)

theorem log2_toInt (a : Int64) : a.toInt.natAbs.log2 < 1024 := by
  have hLow := a.le_toInt
  have hHigh := a.toInt_lt
  obtain hZero | hNe := Nat.eq_zero_or_pos a.toInt.natAbs
  · rw [hZero, Nat.log2_zero]
    decide
  · have hLog : a.toInt.natAbs.log2 < 64 := (Nat.log2_lt hNe.ne').mpr (by omega)
    omega

theorem compare_nearest (a b : Int64) :
    (Value.integer a).compare (.integer b) = some (nearestInt a.toInt - nearestInt b.toInt).sign := by
  simp only [Value.compare, Value.asDouble?, Value.compareDouble, Binary64.isNaN_ofInt, Bool.or_self, Binary64.lt,
    Bool.not_false, Bool.true_and, Binary64.scaled_ofInt_lt (log2_toInt _) (log2_toInt _)]
  rw [if_neg Bool.false_ne_true, Value.threeWay]
  congr 1
  obtain hLess | hSame | hGreater := lt_trichotomy (nearestInt a.toInt) (nearestInt b.toInt)
  · rw [Int.sign_eq_neg_one_of_neg (by omega), if_neg (by simpa using hLess.le), if_pos (by simpa using hLess)]
    rfl
  · rw [hSame, Int.sub_self, Int.sub_self]
    rfl
  · rw [Int.sign_eq_one_of_pos (by omega), if_pos (by simpa using hGreater), if_neg (by simpa using hGreater.le)]
    rfl

theorem sign_sub_beq (x y : Int) : ((x - y).sign == 0) = decide (x = y) := by
  rw [Bool.eq_iff_iff, beq_iff_eq, Int.sign_eq_zero_iff_zero, decide_eq_true_iff, Int.sub_eq_zero]

theorem same_nearest (a b : Int64) :
    (Value.integer a).same (.integer b) = decide (nearestInt a.toInt = nearestInt b.toInt) := by
  change (((Value.integer a).equals (.integer b)).getD false) = _
  rw [Value.equals, compare_nearest, Option.map_some, Option.getD_some, sign_sub_beq]

/-- Numbers that differ after rounding are in the order of the integers. -/
theorem sign_nearest {a b : Int64} (h : nearestInt a.toInt ≠ nearestInt b.toInt) :
    (nearestInt a.toInt - nearestInt b.toInt).sign = (a.toInt - b.toInt).sign := by
  have hMono : ∀ {a b : Int64}, a.toInt ≤ b.toInt → nearestInt a.toInt ≤ nearestInt b.toInt :=
    fun hLe => Binary64.nearestInt_mono (log2_toInt _) (log2_toInt _) hLe
  obtain hLess | hSame | hGreater := lt_trichotomy a.toInt b.toInt
  · have hRounded := hMono hLess.le
    rw [Int.sign_eq_neg_one_of_neg (by omega), Int.sign_eq_neg_one_of_neg (by omega)]
  · rw [hSame] at h
    exact absurd rfl h
  · have hRounded := hMono hGreater.le
    rw [Int.sign_eq_one_of_pos (by omega), Int.sign_eq_one_of_pos (by omega)]

theorem comparesExactly_iff (a b : Int64) : ComparesExactly a b ↔ a = b ∨ nearestInt a.toInt ≠ nearestInt b.toInt := by
  constructor
  · intro h
    have hSame := h.same
    rw [same_nearest, decide_eq_decide] at hSame
    by_cases hEqual : a = b
    · exact Or.inl hEqual
    · exact Or.inr (mt hSame.mp hEqual)
  · intro h
    have hEqual : nearestInt a.toInt = nearestInt b.toInt ↔ a = b := by
      constructor
      · exact h.resolve_right ∘ not_not_intro
      · rintro rfl
        rfl
    have hCompare : (Value.integer a).compare (.integer b) = some (a.toInt - b.toInt).sign := by
      rw [compare_nearest]
      obtain rfl | hDiffer := h
      · simp
      · rw [sign_nearest hDiffer]
    constructor
    · exact hCompare
    · rw [Value.equals, hCompare, Option.map_some, sign_sub_beq]
      simp only [Int64.toInt_inj]
    · rw [same_nearest, decide_eq_decide]
      exact hEqual

theorem comparesExactly_of_le {a b : Int64} (ha : a.toInt.natAbs ≤ 2 ^ 53) (hb : b.toInt.natAbs ≤ 2 ^ 53) :
    ComparesExactly a b := by
  rw [comparesExactly_iff, Binary64.nearestInt_of_le ha, Binary64.nearestInt_of_le hb, Ne, Int64.toInt_inj]
  exact em _

/-! ## A key among the keys present -/

namespace Statement

/-- The uniqueness check passes when every constrained column holds no equal value. -/
theorem checkUnique_ok_iff (existing : List Row) (i : Nat) (pairs : List (Column × Value)) :
    checkUnique existing i pairs = .done .ok ↔ ∀ k column value, pairs[k]? = some (column, value) →
      (column.primaryKey || column.unique) = true → holdsAt (i + k) value existing = .done false := by
  induction pairs generalizing i with
  | nil => simp [checkUnique]
  | cons pair pairs ih =>
    obtain ⟨column, value⟩ := pair
    have hHead : checkUnique existing i ((column, value) :: pairs) = .done .ok ↔
        ((column.primaryKey || column.unique) = true → holdsAt i value existing = .done false) ∧
          checkUnique existing (i + 1) pairs = .done .ok := by
      rw [checkUnique]
      cases column.primaryKey || column.unique with
      | false => simp
      | true =>
        cases hHolds : holdsAt i value existing with
        | done held =>
          cases held with
          | false => simp
          | true => simp [Status.alreadyExists]
        | undefined => simp
        | outOfFuel => simp
    rw [hHead, ih]
    constructor
    · rintro ⟨hFirst, hRest⟩ k other stored hPair hConstrained
      cases k with
      | zero =>
        cases hPair
        exact hFirst hConstrained
      | succ k =>
        have hHolds := hRest k other stored hPair hConstrained
        rwa [Nat.add_assoc, Nat.add_comm 1] at hHolds
    · intro h
      constructor
      · exact h 0 column value rfl
      · intro k other stored hPair hConstrained
        have hHolds := h (k + 1) other stored hPair hConstrained
        rwa [Nat.add_assoc, Nat.add_comm 1]

theorem checkValue_failed {column : Column} {value : Value} {status : Status} (h : checkValue column value = some status) :
    status ≠ .ok := by
  rw [checkValue] at h
  split at h
  · split at h
    · cases h
    · cases h
      exact Status.noConfusion
  · split at h
    · cases h
    · cases h
      exact Status.noConfusion

theorem validateRow_ok_iff (schema : Schema) (existing : List Row) (row : Row) :
    validateRow schema existing row = .done .ok ↔ row.length = schema.size ∧
      (∀ pair ∈ schema.columns.zip row, checkValue pair.1 pair.2 = none) ∧
        checkUnique existing 0 (schema.columns.zip row) = .done .ok := by
  rw [validateRow]
  split
  · next hWidth => simp [hWidth, Status.invalidArgument]
  · next hWidth =>
    rw [not_ne_iff] at hWidth
    rw [← List.findSome?_eq_none_iff]
    cases hValues : (schema.columns.zip row).findSome? (fun pair => checkValue pair.1 pair.2) with
    | none => simp [hWidth]
    | some status => 
      obtain ⟨pair, -, hPair⟩ := List.exists_of_findSome?_eq_some hValues
      have hFailed := checkValue_failed hPair
      simp [hFailed]

/-- Only the key in the column at index `i` may refuse the row: its other checks pass. -/
structure OnlyKey (schema : Schema) (existing : List Row) (row : Row) (i : Nat) (key : Int64) (present : List Int64) :
    Prop where
  unique : ∃ column, schema.columns[i]? = some column ∧ (column.primaryKey || column.unique) = true
  key : row[i]? = some (.integer key)
  present : existing.map (fun other => other[i]?) = present.map (fun n => some (.integer n))
  width : row.length = schema.size
  values : ∀ pair ∈ schema.columns.zip row, checkValue pair.1 pair.2 = none
  others : ∀ k column value, (schema.columns.zip row)[k]? = some (column, value) →
    (column.primaryKey || column.unique) = true → k ≠ i → holdsAt k value existing = .done false

theorem holdsAt_integer {i : Nat} {existing : List Row} {present : List Int64}
    (h : existing.map (fun other => other[i]?) = present.map (fun n => some (.integer n))) (key : Int64) :
    holdsAt i (.integer key) existing = .done (present.any fun n => nearestInt n.toInt = nearestInt key.toInt) := by
  induction existing generalizing present with
  | nil =>
    cases List.map_eq_nil_iff.mp h.symm
    rfl
  | cons other existing ih =>
    cases present with
    | nil => cases h
    | cons n present =>
      obtain ⟨hStored, hRest⟩ := List.cons.inj h
      dsimp only at hStored
      rw [holdsAt, hStored]
      simp only [same_nearest, Value.isNull, Bool.not_false, Bool.and_true, List.any_cons, ih hRest]
      cases decide (nearestInt n.toInt = nearestInt key.toInt) <;> rfl

theorem validateRow_key_iff {schema : Schema} {existing : List Row} {row : Row} {i : Nat} {key : Int64}
    {present : List Int64} (h : OnlyKey schema existing row i key present) :
    validateRow schema existing row = .done .ok ↔ ∀ n ∈ present, nearestInt n.toInt ≠ nearestInt key.toInt := by
  obtain ⟨column, hColumn, hConstrained⟩ := h.unique
  have hPair : (schema.columns.zip row)[i]? = some (column, .integer key) :=
    List.getElem?_zip_eq_some.mpr ⟨hColumn, h.key⟩
  have hHolds : holdsAt i (.integer key) existing = .done false ↔ ∀ n ∈ present, nearestInt n.toInt ≠ nearestInt key.toInt := by
    rw [holdsAt_integer h.present]
    simp
  rw [validateRow_ok_iff, checkUnique_ok_iff, ← hHolds]
  simp only [Nat.zero_add]
  constructor
  · rintro ⟨-, -, hUnique⟩
    exact hUnique i column _ hPair hConstrained
  · intro hKey
    refine ⟨h.width, h.values, fun k other stored hOther hUnique => ?_⟩
    obtain rfl | hDiffer := eq_or_ne k i
    · rw [hPair] at hOther
      cases hOther
      exact hKey
    · exact h.others k other stored hOther hUnique hDiffer

/-! ## Rows with an integer -/

/-- The operands of the condition are an integer of the row and the integer looked for. -/
def IntegerTest (schema : Schema) (params : List Value) (rows : List Row) (left right : Expr) (column : Row → Int64)
    (key : Int64) : Prop :=
  ∀ row ∈ rows, valueOf ⟨some schema, some row, params⟩ (some left) = some (.integer (column row)) ∧
    valueOf ⟨some schema, some row, params⟩ (some right) = some (.integer key)

theorem exec_filterRows_boolean {schema : Schema} {params : List Value} {predicate : Expr} {decision : Row → Bool}
    {rows : List Row}
    (h : ∀ row ∈ rows, valueOf ⟨some schema, some row, params⟩ (some predicate) = some (.boolean (decision row))) :
    exec (filterRows schema params (some predicate) true rows) .ok = .done (.ok (rows.filter decision), .ok) := by
  induction rows with
  | nil => rfl
  | cons row rows ih =>
    obtain ⟨hRow, hRows⟩ := List.forall_mem_cons.mp h
    have hSelects : exec (selects ⟨some schema, some row, params⟩ (some predicate)) .ok =
        .done (.ok (decision row), .ok) := by
      have hEval : exec (liftM (evalPtr ⟨some schema, some row, params⟩ (some predicate)) : RowM (Option Value)) .ok =
          .done (.ok (some (.boolean (decision row))), .ok) := by
        rw [exec_lift, valueOf_eq_some.mp hRow]
        rfl
      have hCheck : exec checkRowStatus .ok = .done (.ok (), .ok) := rfl
      rw [selects, exec_bind_ok hEval, exec_bind_ok hCheck]
      rfl
    rw [filterRows, exec_bind_ok hSelects, exec_bind_ok (ih hRows), List.filter_cons]
    cases decision row <;> rfl

theorem exec_candidates_equal {schema : Schema} {params : List Value} {rows : List Row} {left right : Expr}
    {column : Row → Int64} {key : Int64} (h : IntegerTest schema params rows left right column key) :
    exec (candidateLoop schema params (some (.binary (ascii "=") (some left) (some right))) [] rows) .ok =
      .done (.ok (rows.filter fun row => nearestInt (column row).toInt = nearestInt key.toInt), .ok) := by
  rw [candidateLoop_nil]
  apply exec_filterRows_boolean
  intro row hRow
  obtain ⟨hLeft, hRight⟩ := h row hRow
  have hListed : ascii "=" ∈ Eval.comparisonOperators := by decide
  have hGives := Eval.binary_comparison hListed (compare_nearest (column row) key)
  rw [valueOf_eq_some, evalPtr] at hLeft hRight ⊢
  rw [Eval.evalExpr_binary hLeft hRight, Eval.binaryOf, hGives, Eval.ordered, if_pos rfl, sign_sub_beq]
  rfl

end Statement

open Statement

/-! ## What is exact -/

theorem integer_comparison_exact_iff (a b : Int64) {schema : Schema} {existing : List Row} {row : Row} {i : Nat}
    {key : Int64} {present : List Int64} (hOnly : OnlyKey schema existing row i key present) {schema' : Schema}
    {params : List Value} {rows : List Row} {left right : Expr} {column : Row → Int64} {wanted : Int64}
    (hTest : IntegerTest schema' params rows left right column wanted) :
    (ComparesExactly a b ↔ a = b ∨ nearestInt a.toInt ≠ nearestInt b.toInt) ∧
    ((key ∉ present → validateRow schema existing row = .done .ok) ↔
      key ∈ present ∨ ∀ n ∈ present, nearestInt n.toInt ≠ nearestInt key.toInt) ∧
    ((∀ picked status,
        exec (candidateLoop schema' params (some (.binary (ascii "=") (some left) (some right))) [] rows) .ok =
          .done (.ok picked, status) → ∀ row ∈ picked, column row = wanted) ↔
      ∀ row ∈ rows, column row = wanted ∨ nearestInt (column row).toInt ≠ nearestInt wanted.toInt) := by
  refine ⟨comparesExactly_iff a b, ?_, ?_⟩
  · rw [validateRow_key_iff hOnly, or_iff_not_imp_left]
  · rw [exec_candidates_equal hTest]
    constructor
    · intro h row hRow
      rw [or_iff_not_imp_right, not_ne_iff]
      intro hNear
      exact h _ _ rfl row (List.mem_filter.mpr ⟨hRow, decide_eq_true hNear⟩)
    · rintro h picked status hRun row hPicked
      cases hRun
      obtain ⟨hRow, hNear⟩ := List.mem_filter.mp hPicked
      exact (h row hRow).resolve_right (not_not_intro (of_decide_eq_true hNear))

/-- A table of one PRIMARY KEY, and a row of it with the key `2 ^ 53`. -/
def keySchema : Schema := ⟨[{ name := ascii "id", type := .kInteger, nullable := false, primaryKey := true }]⟩

theorem onlyKey_keySchema (key n : Int64) : OnlyKey keySchema [[.integer n]] [.integer key] 0 key [n] := by
  constructor
  · exact ⟨_, rfl, rfl⟩
  · rfl
  · rfl
  · rfl
  · simp [keySchema, checkValue, Value.isNull, Value.type]
  · intro k column value hPair hConstrained hOther
    cases k with
    | zero => exact absurd rfl hOther
    | succ k => cases hPair

theorem integerTest_keySchema : IntegerTest keySchema [] [[.integer 5]] (.ofColumn (ascii "id")) (.ofLiteral (.integer 7))
    (fun _ => 5) 7 := by
  intro row hRow
  rw [List.mem_singleton.mp hRow]
  constructor <;> decide +kernel

theorem integer_comparison_sample :
    (ComparesExactly 5 7 ↔ (5 : Int64) = 7 ∨ nearestInt (5 : Int64).toInt ≠ nearestInt (7 : Int64).toInt) ∧
      validateRow keySchema [[.integer 5]] [.integer 7] = .done .ok :=
  have hSample := integer_comparison_exact_iff 5 7 (onlyKey_keySchema 7 5) integerTest_keySchema
  ⟨hSample.1, hSample.2.1.mpr (Or.inr (List.forall_mem_singleton.mpr (by decide +kernel))) (by decide)⟩

def keyTest : Expr := .binary (ascii "=") (some (.ofColumn (ascii "id"))) (some (.ofLiteral (.integer 9007199254740993)))

/-- `2 ^ 53` and `2 ^ 53 + 1` are equal, so the key is refused and the condition selects the other row. -/
theorem neighbours_equal :
    (Value.integer 9007199254740992).compare (.integer 9007199254740993) = some 0 ∧
      (Value.integer 9007199254740992).equals (.integer 9007199254740993) = some true ∧
      (Value.integer 9007199254740992).same (.integer 9007199254740993) = true ∧
      (9007199254740992 : Int64).toInt - (9007199254740993 : Int64).toInt = -1 ∧
      validateRow keySchema [[.integer 9007199254740992]] [.integer 9007199254740993] =
        .done (.alreadyExists (ascii "duplicate value for column 'id'")) ∧
      exec (candidateLoop keySchema [] (some keyTest) [] [[.integer 9007199254740992]]) .ok =
        .done (.ok [[.integer 9007199254740992]], .ok) := by
  decide +kernel

end TupleStone
