import TupleStone.Api.SelectAll
import TupleStone.Api.OrderBy
import TupleStone.Lib.Firsts

/-! # The order of DISTINCT, OFFSET and LIMIT

The reference sorts, projects, removes repeated rows, drops and takes, one after the other. The output loop skips rows
before it looks for repetitions, and it looks for them among the keys of the rows it did not skip.
-/

set_option autoImplicit false

namespace TupleStone

namespace Statement

open Firsts

/-! ## The reference -/

/-- Two rows with equal values; a row equals itself whatever it holds. -/
def sameRow (left right : Row) : Bool :=
  decide (left = right) || (left.length == right.length && (left.zip right).all (fun pair => pair.1.same pair.2))

/-- A relation of rows on rows that may have no projection. -/
def onOutputs (same : Row → Row → Bool) : Option Row → Option Row → Bool
  | some left, some right => same left right
  | none, none => true
  | _, _ => false

def sameOutput : Option Row → Option Row → Bool := onOutputs sameRow

/-- The relation that the keys of DISTINCT decide. -/
def sameKey : Option Row → Option Row → Bool := onOutputs (fun left right => distinctKey left == distinctKey right)

def SelectPlan.limitRows (plan : SelectPlan) : Option Nat := if 0 ≤ plan.limit.toInt then some plan.limit.toInt.toNat else none

def SelectPlan.offsetRows (plan : SelectPlan) : Nat := plan.offset.toInt.toNat

/-- The projections of the selected rows, stably sorted by the keys. -/
def SelectPlan.projected (plan : SelectPlan) (params : List Value) : List (Option Row) :=
  ((plan.selected params).mergeSort (StableSort.atMost (lessBy plan.table.schema params plan.ordering))).map (plan.outputRow params)

def SelectPlan.reference (plan : SelectPlan) (params : List Value) : List (Option Row) :=
  limited plan.limitRows
    ((if plan.distinct then firsts sameOutput [] (plan.projected params) else plan.projected params).drop plan.offsetRows)

/-- Every key has non-NULL values of one type on the selected rows, and no NaN, which has no place in an order. -/
def SelectPlan.TypedKeys (plan : SelectPlan) (params : List Value) : Prop :=
  ∀ key ∈ plan.ordering, ∃ type, type ≠ .kNull ∧ ∀ row ∈ plan.selected params, ∃ value,
    valueOf ⟨some plan.table.schema, some row, params⟩ key.1 = some value ∧ value.type = type ∧
      ∀ x, value = .real x → x.isNaN = false

/-- Without DISTINCT, with nothing to return, or when the skipped rows repeat nothing and, until the limit is reached,
the key of a row was seen behind the skipped rows exactly when an equal row was anywhere before. -/
def SelectPlan.Composes (plan : SelectPlan) (params : List Value) : Prop :=
  plan.distinct = false ∨ plan.limitRows = some 0 ∨ (plan.projected params).length ≤ plan.offsetRows ∨
    Distinct sameOutput ((plan.projected params).take plan.offsetRows) ∧
      Agree sameKey sameOutput ((plan.projected params).take plan.offsetRows) plan.limitRows []
        ((plan.projected params).drop plan.offsetRows)

theorem sameOutput_self (output : Option Row) : sameOutput output output = true := by
  cases output with
  | none => rfl
  | some row => simp [sameOutput, onOutputs, sameRow]

theorem sameKey_self (output : Option Row) : sameKey output output = true := by
  cases output with
  | none => rfl
  | some row => simp [sameKey, onOutputs]

/-! ## Keys of one type -/

theorem compare_of_type {a b : Value} (hType : a.type = b.type) (hNull : b.type ≠ .kNull)
    (ha : ∀ x, a = .real x → x.isNaN = false) (hb : ∀ x, b = .real x → x.isNaN = false) : ∃ order, a.compare b = some order := by
  have hDouble : ∀ {x y : Binary64}, x.isNaN = false → y.isNaN = false → ∃ order, Value.compareDouble x y = some order := by
    intro x y hx hy
    rw [Value.compareDouble, hx, hy]
    exact ⟨_, rfl⟩
  cases b with
  | null => exact absurd rfl hNull
  | boolean r => cases a <;> first | cases hType; done | exact ⟨_, rfl⟩
  | integer n =>
    cases a with
    | integer m => exact hDouble (Binary64.isNaN_ofInt _) (Binary64.isNaN_ofInt _)
    | _ => cases hType
  | real y =>
    cases a with
    | real x => exact hDouble (ha x rfl) (hb y rfl)
    | _ => cases hType
  | text r => cases a <;> first | cases hType; done | exact ⟨_, rfl⟩
  | blob r => cases a <;> first | cases hType; done | exact ⟨_, rfl⟩

variable {plan : SelectPlan} {params : List Value} {rows : List Row}

theorem SelectPlan.TypedKeys.hasKeys (h : plan.TypedKeys params) : plan.HasKeys params := by
  intro row hRow key hKey
  obtain ⟨type, -, hRows⟩ := h key hKey
  obtain ⟨value, hValue, -⟩ := hRows row hRow
  exact ⟨value, hValue⟩

theorem SelectPlan.TypedKeys.ordered (h : plan.TypedKeys params) :
    Ordered plan.table.schema params (fun row => row ∈ plan.selected params) plan.ordering := by
  have hOrdered : ∀ (ordering : List (ExprPtr × Bool)) (S : Row → Prop), (∀ key ∈ ordering, key ∈ plan.ordering) →
      (∀ row, S row → row ∈ plan.selected params) → Ordered plan.table.schema params S ordering := by
    intro ordering
    induction ordering with
    | nil => exact fun _ _ _ => trivial
    | cons key ordering ih =>
      intro S hKeys hRows
      refine Or.inl ⟨fun a b ha hb => ?_, fun a ha => ih _ (fun k hk => hKeys k (List.mem_cons_of_mem _ hk)) fun b hb => hRows b hb.1⟩
      obtain ⟨type, hNull, hValues⟩ := h key (hKeys key List.mem_cons_self)
      obtain ⟨av, ha, hType, haNaN⟩ := hValues a (hRows a ha)
      obtain ⟨bv, hb, hType', hbNaN⟩ := hValues b (hRows b hb)
      obtain ⟨order, hOrder⟩ := compare_of_type (hType.trans hType'.symm) (hType' ▸ hNull) haNaN hbNaN
      exact ⟨_, sign_eq_some.mpr ⟨av, bv, order, answerOf_of_valueOf ha, answerOf_of_valueOf hb, hOrder, rfl⟩⟩
  exact hOrdered _ _ (fun _ h => h) fun _ h => h

theorem SelectPlan.TypedKeys.projected (h : plan.TypedKeys params) :
    (plan.sorted params).map (plan.outputRow params) = plan.projected params := by
  rw [SelectPlan.sorted, StableSort.sort_eq_mergeSort_of_mem h.ordered.strictWeakOn, SelectPlan.projected]

/-! ## The output loop -/

/-- What the loop takes for a repetition. -/
def SelectPlan.repeats (plan : SelectPlan) : Option Row → Option Row → Bool := if plan.distinct then sameKey else fun _ _ => false

theorem emit_skipped (outputs : List (Option Row)) (s : OutputState) : emit plan outputs s =
    emit plan (outputs.drop (plan.offset.toInt - s.skipped).toNat) { s with skipped := max s.skipped plan.offset.toInt } := by
  induction outputs generalizing s with
  | nil => simp [emit]
  | cons output outputs ih =>
    by_cases hSkip : s.skipped < plan.offset.toInt
    · obtain ⟨count, hCount⟩ : ∃ count : Nat, (plan.offset.toInt - s.skipped).toNat = count + 1 :=
        ⟨(plan.offset.toInt - s.skipped).toNat - 1, by omega⟩
      have hNext : (plan.offset.toInt - (s.skipped + 1)).toNat = count := by omega
      have hMax : max (s.skipped + 1) plan.offset.toInt = max s.skipped plan.offset.toInt := by omega
      rw [emit, if_pos hSkip, ih, hCount, List.drop_succ_cons]
      dsimp only
      rw [hNext, hMax]
    · have hZero : (plan.offset.toInt - s.skipped).toNat = 0 := by omega
      have hMax : max s.skipped plan.offset.toInt = s.skipped := by omega
      rw [hZero, List.drop_zero, hMax]

/-- The keys are those of the visited rows. -/
def KeysOf (seen : List Bytes) (visited : List Row) : Prop := ∀ key, key ∈ seen ↔ ∃ row ∈ visited, key = distinctKey row

theorem KeysOf.cons {seen : List Bytes} {visited : List Row} (h : KeysOf seen visited) (row : Row) :
    KeysOf (distinctKey row :: seen) (visited ++ [row]) := by
  intro key
  simp [h key, or_comm]

theorem KeysOf.again {seen : List Bytes} {visited : List Row} (h : KeysOf seen visited) {row : Row} (hSeen : distinctKey row ∈ seen) :
    KeysOf seen (visited ++ [row]) := by
  intro key
  rw [← h.cons row key, List.mem_cons]
  exact ⟨Or.inr, fun hMem => hMem.elim (fun hSame => hSame ▸ hSeen) fun hOld => hOld⟩

theorem contains_iff_repeats {s : OutputState} {visited : List Row} {output : Row} (hSeen : KeysOf s.seen visited) :
    (plan.distinct && s.seen.contains (distinctKey output)) = (visited.map some).any (plan.repeats (some output)) := by
  rw [SelectPlan.repeats]
  cases plan.distinct with
  | false => simp
  | true =>
    rw [Bool.true_and, if_pos rfl, Bool.eq_iff_iff, List.contains_iff_mem, hSeen (distinctKey output), List.any_map, List.any_eq_true]
    simp [sameKey, onOutputs]

/-- What the loop puts out behind the skipped rows: the first rows with their keys. -/
theorem emit_rows {outputs : List (Option Row)} {s : OutputState} {visited : List Row} (hSkipped : plan.offset.toInt ≤ s.skipped)
    (hSeen : KeysOf s.seen visited) (h : emit plan outputs s = some rows) :
    rows.map some = s.rows.map some ++
      limited (plan.limitRows.map (· - s.rows.length)) (firsts plan.repeats (visited.map some) outputs) := by
  induction outputs generalizing s visited with
  | nil =>
    cases h
    cases hLimit : plan.limitRows.map (· - s.rows.length) <;> simp [firsts, limited]
  | cons output outputs ih =>
    rw [emit, if_neg (not_lt.mpr hSkipped)] at h
    by_cases hFull : 0 ≤ plan.limit.toInt ∧ plan.limit.toInt ≤ s.rows.length
    · rw [if_pos hFull] at h
      cases h
      have hZero : plan.limitRows.map (· - s.rows.length) = some 0 := by
        rw [SelectPlan.limitRows, if_pos hFull.1, Option.map_some]
        exact congrArg some (by omega)
      rw [hZero, limited_zero, List.append_nil]
    · rw [if_neg hFull] at h
      obtain ⟨row, rfl, h⟩ := Option.bind_eq_some_iff.mp h
      have hMore : plan.limitRows.map (· - s.rows.length) ≠ some 0 := by
        rw [SelectPlan.limitRows]
        split
        · rw [Option.map_some]
          intro hZero
          have := Option.some.inj hZero
          omega
        · exact (Option.some_ne_none 0).symm
      have hVisited : visited.map some ++ [some row] = (visited ++ [row]).map some := by rw [List.map_append]; rfl
      rw [Option.bind_eq_bind, Option.bind_some] at h
      rw [firsts, ← contains_iff_repeats hSeen, hVisited]
      split at h
      · next hRepeats =>
        rw [if_pos hRepeats]
        rw [Bool.and_eq_true, List.contains_iff_mem] at hRepeats
        exact ih hSkipped (hSeen.again hRepeats.2) h
      · next hNew =>
        rw [if_neg hNew, limited_cons hMore]
        have hRest := ih (s := { s with rows := s.rows ++ [row], seen := distinctKey row :: s.seen }) hSkipped (hSeen.cons row) h
        rw [hRest, List.map_append, List.append_assoc, Option.map_map]
        congr 2
        simp [Function.comp_def, Nat.sub_sub]

theorem emit_eq {outputs : List (Option Row)} (h : emit plan outputs {} = some rows) :
    rows.map some = limited plan.limitRows (firsts plan.repeats [] (outputs.drop plan.offsetRows)) := by
  rw [emit_skipped] at h
  have hSeen : KeysOf [] [] := fun key => by simp
  have hRows := emit_rows (Int.le_max_right _ _) hSeen h
  have hOffset : (plan.offset.toInt - ({} : OutputState).skipped).toNat = plan.offsetRows := by simp [SelectPlan.offsetRows]
  have hLimit : plan.limitRows.map (· - ([] : List Row).length) = plan.limitRows := by
    cases plan.limitRows <;> rfl
  exact hRows.trans (by rw [List.map_nil, List.nil_append, hLimit, hOffset])

theorem composes_iff (h : emit plan (plan.projected params) {} = some rows) :
    rows.map some = plan.reference params ↔ plan.Composes params := by
  rw [emit_eq h, SelectPlan.reference, SelectPlan.Composes, SelectPlan.repeats]
  cases plan.distinct with
  | false =>
    rw [if_neg Bool.false_ne_true, if_neg Bool.false_ne_true, firsts_never]
    exact iff_of_true rfl (Or.inl rfl)
  | true =>
    rw [if_pos rfl, if_pos rfl, or_iff_right Bool.noConfusion]
    exact limited_drop_iff sameKey_self sameOutput_self plan.offsetRows

/-! ## The statement -/

open Attempt

theorem ensures_selectHeader_table (tables : Tables) (params : List Value) :
    Ensures (selectHeader tables params) (fun plan => tables.find? plan.name = some plan.table) (fun _ => True) := by
  have hFrom : ∀ distinct expressions, Ensures (selectTail tables params distinct expressions)
      (fun plan => tables.find? plan.name = some plan.table) (fun _ => True) := by
    intro distinct expressions
    refine ((ensures_expectOrReturn _).weaken (fun _ h => h) fun _ _ => trivial).bind fun _ _ => ?_
    refine (ensures_tableName.weaken (fun _ h => h) fun _ _ => trivial).bind fun name _ => ?_
    refine ((ensures_findTable tables name).weaken (fun _ h => h) fun _ _ => trivial).bind fun table hFound => ?_
    refine (ensures_lift_true _).bind fun _ _ => (ensures_orderBy.weaken (fun _ h => h) fun _ _ => trivial).bind fun _ _ => ?_
    exact ((ensures_limitClause params).weaken (fun _ h => h) fun _ _ => trivial).bind fun _ _ => ensures_pure hFound
  refine (ensures_lift_true _).bind fun distinct _ => (ensures_lift_true _).bind fun star _ => ?_
  cases star with
  | true => exact hFrom distinct []
  | false =>
    refine (ensures_loopBound.weaken (fun _ h => h) fun _ _ => trivial).bind fun _ _ => ?_
    exact ((ensures_selectLoop _ (by simp)).weaken (fun _ h => h) fun _ _ => trivial).bind fun expressions _ => hFrom distinct expressions

theorem runSelect_rows {tables tables' : Tables} {schema : Schema} {p p' : Parser}
    (h : runSelect tables params p = .done ((.rows schema rows, tables'), p')) :
    ∃ plan status status', exec (selectHeader tables params) p = .done (.ok plan, p') ∧ tables.find? plan.name = some plan.table ∧
      exec (selectRows plan params) status = .done (.ok rows, status') := by
  obtain ⟨⟨x, q⟩, hHeader, h⟩ := Outcome.bind_eq_done h
  cases x with
  | error returned =>
    cases h
    obtain ⟨code, message, hReply⟩ := (ensures_selectHeader tables params _ _ _ hHeader).2 _ rfl
    cases hReply
  | ok plan =>
    obtain ⟨⟨y, status'⟩, hRows, h⟩ := Outcome.bind_eq_done h
    cases y with
    | error returned => cases h
    | ok result =>
      cases h
      exact ⟨plan, _, status', hHeader, (ensures_selectHeader_table tables params _ _ _ hHeader).1 plan rfl, hRows⟩

theorem composes_of_runSelect {tables tables' : Tables} {schema : Schema} {p p' : Parser}
    (h : runSelect tables params p = .done ((.rows schema rows, tables'), p')) :
    ∃ plan, exec (selectHeader tables params) p = .done (.ok plan, p') ∧ tables.find? plan.name = some plan.table ∧
      (plan.TypedKeys params → (rows.map some = plan.reference params ↔ plan.Composes params)) := by
  obtain ⟨plan, status, status', hHeader, hFound, hRows⟩ := runSelect_rows h
  refine ⟨plan, hHeader, hFound, fun hKeys => composes_iff ?_⟩
  have hEmit := selectRows_ok hKeys.hasKeys hRows
  rwa [hKeys.projected] at hEmit

end Statement

open Statement

/-- A SELECT that returns rows returns those of the reference exactly when its clauses compose. -/
theorem select_composes_iff {tables tables' : Tables} {sql : Bytes} {params : List Value} {first : Token} {rest : List Token}
    {schema : Schema} {rows : List Row} {p' : Parser} (hTokens : tokenize sql = .ok (first :: rest))
    (hSelect : first.text = ascii "select") (hCount : isCount sql (ascii "select") = false)
    (h : runStatement tables sql params = .done ((.rows schema rows, tables'), p')) :
    ∃ plan, Attempt.exec (selectHeader (refreshCatalog tables) params) (.reading (first :: rest) 1) = .done (.ok plan, p') ∧
      (refreshCatalog tables).find? plan.name = some plan.table ∧
      (plan.TypedKeys params → (rows.map some = plan.reference params ↔ plan.Composes params)) := by
  rw [runStatement_select hTokens hSelect hCount] at h
  exact composes_of_runSelect h

/-- `CREATE TABLE t (a TEXT)` with a value stored twice. -/
def repeatedTables : Tables :=
  OrderedMap.empty.insert (ascii "t")
    ⟨⟨[{ name := ascii "a", type := .kText }]⟩, [[.text (ascii "x")], [.text (ascii "x")], [.text (ascii "y")]]⟩

/-- All keys of the selected rows are TEXT. -/
def textKeys (plan : SelectPlan) : Bool :=
  plan.ordering.all fun key => (plan.selected []).all fun row =>
    (valueOf ⟨some plan.table.schema, some row, []⟩ key.1).any fun value => value.type == .kText

theorem typedKeys_of_textKeys {plan : SelectPlan} (h : textKeys plan = true) : plan.TypedKeys [] := by
  intro key hKey
  refine ⟨.kText, by decide, fun row hRow => ?_⟩
  have hRows := List.all_eq_true.mp (List.all_eq_true.mp h key hKey) row hRow
  obtain ⟨value, hValue, hText⟩ := (Option.any_eq_true _ _).mp hRows
  refine ⟨value, hValue, beq_iff_eq.mp hText, fun x hReal => ?_⟩
  subst hReal
  cases beq_iff_eq.mp hText

/-- What a check says of the plan and the rows of a SELECT on the repeated values. -/
def checked (sql : Bytes) (check : SelectPlan → List Row → Bool) : Bool :=
  match tokenize sql with
  | .ok (first :: rest) =>
    first.text == ascii "select" && !isCount sql (ascii "select") &&
    match Attempt.exec (selectHeader (refreshCatalog repeatedTables) []) (.reading (first :: rest) 1),
        runStatement repeatedTables sql [] with
    | .done (.ok plan, _), .done ((.rows _ rows, _), _) => check plan rows
    | _, _ => false
  | _ => false

theorem exists_of_checked {sql : Bytes} {check : SelectPlan → List Row → Bool} (h : checked sql check = true) :
    ∃ first rest plan q schema rows tables' p', tokenize sql = .ok (first :: rest) ∧ first.text = ascii "select" ∧
      isCount sql (ascii "select") = false ∧
      Attempt.exec (selectHeader (refreshCatalog repeatedTables) []) (.reading (first :: rest) 1) = .done (.ok plan, q) ∧
      runStatement repeatedTables sql [] = .done ((.rows schema rows, tables'), p') ∧ check plan rows = true := by
  rw [checked] at h
  split at h
  · next first rest hTokens =>
    simp only [Bool.and_eq_true, beq_iff_eq, Bool.not_eq_true'] at h
    obtain ⟨⟨hSelect, hCount⟩, h⟩ := h
    split at h
    · next plan q schema rows tables' p' hHeader hRun =>
      exact ⟨first, rest, plan, q, schema, rows, tables', p', hTokens, hSelect, hCount, hHeader, hRun, h⟩
    · cases h
  · cases h

def sortedSql : Bytes := ascii "SELECT DISTINCT a FROM t ORDER BY a DESC"

theorem sorted_composes : ∃ (plan : SelectPlan) (rows : List Row), plan.TypedKeys [] ∧ rows = [[.text (ascii "y")], [.text (ascii "x")]] ∧
    (rows.map some = plan.reference [] ↔ plan.Composes []) := by
  have hChecked : checked sortedSql (fun plan rows =>
      textKeys plan && decide (rows = [[.text (ascii "y")], [.text (ascii "x")]])) = true := by decide +kernel
  obtain ⟨first, rest, plan, q, schema, rows, tables', p', hTokens, hSelect, hCount, hHeader, hRun, hCheck⟩ := exists_of_checked hChecked
  rw [Bool.and_eq_true, decide_eq_true_eq] at hCheck
  obtain ⟨plan', hHeader', -, hIff⟩ := select_composes_iff hTokens hSelect hCount hRun
  cases hHeader.symm.trans hHeader'
  exact ⟨plan, rows, typedKeys_of_textKeys hCheck.1, hCheck.2, hIff (typedKeys_of_textKeys hCheck.1)⟩

def skippedSql : Bytes := ascii "SELECT DISTINCT a FROM t LIMIT 9 OFFSET 1"

/-- The second of two equal rows is put out behind the skipped first. -/
theorem skipped_row_repeated : ∃ first rest, ∃ plan : SelectPlan, ∃ q schema tables' p', tokenize skippedSql = .ok (first :: rest) ∧
    Attempt.exec (selectHeader (refreshCatalog repeatedTables) []) (.reading (first :: rest) 1) = .done (.ok plan, q) ∧
    runStatement repeatedTables skippedSql [] = .done ((.rows schema [[.text (ascii "x")], [.text (ascii "y")]], tables'), p') ∧
    plan.TypedKeys [] ∧ plan.reference [] = [some [.text (ascii "y")]] := by
  have hChecked : checked skippedSql (fun plan rows => textKeys plan && decide (rows = [[.text (ascii "x")], [.text (ascii "y")]]) &&
      decide (plan.distinct = true ∧ Firsts.limited plan.limitRows
        ((Firsts.firsts sameOutput [] ((plan.sorted []).map (plan.outputRow []))).drop plan.offsetRows) = [some [.text (ascii "y")]])) = true := by
    decide +kernel
  obtain ⟨first, rest, plan, q, schema, rows, tables', p', hTokens, -, -, hHeader, hRun, hCheck⟩ := exists_of_checked hChecked
  simp only [Bool.and_eq_true, decide_eq_true_eq] at hCheck
  obtain ⟨⟨hKeys, rfl⟩, hDistinct, hReference⟩ := hCheck
  have hTyped := typedKeys_of_textKeys hKeys
  refine ⟨first, rest, plan, q, schema, tables', p', hTokens, hHeader, hRun, hTyped, ?_⟩
  rw [SelectPlan.reference, hDistinct, if_pos rfl, ← hTyped.projected]
  exact hReference

end TupleStone
