import TupleStone.Api.SelectRows
import TupleStone.Api.EvalArguments
import TupleStone.Api.Scripts

/-! # The comparison of ORDER BY

Values of one kind are ordered; NULL, NaN and values of two kinds are not compared, and the comparison then goes on to
the next key. One such pair beside a pair that a key does put in order already makes ties intransitive.
-/

set_option autoImplicit false

namespace TupleStone

/-! ## The order of the values -/

namespace Value

/-- Where a value stands among those of its kind. -/
inductive Place where
  | number (n : Int)
  | boolean (b : Bool)
  | text (s : Bytes)
  | blob (s : Bytes)

def placeOfDouble (x : Binary64) : Option Place := if x.isNaN then none else some (.number x.scaled)

def placeOther : Value → Option Place
  | boolean b => some (.boolean b)
  | text s => some (.text s)
  | blob s => some (.blob s)
  | _ => none

def place (value : Value) : Option Place :=
  match value.asDouble? with
  | some x => placeOfDouble x
  | none => value.placeOther

def Place.order : Place → Place → Option Int
  | number m, number n => some (threeWay (decide (m < n)) (decide (n < m)))
  | boolean l, boolean r => some (threeWay (decide (l < r)) (decide (r < l)))
  | text l, text r => some (threeWay (decide (l < r)) (decide (r < l)))
  | blob l, blob r => some (threeWay (decide (l < r)) (decide (r < l)))
  | _, _ => none

theorem compareDouble_eq (x y : Binary64) :
    compareDouble x y = (placeOfDouble x).bind fun p => (placeOfDouble y).bind fun q => p.order q := by
  cases hx : x.isNaN <;> cases hy : y.isNaN <;>
    simp [compareDouble, placeOfDouble, Place.order, Binary64.lt, hx, hy]

/-- A number is not compared with what is none. -/
theorem order_placeOther (x : Binary64) (value : Value) :
    ((placeOfDouble x).bind fun p => value.placeOther.bind fun q => p.order q) = none ∧
      (value.placeOther.bind fun p => (placeOfDouble x).bind fun q => p.order q) = none := by
  have hPlace : placeOfDouble x = none ∨ ∃ n, placeOfDouble x = some (.number n) := by
    rw [placeOfDouble]
    split
    · exact Or.inl rfl
    · exact Or.inr ⟨_, rfl⟩
  obtain hNone | ⟨n, hNumber⟩ := hPlace
  · rw [hNone]
    exact ⟨rfl, by cases value <;> rfl⟩
  · rw [hNumber]
    exact ⟨by cases value <;> rfl, by cases value <;> rfl⟩

theorem compareOther_of_double {a : Value} {x : Binary64} (h : a.asDouble? = some x) (b : Value) :
    compareOther a b = none ∧ compareOther b a = none := by
  cases a with
  | integer n => exact ⟨by cases b <;> rfl, by cases b <;> rfl⟩
  | real x => exact ⟨by cases b <;> rfl, by cases b <;> rfl⟩
  | _ => exact absurd h.symm (Option.some_ne_none x)

theorem compare_eq (a b : Value) : a.compare b = a.place.bind fun p => b.place.bind fun q => p.order q := by
  rw [compare, place, place]
  cases ha : a.asDouble? with
  | some x =>
    cases hb : b.asDouble? with
    | some y => exact compareDouble_eq x y
    | none => exact (compareOther_of_double ha b).1.trans (order_placeOther x b).1.symm
  | none =>
    cases hb : b.asDouble? with
    | some y => exact (compareOther_of_double hb a).2.trans (order_placeOther y a).2.symm
    | none =>
      dsimp only
      cases a with
      | boolean l =>
        cases b with
        | boolean r => cases l <;> cases r <;> rfl
        | _ => rfl
      | _ => cases b <;> rfl

theorem threeWay_neg_iff {α : Type} [LinearOrder α] (x y : α) [Decidable (x < y)] [Decidable (y < x)] :
    threeWay (decide (x < y)) (decide (y < x)) < 0 ↔ x < y := by
  rcases lt_trichotomy x y with h | rfl | h
  · simp [threeWay, h, h.not_gt]
  · simp [threeWay]
  · simp [threeWay, h, h.not_gt]

theorem threeWay_nonpos_iff {α : Type} [LinearOrder α] (x y : α) [Decidable (x < y)] [Decidable (y < x)] :
    threeWay (decide (x < y)) (decide (y < x)) ≤ 0 ↔ x ≤ y := by
  rcases lt_trichotomy x y with h | rfl | h
  · simp [threeWay, h, h.not_gt, h.le]
  · simp [threeWay]
  · simp [threeWay, h, h.not_gt, h.not_ge]

/-- Three signs as they are when they compare three elements of one order. -/
structure Signs (i j k : Int) : Prop where
  le : i ≤ 0 → j ≤ 0 → k ≤ 0
  lt_of_lt : i < 0 → j ≤ 0 → k < 0
  lt_of_le : i ≤ 0 → j < 0 → k < 0

theorem signs_threeWay {α : Type} [LinearOrder α] [∀ a b : α, Decidable (a < b)] (x y z : α) : Signs (threeWay (decide (x < y)) (decide (y < x)))
    (threeWay (decide (y < z)) (decide (z < y))) (threeWay (decide (x < z)) (decide (z < x))) := by
  constructor <;> simp only [threeWay_neg_iff, threeWay_nonpos_iff]
  · exact le_trans
  · exact lt_of_lt_of_le
  · exact lt_of_le_of_lt

theorem order_trans {p q r : Place} {i j : Int} (hpq : p.order q = some i) (hqr : q.order r = some j) :
    ∃ k, p.order r = some k ∧ Signs i j k := by
  cases p <;> cases q <;> cases hpq <;> cases r <;> cases hqr <;> exact ⟨_, rfl, signs_threeWay _ _ _⟩

/-- Being compared is transitive, and so is the order of what is compared. -/
theorem compare_trans {a b c : Value} {i j : Int} (hab : a.compare b = some i) (hbc : b.compare c = some j) :
    ∃ k, a.compare c = some k ∧ Signs i j k := by
  rw [compare_eq] at hab hbc ⊢
  obtain ⟨p, hp, hab⟩ := Option.bind_eq_some_iff.mp hab
  obtain ⟨q, hq, hab⟩ := Option.bind_eq_some_iff.mp hab
  obtain ⟨q', hq', hbc⟩ := Option.bind_eq_some_iff.mp hbc
  obtain ⟨r, hr, hbc⟩ := Option.bind_eq_some_iff.mp hbc
  cases hq.symm.trans hq'
  rw [hp, hr]
  exact order_trans hab hbc

end Value

namespace Statement

/-! ## One key -/

section Key

variable (schema : Schema) (params : List Value)

/-- How a key compares two rows, if it does: negative when the left one comes first. -/
def sign (key : ExprPtr × Bool) (left right : Row) : Option Int := do
  let lv ← answerOf ⟨some schema, some left, params⟩ key.1
  let rv ← answerOf ⟨some schema, some right, params⟩ key.1
  let order ← lv.compare rv
  pure (if key.2 then -order else order)

/-- Whether a key puts the left row in front of the right one. -/
def precedes (key : ExprPtr × Bool) (left right : Row) : Bool := (sign schema params key left right).any (· < 0)

/-- Both rows have a value for the key. -/
def BothAnswer (key : ExprPtr × Bool) (left right : Row) : Prop :=
  (answerOf ⟨some schema, some left, params⟩ key.1).isSome ∧ (answerOf ⟨some schema, some right, params⟩ key.1).isSome

end Key

variable {schema : Schema} {params : List Value} {key : ExprPtr × Bool} {ordering : List (ExprPtr × Bool)} {a b c : Row}

theorem sign_eq_some {i : Int} : sign schema params key a b = some i ↔ ∃ lv rv order,
    answerOf ⟨some schema, some a, params⟩ key.1 = some lv ∧ answerOf ⟨some schema, some b, params⟩ key.1 = some rv ∧
      lv.compare rv = some order ∧ (if key.2 then -order else order) = i := by
  simp only [sign, Option.bind_eq_bind, Option.bind_eq_some_iff, Option.pure_def, Option.some.injEq]
  constructor
  · rintro ⟨lv, hLv, rv, hRv, order, hOrder, rfl⟩
    exact ⟨lv, rv, order, hLv, hRv, hOrder, rfl⟩
  · rintro ⟨lv, rv, order, hLv, hRv, hOrder, rfl⟩
    exact ⟨lv, hLv, rv, hRv, order, hOrder, rfl⟩

theorem sign_swap {i : Int} (h : sign schema params key a b = some i) : sign schema params key b a = some (-i) := by
  obtain ⟨lv, rv, order, hLv, hRv, hOrder, rfl⟩ := sign_eq_some.mp h
  refine sign_eq_some.mpr ⟨rv, lv, -order, hRv, hLv, ?_, ?_⟩
  · rw [Value.compare_swap lv rv, hOrder]
    rfl
  · split <;> rfl

theorem sign_trans {i j : Int} (hab : sign schema params key a b = some i) (hbc : sign schema params key b c = some j) :
    ∃ k, sign schema params key a c = some k ∧ Value.Signs i j k := by
  obtain ⟨av, bv, order, hav, hbv, hOrder, rfl⟩ := sign_eq_some.mp hab
  obtain ⟨bv', cv, order', hbv', hcv, hOrder', rfl⟩ := sign_eq_some.mp hbc
  cases hbv.symm.trans hbv'
  cases hDescending : key.2 with
  | false =>
    obtain ⟨k, hk, hSigns⟩ := Value.compare_trans hOrder hOrder'
    exact ⟨k, sign_eq_some.mpr ⟨av, cv, k, hav, hcv, hk, by rw [hDescending]; rfl⟩, hSigns⟩
  | true =>
    -- in descending order the values are compared the other way round
    have hba : bv.compare av = some (-order) := by
      rw [Value.compare_swap av bv, hOrder]
      rfl
    have hcb : cv.compare bv = some (-order') := by
      rw [Value.compare_swap bv cv, hOrder']
      rfl
    obtain ⟨k, hk, hSigns⟩ := Value.compare_trans hcb hba
    have hac : av.compare cv = some (-k) := by
      rw [Value.compare_swap cv av, hk]
      rfl
    refine ⟨k, sign_eq_some.mpr ⟨av, cv, -k, hav, hcv, hac, by rw [hDescending]; exact Int.neg_neg k⟩, ?_⟩
    exact ⟨fun hi hj => hSigns.le hj hi, fun hi hj => hSigns.lt_of_le hj hi, fun hi hj => hSigns.lt_of_lt hj hi⟩

theorem precedes_eq_true : precedes schema params key a b = true ↔ ∃ i, sign schema params key a b = some i ∧ i < 0 := by
  simp [precedes, Option.any_eq_true]

/-- A key on which all rows are compared orders them. -/
theorem strictWeakOn_precedes {S : Row → Prop} (h : ∀ a b, S a → S b → ∃ i, sign schema params key a b = some i) :
    StableSort.StrictWeakOn (precedes schema params key) S := by
  have hTie : ∀ {a b i}, sign schema params key a b = some i → precedes schema params key a b = false → 0 ≤ i := by
    intro a b i hi hNot
    by_contra hNeg
    have hTrue := precedes_eq_true.mpr ⟨i, hi, not_le.mp hNeg⟩
    rw [hNot] at hTrue
    cases hTrue
  have hFalse : ∀ {a b i}, sign schema params key a b = some i → 0 ≤ i → precedes schema params key a b = false := by
    intro a b i hi hNonneg
    apply eq_false_of_ne_true
    intro hTrue
    obtain ⟨j, hj, hNeg⟩ := precedes_eq_true.mp hTrue
    cases hi.symm.trans hj
    omega
  constructor
  case irrefl =>
    intro a ha
    obtain ⟨i, hi⟩ := h a a ha ha
    have hOpposite : i = -i := Option.some.inj (hi.symm.trans (sign_swap hi))
    exact hFalse hi (by omega)
  case trans =>
    intro a b c ha hb hc hab hbc
    obtain ⟨i, hi, hNeg⟩ := precedes_eq_true.mp hab
    obtain ⟨j, hj, hNeg'⟩ := precedes_eq_true.mp hbc
    obtain ⟨k, hk, hSigns⟩ := sign_trans hi hj
    exact precedes_eq_true.mpr ⟨k, hk, hSigns.lt_of_lt hNeg hNeg'.le⟩
  case tie_trans =>
    intro a b c ha hb hc hab hba hbc hcb
    obtain ⟨i, hi⟩ := h a b ha hb
    obtain ⟨j, hj⟩ := h b c hb hc
    obtain ⟨k, hk, hSigns⟩ := sign_trans hi hj
    obtain ⟨k', hk', hSigns'⟩ := sign_trans (sign_swap hj) (sign_swap hi)
    have hOpposite : k' = -k := Option.some.inj (hk'.symm.trans (sign_swap hk))
    have hi' := hTie (sign_swap hi) hba
    have hj' := hTie (sign_swap hj) hcb
    have hLe := hSigns.le (by omega) (by omega)
    have hLe' := hSigns'.le (by have := hTie hj hbc; omega) (by have := hTie hi hab; omega)
    exact ⟨hFalse hk (by omega), hFalse hk' (by omega)⟩

/-! ## The list of keys -/

/-- Whether the row has a value for the key. -/
def answers (schema : Schema) (params : List Value) (key : ExprPtr × Bool) (row : Row) : Bool :=
  (answerOf ⟨some schema, some row, params⟩ key.1).isSome

theorem lessBy_compared {lv rv : Value} {order : Int} (hLv : answerOf ⟨some schema, some a, params⟩ key.1 = some lv)
    (hRv : answerOf ⟨some schema, some b, params⟩ key.1 = some rv) (hOrder : lv.compare rv = some order) :
    lessBy schema params (key :: ordering) a b =
      if order = 0 then lessBy schema params ordering a b else decide ((if key.2 then -order else order) < 0) := by
  obtain ⟨expr, descending⟩ := key
  rw [lessBy, hLv, hRv]
  dsimp only
  rw [hOrder]
  rcases order with (_ | n) | n
  · rfl
  · have hNe : Int.ofNat (n + 1) ≠ 0 := by
      change (n + 1 : Int) ≠ 0
      omega
    rw [if_neg hNe]
    cases descending with
    | false => rfl
    | true => exact decide_eq_decide.mpr (show (n + 1 : Int) > 0 ↔ -(n + 1 : Int) < 0 by omega)
  · rw [if_neg (Int.negSucc_ne_zero n)]
    cases descending with
    | false => rfl
    | true => exact decide_eq_decide.mpr (show Int.negSucc n > 0 ↔ -Int.negSucc n < 0 by omega)

theorem lessBy_cons : lessBy schema params (key :: ordering) a b = (answers schema params key a && answers schema params key b &&
    (precedes schema params key a b || (!precedes schema params key b a && lessBy schema params ordering a b))) := by
  cases hLv : answerOf ⟨some schema, some a, params⟩ key.1 with
  | none => simp [lessBy, answers, hLv]
  | some lv =>
    cases hRv : answerOf ⟨some schema, some b, params⟩ key.1 with
    | none => simp [lessBy, answers, hLv, hRv]
    | some rv =>
      have hSwap := Value.compare_swap lv rv
      cases hOrder : lv.compare rv with
      | none =>
        rw [hOrder] at hSwap
        simp [lessBy, answers, precedes, sign, hLv, hRv, hOrder, hSwap]
      | some order =>
        have hSign : sign schema params key a b = some (if key.2 then -order else order) :=
          sign_eq_some.mpr ⟨lv, rv, order, hLv, hRv, hOrder, rfl⟩
        rw [lessBy_compared hLv hRv hOrder, answers, answers, hLv, hRv, precedes, precedes, hSign, sign_swap hSign]
        by_cases hTie : order = 0
        · subst hTie
          simp
        · rw [if_neg hTie]
          have hOrders : (if key.2 then -order else order) < 0 ∨ -(if key.2 then -order else order) < 0 := by split <;> omega
          obtain hBefore | hBehind := hOrders
          · simp [hBefore]
          · have hNot : ¬ (if key.2 then -order else order) < 0 := by omega
            simp only [Option.isSome_some, Bool.and_self, Bool.true_and, Option.any_some, decide_eq_false hNot,
              decide_eq_true hBehind, Bool.not_true, Bool.false_and, Bool.or_false]

theorem answers_of_precedes (h : precedes schema params key a b = true) :
    answers schema params key a = true ∧ answers schema params key b = true := by
  obtain ⟨i, hi, -⟩ := precedes_eq_true.mp h
  obtain ⟨lv, rv, -, hLv, hRv, -⟩ := sign_eq_some.mp hi
  exact ⟨by rw [answers, hLv]; rfl, by rw [answers, hRv]; rfl⟩

theorem lessBy_singleton : lessBy schema params [key] = precedes schema params key := by
  funext a b
  rw [lessBy_cons, lessBy, Bool.and_false, Bool.or_false]
  cases hPrecedes : precedes schema params key a b with
  | false => rw [Bool.and_false]
  | true =>
    obtain ⟨ha, hb⟩ := answers_of_precedes hPrecedes
    rw [ha, hb]
    rfl

/-- Each key compares all rows that the keys before it leave tied, or puts none of them in front of another. -/
def Ordered (schema : Schema) (params : List Value) (S : Row → Prop) : List (ExprPtr × Bool) → Prop
  | [] => True
  | key :: ordering =>
    (∀ a b, S a → S b → ∃ i, sign schema params key a b = some i) ∧
      (∀ a, S a → Ordered schema params
        (fun b => S b ∧ precedes schema params key a b = false ∧ precedes schema params key b a = false) ordering) ∨
    (∀ a b, S a → S b → precedes schema params key a b = false) ∧
      (ordering = [] ∨ (∀ a, S a → answers schema params key a = true) ∧ Ordered schema params S ordering)

theorem Ordered.strictWeakOn {S : Row → Prop} (h : Ordered schema params S ordering) :
    StableSort.StrictWeakOn (lessBy schema params ordering) S := by
  induction ordering generalizing S with
  | nil => exact StableSort.strictWeakOn_false.congr fun _ _ _ _ => by rw [lessBy]
  | cons key ordering ih =>
    obtain ⟨hCompared, hTies⟩ | ⟨hNever, hRest⟩ := h
    · have hFirst := strictWeakOn_precedes hCompared
      refine (hFirst.lex fun a ha => ih (hTies a ha)).congr fun a b ha hb => ?_
      have hAnswers : ∀ a, S a → answers schema params key a = true := by
        intro a ha
        obtain ⟨i, hi⟩ := hCompared a a ha ha
        obtain ⟨lv, -, -, hLv, -⟩ := sign_eq_some.mp hi
        rw [answers, hLv]
        rfl
      rw [lessBy_cons, hAnswers a ha, hAnswers b hb, Bool.and_self, Bool.true_and]
    · obtain rfl | ⟨hAnswers, hRest⟩ := hRest
      · rw [lessBy_singleton]
        exact StableSort.strictWeakOn_false.congr fun a b ha hb => hNever a b ha hb
      · refine (ih hRest).congr fun a b ha hb => ?_
        rw [lessBy_cons, hAnswers a ha, hAnswers b hb, hNever a b ha hb, hNever b a hb ha]
        rfl

/-- A single key orders the rows only in these ways. -/
theorem ordered_singleton {S : Row → Prop} (h : StableSort.StrictWeakOn (lessBy schema params [key]) S) :
    Ordered schema params S [key] := by
  rw [lessBy_singleton] at h
  by_cases hCompared : ∀ a b, S a → S b → ∃ i, sign schema params key a b = some i
  · exact Or.inl ⟨hCompared, fun _ _ => trivial⟩
  refine Or.inr ⟨fun a b ha hb => ?_, Or.inl rfl⟩
  simp only [not_forall] at hCompared
  obtain ⟨c, d, hc, hd, hUnknown⟩ := hCompared
  by_contra hPrecedes
  obtain ⟨i, hi, -⟩ := precedes_eq_true.mp (eq_true_of_ne_false hPrecedes)
  -- a row that is not compared with the first of two rows in order is not compared with the second either
  have hBetween : ∀ e, S e → ∃ k, sign schema params key a e = some k := by
    intro e he
    by_contra hNone
    have hNot : ∀ {x y}, (∀ k, sign schema params key x y ≠ some k) → precedes schema params key x y = false := by
      intro x y hNone
      apply eq_false_of_ne_true
      intro hTrue
      obtain ⟨k, hk, -⟩ := precedes_eq_true.mp hTrue
      exact hNone k hk
    have hae : ∀ k, sign schema params key a e ≠ some k := fun k hk => hNone ⟨k, hk⟩
    have hea : ∀ k, sign schema params key e a ≠ some k := fun k hk => hNone ⟨_, sign_swap hk⟩
    have heb : ∀ k, sign schema params key e b ≠ some k := by
      intro k hk
      obtain ⟨k', hk', -⟩ := sign_trans hi (sign_swap hk)
      exact hae k' hk'
    have hbe : ∀ k, sign schema params key b e ≠ some k := fun k hk => heb _ (sign_swap hk)
    exact hPrecedes (h.tie_trans a e b ha he hb (hNot hae) (hNot hea) (hNot heb) (hNot hbe)).1
  obtain ⟨k, hk⟩ := hBetween c hc
  obtain ⟨k', hk'⟩ := hBetween d hd
  obtain ⟨k'', hk'', -⟩ := sign_trans (sign_swap hk) hk'
  exact hUnknown ⟨k'', hk''⟩

/-! ## The comparator -/

/-- What the comparator answers, given the status object it finds. -/
def comparator (schema : Schema) (params : List Value) (ordering : List (ExprPtr × Bool)) (status : Status) (left right : Row) : Bool :=
  match sortsBefore schema params left right ordering status with
  | .done (before, _) => before
  | _ => false

/-- The answer of a key whose values are these, and of the keys behind it where they tie. -/
def sortsByValues (schema : Schema) (params : List Value) (a b : Row) (ordering : List (ExprPtr × Bool)) (descending : Bool) :
    Option Value → Option Value → StatusM Bool
  | some lv, some rv =>
    match lv.compare rv with
    | none => sortsBefore schema params a b ordering
    | some 0 => sortsBefore schema params a b ordering
    | some order => pure (if descending then decide (order > 0) else decide (order < 0))
  | _, _ => pure false

theorem comparator_eq (status : Status) : comparator schema params ordering status = lessBy schema params ordering := by
  funext a b
  induction ordering generalizing status with
  | nil => rfl
  | cons key ordering ih =>
    obtain ⟨expr, descending⟩ := key
    obtain ⟨left, hLeft⟩ := blind_evalPtr ⟨some schema, some a, params⟩ expr
    obtain ⟨right, hRight⟩ := blind_evalPtr ⟨some schema, some b, params⟩ expr
    have hStep : sortsBefore schema params a b ((expr, descending) :: ordering) status =
        (evalPtr ⟨some schema, some a, params⟩ expr status >>= fun l =>
          evalPtr ⟨some schema, some b, params⟩ expr l.2 >>= fun r =>
            sortsByValues schema params a b ordering descending l.1 r.1 r.2) := rfl
    rw [comparator, hStep, lessBy, answerOf, answerOf, hLeft, hLeft, hRight]
    cases left with
    | undefined => rfl
    | outOfFuel => rfl
    | done l =>
      rw [Outcome.map_done, Outcome.map_done, Outcome.done_bind, hRight]
      cases right with
      | undefined => cases l.1 <;> rfl
      | outOfFuel => cases l.1 <;> rfl
      | done r =>
        rw [Outcome.map_done, Outcome.map_done, Outcome.done_bind]
        dsimp only
        cases l.1 with
        | none => rfl
        | some lv =>
          cases r.1 with
          | none => rfl
          | some rv =>
            unfold sortsByValues
            dsimp only
            cases lv.compare rv with
            | none => exact ih _
            | some order =>
              rcases order with (_ | n) | n
              · exact ih _
              · rfl
              · rfl

/-! ## Sorting with it -/

section Sorting

variable {less : Row → Row → StatusM Bool} {less' : Row → Row → Bool}

theorem insertSorted_done (hLess : ∀ left right status answer status', less left right status = .done (answer, status') →
    answer = less' left right) {row : Row} {rows result : List Row} {status status' : Status}
    (h : insertSorted less row rows status = .done (result, status')) : result = StableSort.insert less' row rows := by
  induction rows generalizing result status with
  | nil =>
    cases h
    rfl
  | cons first rest ih =>
    rw [insertSorted] at h
    obtain ⟨⟨answer, mid⟩, hAnswer, h⟩ := Outcome.bind_eq_done h
    obtain rfl := hLess _ _ _ _ _ hAnswer
    rw [StableSort.insert]
    cases hBefore : less' row first with
    | true =>
      rw [hBefore] at h
      cases h
      rfl
    | false =>
      rw [hBefore] at h
      obtain ⟨⟨inserted, mid'⟩, hRest, h⟩ := Outcome.bind_eq_done h
      cases h
      rw [if_neg Bool.false_ne_true, ih hRest]

/-- Whatever happens to the status object, the sort inserts by the answers of the comparator. -/
theorem stableSort_done (hLess : ∀ left right status answer status', less left right status = .done (answer, status') →
    answer = less' left right) {rows result : List Row} {status status' : Status}
    (h : stableSort less rows status = .done (result, status')) : result = StableSort.sort less' rows := by
  have hFold : ∀ (rest sorted result : List Row) (status : Status),
      (rest.foldlM (fun sorted row => insertSorted less row sorted) sorted : StatusM (List Row)) status = .done (result, status') →
        result = rest.foldl (fun sorted row => StableSort.insert less' row sorted) sorted := by
    intro rest
    induction rest with
    | nil =>
      intro sorted result status h
      cases h
      rfl
    | cons row rest ih =>
      intro sorted result status h
      rw [List.foldlM_cons] at h
      obtain ⟨⟨inserted, mid⟩, hInsert, h⟩ := Outcome.bind_eq_done h
      rw [List.foldl_cons, ← insertSorted_done hLess hInsert]
      exact ih _ _ _ h
  exact hFold rows [] result status h

end Sorting

/-- The comparator is a strict weak order on the rows, whatever status object it finds, and their sort is ordered by it. -/
structure OrdersRows (schema : Schema) (params : List Value) (ordering : List (ExprPtr × Bool)) (rows : List Row) : Prop where
  weak : ∀ status, StableSort.StrictWeakOn (comparator schema params ordering status) (fun row => row ∈ rows)
  sorted : ∀ status status' sorted,
    stableSort (fun left right => sortsBefore schema params left right ordering) rows status = .done (sorted, status') →
      sorted.Perm rows ∧ StableSort.Sorted (comparator schema params ordering status) sorted ∧
        sorted = rows.mergeSort (StableSort.atMost (comparator schema params ordering status))

theorem ordersRows_of_weak {rows : List Row}
    (h : StableSort.StrictWeakOn (lessBy schema params ordering) (fun row => row ∈ rows)) : OrdersRows schema params ordering rows := by
  constructor
  case weak =>
    intro status
    rw [comparator_eq]
    exact h
  case sorted =>
    intro status status' sorted hSort
    have hLess : ∀ left right status answer status', sortsBefore schema params left right ordering status = .done (answer, status') →
        answer = lessBy schema params ordering left right := by
      intro left right status answer status' hAnswer
      rw [← comparator_eq status, comparator, hAnswer]
    obtain rfl := stableSort_done hLess hSort
    rw [comparator_eq]
    exact ⟨StableSort.perm_sort rows, StableSort.sorted_sort h fun _ hMem => hMem, StableSort.sort_eq_mergeSort_of_mem h⟩

end Statement

open Statement

def nullScript : List Bytes :=
  [ascii "CREATE TABLE t (a TEXT)", ascii "INSERT INTO t VALUES ('x'), (NULL), ('y')"]

def nullTable : Table := ⟨⟨[{ name := ascii "a", type := .kText }]⟩, [[.text (ascii "x")], [.null], [.text (ascii "y")]]⟩

/-- `ORDER BY a`, as the parser reads it. -/
def byFirst : List (ExprPtr × Bool) := [(some (.ofColumn (ascii "a")), false)]

end TupleStone
