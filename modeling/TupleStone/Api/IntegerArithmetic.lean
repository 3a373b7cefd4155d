import TupleStone.Api.ParsedTree

/-! # Integer arithmetic

The operators compute in `int64_t`, whose overflow is undefined. The tokenizer knows an operator `!` of its own, which
the parser takes for a comparison and the evaluation for a remainder.
-/

set_option autoImplicit false

namespace TupleStone

/-- The operators of the binary nodes of a parsed tree. -/
def binaryOperators : List Bytes := Parser.textOperators ++ operatorTexts

theorem Formed.binaryOperator {sql : Bytes} {tokens : List Token} {expr : Expr} (hTokens : tokenize sql = .ok tokens)
    (h : Formed tokens (some expr)) (hKind : expr.kind = .kBinary) : expr.op ∈ binaryOperators := by
  cases h with
  | binary hOp hLeft hRight =>
    obtain hText | ⟨token, hToken, hOperator, rfl⟩ := hOp
    · exact List.mem_append_left _ hText
    · exact List.mem_append_right _ (tokenize_operator hTokens token hToken hOperator)
  | _ => cases hKind

theorem Formed.unaryOperator {tokens : List Token} {expr : Expr} (h : Formed tokens (some expr))
    (hKind : expr.kind = .kUnary) : expr.op ∈ Parser.unaryOperators := by
  cases h with
  | unary hOp hArg => exact hOp
  | _ => cases hKind

namespace Eval

def InRange (n : Int) : Prop := -2 ^ 63 ≤ n ∧ n < 2 ^ 63

instance (n : Int) : Decidable (InRange n) := inferInstanceAs (Decidable (_ ∧ _))

def Gives (m : StatusM (Option Value)) (value : Value) : Prop := ∀ status, m status = .done (some value, status)

def Rejected (m : StatusM (Option Value)) : Prop := ∀ status, ∃ failure, failure ≠ .ok ∧ m status = .done (none, failure)

/-- The mathematical result where it fits, and an error where it does not. -/
def ExactOrError (m : StatusM (Option Value)) (n : Int) : Prop :=
  (InRange n → Gives m (.integer (Int64.ofInt n))) ∧ (¬ InRange n → Rejected m)

def comparisonOperators : List Bytes :=
  [ascii "=", ascii "!=", ascii "<>", ascii "<", ascii "<=", ascii ">", ascii ">="]

/-- What a comparison says of the order of its operands. -/
def ordered (op : Bytes) (order : Int) : Bool :=
  if op = ascii "=" then order == 0
  else if op = ascii "!=" ∨ op = ascii "<>" then order != 0
  else comparison op order

/-- The operator computes its own operation of two integers, or is rejected. -/
def BinaryExact (op : Bytes) (a b : Int64) : Prop :=
  let result := binary op (.integer a) (.integer b)
  if op = ascii "+" then ExactOrError result (a.toInt + b.toInt)
  else if op = ascii "-" then ExactOrError result (a.toInt - b.toInt)
  else if op = ascii "*" then ExactOrError result (a.toInt * b.toInt)
  else if op = ascii "%" then if b = 0 then Rejected result else ExactOrError result (a.toInt.tmod b.toInt)
  else if op = ascii "/" then
    if b = 0 then Rejected result else Gives result (.real ((Binary64.ofInt a.toInt).div (Binary64.ofInt b.toInt)))
  else if op ∈ comparisonOperators then
    ∃ order, (Value.integer a).compare (.integer b) = some order ∧ Gives result (.boolean (ordered op order))
  else Rejected result

/-- The result fits, also that of the quotient behind a remainder, and the operator is not `!`. -/
def BinaryFits (op : Bytes) (a b : Int64) : Prop :=
  op ≠ ascii "!" ∧ (op = ascii "+" → InRange (a.toInt + b.toInt)) ∧ (op = ascii "-" → InRange (a.toInt - b.toInt)) ∧
    (op = ascii "*" → InRange (a.toInt * b.toInt)) ∧ (op = ascii "%" → ¬ (a.toInt = -2 ^ 63 ∧ b = -1))

def UnaryExact (op : Bytes) (a : Int64) : Prop :=
  let result := unary op (.integer a)
  if op = ascii "-" then ExactOrError result (-a.toInt)
  else if op = ascii "+" then Gives result (.integer a)
  else Rejected result

/-! ## The cases -/

theorem integer_of_inRange {n : Int} (h : InRange n) : integer n = pure (some (.integer (Int64.ofInt n))) := if_pos h

theorem integer_of_not_inRange {n : Int} (h : ¬ InRange n) : integer n = undefined := if_neg h

theorem gives_pure (value : Value) : Gives (pure (some value)) value := fun _ => rfl

theorem rejected_fail {status : Status} (h : status ≠ .ok) : Rejected (fail status) := fun _ => ⟨status, h, rfl⟩

theorem not_rejected_undefined : ¬ Rejected undefined := by
  intro h
  obtain ⟨failure, -, hExec⟩ := h .ok
  cases hExec

theorem not_gives_undefined (value : Value) : ¬ Gives undefined value := by
  intro h
  cases h .ok

theorem exactOrError_integer_iff (n : Int) : ExactOrError (integer n) n ↔ InRange n := by
  constructor
  · intro h
    by_contra hOut
    have hRejected := h.2 hOut
    rw [integer_of_not_inRange hOut] at hRejected
    exact not_rejected_undefined hRejected
  · intro h
    refine ⟨fun _ => ?_, fun hOut => absurd h hOut⟩
    rw [integer_of_inRange h]
    exact gives_pure _

/-- An operator that no earlier branch handles is taken for arithmetic. -/
theorem binary_arithmetic {op : Bytes}
    (h : op ∈ [ascii "+", ascii "-", ascii "*", ascii "/", ascii "%", ascii "!"]) (left right : Value) :
    binary op left right = arithmetic op left right := by
  have hOther : ∀ op ∈ [ascii "+", ascii "-", ascii "*", ascii "/", ascii "%", ascii "!"],
      ¬ (op = ascii "and" ∨ op = ascii "or") ∧
        ¬ (op = ascii "=" ∨ op = ascii "==" ∨ op = ascii "!=" ∨ op = ascii "<>") ∧ ¬ op = ascii "like" ∧
        ¬ (op = ascii "<" ∨ op = ascii "<=" ∨ op = ascii ">" ∨ op = ascii ">=") := by decide
  obtain ⟨hLogical, hEquality, hLike, hOrder⟩ := hOther op h
  unfold binary
  rw [if_neg hLogical, if_neg hEquality, if_neg hLike, if_neg hOrder]

theorem isZero_ofInt64 (b : Int64) : (Binary64.ofInt b.toInt).isZero = true ↔ b = 0 := by
  rw [Binary64.isZero_ofInt, decide_eq_true_iff]
  exact ⟨fun h => Int64.toInt_inj.mp h, fun h => h ▸ rfl⟩

theorem arithmetic_integers (op : Bytes) (a b : Int64) : arithmetic op (.integer a) (.integer b) =
    if (op = ascii "/" ∨ op = ascii "%") ∧ b = 0 then fail (.outOfRange (ascii "division by zero"))
    else if op = ascii "/" then pure (some (.real (realArithmetic op (.ofInt a.toInt) (.ofInt b.toInt))))
    else integerArithmetic op a b := by
  change (if (op = ascii "/" ∨ op = ascii "%") ∧ (Binary64.ofInt b.toInt).isZero = true then _ else _) = _
  simp only [isZero_ofInt64]

/-- A zero divisor is an error, whatever is divided by it. -/
theorem rejected_of_zero {op : Bytes} (hOp : op = ascii "/" ∨ op = ascii "%") (left : Value) {right : Value} {z : Binary64}
    (hRight : right.asDouble? = some z) (hZero : z.isZero = true) : Rejected (binary op left right) := by
  have hListed : op ∈ [ascii "+", ascii "-", ascii "*", ascii "/", ascii "%", ascii "!"] := by
    obtain rfl | rfl := hOp <;> decide
  rw [binary_arithmetic hListed, arithmetic, hRight]
  cases hLeft : left.asDouble? with
  | none => exact rejected_fail Status.noConfusion
  | some x =>
    simp only [hZero, and_true, if_pos hOp]
    exact rejected_fail Status.noConfusion

/-! ## The operators -/

variable {op : Bytes} {a b : Int64}

theorem arithmetic_of_ne_zero (h : ¬ ((op = ascii "/" ∨ op = ascii "%") ∧ b = 0)) (hDivide : op ≠ ascii "/") :
    arithmetic op (.integer a) (.integer b) = integerArithmetic op a b := by
  rw [arithmetic_integers, if_neg h, if_neg hDivide]

theorem binary_add (a b : Int64) : binary (ascii "+") (.integer a) (.integer b) = integer (a.toInt + b.toInt) := by
  rw [binary_arithmetic (by decide), arithmetic_of_ne_zero (fun h => absurd h.1 (by decide)) (by decide), integerArithmetic,
    if_pos rfl]

theorem binary_sub (a b : Int64) : binary (ascii "-") (.integer a) (.integer b) = integer (a.toInt - b.toInt) := by
  rw [binary_arithmetic (by decide), arithmetic_of_ne_zero (fun h => absurd h.1 (by decide)) (by decide), integerArithmetic,
    if_neg (by decide), if_pos rfl]

theorem binary_mul (a b : Int64) : binary (ascii "*") (.integer a) (.integer b) = integer (a.toInt * b.toInt) := by
  rw [binary_arithmetic (by decide), arithmetic_of_ne_zero (fun h => absurd h.1 (by decide)) (by decide), integerArithmetic,
    if_neg (by decide), if_neg (by decide), if_pos rfl]

theorem binary_mod (a : Int64) (h : b ≠ 0) : binary (ascii "%") (.integer a) (.integer b) =
    if a.toInt = -2 ^ 63 ∧ b = -1 then undefined else integer (a.toInt.tmod b.toInt) := by
  rw [binary_arithmetic (by decide), arithmetic_of_ne_zero (fun hZero => h hZero.2) (by decide), integerArithmetic,
    if_neg (by decide), if_neg (by decide), if_neg (by decide)]
  simp only [or_iff_right h]

theorem binary_div (a : Int64) (h : b ≠ 0) : binary (ascii "/") (.integer a) (.integer b) =
    pure (some (.real ((Binary64.ofInt a.toInt).div (Binary64.ofInt b.toInt)))) := by
  rw [binary_arithmetic (by decide), arithmetic_integers, if_neg (fun hZero => h hZero.2), if_pos rfl,
    realArithmetic, if_neg (by decide), if_neg (by decide), if_neg (by decide)]

theorem binary_bang (a b : Int64) : binary (ascii "!") (.integer a) (.integer b) =
    if b = 0 ∨ a.toInt = -2 ^ 63 ∧ b = -1 then undefined else integer (a.toInt.tmod b.toInt) := by
  rw [binary_arithmetic (by decide), arithmetic_of_ne_zero (fun h => absurd h.1 (by decide)) (by decide), integerArithmetic,
    if_neg (by decide), if_neg (by decide), if_neg (by decide)]

theorem inRange_tmod (h : b ≠ 0) : InRange (a.toInt.tmod b.toInt) := by
  have hAbs : (a.toInt.tmod b.toInt).natAbs < b.toInt.natAbs := by
    rw [Int.natAbs_tmod]
    exact Nat.mod_lt _ (Int.natAbs_pos.mpr fun hZero => h (Int64.toInt_inj.mp hZero))
  have hLow := b.le_toInt
  have hHigh := b.toInt_lt
  rw [InRange]
  omega

theorem compare_integers (a b : Int64) : ∃ order, (Value.integer a).compare (.integer b) = some order := by
  have hNumbers : ¬ ((Binary64.ofInt a.toInt).isNaN || (Binary64.ofInt b.toInt).isNaN) = true := by
    rw [Binary64.isNaN_ofInt, Binary64.isNaN_ofInt]
    decide
  refine ⟨Value.threeWay ((Binary64.ofInt a.toInt).lt (.ofInt b.toInt)) ((Binary64.ofInt b.toInt).lt (.ofInt a.toInt)), ?_⟩
  simp only [Value.compare, Value.asDouble?, Value.compareDouble]
  rw [if_neg hNumbers]

/-- Values in an order are compared by the operator named. -/
theorem binary_comparison (h : op ∈ comparisonOperators) {left right : Value} {order : Int}
    (hOrder : left.compare right = some order) : binary op left right = pure (some (.boolean (ordered op order))) := by
  have hCases : ∀ op ∈ comparisonOperators, ¬ (op = ascii "and" ∨ op = ascii "or") ∧ op ≠ ascii "like" ∧ op ≠ ascii "==" ∧
      (¬ (op = ascii "=" ∨ op = ascii "==" ∨ op = ascii "!=" ∨ op = ascii "<>") →
        op = ascii "<" ∨ op = ascii "<=" ∨ op = ascii ">" ∨ op = ascii ">=") := by decide
  obtain ⟨hLogical, hLike, hDouble, hOther⟩ := hCases op h
  unfold binary
  rw [if_neg hLogical]
  by_cases hEquality : op = ascii "=" ∨ op = ascii "==" ∨ op = ascii "!=" ∨ op = ascii "<>"
  · rw [if_pos hEquality]
    simp only [Value.equals, hOrder, Option.map_some, or_iff_left hDouble, ordered]
    by_cases hEqual : op = ascii "="
    · rw [if_pos hEqual, if_pos hEqual]
    · rw [if_neg hEqual, if_neg hEqual, if_pos ((hEquality.resolve_left hEqual).resolve_left hDouble)]
      rfl
  · rw [if_neg hEquality, if_neg hLike, if_pos (hOther hEquality)]
    simp only [hOrder, ordered]
    rw [if_neg (fun hEqual => hEquality (Or.inl hEqual)), if_neg (fun hDiffer => hEquality (Or.inr (Or.inr hDiffer)))]

/-- Logical operators and LIKE refuse integers. -/
theorem rejected_integers (h : op ∈ [ascii "or", ascii "and", ascii "like"]) (a b : Int64) :
    Rejected (binary op (.integer a) (.integer b)) := by
  have hCases : ∀ op ∈ [ascii "or", ascii "and", ascii "like"], (op = ascii "and" ∨ op = ascii "or") ∨ (op = ascii "like" ∧
      ¬ (op = ascii "and" ∨ op = ascii "or") ∧
        ¬ (op = ascii "=" ∨ op = ascii "==" ∨ op = ascii "!=" ∨ op = ascii "<>")) := by decide
  obtain hLogical | ⟨hLike, hLogical, hEquality⟩ := hCases op h
  · unfold binary
    rw [if_pos hLogical, logical, if_pos (Or.inl ⟨nofun, rfl⟩)]
    exact rejected_fail Status.noConfusion
  · unfold binary
    rw [if_neg hLogical, if_neg hEquality, if_pos hLike]
    exact rejected_fail Status.noConfusion

/-! ## What is exact -/

theorem not_exactOrError_undefined {n : Int} : ¬ ExactOrError undefined n := by
  intro h
  by_cases hIn : InRange n
  · exact not_gives_undefined _ (h.1 hIn)
  · exact not_rejected_undefined (h.2 hIn)

theorem binaryExact_mod_iff (a b : Int64) : BinaryExact (ascii "%") a b ↔ ¬ (a.toInt = -2 ^ 63 ∧ b = -1) := by
  have hUnfold : BinaryExact (ascii "%") a b ↔ if b = 0 then Rejected (binary (ascii "%") (.integer a) (.integer b))
      else ExactOrError (binary (ascii "%") (.integer a) (.integer b)) (a.toInt.tmod b.toInt) := by
    rw [BinaryExact, if_neg (by decide), if_neg (by decide), if_neg (by decide), if_pos rfl]
  rw [hUnfold]
  by_cases hZero : b = 0
  · rw [if_pos hZero]
    refine iff_of_true (rejected_of_zero (Or.inr rfl) _ rfl ((isZero_ofInt64 b).mpr hZero)) ?_
    rintro ⟨-, hMinus⟩
    exact absurd (hZero.symm.trans hMinus) (by decide)
  · rw [if_neg hZero, binary_mod a hZero]
    by_cases hOverflow : a.toInt = -2 ^ 63 ∧ b = -1
    · rw [if_pos hOverflow]
      exact iff_of_false not_exactOrError_undefined (not_not.mpr hOverflow)
    · rw [if_neg hOverflow]
      exact iff_of_true ((exactOrError_integer_iff _).mpr (inRange_tmod hZero)) hOverflow

theorem binaryExact_div (a b : Int64) : BinaryExact (ascii "/") a b := by
  rw [BinaryExact, if_neg (by decide), if_neg (by decide), if_neg (by decide), if_neg (by decide), if_pos rfl]
  by_cases hZero : b = 0
  · rw [if_pos hZero]
    exact rejected_of_zero (Or.inl rfl) _ rfl ((isZero_ofInt64 b).mpr hZero)
  · rw [if_neg hZero, binary_div a hZero]
    exact gives_pure _

theorem not_binaryExact_bang (a b : Int64) : ¬ BinaryExact (ascii "!") a b := by
  rw [BinaryExact, if_neg (by decide), if_neg (by decide), if_neg (by decide), if_neg (by decide), if_neg (by decide),
    if_neg (by decide), binary_bang]
  split
  · exact not_rejected_undefined
  · rename_i hDefined
    rw [integer_of_inRange (inRange_tmod fun hZero => hDefined (Or.inl hZero))]
    intro h
    obtain ⟨failure, -, hExec⟩ := h .ok
    cases hExec

theorem binaryExact_of_comparison (h : op ∈ comparisonOperators) (a b : Int64) : BinaryExact op a b := by
  have hOther : ∀ op ∈ comparisonOperators,
      op ≠ ascii "+" ∧ op ≠ ascii "-" ∧ op ≠ ascii "*" ∧ op ≠ ascii "%" ∧ op ≠ ascii "/" := by decide
  obtain ⟨hAdd, hSub, hMul, hMod, hDiv⟩ := hOther op h
  obtain ⟨order, hOrder⟩ := compare_integers a b
  rw [BinaryExact, if_neg hAdd, if_neg hSub, if_neg hMul, if_neg hMod, if_neg hDiv, if_pos h]
  exact ⟨order, hOrder, by rw [binary_comparison h hOrder]; exact gives_pure _⟩

theorem binaryExact_of_rejected (h : op ∈ [ascii "or", ascii "and", ascii "like"]) (a b : Int64) : BinaryExact op a b := by
  have hOther : ∀ op ∈ [ascii "or", ascii "and", ascii "like"],
      op ≠ ascii "+" ∧ op ≠ ascii "-" ∧ op ≠ ascii "*" ∧ op ≠ ascii "%" ∧ op ≠ ascii "/" ∧ op ∉ comparisonOperators := by
    decide
  obtain ⟨hAdd, hSub, hMul, hMod, hDiv, hCompare⟩ := hOther op h
  rw [BinaryExact, if_neg hAdd, if_neg hSub, if_neg hMul, if_neg hMod, if_neg hDiv, if_neg hCompare]
  exact rejected_integers h a b

theorem binaryExact_iff (h : op ∈ binaryOperators) (a b : Int64) : BinaryExact op a b ↔ BinaryFits op a b := by
  have hCases : ∀ op ∈ binaryOperators, op = ascii "+" ∨ op = ascii "-" ∨ op = ascii "*" ∨ op = ascii "%" ∨ op = ascii "!" ∨
      ((op = ascii "/" ∨ op ∈ comparisonOperators ∨ op ∈ [ascii "or", ascii "and", ascii "like"]) ∧ op ≠ ascii "+" ∧
        op ≠ ascii "-" ∧ op ≠ ascii "*" ∧ op ≠ ascii "%" ∧ op ≠ ascii "!") := by decide
  obtain rfl | rfl | rfl | rfl | rfl | ⟨hOther, hAdd, hSub, hMul, hMod, hBang⟩ := hCases op h
  · have hUnfold : BinaryExact (ascii "+") a b ↔
        ExactOrError (binary (ascii "+") (.integer a) (.integer b)) (a.toInt + b.toInt) := by
      rw [BinaryExact, if_pos rfl]
    rw [hUnfold, binary_add, exactOrError_integer_iff, BinaryFits]
    simp +decide
  · have hUnfold : BinaryExact (ascii "-") a b ↔
        ExactOrError (binary (ascii "-") (.integer a) (.integer b)) (a.toInt - b.toInt) := by
      rw [BinaryExact, if_neg (by decide), if_pos rfl]
    rw [hUnfold, binary_sub, exactOrError_integer_iff, BinaryFits]
    simp +decide
  · have hUnfold : BinaryExact (ascii "*") a b ↔
        ExactOrError (binary (ascii "*") (.integer a) (.integer b)) (a.toInt * b.toInt) := by
      rw [BinaryExact, if_neg (by decide), if_neg (by decide), if_pos rfl]
    rw [hUnfold, binary_mul, exactOrError_integer_iff, BinaryFits]
    simp +decide
  · rw [binaryExact_mod_iff, BinaryFits]
    simp +decide
  · exact iff_of_false (not_binaryExact_bang a b) fun hFits => hFits.1 rfl
  · refine iff_of_true ?_ ⟨hBang, fun h => absurd h hAdd, fun h => absurd h hSub, fun h => absurd h hMul, fun h => absurd h hMod⟩
    obtain rfl | hCompare | hRejected := hOther
    · exact binaryExact_div a b
    · exact binaryExact_of_comparison hCompare a b
    · exact binaryExact_of_rejected hRejected a b

theorem inRange_neg_iff (a : Int64) : InRange (-a.toInt) ↔ a.toInt ≠ -2 ^ 63 := by
  have hLow := a.le_toInt
  have hHigh := a.toInt_lt
  rw [InRange]
  omega

theorem unaryExact_iff (h : op ∈ Parser.unaryOperators) (a : Int64) :
    UnaryExact op a ↔ (op = ascii "-" → a.toInt ≠ -2 ^ 63) := by
  have hCases : ∀ op ∈ Parser.unaryOperators, op = ascii "-" ∨ op = ascii "+" ∨ op = ascii "not" := by decide
  obtain rfl | rfl | rfl := hCases op h
  · have hNegate : unary (ascii "-") (.integer a) = integer (-a.toInt) := by
      rw [unary, if_neg (by decide)]
      exact if_neg (by decide)
    rw [UnaryExact, if_pos rfl, hNegate, exactOrError_integer_iff, inRange_neg_iff, imp_iff_right rfl]
  · refine iff_of_true ?_ fun h => absurd h (by decide)
    rw [UnaryExact, if_neg (by decide), if_pos rfl, unary, if_neg (by decide)]
    exact gives_pure _
  · refine iff_of_true ?_ fun h => absurd h (by decide)
    rw [UnaryExact, if_neg (by decide), if_neg (by decide), unary, if_pos rfl]
    exact rejected_fail Status.noConfusion

theorem function_abs (a : Int64) : function (ascii "abs") (.integer a) =
    if a < 0 then integer (-a.toInt) else pure (some (.integer a)) := by
  rw [function, if_pos (Or.inl ⟨rfl, rfl⟩)]

theorem absExact_iff (a : Int64) :
    ExactOrError (function (ascii "abs") (.integer a)) a.toInt.natAbs ↔ a.toInt ≠ -2 ^ 63 := by
  rw [function_abs]
  by_cases hNegative : a < 0
  · have hLess : a.toInt < 0 := Int64.lt_iff_toInt_lt.mp hNegative
    have hAbs : (a.toInt.natAbs : Int) = -a.toInt := by omega
    rw [if_pos hNegative, hAbs, exactOrError_integer_iff, inRange_neg_iff]
  · have hLess : ¬ a.toInt < 0 := fun hLess => hNegative (Int64.lt_iff_toInt_lt.mpr hLess)
    have hAbs : (a.toInt.natAbs : Int) = a.toInt := by omega
    have hHigh := a.toInt_lt
    rw [if_neg hNegative, hAbs]
    refine iff_of_true ⟨fun _ => ?_, fun hOut => absurd ?_ hOut⟩ (by omega)
    · rw [Int64.ofInt_toInt]
      exact gives_pure _
    · rw [InRange]
      omega

/-! ## What is undefined -/

def Defined (m : StatusM (Option Value)) : Prop := ∀ status, m status ≠ .undefined

theorem defined_pure (value : Option Value) : Defined (pure value) := fun _ => nofun

theorem defined_fail (status : Status) : Defined (fail status) := fun _ => nofun

theorem Gives.defined {m : StatusM (Option Value)} {value : Value} (h : Gives m value) : Defined m := by
  intro status hExec
  cases (h status).symm.trans hExec

theorem Rejected.defined {m : StatusM (Option Value)} (h : Rejected m) : Defined m := by
  intro status hExec
  obtain ⟨failure, -, hDone⟩ := h status
  cases hDone.symm.trans hExec

theorem ExactOrError.defined {m : StatusM (Option Value)} {n : Int} (h : ExactOrError m n) : Defined m := by
  by_cases hIn : InRange n
  · exact (h.1 hIn).defined
  · exact (h.2 hIn).defined

theorem BinaryExact.defined (h : BinaryExact op a b) : Defined (binary op (.integer a) (.integer b)) := by
  rw [BinaryExact] at h
  split_ifs at h
  · exact h.defined
  · exact h.defined
  · exact h.defined
  · exact h.defined
  · exact h.defined
  · exact h.defined
  · exact h.defined
  · obtain ⟨order, -, hGives⟩ := h
    exact hGives.defined
  · exact h.defined

theorem likeLoop_defined (value pattern : Bytes) (fuel : Nat) (s : LikeState) : likeLoop value pattern fuel s ≠ .undefined := by
  induction fuel generalizing s with
  | zero => exact nofun
  | succ fuel ih =>
    unfold likeLoop
    split
    · exact nofun
    · dsimp only
      split
      · exact ih _
      split
      · exact ih _
      split
      · exact ih _
      · exact nofun

theorem like_defined (value pattern : Bytes) : like value pattern ≠ .undefined := by
  rw [like]
  cases hLoop : likeLoop value pattern (likeBound value pattern) ⟨0, 0, none, 0⟩ with
  | done result => cases result <;> exact nofun
  | undefined => exact absurd hLoop (likeLoop_defined _ _ _ _)
  | outOfFuel => exact nofun

theorem defined_ite {c : Prop} [Decidable c] {m n : StatusM (Option Value)} (hm : Defined m) (hn : Defined n) :
    Defined (if c then m else n) := by
  split
  · exact hm
  · exact hn

theorem defined_logical (op : Bytes) (left right : Value) : Defined (logical op left right) := by
  apply defined_ite (defined_fail _)
  exact defined_ite (defined_ite (defined_pure _) (defined_pure _)) (defined_ite (defined_pure _) (defined_pure _))

theorem defined_arithmetic (op : Bytes) {left right : Value} (h : ¬ ∃ a b, left = .integer a ∧ right = .integer b) :
    Defined (arithmetic op left right) := by
  rw [arithmetic]
  split
  · apply defined_ite (defined_fail _)
    split
    · exact absurd ⟨_, _, rfl, rfl⟩ h
    · exact defined_pure _
  · exact defined_fail _

theorem defined_like (value pattern : Bytes) : Defined (do
    let matched ← (like value pattern : Outcome Bool)
    pure (some (.boolean matched))) := by
  intro status hExec
  change (liftM (like value pattern) : StatusM Bool) status >>= _ = _ at hExec
  cases hLike : like value pattern with
  | done matched =>
    rw [hLike] at hExec
    cases hExec
  | undefined => exact like_defined value pattern hLike
  | outOfFuel =>
    rw [hLike] at hExec
    cases hExec

/-- Evaluation of an operator is undefined for two integers only. -/
theorem defined_binary (op : Bytes) {left right : Value} (h : ¬ ∃ a b, left = .integer a ∧ right = .integer b) :
    Defined (binary op left right) := by
  apply defined_ite (defined_logical _ _ _)
  apply defined_ite
  · split <;> exact defined_pure _
  apply defined_ite
  · apply defined_ite (defined_pure _)
    split
    · exact defined_like _ _
    · exact defined_fail _
  apply defined_ite
  · split
    · exact defined_fail _
    · exact defined_pure _
  · exact defined_arithmetic op h

theorem misfit_of_undefined (hOp : op ∈ binaryOperators) {left right : Value} {status : Status}
    (h : binary op left right status = .undefined) : ∃ a b, left = .integer a ∧ right = .integer b ∧ ¬ BinaryFits op a b := by
  by_cases hIntegers : ∃ a b, left = .integer a ∧ right = .integer b
  · obtain ⟨a, b, rfl, rfl⟩ := hIntegers
    exact ⟨a, b, rfl, rfl, fun hFits => ((binaryExact_iff hOp a b).mpr hFits).defined status h⟩
  · exact absurd h (defined_binary op hIntegers status)

theorem minimum_of_undefined_unary {value : Value} {status : Status} (h : unary op value status = .undefined) :
    ∃ a, value = .integer a ∧ a.toInt = -2 ^ 63 := by
  cases value with
  | integer a =>
    refine ⟨a, rfl, ?_⟩
    by_contra hFits
    refine (?_ : Defined (unary op (.integer a))) status h
    apply defined_ite (defined_fail _)
    refine defined_ite (defined_pure _) ?_
    rw [integer_of_inRange ((inRange_neg_iff a).mpr hFits)]
    exact defined_pure _
  | real x => exact absurd h (defined_ite (defined_fail _) (defined_pure _) status)
  | null => exact absurd h (defined_ite (defined_pure _) (defined_fail _) status)
  | boolean x => exact absurd h (defined_ite (defined_pure _) (defined_fail _) status)
  | text x => exact absurd h (defined_ite (defined_fail _) (defined_fail _) status)
  | blob x => exact absurd h (defined_ite (defined_fail _) (defined_fail _) status)

end Eval

/-! ## Parsed expressions -/

namespace Eval

/-- What evaluation of a binary node is, and when it is exact. -/
structure BinaryNode (node : Expr) : Prop where
  evaluates : ∀ context status status' status'' left right, evalFirst context node.args status = .done (some left, status') →
    evalSecond context node.args status' = .done (some right, status'') →
    evalExpr context node status = binary node.op left right status''
  exact : ∀ a b, BinaryExact node.op a b ↔ BinaryFits node.op a b
  zero : node.op = ascii "/" ∨ node.op = ascii "%" → ∀ left right z, right.asDouble? = some z → z.isZero = true →
    Rejected (binary node.op left right)
  undefined : ∀ left right status, binary node.op left right status = .undefined →
    ∃ a b, left = .integer a ∧ right = .integer b ∧ ¬ BinaryFits node.op a b

structure UnaryNode (node : Expr) : Prop where
  evaluates : ∀ context status status' value, evalFirst context node.args status = .done (some value, status') →
    evalExpr context node status = unary node.op value status'
  exact : ∀ a, UnaryExact node.op a ↔ (node.op = ascii "-" → a.toInt ≠ -2 ^ 63)
  undefined : ∀ value status, unary node.op value status = .undefined → ∃ a, value = .integer a ∧ a.toInt = -2 ^ 63

structure AbsNode (node : Expr) : Prop where
  evaluates : ∀ context status status' value, evalFirst context node.args status = .done (some value, status') →
    value ≠ .null → evalExpr context node status = function (ascii "abs") value status'
  exact : ∀ a, ExactOrError (function (ascii "abs") (.integer a)) a.toInt.natAbs ↔ a.toInt ≠ -2 ^ 63

theorem bind_of_done {α β : Type} {m : StatusM α} {k : α → StatusM β} {status status' : Status} {a : α}
    (h : m status = .done (a, status')) : (m >>= k) status = k a status' := by
  change (m status >>= fun r => k r.1 r.2) = _
  rw [h]
  rfl

theorem evaluates_binary (node : Expr) (hKind : node.kind = .kBinary) (context : EvalContext)
    (status status' status'' : Status) (left right : Value) (hLeft : evalFirst context node.args status = .done (some left, status'))
    (hRight : evalSecond context node.args status' = .done (some right, status'')) :
    evalExpr context node status = binary node.op left right status'' := by
  cases node with
  | mk kind literal name op index args =>
    cases hKind
    rw [evalExpr]
    refine (bind_of_done hLeft).trans ?_
    exact bind_of_done hRight

theorem evaluates_unary (node : Expr) (hKind : node.kind = .kUnary) (context : EvalContext) (status status' : Status)
    (value : Value) (h : evalFirst context node.args status = .done (some value, status')) :
    evalExpr context node status = unary node.op value status' := by
  cases node with
  | mk kind literal name op index args =>
    cases hKind
    rw [evalExpr]
    exact bind_of_done h

theorem evaluates_abs (node : Expr) (hKind : node.kind = .kFunction) (hName : node.name = ascii "abs")
    (context : EvalContext) (status status' : Status) (value : Value)
    (h : evalFirst context node.args status = .done (some value, status')) (hValue : value ≠ .null) :
    evalExpr context node status = function (ascii "abs") value status' := by
  cases node with
  | mk kind literal name op index args =>
    cases hKind
    cases hName
    cases args with
    | nil =>
      rw [Expr.args, evalFirst] at h
      cases h
    | cons arg rest =>
      rw [evalExpr, if_neg (by decide), if_neg (by decide), if_neg (by simp)]
      refine (bind_of_done h).trans ?_
      cases value with
      | null => exact absurd rfl hValue
      | _ => rfl

end Eval

open Eval

/-- The operators of a parsed expression are exact, or an error, exactly where the result fits. -/
theorem integer_arithmetic_exact_iff {sql : Bytes} {p p' : Parser} {expr node : Expr} (hTokens : tokenize sql = .ok p.tokens)
    (h : Parser.expression p = .done (some expr, p')) (hNode : expr.Node node) :
    (node.kind = .kBinary → BinaryNode node) ∧ (node.kind = .kUnary → UnaryNode node) ∧
      (node.kind = .kFunction → node.name = ascii "abs" → AbsNode node) := by
  have hFormed := (Parser.formed_of_expression h).of_node hNode
  refine ⟨fun hKind => ?_, fun hKind => ?_, fun hKind hName => ?_⟩
  · have hOp := hFormed.binaryOperator hTokens hKind
    exact ⟨evaluates_binary node hKind, binaryExact_iff hOp, fun hDivide left _ _ => rejected_of_zero hDivide left,
      fun _ _ _ => misfit_of_undefined hOp⟩
  · exact ⟨evaluates_unary node hKind, unaryExact_iff (hFormed.unaryOperator hKind), fun _ _ => minimum_of_undefined_unary⟩
  · exact ⟨evaluates_abs node hKind hName, absExact_iff⟩

/-! ## An overflow and an operator of no meaning -/

def overflowing : Parser :=
  { tokens := [⟨.kNumber, ascii "9223372036854775807", 0⟩, ⟨.kOperator, ascii "+", 19⟩, ⟨.kNumber, ascii "1", 20⟩, ⟨.kEnd, [], 21⟩] }

def overflowingExpr : Expr := .binary (ascii "+") (some (.ofLiteral (.integer 9223372036854775807))) (some (.ofLiteral (.integer 1)))

theorem overflowing_tokens : tokenize (ascii "9223372036854775807+1") = .ok overflowing.tokens := by decide +kernel

theorem overflowing_parsed : Parser.expression overflowing = .done (some overflowingExpr, { overflowing with index := 3 }) := by
  decide +kernel

theorem overflowing_arithmetic :
    (overflowingExpr.kind = .kBinary → BinaryNode overflowingExpr) ∧
      (overflowingExpr.kind = .kUnary → UnaryNode overflowingExpr) ∧
      (overflowingExpr.kind = .kFunction → overflowingExpr.name = ascii "abs" → AbsNode overflowingExpr) :=
  integer_arithmetic_exact_iff overflowing_tokens overflowing_parsed (.root _)

def bang : Parser :=
  { tokens := [⟨.kNumber, ascii "7", 0⟩, ⟨.kOperator, ascii "!", 1⟩, ⟨.kNumber, ascii "2", 2⟩, ⟨.kEnd, [], 3⟩] }

def bangExpr : Expr := .binary (ascii "!") (some (.ofLiteral (.integer 7))) (some (.ofLiteral (.integer 2)))

/-- A sum overflows, and `7!2` is the remainder of seven by two. -/
theorem overflow_undefined_and_bang_remainder :
    Parser.expression overflowing = .done (some overflowingExpr, { overflowing with index := 3 }) ∧
      evalExpr ⟨none, none, []⟩ overflowingExpr .ok = .undefined ∧
      tokenize (ascii "7!2") = .ok bang.tokens ∧
      Parser.expression bang = .done (some bangExpr, { bang with index := 3 }) ∧
      evalExpr ⟨none, none, []⟩ bangExpr .ok = .done (some (.integer 1), .ok) :=
  ⟨overflowing_parsed, by decide +kernel, by decide +kernel, by decide +kernel, by decide +kernel⟩

end TupleStone
