import TupleStone.Api.ThreeValued

/-! # IN and the disjunction of equalities

The loop of `in` takes a comparison that is UNKNOWN for one that is FALSE.
-/

set_option autoImplicit false

namespace TupleStone

open Eval

namespace Expr

/-- `x IN (items)` -/
def isIn (x : Expr) (items : List Expr) : Expr := .ofFunction (ascii "in") (some x :: items.map some)

def equality (x item : Expr) : Expr := .binary (ascii "=") (some x) (some item)

/-- `x = first OR ... OR x = last` -/
def equalsAny (x first : Expr) (rest : List Expr) : Expr :=
  rest.foldl (fun chain item => .binary (ascii "or") (some chain) (some (equality x item))) (equality x first)

end Expr

/-- Evaluation without an error. -/
def EvaluatesTo (context : EvalContext) (expr : Expr) (value : Value) : Prop :=
  evalExpr context expr .ok = .done (some value, .ok)

variable {context : EvalContext} {x item first : Expr} {items rest : List Expr} {needle value candidate : Value}
  {values others : List Value}

def equalityTruth (needle value : Value) : Kleene := .ofAnswer (needle.equals value)

/-- What the loop of `in` answers. -/
def memberTruth (needle : Value) (values : List Value) : Kleene :=
  if needle = .null then .unknown else .ofBool (values.any (fun value => (needle.equals value).getD false))

/-- What the disjunction answers. -/
def anyTruth (needle value : Value) (others : List Value) : Kleene :=
  (others.map (equalityTruth needle)).foldl Kleene.or (equalityTruth needle value)

theorem ofTruth_injective : Function.Injective Value.ofTruth := by
  intro a b h
  cases a <;> cases b <;> first | rfl | cases h

theorem evaluates_equality (hx : EvaluatesTo context x needle) (hItem : EvaluatesTo context item value) :
    EvaluatesTo context (.equality x item) (.ofTruth (equalityTruth needle value)) := by
  refine (evalExpr_binary hx hItem).trans ?_
  change Eval.binary (ascii "=") needle value Status.ok = _
  unfold Eval.binary
  rw [equalityTruth]
  cases needle.equals value with
  | none => rfl
  | some equal => cases equal <;> rfl

theorem evaluates_equalsAny (hx : EvaluatesTo context x needle) (hFirst : EvaluatesTo context first value)
    (hRest : List.Forall₂ (EvaluatesTo context) rest others) :
    EvaluatesTo context (.equalsAny x first rest) (.ofTruth (anyTruth needle value others)) := by
  -- along the chain, whose value so far is the truth of the disjunction so far
  have hChain : ∀ {chain : Expr} {truth : Kleene}, EvaluatesTo context chain (.ofTruth truth) →
      EvaluatesTo context (rest.foldl (fun chain item => .binary (ascii "or") (some chain) (some (.equality x item))) chain)
        (.ofTruth ((others.map (equalityTruth needle)).foldl Kleene.or truth)) := by
    induction hRest with
    | nil => exact fun hStart => hStart
    | cons hItem _ ih =>
      intro chain truth hStart
      apply ih
      exact (evalExpr_binary hStart (evaluates_equality hx hItem)).trans (gives_or _ _ .ok)
  exact hChain (evaluates_equality hx hFirst)

theorem evalMember_eq (h : List.Forall₂ (EvaluatesTo context) items values) :
    evalMember context needle (items.map some) .ok =
      .done (some (.boolean (values.any (fun value => (needle.equals value).getD false))), .ok) := by
  induction h with
  | nil => rfl
  | @cons item value items values hItem _ ih =>
    have hHead : evalPtr context (some item) .ok = .done (some value, .ok) := by
      rw [evalPtr]
      exact hItem
    rw [List.map_cons, evalMember, bind_of_done hHead, List.any_cons]
    dsimp only
    cases hEqual : (needle.equals value).getD false with
    | true => rfl
    | false => exact ih

theorem evaluates_isIn (hx : EvaluatesTo context x needle) (h : List.Forall₂ (EvaluatesTo context) items values) :
    EvaluatesTo context (.isIn x items) (.ofTruth (memberTruth needle values)) := by
  have hHead : evalFirst context (some x :: items.map some) .ok = .done (some needle, .ok) := by
    rw [evalFirst, evalPtr]
    exact hx
  rw [EvaluatesTo, Expr.isIn, Expr.ofFunction, evalExpr, if_pos rfl, bind_of_done hHead, memberTruth]
  by_cases hNull : needle = .null
  · subst hNull
    rfl
  · rw [if_neg hNull]
    have hMembers : evalMembers context needle (some x :: items.map some) .ok =
        .done (some (.ofTruth (.ofBool (values.any (fun value => (needle.equals value).getD false)))), .ok) := by
      rw [evalMembers, evalMember_eq h]
      cases values.any (fun value => (needle.equals value).getD false) <;> rfl
    cases needle with
    | null => exact absurd rfl hNull
    | _ => exact hMembers

theorem anyTruth_eq_yes : anyTruth needle value others = .yes ↔
    ∃ candidate ∈ value :: others, needle.equals candidate = some true := by
  rw [anyTruth, Kleene.foldl_or_eq_yes, ← List.map_cons, List.mem_map]
  simp only [equalityTruth, Kleene.ofAnswer_eq_yes]

theorem anyTruth_eq_no : anyTruth needle value others = .no ↔
    ∀ candidate ∈ value :: others, needle.equals candidate = some false := by
  rw [anyTruth, Kleene.foldl_or_eq_no, ← List.map_cons, List.forall_mem_map]
  simp only [equalityTruth, Kleene.ofAnswer_eq_no]

/-- The loop and the disjunction agree unless nothing matches and something is UNKNOWN. -/
theorem memberTruth_eq_iff : memberTruth needle (value :: others) = anyTruth needle value others ↔
    needle = .null ∨ (∃ candidate ∈ value :: others, needle.equals candidate = some true) ∨
      ∀ candidate ∈ value :: others, needle.equals candidate ≠ none := by
  by_cases hNull : needle = .null
  · have hEquals : ∀ candidate, needle.equals candidate = none := fun candidate => by
      rw [Value.equals, compare_null (Or.inl hNull), Option.map_none]
    have hUnknown : anyTruth needle value others = .unknown := by
      apply Kleene.eq_unknown
      · simp [Ne, anyTruth_eq_yes, hEquals]
      · rw [Ne, anyTruth_eq_no]
        intro hFalse
        have hValue := hFalse value List.mem_cons_self
        rw [hEquals] at hValue
        cases hValue
    rw [hUnknown, memberTruth, if_pos hNull]
    exact ⟨fun _ => Or.inl hNull, fun _ => rfl⟩
  rw [memberTruth, if_neg hNull]
  by_cases hMatch : ∃ candidate ∈ value :: others, needle.equals candidate = some true
  · have hAny : (value :: others).any (fun candidate => (needle.equals candidate).getD false) = true := by
      obtain ⟨candidate, hMem, hEqual⟩ := hMatch
      exact List.any_eq_true.mpr ⟨candidate, hMem, by rw [hEqual]; rfl⟩
    rw [hAny, anyTruth_eq_yes.mpr hMatch]
    exact ⟨fun _ => Or.inr (Or.inl hMatch), fun _ => rfl⟩
  · have hAny : (value :: others).any (fun candidate => (needle.equals candidate).getD false) = false := by
      rw [List.any_eq_false]
      intro candidate hMem hEqual
      refine hMatch ⟨candidate, hMem, ?_⟩
      cases hAnswer : needle.equals candidate with
      | none => simp [hAnswer] at hEqual
      | some equal => simpa [hAnswer] using hEqual
    rw [hAny, Kleene.ofBool, eq_comm, anyTruth_eq_no]
    constructor
    · intro hFalse
      exact Or.inr (Or.inr fun candidate hMem => by simp [hFalse candidate hMem])
    · rintro (h | h | h) candidate hMem
      · exact absurd h hNull
      · exact absurd h hMatch
      · obtain ⟨equal, hEqual⟩ := Option.ne_none_iff_exists'.mp (h candidate hMem)
        cases equal with
        | true => exact absurd ⟨candidate, hMem, hEqual⟩ hMatch
        | false => exact hEqual

theorem evaluates_not {expr : Expr} {truth : Kleene} (h : EvaluatesTo context expr (.ofTruth truth)) :
    EvaluatesTo context (.unary (ascii "not") (some expr)) (.ofTruth truth.not) :=
  (evalExpr_unary h).trans (gives_not truth .ok)

/-- `IN` is the disjunction of the equalities, also below NOT, unless nothing matches and a comparison is UNKNOWN. -/
theorem in_eq_or_iff (hx : EvaluatesTo context x needle)
    (hItems : List.Forall₂ (EvaluatesTo context) (first :: rest) (value :: others)) :
    (evalExpr context (.isIn x (first :: rest)) .ok = evalExpr context (.equalsAny x first rest) .ok ∧
      evalExpr context (.unary (ascii "not") (some (.isIn x (first :: rest)))) .ok =
        evalExpr context (.unary (ascii "not") (some (.equalsAny x first rest))) .ok) ↔
    needle = .null ∨ (∃ candidate ∈ value :: others, needle.equals candidate = some true) ∨
      ∀ candidate ∈ value :: others, needle.equals candidate ≠ none := by
  rw [← memberTruth_eq_iff]
  have hIn := evaluates_isIn hx hItems
  have hOr := evaluates_equalsAny hx (List.forall₂_cons.mp hItems).1 (List.forall₂_cons.mp hItems).2
  have hNotIn := evaluates_not hIn
  have hNotOr := evaluates_not hOr
  rw [EvaluatesTo] at hIn hOr hNotIn hNotOr
  rw [hIn, hOr, hNotIn, hNotOr]
  constructor
  · rintro ⟨hSame, -⟩
    exact ofTruth_injective (Option.some.inj (Prod.mk.inj (Outcome.done.inj hSame)).1)
  · intro hSame
    rw [hSame]
    exact ⟨rfl, rfl⟩

/-- No row and no parameters. -/
def bareContext : EvalContext := ⟨none, none, []⟩

def textLiteral (text : String) : Expr := .ofLiteral (.text (ascii text))

/-- `'a' IN ('b', 'a')` -/
theorem matching_in_eq_or :
    evalExpr bareContext (.isIn (textLiteral "a") [textLiteral "b", textLiteral "a"]) .ok =
        evalExpr bareContext (.equalsAny (textLiteral "a") (textLiteral "b") [textLiteral "a"]) .ok ∧
      evalExpr bareContext (.unary (ascii "not") (some (.isIn (textLiteral "a") [textLiteral "b", textLiteral "a"]))) .ok =
        evalExpr bareContext
          (.unary (ascii "not") (some (.equalsAny (textLiteral "a") (textLiteral "b") [textLiteral "a"]))) .ok := by
  have hItems : List.Forall₂ (EvaluatesTo bareContext) [textLiteral "b", textLiteral "a"]
      [.text (ascii "b"), .text (ascii "a")] := .cons rfl (.cons rfl .nil)
  have hNeedle : EvaluatesTo bareContext (textLiteral "a") (.text (ascii "a")) := rfl
  refine (in_eq_or_iff hNeedle hItems).mpr (Or.inr (Or.inl ?_))
  exact ⟨.text (ascii "a"), by simp, by decide⟩

/-- `'a' IN (NULL)` is FALSE. -/
theorem null_item_not_unknown : ¬ ∀ (context : EvalContext) (x first : Expr) (rest : List Expr) (needle : Value)
    (values : List Value), EvaluatesTo context x needle → List.Forall₂ (EvaluatesTo context) (first :: rest) values →
      evalExpr context (.isIn x (first :: rest)) .ok = evalExpr context (.equalsAny x first rest) .ok := by
  intro h
  have hSame := h bareContext (textLiteral "a") (.ofLiteral .null) [] (.text (ascii "a")) [.null] rfl (.cons rfl .nil)
  cases hSame

end TupleStone
