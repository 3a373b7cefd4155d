import Mathlib.Tactic.Common
import Mathlib.Data.List.Forall2
import Mathlib.Data.List.Infix

/-! # Patterns with wildcards

A pattern is a word with two special symbols, `one` for any symbol and `many` for any word. A search that remembers the
last `many` it passed and compares symbols before it looks for wildcards decides a smaller relation than matching: a
`many` in front of a `many` of the word stands for that symbol only.
-/

set_option autoImplicit false

namespace Wildcard

variable {α : Type}

inductive Matches (one many : α) : List α → List α → Prop where
  | nil : Matches one many [] []
  | many (run : List α) {pattern word : List α} (h : Matches one many pattern word) :
      Matches one many (many :: pattern) (run ++ word)
  | one (c : α) {pattern word : List α} (h : Matches one many pattern word) :
      Matches one many (one :: pattern) (c :: word)
  | same {c : α} (hOne : c ≠ one) (hMany : c ≠ many) {pattern word : List α} (h : Matches one many pattern word) :
      Matches one many (c :: pattern) (c :: word)

/-- `Matches`, where `many` stands for a whole word only if it does not meet itself. -/
inductive LiteralFirst (one many : α) : List α → List α → Prop where
  | nil : LiteralFirst one many [] []
  | itself {pattern word : List α} (h : LiteralFirst one many pattern word) :
      LiteralFirst one many (many :: pattern) (many :: word)
  | many (run : List α) {pattern word : List α} (hHead : (run ++ word).head? ≠ some many)
      (h : LiteralFirst one many pattern word) : LiteralFirst one many (many :: pattern) (run ++ word)
  | one (c : α) {pattern word : List α} (h : LiteralFirst one many pattern word) :
      LiteralFirst one many (one :: pattern) (c :: word)
  | same {c : α} (hOne : c ≠ one) (hMany : c ≠ many) {pattern word : List α} (h : LiteralFirst one many pattern word) :
      LiteralFirst one many (c :: pattern) (c :: word)

variable {one many : α} {pattern word : List α}

theorem LiteralFirst.matches (h : LiteralFirst one many pattern word) : Matches one many pattern word := by
  induction h with
  | nil => exact .nil
  | itself _ ih => exact .many [many] ih
  | many run _ _ ih => exact .many run ih
  | one c _ ih => exact .one c ih
  | same hOne hMany _ ih => exact .same hOne hMany ih

/-- In a word without `many` nothing is taken literally. -/
theorem Matches.literalFirst (h : Matches one many pattern word) (hWord : many ∉ word) :
    LiteralFirst one many pattern word := by
  induction h with
  | nil => exact .nil
  | @many run pattern word _ ih =>
    have hParts := not_or.mp (mt List.mem_append.mpr hWord)
    apply LiteralFirst.many run _ (ih hParts.2)
    intro hHead
    exact hWord (List.mem_of_head? hHead)
  | one c _ ih => exact .one c (ih (not_or.mp (mt List.mem_cons.mpr hWord)).2)
  | same hOne hMany _ ih => exact .same hOne hMany (ih (not_or.mp (mt List.mem_cons.mpr hWord)).2)

theorem literalFirst_many_suffix (h : LiteralFirst one many (many :: pattern) word) (hDistinct : one ≠ many) :
    ∃ rest, rest <:+ word ∧ LiteralFirst one many pattern rest := by
  cases h with
  | itself h => exact ⟨_, List.suffix_cons _ _, h⟩
  | many run _ h => exact ⟨_, List.suffix_append _ _, h⟩
  | one c h => exact absurd rfl hDistinct
  | same _ hMany _ => exact absurd rfl hMany

theorem literalFirst_many (hDistinct : one ≠ many) (hHead : word.head? ≠ some many) :
    LiteralFirst one many (many :: pattern) word ↔ ∃ rest, rest <:+ word ∧ LiteralFirst one many pattern rest := by
  constructor
  · exact fun h => literalFirst_many_suffix h hDistinct
  · rintro ⟨rest, ⟨run, rfl⟩, h⟩
    exact .many run hHead h

theorem literalFirst_empty (hDistinct : one ≠ many) :
    LiteralFirst one many pattern [] ↔ ∀ c ∈ pattern, c = many := by
  induction pattern with
  | nil => exact ⟨fun _ => by simp, fun _ => .nil⟩
  | cons c pattern ih =>
    constructor
    · intro h
      obtain rfl : c = many := by
        generalize hWord : ([] : List α) = word at h
        cases h with
        | many => rfl
        | itself | one | same => cases hWord
      obtain ⟨rest, hRest, hTail⟩ := literalFirst_many_suffix h hDistinct
      rw [List.suffix_nil.mp hRest] at hTail
      exact List.forall_mem_cons.mpr ⟨rfl, ih.mp hTail⟩
    · intro h
      obtain ⟨rfl, hTail⟩ := List.forall_mem_cons.mp h
      exact .many [] (by simp) (ih.mpr hTail)

/-- The pattern symbol stands for the symbol of the word by itself. -/
def Fits (one p c : α) : Prop := p = one ∨ p = c

instance [DecidableEq α] (p c : α) : Decidable (Fits one p c) := inferInstanceAs (Decidable (_ ∨ _))

theorem literalFirst_fits (hDistinct : one ≠ many) {p c : α} (hFits : Fits one p c) :
    LiteralFirst one many (p :: pattern) (c :: word) ↔ LiteralFirst one many pattern word := by
  constructor
  · intro h
    generalize hWord : c :: word = whole at h
    cases h with
    | itself h => cases hWord; exact h
    | many run hHead h =>
      obtain rfl | rfl := hFits
      · exact absurd rfl hDistinct
      · exact absurd (hWord ▸ rfl) hHead
    | one c h => cases hWord; exact h
    | same _ _ h => cases hWord; exact h
  · intro h
    by_cases hOne : p = one
    · subst hOne
      exact .one c h
    obtain rfl := hFits.resolve_left hOne
    by_cases hMany : p = many
    · subst hMany
      exact .itself h
    · exact .same hOne hMany h

theorem not_literalFirst_of_misfit {p c : α} (hFits : ¬ Fits one p c) (hMany : p ≠ many) :
    ¬ LiteralFirst one many (p :: pattern) (c :: word) := by
  intro h
  generalize hWord : c :: word = whole at h
  cases h with
  | itself | many => exact hMany rfl
  | one => exact hFits (Or.inl rfl)
  | same => cases hWord; exact hFits (Or.inr rfl)

/-- Where a pattern passed a part of the word symbol by symbol, what follows in the pattern is found behind that part
whenever the pattern is found further on. -/
theorem LiteralFirst.behind (hDistinct : one ≠ many) {before passed rest : List α}
    (hPassed : List.Forall₂ (Fits one) before passed) (hRest : rest <:+ passed ++ word)
    (h : LiteralFirst one many (before ++ pattern) rest) :
    ∃ rest', rest' <:+ word ∧ LiteralFirst one many pattern rest' := by
  induction hPassed generalizing rest with
  | nil => exact ⟨rest, hRest, h⟩
  | @cons p c before passed hFits _ ih =>
    have hTail : ∀ d tail, rest = d :: tail → tail <:+ passed ++ word := by
      rintro d tail rfl
      obtain hSame | hInside := List.suffix_cons_iff.mp hRest
      · cases hSame
        exact List.suffix_refl _
      · exact (List.suffix_cons _ _).trans hInside
    generalize hPattern : (p :: before) ++ pattern = full at h
    cases h with
    | nil => cases hPattern
    | itself h =>
      cases hPattern
      exact ih (hTail _ _ rfl) h
    | one d h =>
      cases hPattern
      exact ih (hTail _ _ rfl) h
    | same _ _ h =>
      cases hPattern
      exact ih (hTail _ _ rfl) h
    | @many run _ tail hHead h =>
      cases hPattern
      obtain hSame | hInside := List.suffix_cons_iff.mp hRest
      · obtain rfl | rfl := hFits
        · exact absurd rfl hDistinct
        · exact absurd (hSame ▸ rfl) hHead
      · exact ih ((List.suffix_append _ _).trans hInside) h

/-! ## The search -/

/-- What is left of the pattern and of the word, and what to go on with after a mismatch. -/
structure Search (α : Type) where
  pattern : List α
  word : List α
  retry : Option (List α × List α)

namespace Search

def back (s : Search α) : Search α ⊕ Bool :=
  match s.retry with
  | some (pattern, later) => .inl ⟨pattern, later, some (pattern, later.tail)⟩
  | none => .inr false

def turn [DecidableEq α] (one many : α) (s : Search α) : Search α ⊕ Bool :=
  match s.word, s.pattern with
  | [], pattern => .inr (pattern.all (· = many))
  | c :: word, p :: pattern =>
    if Fits one p c then .inl ⟨pattern, word, s.retry⟩
    else if p = many then .inl ⟨pattern, c :: word, some (pattern, word)⟩
    else s.back
  | _ :: _, [] => s.back

/-- What was passed since the last `many` was passed symbol by symbol. -/
def Aligned (one : α) (s : Search α) : Prop :=
  ∀ pattern later, s.retry = some (pattern, later) → ∃ before passed, pattern = before ++ s.pattern ∧
    later = (passed ++ s.word).tail ∧ List.Forall₂ (Fits one) before passed

/-- The rest matches here, or what follows the last `many` matches further on. -/
def Accepts (one many : α) (s : Search α) : Prop :=
  LiteralFirst one many s.pattern s.word ∨
    ∃ pattern later, s.retry = some (pattern, later) ∧ ∃ rest, rest <:+ later ∧ LiteralFirst one many pattern rest

variable {s : Search α}

theorem Aligned.behind (hDistinct : one ≠ many) (hAligned : s.Aligned one) {pattern later rest : List α}
    (hRetry : s.retry = some (pattern, later)) (hRest : rest <:+ later) (h : LiteralFirst one many pattern rest) :
    ∃ rest', rest' <:+ s.word ∧ LiteralFirst one many s.pattern rest' := by
  obtain ⟨before, passed, rfl, rfl, hPassed⟩ := hAligned _ _ hRetry
  exact h.behind hDistinct hPassed (hRest.trans (List.tail_suffix _))

theorem suffix_iff_tail {P : List α → Prop} {later : List α} :
    (∃ rest, rest <:+ later ∧ P rest) ↔ P later ∨ ∃ rest, rest <:+ later.tail ∧ P rest := by
  cases later with
  | nil =>
    constructor
    · rintro ⟨rest, hRest, h⟩
      exact Or.inl (List.suffix_nil.mp hRest ▸ h)
    · rintro (h | h)
      · exact ⟨[], List.suffix_refl _, h⟩
      · exact h
  | cons c later =>
    constructor
    · rintro ⟨rest, hRest, h⟩
      obtain rfl | hInside := List.suffix_cons_iff.mp hRest
      · exact Or.inl h
      · exact Or.inr ⟨rest, hInside, h⟩
    · rintro (h | ⟨rest, hRest, h⟩)
      · exact ⟨_, List.suffix_refl _, h⟩
      · exact ⟨rest, hRest.trans (List.suffix_cons _ _), h⟩

/-- A turn of the search, if it does not end, keeps what is accepted, and an end tells whether something is. -/
def Preserved (one many : α) (s : Search α) : Search α ⊕ Bool → Prop
  | .inl s' => s'.Aligned one ∧ (s'.Accepts one many ↔ s.Accepts one many)
  | .inr accepted => accepted = true ↔ s.Accepts one many

theorem preserved_back (h : ¬ LiteralFirst one many s.pattern s.word) : Preserved one many s s.back := by
  rw [back]
  cases hRetry : s.retry with
  | none =>
    constructor
    · exact nofun
    · rintro (hHere | ⟨pattern, later, hSome, -⟩)
      · exact absurd hHere h
      · rw [hRetry] at hSome
        cases hSome
  | some retry =>
    obtain ⟨pattern, later⟩ := retry
    refine ⟨?_, ?_⟩
    · rintro _ _ ⟨⟩
      exact ⟨[], [], rfl, rfl, .nil⟩
    · have hLater : s.Accepts one many ↔ ∃ rest, rest <:+ later ∧ LiteralFirst one many pattern rest := by
        simp [Accepts, h, hRetry]
      rw [hLater, suffix_iff_tail]
      simp [Accepts]

theorem preserved_turn [DecidableEq α] (hDistinct : one ≠ many) (hAligned : s.Aligned one) :
    Preserved one many s (s.turn one many) := by
  obtain ⟨pattern, word, retry⟩ := s
  cases word with
  | nil =>
    have hEmpty : pattern.all (· = many) = true ↔ LiteralFirst one many pattern [] := by
      rw [literalFirst_empty hDistinct]
      simp
    refine hEmpty.trans ⟨Or.inl, ?_⟩
    rintro (h | ⟨_, _, hRetry, rest, hRest, h⟩)
    · exact h
    · obtain ⟨rest', hRest', h'⟩ := hAligned.behind hDistinct hRetry hRest h
      exact List.suffix_nil.mp hRest' ▸ h'
  | cons c word =>
    cases pattern with
    | nil => exact preserved_back (by rintro ⟨⟩)
    | cons p pattern =>
      change Preserved one many _ (if Fits one p c then _ else if p = many then _ else _)
      split
      · next hFits =>
        refine ⟨?_, ?_⟩
        · intro full later hRetry
          obtain ⟨before, passed, rfl, rfl, hPassed⟩ := hAligned full later hRetry
          refine ⟨before ++ [p], passed ++ [c], by simp, by simp, ?_⟩
          exact List.rel_append hPassed (.cons hFits .nil)
        · rw [Accepts, Accepts, literalFirst_fits hDistinct hFits]
      split
      · next hFits hMany =>
        subst hMany
        have hHead : (c :: word).head? ≠ some p := fun h => hFits (Or.inr (Option.some.inj h).symm)
        refine ⟨?_, ?_⟩
        · rintro _ _ ⟨⟩
          exact ⟨[], [], rfl, rfl, .nil⟩
        · have hHere : Accepts one p ⟨pattern, c :: word, some (pattern, word)⟩ ↔
              LiteralFirst one p (p :: pattern) (c :: word) := by
            rw [literalFirst_many hDistinct hHead, suffix_iff_tail]
            simp [Accepts]
          rw [hHere]
          refine ⟨Or.inl, ?_⟩
          rintro (h | ⟨_, _, hRetry, rest, hRest, h⟩)
          · exact h
          -- a later place for what precedes this wildcard leaves it no word that it does not find from here
          · obtain ⟨rest', hRest', h'⟩ := hAligned.behind hDistinct hRetry hRest h
            obtain ⟨rest'', hRest'', h''⟩ := literalFirst_many_suffix h' hDistinct
            exact (literalFirst_many hDistinct hHead).mpr ⟨rest'', hRest''.trans hRest', h''⟩
      · next hFits hMany => exact preserved_back (not_literalFirst_of_misfit hFits hMany)

end Search

end Wildcard
