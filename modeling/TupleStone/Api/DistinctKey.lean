import TupleStone.Lib.Terminated
import TupleStone.Lib.DecimalRounding
import TupleStone.Api.Scripts

/-! # The keys of DISTINCT

The key of a row is the text of each value with a zero byte after it. Texts of values of different types can
be the same text, and a TEXT value can contain the zero byte.
-/

set_option autoImplicit false

namespace TupleStone

namespace Value

/-- The exact number that a numeric value denotes, in units of `2 ^ (-1074)`. -/
def exactNumber : Value → Option Int
  | integer n => some (n.toInt * 2 ^ 1074)
  | real x => if x.isNaN then none else some x.scaled
  | _ => none

/-- Equality value by value: of one type and the same, or equal numbers. -/
def Identical : Value → Value → Prop
  | null, null => True
  | boolean a, boolean b => a = b
  | text a, text b => a = b
  | blob a, blob b => a = b
  | a, b => ∃ n, a.exactNumber = some n ∧ b.exactNumber = some n

def isText : Value → Bool
  | text _ => true
  | _ => false

def isUndefined : Value → Bool
  | real x => x.isNaN
  | _ => false

def isNumber : Value → Bool
  | integer _ => true
  | real _ => true
  | _ => false

theorem eq_text {v : Value} (h : v.isText = true) : ∃ s, v = text s := by
  cases v with
  | text s => exact ⟨s, rfl⟩
  | _ => cases h

end Value

/-! ## Texts of numbers -/

open Statement
open Binary64 (IsDigit decimalDigits magnitudeText infinityBits)

/-- The sign of a number and the text of its size. -/
def signedText (negative : Bool) (size : Bytes) : Bytes := (if negative then [45] else []) ++ size

def Unsigned (size : Bytes) : Prop := ∃ c ∈ size.head?, c ≠ 45

theorem signedText_inj {p q : Bool} {s t : Bytes} (hs : Unsigned s) (ht : Unsigned t)
    (h : signedText p s = signedText q t) : p = q ∧ s = t := by
  obtain ⟨c, hc, hcMinus⟩ := hs
  obtain ⟨d, hd, hdMinus⟩ := ht
  cases p <;> cases q
  · exact ⟨rfl, h⟩
  · have hHead : s.head? = some 45 := congrArg List.head? h
    rw [hHead] at hc
    exact absurd (Option.some.inj hc).symm hcMinus
  · have hHead : some 45 = t.head? := congrArg List.head? h
    rw [← hHead] at hd
    exact absurd (Option.some.inj hd).symm hdMinus
  · exact ⟨rfl, (List.cons.inj h).2⟩

theorem unsigned_decimalDigits (n : Nat) : Unsigned (decimalDigits n) := by
  obtain ⟨c, rest, hText⟩ := List.exists_cons_of_ne_nil (Binary64.decimalDigits_ne_nil n)
  have hDigit : IsDigit c := by
    apply Binary64.isDigit_of_mem_decimalDigits (n := n)
    rw [hText]
    exact List.mem_cons_self
  rw [hText]
  exact ⟨c, rfl, hDigit.ne (by decide)⟩

theorem unsigned_magnitudeText (m : Nat) : Unsigned (magnitudeText m) := by
  obtain ⟨c, hc, hByte⟩ := Binary64.head_magnitudeText m
  refine ⟨c, hc, ?_⟩
  rcases hByte with hWord | hDigit
  · rintro rfl
    exact absurd hWord (by decide)
  · exact hDigit.ne (by decide)

theorem integerText_eq (n : Int) : Value.integerText n = signedText (decide (n < 0)) (decimalDigits n.natAbs) := by
  rw [Value.integerText, signedText]
  simp only [decide_eq_true_eq]

theorem toText_eq (x : Binary64) : x.toText = signedText x.negative (magnitudeText x.magnitude) := Binary64.toText_eq x

theorem integerText_inj {m n : Int} (h : Value.integerText m = Value.integerText n) : m = n := by
  rw [integerText_eq, integerText_eq] at h
  obtain ⟨hSign, hSize⟩ := signedText_inj (unsigned_decimalDigits _) (unsigned_decimalDigits _) h
  have hAbs := Binary64.decimalDigits_injective hSize
  have hSign : m < 0 ↔ n < 0 := decide_eq_decide.mp hSign
  omega

theorem toText_inj {x y : Binary64} (h : x.toText = y.toText) :
    (x.isNaN = true ∧ y.isNaN = true) ∨ (x.isNaN = y.isNaN ∧ x.scaled = y.scaled) := by
  rw [toText_eq, toText_eq] at h
  obtain ⟨hSign, hSize⟩ := signedText_inj (unsigned_magnitudeText _) (unsigned_magnitudeText _) h
  rcases Binary64.eq_of_magnitudeText_eq hSize with ⟨hx, hy⟩ | hMagnitude
  · exact Or.inl ⟨decide_eq_true hx, decide_eq_true hy⟩
  · refine Or.inr ⟨?_, ?_⟩
    · rw [Binary64.isNaN, Binary64.isNaN, hMagnitude]
    · rw [Binary64.scaled, Binary64.scaled, hSign, hMagnitude]

theorem integerText_eq_toText {n : Int} {x : Binary64} (h : Value.integerText n = x.toText) :
    x.isNaN = false ∧ x.scaled = n * 2 ^ 1074 := by
  rw [integerText_eq, toText_eq] at h
  obtain ⟨hSign, hSize⟩ := signedText_inj (unsigned_decimalDigits _) (unsigned_magnitudeText _) h
  obtain ⟨hFinite, hUnits⟩ := Binary64.units_of_digits_of_magnitudeText hSize
  constructor
  · exact decide_eq_false (Nat.not_lt.mpr hFinite)
  · rw [Binary64.scaled, ← hSign, hUnits, Nat.cast_mul, Nat.cast_pow, Nat.cast_ofNat]
    generalize (2 : Int) ^ 1074 = unit
    split
    · rename_i hNegative
      have hAbs : (n.natAbs : Int) = -n := by
        have := of_decide_eq_true hNegative
        omega
      rw [hAbs, Int.neg_mul, Int.neg_neg]
    · rename_i hNegative
      have hAbs : (n.natAbs : Int) = n := by
        have : ¬ n < 0 := fun hn => hNegative (decide_eq_true hn)
        omega
      rw [hAbs]

/-! ## Texts of other values -/

theorem hexDigits_inj {a b : UInt8} (h : Value.hexDigit (a / 16) = Value.hexDigit (b / 16))
    (hLow : Value.hexDigit (a % 16) = Value.hexDigit (b % 16)) : a = b := by
  let unhex : UInt8 → UInt8 := fun c => if c < 58 then c - 48 else c - 87
  have hAll : ∀ n : Fin 256, unhex (Value.hexDigit (UInt8.ofNat n / 16)) * 16 +
      unhex (Value.hexDigit (UInt8.ofNat n % 16)) = UInt8.ofNat n := by decide +kernel
  have hByte : ∀ c : UInt8, unhex (Value.hexDigit (c / 16)) * 16 + unhex (Value.hexDigit (c % 16)) = c := by
    intro c
    have hc := hAll ⟨c.toNat, c.toNat_lt⟩
    rwa [UInt8.ofNat_toNat] at hc
  rw [← hByte a, ← hByte b, h, hLow]

def hexText (bytes : Bytes) : Bytes :=
  bytes.flatMap (fun byte => [Value.hexDigit (byte / 16), Value.hexDigit (byte % 16)])

theorem hexText_inj {a b : Bytes} (h : hexText a = hexText b) : a = b := by
  induction a generalizing b with
  | nil =>
    cases b with
    | nil => rfl
    | cons => cases h
  | cons first a ih =>
    cases b with
    | nil => cases h
    | cons second b =>
      obtain ⟨hHigh, hRest⟩ := List.cons.inj h
      obtain ⟨hLow, hRest⟩ := List.cons.inj hRest
      rw [hexDigits_inj hHigh hLow, ih hRest]

theorem toString_blob_inj {a b : Bytes} (h : (Value.blob a).toString = (Value.blob b).toString) : a = b := by
  rw [Value.toString, Value.toString, List.append_assoc, List.append_assoc] at h
  exact hexText_inj (List.append_cancel_right (List.append_cancel_left h))

theorem hexDigit_ne_zero (c : UInt8) : Value.hexDigit (c / 16) ≠ 0 ∧ Value.hexDigit (c % 16) ≠ 0 := by
  have hAll : ∀ n : Fin 256, Value.hexDigit (UInt8.ofNat n / 16) ≠ 0 ∧ Value.hexDigit (UInt8.ofNat n % 16) ≠ 0 := by
    decide +kernel
  have hc := hAll ⟨c.toNat, c.toNat_lt⟩
  rwa [UInt8.ofNat_toNat] at hc

theorem zero_not_mem_signedText {negative : Bool} {size : Bytes} (h : (0 : UInt8) ∉ size) :
    0 ∉ signedText negative size := by
  rw [signedText, List.mem_append]
  rintro (hSign | hSize)
  · split at hSign
    · exact absurd hSign (by decide)
    · cases hSign
  · exact h hSize

theorem zero_not_mem_decimalDigits (n : Nat) : (0 : UInt8) ∉ decimalDigits n := fun h =>
  absurd (Binary64.isDigit_of_mem_decimalDigits h).1 (by decide)

theorem zero_not_mem_magnitudeText (m : Nat) : (0 : UInt8) ∉ magnitudeText m := by
  rcases Binary64.magnitudeText_cases m with ⟨_, hText⟩ | ⟨_, hText⟩ | ⟨_, hText⟩ | ⟨_, _, hText⟩ <;> rw [hText]
  · decide
  · decide
  · decide
  · intro hMem
    rcases Binary64.mem_formatPositive hMem with hDigit | hOther
    · exact absurd hDigit.1 (by decide)
    · exact absurd hOther (by decide)

/-- Only TEXT values have a zero byte in their text. -/
theorem zero_not_mem_toString {v : Value} (h : v.isText = false) : (0 : UInt8) ∉ v.toString := by
  cases v with
  | null => decide
  | boolean b => cases b <;> decide
  | integer n =>
    rw [Value.toString, integerText_eq]
    exact zero_not_mem_signedText (zero_not_mem_decimalDigits _)
  | real x =>
    rw [Value.toString, toText_eq]
    exact zero_not_mem_signedText (zero_not_mem_magnitudeText _)
  | text s => cases h
  | blob b =>
    rw [Value.toString, List.mem_append, List.mem_append]
    rintro ((hMem | hMem) | hMem)
    · exact absurd hMem (by decide)
    · obtain ⟨byte, _, hMem⟩ := List.mem_flatMap.mp hMem
      have hNonzero := hexDigit_ne_zero byte
      rcases List.mem_pair.mp hMem with hc | hc
      · exact hNonzero.1 hc.symm
      · exact hNonzero.2 hc.symm
    · exact absurd hMem (by decide)

/-! ## One text, one value -/

theorem head_signedText {negative : Bool} {size : Bytes} (h : ∃ c ∈ size.head?, isUpper c = false) :
    ∃ c ∈ (signedText negative size).head?, isUpper c = false := by
  cases negative with
  | false => exact h
  | true => exact ⟨45, rfl, by decide⟩

theorem isUpper_digit {c : UInt8} (h : IsDigit c) : isUpper c = false := by
  have hHigh : ¬ 65 ≤ c := fun hc => absurd h.2 (by
    have := UInt8.le_iff_toNat_le.mp hc
    have hLow : (65 : UInt8).toNat = 65 := rfl
    omega)
  rw [isUpper, decide_eq_false hHigh, Bool.false_and]

theorem head_of_isNumber {v : Value} (h : v.isNumber = true) : ∃ c ∈ v.toString.head?, isUpper c = false := by
  cases v with
  | integer n =>
    rw [Value.toString, integerText_eq]
    apply head_signedText
    obtain ⟨c, rest, hText⟩ := List.exists_cons_of_ne_nil (Binary64.decimalDigits_ne_nil n.toInt.natAbs)
    have hDigit : IsDigit c := by
      apply Binary64.isDigit_of_mem_decimalDigits (n := n.toInt.natAbs)
      rw [hText]
      exact List.mem_cons_self
    rw [hText]
    exact ⟨c, rfl, isUpper_digit hDigit⟩
  | real x =>
    rw [Value.toString, toText_eq]
    apply head_signedText
    obtain ⟨c, hc, hByte⟩ := Binary64.head_magnitudeText x.magnitude
    refine ⟨c, hc, ?_⟩
    rcases hByte with hWord | hDigit
    · rcases List.mem_pair.mp hWord with rfl | rfl <;> decide
    · exact isUpper_digit hDigit
  | _ => cases h

theorem head_of_not_isNumber {v : Value} (hText : v.isText = false) (h : v.isNumber = false) :
    ∃ c ∈ v.toString.head?, isUpper c = true := by
  cases v with
  | null => exact ⟨78, rfl, by decide⟩
  | boolean b =>
    cases b
    · exact ⟨70, rfl, by decide⟩
    · exact ⟨84, rfl, by decide⟩
  | blob b => exact ⟨88, rfl, by decide⟩
  | integer | real => cases h
  | text => cases hText

theorem identical_of_numbers {a b : Value} (ha : a.isNumber = true) (hb : b.isNumber = true)
    (hUndefined : ¬ (a.isUndefined = true ∧ b.isUndefined = true)) (h : a.toString = b.toString) : a.Identical b := by
  have hReal : ∀ {x : Binary64}, x.isNaN = false → (Value.real x).exactNumber = some x.scaled := by
    intro x hx
    rw [Value.exactNumber, hx, if_neg Bool.false_ne_true]
  cases a with
  | integer m =>
    cases b with
    | integer n =>
      have hEq := integerText_inj h
      exact ⟨m.toInt * 2 ^ 1074, rfl, by rw [Value.exactNumber, hEq]⟩
    | real y =>
      obtain ⟨hFinite, hScaled⟩ := integerText_eq_toText h
      exact ⟨m.toInt * 2 ^ 1074, rfl, by rw [hReal hFinite, hScaled]⟩
    | _ => cases hb
  | real x =>
    cases b with
    | integer n =>
      obtain ⟨hFinite, hScaled⟩ := integerText_eq_toText h.symm
      exact ⟨n.toInt * 2 ^ 1074, by rw [hReal hFinite, hScaled], rfl⟩
    | real y =>
      rcases toText_inj h with hBoth | ⟨hSame, hScaled⟩
      · exact absurd hBoth hUndefined
      · cases hNaN : y.isNaN with
        | true => exact absurd ⟨hSame.trans hNaN, hNaN⟩ hUndefined
        | false => exact ⟨x.scaled, hReal (hSame.trans hNaN), by rw [hReal hNaN, hScaled]⟩
    | _ => cases hb
  | _ => cases ha

/-- Values other than TEXT with one text are identical, unless both are NaN. -/
theorem identical_of_toString {a b : Value} (ha : a.isText = false) (hb : b.isText = false)
    (hUndefined : ¬ (a.isUndefined = true ∧ b.isUndefined = true)) (h : a.toString = b.toString) : a.Identical b := by
  have hMixed : ∀ {u v : Value}, u.isNumber = true → v.isText = false → v.isNumber = false → u.toString ≠ v.toString := by
    intro u v hu hvText hv hEq
    obtain ⟨c, hc, hLower⟩ := head_of_isNumber hu
    obtain ⟨d, hd, hUpper⟩ := head_of_not_isNumber hvText hv
    rw [hEq] at hc
    have hcd : c = d := Option.some.inj (hc.symm.trans hd)
    rw [hcd, hUpper] at hLower
    cases hLower
  cases hNumA : a.isNumber with
  | true =>
    cases hNumB : b.isNumber with
    | true => exact identical_of_numbers hNumA hNumB hUndefined h
    | false => exact absurd h (hMixed hNumA hb hNumB)
  | false =>
    cases hNumB : b.isNumber with
    | true => exact absurd h.symm (hMixed hNumB ha hNumA)
    | false =>
      cases a with
      | null =>
        cases b with
        | null => trivial
        | boolean q => cases q <;> exact absurd h (by decide)
        | blob q => cases h
        | integer | real => cases hNumB
        | text => cases hb
      | boolean p =>
        cases b with
        | null => cases p <;> exact absurd h (by decide)
        | boolean q => cases p <;> cases q <;> first | rfl | exact absurd h (by decide)
        | blob q => cases p <;> cases h
        | integer | real => cases hNumB
        | text => cases hb
      | blob p =>
        cases b with
        | null => cases h
        | boolean q => cases q <;> cases h
        | blob q => exact toString_blob_inj h
        | integer | real => cases hNumB
        | text => cases hb
      | integer | real => cases hNumA
      | text => cases ha

/-! ## Rows -/

theorem distinctKey_eq (row : Row) : distinctKey row = Terminated.join 0 (row.map Value.toString) := by
  rw [distinctKey, Terminated.join, List.flatMap_map]

/-- What is known of the values at a position of a row. -/
inductive Form where
  /-- Not TEXT and not NaN. -/
  | comparable
  | nonText
  /-- TEXT without a zero byte. -/
  | cleanText
  | anyText
  deriving DecidableEq, Repr

namespace Form

def isText : Form → Bool
  | comparable => false
  | nonText => false
  | cleanText => true
  | anyText => true

def Fits : Form → Value → Prop
  | comparable, v => v.isText = false ∧ v.isUndefined = false
  | nonText, v => v.isText = false
  | cleanText, v => v.isText = true ∧ 0 ∉ v.toString
  | anyText, v => v.isText = true

theorem Fits.isText {form : Form} {v : Value} (h : form.Fits v) : v.isText = form.isText := by
  cases form with
  | comparable => exact h.1
  | nonText => exact h
  | cleanText => exact h.1
  | anyText => exact h

theorem Fits.anyText_of_zero {form : Form} {v : Value} (h : form.Fits v) (hZero : 0 ∈ v.toString) : form = anyText := by
  cases form with
  | comparable => exact absurd hZero (zero_not_mem_toString h.1)
  | nonText => exact absurd hZero (zero_not_mem_toString h)
  | cleanText => exact absurd hZero h.2
  | anyText => rfl

theorem Fits.nonText_of_undefined {form : Form} {v : Value} (h : form.Fits v) (hUndefined : v.isUndefined = true) :
    form = nonText := by
  have hText : v.isText = false := by
    cases v <;> first | rfl | cases hUndefined
  have hForm := h.isText.symm.trans hText
  cases form with
  | comparable => exact absurd hUndefined (by rw [h.2]; decide)
  | nonText => rfl
  | cleanText | anyText => cases hForm

end Form

def FitsRow (forms : List Form) (row : Row) : Prop := List.Forall₂ Form.Fits forms row

def IdenticalRows (a b : Row) : Prop := List.Forall₂ Value.Identical a b

/-- Rows of these forms with one key are equal value by value. -/
def LosesNoRow (fa fb : List Form) : Prop :=
  ∀ a b : Row, FitsRow fa a → FitsRow fb b → distinctKey a = distinctKey b → IdenticalRows a b

/-- TEXT stands against TEXT, at most one position has zero bytes on both sides, and NaN does not meet NaN. -/
structure KeptApart (fa fb : List Form) : Prop where
  texts : ∀ i : Nat, fa[i]?.map Form.isText = fb[i]?.map Form.isText
  separators : ∀ i j : Nat, fa[i]? = some .anyText → fb[j]? = some .anyText → i = j
  numbers : ∀ i : Nat, ¬ (fa[i]? = some .nonText ∧ fb[i]? = some .nonText)

theorem getElem?_of_forall₂ {α β : Type} {R : α → β → Prop} {xs : List α} {ys : List β} (h : List.Forall₂ R xs ys)
    {i : Nat} {y : β} (hy : ys[i]? = some y) : ∃ x, xs[i]? = some x ∧ R x y := by
  induction h generalizing i with
  | nil => cases hy
  | cons hHead _ ih =>
    cases i with
    | zero =>
      cases hy
      exact ⟨_, rfl, hHead⟩
    | succ i => exact ih hy

theorem forall₂_of_getElem? {α β : Type} {R : α → β → Prop} {xs : List α} {ys : List β} (hLength : xs.length = ys.length)
    (h : ∀ (i : Nat) x y, xs[i]? = some x → ys[i]? = some y → R x y) : List.Forall₂ R xs ys := by
  apply List.forall₂_of_length_eq_of_get hLength
  intro i hx hy
  exact h i _ _ (List.getElem?_eq_getElem hx) (List.getElem?_eq_getElem hy)

theorem texts_eq {fa fb : List Form} (h : KeptApart fa fb) {a b : Row} (ha : FitsRow fa a) (hb : FitsRow fb b)
    (hLength : fa.length = fb.length) (hKey : distinctKey a = distinctKey b) :
    a.map Value.toString = b.map Value.toString := by
  have hZero : ∀ {forms : List Form} {row : Row} {i : Nat} {p : Bytes}, FitsRow forms row →
      (row.map Value.toString)[i]? = some p → 0 ∈ p → forms[i]? = some .anyText := by
    intro forms row i p hRow hp hMem
    rw [List.getElem?_map] at hp
    obtain ⟨v, hv, rfl⟩ := Option.map_eq_some_iff.mp hp
    obtain ⟨form, hForm, hFits⟩ := getElem?_of_forall₂ hRow hv
    rw [hForm, hFits.anyText_of_zero hMem]
  rw [distinctKey_eq, distinctKey_eq] at hKey
  apply Terminated.join_inj _ _ hKey
  · rw [List.length_map, List.length_map, ← ha.length_eq, ← hb.length_eq, hLength]
  · intro i j p q hp hq hMemP hMemQ
    exact h.separators i j (hZero ha hp hMemP) (hZero hb hq hMemQ)

theorem losesNoRow_of_keptApart {fa fb : List Form} (hLength : fa.length = fb.length) (h : KeptApart fa fb) :
    LosesNoRow fa fb := by
  intro a b ha hb hKey
  have hTexts := texts_eq h ha hb hLength hKey
  apply forall₂_of_getElem?
  · rw [← ha.length_eq, ← hb.length_eq, hLength]
  intro i u v hu hv
  obtain ⟨f, hf, hFitsU⟩ := getElem?_of_forall₂ ha hu
  obtain ⟨g, hg, hFitsV⟩ := getElem?_of_forall₂ hb hv
  have hText : u.toString = v.toString := by
    have hAt := congrArg (fun texts => texts[i]?) hTexts
    simpa [hu, hv] using hAt
  have hForms : f.isText = g.isText := by
    have hAt := h.texts i
    simpa [hf, hg] using hAt
  have hSame : u.isText = v.isText := by rw [hFitsU.isText, hFitsV.isText, hForms]
  cases hIsText : v.isText with
  | true =>
    obtain ⟨s, rfl⟩ := Value.eq_text hIsText
    obtain ⟨t, rfl⟩ := Value.eq_text (hSame.trans hIsText)
    exact hText
  | false =>
    apply identical_of_toString (hSame.trans hIsText) hIsText _ hText
    rintro ⟨hUndefinedU, hUndefinedV⟩
    rw [hFitsU.nonText_of_undefined hUndefinedU] at hf
    rw [hFitsV.nonText_of_undefined hUndefinedV] at hg
    exact h.numbers i ⟨hf, hg⟩

/-! ## Rows that are taken for one another -/

/-- A value of each form with the text `NULL`. -/
def Form.sample (form : Form) : Value := if form.isText then .text (ascii "NULL") else .null

theorem Form.toString_sample (form : Form) : form.sample.toString = ascii "NULL" := by cases form <;> rfl

theorem Form.isText_sample (form : Form) : form.sample.isText = form.isText := by cases form <;> rfl

theorem Form.fits_sample (form : Form) : form.Fits form.sample := by
  cases form with
  | comparable => exact ⟨rfl, rfl⟩
  | nonText => exact rfl
  | cleanText => exact ⟨rfl, by decide⟩
  | anyText => exact rfl

def sampleRow (forms : List Form) : Row := forms.map Form.sample

theorem fitsRow_sampleRow (forms : List Form) : FitsRow forms (sampleRow forms) := by
  induction forms with
  | nil => exact .nil
  | cons form forms ih => exact .cons form.fits_sample ih

theorem texts_sampleRow (forms : List Form) :
    (sampleRow forms).map Value.toString = List.replicate forms.length (ascii "NULL") := by
  induction forms with
  | nil => rfl
  | cons form forms ih => rw [sampleRow, List.map_cons, List.map_cons, form.toString_sample, ← sampleRow, ih]; rfl

theorem fitsRow_set {forms : List Form} {row : Row} (h : FitsRow forms row) {i : Nat} {form : Form} {v : Value}
    (hForm : forms[i]? = some form) (hFits : form.Fits v) : FitsRow forms (row.set i v) := by
  induction h generalizing i with
  | nil => exact .nil
  | cons hHead hTail ih =>
    cases i with
    | zero =>
      cases hForm
      exact .cons hFits hTail
    | succ i => exact .cons hHead (ih hForm)

theorem getElem?_sampleRow {forms : List Form} {i : Nat} {form : Form} (h : forms[i]? = some form) :
    (sampleRow forms)[i]? = some form.sample := by
  rw [sampleRow, List.getElem?_map, h, Option.map_some]

theorem lt_of_getElem? {forms : List Form} {i : Nat} {form : Form} (h : forms[i]? = some form) :
    i < (sampleRow forms).length := by
  rw [sampleRow, List.length_map]
  exact (List.getElem?_eq_some_iff.mp h).1

theorem identical_at {a b : Row} (h : IdenticalRows a b) {i : Nat} {u v : Value} (hu : a[i]? = some u)
    (hv : b[i]? = some v) : u.Identical v := by
  obtain ⟨u', hu', hIdentical⟩ := getElem?_of_forall₂ h hv
  rw [hu] at hu'
  cases hu'
  exact hIdentical

theorem isText_of_identical {u v : Value} (h : u.Identical v) : u.isText = v.isText := by
  have hNone : ∀ {s : Bytes} {n : Int}, (Value.text s).exactNumber ≠ some n := fun h => by cases h
  cases u <;> cases v <;> first | rfl | cases h
  all_goals
    rename_i hExact
    first | exact absurd hExact.1 hNone | exact absurd hExact.2 hNone

theorem not_identical_of_undefined {u v : Value} (h : u.isUndefined = true) : ¬ u.Identical v := by
  cases u with
  | real x =>
    have hNone : (Value.real x).exactNumber = none := by
      rw [Value.exactNumber]
      exact if_pos h
    cases v with
    | integer | real =>
      rintro ⟨n, hExact, _⟩
      rw [hNone] at hExact
      cases hExact
    | null | boolean | text | blob =>
      rintro ⟨n, hExact, _⟩
      rw [hNone] at hExact
      cases hExact
  | null | boolean | integer | text | blob => cases h

/-- The text `NULL` once more inside of one of the pieces. -/
theorem join_set {piece : Bytes} {count i : Nat} (h : i < count) :
    Terminated.join 0 ((List.replicate count piece).set i (piece ++ 0 :: piece)) =
      Terminated.join 0 (List.replicate (count + 1) piece) := by
  induction count generalizing i with
  | zero => cases h
  | succ count ih =>
    cases i with
    | zero =>
      rw [List.replicate_succ, List.set_cons_zero, Terminated.join_cons, List.replicate_succ, Terminated.join_cons,
        List.replicate_succ, Terminated.join_cons, List.append_assoc, List.cons_append]
    | succ i =>
      rw [List.replicate_succ, List.set_cons_succ, Terminated.join_cons, ih (Nat.lt_of_succ_lt_succ h),
        List.replicate_succ (n := count + 1), Terminated.join_cons]

def doubledNull : Value := .text (ascii "NULL" ++ 0 :: ascii "NULL")

theorem distinctKey_doubledNull {forms : List Form} {i : Nat} {form : Form} (h : forms[i]? = some form) :
    distinctKey ((sampleRow forms).set i doubledNull) =
      Terminated.join 0 (List.replicate (forms.length + 1) (ascii "NULL")) := by
  have hLt := (List.getElem?_eq_some_iff.mp h).1
  rw [distinctKey_eq, List.map_set, texts_sampleRow]
  exact join_set hLt

theorem keptApart_of_losesNoRow {fa fb : List Form} (hLength : fa.length = fb.length) (h : LosesNoRow fa fb) :
    KeptApart fa fb := by
  have hFitA := fitsRow_sampleRow fa
  have hFitB := fitsRow_sampleRow fb
  constructor
  · intro i
    have hKey : distinctKey (sampleRow fa) = distinctKey (sampleRow fb) := by
      rw [distinctKey_eq, distinctKey_eq, texts_sampleRow, texts_sampleRow, hLength]
    have hRows := h _ _ hFitA hFitB hKey
    cases hf : fa[i]? with
    | none =>
      have hOut := List.getElem?_eq_none_iff.mp hf
      rw [List.getElem?_eq_none (hLength ▸ hOut)]
    | some f =>
      have hLt := (List.getElem?_eq_some_iff.mp hf).1
      obtain ⟨g, hg⟩ : ∃ g, fb[i]? = some g := ⟨_, List.getElem?_eq_getElem (hLength ▸ hLt)⟩
      have hIdentical := identical_at hRows (getElem?_sampleRow hf) (getElem?_sampleRow hg)
      have hText := isText_of_identical hIdentical
      rw [f.isText_sample, g.isText_sample] at hText
      rw [hg, Option.map_some, Option.map_some, hText]
  · intro i j hi hj
    by_contra hne
    have hKey : distinctKey ((sampleRow fa).set i doubledNull) = distinctKey ((sampleRow fb).set j doubledNull) := by
      rw [distinctKey_doubledNull hi, distinctKey_doubledNull hj, hLength]
    have hRows := h _ _ (fitsRow_set hFitA hi (v := doubledNull) rfl) (fitsRow_set hFitB hj (v := doubledNull) rfl) hKey
    have hu : ((sampleRow fa).set i doubledNull)[i]? = some doubledNull := List.getElem?_set_self (lt_of_getElem? hi)
    obtain ⟨g, hg⟩ : ∃ g, fb[i]? = some g :=
      ⟨_, List.getElem?_eq_getElem (hLength ▸ (List.getElem?_eq_some_iff.mp hi).1)⟩
    have hv : ((sampleRow fb).set j doubledNull)[i]? = some g.sample := by
      rw [List.getElem?_set_ne (Ne.symm hne)]
      exact getElem?_sampleRow hg
    have hIdentical := identical_at hRows hu hv
    cases g with
    | comparable | nonText =>
      obtain ⟨n, hExact, _⟩ := hIdentical
      cases hExact
    | cleanText | anyText =>
      have hSame : ascii "NULL" ++ 0 :: ascii "NULL" = ascii "NULL" := hIdentical
      exact absurd hSame (by decide)
  · rintro i ⟨hf, hg⟩
    have hNaN : Form.nonText.Fits (.real Binary64.defaultNaN) := rfl
    have hKey : distinctKey ((sampleRow fa).set i (.real Binary64.defaultNaN)) =
        distinctKey ((sampleRow fb).set i (.real Binary64.defaultNaN)) := by
      rw [distinctKey_eq, distinctKey_eq, List.map_set, List.map_set, texts_sampleRow, texts_sampleRow, hLength]
    have hRows := h _ _ (fitsRow_set hFitA hf hNaN) (fitsRow_set hFitB hg hNaN) hKey
    exact not_identical_of_undefined (by decide +kernel) (identical_at hRows
      (List.getElem?_set_self (lt_of_getElem? hf)) (List.getElem?_set_self (lt_of_getElem? hg)))

theorem keptApart_of_one_text : KeptApart [.comparable, .anyText, .cleanText] [.comparable, .anyText, .cleanText] := by
  constructor
  · exact fun _ => rfl
  · rintro (_ | _ | _ | i) (_ | _ | _ | j) hi hj <;> first | rfl | (cases hi; done) | cases hj
  · rintro (_ | _ | _ | i) ⟨hi, _⟩ <;> cases hi

def distinctScript : List Bytes :=
  [ascii "CREATE TABLE t (a TEXT)", ascii "INSERT INTO t VALUES (NULL)", ascii "INSERT INTO t VALUES ('NULL')"]

def distinctTable : Table := ⟨⟨[{ name := ascii "a", type := .kText }]⟩, [[.null], [.text (ascii "NULL")]]⟩

end TupleStone
