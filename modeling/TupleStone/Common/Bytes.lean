import TupleStone.Lib.BigEndian

/-! # Byte strings

`std::string`, `std::string_view` and byte vectors are lists of bytes, ordered as `std::string` orders them:
by unsigned byte, the shorter first. Character classes are those of the C locale.
-/

set_option autoImplicit false

namespace TupleStone

abbrev Bytes := List UInt8

/-- The bytes of a literal of the source. -/
def ascii (text : String) : Bytes := text.toByteArray.data.toList

def isSpace (c : UInt8) : Bool := c == 32 || (9 ≤ c && c ≤ 13)
def isDigit (c : UInt8) : Bool := 48 ≤ c && c ≤ 57
def isUpper (c : UInt8) : Bool := 65 ≤ c && c ≤ 90
def isLower (c : UInt8) : Bool := 97 ≤ c && c ≤ 122
def isAlpha (c : UInt8) : Bool := isUpper c || isLower c
def isAlnum (c : UInt8) : Bool := isAlpha c || isDigit c
def toLower (c : UInt8) : UInt8 := if isUpper c then c + 32 else c
def toUpper (c : UInt8) : UInt8 := if isLower c then c - 32 else c

def lower (text : Bytes) : Bytes := text.map toLower

def trimLower (text : Bytes) : Bytes :=
  let front := text.dropWhile isSpace
  lower (front.reverse.dropWhile (fun c => isSpace c || c == 59)).reverse

/-- The offset of the first occurrence, as `std::string::find`. -/
def findSubstring (needle : Bytes) : Bytes → Option Nat
  | [] => if needle.isEmpty then some 0 else none
  | c :: rest => if needle.isPrefixOf (c :: rest) then some 0 else (findSubstring needle rest).map (· + 1)

/-- What holds of every byte can be checked byte by byte. -/
theorem forall_byte {P : UInt8 → Prop} (h : ∀ n : Fin 256, P (UInt8.ofNat n)) (c : UInt8) : P c := by
  have hByte := h ⟨c.toNat, c.toNat_lt⟩
  rwa [UInt8.ofNat_toNat] at hByte

theorem toLower_toLower : ∀ c, toLower (toLower c) = toLower c := forall_byte (by decide +kernel)

@[simp] theorem lower_lower (text : Bytes) : lower (lower text) = lower text := by
  simp [lower, toLower_toLower]

theorem length_lower (text : Bytes) : (lower text).length = text.length := List.length_map _

end TupleStone
