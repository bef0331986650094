import BindingPower.Text.Ranges
import BindingPower.Text.AlnumTable

/-! The character classes that cutting a text into lexemes depends on: blanks, decimal digits,
letters and numbers, word characters. -/
namespace BindingPower.Text

/-- The ASCII blanks, the four information separators and the spaces and line ends of Unicode. -/
def blankRanges : List (Nat × Nat) := [
  (0x9, 0xd), (0x1c, 0x20), (0x85, 0x85), (0xa0, 0xa0), (0x1680, 0x1680), (0x2000, 0x200a),
  (0x2028, 0x2029), (0x202f, 0x202f), (0x205f, 0x205f), (0x3000, 0x3000)]

def isBlank (c : Char) : Bool := inRanges blankRanges c.toNat

/-- The zeros of the decimal digit blocks, in increasing order. The digits 0 to 9 of a block are
consecutive. -/
def zeros : List Nat := [
  0x30, 0x660, 0x6f0, 0x7c0, 0x966, 0x9e6, 0xa66, 0xae6, 0xb66, 0xbe6, 0xc66, 0xce6, 0xd66, 0xde6,
  0xe50, 0xed0, 0xf20, 0x1040, 0x1090, 0x17e0, 0x1810, 0x1946, 0x19d0, 0x1a80, 0x1a90, 0x1b50,
  0x1bb0, 0x1c40, 0x1c50, 0xa620, 0xa8d0, 0xa900, 0xa9d0, 0xa9f0, 0xaa50, 0xabf0, 0xff10, 0x104a0,
  0x10d30, 0x11066, 0x110f0, 0x11136, 0x111d0, 0x112f0, 0x11450, 0x114d0, 0x11650, 0x116c0,
  0x11730, 0x118e0, 0x11950, 0x11c50, 0x11d50, 0x11da0, 0x16a60, 0x16ac0, 0x16b50, 0x1d7ce,
  0x1d7d8, 0x1d7e2, 0x1d7ec, 0x1d7f6, 0x1e140, 0x1e2f0, 0x1e950, 0x1fbf0]

/-- The place of `n` in the block of one of these zeros. -/
def digitFrom : List Nat → Nat → Option Nat
  | [], _ => none
  | start :: rest, n =>
    if n < start then none else if n < start + 10 then some (n - start) else digitFrom rest n

/-- The value of a decimal digit of any script. -/
def digitValue? (c : Char) : Option Nat := digitFrom zeros c.toNat

def isDigit (c : Char) : Bool := (digitValue? c).isSome

def isAsciiLetter (c : Char) : Bool := ('a' ≤ c && c ≤ 'z') || ('A' ≤ c && c ≤ 'Z')

/-- Letters, decimal digits and the other characters with a numeric value. -/
def isAlnum (c : Char) : Bool :=
  isAsciiLetter c || isDigit c || inRanges alnumRanges c.toNat

/-- A word begins with an ASCII letter or an underscore. -/
def isWordStart (c : Char) : Bool := isAsciiLetter c || c == '_'

/-- A word goes on with letters and numbers of any script and underscores. -/
def isWordChar (c : Char) : Bool := isAlnum c || c == '_'

theorem isAlnum_of_isDigit {c : Char} (h : isDigit c = true) : isAlnum c = true := by
  simp [isAlnum, h]

theorem isWordChar_of_isWordStart {c : Char} (h : isWordStart c = true) : isWordChar c = true := by
  simp only [isWordStart, isWordChar, isAlnum, Bool.or_eq_true] at h ⊢
  exact h.imp (fun h => .inl (.inl h)) id

end BindingPower.Text
