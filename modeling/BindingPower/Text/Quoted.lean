import BindingPower.Text.Ranges
import BindingPower.Text.PrintableTable

/-! Texts written between quotes, as they stand in messages and inside lists: what cannot be shown
is written by its number, the quote in use and the backslash behind a backslash. -/
namespace BindingPower.Text

/-- The last `width` hexadecimal digits of a number, lower-case, the most significant first. -/
def hex : Nat → Nat → List Char
  | 0, _ => []
  | width + 1, n => hex width (n / 16) ++ [(n % 16).digitChar]

/-- Whether a character stands for itself between quotes. -/
def isPrintable (c : Char) : Bool :=
  if 0x20 ≤ c.toNat && c.toNat < 0x7f then true else !inRanges escapedRanges c.toNat

/-- The written form of one character between quotes of the kind `quote`. -/
def escape (quote c : Char) : List Char :=
  if c = quote || c = '\\' then ['\\', c]
  else if c = '\n' then ['\\', 'n']
  else if c = '\r' then ['\\', 'r']
  else if c = '\t' then ['\\', 't']
  else if isPrintable c then [c]
  else if c.toNat < 0x100 then '\\' :: 'x' :: hex 2 c.toNat
  else if c.toNat < 0x10000 then '\\' :: 'u' :: hex 4 c.toNat
  else '\\' :: 'U' :: hex 8 c.toNat

/-- Single quotes, unless the text holds one and no double quote. -/
def quoteFor (cs : List Char) : Char :=
  if cs.contains '\'' && !cs.contains '"' then '"' else '\''

def quotedChars (cs : List Char) : List Char :=
  let quote := quoteFor cs
  quote :: (cs.flatMap (escape quote) ++ [quote])

/-- A text between quotes. -/
def quoted (s : String) : String := .ofList (quotedChars s.toList)

/-- A text between quotes, or the word for an absent one. -/
def quoted? : Option String → String
  | none => "None"
  | some s => quoted s

end BindingPower.Text
