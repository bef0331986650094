import BindingPower.Fault
import BindingPower.Text.Classes
import BindingPower.Number.Binary64

/-! Numbers read from text: decimal digits of any script, grouped by single underscores, with blanks
around them. Integers are read and written up to a limit of digits. -/
namespace BindingPower.Number
open Text

/-- The blanks allowed around a number: all but the information separators. -/
def isPadding (c : Char) : Bool := isBlank c && !(0x1c ≤ c.toNat && c.toNat ≤ 0x1f)

def trim (cs : List Char) : List Char :=
  ((cs.dropWhile isPadding).reverse.dropWhile isPadding).reverse

/-- Drops each underscore between two digits and refuses every other one. The flag says whether a
digit stands before the text. -/
def ungroup : Bool → List Char → Option (List Char)
  | _, [] => some []
  | afterDigit, c :: rest =>
    if c = '_' then
      if afterDigit && rest.head?.any isDigit then ungroup false rest else none
    else (ungroup (isDigit c) rest).map (c :: ·)

/-- Whether the text begins with a minus, and what follows its sign. -/
def splitSign : List Char → Bool × List Char
  | '-' :: rest => (true, rest)
  | '+' :: rest => (false, rest)
  | cs => (false, cs)

/-- The value of a row of digits, other characters counting nothing. -/
def digitsValue (cs : List Char) : Nat :=
  cs.foldl (fun n c => 10 * n + (digitValue? c).getD 0) 0

/-- The integer a text denotes. Digits past the limit are refused before what may stand behind
them. -/
def readInteger (text : String) : Except Fault Int :=
  let (negative, cs) := splitSign (trim text.toList)
  let inRow (c : Char) : Bool := isDigit c || c = '_'
  match ungroup false (cs.takeWhile inRow) with
  | none => .error (.notInteger text)
  | some row =>
    if digitLimit < row.length then .error (.longNumeral row.length)
    else if row.isEmpty || !(cs.dropWhile inRow).isEmpty then .error (.notInteger text)
    else .ok (if negative then -(digitsValue row) else digitsValue row)

/-- Whether an integer has more digits than are written. -/
def isLong (i : Int) : Bool := digitLimit < (Nat.toDigits 10 i.natAbs).length

/-- The text of an integer. -/
def writeInteger (i : Int) : Except Fault String :=
  if isLong i then .error .longInteger else .ok (toString i)

/-- The exponent a text consists of, zero for an empty one. -/
def readExponent? : List Char → Option Int
  | [] => some 0
  | e :: rest =>
    let (negative, cs) := splitSign rest
    if (e = 'e' || e = 'E') && !cs.isEmpty && cs.all isDigit then
      some (if negative then -(digitsValue cs) else digitsValue cs)
    else none

/-- The floating number nearest to `n * 10 ^ k`. Past four hundred places either way the answer is
infinity or zero, whatever the digits. -/
def ofDecimal (negative : Bool) (n : Nat) (k : Int) : Float :=
  let places := k + Int.ofNat (n.log2 * 30103 / 100000)
  if n = 0 || places < -400 then ofMagnitude negative 0
  else if 400 < places then infinity negative
  else (nearest? negative (n * tenTo k.toNat) (tenTo (-k).toNat)).getD (infinity negative)

/-- The floating number a text denotes: digits with at most one point among them, then an
exponent. -/
def readDecimal? (text : String) : Option Float := do
  let (negative, cs) := splitSign (← ungroup false (trim text.toList))
  let whole := cs.takeWhile isDigit
  let rest := cs.dropWhile isDigit
  let (fraction, rest) := match rest with
    | '.' :: rest => (rest.takeWhile isDigit, rest.dropWhile isDigit)
    | _ => ([], rest)
  if whole.isEmpty && fraction.isEmpty then none
  else
    let e ← readExponent? rest
    some (ofDecimal negative (digitsValue (whole ++ fraction)) (e - fraction.length))

end BindingPower.Number
