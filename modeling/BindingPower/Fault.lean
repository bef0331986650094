import BindingPower.Text.Quoted

/-! What can go wrong apart from the parse itself: in building tokens and tables, in reading numbers
and in the functions of operators. Kinds of values are given by their names. -/
namespace BindingPower

/-- The most digits of an integer that is read from a text or written as one. -/
def digitLimit : Nat := 4300

/-- The numbers a division takes place in. -/
inductive Domain where
  | integer
  | real
  | complex
deriving Repr, DecidableEq

inductive Fault where
  | negativePower (power : Int)
  | operatorPower (name : Option String)
  | emptyLexeme
  | notInteger (text : String)
  /-- A text with more digits than an integer is read from. -/
  | longNumeral (digits : Nat)
  /-- An integer with more digits than are written. -/
  | longInteger
  | notDecimal (text : String)
  | notMatcher (shown : String)
  | alreadyRun
  | missingMember (kind member : String)
  /-- A function of fixed arity got another number of operands. -/
  | wrongCount (function : String) (arity given : Nat)
  | notText (kind : String)
  | unsupported (operator left right : String)
  | badOperand (operator kind : String)
  | unordered (operator left right : String)
  | notConcatenable (kind other : String)
  | notRepeatable (kind : String)
  | hugeRepetition
  | longText
  | outOfMemory
  | divisionByZero (domain : Domain)
  | zeroToNegative
  | zeroToComplex
  | quotientOverflow
  | conversionOverflow
  | powerOverflow
  | complexPowerOverflow
deriving Repr, DecidableEq

namespace Fault

/-- Failures of arithmetic, as opposed to misuse. -/
def isArithmetic : Fault → Bool
  | divisionByZero _ | zeroToNegative | zeroToComplex => true
  | quotientOverflow | conversionOverflow | powerOverflow | complexPowerOverflow => true
  | hugeRepetition | longText => true
  | _ => false

def single (s : String) : String := "'" ++ s ++ "'"

/-- What is wrong with the length of an integer, with something said of the value in between. -/
def overLimit (value : String) : String :=
  "Exceeds the limit (" ++ toString digitLimit ++ " digits) for integer string conversion" ++ value ++
    "; use sys.set_int_max_str_digits() to increase the limit"

def message : Fault → String
  | negativePower power => "binding power must be >= 0, got " ++ toString power
  | operatorPower name => "operator " ++ Text.quoted? name ++ " needs a binding power >= 1"
  | emptyLexeme => "a token table cannot map the empty lexeme"
  | notInteger text => "invalid literal for int() with base 10: " ++
      .ofList ((Text.quotedChars text.toList).take 200)
  | longNumeral digits => overLimit (": value has " ++ toString digits ++ " digits")
  | longInteger => overLimit ""
  | notDecimal text => "could not convert string to float: " ++ Text.quoted text
  | notMatcher shown => "cannot match tokens against " ++ shown
  | alreadyRun => "a PrattParser can only be run once"
  | missingMember kind member =>
      single kind ++ " object has no attribute " ++ single member
  | wrongCount function 1 given =>
      "_operator." ++ function ++ "() takes exactly one argument (" ++ toString given ++ " given)"
  | wrongCount function arity given =>
      function ++ " expected " ++ toString arity ++ " arguments, got " ++ toString given
  | notText kind => "__str__ returned non-string (type " ++ kind ++ ")"
  | unsupported operator left right =>
      "unsupported operand type(s) for " ++ operator ++ ": " ++ single left ++ " and " ++
        single right
  | badOperand operator kind => "bad operand type for unary " ++ operator ++ ": " ++ single kind
  | unordered operator left right =>
      single operator ++ " not supported between instances of " ++ single left ++ " and " ++
        single right
  | notConcatenable kind other =>
      "can only concatenate " ++ kind ++ " (not \"" ++ other ++ "\") to " ++ kind
  | notRepeatable kind => "can't multiply sequence by non-int of type " ++ single kind
  | hugeRepetition => "cannot fit 'int' into an index-sized integer"
  | longText => "repeated string is too long"
  | outOfMemory => ""
  | divisionByZero .integer => "division by zero"
  | divisionByZero .real => "float division by zero"
  | divisionByZero .complex => "complex division by zero"
  | zeroToNegative => "0.0 cannot be raised to a negative power"
  | zeroToComplex => "0.0 to a negative or complex power"
  | quotientOverflow => "integer division result too large for a float"
  | conversionOverflow => "int too large to convert to float"
  | powerOverflow => "(34, 'Numerical result out of range')"
  | complexPowerOverflow => "complex exponentiation"

end Fault

end BindingPower
