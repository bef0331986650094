import BindingPower.Value.Arithmetic
import BindingPower.Token.Basic

/-! What digits make of themselves and of the operand on their left. -/
namespace BindingPower

/-- What a digit makes where a number starts. -/
inductive Making where
  | integer
  | float
  | node
  | list
  | text
deriving Repr, DecidableEq

def Making.apply : Making → Int → Except Fault Value
  | integer, d => .ok (.int d)
  | float, d => (Value.Scalar.int d).real.map .float
  | node, d => .ok (.number (.int d))
  | list, d => .ok (.list [.int d])
  | text, d => (Number.writeInteger d).map .text

/-- How a digit extends an operand. -/
inductive Extension where
  /-- A further decimal place. -/
  | decimal
  | octal
  /-- A further decimal place of the number in a leaf. -/
  | node
  /-- A further item of a list. -/
  | list
deriving Repr, DecidableEq

def Extension.apply : Extension → Value → Int → Except Fault Value
  | decimal, v, d => v.appendDigit d
  | octal, v, d => do (← v.mul (.int 8)).add (.int d)
  | node, .number v, d => (v.appendDigit d).map .number
  | node, v, _ => .error (.missingMember v.kindName "number")
  | list, v, d => v.add (.list [.int d])

/-- Which operands a digit joins to. -/
inductive Joining where
  | always
  | never
  | toNumbers
  | toNonnegative
  | toTrue
deriving Repr, DecidableEq

def Joining.apply : Joining → Value → Except Fault Bool
  | always, _ => .ok true
  | never, _ => .ok false
  | toNumbers, .number _ => .ok true
  | toNumbers, _ => .ok false
  | toNonnegative, v => v.related .ge (.int 0)
  | toTrue, v => .ok v.truth

/-- A digit of ten with these rules. -/
def Token.digitBy (lbp value : Int) (make : Making) (extend : Extension) (joins : Joining) :
    Except Fault (Token Value) :=
  Token.digit lbp value make.apply extend.apply joins.apply

/-- The ten digits, each with its token, as entries of the table of a name. -/
def digitEntries (table : String) (make : Making) (extend : Extension) (joins : Joining) :
    List (String × Token Value) :=
  ["0", "1", "2", "3", "4", "5", "6", "7", "8", "9"].zipIdx.map fun (s, d) =>
    (s, ⟨.entry table s, Token.digitPower, some s, .digit d make.apply extend.apply joins.apply⟩)

end BindingPower
