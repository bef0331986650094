import BindingPower.Number.Complex
import BindingPower.Token.Profile

/-! The values a grammar computes: truth values, numbers, texts, lists, tokens, and syntax trees
over them. -/
namespace BindingPower

inductive Value where
  /-- No value, as of a branch that is left out. -/
  | absent
  | bool (b : Bool)
  | int (i : Int)
  | float (x : Float)
  /-- A floating number that is none, given with a mark. It is not equal to itself, but a list or
  tree it is part of is: there it is told from others by the mark. -/
  | nan (mark : Nat)
  | complex (z : Number.ComplexFloat)
  | text (s : String)
  | list (items : List Value)
  | token (t : Profile)
  /-- Leaves of a tree. Words and operators are texts, but nothing here demands it. -/
  | number (value : Value)
  | name (word : Value)
  /-- Inner nodes of a tree. A choice without an `otherwise` has none there. -/
  | unary (operator operand : Value)
  | binary (operator left right : Value)
  | choice (cond yes otherwise : Value)

namespace Value

def kindName : Value → String
  | absent => "NoneType"
  | bool _ => "bool"
  | int _ => "int"
  | float _ | nan _ => "float"
  | complex _ => "complex"
  | text _ => "str"
  | list _ => "list"
  | token t => t.cls.name
  | number _ => "NumberNode"
  | name _ => "NameNode"
  | unary .. => "UnaryNode"
  | binary .. => "BinaryNode"
  | choice .. => "IfNode"

/-- Whether the value is a node of a tree. -/
def isTree : Value → Bool
  | number _ | name _ | unary .. | binary .. | choice .. => true
  | _ => false

def isAbsent : Value → Bool
  | absent => true
  | _ => false

/-- A number as one of three kinds; a truth value counts as the integer zero or one. -/
inductive Scalar where
  | int (i : Int)
  | float (x : Float)
  | complex (z : Number.ComplexFloat)

def scalar? : Value → Option Scalar
  | bool b => some (.int (if b then 1 else 0))
  | int i => some (.int i)
  | float x => some (.float x)
  | nan _ => some (.float Number.notNumber)
  | complex z => some (.complex z)
  | _ => none

/-- What a condition takes for true: every value but nothing, zero and what is empty. -/
def truth : Value → Bool
  | absent => false
  | bool b => b
  | int i => i ≠ 0
  | float x => !(x == 0)
  | complex z => !z.isZero
  | text s => s ≠ ""
  | list items => !items.isEmpty
  | _ => true

/-- A name as a value. -/
def ofName : Option String → Value
  | none => absent
  | some s => text s

end Value

end BindingPower
