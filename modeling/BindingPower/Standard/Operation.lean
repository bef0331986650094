import BindingPower.Script
import BindingPower.Value.Arithmetic

/-! What operators compute from their operands: arithmetic, comparisons, choices, nodes of a tree,
or a plain list of what the operator got. -/
namespace BindingPower

namespace Value

def eq (v w : Value) : Except Fault Value := .ok (.bool (v.equal w))

def ne (v w : Value) : Except Fault Value := .ok (.bool !(v.equal w))

def compareBy (r : Relation) (v w : Value) : Except Fault Value := (v.related r w).map .bool

/-- One of two values by the truth of a third, nothing for a branch that is left out. -/
def choose (cond yes : Value) (otherwise : Option Value) : Except Fault Value :=
  .ok (if cond.truth then yes else otherwise.getD .absent)

/-- The node of a choice. -/
def choiceNode (cond yes : Value) (otherwise : Option Value) : Except Fault Value :=
  .ok (.choice cond yes (otherwise.getD .absent))

def unaryNode (operator : String) (v : Value) : Except Fault Value :=
  .ok (.unary (text operator) v)

def binaryNode (operator : String) (v w : Value) : Except Fault Value :=
  .ok (.binary (text operator) v w)

/-- What a script answers, as a value. -/
def ofItem : Item Value → Value
  | .value v => v
  | .token none => absent
  | .token (some t) => token t
  | .flag b => bool b
  | .index i => int i

/-- The result of a script: the token's name, the operand if there was one, and the answers. -/
def scriptResult (name : Option String) (left : Option Value) (answers : List (Item Value)) :
    Value :=
  list (ofName name :: (left.toList ++ answers.map ofItem))

end Value

/-- The functions an operator can be given by name. -/
inductive Operation where
  | list
  | node
  | choose
  | add
  | sub
  | mul
  | div
  | pow
  | eq
  | ne
  | related (r : Value.Relation)
  | neg
  | pos
deriving Repr, DecidableEq

namespace Operation
open Value

def label : Operation → String
  | list => "list"
  | node => "node"
  | choose => "choose"
  | add => "add"
  | sub => "sub"
  | mul => "mul"
  | div => "truediv"
  | pow => "pow"
  | eq => "eq"
  | ne => "ne"
  | related .lt => "lt"
  | related .le => "le"
  | related .gt => "gt"
  | related .ge => "ge"
  | neg => "neg"
  | pos => "pos"

/-- How many operands the function takes, where that is fixed. Lists take any number, and nodes
have up to three. -/
def arity : Operation → Nat
  | list | node | choose => 3
  | neg | pos => 1
  | _ => 2

/-- The function on some operands, for the operator of a name. -/
def apply (name : Option String) : Operation → List Value → Except Fault Value
  | list, vs => .ok (.list (ofName name :: vs))
  | node, [v] => .ok (.unary (ofName name) v)
  | node, [v, w] => .ok (.binary (ofName name) v w)
  | node, [c, v, w] => c.choiceNode v (some w)
  | choose, [c, v, w] => c.choose v (some w)
  | add, [v, w] => v.add w
  | sub, [v, w] => v.sub w
  | mul, [v, w] => v.mul w
  | div, [v, w] => v.div w
  | pow, [v, w] => v.pow w
  | eq, [v, w] => v.eq w
  | ne, [v, w] => v.ne w
  | related r, [v, w] => compareBy r v w
  | neg, [v] => v.neg
  | pos, [v] => v.pos
  | op, vs => .error (.wrongCount op.label op.arity vs.length)

/-- The function of one operand. -/
def unary (name : Option String) (op : Operation) (v : Value) : Except Fault Value :=
  op.apply name [v]

/-- The function of two operands. -/
def binary (name : Option String) (op : Operation) (v w : Value) : Except Fault Value :=
  op.apply name [v, w]

/-- The function of a condition and two branches, the second of which may be left out. -/
def choice (name : Option String) (op : Operation) (c v : Value) (w : Option Value) :
    Except Fault Value :=
  op.apply name [c, v, w.getD absent]

end Operation

end BindingPower
