import BindingPower.Text.Quoted

/-! What of a token is seen from outside: which one it is, its class, binding power, name and
associativity, but not what it does. -/
namespace BindingPower

/-- How an operator groups with another of its own binding power. -/
inductive Assoc where
  | none
  | left
  | right
deriving Repr, DecidableEq

/-- The power below which the right operand of an operator ends. -/
def rightPower (lbp : Int) : Assoc → Int
  | .right => lbp - 1
  | _ => lbp

/-- Which token it is. Tokens made on the fly are anonymous and the same as no other. -/
inductive Identity where
  | anonymous
  | sentinel
  | entry (table lexeme : String)
  | declared (number : Nat)
deriving Repr, DecidableEq

inductive TokenClass where
  | token
  | endToken
  | literal
  | digit
  | infixOp
  | prefixOp
  | bifix
  | postfixOp
  | group
  | keyword
  | ternary
  | conditional
  /-- An object that acts as a token without being one. -/
  | duck
deriving Repr, DecidableEq

namespace TokenClass

def name : TokenClass → String
  | token => "Token"
  | endToken => "EndToken"
  | literal => "Literal"
  | digit => "Digit"
  | infixOp => "Infix"
  | prefixOp => "Prefix"
  | bifix => "Bifix"
  | postfixOp => "Postfix"
  | group => "Group"
  | keyword => "Keyword"
  | ternary => "Ternary"
  | conditional => "Conditional"
  | duck => "Duck"

/-- Every class but that of the ducks is a token class, and a bifix operator is an infix one. -/
def isA (c d : TokenClass) : Bool :=
  c = d || (d = token && c ≠ duck) || (c = bifix && d = infixOp)

end TokenClass

structure Profile where
  identity : Identity
  cls : TokenClass
  lbp : Int
  name : Option String
  isEnd : Bool
  assoc : Option Assoc
deriving Repr, DecidableEq

namespace Profile

/-- Whether both are of one and the same token. -/
def same (p q : Profile) : Bool := p.identity ≠ .anonymous && p.identity = q.identity

/-- The class of a token with its name and binding power. -/
def shown (p : Profile) : String :=
  if p.cls = .duck then "Duck()" else
    let power := "lbp=" ++ toString p.lbp ++ ")"
    p.cls.name ++ "(" ++ match p.name with
      | none => power
      | some name => Text.quoted name ++ ", " ++ power

/-- The token as messages mention it. -/
def mention : Option Profile → String
  | none => "None"
  | some p => if p.isEnd then "end of input" else
      match p.name with
      | some name => Text.quoted name
      | none => p.shown

end Profile

end BindingPower
