import BindingPower.Number.Numeral
import BindingPower.Token.Kind

/-! Tokens: a kind with an identity, a binding power and a name. The constructors that check refuse
a negative binding power, and for an operator that follows its operand also zero. -/
namespace BindingPower

structure Token (V : Type) where
  identity : Identity
  lbp : Int
  name : Option String
  kind : Kind V

namespace Token
variable {V : Type}

def profile (t : Token V) : Profile := t.kind.profile t.identity t.lbp t.name

def isEnd (t : Token V) : Bool := t.kind.isEnd

/-- The name, if there is one to ask for: every token has it, but it may be nothing. -/
def nameProperty (t : Token V) : Option (Option String) :=
  match t.kind with
  | .duck false .. => none
  | _ => some t.name

/-- Whether the token ends the input, if it can be asked: every token can. -/
def endProperty (t : Token V) : Option (Option Bool) :=
  match t.kind with
  | .duck _ isEnd .. => isEnd
  | _ => some (some t.isEnd)

def nud (t : Token V) : Option (Action V V) := t.kind.nud

def led (t : Token V) : Option (V → Action V V) := t.kind.led t.identity t.lbp t.name

def assoc (t : Token V) : Option Assoc := t.kind.assoc

/-- The power down to which an operator takes its operand. -/
def rbp (t : Token V) : Option Int :=
  match t.kind with
  | .infixOp assoc _ | .bifix assoc .. => some (rightPower t.lbp assoc)
  | .prefixOp rbp _ => some rbp
  | _ => none

/-- The power down to which a bifix operator takes its operand as a prefix. -/
def prefixRbp (t : Token V) : Option Int :=
  match t.kind with
  | .bifix _ _ rbp _ => some rbp
  | _ => none

/-- The mark that the input has ended, delivered for every token that ends it. -/
def sentinel : Token V := ⟨.sentinel, 0, some "(end)", .endToken⟩

/-- Prefix operators bind tighter than every customary infix operator. -/
def prefixPower : Int := 1000

/-- Digits bind tighter than prefix operators. -/
def digitPower : Int := 1000000

def checked (t : Token V) : Except Fault (Token V) :=
  if t.lbp < 0 then .error (.negativePower t.lbp) else .ok t

def checkedOperator (name : Option String) (t : Token V) : Except Fault (Token V) :=
  if t.lbp < 1 then .error (.operatorPower name) else .ok t

def scripted (lbp : Int) (name : Option String) (nud led : Option (List Step))
    (build : Option V → List (Item V) → V) : Except Fault (Token V) :=
  checked ⟨.anonymous, lbp, name, .scripted nud led build⟩

/-- An object with some of the properties of a token; one that is there may still say nothing. -/
def duck (lbp : Int) (name : Option (Option String)) (isEnd : Option (Option Bool))
    (nud led : Option (List Step)) (build : Option V → List (Item V) → V) : Token V :=
  ⟨.anonymous, lbp, name.join, .duck name.isSome isEnd nud led build⟩

def endToken : Token V := { sentinel with identity := .anonymous }

def literal (name : String) (lbp : Int) (value : V) : Except Fault (Token V) :=
  checked ⟨.anonymous, lbp, some name, .literal value⟩

def digit (lbp : Int) (value : Int) (make : Int → Except Fault V)
    (extend : V → Int → Except Fault V) (joins : V → Except Fault Bool) :
    Except Fault (Token V) := do
  let name ← Number.writeInteger value
  checked ⟨.anonymous, lbp, some name, .digit value make extend joins⟩

def infixOp (name : Option String) (lbp : Int) (assoc : Assoc) (fn : V → V → Except Fault V) :
    Except Fault (Token V) :=
  checkedOperator name ⟨.anonymous, lbp, name, .infixOp assoc fn⟩

def prefixOp (name : Option String) (lbp rbp : Int) (fn : V → Except Fault V) :
    Except Fault (Token V) :=
  checked ⟨.anonymous, lbp, name, .prefixOp rbp fn⟩

def bifix (name : Option String) (lbp : Int) (assoc : Assoc) (infixFn : V → V → Except Fault V)
    (prefixRbp : Int) (prefixFn : V → Except Fault V) : Except Fault (Token V) :=
  checkedOperator name ⟨.anonymous, lbp, name, .bifix assoc infixFn prefixRbp prefixFn⟩

def postfixOp (name : Option String) (lbp : Int) (fn : V → Except Fault V) :
    Except Fault (Token V) :=
  checkedOperator name ⟨.anonymous, lbp, name, .postfixOp fn⟩

def group (name : Option String) (lbp : Int) (close : Matcher)
    (wrap : Option (V → Except Fault V)) : Except Fault (Token V) :=
  checked ⟨.anonymous, lbp, name, .group close wrap⟩

def keyword (name : Option String) (lbp : Int) : Except Fault (Token V) :=
  checked ⟨.anonymous, lbp, name, .keyword⟩

def ternary (name : Option String) (lbp : Int) (separator : Matcher)
    (fn : V → V → V → Except Fault V) : Except Fault (Token V) :=
  checkedOperator name ⟨.anonymous, lbp, name, .ternary separator fn⟩

def conditional (name : Option String) (thenMark elseMark endMark : Matcher)
    (fn : V → V → Option V → Except Fault V) : Token V :=
  ⟨.anonymous, 0, name, .conditional thenMark elseMark endMark fn⟩

/-- The token with every use reported under a label, its own mention where none is given. It keeps
the power, the name and the associativity, and is a plain token to matchers. -/
def traced (quote : V → Except Fault String) (label : Option String) (t : Token V) :
    Except Fault (Token V) :=
  checked ⟨.anonymous, t.lbp, t.name,
    .traced (label.getD (Profile.mention (some t.profile))) quote t.identity t.kind⟩

@[simp] theorem isEnd_sentinel : (sentinel : Token V).isEnd = true := rfl

@[simp] theorem nud_sentinel : (sentinel : Token V).nud = none := rfl

@[simp] theorem led_sentinel : (sentinel : Token V).led = none := rfl

end Token

end BindingPower
