import BindingPower.Script

/-! The kinds of tokens and what each does where an expression starts and where one goes on. Values
are of any type: a grammar that computes and one that builds trees differ in it alone. -/
namespace BindingPower

inductive Kind (V : Type) where
  /-- Handlers given as steps; `build` makes the result of the operand, if any, and the answers. -/
  | scripted (nud led : Option (List Step)) (build : Option V → List (Item V) → V)
  /-- The same on an object that is no token. It has a name or not, and it may say whether it ends
  the input, or leave that open. -/
  | duck (named : Bool) (isEnd : Option (Option Bool)) (nud led : Option (List Step))
      (build : Option V → List (Item V) → V)
  | endToken
  | literal (value : V)
  /-- A digit makes a number, or extends the operand on its left if the two join. -/
  | digit (value : Int) (make : Int → Except Fault V) (extend : V → Int → Except Fault V)
      (joins : V → Except Fault Bool)
  | infixOp (assoc : Assoc) (fn : V → V → Except Fault V)
  | prefixOp (rbp : Int) (fn : V → Except Fault V)
  /-- Infix after an operand, prefix elsewhere. -/
  | bifix (assoc : Assoc) (infixFn : V → V → Except Fault V) (prefixRbp : Int)
      (prefixFn : V → Except Fault V)
  | postfixOp (fn : V → Except Fault V)
  | group (close : Matcher) (wrap : Option (V → Except Fault V))
  /-- Has no handlers: other tokens demand it. -/
  | keyword
  | ternary (separator : Matcher) (fn : V → V → V → Except Fault V)
  | conditional (thenMark elseMark endMark : Matcher) (fn : V → V → Option V → Except Fault V)
  /-- Reports each use under a label, quoting the operand on its left, then does what the token of
  this identity and kind does. -/
  | traced (label : String) (quote : V → Except Fault String) (identity : Identity)
      (inner : Kind V)

namespace Kind
variable {V : Type}

def cls : Kind V → TokenClass
  | scripted .. | traced .. => .token
  | duck .. => .duck
  | endToken => .endToken
  | literal .. => .literal
  | digit .. => .digit
  | infixOp .. => .infixOp
  | prefixOp .. => .prefixOp
  | bifix .. => .bifix
  | postfixOp .. => .postfixOp
  | group .. => .group
  | keyword => .keyword
  | ternary .. => .ternary
  | conditional .. => .conditional

def isEnd : Kind V → Bool
  | endToken => true
  | duck _ isEnd .. => isEnd = some (some true)
  | _ => false

/-- Infix operators have an associativity, and a trace shows that of what it wraps. -/
def assoc : Kind V → Option Assoc
  | infixOp assoc _ | bifix assoc .. => some assoc
  | traced _ _ _ inner => inner.assoc
  | _ => none

def profile (identity : Identity) (lbp : Int) (name : Option String) (k : Kind V) : Profile :=
  ⟨identity, k.cls, lbp, name, k.isEnd, k.assoc⟩

def runScript (build : Option V → List (Item V) → V) (left : Option V) (steps : List Step) :
    Action V V :=
  (Step.collect steps).map (build left)

/-- What a token of the kind does at the start of an expression. -/
def nud : Kind V → Option (Action V V)
  | scripted steps _ build | duck _ _ steps _ build => steps.map (runScript build none)
  | literal value => some (.done value)
  | digit value make _ _ => some (.finish (make value))
  | prefixOp rbp fn | bifix _ _ rbp fn => some (.expression rbp fun x => .finish (fn x))
  | group close wrap => some <|
      .expression 0 fun x => .expect close fun _ =>
        match wrap with
        | none => .done x
        | some wrap => .finish (wrap x)
  | conditional thenMark elseMark endMark fn => some <|
      .expression 0 fun cond => .expect thenMark fun _ => .expression 0 fun yes =>
        .attempt elseMark fun
          | true => .expression 0 fun no => .expect endMark fun _ => .finish (fn cond yes (some no))
          | false => .expect endMark fun _ => .finish (fn cond yes none)
  | traced label _ _ inner => inner.nud.map fun action =>
      .look fun _ pos => .emit (.entered label .nud (pos - 1) none) action
  | endToken | infixOp .. | postfixOp .. | keyword | ternary .. => none

/-- Whether a token is a non-associative operator of this power. -/
def chains (lbp : Int) (following : Option Profile) : Bool :=
  following.any fun p => p.lbp = lbp && p.assoc = some .none

/-- The end of an infix operator with both operands: a non-associative one refuses another of its
power after its right operand. -/
def combine (lbp : Int) (name : Option String) (assoc : Assoc)
    (fn : V → V → Except Fault V) (left right : V) : Action V V :=
  if assoc = .none then
    .look fun following pos =>
      if chains lbp following then
        .fail (.parse (.unexpected pos following
          ("no chained operator after " ++ Text.quoted? name)))
      else .finish (fn left right)
  else .finish (fn left right)

/-- What a token of the kind, with an identity, power and name, does after an operand. -/
def led (identity : Identity) (lbp : Int) (name : Option String) :
    Kind V → Option (V → Action V V)
  | scripted _ steps build | duck _ _ _ steps build =>
      steps.map fun steps left => runScript build (some left) steps
  | digit value make extend joins => some fun left =>
      match joins left with
      | .error f => .fail (.fault f)
      | .ok true => .finish (extend left value)
      | .ok false => .look fun _ pos => .fail (.parse (.unexpected (pos - 1)
          (some (profile identity lbp name (digit value make extend joins))) "an operator"))
  | infixOp assoc fn | bifix assoc fn _ _ => some fun left =>
      .expression (rightPower lbp assoc) fun right => combine lbp name assoc fn left right
  | postfixOp fn => some fun left => .finish (fn left)
  | ternary separator fn => some fun left =>
      .expression 0 fun yes => .expect separator fun _ => .expression (lbp - 1) fun no =>
        .finish (fn left yes no)
  | traced label quote inside inner => (inner.led inside lbp name).map fun action left =>
      .look fun _ pos =>
        match quote left with
        | .error f => .fail (.fault f)
        | .ok text => .emit (.entered label .led (pos - 1) (some text)) (action left)
  | endToken | literal .. | prefixOp .. | group .. | keyword | conditional .. => none

end Kind

end BindingPower
