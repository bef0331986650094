import BindingPower.Action

/-! Handlers given as lists of steps. -/
namespace BindingPower

inductive Step where
  | expression (rbp : Int)
  | expect (matcher : Matcher)
  | attempt (matcher : Matcher)
  | advance
  | peek
  | position

/-- What a step answers: the value of an expression, a token if there is one, whether it consumed
something, or a position. -/
inductive Item (V : Type) where
  | value (v : V)
  | token (token : Option Profile)
  | flag (b : Bool)
  | index (i : Int)

variable {V : Type}

def Step.action : Step → Action V (Item V)
  | expression rbp => .expression rbp fun v => .done (.value v)
  | expect matcher => .expect matcher fun p => .done (.token p)
  | attempt matcher => .attempt matcher fun b => .done (.flag b)
  | advance => .advance fun p => .done (.token p)
  | peek => .look fun p _ => .done (.token p)
  | position => .look fun _ pos => .done (.index pos)

/-- The steps in order, with their answers. -/
def Step.collect : List Step → Action V (List (Item V))
  | [] => .done []
  | step :: rest => step.action.bind fun item => (collect rest).map (item :: ·)

end BindingPower
