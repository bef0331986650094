import BindingPower.Token.Profile

/-! What a parse reports while it runs. -/
namespace BindingPower

/-- The two uses of a token: at the start of an expression, or after one. -/
inductive Role where
  | nud
  | led
deriving Repr, DecidableEq

def Role.name : Role → String
  | nud => "nud"
  | led => "led"

inductive Event where
  /-- The parser hands over to a token. -/
  | dispatch (role : Role) (token : Profile) (pos : Int)
  /-- A traced token is entered, after an operand where it follows one. -/
  | entered (label : String) (role : Role) (pos : Int) (left : Option String)
deriving Repr, DecidableEq

def Event.line : Event → String
  | dispatch role token pos =>
      role.name ++ " " ++ Profile.mention (some token) ++ " at token " ++ toString pos
  | entered label role pos left =>
      label ++ ": " ++ role.name ++ " at token " ++ toString pos ++
        match left with
        | none => ""
        | some left => " after " ++ left

/-- The lines of a log, each ended. -/
def Event.lines (log : List Event) : String := String.join (log.map fun e => e.line ++ "\n")

end BindingPower
