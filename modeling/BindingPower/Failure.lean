import BindingPower.Fault
import BindingPower.Token.Profile

/-! How a parse fails: at a token, at a character, or in what an operator computes. -/
namespace BindingPower

inductive ParseError where
  /-- An expression begins with a token that cannot begin one. -/
  | missingPrefix (pos : Int) (token : Option Profile)
  /-- A token binds tightly enough to continue an expression and cannot. -/
  | missingInfix (pos : Int) (token : Option Profile)
  /-- The token is not what a handler or the end of the parse demands. -/
  | unexpected (pos : Int) (token : Option Profile) (expected : String)
  /-- The text at a character position is no token. -/
  | lexical (pos : Int) (text : String)
deriving Repr, DecidableEq

namespace ParseError

def pos : ParseError → Int
  | missingPrefix pos _ | missingInfix pos _ | unexpected pos _ _ | lexical pos _ => pos

/-- The offending token. -/
def token : ParseError → Option Profile
  | missingPrefix _ token | missingInfix _ token | unexpected _ token _ => token
  | lexical _ _ => none

def message : ParseError → String
  | missingPrefix pos token => "Parse error at token " ++ toString pos ++ ": unexpected " ++
      Profile.mention token ++ ", expecting an expression"
  | missingInfix pos token => "Parse error at token " ++ toString pos ++ ": " ++
      Profile.mention token ++ " cannot follow an expression"
  | unexpected pos token expected => "Parse error at token " ++ toString pos ++ ": unexpected " ++
      Profile.mention token ++ ", expecting " ++ expected
  | lexical pos text => "Lex error at character " ++ toString pos ++ ": unexpected character " ++
      Text.quoted text

end ParseError

inductive Failure where
  | parse (error : ParseError)
  | fault (cause : Fault)
  /-- The bound on nested dispatches is used up, which the bound taken by a parser rules out. -/
  | spent
deriving Repr, DecidableEq

namespace Failure

def message : Failure → String
  | parse error => error.message
  | fault cause => cause.message
  | spent => "too many dispatches"

end Failure

end BindingPower
