import BindingPower.Fault
import BindingPower.Token.Profile

/-! What a handler may demand of the token that comes next. -/
namespace BindingPower

inductive Matcher where
  /-- Accepts whatever comes, even before there is a token. -/
  | anything
  | ofClass (cls : TokenClass)
  /-- Accepts one token only. -/
  | only (token : Profile)
  | named (name : String)
  | test (label : String) (accepts : Option Profile → Bool)
  /-- A value that no token can be matched against. -/
  | invalid (shown : String)

namespace Matcher

/-- Accepts one token only. An object that is no token is no matcher either. -/
def ofToken (p : Profile) : Matcher := if p.cls = .duck then .invalid p.shown else .only p

def always : Matcher := .test "any_token" fun _ => true

def never : Matcher := .test "no_token" fun _ => false

/-- Accepts the tokens that bind nothing. -/
def zeroPower : Matcher := .test "zero_lbp" fun p => p.any (·.lbp = 0)

/-- Accepts the tokens with a name that is not empty. -/
def hasName : Matcher := .test "name_of" fun p => (p.bind (·.name)).any (· ≠ "")

def positivePower : Matcher := .test "<lambda>" fun p => p.any (0 < ·.lbp)

def accepts : Matcher → Option Profile → Except Fault Bool
  | anything, _ => .ok true
  | ofClass cls, p => .ok (p.any fun p => p.cls.isA cls)
  | only token, p => .ok (p.any token.same)
  | named name, p => .ok (p.bind (·.name) = some name)
  | test _ accepts, p => .ok (accepts p)
  | invalid shown, _ => .error (.notMatcher shown)

/-- The matcher as messages mention it. -/
def mention : Matcher → String
  | anything => "object"
  | ofClass cls => cls.name
  | only token => token.shown
  | named name => Text.quoted name
  | test label _ => label
  | invalid shown => shown

end Matcher

end BindingPower
