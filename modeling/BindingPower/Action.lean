import BindingPower.Event
import BindingPower.Failure
import BindingPower.Token.Matcher

/-! What the handler of a token does with the parser: a tree of requests, each followed by what the
handler does with the answer. -/
namespace BindingPower

inductive Action (V α : Type) where
  | done (result : α)
  | fail (failure : Failure)
  /-- Parse an expression down to a binding power. -/
  | expression (rbp : Int) (next : V → Action V α)
  /-- Consume the lookahead, which must match. -/
  | expect (matcher : Matcher) (next : Option Profile → Action V α)
  /-- Consume the lookahead if it matches. -/
  | attempt (matcher : Matcher) (next : Bool → Action V α)
  /-- Consume the lookahead. -/
  | advance (next : Option Profile → Action V α)
  /-- Look at the lookahead and its position. -/
  | look (next : Option Profile → Int → Action V α)
  | emit (event : Event) (next : Action V α)

namespace Action
variable {V α β : Type}

def bind : Action V α → (α → Action V β) → Action V β
  | done a, f => f a
  | fail e, _ => fail e
  | expression rbp next, f => expression rbp fun v => (next v).bind f
  | expect m next, f => expect m fun p => (next p).bind f
  | attempt m next, f => attempt m fun b => (next b).bind f
  | advance next, f => advance fun p => (next p).bind f
  | look next, f => look fun p pos => (next p pos).bind f
  | emit event next, f => emit event (next.bind f)

def map (f : α → β) (a : Action V α) : Action V β := a.bind fun x => done (f x)

/-- The end of a handler that computes its result. -/
def finish : Except Fault α → Action V α
  | .ok a => done a
  | .error f => fail (.fault f)

end Action

end BindingPower
