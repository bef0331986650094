import BindingPower.Token.Basic

/-! The token stream as a parser draws on it: the tokens in order, then the end mark for ever. -/
namespace BindingPower
variable {V : Type}

/-- Tokens, and the failure that whoever makes them runs into after the last of them. -/
structure Stream (V : Type) where
  tokens : List (Token V)
  failure : Option Failure

structure Source (V : Type) where
  /-- What is not delivered yet. -/
  rest : List (Token V)
  /-- The failure that ends the stream, until it has been met. -/
  failure : Option Failure
  /-- The index of the last pull, minus one before the first. -/
  pos : Int
  exhausted : Bool

namespace Source

def ofStream (s : Stream V) : Source V := ⟨s.tokens, s.failure, -1, false⟩

/-- One pull. A token that ends the input gives way to the end mark and exhausts the source; the
failure of the stream is met once, and what follows it is the end. -/
def next (s : Source V) : Except Failure (Token V) × Source V :=
  let s := { s with pos := s.pos + 1 }
  if s.exhausted then (.ok .sentinel, s) else
    match s.rest, s.failure with
    | [], none => (.ok .sentinel, { s with exhausted := true })
    | [], some failure => (.error failure, { s with failure := none })
    | t :: rest, _ =>
      if t.isEnd then (.ok .sentinel, { s with rest := rest, exhausted := true })
      else (.ok t, { s with rest := rest })

@[simp] theorem pos_next (s : Source V) : s.next.2.pos = s.pos + 1 := by
  simp only [next]
  repeat' split
  all_goals rfl

/-- The tokens of the next `n` pulls, and the failure that stops them if one does. -/
def take : Nat → Source V → Except Failure (List (Token V)) × Source V
  | 0, s => (.ok [], s)
  | n + 1, s =>
    match s.next with
    | (.error e, s) => (.error e, s)
    | (.ok t, s) => let (result, s) := take n s; (result.map (t :: ·), s)

end Source

end BindingPower
