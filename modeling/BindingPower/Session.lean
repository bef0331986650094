import BindingPower.Parser

/-! Sessions: a parser driven step by step from outside, where it can also be run as a whole, its
source be drawn on behind its back, and a new parser take over the source. -/
namespace BindingPower
variable {V : Type}

inductive Command where
  | step (step : Step)
  | run (strict : Bool)
  /-- One pull on the source past the parser. -/
  | pull
  /-- A new parser over the same source. -/
  | fork

/-- Carries out a command. A fork answers nothing. -/
def Command.perform (p : Parser V) : Command → Outcome V (Option (Item V))
  | step s => (s.action.run Parser.expression p).andThen fun item p => ⟨.ok (some item), p⟩
  | run strict => (p.run strict).andThen fun v p => ⟨.ok (some (.value v)), p⟩
  | pull =>
    match p.source.next with
    | (.ok t, source) => ⟨.ok (some (.token (some t.profile))), { p with source := source }⟩
    | (.error e, source) => ⟨.error e, { p with source := source }⟩
  | fork => ⟨.ok none, Parser.ofSource p.source p.trace⟩

/-- The outcomes of some commands in order, each with what it alone reports. A command that fails
leaves the parser for the next as it is. -/
def session : List Command → Parser V → List (Outcome V (Option (Item V)))
  | [], _ => []
  | c :: rest, p =>
    let o := c.perform { p with log := [] }
    o :: session rest o.parser

end BindingPower
