import BindingPower.Stream

/-! Precedence parsing by binding powers. The grammar is in the tokens: the parser compares powers
and hands over to the handlers, which ask it for operands and for the tokens they demand. -/
namespace BindingPower
variable {V α β : Type}

structure Parser (V : Type) where
  source : Source V
  trace : Bool
  /-- The lookahead, none before the first token is drawn. -/
  token : Option (Token V)
  /-- The index of the lookahead in the stream. -/
  pos : Int
  started : Bool
  log : List Event

/-- How a step of a parser ends, and the parser after it, whether it failed or not. -/
structure Outcome (V α : Type) where
  result : Except Failure α
  parser : Parser V

/-- Goes on with the result of a step that did not fail. -/
def Outcome.andThen (o : Outcome V α) (f : α → Parser V → Outcome V β) : Outcome V β :=
  match o.result with
  | .ok a => f a o.parser
  | .error e => ⟨.error e, o.parser⟩

namespace Parser

/-- A parser over a source, which may have been drawn on before. -/
def ofSource (source : Source V) (trace : Bool) : Parser V :=
  ⟨source, trace, none, -1, false, []⟩

def ofStream (s : Stream V) (trace : Bool) : Parser V := ofSource (.ofStream s) trace

/-- What is seen of the lookahead. -/
def lookahead (p : Parser V) : Option Profile := p.token.map (·.profile)

/-- Whether the lookahead is the end mark. -/
def atEnd (p : Parser V) : Bool := p.lookahead.any fun t => t.identity = .sentinel

def emit (event : Event) (p : Parser V) : Parser V := { p with log := p.log ++ [event] }

/-- Reports a dispatch if the parser traces. -/
def report (role : Role) (t : Token V) (pos : Int) (p : Parser V) : Parser V :=
  if p.trace then p.emit (.dispatch role t.profile pos) else p

/-- Draws the next token and answers the lookahead it replaces. A pull that fails changes the source
alone. -/
def advance (p : Parser V) : Outcome V (Option (Token V)) :=
  match p.source.next with
  | (.ok t, source) =>
    ⟨.ok p.token, { p with source := source, token := some t, pos := source.pos }⟩
  | (.error e, source) => ⟨.error e, { p with source := source }⟩

/-- Consumes the lookahead, which must match. -/
def expect (m : Matcher) (p : Parser V) : Outcome V (Option (Token V)) :=
  match m.accepts p.lookahead with
  | .error f => ⟨.error (.fault f), p⟩
  | .ok true => p.advance
  | .ok false => ⟨.error (.parse (.unexpected p.pos p.lookahead m.mention)), p⟩

/-- Consumes the lookahead if it matches, and says whether it did. -/
def attempt (m : Matcher) (p : Parser V) : Outcome V Bool :=
  match m.accepts p.lookahead with
  | .error f => ⟨.error (.fault f), p⟩
  | .ok true => p.advance.andThen fun _ p => ⟨.ok true, p⟩
  | .ok false => ⟨.ok false, p⟩

end Parser

/-- Carries out the requests of a handler, with a parser for the expressions it asks for. -/
def Action.run (expr : Int → Parser V → Outcome V V) : Action V α → Parser V → Outcome V α
  | done a, p => ⟨.ok a, p⟩
  | fail e, p => ⟨.error e, p⟩
  | expression rbp next, p => (expr rbp p).andThen fun v p => (next v).run expr p
  | expect m next, p => (p.expect m).andThen fun t p => (next (t.map (·.profile))).run expr p
  | attempt m next, p => (p.attempt m).andThen fun b p => (next b).run expr p
  | advance next, p => p.advance.andThen fun t p => (next (t.map (·.profile))).run expr p
  | look next, p => (next p.lookahead p.pos).run expr p
  | emit event next, p => next.run expr (p.emit event)

namespace Parser

mutual

/-- Parses an expression of the tokens that bind tighter than `rbp`, with at most `bound` dispatches
on any path: the lookahead starts it, and what follows may go on with it. -/
def parse : (bound : Nat) → (rbp : Int) → Parser V → Outcome V V
  | 0, _, p => ⟨.error .spent, p⟩
  | bound + 1, rbp, p =>
    p.advance.andThen fun t q =>
      match t.bind fun t => t.nud.map (t, ·) with
      | none => ⟨.error (.parse (.missingPrefix p.pos p.lookahead)), q⟩
      | some (t, nud) =>
        (nud.run (parse bound) (q.report .nud t p.pos)).andThen fun left q =>
          operate bound rbp left q

/-- Extends an operand as long as the lookahead binds tighter than `rbp`. -/
def operate : (bound : Nat) → (rbp : Int) → (left : V) → Parser V → Outcome V V
  | bound, rbp, left, p =>
    if p.token.any fun t => rbp < t.lbp then
      match bound with
      | 0 => ⟨.error .spent, p⟩
      | bound + 1 =>
        p.advance.andThen fun t q =>
          match t.bind fun t => t.led.map (t, ·) with
          | none => ⟨.error (.parse (.missingInfix p.pos p.lookahead)), q⟩
          | some (t, led) =>
            ((led left).run (parse bound) (q.report .led t p.pos)).andThen fun left q =>
              operate bound rbp left q
    else ⟨.ok left, p⟩

end

/-- More dispatches than this no parse can make: each uses up a token other than the end mark, drawn
already or not, or is refused. -/
def bound (p : Parser V) : Nat := p.source.rest.length + 2

/-- Parses an expression of the tokens that bind tighter than `rbp`. -/
def expression (rbp : Int) (p : Parser V) : Outcome V V := parse p.bound rbp p

/-- Goes on with an operand already parsed. -/
def operators (rbp : Int) (left : V) (p : Parser V) : Outcome V V := operate p.bound rbp left p

/-- Parses one expression from the start; if `strict`, the input must end after it. A parser runs
once. -/
def run (strict : Bool) (p : Parser V) : Outcome V V :=
  if p.started then ⟨.error (.fault .alreadyRun), p⟩ else
    { p with started := true }.advance.andThen fun _ p =>
      (p.expression 0).andThen fun v p =>
        if strict && !p.atEnd then
          ⟨.error (.parse (.unexpected p.pos p.lookahead "end of input")), p⟩
        else ⟨.ok v, p⟩

end Parser

/-- Parses one expression of a stream. -/
def Stream.parse (trace strict : Bool) (s : Stream V) : Outcome V V :=
  (Parser.ofStream s trace).run strict

end BindingPower
