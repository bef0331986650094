import BindingPower.Lexer.Pieces
import BindingPower.Stream
import BindingPower.Table

/-! Texts made into token streams by a table: character by character, or by the pieces of the text.
A text that is no token ends the stream with a failure at its place. -/
namespace BindingPower
variable {V : Type}

namespace Stream

def nil : Stream V := ⟨[], none⟩

def cons (t : Token V) (s : Stream V) : Stream V := { s with tokens := t :: s.tokens }

def failed (e : Failure) : Stream V := ⟨[], some e⟩

def ofTokens (ts : List (Token V)) : Stream V := ⟨ts, none⟩

end Stream

namespace Table

/-- The characters between tokens where nothing else is said. -/
def standardSkip : String := " \t\r\n"

def charsFrom (t : Table V) (skip : List Char) : (pos : Nat) → List Char → Stream V
  | _, [] => .nil
  | pos, c :: rest =>
    if skip.contains c then charsFrom t skip (pos + 1) rest else
      match t.lookup (.singleton c) with
      | none => .failed (.parse (.lexical pos (.singleton c)))
      | some token => .cons token (charsFrom t skip (pos + 1) rest)

/-- Each character through the table, but for those to skip. -/
def readChars (t : Table V) (skip text : String) : Stream V :=
  t.charsFrom skip.toList 0 text.toList

/-- The token of a piece at a position: numbers as the table makes them, words by the table first
and then as it makes names, operators by the table. Blanks have none. -/
def tokenOf (t : Table V) (pos : Nat) (piece : Lexer.Piece) :
    Except Failure (Option (Token V)) :=
  let lexeme := String.ofList piece.text
  let unknown : Failure := .parse (.lexical pos lexeme)
  let made (factory : Option (Factory V)) : Except Failure (Option (Token V)) :=
    match factory with
    | none => .error unknown
    | some make => (make lexeme).map some |>.mapError .fault
  match piece.kind with
  | .blank => .ok none
  | .number => made t.number
  | .word =>
    match t.lookup lexeme with
    | some token => .ok (some token)
    | none => made t.name
  | .operator =>
    match t.lookup lexeme with
    | some token => .ok (some token)
    | none => .error unknown
  | .stray => .error unknown

def tokensFrom (t : Table V) : (pos : Nat) → List Lexer.Piece → Stream V
  | _, [] => .nil
  | pos, piece :: rest =>
    match t.tokenOf pos piece with
    | .error e => .failed e
    | .ok none => tokensFrom t (pos + piece.text.length) rest
    | .ok (some token) => .cons token (tokensFrom t (pos + piece.text.length) rest)

/-- The lexemes of a text through the table. -/
def scan (t : Table V) (text : String) : Stream V :=
  t.tokensFrom 0 (Lexer.pieces (t.operators.map (·.toList)) text.toList)

end Table

end BindingPower
