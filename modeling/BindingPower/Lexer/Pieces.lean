import BindingPower.Text.Classes

/-! The partition of a text into blanks, numbers, words and operators. At each place the first of
these that fits is cut as long as possible; a character where none fits is a stray. -/
namespace BindingPower.Lexer
open Text

/-- A point and the digits after it. -/
def fractionPart : List Char → List Char
  | '.' :: rest => '.' :: rest.takeWhile isDigit
  | _ => []

def signPart : List Char → List Char
  | c :: _ => if c = '+' || c = '-' then [c] else []
  | [] => []

/-- The letter e, a sign perhaps, and at least one digit. -/
def exponentPart : List Char → List Char
  | [] => []
  | e :: rest =>
    let sign := signPart rest
    let digits := (rest.drop sign.length).takeWhile isDigit
    if (e = 'e' || e = 'E') && !digits.isEmpty then e :: (sign ++ digits) else []

/-- The number a text begins with: digits with a fraction perhaps, or a fraction alone that has
digits, and then perhaps an exponent. Empty where there is none. -/
def numberPart (cs : List Char) : List Char :=
  let whole := cs.takeWhile isDigit
  let fraction := fractionPart (cs.drop whole.length)
  if whole.isEmpty && fraction.length < 2 then [] else
    let mantissa := whole ++ fraction
    mantissa ++ exponentPart (cs.drop mantissa.length)

/-- The word a text begins with. -/
def wordPart : List Char → List Char
  | c :: rest => if isWordStart c then c :: rest.takeWhile isWordChar else []
  | [] => []

/-- The first of some lexemes that a text begins with. -/
def operatorPart (operators : List (List Char)) (cs : List Char) : List Char :=
  (operators.find? (·.isPrefixOf cs)).getD []

inductive PieceKind where
  | blank
  | number
  | word
  | operator
  | stray
deriving Repr, DecidableEq

structure Piece where
  kind : PieceKind
  text : List Char
deriving Repr, DecidableEq

/-- The piece a text begins with. -/
def Piece.first (operators : List (List Char)) (cs : List Char) : Piece :=
  let blank := cs.takeWhile isBlank
  let number := numberPart cs
  let word := wordPart cs
  let operator := operatorPart operators cs
  if !blank.isEmpty then ⟨.blank, blank⟩
  else if !number.isEmpty then ⟨.number, number⟩
  else if !word.isEmpty then ⟨.word, word⟩
  else if !operator.isEmpty then ⟨.operator, operator⟩
  else ⟨.stray, cs.take 1⟩

/-- The pieces of a text whose first `inside` characters belong to a piece already cut. -/
def piecesFrom (operators : List (List Char)) : (inside : Nat) → List Char → List Piece
  | _, [] => []
  | inside + 1, _ :: rest => piecesFrom operators inside rest
  | 0, c :: rest =>
    let piece := Piece.first operators (c :: rest)
    piece :: piecesFrom operators (piece.text.length - 1) rest

/-- The pieces of a text. -/
def pieces (operators : List (List Char)) (cs : List Char) : List Piece :=
  piecesFrom operators 0 cs

end BindingPower.Lexer
