import BindingPower.Number.Numeral
import BindingPower.Value.Basic

/-! The texts of values: plain, where trees are bracketed on one line; quoted, as they stand in a
list or a message; and trees laid out with one node a line. Integers that are too long have no text. -/
namespace BindingPower.Value
open Number

/-- The items with `", "` between them. -/
def commas : List String → String
  | [] => ""
  | [s] => s
  | s :: rest => s ++ ", " ++ commas rest

mutual

/-- The text of a value that shows its kind. -/
def quoted : Value → String
  | absent => "None"
  | bool b => if b then "True" else "False"
  | int i => toString i
  | float x => floatText x
  | nan _ => "nan"
  | complex z => z.text
  | text s => Text.quoted s
  | list items => "[" ++ commas (quotedItems items) ++ "]"
  | token t => t.shown
  | number value => "NumberNode(number=" ++ value.quoted ++ ")"
  | name word => "NameNode(name=" ++ word.quoted ++ ")"
  | unary operator operand =>
      "UnaryNode(operator=" ++ operator.quoted ++ ", node=" ++ operand.quoted ++ ")"
  | binary operator left right =>
      "BinaryNode(operator=" ++ operator.quoted ++ ", left=" ++ left.quoted ++ ", right=" ++
        right.quoted ++ ")"
  | choice cond yes otherwise =>
      "IfNode(cond=" ++ cond.quoted ++ ", then=" ++ yes.quoted ++ ", otherwise=" ++
        otherwise.quoted ++ ")"

def quotedItems : List Value → List String
  | [] => []
  | v :: rest => v.quoted :: quotedItems rest

end

/-- The text of a value; of a tree, the operator before its operands in brackets. -/
def plain : Value → String
  | text s => s
  | number value => value.plain
  | name word => word.plain
  | unary operator operand => "(" ++ operator.plain ++ " " ++ operand.plain ++ ")"
  | binary operator left right =>
      "(" ++ operator.plain ++ " " ++ left.plain ++ " " ++ right.plain ++ ")"
  | choice cond yes otherwise =>
      "(if " ++ cond.plain ++ " " ++ yes.plain ++
        (if otherwise.isAbsent then ")" else " " ++ otherwise.plain ++ ")")
  | v => v.quoted

mutual

/-- What keeps a value from being quoted: an integer in it that is too long. -/
def quoteFault? : Value → Option Fault
  | int i => if isLong i then some .longInteger else none
  | list items => quoteFaultItems? items
  | number v | name v => v.quoteFault?
  | unary v w => v.quoteFault? <|> w.quoteFault?
  | binary v₁ v₂ v₃ | choice v₁ v₂ v₃ =>
      v₁.quoteFault? <|> v₂.quoteFault? <|> v₃.quoteFault?
  | _ => none

def quoteFaultItems? : List Value → Option Fault
  | [] => none
  | v :: rest => v.quoteFault? <|> quoteFaultItems? rest

end

/-- The text of a value as it is quoted. -/
def quotation (v : Value) : Except Fault String :=
  match v.quoteFault? with
  | none => .ok v.quoted
  | some f => .error f

/-- What keeps a value from being printed: the first word of a leaf that is no text, or an integer
that is too long. Lists quote their items, so that words do not count there. -/
def textFault? : Value → Option Fault
  | name (text _) => none
  | name word => some (.notText word.kindName)
  | number value => value.textFault?
  | unary operator operand => operator.textFault? <|> operand.textFault?
  | binary operator left right =>
      operator.textFault? <|> left.textFault? <|> right.textFault?
  | choice cond yes otherwise =>
      cond.textFault? <|> yes.textFault? <|> otherwise.textFault?
  | v => v.quoteFault?

/-- The text of a value as it is printed. -/
def printed (v : Value) : Except Fault String :=
  match v.textFault? with
  | none => .ok v.plain
  | some f => .error f

/-- A tree with one node a line, the children of a node two spaces further in. What is no tree has
no layout. -/
def layout (indent : String) : Value → Except Fault String
  | number value => return indent ++ (← value.printed)
  | name word => return indent ++ (← word.printed)
  | unary operator operand => do
    let operator ← operator.printed
    let operand ← layout (indent ++ "  ") operand
    return indent ++ "(" ++ operator ++ "\n" ++ operand ++ ")"
  | binary operator left right => do
    let operator ← operator.printed
    let left ← layout (indent ++ "  ") left
    let right ← layout (indent ++ "  ") right
    return indent ++ "(" ++ operator ++ "\n" ++ left ++ "\n" ++ right ++ ")"
  | choice cond yes otherwise => do
    let cond ← layout (indent ++ "  ") cond
    let yes ← layout (indent ++ "  ") yes
    if otherwise.isAbsent then
      return indent ++ "(if\n" ++ cond ++ "\n" ++ yes ++ ")"
    let otherwise ← layout (indent ++ "  ") otherwise
    return indent ++ "(if\n" ++ cond ++ "\n" ++ yes ++ "\n" ++ otherwise ++ ")"
  | v => .error (.missingMember v.kindName "pp")

end BindingPower.Value
