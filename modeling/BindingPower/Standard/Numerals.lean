import BindingPower.Number.Numeral
import BindingPower.Table
import BindingPower.Value.Printing

/-! The tokens of scanned numbers and words. -/
namespace BindingPower

/-- Whether a numeral has a fraction or an exponent. -/
def isFractional (text : String) : Bool :=
  text.toList.any fun c => c = '.' || c = 'e' || c = 'E'

/-- The value of a numeral: an integer, or a floating number if it has a fraction or exponent. -/
def numeralValue (text : String) : Except Fault Value :=
  if isFractional text then
    match Number.readDecimal? text with
    | some x => .ok (.float x)
    | none => .error (.notDecimal text)
  else
    (Number.readInteger text).map .int

/-- A token of its own for a value, named by its text. -/
def literalOf (text : String) (v : Value) : Token Value :=
  ⟨.anonymous, 0, some text, .literal v⟩

/-- The token of a numeral. -/
def numberLiteral : Factory Value := fun text => (numeralValue text).map (literalOf text)

/-- The token of a numeral that stands for a leaf of a tree. -/
def numberNode : Factory Value := fun text =>
  (numeralValue text).map fun v => literalOf text (.number v)

/-- The token of a word that stands for a leaf of a tree. -/
def nameNode : Factory Value := fun word => .ok (literalOf word (.name (.text word)))

/-- The token of a word that stands for itself. -/
def wordLiteral : Factory Value := fun word => .ok (literalOf word (.text word))

/-- The token of a word that only delimits. -/
def wordKeyword : Factory Value := fun word => .ok ⟨.anonymous, 0, some word, .keyword⟩

end BindingPower
