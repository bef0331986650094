import BindingPower.Standard.Digits
import BindingPower.Standard.Numerals
import BindingPower.Standard.Operation
import BindingPower.Lexer.Basic

/-! Four tables: arithmetic on digits, computed and as trees, and expressions with words, conditions
and comparisons, computed and as trees. -/
namespace BindingPower

inductive Standard where
  | arithmetic
  | tree
  | conditional
  | conditionalTree
deriving Repr, DecidableEq

namespace Standard
open Value

/-- The names of the tables, by which their tokens are told apart. -/
def label : Standard → String
  | arithmetic => "arithmetic"
  | tree => "tree"
  | conditional => "conditional"
  | conditionalTree => "conditional tree"

/-- The entry of a token named by its lexeme. -/
def entry (s : Standard) (lexeme : String) (lbp : Int) (kind : Kind Value) :
    String × Token Value :=
  (lexeme, ⟨.entry s.label lexeme, lbp, some lexeme, kind⟩)

def brackets (s : Standard) : Entries Value :=
  [s.entry "(" 0 (.group (.named ")") none), s.entry ")" 0 .keyword]

def infixEntry (s : Standard) (lexeme : String) (lbp : Int) (assoc : Assoc)
    (fn : Value → Value → Except Fault Value) : String × Token Value :=
  s.entry lexeme lbp (.infixOp assoc fn)

def signEntry (s : Standard) (lexeme : String) (fn : Value → Value → Except Fault Value)
    (prefixFn : Value → Except Fault Value) : String × Token Value :=
  s.entry lexeme 20 (.bifix .left fn Token.prefixPower prefixFn)

/-- Plus and minus, also before an operand; times and divided by; powers, which group to the
right. -/
def computing (s : Standard) : Entries Value :=
  [s.signEntry "+" add pos, s.signEntry "-" sub neg, s.infixEntry "*" 30 .left mul,
    s.infixEntry "/" 30 .left div, s.infixEntry "^" 40 .right pow]

/-- The same operators building nodes. -/
def building (s : Standard) : Entries Value :=
  [s.signEntry "+" (binaryNode "+") (unaryNode "+"),
    s.signEntry "-" (binaryNode "-") (unaryNode "-"),
    s.infixEntry "*" 30 .left (binaryNode "*"), s.infixEntry "/" 30 .left (binaryNode "/"),
    s.infixEntry "^" 40 .right (binaryNode "^")]

/-- Comparisons, which do not chain. -/
def comparing (s : Standard) (fn : String → Value → Value → Except Fault Value) : Entries Value :=
  ["==", "!=", "<", "<=", ">", ">="].map fun op => s.infixEntry op 10 .none (fn op)

/-- What a comparison computes. -/
def comparison : String → Value → Value → Except Fault Value
  | "==" => Value.eq
  | "!=" => Value.ne
  | "<" => compareBy .lt
  | "<=" => compareBy .le
  | ">" => compareBy .gt
  | _ => compareBy .ge

/-- The words of `if c then x else y end`, where the else branch may be left out. -/
def condition (s : Standard) (fn : Value → Value → Option Value → Except Fault Value) :
    Entries Value :=
  [s.entry "if" 0 (.conditional (.named "then") (.named "else") (.named "end") fn),
    s.entry "then" 0 .keyword, s.entry "else" 0 .keyword, s.entry "end" 0 .keyword]

/-- The marks of `c ? x : y`, which groups to the right. -/
def ternary (s : Standard) (fn : Value → Value → Option Value → Except Fault Value) :
    Entries Value :=
  [s.entry "?" 5 (.ternary (.named ":") fun c v w => fn c v (some w)), s.entry ":" 0 .keyword]

def entries (s : Standard) : Entries Value :=
  match s with
  | arithmetic =>
    s.brackets ++ s.infixEntry "=" 10 .left Value.eq :: s.computing ++
      digitEntries s.label .float .decimal .always
  | tree =>
    s.brackets ++ s.infixEntry "=" 10 .left (binaryNode "=") :: s.building ++
      digitEntries s.label .node .node .toNumbers
  | conditional =>
    s.condition choose ++ s.entry "true" 0 (.literal (.bool true)) ::
      s.entry "false" 0 (.literal (.bool false)) :: s.ternary choose ++ s.brackets ++
      s.comparing comparison ++ s.computing
  | conditionalTree =>
    s.condition choiceNode ++ s.ternary choiceNode ++ s.brackets ++ s.comparing binaryNode ++
      s.building

def number : Standard → Option (Factory Value)
  | arithmetic | tree => none
  | conditional => some numberLiteral
  | conditionalTree => some numberNode

def name : Standard → Option (Factory Value)
  | conditionalTree => some nameNode
  | _ => none

theorem nodup_entries (s : Standard) : s.entries.keys.Nodup := by
  cases s <;> decide

theorem nonempty_entries (s : Standard) : "" ∉ s.entries.keys := by
  cases s <;> decide

def table (s : Standard) : Table Value :=
  ⟨s.entries, s.number, s.name, s.nodup_entries, s.nonempty_entries⟩

end Standard

end BindingPower
