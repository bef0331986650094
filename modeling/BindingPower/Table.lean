import BindingPower.Text.Classes
import BindingPower.Token.Basic

/-! Token tables: which token a lexeme stands for, and how numbers and words that are not in the
table become tokens. Lexemes keep the order in which they first came. -/
namespace BindingPower

abbrev Entries (V : Type) := List (String × Token V)

namespace Entries
variable {V : Type}

def keys (es : Entries V) : List String := es.map (·.1)

/-- Gives a lexeme its token: in its place if it has one, else at the end. -/
def put (lexeme : String) (t : Token V) : Entries V → Entries V
  | [] => [(lexeme, t)]
  | e :: rest => if e.1 = lexeme then (lexeme, t) :: rest else e :: put lexeme t rest

def putAll (es new : Entries V) : Entries V := new.foldl (fun es e => es.put e.1 e.2) es

theorem mem_keys_put {lexeme key : String} {t : Token V} {es : Entries V} :
    key ∈ (es.put lexeme t).keys ↔ key ∈ es.keys ∨ key = lexeme := by
  induction es with
  | nil => simp [put, keys]
  | cons e rest ih =>
    by_cases h : e.1 = lexeme
    · simp only [put, h, if_true, keys, List.map_cons, List.mem_cons]
      grind
    · simp only [put, h, if_false, keys, List.map_cons, List.mem_cons] at ih ⊢
      grind

theorem nodup_put {lexeme : String} {t : Token V} {es : Entries V} (h : es.keys.Nodup) :
    (es.put lexeme t).keys.Nodup := by
  induction es with
  | nil => simp [put, keys]
  | cons e rest ih =>
    have hr := List.nodup_cons.1 h
    by_cases he : e.1 = lexeme
    · simpa [put, he, keys] using h
    · have hk : e.1 ∉ (put lexeme t rest).keys := by
        simp only [mem_keys_put, not_or]
        exact ⟨hr.1, he⟩
      simpa [put, he, keys] using And.intro hk (ih hr.2)

theorem nodup_putAll {es new : Entries V} (h : es.keys.Nodup) : (es.putAll new).keys.Nodup := by
  unfold putAll
  induction new generalizing es with
  | nil => exact h
  | cons e rest ih => exact ih (nodup_put h)

end Entries

/-- How a lexeme outside the table becomes a token. -/
abbrev Factory (V : Type) := String → Except Fault (Token V)

structure Table (V : Type) where
  entries : Entries V
  number : Option (Factory V)
  name : Option (Factory V)
  nodup : entries.keys.Nodup
  nonempty : "" ∉ entries.keys

namespace Table
variable {V : Type}

/-- The table of these entries, which must not hold the empty lexeme. -/
def ofEntries (es : Entries V) (h : es.keys.Nodup) (number name : Option (Factory V)) :
    Except Fault (Table V) :=
  if h' : "" ∈ es.keys then .error .emptyLexeme else .ok ⟨es, number, name, h, h'⟩

/-- The table of a list of lexemes and tokens, later ones replacing earlier ones. -/
def ofList (es : Entries V) (number name : Option (Factory V)) : Except Fault (Table V) :=
  ofEntries (Entries.putAll [] es) (Entries.nodup_putAll List.nodup_nil) number name

/-- The table with more entries and, where one is given, another way to make numbers or names. -/
def extend (t : Table V) (es : Entries V) (number name : Option (Option (Factory V))) :
    Except Fault (Table V) :=
  ofEntries (t.entries.putAll es) (Entries.nodup_putAll t.nodup) (number.getD t.number)
    (name.getD t.name)

def lookup (t : Table V) (lexeme : String) : Option (Token V) := t.entries.lookup lexeme

def contains (t : Table V) (lexeme : String) : Bool := t.entries.keys.contains lexeme

def keys (t : Table V) : List String := t.entries.keys

/-- Words are looked up whole; all other lexemes are operators. -/
def isOperator (lexeme : String) : Bool := !lexeme.toList.head?.any Text.isWordChar

/-- Puts a lexeme before the first that is no longer. -/
def insertByLength (lexeme : String) : List String → List String
  | [] => [lexeme]
  | l :: rest =>
    if l.length ≤ lexeme.length then lexeme :: l :: rest else l :: insertByLength lexeme rest

/-- Longer lexemes first, those of one length in their order. -/
def byLength : List String → List String
  | [] => []
  | l :: rest => insertByLength l (byLength rest)

/-- The lexemes that are not words, longest first. -/
def operators (t : Table V) : List String := byLength (t.keys.filter isOperator)

end Table

end BindingPower
