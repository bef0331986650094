import BindingPower.Standard.Tables
import BindingPower.Parser

/-! Three programs over the standard tables: one evaluates arithmetic, one prints its tree, and one
evaluates expressions with conditions or prints their trees. -/
namespace BindingPower

/-- How a program ends: with an exit code, or with a failure that it does not handle; and what it
has written until then. -/
structure Ending where
  exit : Except Failure Nat
  stdout : String
  stderr : String

namespace Ending

def success (stdout : String) : Ending := ⟨.ok 0, stdout, ""⟩

def usage (text : String) : Ending := ⟨.ok 2, "", "usage: " ++ text ++ "\n"⟩

/-- A parse error is a message and exit code one. -/
def ofFailure : Failure → Ending
  | .parse e => ⟨.ok 1, "", e.message ++ "\n"⟩
  | e => ⟨.error e, "", ""⟩

/-- The same where a failure of arithmetic is a message, too. -/
def ofRuntime : Failure → Ending
  | .fault f => if f.isArithmetic then ⟨.ok 1, "", "Runtime error: " ++ f.message ++ "\n"⟩
      else ofFailure (.fault f)
  | e => ofFailure e

/-- The value on a line. -/
def print (v : Value) : Ending :=
  match v.printed with
  | .ok line => success (line ++ "\n")
  | .error f => ofFailure (.fault f)

/-- The tree on one line, then laid out. -/
def printTree (v : Value) : Ending :=
  match v.printed with
  | .error f => ofFailure (.fault f)
  | .ok line =>
    match v.layout "" with
    | .ok layout => success (line ++ "\n" ++ layout ++ "\n")
    | .error f => ⟨.error (.fault f), line ++ "\n", ""⟩

end Ending

/-- The result of the expression a text begins with, by a table and a way to read the text. -/
def valueOf (stream : Stream Value) : Except Failure Value := (stream.parse false false).result

/-- Evaluates one argument as arithmetic. -/
def evaluator : List String → Ending
  | [text] =>
    match valueOf (Standard.arithmetic.table.readChars Table.standardSkip text) with
    | .ok v => .print v
    | .error e => .ofRuntime e
  | _ => .usage "expression_evaluator.py EXPRESSION"

/-- Prints the tree of one argument. -/
def treeBuilder : List String → Ending
  | [text] =>
    match valueOf (Standard.tree.table.readChars Table.standardSkip text) with
    | .ok v => .printTree v
    | .error e => .ofFailure e
  | _ => .usage "tree_builder.py EXPRESSION"

/-- Evaluates one argument, or with `--tree` anywhere beside it prints its tree. -/
def conditionals (args : List String) : Ending :=
  let asTree := args.contains "--tree"
  let standard := if asTree then Standard.conditionalTree else Standard.conditional
  match args.filter (· ≠ "--tree") with
  | [text] =>
    match valueOf (standard.table.scan text) with
    | .ok v => if asTree then .printTree v else .print v
    | .error e => .ofRuntime e
  | _ => .usage "if_then_else.py [--tree] EXPRESSION"

/-- The result or the parse error of a stream as a line, after what the parse reports. -/
def printed (stream : Stream Value) : Except Failure Unit × String :=
  let o := stream.parse false false
  let log := Event.lines o.parser.log
  match o.result with
  | .ok v =>
    match v.printed with
    | .ok line => (.ok (), log ++ line ++ "\n")
    | .error f => (.error (.fault f), log)
  | .error (.parse e) => (.ok (), log ++ e.message ++ "\n")
  | .error e => (.error e, log)

end BindingPower
