import BindingPower.Program

/-! The command line: the first argument names a program, the others are its own. -/
namespace BindingPower

/-- Writes what a program has written and ends as it does. -/
def Ending.perform (e : Ending) : IO UInt32 := do
  IO.print e.stdout
  IO.eprint e.stderr
  match e.exit with
  | .ok code => return code.toUInt32
  | .error failure =>
    IO.eprintln failure.message
    return 1

end BindingPower

open BindingPower

def main : List String → IO UInt32
  | "evaluate" :: args => (evaluator args).perform
  | "tree" :: args => (treeBuilder args).perform
  | "conditional" :: args => (conditionals args).perform
  | _ => (Ending.usage "evaluate|tree|conditional ARGUMENT...").perform
