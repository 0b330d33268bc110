import Bindable.Command.Run
import Bindable.Files.Disk

/-! The program. -/

namespace Bindable.Command

def usage : String :=
  "usage: bindable-gen [OPTIONS] generate INPUT --out DIR\n" ++
  "       bindable-gen [OPTIONS] check INPUT\n" ++
  "options: --no-analyzers --no-generated-code-attribute --deny-errors -v --verbose"

end Bindable.Command

open Bindable in
def main (words : List String) : IO UInt32 := do
  let outcome ← (Command.run words : IO Command.Outcome)
  for message in outcome.messages do
    IO.eprintln message
  if (Command.parse words).toOption.isNone then
    IO.eprintln Command.usage
  return outcome.status.toUInt32
