import Bindable.Analysis.Analyzer
import Bindable.Emission.Entry
import Bindable.Model.Decode

/-! The whole run over one compilation. -/

namespace Bindable

/-- Why a run has no outcome. User code is never at fault: it is reported on by diagnostics. -/
inductive Fault where
  | cancelled
  | model (path : String)
  | io (path : String)
  deriving DecidableEq, Repr, Inhabited

def Fault.message : Fault → String
  | cancelled => "generation was cancelled"
  | model path => "invalid compilation model `" ++ path ++ "`"
  | io path => "IO error when accessing `" ++ path ++ "`"

structure Output where
  sources : List SourceFile
  diagnostics : List Diagnostic
  deriving DecidableEq, Repr, Inhabited

def Output.hasErrors (o : Output) : Bool := o.diagnostics.any (·.isError)

/-- The first file of each name. -/
def firstByHint : List SourceFile → List SourceFile
  | [] => []
  | f :: rest => f :: (firstByHint rest).filter fun g => g.hintName ≠ f.hintName

namespace Compilation

/-- Cancellation is noticed before each type, so never when there is none. -/
def unlessCancelled (c : Compilation) (cancelled : Bool) (a : α) : Except Fault α :=
  if cancelled && !c.types.isEmpty then .error .cancelled else .ok a

def allEntries (c : Compilation) : List Entry := c.types.flatMap c.entries

def emit (c : Compilation) (o : Options) : Output :=
  { sources := firstByHint (c.allEntries.filterMap (·.sourceFile? o))
    diagnostics := c.allEntries.flatMap (·.diagnostics) }

/-- By type, then by analyzer. -/
def analyze (c : Compilation) (analyzers : List Analyzer) : List Diagnostic :=
  c.types.flatMap fun t => analyzers.flatMap (·.check c t)

/-- Sources and the diagnostics of the markers. -/
def runGenerator (c : Compilation) (o : Options) (cancelled : Bool) : Except Fault Output :=
  c.unlessCancelled cancelled (c.emit o)

def runAnalyzers (c : Compilation) (analyzers : List Analyzer) (cancelled : Bool) :
    Except Fault (List Diagnostic) :=
  c.unlessCancelled cancelled (c.analyze analyzers)

/-- Sources, and the diagnostics of the markers before those of the analyzers. -/
def generateWith (c : Compilation) (o : Options) (cancelled : Bool) : Except Fault Output := do
  let output ← c.runGenerator o cancelled
  if o.runAnalyzers then
    let diagnostics ← c.runAnalyzers Analyzer.all cancelled
    return { output with diagnostics := output.diagnostics ++ diagnostics }
  else return output

/-- With the options of the compilation itself. -/
def generate (c : Compilation) (cancelled : Bool) : Except Fault Output :=
  c.generateWith c.options cancelled

end Compilation

/-- A compilation from the text of its model. -/
def readModel (path text : String) : Except Fault Compilation :=
  match Compilation.parse? text with
  | some c => .ok c
  | none => .error (.model path)

end Bindable
