import Bindable.Command.Arguments
import Bindable.OutputCache

/-! Running a command. -/

namespace Bindable

/-- The compilation in a file. -/
def loadModel [Monad m] [FileStore m] (path : String) : m (Except Fault Compilation) := do
  match ← FileStore.readText? path with
  | some text => return readModel path text
  | none => return .error (.io path)

namespace Command

/-- How a command ends: its exit status, and what it has to say, message by message. -/
structure Outcome where
  status : Nat
  messages : List String
  deriving DecidableEq, Repr, Inhabited

/-- Why a command stops. -/
inductive Failure where
  | noOutputDirectory (path : String)
  | noInput (path : String)
  | noListing (path : String)
  | fault (f : Fault)
  deriving DecidableEq, Repr, Inhabited

def Failure.message : Failure → String
  | noOutputDirectory path => "failed to open output directory `" ++ path ++ "`"
  | noInput path => "input `" ++ path ++ "` does not exist"
  | noListing path => "failed to walk `" ++ path ++ "`"
  | fault f => f.message

def modelExtension : String := ".bindable.json"

/-- The switches of the command line only turn things off. -/
def Invocation.options (i : Invocation) (o : Options) : Options :=
  { o with
    runAnalyzers := o.runAnalyzers && !i.has .noAnalyzers
    generatedCodeAttribute := o.generatedCodeAttribute && !i.has .noGeneratedCodeAttribute }

/-- What the models so far have led to. -/
structure Session where
  cache : Option OutputCache
  messages : List String := []
  hasErrors : Bool := false
  deriving DecidableEq, Repr, Inhabited

def Session.tell (s : Session) (o : Output) : Session :=
  { s with
    messages := s.messages ++ o.diagnostics.map (·.display)
    hasErrors := s.hasErrors || o.hasErrors }

variable {m : Type → Type} [Monad m] [FileStore m]

/-- The model files of an input: itself, or those below it. -/
def modelPaths (input : String) : m (Except Failure (List String)) := do
  if ← FileStore.isFile input then return .ok [input]
  else if ← FileStore.isDirectory input then
    match ← FileStore.filesBelow input with
    | some paths => return .ok (paths.filter (·.endsWith modelExtension))
    | none => return .error (.noListing input)
  else return .error (.noInput input)

def writeFiles (cache : OutputCache) : List SourceFile → m (OutputCache × Except Fault Unit)
  | [] => return (cache, .ok ())
  | f :: rest => do
    match ← cache.write f with
    | (cache, .ok _) => writeFiles cache rest
    | (cache, .error e) => return (cache, .error e)

/-- One model: its diagnostics are told before its files are written. -/
def runModel (i : Invocation) (s : Session) (path : String) :
    m (Session × Except Failure Unit) := do
  match ← loadModel path with
  | .error e => return (s, .error (.fault e))
  | .ok c =>
    match c.generateWith (i.options c.options) false with
    | .error e => return (s, .error (.fault e))
    | .ok output =>
      let s := s.tell output
      match s.cache with
      | none => return (s, .ok ())
      | some cache =>
        match ← writeFiles cache output.sources with
        | (cache, .ok ()) => return ({ s with cache := some cache }, .ok ())
        | (cache, .error e) => return ({ s with cache := some cache }, .error (.fault e))

def runModels (i : Invocation) (s : Session) : List String → m (Session × Except Failure Unit)
  | [] => return (s, .ok ())
  | path :: rest => do
    match ← runModel i s path with
    | (s, .ok ()) => runModels i s rest
    | (s, .error e) => return (s, .error e)

/-- The output directory is opened before anything else. -/
def openCache : Task → m (Except Failure (Option OutputCache))
  | .check _ => return .ok none
  | .generate _ out => do
    match ← OutputCache.openAt out with
    | .ok cache => return .ok (some cache)
    | .error _ => return .error (.noOutputDirectory out)

def flushCache : Option OutputCache → m (Except Failure Unit)
  | none => return .ok ()
  | some cache => do
    match ← cache.flush with
    | (_, .ok _) => return .ok ()
    | (_, .error e) => return .error (.fault e)

/-- All steps, with what was said up to the failure if there is one. -/
def runSession (i : Invocation) : m (Session × Except Failure Unit) := do
  match ← openCache i.task with
  | .error e => return ({ cache := none }, .error e)
  | .ok cache =>
    let s : Session := { cache }
    match ← modelPaths i.task.input with
    | .error e => return (s, .error e)
    | .ok paths =>
      match ← runModels i s paths with
      | (s, .error e) => return (s, .error e)
      | (s, .ok ()) => return (s, ← flushCache s.cache)

def runInvocation (i : Invocation) : m Outcome := do
  match ← runSession i with
  | (s, .ok ()) =>
    return { status := if s.hasErrors && i.has .denyErrors then 1 else 0, messages := s.messages }
  | (s, .error e) =>
    return { status := 1, messages := s.messages ++ ["error: " ++ e.message] }

def run (words : List String) : m Outcome := do
  match parse words with
  | .ok i => runInvocation i
  | .error .usage => return { status := 2, messages := [] }
  | .error .information => return { status := 0, messages := [] }

end Command

end Bindable
