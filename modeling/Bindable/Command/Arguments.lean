/-! The command line. -/

namespace Bindable.Command

/-- Options without a value, allowed before and after the name of the command. -/
inductive Flag where
  | noAnalyzers | noGeneratedCodeAttribute | denyErrors | verbose
  deriving DecidableEq, Repr, Inhabited

def Flag.ofWord? : String → Option Flag
  | "no-analyzers" => some noAnalyzers
  | "no-generated-code-attribute" => some noGeneratedCodeAttribute
  | "deny-errors" => some denyErrors
  | "verbose" => some verbose
  | _ => none

inductive Task where
  | generate (input out : String)
  | check (input : String)
  deriving DecidableEq, Repr, Inhabited

def Task.input : Task → String
  | generate input _ | check input => input

structure Invocation where
  flags : List Flag
  task : Task
  deriving DecidableEq, Repr, Inhabited

def Invocation.has (i : Invocation) (f : Flag) : Bool := i.flags.contains f

/-- Why a command line asks for no task. -/
inductive Refusal where
  | usage
  /-- Help or the version is asked for. -/
  | information
  deriving DecidableEq, Repr, Inhabited

inductive Verb where
  | generate | check
  deriving DecidableEq, Repr, Inhabited

def Verb.ofWord? : String → Option Verb
  | "generate" | "g" => some generate
  | "check" | "c" => some check
  | _ => none

/-- Where the words come from decides which of them are known. -/
def knowsOut : Option Verb → Bool
  | some .generate => true
  | _ => false

/-- What the words of one level have given so far. -/
structure Progress where
  flags : List Flag := []
  input : Option String := none
  out : Option String := none
  /-- The directory is still to come. -/
  awaitsOut : Bool := false
  /-- After two dashes no word is an option. -/
  optionsEnded : Bool := false
  deriving DecidableEq, Repr, Inhabited

namespace Progress

/-- A flag stands at most once on a level. -/
def addFlag (p : Progress) (f : Flag) : Except Refusal Progress :=
  if p.flags.contains f then .error .usage else .ok { p with flags := f :: p.flags }

/-- A path is not empty. -/
def addOut (p : Progress) (path : String) : Except Refusal Progress :=
  if p.out.isSome || path = "" then .error .usage
  else .ok { p with out := some path, awaitsOut := false }

def addInput (p : Progress) (verb : Option Verb) (path : String) : Except Refusal Progress :=
  if verb.isNone || p.input.isSome || path = "" then .error .usage
  else .ok { p with input := some path }

/-- A word after two dashes: a name, perhaps an equals sign and a value. -/
def addLong (p : Progress) (verb : Option Verb) (word : List Char) : Except Refusal Progress :=
  let name := String.ofList (word.takeWhile (· != '='))
  match word.dropWhile (· != '=') with
  | [] =>
    if name = "help" || name = "version" && verb.isNone then .error .information
    else if name = "out" && knowsOut verb then
      if p.out.isSome then .error .usage else .ok { p with awaitsOut := true }
    else
      match Flag.ofWord? name with
      | some f => p.addFlag f
      | none => .error .usage
  | _ :: value =>
    if name = "out" && knowsOut verb then p.addOut (String.ofList value) else .error .usage

/-- The letters after one dash. What follows an `o` is its directory. -/
def addShort (p : Progress) (verb : Option Verb) : List Char → Except Refusal Progress
  | [] => .ok p
  | 'v' :: rest => do
    let p ← p.addFlag .verbose
    p.addShort verb rest
  | 'o' :: rest =>
    if knowsOut verb then
      match rest with
      | [] => if p.out.isSome then .error .usage else .ok { p with awaitsOut := true }
      | '=' :: value => p.addOut (String.ofList value)
      | value => p.addOut (String.ofList value)
    else .error .usage
  | 'h' :: _ => .error .information
  | 'V' :: _ => if verb.isNone then .error .information else .error .usage
  | _ => .error .usage

/-- One word. A directory that is awaited does not start with a dash, unless it is only one. -/
def add (p : Progress) (verb : Option Verb) (word : String) : Except Refusal Progress :=
  if p.optionsEnded then p.addInput verb word
  else
    match word.toList with
    | '-' :: '-' :: rest =>
      if p.awaitsOut then .error .usage
      else if rest = [] then .ok { p with optionsEnded := true }
      else p.addLong verb rest
    | '-' :: c :: rest => if p.awaitsOut then .error .usage else p.addShort verb (c :: rest)
    | _ => if p.awaitsOut then p.addOut word else p.addInput verb word

/-- Everything the command needs has been given. -/
def finish (p : Progress) (verb : Verb) : Except Refusal Task :=
  if p.awaitsOut then .error .usage
  else
    match verb, p.input, p.out with
    | .generate, some input, some out => .ok (.generate input out)
    | .check, some input, none => .ok (.check input)
    | _, _, _ => .error .usage

end Progress

/-- Help is about the whole program or about one command. -/
def helpOn : List String → Refusal
  | [] => .information
  | [topic] => if topic = "help" || (Verb.ofWord? topic).isSome then .information else .usage
  | _ => .usage

/-- The words before the command, then those after it. -/
def parseFrom (p : Progress) : List String → Except Refusal Invocation
  | [] => .error .usage
  | word :: rest =>
    if word = "help" && !p.optionsEnded then .error (helpOn rest)
    else
      match if p.optionsEnded then none else Verb.ofWord? word with
      | some verb => do
        let q ← rest.foldlM (fun (q : Progress) w => q.add (some verb) w) {}
        return { flags := p.flags ++ q.flags, task := ← q.finish verb }
      | none => do parseFrom (← p.add none word) rest

def parse (words : List String) : Except Refusal Invocation := parseFrom {} words

end Bindable.Command
