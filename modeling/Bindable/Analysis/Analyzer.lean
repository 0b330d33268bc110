import Bindable.Analysis.DefaultValue
import Bindable.Analysis.Platform
import Bindable.Analysis.Usage

/-! The analyzers, each with the diagnostics it may report. -/

namespace Bindable

inductive Analyzer where
  | usage | defaultValue | platform
  deriving DecidableEq, Repr, Inhabited

namespace Analyzer

def all : List Analyzer := [usage, defaultValue, platform]

def name : Analyzer → String
  | usage => "usage"
  | defaultValue => "default-value"
  | platform => "platform"

def ofName? (s : String) : Option Analyzer := all.find? fun a => a.name = s

def supported : Analyzer → List DiagnosticId
  | usage =>
    [.attachedPropertyNotUsed, .instancePropertyNotUsed, .instanceToAttached, .staticProperty,
      .attributeOnIndexer]
  | defaultValue => [.defaultValueNull]
  | platform => [.handlerAddPartialPlatformClass]

def check (c : Compilation) (t : TypeDeclaration) : Analyzer → List Diagnostic
  | usage => Analysis.usage t
  | defaultValue => Analysis.defaultValue t
  | platform => Analysis.platform c t

end Analyzer

end Bindable
