import Bindable.Diagnostic
import Bindable.Json.Writer
import Bindable.Marker.Descriptor
import Bindable.Model.Symbols

/-! Advice on handlers. A view that projects properties to the platform needs a part of its handler
for every platform that the compilation references. -/

namespace Bindable.Analysis

structure Platform where
  name : String
  /-- The platform is present when this assembly is referenced. -/
  assembly : String
  deriving DecidableEq, Repr, Inhabited

def platforms : List Platform :=
  [{ name := "Android", assembly := "Mono.Android" },
    { name := "iOS", assembly := "Microsoft.iOS" },
    { name := "MacCatalyst", assembly := "Microsoft.MacCatalyst" },
    { name := "Windows", assembly := "Microsoft.WinUI" },
    { name := "Tizen", assembly := "Tizen.NET" }]

def presentPlatforms (assemblies : List String) : List Platform :=
  platforms.filter fun p => assemblies.contains p.assembly

/-- Names from markers on the type that ask for it, then properties with an attribute of their
own. -/
def projectedProperties (view : TypeDeclaration) : List String :=
  (view.attributes.filter fun a => a.family?.isSome && a.flag "ProjectToPlatform").filterMap
      (·.givenName?) ++
    (view.properties.filter fun p =>
      p.attributes.any fun a => a.simpleName = "PlatformProperty").map (·.name)

def platformAdvice (t view : TypeDeclaration) (properties : List String)
    (location : Option Location) (p : Platform) : Diagnostic :=
  (((Diagnostic.report .handlerAddPartialPlatformClass [p.name, t.name, view.name] location
    ).withProperty "Platform" p.name
    ).withProperty "ViewType" view.qualifiedName
    ).withProperty "HandlerType" t.qualifiedName
    |>.withProperty "Properties" (Json.ofList Json.ofString properties).render

def handlerAdvice (c : Compilation) (t : TypeDeclaration) (a : Attribute) : List Diagnostic :=
  match a.typeArguments with
  | [viewType] =>
    match c.lookup? viewType with
    | some view =>
      let properties := projectedProperties view
      if properties = [] then []
      else
        (presentPlatforms c.referencedAssemblies).map
          (platformAdvice t view properties (a.location.or t.location))
    | none => []
  | _ => []

def platform (c : Compilation) (t : TypeDeclaration) : List Diagnostic :=
  (t.attributes.filter fun a => a.simpleName = "BindableHandler").flatMap (handlerAdvice c t)

end Bindable.Analysis
