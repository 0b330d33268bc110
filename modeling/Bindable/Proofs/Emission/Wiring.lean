import Bindable.Proofs.Emission.MemberNames
import Mathlib.Data.List.Forall2

/-! How the members of a property refer to each other. One field creates the property, each of its
callbacks goes to a partial method declared beside it and each of these methods has its callback, and
the accessors go through the fields. -/

namespace Bindable

namespace Expr

mutual

/-- The expression and all that stands in it. -/
def parts : Expr → List Expr
  | literal value => [literal value]
  | ident name => [ident name]
  | typeOf type => [typeOf type]
  | defaultOf type => [defaultOf type]
  | member target name => member target name :: target.parts
  | cast type operand => cast type operand :: operand.parts
  | unchecked operand => unchecked operand :: operand.parts
  | call target arguments => call target arguments :: (target.parts ++ partsOfArguments arguments)
  | lambda params body => lambda params body :: body.parts

def partsOfArguments : List (Option String × Expr) → List Expr
  | [] => []
  | (_, value) :: rest => value.parts ++ partsOfArguments rest

end

theorem partsOfArguments_eq (arguments : List (Option String × Expr)) :
    partsOfArguments arguments = arguments.flatMap (·.2.parts) := by
  induction arguments with
  | nil => rfl
  | cons a rest ih => rw [partsOfArguments, ih, List.flatMap_cons]

def creationMethods : List String :=
  ["Create", "CreateAttached", "CreateReadOnly", "CreateAttachedReadOnly"]

/-- A call of a method that creates a property. -/
def isCreation : Expr → Bool
  | call (member (ident type) method) _ =>
    type = Framework.bindableProperty && creationMethods.contains method
  | _ => false

def creations (e : Expr) : List Expr := e.parts.filter isCreation

/-- The value of a named argument of a call. -/
def argument? (name : String) : Expr → Option Expr
  | call _ arguments => (arguments.find? fun a => a.1 = some name).map (·.2)
  | _ => none

def isLambda : Expr → Bool
  | lambda .. => true
  | _ => false

def callbackNames : List String :=
  ["validateValue", "propertyChanged", "propertyChanging", "coerceValue", "defaultValueCreator"]

/-- The lambdas among the callback arguments of a call. -/
def callbacks : Expr → List Expr
  | call _ arguments =>
    ((arguments.filter fun a => a.1.any callbackNames.contains).map (·.2)).filter isLambda
  | _ => []

/-- The method that a lambda calls. -/
def invoked? : Expr → Option String
  | lambda _ (call (ident method) _) => some method
  | lambda _ (call (member _ method) _) => some method
  | _ => none

/-- The field whose value is read and cast, of the object at hand or of the host. -/
def read? : Expr → Option String
  | cast _ (call (ident "GetValue") [(none, ident field)]) => some field
  | cast _ (call (member (ident "view") "GetValue") [(none, ident field)]) => some field
  | _ => none

/-- The field through which the value is written. -/
def written? : Expr → Option String
  | call (ident "SetValue") [(none, ident field), (none, ident "value")] => some field
  | call (member (ident "view") "SetValue") [(none, ident field), (none, ident "value")] =>
    some field
  | _ => none

/-- The argument is a parameter of the callback, cast to the type of the parameter it is given for.
The host is cast to its type without the mark of nullability. -/
inductive Passes (params : List String) (host : Option TypeReference) :
    Option String × Expr → MethodParameter → Prop where
  | value {x : String} (hx : x ∈ params) (p : MethodParameter) :
      Passes params host (none, cast p.type (ident x)) p
  | host {x : String} (hx : x ∈ params) {h : TypeReference} (hh : host = some h) (name : String) :
      Passes params host (none, cast h.unannotated (ident x)) { type := h.display, name }

/-- The lambda calls the method with as many arguments as it has parameters, on the object as one of
the declaring type unless the property is attached. -/
def Forwards (d : Descriptor) (m : MethodMember) (e : Expr) : Prop :=
  ∃ params target arguments, e = lambda params (call target arguments) ∧
    (match d.host with
      | none => "bindable" ∈ params ∧
        target = member (cast d.declaringType.unannotated (ident "bindable")) m.name
      | some _ => target = ident m.name) ∧
    List.Forall₂ (Passes params d.host) arguments m.parameters

end Expr

namespace Member

def exprs : Member → List Expr
  | field f => [f.initializer]
  | property p => p.getter.body :: (p.setter.map (·.body)).toList
  | method m => m.body.toList

/-- The call that a field is initialized by, if it creates a property. -/
def creation? : Member → Option Expr
  | field f => if f.initializer.isCreation then some f.initializer else none
  | property _ | method _ => none

/-- A method without a body. -/
def stub? : Member → Option MethodMember
  | method m => if m.body.isNone then some m else none
  | field _ | property _ => none

/-- What reads a property, in the property itself or in its getter method. -/
def getterBodies (property : String) : Member → List Expr
  | field _ => []
  | .property p => [p.getter.body]
  | method m => if m.name = MemberName.getter property then m.body.toList else []

def setterBodies (property : String) : Member → List Expr
  | field _ => []
  | .property p => (p.setter.map (·.body)).toList
  | method m => if m.name = MemberName.setter property then m.body.toList else []

end Member

def stubsOf (ms : List Member) : List MethodMember := ms.filterMap (·.stub?)

def creationsOf (ms : List Member) : List Expr := (ms.flatMap (·.exprs)).flatMap (·.creations)

/-- The members fit together, with the call in the initializer of a field. -/
structure WellWired (d : Descriptor) (ms : List Member) (call : Expr) : Prop where
  names_nodup : (ms.map (·.name)).Nodup
  creation_eq : ms.filterMap (·.creation?) = [call]
  /-- Only a default value that is given might create properties as well. -/
  creationsOf_eq : creationsOf ms = call :: d.defaultValue.toList.flatMap (·.creations)
  forwards : ∀ e ∈ call.callbacks, ∃ m ∈ stubsOf ms, e.Forwards d m
  invoked_once : ∀ m ∈ stubsOf ms, call.callbacks.countP (fun e => e.invoked? = some m.name) = 1
  getters_length : (ms.flatMap (·.getterBodies d.name)).length = if d.site = .type then 1 else 0
  reads : ∀ e ∈ ms.flatMap (·.getterBodies d.name), e.read? = some (MemberName.field d.name)
  setters_length : (ms.flatMap (·.setterBodies d.name)).length = if d.site = .type then 1 else 0
  writes : ∀ e ∈ ms.flatMap (·.setterBodies d.name), e.written? =
    some (if d.shape = .readOnly then MemberName.key d.name else MemberName.field d.name)
  field_declared : ∃ f, .field f ∈ ms ∧ f.name = MemberName.field d.name
  key_declared : (∃ f, .field f ∈ ms ∧ f.name = MemberName.key d.name) ↔ d.shape = .readOnly

namespace Expr

theorem creations_literal (value : Literal) : (literal value).creations = [] := rfl

theorem creations_typeOf (type : String) : (typeOf type).creations = [] := rfl

theorem creations_lambda (params : List String) (body : Expr) :
    (lambda params body).creations = body.creations :=
  rfl

theorem creations_call (target : Expr) (arguments : List (Option String × Expr)) :
    (call target arguments).creations =
      (if (call target arguments).isCreation then [call target arguments] else []) ++
        target.creations ++ arguments.flatMap (·.2.creations) := by
  rw [creations, parts, partsOfArguments_eq, List.filter_cons, List.filter_append,
    List.filter_flatMap]
  split <;> rfl

end Expr

namespace Descriptor

variable {o : Options} {d : Descriptor}

theorem exists_field_of_mem {m : Member} (hm : m ∈ d.keyFields o) : ∃ f, m = .field f := by
  rw [keyFields] at hm
  cases hshape : d.shape <;> simp [hshape, staticField] at hm
  · exact ⟨_, hm⟩
  · rcases hm with rfl | rfl <;> exact ⟨_, rfl⟩

theorem exists_stub_of_mem {m : Member} (hm : m ∈ d.stubs) :
    ∃ s, m = .method s ∧ s.body = none := by
  have hall : ∀ m ∈ d.stubs, ∃ s, m = .method s ∧ s.body = none := by
    rw [stubs]
    cases d.hasValidate <;> cases d.hasCoerce <;> cases d.emitsFactory <;> simp [stub]
  exact hall m hm

theorem creations_callback (d : Descriptor) (params : List String) (stub : String)
    {args : List (Option String × Expr)} (hargs : ∀ a ∈ args, a.2.creations = []) :
    (Expr.lambda params (d.forward stub args)).creations = [] := by
  have hflat : args.flatMap (·.2.creations) = [] := List.flatMap_eq_nil_iff.mpr hargs
  rw [Expr.creations_lambda, forward]
  cases d.host with
  | none =>
    rw [Expr.creations_call, hflat]
    rfl
  | some host =>
    rw [Expr.creations_call, List.flatMap_cons, hflat]
    rfl

theorem creations_defaultExpr (d : Descriptor) :
    d.defaultExpr.creations = d.defaultValue.toList.flatMap (·.creations) := by
  rw [defaultExpr]
  cases d.defaultValue with
  | some e => simp
  | none =>
    dsimp only
    split <;> split <;> rfl

theorem isCreation_createCall (d : Descriptor) : d.createCall.isCreation := by
  have hmethod : Expr.creationMethods.contains d.createMethod := by
    rw [createMethod]
    cases d.shape <;> cases d.isAttached <;> decide
  simp only [createCall, Expr.isCreation, hmethod, decide_true, Bool.and_self]

theorem creations_createCall (d : Descriptor) :
    d.createCall.creations = d.createCall :: d.defaultValue.toList.flatMap (·.creations) := by
  have htyped : ∀ x, (d.typedArgument x).2.creations = [] := fun _ => rfl
  have hmode : d.defaultMode.expr.creations = [] := by
    cases d.defaultMode <;> rfl
  have hchange : ∀ stub, (d.changeCallback stub).creations = [] := fun stub =>
    d.creations_callback _ stub (by simp [htyped])
  have hvalue : ∀ b stub, (if b = true then d.valueCallback stub else .null).creations = [] := by
    intro b stub
    cases b with
    | false => rfl
    | true => exact d.creations_callback _ stub (by simp [htyped])
  have hfactory : ∀ b stub,
      (if b = true then d.factoryCallback stub else .null).creations = [] := by
    intro b stub
    cases b with
    | false => rfl
    | true => exact d.creations_callback _ stub (by simp)
  have harguments : d.createArguments.flatMap (·.2.creations) =
      d.defaultValue.toList.flatMap (·.creations) := by
    simp [createArguments, Expr.named, Expr.creations_literal, Expr.creations_typeOf, hmode,
      hchange, hvalue, hfactory, creations_defaultExpr]
  have htarget : (Expr.member (.ident Framework.bindableProperty) d.createMethod).creations = [] :=
    rfl
  have hself := d.isCreation_createCall
  rw [createCall] at hself ⊢
  rw [Expr.creations_call, if_pos hself, htarget, harguments]
  rfl

theorem creationsOf_members (o : Options) (d : Descriptor) :
    creationsOf (d.members o) = d.createCall :: d.defaultValue.toList.flatMap (·.creations) := by
  have hfields : creationsOf (d.keyFields o) = d.createCall.creations := by
    rw [keyFields, creationsOf]
    cases d.shape <;> simp [staticField, Member.exprs]
    rfl
  have haccessors : creationsOf (d.accessors o) = [] := by
    rw [accessors, creationsOf]
    cases d.site <;> cases d.host <;> rfl
  have hstubs : d.stubs.flatMap (·.exprs) = [] := by
    refine List.flatMap_eq_nil_iff.mpr fun m hm => ?_
    obtain ⟨s, rfl, hbody⟩ := exists_stub_of_mem hm
    rw [Member.exprs, hbody]
    rfl
  rw [creationsOf] at hfields haccessors
  rw [members, creationsOf, List.flatMap_append, hstubs, List.append_nil, List.flatMap_append,
    List.flatMap_append, hfields, haccessors, creations_createCall, List.append_nil]

theorem members_creation? (o : Options) (d : Descriptor) :
    (d.members o).filterMap (·.creation?) = [d.createCall] := by
  have hfields : (d.keyFields o).filterMap (·.creation?) = [d.createCall] := by
    have hself := d.isCreation_createCall
    have hprojection : (Expr.member (.ident (MemberName.key d.name)) "BindableProperty").isCreation =
        false :=
      rfl
    rw [keyFields]
    cases d.shape <;> simp [staticField, Member.creation?, hself, hprojection]
  have haccessors : (d.accessors o).filterMap (·.creation?) = [] := by
    rw [accessors]
    cases d.site <;> cases d.host <;> rfl
  have hstubs : d.stubs.filterMap (·.creation?) = [] := by
    refine List.filterMap_eq_nil_iff.mpr fun m hm => ?_
    obtain ⟨s, rfl, -⟩ := exists_stub_of_mem hm
    rfl
  rw [members, List.filterMap_append, List.filterMap_append, hfields, haccessors, hstubs]
  rfl

theorem argument?_defaultValue (d : Descriptor) :
    d.createCall.argument? "defaultValue" = some d.defaultExpr :=
  rfl

theorem argument?_defaultValueCreator (d : Descriptor) :
    d.createCall.argument? "defaultValueCreator" =
      some (if d.emitsFactory then d.factoryCallback (MemberName.defaultValue d.name) else .null) :=
  rfl

/-- The values that a callback for the role is called with, after the object. -/
def callbackValues : MemberRole → List String
  | .changed | .changing => ["oldValue", "newValue"]
  | .validate | .coerce => ["value"]
  | _ => []

def callback (d : Descriptor) (r : MemberRole) : Expr :=
  .lambda ("bindable" :: callbackValues r)
    (d.forward (r.name d.name) ((callbackValues r).map d.typedArgument))

def stubParameters (d : Descriptor) (r : MemberRole) : List MethodParameter :=
  (d.host.map fun h => { type := h.display, name := "view" }).toList ++
    (callbackValues r).map fun x => { type := d.propertyType.display, name := x }

theorem callbacks_createCall (d : Descriptor) :
    d.createCall.callbacks.Perm (d.stubRoles.map d.callback) := by
  have hvalidate : d.valueCallback (MemberName.validate d.name) = d.callback .validate := by
    rw [callback, MemberRole.name_of_isOpen rfl]
    rfl
  have hcoerce : d.valueCallback (MemberName.coerce d.name) = d.callback .coerce := by
    rw [callback, MemberRole.name_of_isOpen rfl]
    rfl
  have hchanged : d.changeCallback (MemberName.changed d.name) = d.callback .changed := rfl
  have hchanging : d.changeCallback (MemberName.changing d.name) = d.callback .changing := rfl
  have hfactory : d.factoryCallback (MemberName.defaultValue d.name) = d.callback .defaultValue :=
    rfl
  have hcallbacks : d.createCall.callbacks =
      (if d.hasValidate then [d.callback .validate] else []) ++
        [d.callback .changed, d.callback .changing] ++
        (if d.hasCoerce then [d.callback .coerce] else []) ++
        (if d.emitsFactory then [d.callback .defaultValue] else []) := by
    rw [createCall, Expr.callbacks, createArguments, hvalidate, hcoerce, hchanged, hchanging,
      hfactory]
    cases d.hasValidate <;> cases d.hasCoerce <;> cases d.emitsFactory <;> rfl
  have hroles : d.stubRoles.map d.callback = [d.callback .changed, d.callback .changing] ++
      (if d.hasValidate then [d.callback .validate] else []) ++
        (if d.hasCoerce then [d.callback .coerce] else []) ++
        (if d.emitsFactory then [d.callback .defaultValue] else []) := by
    rw [stubRoles]
    cases d.hasValidate <;> cases d.hasCoerce <;> cases d.emitsFactory <;> rfl
  rw [hcallbacks, hroles]
  exact (List.perm_append_comm.append_right _).append_right _

theorem stubsOf_members (o : Options) (d : Descriptor) :
    (stubsOf (d.members o)).map (fun m => (m.name, m.parameters)) =
      d.stubRoles.map fun r => (r.name d.name, d.stubParameters r) := by
  have hfields : stubsOf (d.keyFields o) = [] := by
    refine List.filterMap_eq_nil_iff.mpr fun m hm => ?_
    obtain ⟨f, rfl⟩ := exists_field_of_mem hm
    rfl
  have haccessors : stubsOf (d.accessors o) = [] := by
    rw [accessors]
    cases d.site <;> cases d.host <;> rfl
  have hstubs : (stubsOf d.stubs).map (fun m => (m.name, m.parameters)) =
      d.stubRoles.map fun r => (r.name d.name, d.stubParameters r) := by
    rw [stubs, stubRoles]
    cases d.hasValidate <;> cases d.hasCoerce <;> cases d.emitsFactory <;>
      simp [stubsOf, stub, Member.stub?, stubParameters, callbackValues, MemberRole.name,
        MemberRole.start, MemberRole.ending, MemberName.changed, MemberName.changing,
        MemberName.validate, MemberName.coerce, MemberName.defaultValue]
  have happend : stubsOf (d.members o) = stubsOf d.stubs := by
    rw [members, stubsOf, List.filterMap_append, List.filterMap_append, ← stubsOf, ← stubsOf,
      ← stubsOf, hfields, haccessors]
    rfl
  rw [happend, hstubs]

theorem invoked?_callback (d : Descriptor) (r : MemberRole) :
    (d.callback r).invoked? = some (r.name d.name) := by
  rw [callback, forward]
  cases d.host <;> rfl

/-- A callback fits a method that takes its values after the host. -/
theorem forwards_callback (d : Descriptor) (r : MemberRole) (m : MethodMember)
    (hname : m.name = r.name d.name) (hparameters : m.parameters = d.stubParameters r) :
    Expr.Forwards d m (d.callback r) := by
  have hvalues : List.Forall₂ (Expr.Passes ("bindable" :: callbackValues r) d.host)
      ((callbackValues r).map d.typedArgument)
      ((callbackValues r).map fun x => { type := d.propertyType.display, name := x }) := by
    rw [List.forall₂_map_left_iff, List.forall₂_map_right_iff, List.forall₂_same]
    exact fun x hx => .value (List.mem_cons_of_mem _ hx) { type := d.propertyType.display, name := x }
  have hobject : "bindable" ∈ "bindable" :: callbackValues r := List.mem_cons_self
  rw [stubParameters] at hparameters
  rw [callback, forward, ← hname]
  cases hhost : d.host with
  | none =>
    rw [hhost] at hparameters hvalues
    refine ⟨_, _, _, rfl, ?_, ?_⟩
    · rw [hhost]
      exact ⟨hobject, rfl⟩
    · rw [hparameters, hhost]
      exact hvalues
  | some host =>
    rw [hhost] at hparameters
    refine ⟨_, _, _, rfl, ?_, ?_⟩
    · rw [hhost]
    · rw [hparameters]
      exact .cons (.host hobject hhost "view") hvalues

theorem forwards_of_mem_callbacks {e : Expr} (he : e ∈ d.createCall.callbacks) :
    ∃ m ∈ stubsOf (d.members o), e.Forwards d m := by
  obtain ⟨r, hr, rfl⟩ := List.mem_map.mp ((d.callbacks_createCall).mem_iff.mp he)
  have hpair := List.mem_map_of_mem (f := fun r => (r.name d.name, d.stubParameters r)) hr
  rw [← stubsOf_members o] at hpair
  obtain ⟨m, hm, hpair⟩ := List.mem_map.mp hpair
  exact ⟨m, hm, d.forwards_callback r m (congrArg Prod.fst hpair) (congrArg Prod.snd hpair)⟩

theorem invoked_once_of_mem_stubsOf {m : MethodMember} (hm : m ∈ stubsOf (d.members o)) :
    d.createCall.callbacks.countP (fun e => e.invoked? = some m.name) = 1 := by
  have hpair := List.mem_map_of_mem (f := fun m : MethodMember => (m.name, m.parameters)) hm
  rw [stubsOf_members] at hpair
  obtain ⟨r, hr, hpair⟩ := List.mem_map.mp hpair
  have hname : r.name d.name = m.name := congrArg Prod.fst hpair
  have hroles : d.stubRoles.Nodup := d.roles_nodup.sublist (List.sublist_append_right ..)
  -- the callbacks are those of the roles, and no two roles make the same name
  have honly : ∀ r' : MemberRole, (d.callback r').invoked? = some m.name ↔ r' = r := by
    intro r'
    rw [invoked?_callback, ← hname, Option.some_inj]
    exact (MemberRole.name_left_injective d.name).eq_iff
  rw [(d.callbacks_createCall).countP_eq, List.countP_map]
  simp only [Function.comp_def, honly]
  exact List.count_eq_one_of_mem hroles hr

theorem getterBodies_members (o : Options) (d : Descriptor) :
    (d.members o).flatMap (·.getterBodies d.name) =
      (d.accessors o).flatMap (·.getterBodies d.name) := by
  have hfields : (d.keyFields o).flatMap (·.getterBodies d.name) = [] := by
    refine List.flatMap_eq_nil_iff.mpr fun m hm => ?_
    obtain ⟨f, rfl⟩ := exists_field_of_mem hm
    rfl
  have hstubs : d.stubs.flatMap (·.getterBodies d.name) = [] := by
    refine List.flatMap_eq_nil_iff.mpr fun m hm => ?_
    obtain ⟨s, rfl, hbody⟩ := exists_stub_of_mem hm
    rw [Member.getterBodies, hbody]
    exact ite_self _
  rw [members, List.flatMap_append, List.flatMap_append, hfields, hstubs, List.append_nil]
  rfl

theorem getterBodies_accessors (o : Options) (d : Descriptor) :
    ((d.accessors o).flatMap (·.getterBodies d.name)).length = (if d.site = .type then 1 else 0) ∧
      ∀ e ∈ (d.accessors o).flatMap (·.getterBodies d.name), e.read? = some (MemberName.field d.name) := by
  have hsetter : MemberName.setter d.name ≠ MemberName.getter d.name := by
    simp [MemberName.setter, MemberName.getter]
  rw [accessors]
  cases d.site with
  | member => simp
  | type => cases d.host <;>
      simp [instanceAccessor, attachedAccessors, Member.getterBodies, hsetter, Expr.read?,
        Expr.positional]

theorem writeHandle_eq (d : Descriptor) : d.writeHandle =
    if d.shape = .readOnly then MemberName.key d.name else MemberName.field d.name := by
  rw [writeHandle]
  cases d.shape <;> rfl

theorem setterBodies_members (o : Options) (d : Descriptor) :
    (d.members o).flatMap (·.setterBodies d.name) =
      (d.accessors o).flatMap (·.setterBodies d.name) := by
  have hfields : (d.keyFields o).flatMap (·.setterBodies d.name) = [] := by
    refine List.flatMap_eq_nil_iff.mpr fun m hm => ?_
    obtain ⟨f, rfl⟩ := exists_field_of_mem hm
    rfl
  have hstubs : d.stubs.flatMap (·.setterBodies d.name) = [] := by
    refine List.flatMap_eq_nil_iff.mpr fun m hm => ?_
    obtain ⟨s, rfl, hbody⟩ := exists_stub_of_mem hm
    rw [Member.setterBodies, hbody]
    exact ite_self _
  rw [members, List.flatMap_append, List.flatMap_append, hfields, hstubs, List.append_nil]
  rfl

theorem setterBodies_accessors (o : Options) (d : Descriptor) :
    ((d.accessors o).flatMap (·.setterBodies d.name)).length = (if d.site = .type then 1 else 0) ∧
      ∀ e ∈ (d.accessors o).flatMap (·.setterBodies d.name), e.written? = some d.writeHandle := by
  have hgetter : MemberName.getter d.name ≠ MemberName.setter d.name := by
    simp [MemberName.setter, MemberName.getter]
  rw [accessors]
  cases d.site with
  | member => simp
  | type => cases d.host <;>
      simp [instanceAccessor, attachedAccessors, Member.setterBodies, hgetter, Expr.written?,
        Expr.positional]

theorem exists_field_mem_iff (o : Options) (d : Descriptor) {r : MemberRole}
    (hr : r.kind = .field) :
    (∃ f, .field f ∈ d.members o ∧ f.name = r.name d.name) ↔ r ∈ d.roles := by
  constructor
  · rintro ⟨f, hf, hname⟩
    obtain ⟨r', hr', -, hname'⟩ := exists_role_of_mem hf
    have heq : r = r' := MemberRole.name_left_injective d.name (hname.symm.trans hname')
    exact heq ▸ hr'
  · intro hmem
    obtain ⟨m, hm, hkind, hname⟩ := exists_member_of_mem_roles (o := o) hmem
    rw [hr] at hkind
    cases m with
    | field f => exact ⟨f, hm, hname⟩
    | property p => cases hkind
    | method m => cases hkind

theorem field_mem_roles (d : Descriptor) : .field ∈ d.roles := by
  rw [roles, fieldRoles]
  cases d.shape <;> simp

theorem key_mem_roles_iff (d : Descriptor) : .key ∈ d.roles ↔ d.shape = .readOnly := by
  have haccessors : .key ∉ d.accessorRoles := by
    rw [accessorRoles]
    cases d.site <;> cases d.host <;> simp
  have hstubs : .key ∉ d.stubRoles := by
    rw [stubRoles]
    cases d.hasValidate <;> cases d.hasCoerce <;> cases d.emitsFactory <;> simp
  rw [roles, fieldRoles]
  cases d.shape <;> simp [haccessors, hstubs]

theorem wellWired_members (o : Options) (d : Descriptor) :
    ∃ call, WellWired d (d.members o) call := by
  obtain ⟨hgetters, hreads⟩ := d.getterBodies_accessors o
  obtain ⟨hsetters, hwrites⟩ := d.setterBodies_accessors o
  rw [← getterBodies_members] at hgetters hreads
  rw [← setterBodies_members] at hsetters hwrites
  exact ⟨d.createCall, {
    names_nodup := d.members_names_nodup o
    creation_eq := d.members_creation? o
    creationsOf_eq := d.creationsOf_members o
    forwards := fun _ => forwards_of_mem_callbacks
    invoked_once := fun _ => invoked_once_of_mem_stubsOf
    getters_length := hgetters
    reads := hreads
    setters_length := hsetters
    writes := d.writeHandle_eq ▸ hwrites
    field_declared := (d.exists_field_mem_iff o rfl).mpr d.field_mem_roles
    key_declared := (d.exists_field_mem_iff o rfl).trans d.key_mem_roles_iff }⟩

end Descriptor

end Bindable
