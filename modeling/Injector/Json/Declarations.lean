/-
# Injector.Json.Declarations -- types and declarations as JSON

Every type of data that is exchanged has an encoder `toJson`, which writes all
fields in order, and a decoder `ofJson?`, which reads what the encoder writes.
-/
import Injector.Json.Decode
import Injector.Source
import Injector.FieldPath

namespace Injector

set_option autoImplicit false

open Json (record? required absentOr list? bool? str? oneOf? natBelow?)

/-- The name of `a` among named values. -/
def Json.nameOf {α : Type} [DecidableEq α] (names : List (String × α)) (a : α) : Json :=
  match names.find? fun (_, b) => decide (b = a) with
  | some (name, _) => .str name
  | none => .null

/-! ## Names of kinds -/

def TyKind.names : List (String × TyKind) :=
  [("Declared", .declared), ("Function", .function), ("Parameter", .typeVar),
    ("Error", .unresolved)]

def Visibility.names : List (String × Visibility) :=
  [("Public", .everywhere), ("Internal", .withinModule), ("Protected", .withinSubclasses),
    ("Private", .withinOwner)]

def ClassKind.names : List (String × ClassKind) :=
  [("Class", .regular), ("Interface", .interface), ("Object", .object),
    ("Annotation", .annotationClass)]

def MemberKind.names : List (String × MemberKind) :=
  [("Function", .function), ("Property", .property)]

def Severity.names : List (String × Severity) := [("warning", .warning), ("error", .error)]

def TyKind.toJson (k : TyKind) : Json := Json.nameOf TyKind.names k
def TyKind.ofJson? (j : Json) : Option TyKind := oneOf? TyKind.names j

def Visibility.toJson (v : Visibility) : Json := Json.nameOf Visibility.names v
def Visibility.ofJson? (j : Json) : Option Visibility := oneOf? Visibility.names j

def ClassKind.toJson (k : ClassKind) : Json := Json.nameOf ClassKind.names k
def ClassKind.ofJson? (j : Json) : Option ClassKind := oneOf? ClassKind.names j

def MemberKind.toJson (k : MemberKind) : Json := Json.nameOf MemberKind.names k
def MemberKind.ofJson? (j : Json) : Option MemberKind := oneOf? MemberKind.names j

def Severity.toJson (s : Severity) : Json := Json.nameOf Severity.names s
def Severity.ofJson? (j : Json) : Option Severity := oneOf? Severity.names j

/-! ## Identities -/

def ClassId.toJson (id : ClassId) : Json := .nat id.toNat

def ClassId.ofJson? (j : Json) : Option ClassId :=
  (natBelow? UInt32.size j).map fun n => ⟨UInt32.ofNat n⟩

def MemberId.toJson (id : MemberId) : Json := .nat id.toNat

def MemberId.ofJson? (j : Json) : Option MemberId :=
  (natBelow? UInt32.size j).map fun n => ⟨UInt32.ofNat n⟩

def Element.toJson : Element → Json
  | .cls id => .obj [("Class", id.toJson)]
  | .ctor owner index =>
    .obj [("Constructor", .obj [("class", owner.toJson), ("index", .nat index.toNat)])]
  | .member id => .obj [("Method", id.toJson)]

/-- An element is an object with one field, named for its kind; a constructor is
written as an object only. -/
def Element.ofJson? : Json → Option Element
  | .obj [(kind, value)] =>
    if kind = "Class" then (ClassId.ofJson? value).map .cls
    else if kind = "Method" then (MemberId.ofJson? value).map .member
    else if kind = "Constructor" then do
      let owner ← (value.field? "class").bind ClassId.ofJson?
      let index ← (value.field? "index").bind (natBelow? UInt64.size)
      return .ctor owner (UInt64.ofNat index)
    else none
  | _ => none

/-! ## Annotations, types, keys and paths -/

def AnnotationUse.toJson (a : AnnotationUse) : Json :=
  .obj [("package", a.package), ("name", a.name), ("args", .list .str a.args)]

def AnnotationUse.ofJson? (j : Json) : Option AnnotationUse := do
  let fields ← record? ["package", "name", "args"] j
  let package ← required fields "package" str?
  let name ← required fields "name" str?
  let args ← required fields "args" (list? str?)
  return { package, name, args }

namespace Ty

mutual

def toJson : Ty → Json
  | ⟨k, p, n, as, u, q, o⟩ =>
    .obj [("kind", k.toJson), ("package", p), ("name", n), ("args", .arr (toJsonAll as)),
      ("nullable", u), ("qualifier", .option AnnotationUse.toJson q), ("alias_of", toJsonTarget o)]

def toJsonAll : List Ty → List Json
  | [] => []
  | t :: rest => toJson t :: toJsonAll rest

def toJsonTarget : Option Ty → Json
  | none => .null
  | some t => toJson t

end

/-- A type nested no deeper than the given depth. -/
def ofJsonTo : Nat → Json → Option Ty
  | 0, _ => none
  | depth + 1, j => do
    let fields ←
      record? ["kind", "package", "name", "args", "nullable", "qualifier", "alias_of"] j
    let kind ← required fields "kind" TyKind.ofJson?
    let package ← required fields "package" str?
    let name ← required fields "name" str?
    let args ← required fields "args" (list? (ofJsonTo depth))
    let nullable ← required fields "nullable" bool?
    let qualifier ← absentOr fields "qualifier" AnnotationUse.ofJson?
    let aliasOf ← absentOr fields "alias_of" (ofJsonTo depth)
    return { kind, package, name, args, nullable, qualifier, aliasOf }

def ofJson? (j : Json) : Option Ty := ofJsonTo j.height j

end Ty

def Key.toJson (k : Key) : Json :=
  .obj [("ty", k.ty.toJson), ("qualifier", .option AnnotationUse.toJson k.qualifier)]

def Key.ofJson? (j : Json) : Option Key := do
  let fields ← record? ["ty", "qualifier"] j
  let ty ← required fields "ty" Ty.ofJson?
  let qualifier ← absentOr fields "qualifier" AnnotationUse.ofJson?
  return { ty, qualifier }

def FieldPath.toJson (p : FieldPath) : Json := .list .str p.fields

def FieldPath.ofJson? (j : Json) : Option FieldPath := (list? str? j).map FieldPath.mk

/-! ## Declarations -/

def TypeVarDecl.toJson (v : TypeVarDecl) : Json :=
  .obj [("name", v.name), ("bounds", .list Ty.toJson v.bounds)]

def TypeVarDecl.ofJson? (j : Json) : Option TypeVarDecl := do
  let fields ← record? ["name", "bounds"] j
  let name ← required fields "name" str?
  let bounds ← required fields "bounds" (list? Ty.ofJson?)
  return { name, bounds }

def ParamDecl.toJson (p : ParamDecl) : Json :=
  .obj [("name", p.name), ("ty", p.ty.toJson),
    ("annotations", .list AnnotationUse.toJson p.annotations), ("has_default", p.hasDefault),
    ("is_val", p.isField), ("visibility", p.visibility.toJson)]

def ParamDecl.ofJson? (j : Json) : Option ParamDecl := do
  let fields ← record? ["name", "ty", "annotations", "has_default", "is_val", "visibility"] j
  let name ← required fields "name" str?
  let ty ← required fields "ty" Ty.ofJson?
  let annotations ← required fields "annotations" (list? AnnotationUse.ofJson?)
  let hasDefault ← required fields "has_default" bool?
  let isField ← required fields "is_val" bool?
  let visibility ← required fields "visibility" Visibility.ofJson?
  return { name, ty, annotations, hasDefault, isField, visibility }

def CtorDecl.toJson (c : CtorDecl) : Json :=
  .obj [("params", .list ParamDecl.toJson c.params),
    ("annotations", .list AnnotationUse.toJson c.annotations),
    ("supports_named_arguments", c.namedArguments)]

def CtorDecl.ofJson? (j : Json) : Option CtorDecl := do
  let fields ← record? ["params", "annotations", "supports_named_arguments"] j
  let params ← required fields "params" (list? ParamDecl.ofJson?)
  let annotations ← required fields "annotations" (list? AnnotationUse.ofJson?)
  let namedArguments ← required fields "supports_named_arguments" bool?
  return { params, annotations, namedArguments }

def ClassDecl.toJson (c : ClassDecl) : Json :=
  .obj [("package", c.package), ("name", c.name), ("kind", c.kind.toJson),
    ("visibility", c.visibility.toJson), ("is_abstract", c.isAbstract),
    ("annotations", .list AnnotationUse.toJson c.annotations),
    ("type_params", .list TypeVarDecl.toJson c.typeVars),
    ("super_types", .list Ty.toJson c.supers), ("constructors", .list CtorDecl.toJson c.ctors),
    ("methods", .list MemberId.toJson c.members)]

def ClassDecl.ofJson? (j : Json) : Option ClassDecl := do
  let fields ← record? ["package", "name", "kind", "visibility", "is_abstract", "annotations",
    "type_params", "super_types", "constructors", "methods"] j
  let package ← required fields "package" str?
  let name ← required fields "name" str?
  let kind ← required fields "kind" ClassKind.ofJson?
  let visibility ← required fields "visibility" Visibility.ofJson?
  let isAbstract ← required fields "is_abstract" bool?
  let annotations ← required fields "annotations" (list? AnnotationUse.ofJson?)
  let typeVars ← required fields "type_params" (list? TypeVarDecl.ofJson?)
  let supers ← required fields "super_types" (list? Ty.ofJson?)
  let ctors ← required fields "constructors" (list? CtorDecl.ofJson?)
  let members ← required fields "methods" (list? MemberId.ofJson?)
  return { package, name, kind, visibility, isAbstract, annotations, typeVars, supers, ctors,
           members }

def MemberDecl.toJson (m : MemberDecl) : Json :=
  .obj [("owner", .option ClassId.toJson m.owner), ("package", m.package), ("name", m.name),
    ("kind", m.kind.toJson), ("visibility", m.visibility.toJson), ("is_abstract", m.isAbstract),
    ("is_suspend", m.isSuspend), ("annotations", .list AnnotationUse.toJson m.annotations),
    ("receiver", .option Ty.toJson m.receiver), ("params", .list ParamDecl.toJson m.params),
    ("return_type", m.returnType.toJson), ("type_params", .list TypeVarDecl.toJson m.typeVars)]

def MemberDecl.ofJson? (j : Json) : Option MemberDecl := do
  let fields ← record? ["owner", "package", "name", "kind", "visibility", "is_abstract",
    "is_suspend", "annotations", "receiver", "params", "return_type", "type_params"] j
  let owner ← absentOr fields "owner" ClassId.ofJson?
  let package ← required fields "package" str?
  let name ← required fields "name" str?
  let kind ← required fields "kind" MemberKind.ofJson?
  let visibility ← required fields "visibility" Visibility.ofJson?
  let isAbstract ← required fields "is_abstract" bool?
  let isSuspend ← required fields "is_suspend" bool?
  let annotations ← required fields "annotations" (list? AnnotationUse.ofJson?)
  let receiver ← absentOr fields "receiver" Ty.ofJson?
  let params ← required fields "params" (list? ParamDecl.ofJson?)
  let returnType ← required fields "return_type" Ty.ofJson?
  let typeVars ← required fields "type_params" (list? TypeVarDecl.ofJson?)
  return { owner, package, name, kind, visibility, isAbstract, isSuspend, annotations, receiver,
           params, returnType, typeVars }

/-! ## Options -/

namespace Options

def toJson (o : Options) : Json :=
  .obj [("enableJavaxAnnotations", o.enableJavaxAnnotations), ("dumpGraph", o.dumpGraph)]

/-- A flag that is off when it is missing. -/
def flagOf? (fields : List (String × Json)) (name : String) : Option Bool :=
  match Json.lookup name fields with
  | none => some false
  | some j => bool? j

/-- Options from an object or from the first flags in order. -/
def ofJson? (j : Json) : Option Options := do
  let names := ["enableJavaxAnnotations", "dumpGraph"]
  let fields ←
    match j with
    | .obj fields => some fields
    | .arr items => if items.length ≤ names.length then some (names.zip items) else none
    | _ => none
  let enableJavaxAnnotations ← flagOf? fields "enableJavaxAnnotations"
  let dumpGraph ← flagOf? fields "dumpGraph"
  return { enableJavaxAnnotations, dumpGraph }

end Options

end Injector
