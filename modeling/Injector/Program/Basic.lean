/-
# Injector.Program.Basic -- the declarations of one compilation

A program is the list of its classes and the list of its members, each known by
its position.  Two classes may have the same name: looking a name up finds the
one that was declared last (`classNamed`).  An identity that belongs to no
declaration stands for an empty one, so that reading a program never fails.
-/
import Injector.Ty.Subst
import Injector.Element

namespace Injector

set_option autoImplicit false

inductive Visibility where
  | everywhere
  | withinModule
  | withinSubclasses
  | withinOwner
  deriving DecidableEq, Inhabited, Repr

inductive ClassKind where
  | regular
  | interface
  /-- A class with a single instance. -/
  | object
  | annotationClass
  deriving DecidableEq, Inhabited, Repr

inductive MemberKind where
  | function
  | property
  deriving DecidableEq, Inhabited, Repr

/-- A type variable of a declaration and its upper bounds. -/
structure TypeVarDecl where
  name : String
  bounds : List Ty := []
  deriving DecidableEq, Inhabited

/-- A parameter of a constructor or a function. -/
structure ParamDecl where
  name : String
  ty : Ty
  annotations : List AnnotationUse := []
  /-- Callers may leave the argument out. -/
  hasDefault : Bool := false
  /-- The parameter of a constructor is a field of the class too. -/
  isField : Bool := false
  /-- Visibility of that field. -/
  visibility : Visibility := .everywhere
  deriving DecidableEq, Inhabited

structure CtorDecl where
  params : List ParamDecl := []
  annotations : List AnnotationUse := []
  /-- Arguments may be passed by name. -/
  namedArguments : Bool := true
  deriving DecidableEq, Inhabited

structure ClassDecl where
  package : String := ""
  name : String := ""
  kind : ClassKind := .regular
  visibility : Visibility := .everywhere
  isAbstract : Bool := false
  annotations : List AnnotationUse := []
  typeVars : List TypeVarDecl := []
  /-- Declared supertypes, over the type variables. -/
  supers : List Ty := []
  /-- Constructors, the primary one first. -/
  ctors : List CtorDecl := []
  /-- Members in order of declaration. -/
  members : List MemberId := []
  deriving DecidableEq, Inhabited

structure MemberDecl where
  /-- The class it belongs to; none for a top-level function. -/
  owner : Option ClassId := none
  /-- Package of a top-level function. -/
  package : String := ""
  name : String := ""
  kind : MemberKind := .function
  visibility : Visibility := .everywhere
  isAbstract : Bool := false
  isSuspend : Bool := false
  annotations : List AnnotationUse := []
  /-- The type that an extension extends. -/
  receiver : Option Ty := none
  params : List ParamDecl := []
  returnType : Ty
  typeVars : List TypeVarDecl := []
  deriving DecidableEq, Inhabited

namespace ClassDecl

def decl (c : ClassDecl) : DeclName := ⟨c.package, c.name⟩

def carries (c : ClassDecl) (d : DeclName) : Bool := c.annotations.any (·.isA d)

/-- The class applied to its own type variables. -/
def ty (c : ClassDecl) : Ty :=
  { package := c.package, name := c.name, args := c.typeVars.map fun v => .typeVar v.name }

def primaryCtor? (c : ClassDecl) : Option CtorDecl := c.ctors.head?

/-- What the type variables stand for in `ty`, a use of this class. -/
def substFor (c : ClassDecl) (ty : Ty) : Subst :=
  Subst.ofArgs (c.typeVars.map (·.name)) ty.dealias.args

/-- The class of a new annotation that carries the annotation `marker`. -/
def annotationClass (package name : String) (marker : DeclName) : ClassDecl :=
  { package, name, kind := .annotationClass, annotations := [.ofDecl marker] }

end ClassDecl

namespace MemberDecl

def carries (m : MemberDecl) (d : DeclName) : Bool := m.annotations.any (·.isA d)

end MemberDecl

structure Program where
  classes : List ClassDecl := []
  members : List MemberDecl := []
  deriving Inhabited

namespace Program

/-! ## Building -/

def empty : Program := {}

/-- Add a class; a class of the same name hides it from then on if added later. -/
def addClass (p : Program) (c : ClassDecl) : ClassId × Program :=
  (.ofNat p.classes.length, { p with classes := p.classes ++ [c] })

/-- Change the class `id`. -/
def modifyClass (p : Program) (id : ClassId) (f : ClassDecl → ClassDecl) : Program :=
  { p with classes := p.classes.modify id.toNat f }

/-- Add a member to the class `owner`. -/
def addMember (p : Program) (owner : ClassId) (m : MemberDecl) : MemberId × Program :=
  let id := MemberId.ofNat p.members.length
  let p := { p with members := p.members ++ [{ m with owner := some owner }] }
  (id, p.modifyClass owner fun c => { c with members := c.members ++ [id] })

/-- Add a top-level function. -/
def addFunction (p : Program) (m : MemberDecl) : MemberId × Program :=
  (.ofNat p.members.length, { p with members := p.members ++ [{ m with owner := none }] })

/-! ## Reading -/

def classAt (p : Program) (id : ClassId) : ClassDecl := (p.classes[id.toNat]?).getD default

def memberAt (p : Program) (id : MemberId) : MemberDecl := (p.members[id.toNat]?).getD default

/-- The last position in `classes`, counted from `n`, with the given name. -/
def lastNamed (package name : String) : List ClassDecl → Nat → Option Nat
  | [], _ => none
  | c :: rest, n =>
    match lastNamed package name rest (n + 1) with
    | some found => some found
    | none => if c.name = name ∧ c.package = package then some n else none

/-- The class of that name, the last one declared. -/
def classNamed (p : Program) (d : DeclName) : Option ClassId :=
  (lastNamed d.package d.name p.classes 0).map ClassId.ofNat

/-- The class that `ty` is a use of, aliases followed. -/
def classOf (p : Program) (ty : Ty) : Option ClassId := p.classNamed ty.dealias.decl

/-- The class of an annotation. -/
def annotationClassOf (p : Program) (a : AnnotationUse) : Option ClassId := p.classNamed a.decl

/-- The top-level functions of that name, in order of declaration. -/
def functionsNamed (p : Program) (d : DeclName) : List MemberId :=
  p.members.zipIdx.filterMap fun (m, n) =>
    if m.owner = none ∧ m.package = d.package ∧ m.name = d.name then some (.ofNat n) else none

end Program

end Injector
