/-
# Injector.Source -- what the annotations of a program mean

A source is a program together with the options under which it is read.  The
questions here are about annotations: which of them are scopes or qualifiers,
what is injectable, what a member of a component does.  A question that can find
something wrong answers with the problems beside its value, and never without a
value that the next step can go on with.

With `javax.inject` enabled its scopes count in addition to the native ones; its
qualifiers count only where there is no native one.
-/
import Injector.Program.Hierarchy
import Injector.Log
import Injector.Options

namespace Injector

set_option autoImplicit false

structure Source where
  program : Program
  options : Options := {}
  deriving Inhabited

namespace Ty

mutual

/-- Qualifiers written on arguments of the type, at any depth, left to right. -/
def innerQualifiers : Ty → List AnnotationUse
  | ⟨_, _, _, as, _, _, _⟩ => innerQualifiersAll as

def innerQualifiersAll : List Ty → List AnnotationUse
  | [] => []
  | t :: rest => t.qualifier.toList ++ innerQualifiers t ++ innerQualifiersAll rest

end

end Ty

namespace Source

/-! ## Scopes and qualifiers -/

/-- Whether the class of `a` carries the annotation `marker`. -/
def isMarked (src : Source) (marker : DeclName) (a : AnnotationUse) : Bool :=
  match src.program.annotationClassOf a with
  | some id => (src.program.classAt id).carries marker
  | none => false

/-- The scope annotations among `as`. -/
def scopes (src : Source) (as : List AnnotationUse) : List AnnotationUse :=
  as.filter (src.isMarked .scope) ++
    if src.options.enableJavaxAnnotations then as.filter (src.isMarked .javaxScope) else []

/-- The scope of a declaration annotated with `as`. -/
def scope (src : Source) (as : List AnnotationUse) : Option AnnotationUse × List Problem :=
  let scopes := src.scopes as
  (scopes.head?, if scopes.length > 1 then [.severalScopes scopes] else [])

/-- The qualifier annotations among `as`. -/
def qualifiers (src : Source) (as : List AnnotationUse) : List AnnotationUse :=
  let native := as.filter (src.isMarked .qualifier)
  if native.isEmpty && src.options.enableJavaxAnnotations then
    as.filter (src.isMarked .javaxQualifier)
  else native

/-- The qualifier of a declaration of type `ty` annotated with `as`: its own one,
else the one written on the type.  Inside a type none may be written. -/
def qualifier (src : Source) (as : List AnnotationUse) (ty : Ty) :
    Option AnnotationUse × List Problem :=
  let own := src.qualifiers as
  let all :=
    match ty.qualifier with
    | some q => if own.contains q then own else own ++ [q]
    | none => own
  (all.head?, (if all.length > 1 then [.severalQualifiers all] else []) ++
    ty.innerQualifiers.map .innerQualifier)

/-! ## Injectable declarations -/

/-- Whether `as` marks a declaration as injectable. -/
def isInjectable (src : Source) (as : List AnnotationUse) : Bool :=
  as.any fun a => a.isA .inject || (src.options.enableJavaxAnnotations && a.isA .javaxInject)

/-- The positions of the constructors marked injectable. -/
def injectCtors (src : Source) (c : ClassDecl) : List Nat :=
  c.ctors.zipIdx.filterMap fun (ctor, n) =>
    if src.isInjectable ctor.annotations then some n else none

/-- The constructor that builds the class: the primary one when the class is marked
injectable, else the one constructor that is. -/
def injectCtor (src : Source) (id : ClassId) : Option Nat × List Finding :=
  let c := src.program.classAt id
  let marked := src.injectCtors c
  if src.isInjectable c.annotations then
    (if c.ctors.isEmpty then none else some 0,
      match marked.head? with
      | some n => [⟨.injectedTwice, some (.ctor id (UInt64.ofNat n))⟩]
      | none => [])
  else
    (marked.head?,
      if marked.length > 1 then [⟨.severalConstructors, some (.cls id)⟩] else [])

end Source

/-! ## Roles of members -/

/-- Whether `as` marks a component. -/
def AnnotationUse.markComponent (as : List AnnotationUse) : Bool := as.any (·.isA .component)

namespace MemberDecl

/-- The member is a binding. -/
def isBinding (m : MemberDecl) : Bool := m.carries .provides

/-- The member contributes to a set. -/
def contributesToSet (m : MemberDecl) : Bool := m.carries .intoSet

/-- The member contributes to a map. -/
def contributesToMap (m : MemberDecl) : Bool := m.carries .intoMap

/-- The member is an accessor, for a component to implement: abstract, without
parameters or receiver, and with a value. -/
def isAccessor (m : MemberDecl) : Bool :=
  m.isAbstract && (m.kind == .property || m.params.isEmpty) && m.receiver.isNone &&
    !m.returnType.isUnit

end MemberDecl

end Injector
