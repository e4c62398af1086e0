/-
# Injector.AnnotationUse -- annotation usages

An annotation usage names an annotation class and carries the values of its
arguments as text.  Two usages are the same annotation only if their arguments
are the same too.
-/
import Injector.DeclName

namespace Injector

set_option autoImplicit false

structure AnnotationUse where
  package : String
  name : String
  args : List String := []
  deriving DecidableEq, Inhabited, Repr

namespace AnnotationUse

/-- A usage without arguments. -/
def ofDecl (d : DeclName) : AnnotationUse := { package := d.package, name := d.name }

/-- The annotation class. -/
def decl (a : AnnotationUse) : DeclName := ⟨a.package, a.name⟩

/-- Whether this is a usage of the annotation class `d`. -/
def isA (a : AnnotationUse) (d : DeclName) : Bool := d.isNamed a.package a.name

/-- The simple name after an at sign, with the arguments if there are any. -/
def text (a : AnnotationUse) : String :=
  if a.args.isEmpty then "@" ++ a.name
  else "@" ++ a.name ++ "(" ++ String.intercalate ", " a.args ++ ")"

/-- Several usages in brackets. -/
def listText (annotations : List AnnotationUse) : String :=
  "[" ++ String.intercalate ", " (annotations.map text) ++ "]"

end AnnotationUse

end Injector
