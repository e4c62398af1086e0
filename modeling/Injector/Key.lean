/-
# Injector.Key -- what a request asks for

A key is a type together with an optional qualifier; two requests with equal keys
are requests for the same value.  A qualifier written on the type is the key's
qualifier unless the request has one of its own, and is no longer part of the
type then.
-/
import Injector.Ty.Text

namespace Injector

set_option autoImplicit false

structure Key where
  ty : Ty
  qualifier : Option AnnotationUse := none
  deriving DecidableEq, Inhabited

namespace Key

/-- The key for a type requested under `qualifier`. -/
def of (ty : Ty) (qualifier : Option AnnotationUse := none) : Key :=
  { ty := ty.unqualified, qualifier := qualifier.orElse fun _ => ty.qualifier }

/-- The qualifier, if any, in front of the type. -/
def text (k : Key) : String :=
  match k.qualifier with
  | some q => q.text ++ " " ++ k.ty.text
  | none => k.ty.text

/-- Under a qualifier of the request the one written on the type plays no part. -/
theorem of_unqualified (ty : Ty) (q : AnnotationUse) :
    of ty (some q) = of ty.unqualified (some q) := rfl

end Key

end Injector
