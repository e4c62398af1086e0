/-
# Injector.Ty.Pattern -- types as patterns

`fit` compares a pattern with a type and collects what the type variables of the
pattern stand for.  A variable fits any type the first time and only the very
same type afterwards.  Everything else must agree after aliases are followed:
kind, name, nullability, number of arguments, and the arguments in order.
Qualifiers inside a pattern play no part.

What was bound before a mismatch stays bound in the answer.
-/
import Injector.Ty.Subst

namespace Injector.Ty

set_option autoImplicit false

/-- An occurrence of the variable `name` where `target` stands. -/
def fitVar (name : String) (target : Ty) (s : Subst) : Bool × Subst :=
  match s.get? name with
  | some bound => (bound == target, s)
  | none => (true, s.insert name target)

/-- Agreement in everything but the arguments, which must be equally many. -/
def fitsHead (kind : TyKind) (package name : String) (nullable : Bool) (arity : Nat)
    (target : Ty) : Bool :=
  kind == target.kind && package == target.package && name == target.name &&
    nullable == target.nullable && arity == target.args.length

mutual

/-- A pattern that is no variable, against a type that is no alias. -/
def fitShape : Ty → Ty → Subst → Bool × Subst
  | ⟨k, p, n, as, u, _, none⟩, target, s =>
    if fitsHead k p n u as.length target then fitAll as target.args s else (false, s)
  | ⟨_, _, _, _, _, _, some pattern⟩, target, s => fitShape pattern target s

/-- Arguments in order, up to the first mismatch. -/
def fitAll : List Ty → List Ty → Subst → Bool × Subst
  | pattern :: patterns, target :: targets, s =>
    match (if pattern.kind = .typeVar then fitVar pattern.name target s
      else fitShape pattern target.dealias s) with
    | (true, s) => fitAll patterns targets s
    | (false, s) => (false, s)
  | _, _, s => (true, s)

end

/-- Whether `pattern` fits `target`, and what its variables stand for then. -/
def fit (pattern target : Ty) (s : Subst) : Bool × Subst :=
  if pattern.kind = .typeVar then fitVar pattern.name target s
  else fitShape pattern target.dealias s

end Injector.Ty
