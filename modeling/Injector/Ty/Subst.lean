/-
# Injector.Ty.Subst -- putting types for type variables

A substitution is a table from the names of type variables to types.  Where a
variable occurs, its value takes its place; the value admits null if the
occurrence does, and has the occurrence's qualifier unless it brings one of its
own.  Arguments and alias targets are substituted likewise.
-/
import Injector.Ty.Basic
import Injector.Table

namespace Injector

set_option autoImplicit false

/-- Types for type variables, by name. -/
abbrev Subst := Table String Ty

namespace Ty

/-- What stands for an occurrence with the given nullability and qualifier. -/
def fill (nullable : Bool) (qualifier : Option AnnotationUse) (value : Ty) : Ty :=
  { value with nullable := value.nullable || nullable,
               qualifier := value.qualifier.orElse fun _ => qualifier }

mutual

/-- The type with `s` put for its variables. -/
def subst (s : Subst) : Ty → Ty
  | ⟨k, p, n, as, u, q, o⟩ =>
    let whole : Ty := ⟨k, p, n, substAll s as, u, q, substTarget s o⟩
    if k = .typeVar then
      match s.get? n with
      | some value => fill u q value
      | none => whole
    else whole

def substAll (s : Subst) : List Ty → List Ty
  | [] => []
  | t :: rest => subst s t :: substAll s rest

def substTarget (s : Subst) : Option Ty → Option Ty
  | none => none
  | some t => some (subst s t)

end

theorem substAll_eq_map (s : Subst) (ts : List Ty) : substAll s ts = ts.map (subst s) := by
  induction ts with
  | nil => rfl
  | cons t rest ih => simp [substAll, ih]

theorem substTarget_eq_map (s : Subst) (o : Option Ty) : substTarget s o = o.map (subst s) := by
  cases o <;> rfl

mutual

/-- Nothing is put for any variable. -/
theorem subst_empty : ∀ t : Ty, t.subst .empty = t
  | ⟨k, p, n, as, u, q, o⟩ => by
    simp [subst, substAll_empty as, substTarget_empty o]

theorem substAll_empty : ∀ ts : List Ty, substAll .empty ts = ts
  | [] => rfl
  | t :: rest => by rw [substAll, subst_empty t, substAll_empty rest]

theorem substTarget_empty : ∀ o : Option Ty, substTarget .empty o = o
  | none => rfl
  | some t => by rw [substTarget, subst_empty t]

end

end Ty

namespace Subst

/-- The arguments of a type for the variables of its declaration, in order. -/
def ofArgs (names : List String) (args : List Ty) : Subst := Table.ofList (names.zip args)

end Subst

end Injector
