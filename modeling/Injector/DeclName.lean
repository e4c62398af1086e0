/-
# Injector.DeclName -- names of declarations, and the ones the rules know

A declaration is named by its package and its simple name, where a simple name
separates nested declarations by dots.  This module also lists the declarations
that the rules of injection mention: the annotations that mark a program, and
the library types with a meaning of their own.
-/
namespace Injector

set_option autoImplicit false

/-- A package, empty for the root package, and a simple name. -/
structure DeclName where
  package : String
  name : String
  deriving DecidableEq, Inhabited, Repr

namespace DeclName

/-- Whether `package` and `name` are this declaration's. -/
def isNamed (d : DeclName) (package name : String) : Bool := d.package == package && d.name == name

/-- The package and the name with a dot between; the root package is left out. -/
def text (d : DeclName) : String :=
  if d.package = "" then d.name else d.package ++ "." ++ d.name

/-- Packages whose declarations are written by their simple name. -/
def prelude : List String := ["kotlin", "kotlin.collections"]

/-- The text in messages: a declaration of the prelude goes by its simple name. -/
def shortText (d : DeclName) : String :=
  if prelude.contains d.package then d.name else d.text

/-- Package of the injection annotations. -/
def annotationPackage : String := "wirebind.annotations"

/-- Package of the function types. -/
def functionPackage : String := "kotlin"

/-- Marks an abstract class as a component. -/
def component : DeclName := ⟨annotationPackage, "Component"⟩
/-- Marks a member as a binding. -/
def provides : DeclName := ⟨annotationPackage, "Provides"⟩
/-- Marks an annotation class as a scope. -/
def scope : DeclName := ⟨annotationPackage, "Scope"⟩
/-- Marks a class, a constructor or a top-level function as injectable. -/
def inject : DeclName := ⟨annotationPackage, "Inject"⟩
/-- Contributes the returned pair to a map. -/
def intoMap : DeclName := ⟨annotationPackage, "IntoMap"⟩
/-- Contributes the returned value to a set. -/
def intoSet : DeclName := ⟨annotationPackage, "IntoSet"⟩
/-- Marks an annotation class as a qualifier. -/
def qualifier : DeclName := ⟨annotationPackage, "Qualifier"⟩

/-- The `javax.inject` counterpart of `inject`. -/
def javaxInject : DeclName := ⟨"javax.inject", "Inject"⟩
/-- The `javax.inject` counterpart of `scope`. -/
def javaxScope : DeclName := ⟨"javax.inject", "Scope"⟩
/-- The `javax.inject` counterpart of `qualifier`. -/
def javaxQualifier : DeclName := ⟨"javax.inject", "Qualifier"⟩

/-- A value computed on first access. -/
def lazy : DeclName := ⟨"kotlin", "Lazy"⟩
/-- The set container. -/
def set : DeclName := ⟨"kotlin.collections", "Set"⟩
/-- The map container. -/
def map : DeclName := ⟨"kotlin.collections", "Map"⟩
/-- A key with a value. -/
def pair : DeclName := ⟨"kotlin", "Pair"⟩
/-- The type of members that return nothing. -/
def unit : DeclName := ⟨"kotlin", "Unit"⟩

theorem isNamed_iff (d : DeclName) (package name : String) :
    d.isNamed package name = true ↔ d = ⟨package, name⟩ := by
  cases d; simp [isNamed]

end DeclName

end Injector
