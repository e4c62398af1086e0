/-
# Injector.Ty.Basic -- types of the source program

A type is described by its structure: what it is a use of, its arguments, whether
it admits null, a qualifier written on the type itself, and the target when the
name is an alias.  Types are compared by this structure, so `DecidableEq` is
proved from the mutual recursion `same`.

`dealias` follows aliases to the type they stand for; `agrees` compares two types
after that, leaving out their own nullability and qualifier.
-/
import Injector.AnnotationUse

namespace Injector

set_option autoImplicit false

inductive TyKind where
  /-- A class, an interface, an object, or an alias. -/
  | declared
  /-- A function type: the last argument is what it returns. -/
  | function
  /-- An occurrence of a type variable. -/
  | typeVar
  /-- A type whose declaration is not known. -/
  | unresolved
  deriving DecidableEq, Inhabited, Repr

/-- A type. -/
structure Ty where
  kind : TyKind := .declared
  package : String := ""
  name : String
  args : List Ty := []
  nullable : Bool := false
  /-- The qualifier written on this use of the type. -/
  qualifier : Option AnnotationUse := none
  /-- What the name stands for, when it is an alias. -/
  aliasOf : Option Ty := none
  deriving Inhabited

namespace Ty

/-! ## Equality -/

mutual

/-- Equality of types. -/
def same : Ty → Ty → Bool
  | ⟨k, p, n, as, u, q, o⟩, ⟨k', p', n', as', u', q', o'⟩ =>
    n == n' && p == p' && k == k' && u == u' && q == q' && sameAll as as' && sameTarget o o'

def sameAll : List Ty → List Ty → Bool
  | [], [] => true
  | x :: xs, y :: ys => same x y && sameAll xs ys
  | _, _ => false

def sameTarget : Option Ty → Option Ty → Bool
  | none, none => true
  | some x, some y => same x y
  | _, _ => false

end

mutual

theorem same_iff : ∀ a b : Ty, same a b = true ↔ a = b
  | ⟨k, p, n, as, u, q, o⟩, ⟨k', p', n', as', u', q', o'⟩ => by
    simp only [same, Bool.and_eq_true, beq_iff_eq, sameAll_iff as as', sameTarget_iff o o',
      mk.injEq]
    exact ⟨fun ⟨⟨⟨⟨⟨⟨hn, hp⟩, hk⟩, hu⟩, hq⟩, ha⟩, ho⟩ => ⟨hk, hp, hn, ha, hu, hq, ho⟩,
      fun ⟨hk, hp, hn, ha, hu, hq, ho⟩ => ⟨⟨⟨⟨⟨⟨hn, hp⟩, hk⟩, hu⟩, hq⟩, ha⟩, ho⟩⟩

theorem sameAll_iff : ∀ xs ys : List Ty, sameAll xs ys = true ↔ xs = ys
  | [], [] => by simp [sameAll]
  | x :: xs, y :: ys => by simp [sameAll, same_iff x y, sameAll_iff xs ys]
  | [], _ :: _ => by simp [sameAll]
  | _ :: _, [] => by simp [sameAll]

theorem sameTarget_iff : ∀ o o' : Option Ty, sameTarget o o' = true ↔ o = o'
  | none, none => by simp [sameTarget]
  | some x, some y => by simp [sameTarget, same_iff x y]
  | none, some _ => by simp [sameTarget]
  | some _, none => by simp [sameTarget]

end

instance : DecidableEq Ty := fun a b => decidable_of_iff _ (same_iff a b)

/-! ## Making types -/

/-- A use of the declaration `d` without arguments. -/
def ofDecl (d : DeclName) : Ty := { package := d.package, name := d.name }

/-- A function from `params` to `result`. -/
def function (params : List Ty) (result : Ty) : Ty :=
  { kind := .function, package := DeclName.functionPackage,
    name := "Function" ++ toString params.length, args := params ++ [result] }

/-- An occurrence of the type variable `name`. -/
def typeVar (name : String) : Ty := { kind := .typeVar, name }

/-- A type whose declaration is not known. -/
def unresolved (name : String) : Ty := { kind := .unresolved, name }

/-- The alias `package.name` of `target`. -/
def «alias» (package name : String) (target : Ty) : Ty := { package, name, aliasOf := some target }

def lazyOf (inner : Ty) : Ty := { ofDecl .lazy with args := [inner] }

def setOf (element : Ty) : Ty := { ofDecl .set with args := [element] }

def mapOf (key value : Ty) : Ty := { ofDecl .map with args := [key, value] }

def pairOf (first second : Ty) : Ty := { ofDecl .pair with args := [first, second] }

def unit : Ty := ofDecl .unit

/-- The type without its own qualifier. -/
def unqualified (t : Ty) : Ty := { t with qualifier := none }

/-! ## Aliases -/

def isAlias (t : Ty) : Bool := t.aliasOf.isSome

/-- The type at the end of the chain of aliases. -/
def dealias : Ty → Ty
  | ⟨k, p, n, as, u, q, none⟩ => ⟨k, p, n, as, u, q, none⟩
  | ⟨_, _, _, _, _, _, some target⟩ => dealias target

theorem dealias_of_not_alias {t : Ty} (h : t.aliasOf = none) : t.dealias = t := by
  obtain ⟨k, p, n, as, u, q, o⟩ := t
  cases h; simp [dealias]

theorem dealias_of_alias {t target : Ty} (h : t.aliasOf = some target) :
    t.dealias = target.dealias := by
  obtain ⟨k, p, n, as, u, q, o⟩ := t
  cases h; simp [dealias]

/-- The end of a chain of aliases is no alias. -/
theorem aliasOf_dealias : ∀ t : Ty, t.dealias.aliasOf = none
  | ⟨k, p, n, as, u, q, none⟩ => by simp [dealias]
  | ⟨_, _, _, _, _, _, some target⟩ => by simpa [dealias] using aliasOf_dealias target

@[simp] theorem dealias_dealias (t : Ty) : t.dealias.dealias = t.dealias :=
  dealias_of_not_alias (aliasOf_dealias t)

/-! ## Questions -/

/-- The package and simple name. -/
def decl (t : Ty) : DeclName := ⟨t.package, t.name⟩

/-- Whether the type is a function type, perhaps under an alias. -/
def isFunction (t : Ty) : Bool := t.dealias.kind == .function

def isUnresolved (t : Ty) : Bool := t.kind == .unresolved

/-- Whether the type is a use of the declaration `d`, perhaps under an alias. -/
def isA (t : Ty) (d : DeclName) : Bool :=
  t.dealias.kind == .declared && d.isNamed t.dealias.package t.dealias.name

def isLazy (t : Ty) : Bool := t.isA .lazy && t.dealias.args.length == 1

def isPair (t : Ty) : Bool := t.isA .pair && t.dealias.args.length == 2

def isUnit (t : Ty) : Bool := t.isA .unit

/-- The same declaration at the same arguments; nullability and qualifier of the
two types themselves are left out. -/
def agrees (a b : Ty) : Bool :=
  let a := a.dealias
  let b := b.dealias
  a.kind == b.kind && a.package == b.package && a.name == b.name && a.args == b.args

theorem agrees_iff {a b : Ty} : a.agrees b = true ↔
    a.dealias.kind = b.dealias.kind ∧ a.dealias.decl = b.dealias.decl ∧
      a.dealias.args = b.dealias.args := by
  simp [agrees, decl, and_assoc]

@[simp] theorem agrees_refl (t : Ty) : t.agrees t = true := agrees_iff.mpr ⟨rfl, rfl, rfl⟩

theorem agrees_symm {a b : Ty} (same : a.agrees b = true) : b.agrees a = true := by
  obtain ⟨kind, decl, args⟩ := agrees_iff.mp same
  exact agrees_iff.mpr ⟨kind.symm, decl.symm, args.symm⟩

theorem agrees_trans {a b c : Ty} (first : a.agrees b = true) (second : b.agrees c = true) :
    a.agrees c = true := by
  obtain ⟨kind, decl, args⟩ := agrees_iff.mp first
  obtain ⟨kind', decl', args'⟩ := agrees_iff.mp second
  exact agrees_iff.mpr ⟨kind.trans kind', decl.trans decl', args.trans args'⟩

@[simp] theorem agrees_dealias {a b : Ty} : a.agrees b.dealias = a.agrees b := by simp [agrees]

@[simp] theorem dealias_agrees {a b : Ty} : a.dealias.agrees b = a.agrees b := by simp [agrees]

mutual

/-- Whether a type variable occurs in the type or in its arguments. -/
def mentionsVariable : Ty → Bool
  | ⟨k, _, _, as, _, _, _⟩ => k == .typeVar || anyMentionsVariable as

def anyMentionsVariable : List Ty → Bool
  | [] => false
  | t :: rest => mentionsVariable t || anyMentionsVariable rest

end

mutual

/-- How deep arguments and alias targets are nested. -/
def height : Ty → Nat
  | ⟨_, _, _, as, _, _, o⟩ => max (heightAll as) (heightTarget o) + 1

def heightAll : List Ty → Nat
  | [] => 0
  | t :: rest => max (height t) (heightAll rest)

def heightTarget : Option Ty → Nat
  | none => 0
  | some t => height t

end

end Ty

end Injector
