/-
# Injector.Proofs.Program.Assignability -- which types accept which

A type accepts another one when, aliases followed, it agrees with that type or with a type above
it, and admits null if the other does (`Accepts`).  What a type declares depends on no more of it
than `agrees` compares (`Declares.of_agrees`).  So a way up from a type is a way up from each type
that agrees with it, ways up are put together, and acceptance is a preorder in a hierarchy without
cycles (`isAssignable_preorder`).
-/
import Injector.Proofs.Program.Closure

namespace Injector

set_option autoImplicit false

open Relation (TransGen ReflTransGen)

namespace Program

variable {p : Program} {a b t u target source : Ty}

/-! ## Types that agree -/

theorem classOf_of_agrees (same : a.agrees b = true) : p.classOf a = p.classOf b := by
  rw [classOf, classOf, (Ty.agrees_iff.mp same).2.1]

/-- Types that agree declare the same supertypes. -/
theorem Declares.of_agrees (declares : p.Declares a u) (same : a.agrees b = true) :
    p.Declares b u := by
  obtain ⟨c, known, super, declared, rfl⟩ := declares
  refine ⟨c, (classOf_of_agrees same).symm.trans known, super, declared, ?_⟩
  rw [ClassDecl.substFor, ClassDecl.substFor, (Ty.agrees_iff.mp same).2.2]

/-- So a way up from the one is a way up from the other, or has no step. -/
theorem reaches_of_agrees (reaches : ReflTransGen p.Declares a t) (same : a.agrees b = true) :
    t = a ∨ ReflTransGen p.Declares b t := by
  rcases reaches.cases_head with rfl | ⟨u, declares, rest⟩
  · exact .inl rfl
  · exact .inr (rest.head (declares.of_agrees same))

/-! ## Acceptance -/

variable (p target source) in
/-- The one type, or one above it, agrees with the other, which admits null if the one does. -/
@[mk_iff] structure Accepts : Prop where
  nullable : source.dealias.nullable = true → target.dealias.nullable = true
  above : ∃ t, ReflTransGen p.Declares source.dealias t ∧ target.agrees t = true

/-- What a type accepts, in a hierarchy without cycles. -/
theorem isAssignable_iff (acyclic : p.Acyclic) :
    p.isAssignable target source = true ↔ p.Accepts target source := by
  have found : (target.agrees source || (p.supertypes source).any target.agrees) = true ↔
      ∃ t, ReflTransGen p.Declares source.dealias t ∧ target.agrees t = true := by
    rw [Bool.or_eq_true, List.any_eq_true]
    simp only [mem_supertypes_iff acyclic, Relation.reflTransGen_iff_eq_or_transGen, or_and_right,
      exists_or, exists_eq_left, Ty.agrees_dealias]
  rw [accepts_iff, isAssignable, ← found]
  cases source.dealias.nullable <;> cases target.dealias.nullable <;> simp

variable (p) in
/-- In a hierarchy without cycles each type accepts itself, and it accepts whatever is accepted
by a type that it accepts. -/
theorem isAssignable_preorder (acyclic : p.Acyclic) :
    (∀ t, p.isAssignable t t = true) ∧ ∀ a b c, p.isAssignable a b = true →
      p.isAssignable b c = true → p.isAssignable a c = true := by
  refine ⟨fun t => ?_, fun a b c upper lower => ?_⟩
  · exact (isAssignable_iff acyclic).mpr ⟨id, t.dealias, .refl, by simp⟩
  · obtain ⟨nullable, t, above, agrees⟩ := (isAssignable_iff acyclic).mp upper
    obtain ⟨nullable', u, above', agrees'⟩ := (isAssignable_iff acyclic).mp lower
    refine (isAssignable_iff acyclic).mpr ⟨nullable ∘ nullable', ?_⟩
    have middle : b.dealias.agrees u = true := by simpa using agrees'
    -- Either `a` agrees with `b`, and so with `u`, or the way up from `b` goes on from `u`.
    rcases reaches_of_agrees above middle with rfl | further
    · exact ⟨u, above', Ty.agrees_trans agrees middle⟩
    · exact ⟨t, above'.trans further, agrees⟩

end Program

/-- `Shelf?`, where `Shelf` is an alias of `Top<Foo>?`, accepts what `Left<Foo>` accepts. -/
theorem diamond_accepts :
    let foo : Ty := { name := "Foo" }
    let shelf : Ty := .alias "" "Shelf" { name := "Top", args := [foo], nullable := true }
    let left : Ty := { name := "Left", args := [foo], nullable := true }
    let bottom : Ty := { name := "Bottom", nullable := true }
    diamond.Acyclic ∧ diamond.isAssignable shelf left = true ∧
      diamond.isAssignable left bottom = true ∧ diamond.isAssignable shelf bottom = true ∧
      diamond.isAssignable (.function [shelf] left) (.function [shelf] left) = true := by
  intro foo shelf left bottom
  have acyclic : diamond.Acyclic :=
    Program.acyclic_of_declared ClassId.toNat (by decide) (by decide)
  have upper : diamond.isAssignable shelf left = true := by decide +kernel
  have lower : diamond.isAssignable left bottom = true := by decide +kernel
  obtain ⟨same, through⟩ := diamond.isAssignable_preorder acyclic
  exact ⟨acyclic, upper, lower, through shelf left bottom upper lower, same _⟩

end Injector
