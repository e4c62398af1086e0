/-
# Injector.Proofs.Planner.Generics -- what a generic member is chosen for

A generic member is chosen by its pattern, the type that it returns.  Where the pattern fits, the
type asked for is the instance of the pattern, up to aliases and qualifiers, but for one thing:
a nullable occurrence of a variable fits a type that is not nullable, while its instance is
nullable.  So a member that returns a `T?` is chosen for a `Foo` (`nullableProvider_refuted`).
An occurrence of a variable is taken to be no alias throughout: fitting would follow the alias,
where an instance has what is put for the variable.
-/
import Injector.Proofs.Ty.Expansion
import Injector.Proofs.Planner.Keeping

namespace Injector

set_option autoImplicit false

/-- A type that a pattern fits is the instance of the pattern if and only if each nullable
occurrence of a variable stands for a nullable type or an alias; so a generic member that fits
returns what is asked for under just that condition.  That is for patterns in which no occurrence
of a variable is itself an alias, as none is that is made of the name of a variable
(`Ty.typeVar`), and for types without variables. -/
theorem generic_returns (src : Source) (history : List ClassId) (cls : ClassId) :
    (∀ (p t : Ty) (s : Subst), p.fit t .empty = (true, s) → t.expand.mentionsVariable = false →
        (∀ v ∈ p.occurrences, v.aliasOf = none) →
        ((p.subst s).expand = t.expand ↔ ∀ v ∈ p.occurrences, s.Admits v)) ∧
      ∀ (key : Key) (b : MemberBinding) (s : Subst),
        (b, s) ∈ src.fitting key (src.catalogAfter history cls).generics [] →
        key.ty.expand.mentionsVariable = false →
        ∃ place ∈ (src.catalogAfter history cls).walk, ∃ own ∈ place.2.own.generics,
          b = own.binding.under place.1 ∧ own.qualifier = key.qualifier ∧
          own.pattern = src.program.returnTypeIn b.member place.2.own.cls ∧
          ((∀ v ∈ own.pattern.occurrences, v.aliasOf = none) →
            ((own.pattern.subst s).expand = key.ty.expand ↔
              ∀ v ∈ own.pattern.occurrences, s.Admits v)) := by
  refine ⟨fun p t s fits ground plain => Ty.fit_expand fits ground plain, ?_⟩
  intro key b s mem ground
  obtain ⟨g, offered, rfl, qualifier, fits⟩ :=
    (Source.mem_fitting mem).resolve_left List.not_mem_nil
  obtain ⟨place, there, own, among, rfl⟩ := Catalog.mem_generics_iff.mp offered
  have filed := ((src.catalogAfter_filed history cls).walk place there).generics own among
  exact ⟨place, there, own, among, rfl, qualifier, filed.2.1,
    fun plain => Ty.fit_expand fits ground plain⟩

/-- A component with a generic member that returns the type, and an accessor. -/
def providing (returned asked : Ty) : Source where
  program :=
    { classes := [{ name := "Foo" }, .abstractComponent [.ofNat 0, .ofNat 1]]
      members := [.accessor (.ofNat 1) "wanted" asked,
        { owner := some (.ofNat 1), name := "make", annotations := [.ofDecl .provides],
          typeVars := [{ name := "T" }], returnType := returned }] }
  options := {}

/-- An occurrence that may be null. -/
def nullableT : Ty := { Ty.typeVar "T" with nullable := true }

/-- A `Foo`. -/
def plainFoo : Ty := { name := "Foo" }

/-- A `Foo` that may be null. -/
def nullableFoo : Ty := { plainFoo with nullable := true }

/-- A pair of a `T` and a `T?` is returned for a pair of two `Foo?`. -/
theorem pairProvider_returns :
    let pattern := Ty.pairOf (.typeVar "T") nullableT
    let asked := Ty.pairOf nullableFoo nullableFoo
    let s := Subst.ofArgs ["T"] [nullableFoo]
    let src := providing pattern asked
    pattern.fit asked .empty = (true, s) ∧ (pattern.subst s).expand = asked.expand ∧
      ∃ place ∈ (src.catalogAfter [] (.ofNat 1)).walk, ∃ own ∈ place.2.own.generics,
        own.binding.member = .ofNat 1 ∧ (own.pattern.subst s).expand = asked.expand := by
  intro pattern asked s src
  obtain ⟨sound, chosen⟩ := generic_returns src [] (.ofNat 1)
  have fits : pattern.fit asked .empty = (true, s) := by decide +kernel
  have ground : asked.expand.mentionsVariable = false := by decide +kernel
  have plain : ∀ v ∈ pattern.occurrences, v.aliasOf = none := by decide +kernel
  have admits : ∀ v ∈ pattern.occurrences, s.Admits v := by decide +kernel
  have mem : ({ member := .ofNat 1 }, s) ∈
      src.fitting (.of asked) (src.catalogAfter [] (.ofNat 1)).generics [] := by
    decide +kernel
  have declared : ∀ place ∈ (src.catalogAfter [] (.ofNat 1)).walk,
      src.program.returnTypeIn (.ofNat 1) place.2.own.cls = pattern := by
    decide +kernel
  obtain ⟨place, there, own, among, same, -, returned, returns⟩ :=
    chosen (.of asked) { member := .ofNat 1 } s mem ground
  rw [returned, declared place there] at returns
  refine ⟨fits, (sound pattern asked s fits ground plain).mpr admits, place, there, own, among,
    congrArg MemberBinding.member same.symm, ?_⟩
  rw [returned, declared place there]
  exact (returns plain).mpr admits

/-- A `T?` fits a `Foo`, and the member that returns it is called for one. -/
theorem nullableProvider_refuted :
    let s := Subst.ofArgs ["T"] [plainFoo]
    let src := providing nullableT plainFoo
    nullableT.fit plainFoo .empty = (true, s) ∧ plainFoo.mentionsVariable = false ∧
      (nullableT.subst s).expand ≠ plainFoo.expand ∧
      (src.plannedAlone (.ofNat 1)).entries.length = 1 := by
  decide +kernel

end Injector
