/-
# Injector.Proofs.Planner.Capture -- names that two keys share

The variable of a cycle has the name that the type of its key suggests.  That
name leaves out the package, the nullability and the qualifier, and no supply
hands it out, so the variables of two keys can have one name; the parameters of
lambdas, whose names come from a supply, can have it too.

`planned_uncaptured_iff`: a variable is captured exactly where the nearest plan
above it that binds its name shares the name with its key (`Clashes`).  None is
if keys suggest different names, none of them a name for parameters.

The rest shows two classes of one name in different packages whose variables are
taken for each other.
-/
import Injector.Proofs.Planner.Planning

namespace Injector

set_option autoImplicit false

namespace Plan

/-- The plan binds the name that `key` suggests, but not for `key`. -/
def Clashes (binder : Plan) (key : Key) : Prop :=
  key.ty.suggestedName ∈ binder.lambdaParams ∨
    ∃ name other, binder = .lateInit name other ∧ other.key ≠ key ∧
      other.key.ty.suggestedName = key.ty.suggestedName

end Plan

namespace Source

variable {src : Source} {catalog : Catalog} {a : Arena} {root s : Slot} {binder : Plan}
  {nearer farther : List Plan}

theorem Orderly.uncaptured_iff (orderly : src.Orderly catalog a) :
    Arena.Uncaptured a root ↔ ∀ nearer binder farther s name,
      Arena.Path a root (nearer ++ binder :: farther) s → a.plan? s.id = some (.localVar name) →
        (∀ q ∈ nearer, name ∉ q.binders) → ¬ binder.Clashes s.key := by
  have suggested : ∀ {nearer farther : List Plan} {binder : Plan} {s : Slot} {name : String},
      Arena.Path a root (nearer ++ binder :: farther) s → a.plan? s.id = some (.localVar name) →
        name = s.key.ty.suggestedName := by
    intro nearer farther binder s name path there
    cases nearer with
    | nil => exact (orderly.variable_named path there).1
    | cons q nearer => exact (orderly.variable_named path there).1
  constructor
  · intro uncaptured nearer binder farther s name path there free clash
    have named := suggested path there
    have binds : name ∈ binder.binders := by
      rcases clash with introduces | ⟨own, other, rfl, -, same⟩
      · exact Plan.mem_binders.mpr (.inr (named ▸ introduces))
      · have proper : src.Proper catalog (.lateInit own other) :=
          orderly.proper_above path (by simp)
        exact List.mem_singleton.mpr (named.trans (same.symm.trans proper.1.symm))
    obtain ⟨result, rfl, key⟩ := uncaptured nearer binder farther s name path there binds free
    rcases clash with introduces | ⟨own, other, same, apart, -⟩
    · cases introduces
    · cases same
      exact apart key
  · intro clear nearer binder farther s name path there binds free
    have named := suggested path there
    have clash := clear nearer binder farther s name path there free
    rcases Plan.mem_binders.mp binds with declares | introduces
    · obtain ⟨result, rfl, own, -⟩ :=
        (orderly.proper_above path (by simp)).suggested declares
      refine ⟨result, rfl, Decidable.byContradiction fun apart => clash (.inr ?_)⟩
      exact ⟨name, result, rfl, apart, own.symm.trans named⟩
    · exact absurd (.inl (named ▸ introduces)) clash

theorem Orderly.not_clashes {above : List Plan} {name : String} (orderly : src.Orderly catalog a)
    (tells : src.NamesTellKeys catalog) (avoids : src.NamesAvoidParams catalog)
    (path : Arena.Path a root above s) (mem : binder ∈ above)
    (there : a.plan? s.id = some (.localVar name)) : ¬ binder.Clashes s.key := by
  have built : src.Constructed catalog s.key := by
    cases path with
    | here => cases mem
    | down path found child => exact (orderly.variable_named (.down path found child) there).2
  have proper := orderly.proper_above path mem
  rintro (introduces | ⟨own, other, rfl, apart, same⟩)
  · exact avoids s.key built (proper.isParamName introduces)
  · exact apart (tells other.key s.key proper.2 built same)

end Source

open Source Arena

/-! ## What succeeds -/

/-- Variables are captured in just those plans in which their nearest binder shares a
name with their key; in none if keys suggest different names and no parameter's. -/
theorem planned_uncaptured_iff (src : Source) (className : String) (catalog : Catalog) (log : Log) :
    (∀ e ∈ (src.planned className catalog log).entries,
      Uncaptured (src.planned className catalog log).arena e.result ↔
        ∀ nearer binder farther s name,
          Path (src.planned className catalog log).arena e.result (nearer ++ binder :: farther) s →
            (src.planned className catalog log).arena.plan? s.id = some (.localVar name) →
              (∀ q ∈ nearer, name ∉ q.binders) → ¬ binder.Clashes s.key) ∧
      (src.NamesTellKeys catalog → src.NamesAvoidParams catalog →
        ∀ e ∈ (src.planned className catalog log).entries,
          Uncaptured (src.planned className catalog log).arena e.result) := by
  have orderly := planned_orderly src catalog className log
  constructor
  · intro e _
    exact orderly.uncaptured_iff
  · intro tells avoids e _
    rw [orderly.uncaptured_iff]
    intro nearer binder farther s name path there _
    have above : binder ∈ nearer ++ binder :: farther := by simp
    exact orderly.not_clashes tells avoids path above there

theorem deferredPair_uncaptured :
    ∃ e ∈ (deferredPair.plannedAlone (.ofNat 2)).entries,
      Uncaptured (deferredPair.plannedAlone (.ofNat 2)).arena e.result := by
  have tells := deferredPair_covers.namesTellKeys (by decide +kernel)
  have avoids := deferredPair_covers.namesAvoidParams (by decide +kernel)
  obtain ⟨e, mem⟩ := deferredPair_planned
  exact ⟨e, mem, (planned_uncaptured_iff deferredPair _ _ _).2 tells avoids e mem⟩

/-- Two classes `Foo`, each of which needs the other one later. -/
def twoFoos : Source where
  program :=
    { classes := [
        { ClassDecl.injectable "Foo"
            [("other", .function [] { package := "b", name := "Foo" })] with
          package := "a" },
        { ClassDecl.injectable "Foo" [("other", .function [] { package := "a", name := "Foo" }),
            ("self", .function [] { package := "b", name := "Foo" })] with package := "b" },
        .abstractComponent [.ofNat 0]]
      members := [.accessor (.ofNat 2) "foo" { package := "a", name := "Foo" }] }
  options := {}

/-- The variable of one `Foo` is taken for that of the other. -/
theorem twoFoos_uncaptured_refuted :
    ∃ e ∈ (twoFoos.plannedAlone (.ofNat 2)).entries,
      ¬ Uncaptured (twoFoos.plannedAlone (.ofNat 2)).arena e.result := by
  have exposed : ∃ e ∈ (twoFoos.plannedAlone (.ofNat 2)).entries,
      (twoFoos.plannedAlone (.ofNat 2)).arena.capturesAt e.result [0, 0, 0] [0, 0] = true := by
    decide +kernel
  obtain ⟨e, mem, captures⟩ := exposed
  exact ⟨e, mem, not_uncaptured_of_capturesAt captures⟩

end Injector
