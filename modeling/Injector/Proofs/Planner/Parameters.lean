/-
# Injector.Proofs.Planner.Parameters -- the names of the parameters of a lambda

Naming the parameters of a lambda never fails and changes nothing but the names that are
taken.  The new names were free, tell the parameters apart, and are of the form that is kept
for parameters (`exists_runFrom_nameParams`).
-/
import Injector.Proofs.NameSupply
import Injector.Proofs.Planner.Readings
import Injector.Proofs.Planner.Run

namespace Injector

set_option autoImplicit false

open PlanM
open LambdaParam (names types)

/-- Parameters of the given types, under names that were free before and are taken after. -/
structure LambdaParam.Fresh (before after : NameSupply) (tys : List Ty)
    (lambda : List LambdaParam) : Prop where
  types_eq : types lambda = tys
  apart : (names lambda).Nodup
  new : ∀ name ∈ names lambda, name ∉ before.taken ∧ name ∈ after.taken ∧ IsParamName name
  grows : before.taken ⊆ after.taken

theorem LambdaParam.Fresh.nil (supply : NameSupply) : Fresh supply supply [] [] :=
  ⟨rfl, List.nodup_nil, List.forall_mem_nil _, List.Subset.refl _⟩

/-- A parameter more in front of those that are named after it. -/
theorem LambdaParam.Fresh.cons {before after : NameSupply} {tys : List Ty}
    {lambda : List LambdaParam} (ty : Ty) (n : Nat)
    (rest : Fresh (before.fresh (Source.paramStem ++ toString n)).2 after tys lambda) :
    Fresh before after (ty :: tys)
      (⟨ty, (before.fresh (Source.paramStem ++ toString n)).1⟩ :: lambda) := by
  obtain ⟨same, apart, new, grows⟩ := rest
  rw [NameSupply.taken_fresh] at new grows
  have free := NameSupply.fresh_not_mem_taken before (Source.paramStem ++ toString n)
  have param : IsParamName (before.fresh (Source.paramStem ++ toString n)).1 := ⟨n, _, rfl⟩
  generalize (before.fresh (Source.paramStem ++ toString n)).1 = name at new grows free param ⊢
  have other : name ∉ names lambda := fun mem => (new name mem).1 List.mem_cons_self
  refine ⟨by rw [types, List.map_cons, ← same, types], List.nodup_cons.mpr ⟨other, apart⟩, ?_, ?_⟩
  · intro later mem
    obtain rfl | mem := List.mem_cons.mp mem
    · exact ⟨free, grows List.mem_cons_self, param⟩
    · obtain ⟨unused, taken, kind⟩ := new later mem
      exact ⟨fun old => unused (List.mem_cons_of_mem _ old), taken, kind⟩
  · intro old mem
    exact grows (List.mem_cons_of_mem _ mem)

/-- The parameters are named, and nothing else happens. -/
theorem Source.exists_runFrom_nameParams (n : Nat) (tys : List Ty) (st : PlannerState) :
    ∃ lambda supply, (nameParams n tys).runFrom st = (.ok lambda, { st with names := supply }) ∧
      LambdaParam.Fresh st.names supply tys lambda := by
  induction tys generalizing n st with
  | nil => exact ⟨[], st.names, rfl, .nil st.names⟩
  | cons ty rest ih =>
      let first := st.names.fresh (paramStem ++ toString n)
      obtain ⟨lambda, supply, run, fresh⟩ := ih (n + 1) { st with names := first.2 }
      refine ⟨⟨ty, first.1⟩ :: lambda, supply, ?_, fresh.cons ty n⟩
      rw [nameParams, runFrom_bind, runFrom_freshName]
      dsimp only
      rw [runFrom_bind, run]
      rfl

end Injector
