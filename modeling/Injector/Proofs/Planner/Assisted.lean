/-
# Injector.Proofs.Planner.Assisted -- values that callers pass in

A lambda is given values for its parameters, and whatever is asked for inside it is one of
these if one can stand for it.  Along every trail from an accessor the parameters have names
of their own, and where some of them can stand for an unqualified key, the plan is a reference
to the last one that is introduced (`planned_assisted`).

This leaves out two kinds of slots, which were not asked for: a contribution is built in any
case, and a late variable is put around what was asked for already.
-/
import Injector.Proofs.Planner.Fitness

namespace Injector

set_option autoImplicit false

open LambdaParam (names types standIn? introducedBy)

namespace LambdaParam

variable {p : Program} {params last : List LambdaParam} {key : Key}

theorem qualifier_of_standIn? {param : LambdaParam} (stands : standIn? p params key = some param) :
    key.qualifier = none := by
  simp only [standIn?] at stands
  split at stands
  · cases stands
  · rename_i plain
    simpa using plain

/-- The parameter that stands for a key is the last one that can. -/
theorem standIn?_eq_some {param : LambdaParam} (plain : key.qualifier = none) :
    standIn? p params key = some param ↔ p.isAssignable key.ty param.ty = true ∧
      ∃ outer inner, params = outer ++ param :: inner ∧
        ∀ other ∈ inner, p.isAssignable key.ty other.ty = false := by
  rw [standIn?, plain, Option.isSome_none, if_neg Bool.false_ne_true, List.find?_eq_some_iff_append]
  refine and_congr_right fun _ => ⟨?_, ?_⟩
  · rintro ⟨inner, outer, split, none⟩
    refine ⟨outer.reverse, inner.reverse, ?_, fun other mem => ?_⟩
    · rw [← List.reverse_reverse params, split]
      simp
    · simpa using none other (List.mem_reverse.mp mem)
  · rintro ⟨outer, inner, rfl, none⟩
    refine ⟨inner.reverse, outer.reverse, by simp, fun other mem => ?_⟩
    simpa using none other (List.mem_reverse.mp mem)

theorem exists_standIn? (plain : key.qualifier = none)
    (able : ∃ param ∈ params, p.isAssignable key.ty param.ty = true) :
    ∃ param, standIn? p params key = some param := by
  obtain ⟨param, mem, assignable⟩ := able
  rw [← Option.isSome_iff_exists, standIn?, plain, Option.isSome_none,
    if_neg Bool.false_ne_true, List.find?_isSome]
  exact ⟨param, List.mem_reverse.mpr mem, assignable⟩

/-- Parameters further out are passed over where one of the last can stand for the key. -/
theorem standIn?_of_suffix {param : LambdaParam} (suffix : last <:+ params)
    (stands : standIn? p last key = some param) : standIn? p params key = some param := by
  have plain := qualifier_of_standIn? stands
  obtain ⟨assignable, outer, inner, rfl, none⟩ := (standIn?_eq_some plain).mp stands
  obtain ⟨before, rfl⟩ := suffix
  exact (standIn?_eq_some plain).mpr ⟨assignable, before ++ outer, inner, by simp, none⟩

end LambdaParam

namespace Source

variable {src : Source} {catalog : Catalog} {a : Arena} {around : List LambdaParam} {key : Key}
  {id : PlanId}

/-- Where a parameter stands for the key that is asked for, the plan refers to it. -/
theorem Typed.arg {param : LambdaParam} (typed : src.Typed catalog a around .asked key id)
    (stands : standIn? src.program around key = some param) :
    a.plan? id = some (.arg param.name) := by
  cases typed with
  | again => simp [standIn?] at stands
  | param stands' found =>
      obtain rfl := Option.some.inj (stands.symm.trans stands')
      exact found
  | keep absent | built absent | container absent | object absent | function absent
  | lazy absent => cases stands.symm.trans absent

end Source

/-- Along a trail from an accessor the names of lambda parameters are all different, and there
is one for each parameter of the function types.  An unqualified key that was asked for is
served by the last parameter introduced that can stand for it, if any can. -/
theorem planned_assisted (src : Source) (catalog : Catalog) (className : String) (log : Log) :
    let f := src.planned className catalog log
    ∀ e ∈ f.entries, ∀ above t, f.arena.Trail e.result above t →
      (∀ p, f.arena.plan? t.id = some p → names (p.introduces t.key) = p.lambdaNames ∧
        (((t.key, p) :: above).flatMap fun row => row.2.lambdaNames).Nodup) ∧
      (t.key.qualifier = none → (∀ row ∈ above.head?, row.2.placesBuilt = false) →
        (∃ param ∈ introducedBy above, src.program.isAssignable t.key.ty param.ty = true) →
        ∃ outer param inner, introducedBy above = outer ++ param :: inner ∧
          src.program.isAssignable t.key.ty param.ty = true ∧
          (∀ other ∈ inner, src.program.isAssignable t.key.ty other.ty = false) ∧
          f.arena.plan? t.id = some (.arg param.name)) := by
  intro f e mem above t trail
  obtain ⟨_, root⟩ := src.planned_typed catalog className log e mem
  obtain ⟨inside, use, typed, apart, suffix, perm, direct⟩ := root.trail List.nodup_nil trail
  refine ⟨fun p found => ?_, fun plain asked able => ?_⟩
  · obtain ⟨within, extends_, -⟩ := typed.inside apart found
    have introduced : introducedBy above ++ p.introduces t.key <:+ within :=
      extends_.suffix _ suffix
    refine ⟨extends_.named, ?_⟩
    rw [List.flatMap_cons, ← extends_.named]
    have both : (names (p.introduces t.key) ++ names (introducedBy above)).Perm
        (names (introducedBy above ++ p.introduces t.key)) := by
      rw [names, names, names, List.map_append]
      exact List.perm_append_comm
    refine (((perm.append_left _).trans both).nodup_iff).mpr ?_
    exact extends_.apart.sublist (introduced.sublist.map _)
  · obtain ⟨param, stands⟩ := LambdaParam.exists_standIn? plain able
    have around := LambdaParam.standIn?_of_suffix suffix stands
    have requested : use = .asked := by
      cases use with
      | asked => rfl
      | built =>
          -- a parameter was introduced, so the slot is below some plan
          cases above with
          | nil =>
              obtain ⟨_, nothing, -⟩ := able
              cases nothing
          | cons row rest =>
              cases (direct rfl row rfl (asked row rfl)).symm.trans around
    subst requested
    obtain ⟨assignable, outer, inner, split, none⟩ :=
      (LambdaParam.standIn?_eq_some plain).mp stands
    exact ⟨outer, param, inner, split, assignable, none, typed.arg around⟩

open Source

/-- The lazy `Bar` is given the `Foo` of the caller. -/
theorem lazyBar_assisted : ∃ e ∈ (lazyBar.plannedAlone (.ofNat 1)).entries, ∃ above t,
    (lazyBar.plannedAlone (.ofNat 1)).arena.Trail e.result above t ∧
      introducedBy above = [{ name := "arg0", ty := { name := "Foo" } }] ∧
      t.key = .of { name := "Foo" } ∧
      (lazyBar.plannedAlone (.ofNat 1)).arena.plan? t.id = some (.arg "arg0") := by
  have shape : let f := lazyBar.plannedAlone (.ofNat 1)
      ∃ e ∈ f.entries, ∃ function ∈ (f.arena.plan? e.result.id).toList,
        ∃ made ∈ function.children, ∃ lazy ∈ (f.arena.plan? made.id).toList,
        ∃ bar ∈ lazy.children, ∃ construct ∈ (f.arena.plan? bar.id).toList,
        ∃ foo ∈ construct.children, foo.key = .of { name := "Foo" } ∧
          construct.placesBuilt = false ∧
          introducedBy [(bar.key, construct), (made.key, lazy), (e.result.key, function)] =
            [{ name := "arg0", ty := { name := "Foo" } }] := by
    decide +kernel
  obtain ⟨e, mem, function, found, made, mem₁, lazy, found₁, bar, mem₂, construct, found₂, foo,
    mem₃, key, asked, introduced⟩ := shape
  have trail : (lazyBar.plannedAlone (.ofNat 1)).arena.Trail e.result
      [(bar.key, construct), (made.key, lazy), (e.result.key, function)] foo :=
    .down (.down (.down .here (Option.mem_toList.mp found) mem₁)
      (Option.mem_toList.mp found₁) mem₂) (Option.mem_toList.mp found₂) mem₃
  obtain ⟨outer, param, inner, split, -, -, refers⟩ :=
    (planned_assisted lazyBar (lazyBar.catalogAfter [] (.ofNat 1)) (implementationName "C") {}
      e mem _ foo trail).2 (by rw [key]; rfl) (by rintro row ⟨⟩; exact asked)
      ⟨_, by rw [introduced]; exact List.mem_singleton.mpr rfl, by rw [key]; decide⟩
  have only : param ∈ [({ name := "arg0", ty := { name := "Foo" } } : LambdaParam)] := by
    rw [← introduced, split]
    simp
  obtain rfl := List.mem_singleton.mp only
  exact ⟨e, mem, _, foo, trail, introduced, key, refers⟩

end Injector
