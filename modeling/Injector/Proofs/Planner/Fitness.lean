/-
# Injector.Proofs.Planner.Fitness -- plans that fit the keys of their slots

A slot says which key was asked for, and the plan that it points at is one for that key: a
constructor makes a value of the type, with arguments for all parameters that have no default;
a lambda has as many parameters as the function type, and returns what that returns; a scope
keeps a value of the very key under its text; and so on for each kind of plan (`Fits`).

All slots below the accessors of a component do fit (`planned_fits`).  It follows from the
typing of plans, from how contributions are filed, and from classes being found under their
own names, as they are as long as there are class ids for all of them.
-/
import Injector.Proofs.Planner.Typing
import Injector.Proofs.Planner.Keeping

namespace Injector

set_option autoImplicit false

open LambdaParam (names types)

namespace Source

variable (src : Source) (catalog : Catalog)

/-- The plan fits the key that it is needed for. -/
def Fits (a : Arena) (key : Key) : Plan → Prop
  | .construct ty args named => ty = key.ty ∧ ∃ cls index path scopedIn ctor,
      (src.choose catalog key).1 = .binding (.ctor cls index ty path scopedIn) ∧
      (src.program.classAt cls).ctors[index]? = some ctor ∧ named = ctor.namedArguments ∧
      src.Supplies ((src.program.classAt cls).substFor ty) ctor.params args
  | .keep token _ result => token = key.text ∧ result.key = key ∧
      ∃ p, a.plan? result.id = some p ∧ p.cell? = none
  | .container kind _ =>
      (kind = .set ↔ key.ty.isA .set = true) ∧ (kind = .map ↔ key.ty.isA .map = true)
  | .function params result => key.ty.isFunction = true ∧ ∃ types ty,
      key.ty.dealias.args = types ++ [ty] ∧ params.length = types.length ∧
      result.key = .of ty key.qualifier
  | .namedFunction _ _ params _ _ => key.ty.isFunction = true ∧ ∃ types ty,
      key.ty.dealias.args = types ++ [ty] ∧ params.length = types.length
  | .object ty => ty.package = key.ty.package ∧ ty.name = key.ty.name
  | .lazy result => key.ty.isLazy = true ∧ ∃ ty,
      key.ty.dealias.args = [ty] ∧ result.key = .of ty key.qualifier
  | .lateInit _ result => result.key = key
  | .provide .. | .arg _ | .localVar _ => True

variable {src catalog} {a : Arena} {around : List LambdaParam} {use : Use} {key : Key}
  {id : PlanId} {p : Plan}

/-! ## What is chosen -/

theorem container?_of_chosen {kind : ContainerKind} {contributors : List MemberBinding}
    (chosen : (src.choose catalog key).1 = .binding (.container kind contributors)) :
    catalog.container? key = some (.container kind contributors) := by
  simp only [choose] at chosen
  split at chosen
  · rename_i found here
    obtain ⟨_, _, own, same, -⟩ := exists_of_lookup here
    rw [same] at chosen
    cases chosen
  · split at chosen
    · rename_i b here
      cases chosen
      exact here
    · split at chosen
      · cases chosen
      · split at chosen
        · cases chosen
        · rename_i cls _
          rcases src.classChoice_cases catalog key cls with same | same | ⟨-, index, same⟩ <;>
            rw [same] at chosen
          · cases chosen
          · cases chosen
          · simp only [ctorChoice] at chosen
            split at chosen
            · cases chosen
            · split at chosen <;> cases chosen

/-- The kind of a container is that of its type. -/
theorem kind_of_chosen {kind : ContainerKind} {contributors : List MemberBinding}
    (gathered : catalog.Everywhere Gathered)
    (chosen : (src.choose catalog key).1 = .binding (.container kind contributors)) :
    (kind = .set ↔ key.ty.isA .set = true) ∧ (kind = .map ↔ key.ty.isA .map = true) := by
  have filed : ∃ place ∈ catalog.walk, ∃ entry,
      place.2.own.containers.get? key = some entry ∧ entry.kind = kind := by
    have here := container?_of_chosen chosen
    simp only [Catalog.container?] at here
    split at here
    · cases here
    · rename_i path entry rest found
      cases here
      have first : (path, entry) ∈ Catalog.contributionsIn key catalog.walk := by
        rw [found]
        exact List.mem_cons_self
      obtain ⟨place, mem, same⟩ := List.mem_filterMap.mp first
      obtain ⟨_, present, same⟩ := Option.map_eq_some_iff.mp same
      cases same
      exact ⟨place, mem, entry, present, rfl⟩
  obtain ⟨place, mem, entry, present, rfl⟩ := filed
  rcases gathered.walk place mem key entry present with
    ⟨kind, element, ty⟩ | ⟨kind, first, second, ty⟩ <;> rw [kind, ty]
  · exact ⟨iff_of_true rfl rfl, iff_of_false (by decide) (by simp [Ty.isA, Ty.setOf, Ty.dealias,
      Ty.ofDecl, DeclName.isNamed, DeclName.map, DeclName.set])⟩
  · exact ⟨iff_of_false (by decide) (by simp [Ty.isA, Ty.mapOf, Ty.dealias,
      Ty.ofDecl, DeclName.isNamed, DeclName.map, DeclName.set]), iff_of_true rfl rfl⟩

/-- A single instance is chosen for a type of its name that is no alias. -/
theorem decl_of_chosen {cls : ClassId} (few : src.program.classes.length ≤ lastIdentity + 1)
    (chosen : (src.choose catalog key).1 = .binding (.object cls)) :
    (src.program.classAt cls).decl = key.ty.decl := by
  simp only [choose] at chosen
  split at chosen
  · rename_i found here
    obtain ⟨_, _, own, same, -⟩ := exists_of_lookup here
    rw [same] at chosen
    cases chosen
  · split at chosen
    · rename_i b here
      obtain ⟨_, _, rfl⟩ := binding_of_container? here
      cases chosen
    · split at chosen
      · cases chosen
      · rename_i plain
        split at chosen
        · cases chosen
        · rename_i id named
          have here : id = cls := by
            rcases src.classChoice_cases catalog key id with same | same | ⟨-, index, same⟩ <;>
              rw [same] at chosen
            · cases chosen
            · cases chosen
              rfl
            · simp only [ctorChoice] at chosen
              split at chosen
              · cases chosen
              · split at chosen <;> cases chosen
          subst here
          have direct : key.ty.aliasOf = none := by
            simp only [Bool.or_eq_true, not_or, Ty.isAlias] at plain
            simpa using plain.2
          rw [Program.classOf, Ty.dealias_of_not_alias direct] at named
          exact decl_of_classNamed few named

/-! ## Typed plans fit -/

/-- What is just built keeps no value. -/
theorem Typed.cell?_of_built (typed : src.Typed catalog a around .built key id) :
    ∃ p, a.plan? id = some p ∧ p.cell? = none := by
  cases typed with
  | «variable» found | late found | construct _ _ _ found | provide found
  | namedFunction _ _ _ found => exact ⟨_, found, rfl⟩

theorem exists_of_ctor {p : Program} {cls : ClassId} {ctor : CtorDecl}
    (mem : ctor ∈ (p.classAt cls).ctors) : ∃ c ∈ p.classes, ctor ∈ c.ctors := by
  rw [Program.classAt] at mem
  cases at_ : p.classes[cls.toNat]? with
  | none =>
      rw [at_] at mem
      cases mem
  | some c =>
      rw [at_] at mem
      exact ⟨c, List.mem_of_getElem? at_, mem⟩

theorem Typed.fits
    (distinct : ∀ c ∈ src.program.classes, ∀ ctor ∈ c.ctors, (ctor.params.map (·.name)).Nodup)
    (few : src.program.classes.length ≤ lastIdentity + 1)
    (gathered : catalog.Everywhere Gathered) (typed : src.Typed catalog a around use key id) :
    ∃ p, a.plan? id = some p ∧ src.Fits catalog a key p := by
  induction typed with
  | again _ _ ih | built _ _ ih => exact ih
  | param _ found | «variable» found | provide found => exact ⟨_, found, trivial⟩
  | keep _ found typed => exact ⟨_, found, rfl, rfl, typed.cell?_of_built⟩
  | container _ chosen found => exact ⟨_, found, kind_of_chosen gathered chosen⟩
  | object _ chosen found =>
      have same := decl_of_chosen few chosen
      exact ⟨_, found, congrArg DeclName.package same, congrArg DeclName.name same⟩
  | function _ function args _ found =>
      exact ⟨_, found, function, _, _, args, by simp [types, names], rfl⟩
  | lazy _ strict args found => exact ⟨_, found, strict, _, args, rfl⟩
  | late found => exact ⟨_, found, rfl⟩
  | @construct _ _ _ cls index path scopedIn ctor _ chosen declared supplies found =>
      obtain ⟨c, mem, among⟩ := exists_of_ctor (List.mem_of_getElem? declared)
      exact ⟨_, found, rfl, cls, index, path, scopedIn, ctor, chosen, declared, rfl,
        supplies (distinct c mem ctor among)⟩
  | namedFunction function args _ found =>
      exact ⟨_, found, function, _, _, args, by simp [types, names]⟩

end Source

/-- Each slot below an accessor points at a plan that fits the key of the slot, in a program with
no more classes than there are class ids, in which the parameters of a constructor have different
names.  With more classes an id names several of them, and the single instance of the one would be
taken for that of another. -/
theorem planned_fits (src : Source) (history : List ClassId) (cls : ClassId) (className : String)
    (log : Log) (few : src.program.classes.length ≤ lastIdentity + 1)
    (distinct : ∀ c ∈ src.program.classes, ∀ ctor ∈ c.ctors, (ctor.params.map (·.name)).Nodup) :
    let catalog := src.catalogAfter history cls
    let f := src.planned className catalog log
    ∀ above s, f.Below above s →
      ∃ p, f.arena.plan? s.id = some p ∧ src.Fits catalog f.arena s.key p := by
  intro catalog f above s below
  obtain ⟨e, mem, path⟩ := below
  obtain ⟨use, root⟩ := src.planned_typed catalog className log e mem
  obtain ⟨rows, trail, -⟩ := path.trail
  obtain ⟨inside, use', typed, -⟩ := root.trail List.nodup_nil trail
  have gathered : catalog.Everywhere Source.Gathered :=
    Source.catalogAfter_everywhere Source.gathered_holdings Source.gathered_empty history cls
  exact typed.fits distinct few gathered

open Source

/-- A function from a `Foo` to a lazy `Bar`, which needs that `Foo` and all that are contributed,
and might be given a `Note`. -/
def lazyBar : Source where
  program :=
    { classes := [{ ClassDecl.injectable "Bar" [] with
          ctors := [{ params := [{ name := "foo", ty := { name := "Foo" } },
            { name := "all", ty := .setOf { name := "Foo" } },
            { name := "note", ty := { name := "Note" }, hasDefault := true }] }] },
        .abstractComponent [.ofNat 0, .ofNat 1], { name := "Foo" }]
      members := [
        .accessor (.ofNat 1) "make" (.function [{ name := "Foo" }] (.lazyOf { name := "Bar" })),
        .contribution (.ofNat 1) "one" [] { name := "Foo" }] }
  options := {}

/-- The plan for the `Bar` has arguments for the parameters without defaults. -/
theorem lazyBar_fits : ∃ above s p, (lazyBar.plannedAlone (.ofNat 1)).Below above s ∧
    (lazyBar.plannedAlone (.ofNat 1)).arena.plan? s.id = some p ∧ p.stepName = "Constructor" ∧
    p.children.map (·.key) = [.of { name := "Foo" }, .of (.setOf { name := "Foo" })] ∧
    lazyBar.Fits (lazyBar.catalogAfter [] (.ofNat 1)) (lazyBar.plannedAlone (.ofNat 1)).arena
      s.key p := by
  have shape : ∃ e ∈ (lazyBar.plannedAlone (.ofNat 1)).entries,
      ∃ found ∈ ((lazyBar.plannedAlone (.ofNat 1)).arena.follow [] e.result [0, 0]).toList,
        ∃ p ∈ ((lazyBar.plannedAlone (.ofNat 1)).arena.plan? found.2.id).toList,
          p.stepName = "Constructor" ∧
          p.children.map (·.key) = [.of { name := "Foo" }, .of (.setOf { name := "Foo" })] := by
    decide +kernel
  obtain ⟨e, mem, ⟨above, s⟩, led, p, found, step, keys⟩ := shape
  have below : (lazyBar.plannedAlone (.ofNat 1)).Below above s :=
    ⟨e, mem, Arena.path_of_follow .here (Option.mem_toList.mp led)⟩
  have there := Option.mem_toList.mp found
  obtain ⟨q, found', fits⟩ := planned_fits lazyBar [] (.ofNat 1) (implementationName "C") {}
    (by decide +kernel) (by decide +kernel) above s below
  obtain rfl : p = q := Option.some.inj (there.symm.trans found')
  exact ⟨above, s, p, below, there, step, keys, fits⟩

end Injector
