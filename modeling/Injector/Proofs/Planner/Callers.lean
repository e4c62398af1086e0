/-
# Injector.Proofs.Planner.Callers -- what kept values take from those who ask

A value with a scope is built once and kept, so it ought not to depend on who asks first.
But the lambda parameters around a request stay around what is built for it, kept or not,
and a parameter stands for every value that its type may stand for.

`Derived.argument` follows the parameters down a derivation: a reference to one is bound
below, or the parameter was around already and stands for a value that is used.  Below a
kept value it can then not stand for that value itself (`planned_argumentsInside`), which
leaves none if a parameter that can stand for what a kept value uses can stand for the kept
value too.

The last section shows a kept value that is built from the parameter of a function.
-/
import Injector.Proofs.Planner.Tokens

namespace Injector

set_option autoImplicit false

open LambdaParam (names types)
open Relation (ReflTransGen)

/-- Each reference to a lambda parameter below a kept value is bound below it. -/
def Forest.ArgumentsInside (f : Forest) : Prop :=
  ∀ cell s above t name, f.Stores cell s → Arena.Path f.arena s above t →
    f.arena.plan? t.id = some (.arg name) → ∃ p ∈ above, name ∈ p.lambdaParams

/-- A path from a plan to one of another kind goes through a value that the plan needs. -/
theorem Arena.Path.lower {a : Arena} {root t : Slot} {above : List Plan} {p q : Plan}
    (path : Arena.Path a root above t) (there : a.plan? root.id = some p)
    (found : a.plan? t.id = some q) (other : p ≠ q) :
    ∃ child ∈ p.children, ∃ rest, Arena.Path a child rest t ∧ above = rest ++ [p] := by
  rcases path.uncons with ⟨-, rfl⟩ | ⟨p', child, rest, there', mem, below, rfl⟩
  · exact absurd (Option.some.inj (there.symm.trans found)) other
  · cases there.symm.trans there'
    exact ⟨child, mem, rest, below, rfl⟩

namespace Source

variable (src : Source) (catalog : Catalog)

/-- A lambda parameter of the type can stand for the key. -/
def StandsFor (ty : Ty) (key : Key) : Prop :=
  key.qualifier = none ∧ src.program.isAssignable key.ty ty = true

/-- The key is asked for to do the task, or for what it asks for. -/
def Uses : Task → Key → Prop
  | .value _ key, used => ReflTransGen (src.Next catalog) key used
  | .call c, used | .step c, used =>
    ∃ asked ∈ src.asks c, ReflTransGen (src.Next catalog) asked used

/-- Each reference to a parameter below a kept value is bound below it, or is to a parameter
that comes from a function which the value follows from, and that cannot stand for the value
but for something that the value uses. -/
def ArgumentsTraced (f : Forest) : Prop :=
  ∀ cell s above t name, f.Stores cell s → Arena.Path f.arena s above t →
    f.arena.plan? t.id = some (.arg name) → (∃ p ∈ above, name ∈ p.binders) ∨
      ∃ param, param.name = name ∧ src.Introduced catalog param s.key ∧
        ¬src.StandsFor param.ty s.key ∧
        ∃ used, ReflTransGen (src.Next catalog) s.key used ∧ src.StandsFor param.ty used

/-- A parameter of a function can stand for what a kept value uses inside the function only
if it can stand for the kept value. -/
def CallersApart : Prop :=
  ∀ param key used, src.Introduced catalog param key → src.keeper? catalog key ≠ none →
    ReflTransGen (src.Next catalog) key used → src.StandsFor param.ty used →
    src.StandsFor param.ty key

variable {src catalog} {a : Arena} {site : Site} {s : List BuildEntry} {task : Task}
  {id : PlanId} {key : Key}

theorem standsFor_of_findParam {param : LambdaParam}
    (found : site.findParam src.program key = some param) :
    param ∈ site.lambdaParams ∧ src.StandsFor param.ty key := by
  simp only [Site.findParam] at found
  split at found
  · cases found
  · rename_i unqualified
    refine ⟨List.mem_reverse.mp (List.mem_of_find?_eq_some found), ?_, ?_⟩
    · simpa using unqualified
    · exact (List.find?_eq_some_iff_append.mp found).1

theorem not_standsFor_of_findParam (absent : site.findParam src.program key = none)
    {param : LambdaParam} (mem : param ∈ site.lambdaParams) : ¬src.StandsFor param.ty key := by
  rintro ⟨unqualified, assignable⟩
  simp only [Site.findParam, unqualified, Option.isSome_none, Bool.false_eq_true,
    if_false] at absent
  exact List.find?_eq_none.mp absent param (List.mem_reverse.mpr mem) assignable

/-! ## Down a derivation -/

/-- What the call uses is used for a key that it answers. -/
theorem uses_of_call {bare : Bool} {c : Call} {used : Key} (mem : c ∈ src.calls catalog key)
    (uses : src.Uses catalog (.call c) used) : src.Uses catalog (.value bare key) used := by
  obtain ⟨asked, asks, chain⟩ := uses
  exact .head (.inl ⟨c, mem, asks⟩) chain

/-- What the value inside uses is used for the lambda or the lazy value around it. -/
theorem uses_of_inner {bare bare' : Bool} {inner used : Key} (unbound : src.Unbound catalog key)
    (found : src.innerKey? key = some inner) (uses : src.Uses catalog (.value bare inner) used) :
    src.Uses catalog (.value bare' key) used :=
  .head (.inr ⟨unbound, found⟩) uses

variable (src catalog) in
/-- The name is bound by one of the plans, or is that of a parameter around the site which
stands for something that the task uses. -/
def Accounted (site : Site) (task : Task) (above : List Plan) (name : String) : Prop :=
  (∃ p ∈ above, name ∈ p.binders) ∨ ∃ param ∈ site.lambdaParams, param.name = name ∧
    ∃ used, src.Uses catalog task used ∧ src.StandsFor param.ty used

variable {above : List Plan} {name : String} {inner : Task} {lambda : List LambdaParam} {p : Plan}

theorem Accounted.uses (accounted : src.Accounted catalog site inner above name)
    (uses : ∀ used, src.Uses catalog inner used → src.Uses catalog task used) :
    src.Accounted catalog site task above name := by
  refine accounted.imp_right ?_
  rintro ⟨param, mem, named, used, among, stands⟩
  exact ⟨param, mem, named, used, uses used among, stands⟩

/-- Outside a plan the parameters that it binds are no longer around. -/
theorem Accounted.leave (accounted : src.Accounted catalog (site.inside lambda) inner above name)
    (binds : ∀ param ∈ lambda, param.name ∈ p.binders)
    (uses : ∀ used, src.Uses catalog inner used → src.Uses catalog task used) :
    src.Accounted catalog site task (above ++ [p]) name := by
  rcases accounted with ⟨q, mem, bound⟩ | ⟨param, mem, rfl, used, among, stands⟩
  · exact .inl ⟨q, List.mem_append_left _ mem, bound⟩
  · rcases List.mem_append.mp mem with mem | mem
    · exact .inr ⟨param, mem, rfl, used, uses used among, stands⟩
    · exact .inl ⟨p, by simp, binds param mem⟩

theorem Accounted.leave_plain (accounted : src.Accounted catalog site inner above name)
    (uses : ∀ used, src.Uses catalog inner used → src.Uses catalog task used) :
    src.Accounted catalog site task (above ++ [p]) name := by
  rw [← Site.inside_nil site] at accounted
  exact accounted.leave (by simp) uses

/-- The plan of a step binds the parameters around what it needs. -/
theorem Makes.binds {c : Call} (makes : src.Makes site c lambda p) :
    ∀ param ∈ lambda, param.name ∈ p.binders := by
  intro param mem
  cases makes with
  | lambda => exact List.mem_map_of_mem mem
  | ctor | member => cases mem

theorem Makes.ne_arg {c : Call} (makes : src.Makes site c lambda p) : p ≠ .arg name := by
  rintro rfl
  cases makes

/-- A reference below a derived plan is bound below it, or is to a parameter around that
stands for something the plan uses. -/
theorem Derived.argument (sound : a.Sound) (derived : src.Derived catalog a site s task id)
    {root t : Slot} (here : root.id = id) (path : Arena.Path a root above t)
    (found : a.plan? t.id = some (.arg name)) : src.Accounted catalog site task above name := by
  induction derived generalizing root above with
  | again _ _ closed =>
      exact .inl ((Arena.isClosed_iff sound root).mp (here ▸ closed) above t _ name path found rfl)
  | param posed stands there =>
      rcases path.uncons with ⟨-, rfl⟩ | ⟨p, child, rest, there', mem, -, -⟩
      · rw [here, there] at found
        obtain ⟨mem, stands⟩ := standsFor_of_findParam stands
        exact .inr ⟨_, mem, by simpa using found, _, .refl, stands⟩
      · rw [here, there] at there'
        cases there'
        cases mem
  | keep _ _ _ there _ ih =>
      obtain ⟨child, mem, rest, below, rfl⟩ := path.lower (here ▸ there) found (by simp)
      obtain rfl := List.mem_singleton.mp mem
      exact Accounted.leave_plain (ih rfl below) fun _ uses => uses
  | call _ answers _ _ _ ih | functionCall _ answers _ _ ih =>
      exact (ih here path).uses fun _ => uses_of_call answers.mem
  | container _ chosen there keys _ ih =>
      obtain ⟨child, mem, rest, below, rfl⟩ := path.lower (here ▸ there) found (by simp)
      obtain ⟨row, among, rfl⟩ := List.mem_map.mp mem
      refine (ih row among rfl below).leave_plain fun _ => uses_of_call ?_
      rw [calls_of_binding chosen, keys row among]
      exact List.mem_map_of_mem (List.mem_map_of_mem among)
  | object _ there =>
      obtain ⟨child, mem, -⟩ := path.lower (here ▸ there) found (by simp)
      cases mem
  | function _ unbound inner there _ ih =>
      obtain ⟨child, mem, rest, below, rfl⟩ := path.lower (here ▸ there) found (by simp)
      obtain rfl := List.mem_singleton.mp mem
      exact (ih rfl below).leave (fun _ mem => List.mem_map_of_mem mem)
        fun _ => uses_of_inner unbound inner
  | lazy _ unbound inner there _ ih =>
      obtain ⟨child, mem, rest, below, rfl⟩ := path.lower (here ▸ there) found (by simp)
      obtain rfl := List.mem_singleton.mp mem
      exact (ih rfl below).leave_plain fun _ => uses_of_inner unbound inner
  | «variable» _ there =>
      obtain ⟨child, mem, -⟩ := path.lower (here ▸ there) found (by simp)
      cases mem
  | made _ _ ih => exact ih here path
  | late _ there _ ih =>
      obtain ⟨child, mem, rest, below, rfl⟩ := path.lower (here ▸ there) found (by simp)
      obtain rfl := List.mem_singleton.mp mem
      exact (ih rfl below).leave_plain fun _ uses => uses
  | step makes there passes _ ih =>
      obtain ⟨child, mem, rest, below, rfl⟩ := path.lower (here ▸ there) found makes.ne_arg
      refine (ih child mem rfl below).leave makes.binds fun _ chain => ?_
      exact ⟨_, passes.asked child mem, chain⟩

/-- A parameter around a kept value that the value refers to comes from a function that the
value follows from; it cannot stand for the value, but for something that the value uses. -/
theorem Derived.caller {token : String} {path : FieldPath} {result : Slot} {root t : Slot}
    (sound : a.Sound) (derived : src.Derived catalog a site s task root.id)
    (kept : a.plan? root.id = some (.keep token path result)) (below : Arena.Path a root above t)
    (found : a.plan? t.id = some (.arg name)) :
    (∃ p ∈ above, name ∈ p.binders) ∨ ∃ param, param.name = name ∧
      src.Introduced catalog param task.key ∧ ¬src.StandsFor param.ty task.key ∧
      ∃ used, ReflTransGen (src.Next catalog) task.key used ∧ src.StandsFor param.ty used := by
  obtain ⟨same, -, -, bare, site, s, posed, absent, inside⟩ := derived.kept kept
  obtain ⟨child, mem, rest, lower, rfl⟩ := below.lower kept found (by simp)
  obtain rfl := List.mem_singleton.mp mem
  rw [same]
  rcases inside.argument sound rfl lower found with ⟨p, mem, bound⟩ |
    ⟨param, mem, named, used, uses, stands⟩
  · exact .inl ⟨p, List.mem_append_left _ mem, bound⟩
  · exact .inr ⟨param, named, posed.introduced param mem, not_standsFor_of_findParam absent mem,
      used, uses, stands⟩

variable (src catalog) in
theorem planned_argumentsTraced (className : String) (log : Log) :
    src.ArgumentsTraced catalog (src.planned className catalog log) := by
  have orderly := planned_orderly src catalog className log
  rintro cell s above t name ⟨outer, p, below, kept, cell⟩ path found
  obtain ⟨result, rfl⟩ := Plan.eq_keep_of_cell? cell
  obtain ⟨site, stack, task, derived, same, -⟩ := planned_below below kept rfl
  exact same ▸ derived.caller orderly.sound kept path found

end Source

open Source

/-- A reference to a lambda parameter below a kept value is bound below it, or can be traced to
a function which the value follows from.  All are bound below, by lambdas, if no parameter can
stand for what a kept value uses but not for the value, and no type suggests a parameter's
name. -/
theorem planned_argumentsInside (src : Source) (className : String) (catalog : Catalog)
    (log : Log) :
    src.ArgumentsTraced catalog (src.planned className catalog log) ∧
      (src.CallersApart catalog → src.NamesAvoidParams catalog →
        (src.planned className catalog log).ArgumentsInside) := by
  have orderly := planned_orderly src catalog className log
  have traced := src.planned_argumentsTraced catalog className log
  refine ⟨traced, fun apart avoids cell s above t name stores path found => ?_⟩
  rcases traced cell s above t name stores path found with ⟨p, mem, bound⟩ |
    ⟨param, -, introduced, stands, used, chain, uses⟩
  · rcases Plan.mem_binders.mp bound with declared | bound
    · obtain ⟨result, -, named, built⟩ := (orderly.proper_above path mem).suggested declared
      have param : IsParamName name := (orderly.proper found).1
      exact absurd param (named ▸ avoids _ built)
    · exact ⟨p, mem, bound⟩
  · have kept := (Stores.requested stores).2.2
    exact absurd (apart param s.key used introduced (by simp [kept]) chain uses) stands

/-- A function makes a `Foo` from a `Bar` and a `Log` that is kept. -/
def keptLog : Source where
  program :=
    { classes := [.smallScope, .injectable "Bar" [], (ClassDecl.injectable "Log" []).withScope,
        .injectable "Foo" [("bar", { name := "Bar" }), ("log", { name := "Log" })],
        (ClassDecl.abstractComponent [.ofNat 0]).withScope]
      members := [
        .accessor (.ofNat 4) "make" (.function [{ name := "Bar" }] { name := "Foo" })] }
  options := {}

/-- All that is asked for in `keptLog`. -/
def keptLogKeys : List Key :=
  [.of (.function [{ name := "Bar" }] { name := "Foo" }), .of { name := "Foo" },
    .of { name := "Bar" }, .of { name := "Log" }]

theorem keptLog_covers : keptLog.Covers (keptLog.collect (.ofNat 4) {}).1 keptLogKeys := by
  decide +kernel

/-- The `Log` takes nothing from whoever calls the function. -/
theorem keptLog_argumentsInside :
    (keptLog.plannedAlone (.ofNat 4)).entries ≠ [] ∧
      (keptLog.plannedAlone (.ofNat 4)).ArgumentsInside := by
  refine ⟨by decide +kernel, (planned_argumentsInside keptLog _ _ _).2 ?_ ?_⟩
  · have alone : keptLog.Closed (keptLog.collect (.ofNat 4) {}).1 [.of { name := "Log" }] := by
      decide +kernel
    have only : ∀ key ∈ keptLogKeys,
        keptLog.keeper? (keptLog.collect (.ofNat 4) {}).1 key ≠ none →
          key = .of { name := "Log" } := by
      decide +kernel
    intro param key used introduced kept chain stands
    obtain ⟨fn, first, requested, -, -, enters, chain'⟩ := introduced
    have mem := keptLog_covers.requested ((requested.step enters).chain chain')
    obtain rfl := only key mem kept
    exact List.mem_singleton.mp (alone.mem (List.mem_singleton_self _) chain) ▸ stands
  · exact keptLog_covers.namesAvoidParams (by decide +kernel)

/-! ## A value that depends on the caller -/

/-- A function makes a `Foo`, which is kept, from a `Bar`. -/
def keptFoo : Source where
  program :=
    { classes := [.smallScope, .injectable "Bar" [],
        (ClassDecl.injectable "Foo" [("bar", { name := "Bar" })]).withScope,
        (ClassDecl.abstractComponent [.ofNat 0]).withScope]
      members := [
        .accessor (.ofNat 3) "make" (.function [{ name := "Bar" }] { name := "Foo" })] }
  options := {}

/-- The `Foo` is built from the parameter of the function. -/
theorem keptFoo_argumentsInside_refuted :
    ¬(keptFoo.plannedAlone (.ofNat 3)).ArgumentsInside := by
  have shape : ∃ e ∈ (keptFoo.plannedAlone (.ofNat 3)).entries,
      ∃ found ∈ ((keptFoo.plannedAlone (.ofNat 3)).arena.follow [] e.result [0]).toList,
        ((keptFoo.plannedAlone (.ofNat 3)).arena.plan? found.2.id).bind Plan.cell? =
          some ⟨.here, "Foo"⟩ ∧
        ∃ bottom ∈ ((keptFoo.plannedAlone (.ofNat 3)).arena.follow [] found.2 [0, 0]).toList,
          (keptFoo.plannedAlone (.ofNat 3)).arena.plan? bottom.2.id = some (.arg "arg0") ∧
            ∀ p ∈ bottom.1, p.lambdaParams = [] := by
    decide +kernel
  obtain ⟨e, mem, ⟨outer, s⟩, led, stored, ⟨inner, t⟩, led', argument, none⟩ := shape
  obtain ⟨p, found, kept⟩ := Option.bind_eq_some_iff.mp stored
  have path := Arena.path_of_follow .here (Option.mem_toList.mp led)
  have path' := Arena.path_of_follow .here (Option.mem_toList.mp led')
  intro inside
  obtain ⟨p, mem, bound⟩ :=
    inside _ s inner t _ ⟨outer, p, ⟨e, mem, path⟩, found, kept⟩ path' argument
  rw [none p mem] at bound
  cases bound

end Injector
