/-
# Injector.Proofs.Planner.Endless -- constructions that need themselves

An accessor fails with `endless` when its construction meets a declaration that is
under construction, with nothing deferred in between.  That is so of a chain of
requests that comes back to the declaration (`planning_endless`); the stack does not
tell under which types.  If each call of the declaration leads back to it as soon as
one does, the accessor's key is bottomless: it has no finite construction.  So it is
for declarations without type variables, whose calls all ask for the same.

It is not so for a `Box<Box<Foo>>`: the outer box needs the inner one, which is another
call of the same constructor, and then a `Foo` (`nestedBox_bottomless_refuted`).
-/
import Injector.Proofs.Planner.Errors

namespace Injector

set_option autoImplicit false

open Relation (ReflTransGen)

namespace Source

variable {src : Source} {catalog : Catalog} {m : MemberId} {e : PlanError}

theorem mem_failures_of_prepend {more : Implemented} {m' : MemberId}
    {result : Except PlanError Entry} (mem : (m, e) ∈ (Regime.prepend m' more result).failures) :
    m = m' ∧ result = .error e ∨ (m, e) ∈ more.failures := by
  cases result with
  | ok entry => exact .inr mem
  | error failure =>
      rcases List.mem_cons.mp mem with same | mem
      · cases same
        exact .inl ⟨rfl, rfl⟩
      · exact .inr mem

/-- An accessor that is among the failures has failed from some state. -/
theorem failed_of_mem {site : Site} {accessors : List MemberId} {st : PlannerState}
    (mem : (m, e) ∈ ((src.implementEach site accessors).run st).1.failures) :
    m ∈ accessors ∧ ∃ before, ((src.implement site m).runFrom before).1 = .error e := by
  induction accessors generalizing st with
  | nil => cases mem
  | cons first rest ih =>
      cases one : (src.implement site first).runFrom st with
      | mk result mid =>
          cases others : (src.implementEach site rest).run mid with
          | mk more last =>
              rw [Regime.run_implementEach_cons one others] at mem
              rcases mem_failures_of_prepend mem with ⟨rfl, rfl⟩ | mem
              · exact ⟨List.mem_cons_self, st, by rw [one]⟩
              · have later := @ih mid (by rw [others]; exact mem)
                exact ⟨List.mem_cons_of_mem _ later.1, later.2⟩

/-- An accessor of the component fails with an explanation only. -/
theorem planning_explained {className : String} {log : Log}
    (failed : (m, e) ∈ (src.planning className catalog log).1.failures) :
    src.Explained catalog m e := by
  obtain ⟨-, before, failed⟩ := failed_of_mem failed
  exact explained_implement rfl rfl failed

/-- An accessor fails because a declaration needs itself only when its requests come
back to the declaration at once.  Unless that is the accessor itself, its key has no
finite construction, if each call of the declaration leads back to it as soon as one
does. -/
theorem planning_endless {className : String} {log : Log} {element : Element}
    {trace : List Element}
    (failed : (m, .endless element trace) ∈ (src.planning className catalog log).1.failures) :
    (element = .member m ∧ (∃ key, ReflTransGen (src.Now catalog) (src.accessorKey catalog m) key ∧
          ∃ d ∈ src.calls catalog key, d.inLambda = false ∧ d.element = element) ∨
        ∃ c, src.Needs catalog m c ∧ c.element = element ∧ src.LeadsBack catalog c) ∧
      (element ≠ .member m →
        (∀ c d, src.Needs catalog m c → src.Needs catalog m d → c.element = element →
          d.element = element → src.LeadsBack catalog c → src.LeadsBack catalog d) →
        src.Bottomless catalog (src.accessorKey catalog m)) := by
  obtain ⟨s, u, key, d, above, reached, mem, now, same, met, none⟩ := planning_explained failed
  have returns : element = .member m ∧
        (∃ key, ReflTransGen (src.Now catalog) (src.accessorKey catalog m) key ∧
          ∃ d ∈ src.calls catalog key, d.inLambda = false ∧ d.element = element) ∨
      ∃ c, src.Needs catalog m c ∧ c.element = element ∧ src.LeadsBack catalog c := by
    rcases reached.building met none with ⟨own, chain⟩ | ⟨c, needs, same', asked, asks, chain⟩
    · exact .inl ⟨own, key, chain, d, mem, now, same⟩
    · exact .inr ⟨c, needs, same', asked, asks, key, chain, d, mem, now, same.trans same'.symm⟩
  refine ⟨returns, fun foreign uniform => ?_⟩
  obtain ⟨c, needs, same, back⟩ := returns.resolve_left fun own => foreign own.1
  exact bottomless_of_leadsBack needs back fun d needs' same' =>
    uniform c d needs needs' same (same'.trans same) back

/-- Where each step leads to a lower type, no chain goes on forever. -/
theorem not_bottomless {keys : List Key} {key : Key} (mem : key ∈ keys)
    (lower : ∀ key ∈ keys, ∀ next, src.Next catalog key next →
      next ∈ keys ∧ next.ty.height < key.ty.height) : ¬src.Bottomless catalog key := by
  rintro ⟨f, start, steps, -⟩
  have falls : ∀ n, f n ∈ keys ∧ (f n).ty.height + n ≤ key.ty.height := by
    intro n
    induction n with
    | zero =>
        rw [start]
        exact ⟨mem, Nat.le_refl _⟩
    | succ n ih =>
        obtain ⟨mem', less⟩ := lower (f n) ih.1 (f (n + 1)) (steps n)
        exact ⟨mem', by omega⟩
  have low := (falls (key.ty.height + 1)).2
  omega

end Source

/-! ## Small components -/

/-- An `A` needs an `A`. -/
def selfNeedy : Source where
  program :=
    { classes := [.injectable "A" [("a", { name := "A" })], .abstractComponent [.ofNat 0]]
      members := [.accessor (.ofNat 1) "a" { name := "A" }] }
  options := {}

theorem selfNeedy_covers :
    selfNeedy.Covers (selfNeedy.collect (.ofNat 1) {}).1 [.of { name := "A" }] := by
  decide +kernel

theorem selfNeedy_bottomless :
    (.ofNat 0, .endless (.ctor (.ofNat 0) 0) [.ctor (.ofNat 0) 0, .member (.ofNat 0)]) ∈
        (selfNeedy.planning "C" (selfNeedy.collect (.ofNat 1) {}).1 {}).1.failures ∧
      selfNeedy.Bottomless (selfNeedy.collect (.ofNat 1) {}).1 (.of { name := "A" }) := by
  have failed : (.ofNat 0, .endless (.ctor (.ofNat 0) 0) [.ctor (.ofNat 0) 0, .member (.ofNat 0)]) ∈
      (selfNeedy.planning "C" (selfNeedy.collect (.ofNat 1) {}).1 {}).1.failures := by
    decide +kernel
  have separate : selfNeedy.OneToOne (selfNeedy.collect (.ofNat 1) {}).1 :=
    selfNeedy_covers.oneToOne (by decide +kernel)
  have accessor : .ofNat 0 ∈ (selfNeedy.collect (.ofNat 1) {}).1.own.accessors := by
    decide +kernel
  refine ⟨failed, (Source.planning_endless failed).2 (by decide) ?_⟩
  intro c d needs needs' same same' back
  obtain rfl := separate.ofElement (needs.built accessor) (needs'.built accessor)
    (same.trans same'.symm)
  exact back

/-- A box of anything, and the accessor of a box in a box. -/
def nestedBox : Source where
  program :=
    { classes := [.injectable "Foo" [],
        { ClassDecl.injectable "Box" [("inner", .typeVar "T")] with typeVars := [{ name := "T" }] },
        .abstractComponent [.ofNat 0]]
      members := [.accessor (.ofNat 2) "boxes"
        { name := "Box", args := [{ name := "Box", args := [{ name := "Foo" }] }] }] }
  options := {}

/-- All that is asked for in `nestedBox`. -/
def nestedBoxKeys : List Key :=
  [.of { name := "Box", args := [{ name := "Box", args := [{ name := "Foo" }] }] },
    .of { name := "Box", args := [{ name := "Foo" }] }, .of { name := "Foo" }]

/-- The accessor of the boxes fails, but a chain from it ends at `Foo`. -/
theorem nestedBox_bottomless_refuted :
    (.ofNat 0, .endless (.ctor (.ofNat 1) 0) [.ctor (.ofNat 1) 0, .member (.ofNat 0)]) ∈
        (nestedBox.planning "C" (nestedBox.collect (.ofNat 2) {}).1 {}).1.failures ∧
      ¬nestedBox.Bottomless (nestedBox.collect (.ofNat 2) {}).1
        (nestedBox.accessorKey (nestedBox.collect (.ofNat 2) {}).1 (.ofNat 0)) := by
  have lower : ∀ key ∈ nestedBoxKeys,
      (∀ c ∈ nestedBox.calls (nestedBox.collect (.ofNat 2) {}).1 key, ∀ asked ∈ nestedBox.asks c,
          asked ∈ nestedBoxKeys ∧ asked.ty.height < key.ty.height) ∧
        nestedBox.innerKey? key = none := by
    decide +kernel
  have start : nestedBox.accessorKey (nestedBox.collect (.ofNat 2) {}).1 (.ofNat 0) ∈
      nestedBoxKeys := by
    decide +kernel
  refine ⟨by decide +kernel, Source.not_bottomless start ?_⟩
  intro key mem next step
  rcases step with ⟨c, call, asked⟩ | ⟨-, found⟩
  · exact (lower key mem).1 c call next asked
  · rw [(lower key mem).2] at found
    cases found

end Injector
