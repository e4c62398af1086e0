/-
# Injector.Proofs.Planner.Sharing -- what accessors get from each other

The accessors of a component are planned one after the other, and plans that are kept
serve all of them.  What comes of an accessor is the same as when it is planned on its own,
unless plans are kept from earlier accessors for keys that it comes to and that are not
calm (`planning_eq_alone`).  None are if the accessor has no such key in common with an
earlier one, so that it takes part in none of the cycles that they go around.

Where it does, a cycle may be closed elsewhere: where an `A` needs a function that makes a
`B`, and a `B` needs an `A`, the variable stands for the one that is planned first
(`sharedPair_alone_refuted`).
-/
import Injector.Proofs.Planner.Agreement
import Injector.Proofs.Planner.Planning

namespace Injector

set_option autoImplicit false

open PlanM
open LambdaParam (names types)
open Relation (ReflTransGen)

namespace Source

variable {src : Source} {catalog : Catalog} {className : String} {ms ns : List MemberId}
  {m : MemberId} {st st' : PlannerState} {site : Site} {key : Key}

/-! ## One accessor -/

/-- What is done for an accessor once the stack is empty is alike from twins. -/
theorem alike_implement (tidy : src.Tidy catalog ms) (accessor : m ∈ ms)
    (site : Site) (own : site.catalog = catalog) (inClass : site.className = className)
    (outside : site.lambdaParams = []) (bare : site.unwrapping = none)
    (empty : st.stack.entries = []) (findings : List Finding) (entry : PlanId → Entry) :
    src.Alike catalog className ms m st st'
      (do
        report findings
        let id ← constructing (src.accessorKey catalog m) (.member m) do
          return (← src.resolve site (src.accessorKey catalog m)).id
        match (← get).stack.unclosed? with
        | some trace => throw (.unclosed m trace)
        | none => return entry id)
      (do
        report findings
        let id ← constructing (src.accessorKey catalog m) (.member m) do
          return (← src.resolve site (src.accessorKey catalog m)).id
        match (← get).stack.unclosed? with
        | some trace => throw (.unclosed m trace)
        | none => return entry id)
      fun e e' next next' => ∃ id id', e = entry id ∧ e' = entry id' ∧
        Matches [] [] .plan next.arena next'.arena id id' := by
  refine (alike_report _ _).bind fun _ _ start start' _ le le' _ => ?_
  have still : start.stack.entries = [] := le.entries.trans empty
  have around : site.around = [] := by rw [Site.around, outside, List.reverse_nil]
  have stands (s : PlannerState) : site.Stands catalog className s := by
    refine ⟨own, inClass, ?_, ?_⟩ <;> rw [around]
    · exact .nil
    · exact List.forall_mem_nil _
  have due : src.Due catalog m (src.requestDepth (src.accessorKey catalog m))
      (start.push (.building (.member m))).stack.entries site.unwrapping
      (src.accessorKey catalog m) := by
    refine ⟨?_, need_lt_requestDepth _ _ _⟩
    rw [bare, show (start.push (.building (.member m))).stack.entries = [.building (.member m)] from
      congrArg (BuildEntry.building (.member m) :: ·) still]
    exact .accessor
  have resolved := pairs_demand (agrees_requestTo tidy accessor _)
    ⟨stands _, stands (start'.push (.building (.member m))), rfl, rfl⟩ due
  have deep : demand (src.requestTo (src.requestDepth (src.accessorKey catalog m))) site
      (src.accessorKey catalog m) = src.resolve site (src.accessorKey catalog m) := by
    rw [resolve, demand, demand, request]
  rw [around, deep] at resolved
  have built : src.Pairs catalog className ms m [] [] .plan start start'
      (constructing (src.accessorKey catalog m) (.member m) do
        return (← src.resolve site (src.accessorKey catalog m)).id)
      (constructing (src.accessorKey catalog m) (.member m) do
        return (← src.resolve site (src.accessorKey catalog m)).id) := by
    refine pairs_constructing tidy (fun met => ?_) fun _ => ?_
    · rw [still] at met
      cases met
    · exact Alike.bind resolved fun slot slot' _ _ _ _ _ both =>
        .pure ⟨both.left, both.right, congrArg Need.tree both.same⟩
  refine Alike.bind built fun id id' next next' _ _ _ both => ?_
  have seen : src.Alike catalog className ms m next next' (MonadState.get : PlanM PlannerState)
      (MonadState.get : PlanM PlannerState) fun s s' last last' =>
        s'.stack.pending = s.stack.pending ∧ last = next ∧ last' = next' :=
    .of_ok (runFrom_get next) (runFrom_get next') fun twins => ⟨twins,
      (src.copying catalog className ms False).refl next,
      (src.copying catalog className ms False).refl next', twins.pending, rfl, rfl⟩
  refine seen.bind ?_
  rintro s s' last last' - - - ⟨same, rfl, rfl⟩
  have trace : s'.stack.unclosed? = s.stack.unclosed? := by
    rw [BuildStack.unclosed?, same, BuildStack.unclosed?]
  rw [trace]
  cases s.stack.unclosed? with
  | some trace => exact .throw
  | none => exact .pure ⟨id, id', rfl, rfl, both⟩

/-- Planned from two states in which plans of one tree are kept where it matters, an accessor
fails twice, or has the same entry with plans of one tree. -/
theorem implement_alike (tidy : src.Tidy catalog ms) (accessor : m ∈ ms)
    (settled : src.Settled catalog className ms st)
    (settled' : src.Settled catalog className ms st') (kept : src.SameKept catalog ms m st st') :
    src.Settled catalog className ms
        ((src.implement { className, catalog } m).runFrom st).2 ∧
      ((∃ e id, ((src.implement { className, catalog } m).runFrom st).1 = .ok e ∧
          e.result.id < ((src.implement { className, catalog } m).runFrom st).2.arena.size ∧
          ((src.implement { className, catalog } m).runFrom st').1 =
            .ok { e with result := { e.result with id } } ∧
          ((src.implement { className, catalog } m).runFrom st).2.arena.nameless [] e.result.id =
            ((src.implement { className, catalog } m).runFrom st').2.arena.nameless [] id) ∨
        ∃ failure failure',
          ((src.implement { className, catalog } m).runFrom st).1 = .error failure ∧
            ((src.implement { className, catalog } m).runFrom st').1 = .error failure') := by
  let afresh (s : PlannerState) : PlannerState := { s with stack := {}, names := {} }
  have start {s : PlannerState} (settled : src.Settled catalog className ms s) :
      src.Settled catalog className ms (afresh s) :=
    { settled with pending := List.forall_mem_nil _ }
  have twins : src.Twins catalog className ms m (afresh st) (afresh st') :=
    ⟨start settled, start settled', rfl, rfl, kept⟩
  obtain ⟨⟨left, -, -, -, -⟩, -, -, outcome⟩ := alike_implement tidy accessor
    { className, catalog } rfl rfl rfl rfl rfl _ _ twins
  refine ⟨left, outcome.imp_left ?_⟩
  rintro ⟨e, e', run, run', id, id', rfl, rfl, both⟩
  exact ⟨_, id', run, (both.left id (List.mem_singleton_self _)).known, run', both.same⟩

/-! ## Accessors one after the other -/

instance : Append Implemented where
  append x y := ⟨x.entries ++ y.entries, x.failures ++ y.failures⟩

theorem run_implementEach_append (before after : List MemberId) (st : PlannerState) :
    (src.implementEach site (before ++ after)).run st =
      let earlier := (src.implementEach site before).run st
      let later := (src.implementEach site after).run earlier.2
      (earlier.1 ++ later.1, later.2) := by
  induction before generalizing st with
  | nil => rfl
  | cons m rest ih =>
      cases first : (src.implement site m).runFrom st with
      | mk result mid =>
          rw [List.cons_append, Regime.run_implementEach_cons first (ih mid),
            Regime.run_implementEach_cons first rfl]
          cases result <;> rfl

theorem settled_implementEach (tidy : src.Tidy catalog ms) {accessors : List MemberId}
    (among : accessors ⊆ ms) (settled : src.Settled catalog className ms st) :
    src.Settled catalog className ms
      ((src.implementEach { className, catalog } accessors).run st).2 := by
  induction accessors generalizing st with
  | nil => exact settled
  | cons m rest ih =>
      have one := (implement_alike tidy (among List.mem_cons_self) settled settled
        fun _ _ _ => rfl).1
      cases first : (src.implement { className, catalog } m).runFrom st with
      | mk result mid =>
          rw [first] at one
          rw [Regime.run_implementEach_cons first rfl]
          exact ih (fun m mem => among (List.mem_cons_of_mem _ mem)) one

/-- Planning more accessors adds plans. -/
theorem within_implementEach {accessors : List MemberId}
    (own : accessors ⊆ catalog.own.accessors) (sane : src.Sane catalog st) :
    src.Sane catalog ((src.implementEach { className, catalog } accessors).run st).2 ∧
      st.arena.Within ((src.implementEach { className, catalog } accessors).run st).2.arena := by
  have regular : Site.Regular catalog { className, catalog } := ⟨rfl, List.forall_mem_nil _⟩
  obtain ⟨inv, within, -⟩ :=
    (order src catalog).implementEach_keeps regular rfl own ⟨sane, trivial⟩
  exact ⟨inv.1, within⟩

/-- What comes of planning some accessors one after the other. -/
def prior (src : Source) (className : String) (catalog : Catalog) (log : Log)
    (accessors : List MemberId) : Implemented × PlannerState :=
  (src.implementEach { className, catalog } accessors).run { log }

/-- What comes of the accessor `m` when the accessors `before` are planned before it. -/
def turn (src : Source) (className : String) (catalog : Catalog) (log : Log)
    (before : List MemberId) (m : MemberId) : Implemented × PlannerState :=
  (src.implementEach { className, catalog } [m]).run (src.prior className catalog log before).2

/-- What came of the accessor `m` twice: both times it has failed, or has the same entry but
for the number of its plan, and the plans are one tree but for the names of lambda
parameters. -/
inductive SameOutcome (m : MemberId) (a b : Arena) : Implemented → Implemented → Prop where
  | failed (e e' : PlanError) : SameOutcome m a b ⟨[], [(m, e)]⟩ ⟨[], [(m, e')]⟩
  | planned (e : Entry) (id : PlanId) (tree : a.nameless [] e.result.id = b.nameless [] id) :
      SameOutcome m a b ⟨[e], []⟩ ⟨[{ e with result := { e.result with id } }], []⟩

/-- Roots of plans of one tree are the same step. -/
theorem SameOutcome.steps {m : MemberId} {a b : Arena} {x y : Implemented}
    (same : SameOutcome m a b x y) :
    x.entries.map (fun e => (a.nameless [] e.result.id).step) =
      y.entries.map fun e => (b.nameless [] e.result.id).step := by
  cases same with
  | failed => rfl
  | planned e id tree => exact congrArg (fun t => [PlanTree.step t]) tree

/-- An accessor fares as if it were the only one, as long as plans are kept for the same keys
that are not calm. -/
theorem sameOutcome_of_sameKept {a : Arena} (tidy : src.Tidy catalog ms) (accessor : m ∈ ms)
    (settled : src.Settled catalog className ms st)
    (settled' : src.Settled catalog className ms st') (kept : src.SameKept catalog ms m st st')
    (within : ((src.implementEach { className, catalog } [m]).run st).2.arena.Within a) :
    SameOutcome m a ((src.implementEach { className, catalog } [m]).run st').2.arena
      ((src.implementEach { className, catalog } [m]).run st).1
      ((src.implementEach { className, catalog } [m]).run st').1 := by
  obtain ⟨left, outcome⟩ := implement_alike tidy accessor settled settled' kept
  cases first : (src.implement { className, catalog } m).runFrom st with
  | mk result next =>
      cases second : (src.implement { className, catalog } m).runFrom st' with
      | mk result' next' =>
          rw [first] at left outcome
          rw [second] at outcome
          rw [Regime.run_implementEach_cons first rfl] at within ⊢
          rw [Regime.run_implementEach_cons second rfl]
          rcases outcome with ⟨e, id, rfl, known, rfl, tree⟩ | ⟨e, e', rfl, rfl⟩
          · exact .planned e id ((within.nameless_eq left.sound known).trans tree)
          · exact .failed e e'

/-- What comes of an accessor of a component is what comes of it when it is the only one, if
earlier accessors leave it no plans that are kept for keys that are not calm.  They do not
if they have no such key in common with it. -/
theorem planning_eq_alone (src : Source) (className : String) (catalog : Catalog) (log log' : Log)
    {before after : List MemberId} {m : MemberId}
    (order : catalog.own.accessors = before ++ m :: after)
    (tidy : src.Tidy catalog (before ++ [m])) :
    (∃ later, (src.planning className catalog log).1 =
      (src.prior className catalog log before).1 ++
        ((src.turn className catalog log before m).1 ++ later)) ∧
    ((∀ key, src.Comes catalog [m] key → ¬src.Calm catalog (before ++ [m]) key →
        (src.prior className catalog log before).2.cache.get? key = none) →
      SameOutcome m (src.planning className catalog log).2.arena
        (src.turn className catalog log' [] m).2.arena
        (src.turn className catalog log before m).1 (src.turn className catalog log' [] m).1) ∧
    ((∀ key, src.Comes catalog [m] key → src.Comes catalog before key →
        src.Calm catalog (before ++ [m]) key) →
      SameOutcome m (src.planning className catalog log).2.arena
        (src.turn className catalog log' [] m).2.arena
        (src.turn className catalog log before m).1 (src.turn className catalog log' [] m).1) := by
  have accessor : m ∈ before ++ [m] := by simp
  have among : before ⊆ before ++ [m] := by simp
  have whole : src.planning className catalog log =
      let later := (src.implementEach { className, catalog } after).run
        (src.turn className catalog log before m).2
      ((src.prior className catalog log before).1 ++
        ((src.turn className catalog log before m).1 ++ later.1), later.2) := by
    have split : before ++ m :: after = before ++ ([m] ++ after) := rfl
    rw [planning, implementAll, order, split]
    simp only [run_implementEach_append]
    rfl
  have sane : src.Sane catalog (src.turn className catalog log before m).2 := by
    have start : src.Sane catalog { log } := Sane.empty.of_eq rfl rfl fun _ mem => mem
    refine (within_implementEach ?_ (within_implementEach ?_ start).1).1 <;> rw [order]
    · simp
    · simp
  have grows : (src.turn className catalog log before m).2.arena.Within
      (src.planning className catalog log).2.arena := by
    rw [whole]
    refine (within_implementEach ?_ sane).2
    rw [order]
    simp
  -- Plans are kept for what the earlier accessors come to, and for nothing else.
  have alone : src.Settled catalog className before (src.prior className catalog log before).2 :=
    settled_implementEach (tidy.of_subset among) (List.Subset.refl _) (settled_empty log)
  have fares (nothing : ∀ key, src.Comes catalog [m] key → ¬src.Calm catalog (before ++ [m]) key →
      (src.prior className catalog log before).2.cache.get? key = none) :
      SameOutcome m (src.planning className catalog log).2.arena
        (src.turn className catalog log' [] m).2.arena
        (src.turn className catalog log before m).1
        (src.turn className catalog log' [] m).1 := by
    refine sameOutcome_of_sameKept tidy accessor (alone.of_subset among) (settled_empty log')
      (fun key chain wild => ?_) grows
    rw [nothing key ⟨m, List.mem_singleton_self _, chain⟩ wild]
    rfl
  refine ⟨⟨_, congrArg Prod.fst whole⟩, fares, fun apart => fares fun key comes wild => ?_⟩
  cases found : (src.prior className catalog log before).2.cache.get? key with
  | none => rfl
  | some id => exact absurd (apart key comes (alone.kept found).comes) wild

end Source

open Source

/-- An `A` needs a function that makes a `B`, a `B` needs an `A`, and both are asked for. -/
def sharedPair : Source where
  program :=
    { classes := [.injectable "A" [("next", .function [] { name := "B" })],
        .injectable "B" [("a", { name := "A" })], .abstractComponent [.ofNat 0, .ofNat 1]]
      members := [.accessor (.ofNat 2) "a" { name := "A" },
        .accessor (.ofNat 2) "b" { name := "B" }] }
  options := {}

/-- The accessor of the `B` declares a variable for it, unless there is an `A` already. -/
theorem sharedPair_alone_refuted :
    (sharedPair.collect (.ofNat 2) {}).1.own.accessors = [.ofNat 0] ++ .ofNat 1 :: [] ∧
      ¬SameOutcome (.ofNat 1)
        (sharedPair.planning "C" (sharedPair.collect (.ofNat 2) {}).1 {}).2.arena
        (sharedPair.turn "C" (sharedPair.collect (.ofNat 2) {}).1 {} [] (.ofNat 1)).2.arena
        (sharedPair.turn "C" (sharedPair.collect (.ofNat 2) {}).1 {} [.ofNat 0] (.ofNat 1)).1
        (sharedPair.turn "C" (sharedPair.collect (.ofNat 2) {}).1 {} [] (.ofNat 1)).1 :=
  ⟨by decide +kernel, fun same => absurd same.steps (by decide +kernel)⟩

/-- A `D` needs a `C` only; an `A` needs a `C` and goes around a cycle with a `B`. -/
def sharedLeaf : Source where
  program :=
    { classes := [.injectable "A" [("next", .function [] { name := "B" }), ("c", { name := "C" })],
        .injectable "B" [("a", { name := "A" })], .injectable "C" [],
        .injectable "D" [("c", { name := "C" })], .abstractComponent [.ofNat 0, .ofNat 1]]
      members := [.accessor (.ofNat 4) "d" { name := "D" },
        .accessor (.ofNat 4) "a" { name := "A" }] }
  options := {}

/-- All that is asked for in `sharedLeaf`, the keys of the accessor of the `D` first. -/
def sharedLeafKeys : List Key :=
  [.of { name := "D" }, .of { name := "C" }, .of { name := "A" },
    .of (.function [] { name := "B" }), .of { name := "B" }]

theorem sharedLeaf_covers :
    sharedLeaf.Covers (sharedLeaf.collect (.ofNat 4) {}).1 sharedLeafKeys := by
  decide +kernel

theorem sharedLeaf_accessors :
    (sharedLeaf.collect (.ofNat 4) {}).1.own.accessors = [.ofNat 0] ++ .ofNat 1 :: [] := by
  decide +kernel

theorem sharedLeaf_tidy :
    sharedLeaf.Tidy (sharedLeaf.collect (.ofNat 4) {}).1 ([.ofNat 0] ++ [.ofNat 1]) where
  distinct := by decide +kernel
  apart key recurs := sharedLeaf_covers.namesAvoidParams (by decide +kernel) key
    (recurs.constructed (sharedLeaf_accessors ▸ List.Subset.refl _))

/-- A `C` needs nothing, so nothing leads back to it. -/
theorem sharedLeaf_calm : sharedLeaf.Calm (sharedLeaf.collect (.ofNat 4) {}).1
    ([.ofNat 0] ++ [.ofNat 1]) (.of { name := "C" }) := by
  have closed : sharedLeaf.Closed (sharedLeaf.collect (.ofNat 4) {}).1 [.of { name := "C" }] := by
    decide +kernel
  have leaf : ∀ c ∈ sharedLeaf.calls (sharedLeaf.collect (.ofNat 4) {}).1 (.of { name := "C" }),
      ∀ d ∈ sharedLeafKeys.flatMap (sharedLeaf.calls (sharedLeaf.collect (.ofNat 4) {}).1),
        d.key = c.key →
          (∀ m ∈ [.ofNat 0] ++ [.ofNat 1], d.element ≠ .member m) ∧
            ∀ e ∈ sharedLeafKeys.flatMap (sharedLeaf.calls (sharedLeaf.collect (.ofNat 4) {}).1),
              e.element = d.element → sharedLeaf.asks e = [] := by
    decide +kernel
  intro later c chain mem recurs
  obtain rfl := List.mem_singleton.mp (closed.mem (List.mem_singleton_self _) chain)
  obtain ⟨m, accessor, d, needs, same, back⟩ := recurs.leadsBack
  have own : m ∈ (sharedLeaf.collect (.ofNat 4) {}).1.own.accessors :=
    sharedLeaf_accessors ▸ accessor
  obtain ⟨foreign, idle⟩ := leaf c mem d (sharedLeaf_covers.built (needs.built own)) same
  rcases back with accessed | ⟨e, needs', same', first, asks, -⟩
  · exact foreign m accessor accessed
  · rw [idle e (sharedLeaf_covers.built (needs'.built own)) same'] at asks
    cases asks

/-- The accessor of the `A` fares as if it were the only one. -/
theorem sharedLeaf_alone :
    (sharedLeaf.collect (.ofNat 4) {}).1.own.accessors = [.ofNat 0] ++ .ofNat 1 :: [] ∧
      SameOutcome (.ofNat 1)
        (sharedLeaf.planning "C" (sharedLeaf.collect (.ofNat 4) {}).1 {}).2.arena
        (sharedLeaf.turn "C" (sharedLeaf.collect (.ofNat 4) {}).1 {} [] (.ofNat 1)).2.arena
        (sharedLeaf.turn "C" (sharedLeaf.collect (.ofNat 4) {}).1 {} [.ofNat 0] (.ofNat 1)).1
        (sharedLeaf.turn "C" (sharedLeaf.collect (.ofNat 4) {}).1 {} [] (.ofNat 1)).1 := by
  refine ⟨sharedLeaf_accessors, (planning_eq_alone sharedLeaf "C" _ {} {} sharedLeaf_accessors
    sharedLeaf_tidy).2.2 ?_⟩
  have ofD : sharedLeaf.Closed (sharedLeaf.collect (.ofNat 4) {}).1 (sharedLeafKeys.take 2) ∧
      sharedLeaf.accessorKey (sharedLeaf.collect (.ofNat 4) {}).1 (.ofNat 0) ∈
        sharedLeafKeys.take 2 := by
    decide +kernel
  have ofA : sharedLeaf.Closed (sharedLeaf.collect (.ofNat 4) {}).1 (sharedLeafKeys.drop 1) ∧
      sharedLeaf.accessorKey (sharedLeaf.collect (.ofNat 4) {}).1 (.ofNat 1) ∈
        sharedLeafKeys.drop 1 := by
    decide +kernel
  have shared : ∀ key ∈ sharedLeafKeys.drop 1, key ∈ sharedLeafKeys.take 2 →
      key = .of { name := "C" } := by
    decide +kernel
  rintro key ⟨m, mem, chain⟩ ⟨m', mem', chain'⟩
  obtain rfl := List.mem_singleton.mp mem
  obtain rfl := List.mem_singleton.mp mem'
  rw [shared key (ofA.1.mem ofA.2 chain) (ofD.1.mem ofD.2 chain')]
  exact sharedLeaf_calm

end Injector
