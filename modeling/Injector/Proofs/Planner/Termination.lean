/-
# Injector.Proofs.Planner.Termination -- the end of planning

Requests call for further requests, and those for others.  `requestTo` cuts this off at a
depth, which is a way to write the recursion down and must not be a way to answer: a
request is made with a depth that it does not use up.

A further request needs less than the one that it follows from (`descends_need`), whatever
the lambda parameters around, the key that is being built for its scope, and the state.  So
two depths that are both enough make no difference (`requestTo_eq_request`); the requests
satisfy the equation that has no depth in it (`requestWith_request`), and nothing else does
(`eq_request`).  The number of elements that are not under construction, the height of the
type asked for, and whether its value is being built for its scope make up what is needed.

Whether one type may stand for another is read off the supertypes of the second, which
are a finite list where the hierarchy has no cycle.
-/
import Injector.Proofs.Planner.Endless
import Injector.Proofs.Program.Acyclic

namespace Injector

set_option autoImplicit false

open PlanM

/-- Nothing is cut off. -/
def PlanError.Proper (e : PlanError) : Prop := e ≠ .tooDeep

namespace Source

variable (src : Source) (catalog : Catalog)

/-- The depth is enough for the request. -/
def Enough (depth : Nat) (s : List BuildEntry) (u : Option Key) (key : Key) : Prop :=
  src.need s u key < depth

variable {src catalog} {depth more : Nat} {site : Site} {key : Key} {st : PlannerState}

/-- Further requests need less. -/
theorem descends_need (depth : Nat) :
    src.Descends catalog PlanError.Proper (src.Enough (depth + 1)) (src.Enough depth) where
  raises := by
    intro s u key e _ raised
    cases raised <;> exact nofun
  missing _ _ := nofun
  unwrap := by
    intro s u key within other _
    have less : src.need s (some key) key < src.need s u key := need_unwrap other
    exact Nat.lt_of_lt_of_le less (Nat.le_of_lt_succ within)
  asked := by
    intro s u key c within mem _ new asked asks
    have less := need_asked (u := u) mem asks new
    exact Nat.lt_of_lt_of_le less (Nat.le_of_lt_succ within)
  lambda := by
    intro s u key c within mem _ new asked asks
    have new' : BuildStack.above? c.element (.deferred :: s) = none := by
      rw [BuildStack.above?, if_neg (by simp), new, Option.map_none]
    have less := need_asked (u := u) mem asks new'
    rw [need_defer s u key] at less
    exact Nat.lt_of_lt_of_le less (Nat.le_of_lt_succ within)
  inner := by
    intro s u key inner within _ found
    have less : src.need (.deferred :: s) u inner < src.need s u key := need_inner found
    exact Nat.lt_of_lt_of_le less (Nat.le_of_lt_succ within)
  endless := by
    intro s u key c above _ _ _ _ _ same
    cases same
  unclosed _ _ _ _ := nofun

/-- A way to make requests which satisfies their equation does what `requestTo` does for
requests that need less than the depth. -/
theorem agree_solution {requests : Requests} (solves : requests = src.requestWith requests)
    (depth : Nat) :
    Agree catalog PlanError.Proper (src.Enough depth) (src.requestTo depth) requests := by
  induction depth with
  | zero => exact fun _ _ _ _ within => absurd within (Nat.not_lt_zero _)
  | succ depth ih =>
      rw [solves]
      exact agree_requestWith (descends_need depth) ih

/-- More depth makes no difference to requests that need less than the depth. -/
theorem agree_requestTo (enough : depth ≤ more) :
    Agree catalog PlanError.Proper (src.Enough depth) (src.requestTo depth)
      (src.requestTo more) := by
  induction depth generalizing more with
  | zero => exact fun _ _ _ _ within => absurd within (Nat.not_lt_zero _)
  | succ depth ih =>
      obtain ⟨more, rfl⟩ : ∃ n, more = n + 1 := ⟨more - 1, by omega⟩
      exact agree_requestWith (descends_need depth) (ih (by omega))

theorem ext_runFrom {α : Type} {act act' : PlanM α}
    (same : ∀ st, act.runFrom st = act'.runFrom st) : act = act' :=
  funext same

/-- A request does not get to the end of its depth. -/
theorem requestTo_eq_request (enough : src.requestDepth key ≤ depth) :
    src.requestTo depth site key = src.request site key :=
  ext_runFrom fun st =>
    (agree_requestTo enough site key st rfl (need_lt_requestDepth _ _ key)).same.symm

/-- Requests that need less than the depth are made with enough of it. -/
theorem agree_request (depth : Nat) :
    Agree catalog PlanError.Proper (src.Enough depth) (src.requestTo depth) src.request := by
  intro site key st own within
  have up := agree_requestTo (Nat.le_max_left depth (src.requestDepth key)) site key st own within
  rwa [requestTo_eq_request (Nat.le_max_right _ _)] at up

/-- The requests satisfy the equation of `requestTo` without its depth. -/
theorem requestWith_request : src.requestWith src.request = src.request := by
  funext site key
  refine ext_runFrom fun st => ?_
  have step := agree_requestWith (descends_need (src.need st.stack.entries site.unwrapping key))
    (agree_request _) site key st rfl (Nat.lt_succ_self _)
  have here := agree_request (src.need st.stack.entries site.unwrapping key + 1) site key st rfl
    (Nat.lt_succ_self _)
  exact step.same.symm.trans here.same

/-- A plan that is kept answers a request, where it may be used. -/
theorem runFrom_request_kept {id : PlanId} (bare : site.lambdaParams = [])
    (fresh : site.isUnwrapping key = false) (kept : st.cache.get? key = some id) :
    (src.request site key).runFrom st = (.ok (some ⟨key, id⟩), st) := by
  rw [← requestWith_request]
  simp only [requestWith, kept?, bare, fresh, List.isEmpty_nil, Bool.not_false, Bool.and_self,
    if_true, runFrom_bind, runFrom_get, runFrom_pure, kept]

/-- Otherwise the key is planned, and the plan is kept if it is closed and not just being built
for its scope. -/
theorem runFrom_request_new (new : site.lambdaParams = [] → site.isUnwrapping key = false →
    st.cache.get? key = none) :
    (src.request site key).runFrom st =
      (do
        match ← src.planFor src.request site key with
        | none => return none
        | some id =>
          unless site.isUnwrapping key do remember key id
          return some ⟨key, id⟩ : PlanM (Option Slot)).runFrom st := by
  have unkept : (kept? site key).runFrom st = (.ok none, st) := by
    rw [kept?]
    split
    · rename_i here
      rw [Bool.and_eq_true, List.isEmpty_iff, Bool.not_eq_true'] at here
      simp only [runFrom_bind, runFrom_get, runFrom_pure, new here.1 here.2]
    · rfl
  rewrite [← requestWith_request, requestWith, runFrom_bind, unkept, requestWith_request]
  rfl

/-- Nothing else satisfies the equation. -/
theorem eq_request {requests : Requests} (solves : requests = src.requestWith requests) :
    requests = src.request := by
  funext site key
  refine ext_runFrom fun st => ?_
  have within := Nat.lt_succ_self (src.need st.stack.entries site.unwrapping key)
  have mine := agree_solution solves _ site key st rfl within
  have theirs := agree_request _ site key st rfl within
  exact mine.same.symm.trans theirs.same

/-- A request never fails for want of depth. -/
theorem agree_always :
    Agree catalog PlanError.Proper (fun _ _ _ => True) src.request src.request := by
  intro site key st own _
  have here := agree_request (src.requestDepth key) site key st own (need_lt_requestDepth _ _ key)
  exact here.symm.trans here

theorem resolve_proper (site : Site) (key : Key) (st : PlannerState) :
    ((src.resolve site key).runFrom st).1 ≠ .error .tooDeep := fun failed =>
  (tallies_demand agree_always rfl (fun _ _ => nofun) trivial).meets.2 trivial _
    failed rfl

theorem implementAll_proper (site : Site) (st : PlannerState) (m : MemberId) :
    (m, .tooDeep) ∉ ((src.implementAll site).run st).1.failures := by
  intro mem
  obtain ⟨-, before, failed⟩ := failed_of_mem mem
  exact fail_of_implement agree_always (fun _ _ => nofun) trivial failed rfl

/-- Resolution ends, in a program whose hierarchy has no cycle. -/
theorem resolution_ends (acyclic : src.program.Acyclic) :
    (∀ ty : Ty, ∀ depth ≥ src.program.classes.length,
        src.program.supertypesFrom depth ty.dealias [] = some (src.program.supertypes ty)) ∧
      (∀ requests : Requests, requests = src.requestWith requests ↔ requests = src.request) ∧
      (∀ (site : Site) (key : Key), ∀ depth ≥ src.requestDepth key,
        src.requestTo depth site key = src.request site key) ∧
      (∀ (site : Site) (key : Key) (st : PlannerState),
        ((src.resolve site key).runFrom st).1 ≠ .error .tooDeep) ∧
      ∀ (site : Site) (st : PlannerState) (m : MemberId),
        (m, .tooDeep) ∉ ((src.implementAll site).run st).1.failures := by
  refine ⟨fun ty depth enough => Program.supertypesFrom_eq_supertypes acyclic enough ty, ?_,
    fun site key depth enough => requestTo_eq_request enough, resolve_proper,
    implementAll_proper⟩
  exact fun requests => ⟨eq_request, fun same => same ▸ requestWith_request.symm⟩

end Source

/-- A list needs a list of lists of its elements, later on, so the types that are asked for
grow without end; and a `Foo` can be passed where an `A` is asked for. -/
def growingList : Source where
  program :=
    { classes := [{ name := "A", kind := .interface },
        { ClassDecl.injectable "Foo" [] with supers := [{ name := "A" }] },
        { ClassDecl.injectable "List"
            [("deeper",
              .lazyOf { name := "List", args := [{ name := "List", args := [.typeVar "T"] }] })]
          with typeVars := [{ name := "T" }] },
        .abstractComponent [.ofNat 0, .ofNat 1]]
      members := [.accessor (.ofNat 3) "list" { name := "List", args := [{ name := "Foo" }] },
        .accessor (.ofNat 3) "upcast" (.function [{ name := "Foo" }] { name := "A" })] }
  options := {}

/-- Where the accessors of `growingList` are planned. -/
def growingSite : Site where
  className := "C"
  catalog := (growingList.collect (.ofNat 3) {}).1

theorem growingList_ends :
    growingList.program.Acyclic ∧
      growingList.program.supertypesFrom 4 { name := "Foo" } [] = some [{ name := "A" }] ∧
      growingList.requestWith growingList.request = growingList.request ∧
      ∀ st : PlannerState,
        (.ofNat 0, .tooDeep) ∉ ((growingList.implementAll growingSite).run st).1.failures := by
  have acyclic : growingList.program.Acyclic :=
    Program.acyclic_of_declared (fun c => c.toNat.succ) (by decide) (by decide)
  obtain ⟨above, once, -, -, implemented⟩ := Source.resolution_ends acyclic
  refine ⟨acyclic, ?_, ((once growingList.request).mpr rfl).symm, fun st => implemented _ st _⟩
  exact (above { name := "Foo" } 4 (by decide)).trans (by decide +kernel)

end Injector
