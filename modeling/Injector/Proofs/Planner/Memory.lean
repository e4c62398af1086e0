/-
# Injector.Proofs.Planner.Memory -- what the planner remembers between calls

The planner is called from outside to resolve a key or to implement the accessors of a
component; what is kept serves the calls after that one.  While a key is resolved it can be
asked for again within: below a lambda or a lazy value, in a set or a map, or for a scope.
None of these requests puts it into the cache (`waits_planFor`).  If a call is made for the
key, this is so because what is built within refers to the call.  Otherwise the key is one
for a lambda or a lazy value, and the same is said of what is inside, by induction on the
height of its type.

So a failure is not remembered, and a closed plan is, under the number that the first
success returned (`resolve_remembers`).
-/
import Injector.Proofs.Planner.Minding
import Injector.Proofs.Planner.Termination

namespace Injector

set_option autoImplicit false

open PlanM
open LambdaParam (names types)
open Relation (ReflTransGen)

/-- No lambda parameter is around, and nothing is being built for its scope. -/
structure Site.Outermost (site : Site) : Prop where
  bare : site.lambdaParams = []
  settled : site.unwrapping = none

theorem Site.isUnwrapping_of_settled {site : Site} (settled : site.unwrapping = none) (key : Key) :
    site.isUnwrapping key = false := by
  rw [isUnwrapping, settled]
  rfl

theorem Site.planned_of_settled {site : Site} (settled : site.unwrapping = none) (key : Key) :
    site.planned key = none := by
  simp [planned, isUnwrapping_of_settled settled]

namespace Source

variable (src : Source) (catalog : Catalog)

/-- The one key is the other, or one inside of it through any number of lambdas and lazy values. -/
def Encloses : Key → Key → Prop :=
  ReflTransGen fun outer inner => src.innerKey? outer = some inner

/-- No parameter of a lambda can have the name of a variable for what is called for the key, or
for what is inside of it. -/
def SparesParams (key : Key) : Prop :=
  ∀ inner, src.Encloses key inner →
    ∀ c ∈ src.calls catalog inner, ¬IsParamName c.key.ty.suggestedName

/-- Calls of the planner from outside, one after the other. -/
inductive Session : PlannerState → PlannerState → Prop where
  | start (st : PlannerState) : Session st st
  | resolve {st mid : PlannerState} {site : Site} (key : Key) : Session st mid →
      site.Outermost → Session st ((src.resolve site key).runFrom mid).2
  | implement {st mid : PlannerState} {site : Site} : Session st mid → site.Outermost →
      Session st ((src.implementAll site).run mid).2

variable {src catalog}

/-! ## While a key is awaited -/

theorem findParam_eq_none_iff {site : Site} {key : Key} :
    site.findParam src.program key = none ↔ src.Exposed ⟨types site.lambdaParams, key⟩ := by
  simp only [Site.findParam, Exposed, types]
  by_cases qualified : key.qualifier.isSome = true
  · simp [qualified]
  · simp [qualified]

section Waiting

variable (src catalog) in
/-- What is under construction is minded, and the awaited key is not put into the cache. -/
def waiting (awaited : Key) : Discipline where
  inv := PlannerState.Suggested
  le st next := src.Minds catalog none st next ∧
    (st.cache.get? awaited = none → next.cache.get? awaited = none)
  refl st := ⟨.refl none st, id⟩
  trans := fun ⟨first, absent⟩ ⟨second, absent'⟩ =>
    ⟨first.trans second, fun start => absent' (absent start)⟩

variable (src catalog) in
/-- The request is made for the awaited key, inside lambdas and lazy values only. -/
structure Awaits (awaited : Key) (st : PlannerState) (site : Site) (key : Key) : Prop where
  proper : site.Proper catalog st
  settled : site.unwrapping = none
  encloses : src.Encloses awaited key
  leads : ∀ t, src.Leads catalog st.cache ⟨types site.lambdaParams, key⟩ t →
    src.Leads catalog st.cache ⟨[], awaited⟩ t

variable (src catalog) in
/-- Requests for what is inside of the key do not put the awaited key into the cache. -/
def WaitsInside (requests : Requests) (awaited key : Key) : Prop :=
  ∀ inner, src.innerKey? key = some inner → ∀ site st, src.Awaits catalog awaited st site inner →
    Keeps (src.waiting catalog awaited) st (requests site inner) fun _ _ => True

variable {awaited key : Key} {site : Site} {st : PlannerState} {α : Type} {act : PlanM α}
  {post : α → PlannerState → Prop} {requests : Requests}

theorem waits_of_cache {a : α} {next : PlannerState} (run : act.runFrom st = (.ok a, next))
    (stack : next.stack = st.stack) (within : st.arena.Within next.arena)
    (taken : st.names.taken ⊆ next.names.taken) (cache : next.cache = st.cache) :
    Keeps (src.waiting catalog awaited) st act fun _ _ => True := by
  refine .of_ok run fun inv => ⟨?_, ⟨.of_cache ?_ within taken cache, ?_⟩, trivial⟩
  · intro p mem
    exact inv p (stack ▸ mem)
  · rw [stack]
  · rw [cache]
    exact id

/-- What is known of a step otherwise holds while a key is awaited. -/
theorem waits_and {planned : Option Key}
    (waits : Keeps (src.waiting catalog awaited) st act fun _ _ => True)
    (minds : Keeps (src.minding catalog planned) st act post) :
    Keeps (src.waiting catalog awaited) st act post :=
  fun inv => ⟨(waits inv).1, (waits inv).2.1, (minds inv).2.2⟩

theorem waits_alloc (p : Plan) :
    Keeps (src.waiting catalog awaited) st (alloc p) fun _ _ => True :=
  waits_of_cache (runFrom_alloc p st) rfl (.alloc st.arena p) (List.Subset.refl _) rfl

theorem waits_remember {id : PlanId} (left : src.LeftOpen catalog st site key st.arena id)
    (other : key ≠ awaited) :
    Keeps (src.waiting catalog awaited) st (remember key id) fun _ _ => True := by
  intro inv
  obtain ⟨inv', minds, -⟩ := minds_remember left inv
  refine ⟨inv', ⟨minds, fun absent => ?_⟩, fun _ _ => trivial⟩
  rw [runFrom_remember]
  dsimp only
  split
  · rw [Table.get?_insertNew, absent, if_neg other]
    rfl
  · exact absent

theorem waits_demand
    (asked : Keeps (src.waiting catalog awaited) st (requests site key) fun _ _ => True) :
    Keeps (src.waiting catalog awaited) st (demand requests site key) fun _ _ => True := by
  simp only [demand]
  refine asked.bind fun answer next _ _ _ => ?_
  cases answer with
  | none => exact .failTraced _
  | some slot => exact .pure trivial

theorem waits_deferred
    (inside : Keeps (src.waiting catalog awaited) (st.push .deferred) act fun _ _ => True) :
    Keeps (src.waiting catalog awaited) st (deferred act) fun _ _ => True := by
  intro inv
  obtain ⟨inv', ⟨minds, absent⟩, -⟩ := inside inv
  rw [runFrom_deferred]
  refine ⟨inv', ⟨minds.popTo ?_, absent⟩, fun _ _ => trivial⟩
  exact fun t watched => watched.of_entries (List.subset_cons_self _ _)

theorem waits_nameParams {n : Nat} {tys : List Ty} :
    Keeps (src.waiting catalog awaited) st (nameParams n tys) fun lambda next =>
      LambdaParam.Fresh st.names next.names tys lambda ∧ next.cache = st.cache := by
  obtain ⟨lambda, supply, run, fresh⟩ := exists_runFrom_nameParams n tys st
  exact .of_ok run fun inv => ⟨inv, ⟨.of_cache rfl (.refl _) fresh.grows rfl, id⟩, fresh, rfl⟩

theorem Awaits.of_cache {next : PlannerState} (awaits : src.Awaits catalog awaited st site key)
    (minds : src.Minds catalog none st next) (cache : next.cache = st.cache) :
    src.Awaits catalog awaited next site key where
  proper := awaits.proper.mono minds
  settled := awaits.settled
  encloses := awaits.encloses
  leads := by
    rw [cache]
    exact awaits.leads

/-- Of what is inside of an awaited key the same is to be said. -/
theorem Awaits.inside {inner : Key} {lambda : List LambdaParam} {next : PlannerState}
    (awaits : src.Awaits catalog awaited st site key)
    (free : Spot.Free st.cache ⟨types site.lambdaParams, key⟩)
    (exposed : src.Exposed ⟨types site.lambdaParams, key⟩)
    (unbound : src.Unbound catalog key) (found : src.innerKey? key = some inner)
    (same : types lambda = lambdaTypes key) (proper : (site.inside lambda).Proper catalog next)
    (cache : next.cache = st.cache) :
    src.Awaits catalog awaited next (site.inside lambda) inner where
  proper := proper
  settled := awaits.settled
  encloses := awaits.encloses.tail found
  leads t leads := by
    have wraps : src.Wraps catalog ⟨types site.lambdaParams, key⟩
        ⟨types (site.inside lambda).lambdaParams, inner⟩ := by
      refine ⟨exposed, unbound, found, ?_⟩
      rw [Site.inside, types, List.map_append, ← types, ← types, same]
    rw [cache] at leads ⊢
    exact awaits.leads t (.inside free wraps leads)

/-- Planning a key that calls are made for, which is the awaited one or inside of it. -/
theorem waits_planFor_of_calls (minds : src.MindsAll catalog requests)
    (spares : src.SparesParams catalog awaited) (awaits : src.Awaits catalog awaited st site key)
    (free : Spot.Free st.cache ⟨types site.lambdaParams, key⟩)
    (exposed : src.Exposed ⟨types site.lambdaParams, key⟩) (built : src.calls catalog key ≠ []) :
    Keeps (src.waiting catalog awaited) st (src.planFor requests site key) fun _ _ => True := by
  intro inv
  obtain ⟨inv', kept, -⟩ := minds_planFor minds awaits.proper inv
  refine ⟨inv', ⟨kept.mono fun _ watched => watched.of_none, fun _ => ?_⟩, fun _ _ => trivial⟩
  have watched : src.Watched catalog (some key) st ⟨types site.lambdaParams, key⟩ :=
    ⟨exposed, spares key awaits.encloses, .inl ⟨rfl, built⟩⟩
  have leads := kept.leads ⟨[], awaited⟩ _ watched (awaits.leads _ (.here free))
  exact leads.free rfl

/-- Where nothing is called for a key that is bound, no further request is made. -/
theorem waits_planBinding {b : Binding} (chosen : (src.choose catalog key).1 = .binding b)
    (nothing : src.calls catalog key = []) :
    Keeps (src.waiting catalog awaited) st (src.planBinding requests site key b)
      fun _ _ => True := by
  rw [calls_of_binding chosen] at nothing
  cases b with
  | ctor => cases nothing
  | member => cases nothing
  | container kind contributors =>
      obtain rfl : contributors = [] := by simpa [bindingCalls] using nothing
      exact waits_alloc _
  | object cls => exact waits_alloc _

theorem waits_planFunction (awaits : src.Awaits catalog awaited st site key)
    (below : src.WaitsInside catalog requests awaited key)
    (free : Spot.Free st.cache ⟨types site.lambdaParams, key⟩)
    (exposed : src.Exposed ⟨types site.lambdaParams, key⟩)
    (unbound : src.Unbound catalog key) (nothing : src.calls catalog key = [])
    (function : key.ty.isFunction = true) :
    Keeps (src.waiting catalog awaited) st (src.planFunction requests site key)
      fun _ _ => True := by
  rw [calls_of_unbound unbound, unboundCalls, if_pos function] at nothing
  simp only [planFunction]
  split
  · exact .failTraced _
  · rename_i result last
    split
    · rename_i f aliased
      rw [aliased] at nothing
      cases nothing
    · rename_i plain
      have found : src.innerKey? key = some (.of result key.qualifier) := by
        simp only [innerKey?, function, plain, last, if_true, Option.map_some]
      refine .bind (waits_deferred ?_) fun answer mid _ _ _ =>
        (waits_alloc _).mono fun _ _ _ _ _ => trivial
      have start := awaits.proper.push .deferred
      refine waits_nameParams.bind fun lambda mid _ _ said => ?_
      obtain ⟨fresh, cache⟩ := said
      have same : types lambda = lambdaTypes key := by
        rw [fresh.types_eq, lambdaTypes, if_pos function]
      have inner := awaits.inside free exposed unbound found same (start.inside fresh) cache
      exact (waits_demand (below _ found _ _ inner)).bind fun _ _ _ _ _ => .pure trivial

theorem waits_planLazy (awaits : src.Awaits catalog awaited st site key)
    (below : src.WaitsInside catalog requests awaited key)
    (free : Spot.Free st.cache ⟨types site.lambdaParams, key⟩)
    (exposed : src.Exposed ⟨types site.lambdaParams, key⟩)
    (unbound : src.Unbound catalog key) (plain : key.ty.isFunction = false)
    (strict : key.ty.isLazy = true) :
    Keeps (src.waiting catalog awaited) st (planLazy requests site key) fun _ _ => True := by
  simp only [planLazy]
  split
  · exact .failTraced _
  · rename_i ty first
    have found : src.innerKey? key = some (.of ty key.qualifier) := by
      simp [innerKey?, plain, strict, first]
    have same : types [] = lambdaTypes key := by simp [types, lambdaTypes, plain]
    have bare : site.inside [] = site := by simp [Site.inside]
    have inner : src.Awaits catalog awaited (st.push .deferred) site (.of ty key.qualifier) := by
      have proper := awaits.proper.push .deferred
      rw [← bare] at proper ⊢
      exact awaits.inside free exposed unbound found same proper rfl
    exact (waits_deferred (waits_demand (below _ found _ _ inner))).bind fun slot mid _ _ _ =>
      waits_alloc _

/-- Where nothing is called for a key that is neither for a lambda nor for a lazy value, no
further request is made. -/
theorem waits_planGeneric (own : site.catalog = catalog) (unbound : src.Unbound catalog key)
    (nothing : src.calls catalog key = []) (plain : key.ty.isFunction = false)
    (strict : key.ty.isLazy = false) :
    Keeps (src.waiting catalog awaited) st (src.planGeneric requests site key)
      fun _ _ => True := by
  rw [calls_of_unbound unbound, unboundCalls] at nothing
  simp only [plain, strict] at nothing
  simp only [planGeneric, own]
  split
  · exact .pure trivial
  · rename_i b s fits
    rw [fits] at nothing
    cases nothing
  · exact .failTraced _

/-- Planning an awaited key does not put it into the cache, nor does it for what is inside. -/
theorem waits_planFor (minds : src.MindsAll catalog requests)
    (spares : src.SparesParams catalog awaited) (awaits : src.Awaits catalog awaited st site key)
    (below : src.WaitsInside catalog requests awaited key)
    (free : Spot.Free st.cache ⟨types site.lambdaParams, key⟩) :
    Keeps (src.waiting catalog awaited) st (src.planFor requests site key) fun _ _ => True := by
  have own := awaits.proper.own
  cases stands : site.findParam src.program key with
  | some param =>
      simp only [planFor, stands]
      split
      · exact .throw _
      · exact (waits_alloc _).bind fun _ _ _ _ _ => .pure trivial
  | none =>
      have exposed := findParam_eq_none_iff.mp stands
      by_cases nothing : src.calls catalog key = []
      · simp only [planFor, stands]
        split
        · exact .throw _
        · have reported (findings : List Finding) :
              Keeps (src.waiting catalog awaited) st (report findings) fun _ _ => True :=
            waits_of_cache (runFrom_report findings st) rfl (.refl _) (List.Subset.refl _) rfl
          refine (Keeps.bindingFor reported).bind fun answer mid _ le said => ?_
          obtain ⟨chosen, cache⟩ := said
          rw [own] at chosen
          cases answer with
          | some b =>
              exact (waits_planBinding chosen nothing).bind fun _ _ _ _ _ => .pure trivial
          | none =>
              have awaits' := awaits.of_cache le.1 cache
              rw [← cache] at free
              dsimp only
              split
              · rename_i function
                exact (waits_planFunction awaits' below free exposed chosen nothing function).bind
                  fun _ _ _ _ _ => .pure trivial
              · rename_i plain
                rw [Bool.not_eq_true] at plain
                split
                · rename_i strict
                  exact (waits_planLazy awaits' below free exposed chosen plain strict).bind
                    fun _ _ _ _ _ => .pure trivial
                · rename_i strict
                  rw [Bool.not_eq_true] at strict
                  exact waits_planGeneric own chosen nothing plain strict
      · exact waits_planFor_of_calls minds spares awaits free exposed nothing

/-- A request for what is inside of the awaited key does not put this into the cache. -/
theorem waits_request (spares : src.SparesParams catalog awaited) {height : Nat}
    (low : key.ty.height ≤ height) (smaller : height < awaited.ty.height)
    (awaits : src.Awaits catalog awaited st site key) :
    Keeps (src.waiting catalog awaited) st (src.request site key) fun _ _ => True := by
  induction height generalizing key site st with
  | zero => exact absurd (Ty.height_pos key.ty) (by omega)
  | succ height ih =>
      have below : src.WaitsInside catalog src.request awaited key := by
        intro inner found site st awaits
        have lower := height_innerKey? found
        exact ih (by omega) (by omega) awaits
      have fresh := site.isUnwrapping_of_settled awaits.settled key
      rw [← requestWith_request]
      simp only [requestWith]
      refine Keeps.kept?.bind fun answer mid _ _ said => ?_
      obtain ⟨rfl, kept⟩ := said
      cases answer with
      | some id => exact .pure trivial
      | none =>
          have free : Spot.Free mid.cache ⟨types site.lambdaParams, key⟩ := by
            intro outside
            exact kept (List.map_eq_nil_iff.mp outside) fresh
          have planned := waits_and (waits_planFor minds_resolve spares awaits below free)
            (minds_planFor minds_resolve awaits.proper)
          refine planned.bind fun answer next _ le said => ?_
          cases answer with
          | none => exact .pure trivial
          | some id =>
              have other : key ≠ awaited := by
                rintro rfl
                omega
              simp only [fresh]
              exact (waits_remember ((leftOpen_iff le.1).mpr (said id rfl)) other).bind
                fun _ _ _ _ _ => .pure trivial

/-- Planning a key itself, with nothing around, does not put it into the cache. -/
theorem waits_root (spares : src.SparesParams site.catalog key) (outermost : site.Outermost)
    (new : st.cache.get? key = none) :
    Keeps (src.waiting site.catalog key) st (src.planFor src.request site key)
      fun _ _ => True := by
  have bare : types site.lambdaParams = [] := by
    rw [outermost.bare]
    rfl
  have awaits : src.Awaits site.catalog key st site key := by
    refine ⟨.of_bare outermost.bare st, outermost.settled, .refl, fun t leads => ?_⟩
    rwa [bare] at leads
  refine waits_planFor minds_resolve spares awaits ?_ fun _ => new
  intro inner found site st awaits
  have lower := height_innerKey? found
  exact waits_request spares (Nat.le_refl _) lower awaits

end Waiting

/-! ## Calls from outside -/

section Calls

variable {site : Site} {key : Key} {st next last : PlannerState} {id : PlanId}

/-- A plan that is kept answers the call. -/
theorem runFrom_resolve_kept (outermost : site.Outermost) (kept : st.cache.get? key = some id) :
    (src.resolve site key).runFrom st = (.ok ⟨key, id⟩, st) := by
  have fresh := site.isUnwrapping_of_settled outermost.settled key
  simp only [resolve, demand, runFrom_bind, runFrom_request_kept outermost.bare fresh kept,
    runFrom_pure]

/-- A key for which no plan is kept is planned, and the plan is kept if it is closed. -/
theorem runFrom_resolve_new (outermost : site.Outermost) (new : st.cache.get? key = none) :
    (src.resolve site key).runFrom st =
      match (src.planFor src.request site key).runFrom st with
      | (.error e, next) => (.error e, next)
      | (.ok none, next) => (.error (.notFound key next.stack.elements), next)
      | (.ok (some id), next) =>
        (.ok ⟨key, id⟩,
          if next.arena.isClosed id then { next with cache := next.cache.insertNew key id }
          else next) := by
  have fresh := site.isUnwrapping_of_settled outermost.settled key
  rw [resolve, demand, runFrom_bind, runFrom_request_new fun _ _ => new, runFrom_bind]
  generalize (src.planFor src.request site key).runFrom st = outcome
  obtain ⟨answer, next⟩ := outcome
  cases answer with
  | error e => rfl
  | ok answer =>
      cases answer with
      | none => rfl
      | some id =>
          simp only [fresh]
          rfl

/-- A key that was not kept is kept after a call if that finds a closed plan, and is not if it
fails. -/
theorem kept_of_resolve (suggested : st.Suggested) (outermost : site.Outermost)
    (new : st.cache.get? key = none) (spares : src.SparesParams site.catalog key) :
    (∀ e, ((src.resolve site key).runFrom st).1 = .error e →
        ((src.resolve site key).runFrom st).2.cache.get? key = none) ∧
      ∀ slot, ((src.resolve site key).runFrom st).1 = .ok slot →
        ((src.resolve site key).runFrom st).2.arena.isClosed slot.id = true →
          slot.key = key ∧
            ((src.resolve site key).runFrom st).2.cache.get? key = some slot.id := by
  have absent := (waits_root spares outermost new suggested).2.1.2 new
  rw [runFrom_resolve_new outermost new]
  generalize (src.planFor src.request site key).runFrom st = outcome at absent
  obtain ⟨answer, next⟩ := outcome
  cases answer with
  | error e => exact ⟨fun _ _ => absent, by simp⟩
  | ok answer =>
      cases answer with
      | none => exact ⟨fun _ _ => absent, by simp⟩
      | some id =>
          refine ⟨by simp, ?_⟩
          rintro _ ⟨⟩ closed
          dsimp only at closed ⊢
          split at closed
          · rename_i closed
            rw [if_pos closed, Table.get?_insertNew, absent, if_pos rfl]
            exact ⟨rfl, rfl⟩
          · rename_i open_
            exact absurd closed open_

variable (src) in
/-- Implementing an accessor leaves kept what is kept. -/
theorem kept_of_implement (st : PlannerState) (m : MemberId) (outermost : site.Outermost) :
    ((src.implement site m).runFrom st).2.Suggested ∧
      st.arena.Within ((src.implement site m).runFrom st).2.arena ∧
      ∀ key id, st.cache.get? key = some id →
        ((src.implement site m).runFrom st).2.cache.get? key = some id := by
  let key := src.accessorKey site.catalog m
  have built (start : PlannerState) : Keeps (src.minding site.catalog none) start
      (constructing key (.member m) do return (← src.resolve site key).id) fun _ _ => True := by
    refine (minds_constructing ?_ ?_).mono fun _ _ _ _ _ => trivial
    · exact fun _ watched => watched.of_entries (List.subset_cons_self _ _)
    · have asked := minds_demand (minds_resolve : src.MindsAll site.catalog src.request) key
        (.of_bare outermost.bare (start.push (.building (.member m))))
      rw [site.planned_of_settled outermost.settled] at asked
      exact asked.bind fun slot next _ _ _ => .pure trivial
  have start : (src.minding site.catalog none).inv st.afresh := List.forall_mem_nil _
  obtain ⟨suggested, minds, -⟩ := Discipline.implement minds_report (fun next _ => built next) start
  exact ⟨suggested, minds.within, minds.kept⟩

theorem kept_of_implementAll (outermost : site.Outermost) (suggested : st.Suggested) :
    ((src.implementAll site).run st).2.Suggested ∧ ∀ key id, st.cache.get? key = some id →
      ((src.implementAll site).run st).2.cache.get? key = some id := by
  let holds (mid : PlannerState) : Prop :=
    mid.Suggested ∧ ∀ key id, st.cache.get? key = some id → mid.cache.get? key = some id
  have step (m : MemberId) (mid : PlannerState) (before : holds mid) :
      holds ((src.implement site m).runFrom mid).2 ∧
        mid.arena.Within ((src.implement site m).runFrom mid).2.arena ∧
        ∀ e, ((src.implement site m).runFrom mid).1 = .ok e → True := by
    obtain ⟨suggested, within, stays⟩ := kept_of_implement src mid m outermost
    refine ⟨⟨suggested, fun key id found => ?_⟩, within, fun _ _ => trivial⟩
    exact stays key id (before.2 key id found)
  have begun : holds st := ⟨suggested, fun _ _ found => found⟩
  exact (Regime.implementEach_induction holds (fun _ _ => True) (fun _ _ _ _ _ _ => trivial)
    (fun m _ => step m) begun).1

/-- Calls leave kept what is kept. -/
theorem Session.kept (session : src.Session st next) (suggested : st.Suggested) :
    next.Suggested ∧ ∀ key id, st.cache.get? key = some id → next.cache.get? key = some id := by
  induction session with
  | start => exact ⟨suggested, fun _ _ found => found⟩
  | @resolve mid site key _ outermost ih =>
      obtain ⟨suggested', kept⟩ := ih
      have proper := Site.Proper.of_bare outermost.bare mid
      have answers : src.MindsAll site.catalog src.request := minds_resolve
      obtain ⟨last, minds, -⟩ := minds_demand answers key proper suggested'
      exact ⟨last, fun key id found => minds.kept key id (kept key id found)⟩
  | implement _ outermost ih =>
      obtain ⟨suggested', kept⟩ := ih
      obtain ⟨last, stays⟩ := kept_of_implementAll outermost suggested'
      exact ⟨last, fun key id found => stays key id (kept key id found)⟩

end Calls

/-- After any calls of the planner, resolving a key that is not kept does not keep it if it fails;
and if a closed plan is found, every later call resolves the key to that plan. -/
theorem resolve_remembers (src : Source) {log : Log} {st : PlannerState} {site : Site} {key : Key}
    (session : src.Session { log } st) (outermost : site.Outermost)
    (new : st.cache.get? key = none) (spares : src.SparesParams site.catalog key) :
    (∀ e, ((src.resolve site key).runFrom st).1 = .error e →
        ((src.resolve site key).runFrom st).2.cache.get? key = none) ∧
      ∀ slot, ((src.resolve site key).runFrom st).1 = .ok slot →
        ((src.resolve site key).runFrom st).2.arena.isClosed slot.id = true →
          ∀ last, src.Session ((src.resolve site key).runFrom st).2 last →
            ∀ site' : Site, site'.Outermost →
              (src.resolve site' key).runFrom last = (.ok slot, last) := by
  obtain ⟨suggested, -⟩ := session.kept (List.forall_mem_nil _)
  obtain ⟨failing, closing⟩ := kept_of_resolve suggested outermost new spares
  refine ⟨failing, fun slot found closed last later site' outermost' => ?_⟩
  obtain ⟨rfl, kept⟩ := closing slot found closed
  obtain ⟨suggested', -⟩ := (session.resolve slot.key outermost).kept (List.forall_mem_nil _)
  obtain ⟨-, stays⟩ := later.kept suggested'
  exact runFrom_resolve_kept outermost' (stays _ _ kept)

/-- What is inside of the keys is among them, and what is called for them is not named like a
parameter. -/
theorem SparesParams.of_list {catalog : Catalog} {key : Key} (keys : List Key) (start : key ∈ keys)
    (closed : ∀ k ∈ keys, ∀ inner ∈ (src.innerKey? k).toList, inner ∈ keys)
    (apart : ∀ c ∈ keys.flatMap (src.calls catalog),
      ¬paramStem.toList <+: c.key.ty.suggestedName.toList) : src.SparesParams catalog key := by
  intro inner chain
  have among : inner ∈ keys := by
    induction chain with
    | refl => exact start
    | tail _ found ih => exact closed _ ih _ (Option.mem_toList.mpr found)
  intro c mem param
  exact apart c (List.mem_flatMap.mpr ⟨inner, among, mem⟩) (stem_of_isParamName param)

end Source

/-- A `Foo` needs a function that returns one.  So does a `Bar`, which also needs what nothing
binds. -/
def selfSupplying : Source where
  program :=
    { classes := [.injectable "Foo" [("again", .function [] { name := "Foo" })],
        .injectable "Bar" [("again", .function [] { name := "Bar" }), ("gone", { name := "Gone" })],
        .abstractComponent [.ofNat 0]]
      members := [.accessor (.ofNat 2) "foo" { name := "Foo" }] }
  options := {}

/-- Where the planner of `selfSupplying` is called. -/
def selfSupplyingSite : Site where
  className := "C"
  catalog := (selfSupplying.collect (.ofNat 2) {}).1

/-- A function that returns a `Foo` is found again after the accessor is implemented; one that
returns a `Bar` cannot be built, and it is not kept though it is asked for within. -/
theorem selfSupplying_remembers :
    let foo : Key := .of (.function [] { name := "Foo" })
    let bar : Key := .of (.function [] { name := "Bar" })
    let next := ((selfSupplying.resolve selfSupplyingSite foo).runFrom {}).2
    let last := ((selfSupplying.implementAll selfSupplyingSite).run next).2
    (∃ slot, ((selfSupplying.resolve selfSupplyingSite foo).runFrom {}).1 = .ok slot ∧
        next.arena.isClosed slot.id = true ∧
        (selfSupplying.resolve selfSupplyingSite foo).runFrom last = (.ok slot, last)) ∧
      ∃ e, ((selfSupplying.resolve selfSupplyingSite bar).runFrom {}).1 = .error e ∧
        ((selfSupplying.resolve selfSupplyingSite bar).runFrom {}).2.cache.get? bar = none := by
  intro foo bar next last
  have outermost : selfSupplyingSite.Outermost := ⟨rfl, rfl⟩
  have session : selfSupplying.Session { log := {} } {} := .start {}
  have later : selfSupplying.Session next last := .implement (.start next) outermost
  have sparesFoo : selfSupplying.SparesParams selfSupplyingSite.catalog foo := by
    refine .of_list [foo, .of { name := "Foo" }] (by decide) ?_ ?_ <;> decide +kernel
  have sparesBar : selfSupplying.SparesParams selfSupplyingSite.catalog bar := by
    refine .of_list [bar, .of { name := "Bar" }] (by decide) ?_ ?_ <;> decide +kernel
  have found : ∃ slot ∈ ((selfSupplying.resolve selfSupplyingSite foo).runFrom {}).1.toOption,
      next.arena.isClosed slot.id = true := by decide +kernel
  have failed : ((selfSupplying.resolve selfSupplyingSite bar).runFrom {}).1.toOption = none := by
    decide +kernel
  have rememberFoo := Source.resolve_remembers selfSupplying session outermost rfl sparesFoo
  have rememberBar := Source.resolve_remembers selfSupplying session outermost rfl sparesBar
  constructor
  · cases answer : ((selfSupplying.resolve selfSupplyingSite foo).runFrom {}).1 with
    | error e =>
        rw [answer] at found
        obtain ⟨_, none, -⟩ := found
        cases none
    | ok slot =>
        rw [answer] at found
        obtain ⟨_, same, closed⟩ := found
        cases same
        exact ⟨slot, rfl, closed,
          rememberFoo.2 slot answer closed last later selfSupplyingSite outermost⟩
  · cases answer : ((selfSupplying.resolve selfSupplyingSite bar).runFrom {}).1 with
    | error e => exact ⟨e, rfl, rememberBar.1 e answer⟩
    | ok slot =>
        rw [answer] at failed
        cases failed

end Injector
