/-
# Injector.Proofs.Planner.Typing -- planning makes typed plans

Every answer of the planner is typed for the key that was asked for, inside the lambda
parameters around the request.  Kept plans are typed too, though inside parameters that need
not be around where they are used again; they are used where none are.

The names of parameters around a request are taken, so those of a new lambda differ from them.
There is one lemma for each function of the planner, in the order of their definitions;
`types_requestTo` closes the circle by induction on the depth, and `planned_typed` says it of
the accessors.
-/
import Injector.Proofs.Planner.Parameters
import Injector.Proofs.Planner.Typings
import Injector.Proofs.Planner.Planning

namespace Injector

set_option autoImplicit false

open PlanM
open BuildStack (above?)
open LambdaParam (names types standIn?)

/-- The site is one of the catalog, and the names of the lambda parameters around are taken and
tell them apart. -/
structure Site.Named (catalog : Catalog) (st : PlannerState) (site : Site) : Prop where
  own : site.catalog = catalog
  apart : (names site.lambdaParams).Nodup
  taken : names site.lambdaParams ⊆ st.names.taken

namespace Source

variable (src : Source) (catalog : Catalog)

/-- Each kept plan is typed for its key. -/
def CacheTyped (st : PlannerState) : Prop :=
  ∀ key id, st.cache.get? key = some id →
    ∃ around, (names around).Nodup ∧ src.Typed catalog st.arena around .asked key id

/-- Kept plans are typed; plans stay, and names stay taken. -/
def typing : Discipline where
  inv := src.CacheTyped catalog
  le st next := st.arena.Within next.arena ∧ st.names.taken ⊆ next.names.taken
  refl _ := ⟨.refl _, List.Subset.refl _⟩
  trans := fun ⟨w, t⟩ ⟨w', t'⟩ => ⟨w.trans w', List.Subset.trans t t'⟩

/-- The plan is one for the key at the site.  If the key is just being built for its scope,
nothing but its value is built. -/
structure Answered (a : Arena) (site : Site) (key : Key) (id : PlanId) : Prop where
  asked : src.Typed catalog a site.lambdaParams .asked key id
  bare : site.isUnwrapping key = true → standIn? src.program site.lambdaParams key = none →
    src.keeper? catalog key ≠ none → src.Typed catalog a site.lambdaParams .built key id

/-- Requests get answers that are typed. -/
def Types (requests : Requests) : Prop :=
  ∀ site key st, site.Named catalog st →
    Keeps (src.typing catalog) st (requests site key) fun answer next =>
      ∀ slot ∈ answer, slot.key = key ∧ src.Answered catalog next.arena site key slot.id

/-- The slots are typed for what they were asked for. -/
def AllTyped (a : Arena) (around : List LambdaParam) (slots : List Slot) : Prop :=
  ∀ slot ∈ slots, src.Typed catalog a around .asked slot.key slot.id

variable {src catalog} {a b : Arena} {around : List LambdaParam} {site : Site} {key : Key}
  {id : PlanId} {st next : PlannerState}

theorem CacheTyped.of_within (typed : src.CacheTyped catalog st) (cache : next.cache = st.cache)
    (within : st.arena.Within next.arena) : src.CacheTyped catalog next := by
  intro key id found
  rw [cache] at found
  obtain ⟨around, apart, typed⟩ := typed key id found
  exact ⟨around, apart, typed.mono within⟩

theorem Answered.mono (answered : src.Answered catalog a site key id) (within : a.Within b) :
    src.Answered catalog b site key id :=
  ⟨answered.asked.mono within, fun here absent kept => (answered.bare here absent kept).mono within⟩

/-- What is just built is an answer where no parameter can stand for it. -/
theorem Answered.of_built (absent : standIn? src.program site.lambdaParams key = none)
    (built : src.Typed catalog a site.lambdaParams .built key id) :
    src.Answered catalog a site key id :=
  ⟨.built absent built, fun _ _ _ => built⟩

/-- The values of a key that has no keeper are not built for a scope. -/
theorem Answered.of_unkept (unkept : src.keeper? catalog key = none)
    (asked : src.Typed catalog a site.lambdaParams .asked key id) :
    src.Answered catalog a site key id :=
  ⟨asked, fun _ _ kept => absurd unkept kept⟩

theorem allTyped_nil : src.AllTyped catalog a around [] := List.forall_mem_nil _

theorem AllTyped.mono {slots : List Slot} (typed : src.AllTyped catalog a around slots)
    (within : a.Within b) : src.AllTyped catalog b around slots :=
  fun slot mem => (typed slot mem).mono within

end Source

theorem Site.Named.mono {src : Source} {catalog : Catalog} {site : Site} {st next : PlannerState}
    (named : site.Named catalog st) (le : (src.typing catalog).le st next) :
    site.Named catalog next :=
  ⟨named.own, named.apart, List.Subset.trans named.taken le.2⟩

theorem Site.Named.push {catalog : Catalog} {site : Site} {st : PlannerState}
    (named : site.Named catalog st) (entry : BuildEntry) : site.Named catalog (st.push entry) :=
  ⟨named.own, named.apart, named.taken⟩

/-- The site inside a lambda whose names are new. -/
theorem Site.Named.inside {catalog : Catalog} {site : Site} {st next : PlannerState}
    {lambda : List LambdaParam} (named : site.Named catalog st) (apart : (names lambda).Nodup)
    (new : ∀ name ∈ names lambda, name ∉ st.names.taken ∧ name ∈ next.names.taken)
    (taken : st.names.taken ⊆ next.names.taken) : (site.inside lambda).Named catalog next := by
  refine ⟨named.own, ?_, fun name mem => ?_⟩
  · rw [Site.inside, names, List.map_append]
    refine List.nodup_append'.mpr ⟨named.apart, apart, fun name mem mem' => ?_⟩
    exact (new name mem').1 (named.taken mem)
  · rw [Site.inside, names, List.map_append] at mem
    rcases List.mem_append.mp mem with mem | mem
    · exact taken (named.taken mem)
    · exact (new name mem).2

namespace Source

variable {src : Source} {catalog : Catalog} {around : List LambdaParam} {site : Site} {key : Key}
  {id : PlanId} {st next : PlannerState}

/-! ## Steps -/

theorem typing_stackless : (src.typing catalog).Stackless :=
  ⟨fun _ inv => inv, fun st _ => ⟨.refl st.arena, List.Subset.refl _⟩⟩

theorem types_report (findings : List Finding) :
    Keeps (src.typing catalog) st (report findings) fun _ _ => True :=
  .of_ok (runFrom_report findings st) fun inv => ⟨inv, ⟨.refl _, List.Subset.refl _⟩, trivial⟩

theorem types_alloc (p : Plan) :
    Keeps (src.typing catalog) st (alloc p) fun id next => next.arena.plan? id = some p :=
  .of_ok (runFrom_alloc p st) fun inv =>
    ⟨inv.of_within rfl (.alloc st.arena p), ⟨.alloc st.arena p, List.Subset.refl _⟩,
      Regime.plan?_add st p⟩

/-- New names were not taken, tell their parameters apart, and are taken then. -/
theorem types_nameParams {n : Nat} {tys : List Ty} :
    Keeps (src.typing catalog) st (nameParams n tys) fun lambda next =>
      types lambda = tys ∧ (names lambda).Nodup ∧
        ∀ name ∈ names lambda, name ∉ st.names.taken ∧ name ∈ next.names.taken := by
  obtain ⟨lambda, supply, run, fresh⟩ := exists_runFrom_nameParams n tys st
  refine .of_ok run fun inv =>
    ⟨inv, ⟨.refl _, fresh.grows⟩, fresh.types_eq, fresh.apart, fun name mem => ?_⟩
  obtain ⟨unused, taken, -⟩ := fresh.new name mem
  exact ⟨unused, taken⟩

theorem types_remember (apart : (names around).Nodup)
    (typed : src.Typed catalog st.arena around .asked key id) :
    Keeps (src.typing catalog) st (remember key id) fun _ _ => True := by
  refine .of_ok (runFrom_remember key id st) fun inv => ?_
  split
  · refine ⟨fun other old found => ?_, ⟨.refl _, List.Subset.refl _⟩, trivial⟩
    rcases Table.of_get?_insertNew found with found | ⟨rfl, rfl⟩
    · exact inv other old found
    · exact ⟨around, apart, typed⟩
  · exact ⟨inv, (src.typing catalog).refl st, trivial⟩

/-- The answer is what was built, or a variable in its place or around it. -/
theorem types_constructing {act : PlanM PlanId} {use : Use} (key : Key) (element : Element)
    (inside : ∀ entry, Keeps (src.typing catalog) (st.push entry) act fun id next =>
      src.Typed catalog next.arena around use key id) :
    Keeps (src.typing catalog) st (constructing key element act) fun id next =>
      src.Typed catalog next.arena around use key id ∨
        src.Typed catalog next.arena around .built key id := by
  refine .constructing typing_stackless inside (fun _ typed => typed) ?_ ?_
  · intro id next _ typed
    refine .closeCycle typing_stackless (fun _ => .inl typed) fun name stack => ?_
    exact (types_alloc _).mono fun _ _ _ le found => .inr (.late found (typed.mono le.1))
  · intro name stack
    exact (types_alloc _).mono fun _ _ _ _ found => .inr (.variable found)

/-- Around what is just built nothing else is but what is just built. -/
theorem types_building {act : PlanM PlanId} (key : Key) (element : Element)
    (inside : ∀ entry, Keeps (src.typing catalog) (st.push entry) act fun id next =>
      src.Typed catalog next.arena around .built key id) :
    Keeps (src.typing catalog) st (constructing key element act) fun id next =>
      src.Typed catalog next.arena around .built key id :=
  (types_constructing key element inside).mono fun _ _ _ _ typed => typed.elim id id

theorem types_bindingFor :
    Keeps (src.typing catalog) st (src.bindingFor site key) fun answer _ =>
      match answer with
      | some b => (src.choose site.catalog key).1 = .binding b
      | none => src.Unbound site.catalog key :=
  (Keeps.bindingFor fun _ => types_report _).mono fun _ _ _ _ said => said.1

/-! ## Calls -/

section Requests

variable {requests : Requests} (types_ : src.Types catalog requests)

include types_

theorem types_demand (named : site.Named catalog st) :
    Keeps (src.typing catalog) st (demand requests site key) fun slot next =>
      slot.key = key ∧ src.Answered catalog next.arena site key slot.id := by
  simp only [demand]
  refine (types_ site key st named).bind fun answer next _ _ said => ?_
  cases answer with
  | none => exact .failTraced _
  | some slot => exact .pure (said slot rfl)

/-- The arguments are typed, and they are for all parameters that have no default. -/
theorem types_arguments {s : Subst} {element : Element} {params : List ParamDecl}
    {out : Table String Slot} (named : site.Named catalog st)
    (before : src.AllTyped catalog st.arena site.lambdaParams out.values) :
    Keeps (src.typing catalog) st (src.arguments requests site s element params out)
      fun args next => src.AllTyped catalog next.arena site.lambdaParams args.values ∧
        src.Fills s out params args := by
  induction params generalizing out st with
  | nil => exact .pure ⟨before, .nil src s out⟩
  | cons param rest ih =>
      simp only [arguments]
      refine (types_report _).bind fun _ mid _ le _ => ?_
      refine (types_ site _ mid (named.mono le)).bind fun answer next _ le' said => ?_
      have named' := (named.mono le).mono le'
      have kept : src.AllTyped catalog next.arena site.lambdaParams out.values :=
        (before.mono le.1).mono le'.1
      cases answer with
      | none =>
          dsimp only
          split
          · rename_i omitted
            exact (ih named' kept).mono fun args last _ _ passed =>
              ⟨passed.1, passed.2.leaveOut omitted⟩
          · exact .failTraced _
      | some slot =>
          obtain ⟨same, answered⟩ := said slot rfl
          have more : src.AllTyped catalog next.arena site.lambdaParams
              (out.insert param.name slot).values := by
            intro other mem
            rcases Table.mem_values_insert mem with rfl | mem
            · rw [same]
              exact answered.asked
            · exact kept other mem
          exact (ih named' more).mono fun args last _ _ passed => ⟨passed.1, passed.2.give same⟩

theorem types_receiverFor {s : Subst} {receiver : Option Ty} (named : site.Named catalog st) :
    Keeps (src.typing catalog) st (receiverFor requests site s receiver) fun answer next =>
      src.AllTyped catalog next.arena site.lambdaParams answer.toList := by
  cases receiver with
  | none => exact .pure (List.forall_mem_nil _)
  | some ty =>
      refine (types_demand types_ named).bind fun slot next _ _ said => .pure ?_
      refine List.forall_mem_singleton.mpr ?_
      rw [said.1]
      exact said.2.asked

theorem types_planCtor {cls : ClassId} {index : Nat} {path : FieldPath} {scopedIn : Option ClassId}
    (named : site.Named catalog st)
    (chosen : (src.choose catalog key).1 = .binding (.ctor cls index key.ty path scopedIn)) :
    Keeps (src.typing catalog) st (src.planCtor requests site key cls index key.ty) fun id next =>
      src.Typed catalog next.arena site.lambdaParams .built key id := by
  refine types_building key _ fun entry => ?_
  dsimp only
  have inside := named.push entry
  cases declared : (src.program.classAt cls).ctors[index]? with
  | none => exact .throw _
  | some ctor =>
      refine (types_arguments types_ inside allTyped_nil).bind
        fun args mid _ _ passed => ?_
      refine (types_alloc _).mono fun id next _ le found => ?_
      exact .construct chosen declared passed.2.supplies found (passed.1.mono le.1)

theorem types_planCall {b : MemberBinding} {s : Subst} (named : site.Named catalog st) :
    Keeps (src.typing catalog) st (src.planCall requests site key b s) fun id next =>
      src.Typed catalog next.arena site.lambdaParams .built key id := by
  refine types_building key _ fun entry => ?_
  have inside := named.push entry
  refine (types_receiverFor types_ inside).bind fun receiver mid _ le received => ?_
  refine (types_arguments types_ (inside.mono le) allTyped_nil).bind
    fun args last _ le' passed => ?_
  refine (types_alloc _).mono fun id next _ le'' found => .provide found fun slot mem => ?_
  rcases List.mem_append.mp mem with mem | mem
  · exact (received slot mem).mono (le'.1.trans le''.1)
  · exact (passed.1 slot mem).mono le''.1

theorem types_planKept {path : FieldPath} (named : site.Named catalog st)
    (absent : standIn? src.program site.lambdaParams key = none)
    (kept : src.keeper? catalog key ≠ none) (here : site.isUnwrapping key = false) :
    Keeps (src.typing catalog) st (planKept requests site key path) fun id next =>
      src.Answered catalog next.arena site key id := by
  simp only [planKept]
  have unwrapped : (site.unwrap key).Named catalog st := ⟨named.own, named.apart, named.taken⟩
  refine (types_demand types_ unwrapped).bind fun slot mid _ _ said => ?_
  obtain ⟨same, answered⟩ := said
  refine (types_alloc _).mono fun id next _ le found => ?_
  have result : slot = ⟨key, slot.id⟩ := by rw [← same]
  rw [result] at found
  have built : src.Typed catalog mid.arena site.lambdaParams .built key slot.id :=
    answered.bare (by simp [Site.isUnwrapping, Site.unwrap]) absent kept
  refine ⟨.keep absent found (built.mono le.1), fun unwrapping => ?_⟩
  rw [here] at unwrapping
  cases unwrapping

/-- A scope that keeps values is known to keep the key's. -/
theorem types_planMember {b : MemberBinding} {s : Subst} (named : site.Named catalog st)
    (absent : standIn? src.program site.lambdaParams key = none)
    (kept : src.keeper? catalog key = b.scopedIn.map fun _ => b.path) :
    Keeps (src.typing catalog) st (src.planMember requests site key b s) fun id next =>
      src.Answered catalog next.arena site key id := by
  simp only [planMember]
  split
  · rename_i wrap
    rw [Bool.and_eq_true, Bool.not_eq_true'] at wrap
    exact types_planKept types_ named absent (by simp [kept, Option.isSome_iff_ne_none.mp wrap.1])
      wrap.2
  · exact (types_planCall types_ named).mono fun id next _ _ built => .of_built absent built

theorem types_contributorSlots {contributors : List MemberBinding}
    (named : site.Named catalog st) :
    Keeps (src.typing catalog) st (src.contributorSlots requests site contributors)
      fun slots next => ∀ slot ∈ slots,
        src.Typed catalog next.arena site.lambdaParams .built slot.key slot.id := by
  induction contributors generalizing st with
  | nil => exact .pure (List.forall_mem_nil _)
  | cons b rest ih =>
      simp only [contributorSlots]
      refine (types_planCall types_ named).bind fun id mid _ le first => ?_
      refine (ih (named.mono le)).bind fun slots next _ le' said => .pure ?_
      exact List.forall_mem_cons.mpr ⟨first.mono le'.1, said⟩

theorem types_planBinding {b : Binding} (named : site.Named catalog st)
    (absent : standIn? src.program site.lambdaParams key = none)
    (chosen : (src.choose catalog key).1 = .binding b) :
    Keeps (src.typing catalog) st (src.planBinding requests site key b) fun id next =>
      src.Answered catalog next.arena site key id := by
  cases b with
  | ctor cls index ty path scopedIn =>
      obtain ⟨rfl, -⟩ := class_of_chosen chosen
      have kept : src.keeper? catalog key = scopedIn.map fun _ => path := by
        simp only [keeper?, chosen]
      simp only [planBinding]
      split
      · rename_i wrap
        rw [Bool.and_eq_true, Bool.not_eq_true'] at wrap
        exact types_planKept types_ named absent
          (by simp [kept, Option.isSome_iff_ne_none.mp wrap.1]) wrap.2
      · exact (types_planCtor types_ named chosen).mono fun id next _ _ built =>
          .of_built absent built
  | member b =>
      exact types_planMember types_ named absent (by simp only [keeper?, chosen])
  | container kind contributors =>
      refine (types_contributorSlots types_ named).bind fun slots mid _ _ said => ?_
      have unkept : src.keeper? catalog key = none := by simp [keeper?, chosen]
      refine (types_alloc _).mono fun id next _ le found => .of_unkept unkept ?_
      exact .container absent chosen found fun slot mem => (said slot mem).mono le.1
  | object cls =>
      exact (types_alloc _).mono fun id next _ _ found =>
        .of_unkept (by simp [keeper?, chosen]) (.object absent chosen found)

/-! ## Values built later -/

omit types_ in
/-- The parameters of a function type, and what it returns. -/
theorem args_eq_of_getLast? {args : List Ty} {ty : Ty} (last : args.getLast? = some ty) :
    args = args.dropLast ++ [ty] :=
  (List.dropLast_append_getLast? ty last).symm

theorem types_planFunctionCall {f : MemberId} {ty : Ty} (named : site.Named catalog st)
    (function : key.ty.isFunction = true) (last : key.ty.dealias.args.getLast? = some ty) :
    Keeps (src.typing catalog) st
      (src.planFunctionCall requests site key f key.ty.dealias.args.dropLast) fun id next =>
        src.Typed catalog next.arena site.lambdaParams .built key id := by
  refine .deferred typing_stackless (types_building key _ fun entry => ?_) fun _ typed => typed
  have start := (named.push .deferred).push entry
  refine types_nameParams.bind fun lambda mid _ le said => ?_
  obtain ⟨same, apart, new⟩ := said
  have inside : (site.inside lambda).Named catalog mid := start.inside apart new le.2
  refine (types_receiverFor types_ inside).bind fun receiver next _ le received => ?_
  refine (types_arguments types_ (inside.mono le) allTyped_nil).bind
    fun args after _ le' passed => ?_
  refine (types_alloc _).mono fun id final _ le'' found => ?_
  refine .namedFunction function (same ▸ args_eq_of_getLast? last) inside.apart found
    fun slot mem => ?_
  rcases List.mem_append.mp mem with mem | mem
  · exact (received slot mem).mono (le'.1.trans le''.1)
  · exact (passed.1 slot mem).mono le''.1

theorem types_planFunction (named : site.Named catalog st)
    (absent : standIn? src.program site.lambdaParams key = none)
    (function : key.ty.isFunction = true) (unkept : src.keeper? catalog key = none) :
    Keeps (src.typing catalog) st (src.planFunction requests site key) fun id next =>
      src.Answered catalog next.arena site key id := by
  simp only [planFunction]
  split
  · exact .failTraced _
  · rename_i result last
    split
    · exact (types_planFunctionCall types_ named function last).mono fun id next _ _ built =>
        .of_built absent built
    · let served (answer : List LambdaParam × Slot) (next : PlannerState) : Prop :=
        types answer.1 = key.ty.dealias.args.dropLast ∧
          (names (site.lambdaParams ++ answer.1)).Nodup ∧
          answer.2.key = .of result key.qualifier ∧
          src.Typed catalog next.arena (site.lambdaParams ++ answer.1) .asked answer.2.key
            answer.2.id
      refine .bind (.deferred typing_stackless (?_ : Keeps _ _ _ served) fun _ said => said)
        fun answer mid _ _ said => ?_
      · have start := named.push .deferred
        refine types_nameParams.bind fun lambda mid _ le said => ?_
        obtain ⟨same, apart, new⟩ := said
        have inside : (site.inside lambda).Named catalog mid := start.inside apart new le.2
        refine (types_demand types_ inside).bind fun slot next _ _ said => .pure ?_
        exact ⟨same, inside.apart, said.1, said.1 ▸ said.2.asked⟩
      · obtain ⟨lambda, slot⟩ := answer
        obtain ⟨same, apart, asked, typed⟩ := said
        obtain ⟨k, result⟩ := slot
        obtain rfl : k = _ := asked
        refine (types_alloc _).mono fun id next _ le found => .of_unkept unkept ?_
        exact .function absent function (same ▸ args_eq_of_getLast? last) apart found
          (typed.mono le.1)

theorem types_planLazy (named : site.Named catalog st)
    (absent : standIn? src.program site.lambdaParams key = none) (strict : key.ty.isLazy = true)
    (unkept : src.keeper? catalog key = none) :
    Keeps (src.typing catalog) st (planLazy requests site key) fun id next =>
      src.Answered catalog next.arena site key id := by
  simp only [planLazy]
  split
  · exact .failTraced _
  · rename_i ty first
    have only : key.ty.dealias.args = [ty] := by
      simp only [Ty.isLazy, Bool.and_eq_true, beq_iff_eq] at strict
      obtain ⟨inner, args⟩ := List.length_eq_one_iff.mp strict.2
      rw [args] at first ⊢
      rw [Option.some.inj first]
    let served (slot : Slot) (next : PlannerState) : Prop := slot.key = .of ty key.qualifier ∧
      src.Typed catalog next.arena site.lambdaParams .asked slot.key slot.id
    have start := named.push .deferred
    have asked : Keeps (src.typing catalog) (st.push .deferred) _ served :=
      (types_demand types_ start).mono fun slot next _ _ said => ⟨said.1, said.1 ▸ said.2.asked⟩
    refine (asked.deferred typing_stackless fun _ said => said).bind fun slot mid _ _ said => ?_
    obtain ⟨k, result⟩ := slot
    obtain ⟨rfl, typed⟩ := said
    exact (types_alloc _).mono fun id next _ le found => .of_unkept unkept
      (.lazy absent strict only found (typed.mono le.1))

theorem types_planGeneric (named : site.Named catalog st)
    (absent : standIn? src.program site.lambdaParams key = none)
    (unbound : src.Unbound catalog key) (plain : key.ty.isFunction = false)
    (strict : key.ty.isLazy = false) :
    Keeps (src.typing catalog) st (src.planGeneric requests site key) fun answer next =>
      ∀ id ∈ answer, src.Answered catalog next.arena site key id := by
  simp only [planGeneric]
  split
  · exact .nothing
  · rename_i b s fits
    rw [named.own] at fits
    have nothing : (src.choose catalog key).1 = .nothing := unbound
    have kept : src.keeper? catalog key = b.scopedIn.map fun _ => b.path := by
      simp [keeper?, nothing, plain, strict, fits]
    exact (types_planMember types_ named absent kept).bind fun id next _ _ answered =>
      .found answered
  · exact .failTraced _

/-! ## Requests -/

theorem types_planFor (named : site.Named catalog st) :
    Keeps (src.typing catalog) st (src.planFor requests site key) fun answer next =>
      ∀ id ∈ answer, src.Answered catalog next.arena site key id := by
  simp only [planFor, Site.findParam_eq]
  split
  · exact .throw _
  · split
    · rename_i param stands
      refine (types_alloc _).bind fun id next _ _ found => Keeps.found ⟨.param stands found, ?_⟩
      intro _ absent
      cases absent.symm.trans stands
    · rename_i absent
      refine types_bindingFor.bind fun answer mid _ le chosen => ?_
      rw [named.own] at chosen
      have named' := named.mono le
      cases answer with
      | some b =>
          exact (types_planBinding types_ named' absent chosen).bind
            fun id next _ _ answered => .found answered
      | none =>
          have unkept (later : (key.ty.isFunction || key.ty.isLazy) = true) :
              src.keeper? catalog key = none := by
            have nothing : (src.choose catalog key).1 = .nothing := chosen
            simp only [keeper?, nothing, later, if_true]
          dsimp only
          split
          · rename_i function
            have none := unkept (by simp [function])
            exact (types_planFunction types_ named' absent function none).bind
              fun id next _ _ answered => .found answered
          · rename_i plain
            split
            · rename_i strict
              exact (types_planLazy types_ named' absent strict (unkept (by simp [strict]))).bind
                fun id next _ _ answered => .found answered
            · rename_i strict
              rw [Bool.not_eq_true] at plain strict
              exact types_planGeneric types_ named' absent chosen plain strict

end Requests

theorem types_kept? :
    Keeps (src.typing catalog) st (kept? site key) fun answer next =>
      ∀ id ∈ answer, src.Answered catalog next.arena site key id := by
  refine Keeps.kept?.mono ?_
  rintro _ next inv - said id rfl
  obtain ⟨rfl, outside, fresh, found⟩ := said
  obtain ⟨around, apart, typed⟩ := inv key id found
  refine ⟨outside ▸ .again apart typed, fun unwrapping => ?_⟩
  rw [fresh] at unwrapping
  cases unwrapping

/-- One request is answered by what is typed when those that follow from it are. -/
theorem types_requestWith {requests : Requests} (types_ : src.Types catalog requests) :
    src.Types catalog (src.requestWith requests) := by
  intro site key st named
  simp only [requestWith]
  refine types_kept?.bind fun answer mid _ le kept => ?_
  cases answer with
  | some id => exact .found ⟨rfl, kept id rfl⟩
  | none =>
      refine (types_planFor types_ (named.mono le)).bind fun answer next _ _ said => ?_
      cases answer with
      | none => exact .nothing
      | some id =>
          have answered := said id rfl
          dsimp only
          split
          · exact .found ⟨rfl, answered⟩
          · exact (types_remember named.apart answered.asked).bind fun _ last _ le _ =>
              .found ⟨rfl, answered.mono le.1⟩

theorem types_requestTo (depth : Nat) : src.Types catalog (src.requestTo depth) := by
  induction depth with
  | zero => exact fun _ _ _ _ => .throw _
  | succ depth ih => exact types_requestWith ih

theorem types_request : src.Types catalog src.request := fun site key =>
  types_requestTo (src.requestDepth key) site key

/-! ## Accessors -/

variable {m : MemberId} {root : Slot}

variable (src catalog) in
/-- The slot is typed, with no lambda parameter around. -/
def RootTyped (a : Arena) (root : Slot) : Prop :=
  ∃ use, src.Typed catalog a [] use root.key root.id

theorem RootTyped.mono {a b : Arena} (typed : src.RootTyped catalog a root)
    (within : a.Within b) : src.RootTyped catalog b root :=
  let ⟨use, typed⟩ := typed
  ⟨use, typed.mono within⟩

theorem types_implement (outside : site.lambdaParams = [])
    (inv : src.CacheTyped site.catalog st) :
    src.CacheTyped site.catalog ((src.implement site m).runFrom st).2 ∧
      st.arena.Within ((src.implement site m).runFrom st).2.arena ∧
      ∀ entry, ((src.implement site m).runFrom st).1 = .ok entry →
        src.RootTyped site.catalog ((src.implement site m).runFrom st).2.arena entry.result := by
  let key := src.accessorKey site.catalog m
  have named (st : PlannerState) : site.Named site.catalog st := by
    refine ⟨rfl, ?_, ?_⟩ <;> rw [outside]
    · exact List.nodup_nil
    · exact List.nil_subset _
  have built (start : PlannerState) : Keeps (src.typing site.catalog) start
      (constructing key (.member m) do return (← src.resolve site key).id) fun id next =>
        src.Typed site.catalog next.arena site.lambdaParams .asked key id ∨
          src.Typed site.catalog next.arena site.lambdaParams .built key id := by
    refine types_constructing key (.member m) fun entry => ?_
    exact (types_demand types_request (named _)).bind fun slot next _ _ said => .pure said.2.asked
  have start : (src.typing site.catalog).inv st.afresh := inv
  obtain ⟨inv', le, said⟩ := Discipline.implement types_report (fun next _ => built next) start
  refine ⟨inv', le.1, fun entry done => ?_⟩
  obtain ⟨same, typed⟩ := said entry done
  rw [RootTyped, same, ← outside]
  exact typed.elim (fun typed => ⟨_, typed⟩) fun typed => ⟨_, typed⟩

/-- All accessors that succeed are typed. -/
theorem types_implementEach {accessors : List MemberId} (outside : site.lambdaParams = [])
    (inv : src.CacheTyped site.catalog st) :
    st.arena.Within ((src.implementEach site accessors).run st).2.arena ∧
      ∀ e ∈ ((src.implementEach site accessors).run st).1.entries,
        src.RootTyped site.catalog ((src.implementEach site accessors).run st).2.arena
          e.result := by
  refine (Regime.implementEach_induction (src.CacheTyped site.catalog)
    (fun a e => src.RootTyped site.catalog a e.result) ?_ (fun m _ st => ?_) inv).2
  · exact fun _ _ _ within _ typed => typed.mono within
  · exact types_implement outside

/-- Every accessor that is planned is typed for its key. -/
theorem planned_typed (src : Source) (catalog : Catalog) (className : String) (log : Log) :
    ∀ e ∈ (src.planned className catalog log).entries,
      src.RootTyped catalog (src.planned className catalog log).arena e.result := by
  have empty : src.CacheTyped catalog { log } := fun _ _ found => by cases found
  let site : Site := { className, catalog }
  have outside : site.lambdaParams = [] := rfl
  exact (types_implementEach outside empty).2

end Source

end Injector
