/-
# Injector.Proofs.Planner.Minding -- planning keeps nothing that is under construction

There is one lemma for each function of the planner, in the order of their definitions.
Each says that nothing is added to the cache that leads to calls under construction; those
that plan a key count the calls for this key as under construction from the outset.  And
each says that its answer is left open where the key itself leads there.
`minds_requestTo` closes the circle by induction on the depth.
-/
import Injector.Proofs.Planner.Fronts

namespace Injector

set_option autoImplicit false

open PlanM
open LambdaParam (names types standIn?)

namespace Source

variable (src : Source) (catalog : Catalog)

/-- Requests mind what is under construction, and their answers are left open. -/
def MindsAll (requests : Requests) : Prop :=
  ∀ site key st, site.Proper catalog st →
    Keeps (src.minding catalog (site.planned key)) st (requests site key) fun answer next =>
      ∀ slot ∈ answer, src.LeftOpen catalog st site key next.arena slot.id

variable {src catalog} {planned : Option Key} {st next : PlannerState} {site : Site}
  {key owner : Key} {id : PlanId} {c : Call}

/-! ## What is left open -/

/-- A plan is open that refers to each call for its key that is under construction. -/
theorem leftOpen_of_calls (params : ∀ name ∈ names site.lambdaParams, IsParamName name)
    (built : src.calls catalog key ≠ [])
    (refers : ∀ c ∈ src.calls catalog key, .building c.element ∈ st.stack.entries →
      c.key.ty.suggestedName ∈ next.arena.freeNames id) :
    src.LeftOpen catalog st site key next.arena id := by
  intro outer inner around t watched leads
  obtain rfl := leads.eq_of_calls built
  obtain ⟨other, -⟩ | ⟨c, mem, met⟩ := watched.busy
  · cases other
  · refine ⟨_, refers c mem met, fun bound => watched.names c mem (params _ ?_)⟩
    rw [around, names, List.map_append]
    exact List.mem_append_right _ bound

theorem leftOpen_of_call (params : ∀ name ∈ names site.lambdaParams, IsParamName name)
    (only : src.calls catalog key = [c])
    (refers : .building c.element ∈ st.stack.entries →
      c.key.ty.suggestedName ∈ next.arena.freeNames id) :
    src.LeftOpen catalog st site key next.arena id := by
  refine leftOpen_of_calls params (by simp [only]) fun d among met => ?_
  rw [only, List.mem_singleton] at among
  subst among
  exact refers met

/-- Nothing is to be left open for a key that leads nowhere. -/
theorem leftOpen_of_stuck {a : Arena} (nothing : src.calls catalog key = [])
    (stuck : src.Unbound catalog key → src.innerKey? key = none) :
    src.LeftOpen catalog st site key a id := by
  intro outer inner around t watched leads
  cases leads with
  | here => exact absurd nothing watched.built
  | inside _ wraps =>
      have found := wraps.inner
      rw [stuck wraps.unbound] at found
      cases found

/-- A plan is open in which all is free that is free in what is inside, but for the parameters
of its lambda. -/
theorem leftOpen_of_inner {a b : Arena} {inner : Key} {lambda : List LambdaParam} {other : PlanId}
    (nothing : src.calls catalog key = []) (found : src.innerKey? key = some inner)
    (same : types lambda = lambdaTypes key)
    (left : src.LeftOpen catalog (st.push .deferred) (site.inside lambda) inner a other)
    (free : ∀ name ∈ a.freeNames other, name ∉ names lambda → name ∈ b.freeNames id) :
    src.LeftOpen catalog st site key b id := by
  intro outer last around t watched leads
  cases leads with
  | here => exact absurd nothing watched.built
  | @inside _ s _ _ wraps leads =>
      obtain ⟨tys, k⟩ := s
      obtain rfl : k = inner := Option.some.inj (wraps.inner.symm.trans found)
      obtain rfl : tys = types (last ++ lambda) := by
        rw [types, List.map_append, ← types, ← types, same]
        exact wraps.types
      have around' : (site.inside lambda).lambdaParams = outer ++ (last ++ lambda) := by
        rw [Site.inside, around, List.append_assoc]
      have watched' : src.Watched catalog none (st.push .deferred) t :=
        watched.of_entries (List.subset_cons_self _ _)
      obtain ⟨name, mem, outside⟩ := left outer (last ++ lambda) around' t watched' leads
      rw [names, List.map_append, List.mem_append, not_or] at outside
      exact ⟨name, free name mem outside.2, outside.1⟩

/-! ## Calls -/

section Requests

variable {requests : Requests} (minds : src.MindsAll catalog requests)

include minds

theorem minds_request (proper : site.Proper catalog st) :
    Keeps (src.minding catalog none) st (requests site key) fun _ _ => True :=
  (minds_mono (minds site key st proper) fun _ watched => watched.of_none).mono
    fun _ _ _ _ _ => trivial

theorem minds_demand (key : Key) (proper : site.Proper catalog st) :
    Keeps (src.minding catalog (site.planned key)) st (demand requests site key)
      fun slot next => src.LeftOpen catalog st site key next.arena slot.id := by
  simp only [demand]
  refine (minds site key st proper).bind fun answer next _ _ said => ?_
  cases answer with
  | none => exact .failTraced _
  | some slot => exact .pure (said slot rfl)

theorem minds_arguments {s : Subst} {element : Element} {params : List ParamDecl}
    {out : Table String Slot} (proper : site.Proper catalog st) :
    Keeps (src.minding catalog none) st (src.arguments requests site s element params out)
      fun _ _ => True := by
  induction params generalizing out st with
  | nil => exact .pure trivial
  | cons param rest ih =>
      simp only [arguments]
      refine (minds_report _).bind fun _ mid _ le _ => ?_
      refine (minds_request minds (proper.mono le)).bind fun answer next _ le' _ => ?_
      have proper' := (proper.mono le).mono le'
      cases answer with
      | none =>
          dsimp only
          split
          · exact ih proper'
          · exact .failTraced _
      | some slot => exact ih proper'

theorem minds_receiverFor {s : Subst} {receiver : Option Ty} (proper : site.Proper catalog st) :
    Keeps (src.minding catalog none) st (receiverFor requests site s receiver)
      fun _ _ => True := by
  cases receiver with
  | none => exact .pure trivial
  | some ty =>
      have asked := minds_mono (minds_demand minds (.of (ty.subst s)) proper)
        fun _ watched => watched.of_none
      exact asked.bind fun slot next _ _ _ => .pure trivial

/-- A call of the element counts as under construction for all keys that it is a call for. -/
theorem minds_planCtor {cls : ClassId} {index : Nat} {ty : Ty} (proper : site.Proper catalog st)
    (mem : src.ctorCall key cls index ty ∈ src.calls catalog owner) :
    Keeps (src.minding catalog (some owner)) st (src.planCtor requests site key cls index ty)
      fun id next => .building (.ctor cls (UInt64.ofNat index)) ∈ st.stack.entries →
        key.ty.suggestedName ∈ next.arena.freeNames id := by
  refine minds_constructing (fun _ watched => watched.enter mem) ?_
  dsimp only
  cases (src.program.classAt cls).ctors[index]? with
  | none => exact .throw _
  | some ctor =>
      refine (minds_arguments minds (proper.push _)).bind fun args mid _ _ _ => ?_
      exact (minds_alloc _).mono fun _ _ _ _ _ => trivial

theorem minds_planCall {b : MemberBinding} {s : Subst} {inLambda : Bool}
    (proper : site.Proper catalog st)
    (mem : src.memberCall key b.member s inLambda ∈ src.calls catalog owner) :
    Keeps (src.minding catalog (some owner)) st (src.planCall requests site key b s)
      fun id next => .building (.member b.member) ∈ st.stack.entries →
        key.ty.suggestedName ∈ next.arena.freeNames id := by
  refine minds_constructing (fun _ watched => watched.enter mem) ?_
  have inside := proper.push (.building (.member b.member))
  refine (minds_receiverFor minds inside).bind fun receiver mid _ le _ => ?_
  refine (minds_arguments minds (inside.mono le)).bind fun args last _ _ _ => ?_
  exact (minds_alloc _).mono fun _ _ _ _ _ => trivial

theorem minds_planKept {path : FieldPath} (proper : site.Proper catalog st) :
    Keeps (src.minding catalog (some key)) st (planKept requests site key path) fun id next =>
      src.LeftOpen catalog st site key next.arena id := by
  have asked := minds_demand minds key (proper.unwrap key)
  rw [show (site.unwrap key).planned key = some key by
    simp [Site.planned, Site.isUnwrapping, Site.unwrap]] at asked
  refine asked.bind fun slot mid _ _ left => ?_
  refine (minds_alloc _).mono fun id next _ _ free => ?_
  have inner : src.LeftOpen catalog st site key mid.arena slot.id := left
  refine inner.of_subset ?_
  rw [free]
  intro name mem
  exact Arena.mem_freeIn.mpr ⟨.inr ⟨slot, List.mem_singleton_self slot, mem⟩, List.not_mem_nil⟩

theorem minds_planMember {b : MemberBinding} {s : Subst} (proper : site.Proper catalog st)
    (calls : src.calls catalog key = [src.memberCall key b.member s false]) :
    Keeps (src.minding catalog (some key)) st (src.planMember requests site key b s)
      fun id next => src.LeftOpen catalog st site key next.arena id := by
  simp only [planMember]
  split
  · exact minds_planKept minds proper
  · have mem : src.memberCall key b.member s false ∈ src.calls catalog key := by simp [calls]
    exact (minds_planCall minds proper mem).mono fun id next _ _ refers =>
      leftOpen_of_call proper.params calls refers

/-- The contributions under construction are referred to in their slots. -/
theorem minds_contributorSlots {contributors : List MemberBinding}
    (proper : site.Proper catalog st)
    (among : ∀ b ∈ contributors, src.memberCall (src.contributionKey b) b.member .empty false ∈
      src.calls catalog owner) :
    Keeps (src.minding catalog (some owner)) st (src.contributorSlots requests site contributors)
      fun slots next => ∀ b ∈ contributors, .building (.member b.member) ∈ st.stack.entries →
        ∃ slot ∈ slots,
          (src.contributionKey b).ty.suggestedName ∈ next.arena.freeNames slot.id := by
  induction contributors generalizing st with
  | nil => exact .pure (List.forall_mem_nil _)
  | cons b rest ih =>
      obtain ⟨first, others⟩ := List.forall_mem_cons.mp among
      simp only [contributorSlots]
      refine (minds_planCall minds proper first).bind fun id mid _ le refers => ?_
      refine (ih (proper.mono le) others).bind fun slots next _ le' said => .pure ?_
      intro b' mem met
      obtain rfl | mem := List.mem_cons.mp mem
      · exact ⟨_, List.mem_cons_self, le'.within.freeNames_subset id (refers met)⟩
      · obtain ⟨slot, mem, free⟩ := said b' mem (le.entries ▸ met)
        exact ⟨slot, List.mem_cons_of_mem _ mem, free⟩

theorem minds_planBinding {b : Binding} (proper : site.Proper catalog st)
    (chosen : (src.choose catalog key).1 = .binding b) :
    Keeps (src.minding catalog (some key)) st (src.planBinding requests site key b) fun id next =>
      src.LeftOpen catalog st site key next.arena id := by
  have calls := calls_of_binding chosen
  cases b with
  | ctor cls index ty path scopedIn =>
      simp only [planBinding]
      split
      · exact minds_planKept minds proper
      · have mem : src.ctorCall key cls index ty ∈ src.calls catalog key := by
          simp [calls, bindingCalls]
        exact (minds_planCtor minds proper mem).mono fun id next _ _ refers =>
          leftOpen_of_call proper.params calls refers
  | member b => exact minds_planMember minds proper calls
  | container kind contributors =>
      have among : ∀ b ∈ contributors, src.memberCall (src.contributionKey b) b.member .empty false
          ∈ src.calls catalog key := by
        intro b mem
        rw [calls, bindingCalls]
        exact List.mem_map_of_mem mem
      simp only [planBinding]
      refine (minds_contributorSlots minds proper among).bind fun slots mid _ _ said => ?_
      refine (minds_alloc _).mono fun id next _ _ free => ?_
      by_cases built : src.calls catalog key = []
      · refine leftOpen_of_stuck built fun unbound => ?_
        cases chosen.symm.trans unbound
      · refine leftOpen_of_calls proper.params built fun c call met => ?_
        rw [calls, bindingCalls, List.mem_map] at call
        obtain ⟨b, mem, rfl⟩ := call
        obtain ⟨slot, child, there⟩ := said b mem met
        rw [free]
        exact Arena.mem_freeIn.mpr ⟨.inr ⟨slot, child, there⟩, List.not_mem_nil⟩
  | object cls =>
      refine (minds_alloc _).mono fun id next _ _ _ => leftOpen_of_stuck calls fun unbound => ?_
      cases chosen.symm.trans unbound

/-! ## Values built later -/

theorem minds_planFunctionCall {f : MemberId} {tys : List Ty} (proper : site.Proper catalog st)
    (calls : src.calls catalog key = [src.memberCall key f .empty true]) :
    Keeps (src.minding catalog (some key)) st (src.planFunctionCall requests site key f tys)
      fun id next => src.LeftOpen catalog st site key next.arena id := by
  have mem : src.memberCall key f .empty true ∈ src.calls catalog key := by simp [calls]
  let refers (id : PlanId) (next : PlannerState) : Prop :=
    .building (.member f) ∈ (st.push .deferred).stack.entries →
      key.ty.suggestedName ∈ next.arena.freeNames id
  have made : Keeps (src.minding catalog (some key)) st
      (src.planFunctionCall requests site key f tys) refers := by
    apply minds_deferred
    · refine minds_constructing (fun _ watched => watched.enter mem) ?_
      have start := (proper.push .deferred).push (.building (.member f))
      refine minds_nameParams.bind fun lambda mid _ _ fresh => ?_
      have inside := start.inside fresh
      refine (minds_receiverFor minds inside).bind fun receiver next _ le' _ => ?_
      refine (minds_arguments minds (inside.mono le')).bind fun args after _ _ _ => ?_
      exact (minds_alloc _).mono fun _ _ _ _ _ => trivial
    · exact fun _ said => said
  exact made.mono fun id next _ _ said =>
    leftOpen_of_call proper.params calls fun met => said (List.mem_cons_of_mem _ met)

theorem minds_planFunction (proper : site.Proper catalog st)
    (unbound : src.Unbound catalog key) (function : key.ty.isFunction = true) :
    Keeps (src.minding catalog (some key)) st (src.planFunction requests site key) fun id next =>
      src.LeftOpen catalog st site key next.arena id := by
  simp only [planFunction]
  split
  · exact .failTraced _
  · rename_i result last
    split
    · rename_i f aliased
      refine minds_planFunctionCall minds proper ?_
      rw [calls_of_unbound unbound, unboundCalls, if_pos function, aliased]
    · rename_i plain
      have inner : src.innerKey? key = some (.of result key.qualifier) := by
        simp only [innerKey?, function, plain, last, if_true, Option.map_some]
      have nothing := calls_of_innerKey? unbound inner
      refine minds_mono ?_ fun t watched => watched.of_calls_nil nothing
      let served (answer : List LambdaParam × Slot) (next : PlannerState) : Prop :=
        types answer.1 = lambdaTypes key ∧
          src.LeftOpen catalog (st.push .deferred) (site.inside answer.1)
            (.of result key.qualifier) next.arena answer.2.id
      refine .bind (minds_deferred (?_ : Keeps _ _ _ served) fun _ said => said)
        fun answer mid _ _ said => ?_
      · have start := proper.push .deferred
        refine minds_nameParams.bind fun lambda mid _ le fresh => ?_
        have inside := start.inside fresh
        have asked := minds_mono (minds_demand minds (.of result key.qualifier) inside)
          fun _ watched => watched.of_none
        refine asked.bind fun slot next _ _ left => .pure ⟨?_, (leftOpen_iff le).mp left⟩
        rw [fresh.types_eq, lambdaTypes, if_pos function]
      · obtain ⟨lambda, slot⟩ := answer
        obtain ⟨same, left⟩ := said
        refine (minds_alloc _).mono fun id next _ _ free => ?_
        refine leftOpen_of_inner nothing inner same left fun name mem outside => ?_
        rw [free]
        exact Arena.mem_freeIn.mpr ⟨.inr ⟨slot, List.mem_singleton_self slot, mem⟩, outside⟩

theorem minds_planLazy (proper : site.Proper catalog st) (unbound : src.Unbound catalog key)
    (plain : key.ty.isFunction = false) (strict : key.ty.isLazy = true) :
    Keeps (src.minding catalog (some key)) st (planLazy requests site key) fun id next =>
      src.LeftOpen catalog st site key next.arena id := by
  simp only [planLazy]
  split
  · exact .failTraced _
  · rename_i ty first
    have inner : src.innerKey? key = some (.of ty key.qualifier) := by
      simp [innerKey?, plain, strict, first]
    have nothing := calls_of_innerKey? unbound inner
    refine minds_mono ?_ fun t watched => watched.of_calls_nil nothing
    let served (slot : Slot) (next : PlannerState) : Prop :=
      src.LeftOpen catalog (st.push .deferred) site (.of ty key.qualifier) next.arena slot.id
    have asked : Keeps (src.minding catalog none) (st.push .deferred)
        (demand requests site (.of ty key.qualifier)) served :=
      minds_mono (minds_demand minds _ (proper.push .deferred)) fun _ watched => watched.of_none
    refine (minds_deferred asked fun _ said => said).bind fun slot mid _ _ left => ?_
    refine (minds_alloc _).mono fun id next _ _ free => ?_
    have same : types [] = lambdaTypes key := by simp [types, lambdaTypes, plain]
    have left' : src.LeftOpen catalog (st.push .deferred) (site.inside []) (.of ty key.qualifier)
        mid.arena slot.id := by
      rw [show site.inside [] = site by simp [Site.inside]]
      exact left
    refine leftOpen_of_inner nothing inner same left' fun name mem _ => ?_
    rw [free]
    exact Arena.mem_freeIn.mpr ⟨.inr ⟨slot, List.mem_singleton_self slot, mem⟩, List.not_mem_nil⟩

/-! ## Requests -/

theorem minds_planGeneric (proper : site.Proper catalog st) (unbound : src.Unbound catalog key)
    (plain : key.ty.isFunction = false) (strict : key.ty.isLazy = false) :
    Keeps (src.minding catalog (some key)) st (src.planGeneric requests site key)
      fun answer next => ∀ id ∈ answer, src.LeftOpen catalog st site key next.arena id := by
  simp only [planGeneric]
  split
  · exact .nothing
  · rename_i b s fits
    rw [proper.own] at fits
    have calls : src.calls catalog key = [src.memberCall key b.member s false] := by
      simp [calls_of_unbound unbound, unboundCalls, plain, strict, fits]
    exact (minds_planMember minds proper calls).bind fun id next _ _ left => .found left
  · exact .failTraced _

omit minds in
/-- A parameter that stands for the key is none of the last ones if the key leads on inside of
these. -/
theorem minds_arg {param : LambdaParam} (proper : site.Proper catalog st)
    (stands : site.findParam src.program key = some param) :
    Keeps (src.minding catalog planned) st (alloc (.arg param.name)) fun id next =>
      src.LeftOpen catalog st site key next.arena id := by
  refine (minds_alloc _).mono fun id next _ _ free => ?_
  intro outer inner around t watched leads
  refine ⟨param.name, ?_, fun bound => ?_⟩
  · rw [free]
    exact Arena.mem_freeIn.mpr ⟨.inl rfl, List.not_mem_nil⟩
  · rw [Site.findParam_eq, standIn?] at stands
    split at stands
    · cases stands
    · rename_i bare
      obtain ⟨other, mem, same⟩ := List.mem_map.mp bound
      have among : param ∈ site.lambdaParams :=
        List.mem_reverse.mp (List.mem_of_find?_eq_some stands)
      have among' : other ∈ site.lambdaParams := around ▸ List.mem_append_right outer mem
      obtain rfl : other = param := List.inj_on_of_nodup_map proper.apart among' among same
      obtain qualified | free := leads.exposed watched.exposed
      · exact bare qualified
      · have fits := List.find?_some stands
        rw [free other.ty (List.mem_map_of_mem mem)] at fits
        cases fits

theorem minds_planFor (proper : site.Proper catalog st) :
    Keeps (src.minding catalog (some key)) st (src.planFor requests site key) fun answer next =>
      ∀ id ∈ answer, src.LeftOpen catalog st site key next.arena id := by
  simp only [planFor]
  split
  · exact .throw _
  · split
    · rename_i param stands
      exact (minds_arg proper stands).bind fun id next _ _ left => .found left
    · refine minds_bindingFor.bind fun answer mid _ le chosen => ?_
      rw [proper.own] at chosen
      have proper' := proper.mono le
      cases answer with
      | some b =>
          exact (minds_planBinding minds proper' chosen).bind fun id next _ _ left =>
            .found ((leftOpen_iff le).mp left)
      | none =>
          dsimp only
          split
          · rename_i function
            exact (minds_planFunction minds proper' chosen function).bind fun id next _ _ left =>
              .found ((leftOpen_iff le).mp left)
          · rename_i plain
            rw [Bool.not_eq_true] at plain
            split
            · rename_i strict
              exact (minds_planLazy minds proper' chosen plain strict).bind fun id next _ _ left =>
                .found ((leftOpen_iff le).mp left)
            · rename_i strict
              rw [Bool.not_eq_true] at strict
              exact (minds_planGeneric minds proper' chosen plain strict).mono
                fun answer next _ _ said id mem => (leftOpen_iff le).mp (said id mem)

end Requests

/-- Nothing is to be left open for a key that a plan is kept for. -/
theorem leftOpen_of_kept {a : Arena} {other : PlanId} (bare : site.lambdaParams = [])
    (kept : st.cache.get? key = some other) : src.LeftOpen catalog st site key a id := by
  intro outer inner around t watched leads
  rw [bare] at around
  obtain ⟨rfl, rfl⟩ := List.append_eq_nil_iff.mp around.symm
  have absent : st.cache.get? key = none := leads.free rfl
  rw [kept] at absent
  cases absent

/-- One request minds what is under construction when those that follow from it do. -/
theorem minds_requestWith {requests : Requests} (minds : src.MindsAll catalog requests) :
    src.MindsAll catalog (src.requestWith requests) := by
  intro site key st proper
  simp only [requestWith]
  refine Keeps.kept?.bind fun answer mid _ _ said => ?_
  obtain ⟨rfl, kept⟩ := said
  cases answer with
  | some id => exact .found (leftOpen_of_kept kept.1 kept.2.2)
  | none =>
      by_cases here : site.isUnwrapping key = true
      · have planned : site.planned key = some key := by rw [Site.planned, if_pos here]
        rw [planned]
        refine (minds_planFor minds proper).bind fun answer next _ _ said => ?_
        cases answer with
        | none => exact .nothing
        | some id =>
            simp only [here]
            exact .found (said id rfl)
      · have planned : site.planned key = none := by rw [Site.planned, if_neg here]
        rw [planned]
        refine (minds_mono (minds_planFor minds proper) fun _ watched => watched.of_none).bind
          fun answer next _ le said => ?_
        cases answer with
        | none => exact .nothing
        | some id =>
            have left := said id rfl
            simp only [here]
            exact (minds_remember ((leftOpen_iff le).mpr left)).bind fun _ last _ le' _ =>
              .found (left.mono le'.within)

theorem minds_requestTo (depth : Nat) : src.MindsAll catalog (src.requestTo depth) := by
  induction depth with
  | zero => exact fun _ _ _ _ => .throw _
  | succ depth ih => exact minds_requestWith ih

theorem minds_resolve : src.MindsAll catalog src.request := fun site key =>
  minds_requestTo (src.requestDepth key) site key

end Source

end Injector
