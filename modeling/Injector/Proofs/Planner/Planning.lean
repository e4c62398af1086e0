/-
# Injector.Proofs.Planner.Planning -- a regime is kept up by all of planning

One lemma for each function of the planner, in the order of their definitions.
Each takes that further requests are answered (`Answers`) and says that what it
adds serves its key; `answers_requestTo` closes the circle by induction on the
depth.  At the end every accessor that succeeds is done (`keeps_implement`), and
so are all of them together (`implementEach_keeps`).
-/
import Injector.Proofs.Planner.Parameters
import Injector.Proofs.Planner.Regime
import Injector.Generation

namespace Injector

set_option autoImplicit false

open PlanM

/-- A place of a request in the component with the given catalog. -/
structure Site.Regular (catalog : Catalog) (site : Site) : Prop where
  catalog_eq : site.catalog = catalog
  names : ∀ param ∈ site.lambdaParams, IsParamName param.name

/-- The names of the lambda parameters around. -/
def Site.params (site : Site) : List String := site.lambdaParams.map (·.name)

namespace Site

variable {catalog : Catalog} {site : Site}

theorem Regular.unwrap (regular : site.Regular catalog) (key : Key) :
    (site.unwrap key).Regular catalog := ⟨regular.catalog_eq, regular.names⟩

theorem Regular.inside {lambda : List LambdaParam} (regular : site.Regular catalog)
    (names : ∀ param ∈ lambda, IsParamName param.name) :
    (site.inside lambda).Regular catalog where
  catalog_eq := regular.catalog_eq
  names param mem := (List.mem_append.mp mem).elim (regular.names param) (names param)

theorem params_inside (lambda : List LambdaParam) :
    (site.inside lambda).params = site.params ++ lambda.map (·.name) := List.map_append

end Site

namespace Regime

variable {src : Source} {catalog : Catalog} {d : Regime src catalog} {L : List String}
  {st : PlannerState} {site : Site} {key : Key}

/-- Requests for what the component can come to are served. -/
def Answers (d : Regime src catalog) (requests : Source.Requests) : Prop :=
  ∀ site key st, site.Regular catalog → src.Requested catalog key →
    Keeps d.discipline st (requests site key) fun answer next =>
      ∀ slot, answer = some slot →
        slot.key = key ∧ d.Serves site.params next slot ∧ src.Shaped catalog next.arena key slot.id

/-! ## Calls -/

theorem keeps_bindingFor :
    Keeps d.discipline st (src.bindingFor site key) fun answer _ =>
      match answer with
      | some b => (src.choose site.catalog key).1 = .binding b
      | none => src.Unbound site.catalog key :=
  (Keeps.bindingFor fun _ => keeps_report _).mono fun _ _ _ _ said => said.1

section Serving

variable {requests : Source.Requests} (answers : d.Answers requests)
  (regular : site.Regular catalog)

include answers regular

theorem keeps_demand (requested : src.Requested catalog key) :
    Keeps d.discipline st (Source.demand requests site key) fun slot next =>
      slot.key = key ∧ d.Serves site.params next slot ∧
        src.Shaped catalog next.arena key slot.id := by
  simp only [Source.demand]
  refine (answers site key st regular requested).bind fun answer next _ _ said => ?_
  cases answer with
  | none => exact .failTraced _
  | some slot => exact .pure (said slot rfl)

theorem keeps_arguments {s : Subst} {element : Element} {params : List ParamDecl}
    {out : Table String Slot}
    (requested : ∀ param ∈ params, src.Requested catalog (src.paramKey s param))
    (serves : ∀ c ∈ out.values, d.Serves site.params st c) :
    Keeps d.discipline st (src.arguments requests site s element params out) fun args next =>
      ∀ c ∈ args.values, d.Serves site.params next c := by
  induction params generalizing out st with
  | nil => exact .pure serves
  | cons param rest ih =>
      simp only [Source.arguments]
      refine .of_inv fun inv => (keeps_report _).bind fun _ mid inv' le _ => ?_
      have first := requested param List.mem_cons_self
      have others := fun p mem => requested p (List.mem_cons_of_mem param mem)
      refine (answers site _ mid regular first).bind fun answer next _ le' said => ?_
      have kept : ∀ c ∈ out.values, d.Serves site.params next c := fun c mem =>
        ((serves c mem).mono inv le).mono inv' le'
      cases answer with
      | none =>
          dsimp only
          split
          · exact ih others kept
          · exact .failTraced _
      | some slot =>
          refine ih others fun c mem => ?_
          rcases Table.mem_values_insert mem with rfl | mem
          · exact (said c rfl).2.1
          · exact kept c mem

theorem keeps_receiverFor {s : Subst} {receiver : Option Ty}
    (requested : ∀ ty ∈ receiver, src.Requested catalog (Source.receiverKey s ty)) :
    Keeps d.discipline st (Source.receiverFor requests site s receiver) fun answer next =>
      ∀ slot ∈ answer, d.Serves site.params next slot := by
  cases receiver with
  | none => exact .pure (by simp)
  | some ty =>
      simp only [Source.receiverFor]
      refine (keeps_demand answers regular (requested ty rfl)).bind fun slot next _ _ said => ?_
      refine .pure fun other mem => ?_
      obtain rfl := Option.some.inj mem
      exact said.2.1

theorem keeps_planCtor {cls : ClassId} {index : Nat} {ty : Ty}
    (built : src.Built catalog (src.ctorCall key cls index ty)) :
    Keeps d.discipline st (src.planCtor requests site key cls index ty) fun id next =>
      d.Serves site.params next ⟨key, id⟩ := by
  refine keeps_constructing (c := src.ctorCall key cls index ty) built rfl ?_
  dsimp only
  cases found : (src.program.classAt cls).ctors[index]? with
  | none => exact .throw _
  | some ctor =>
      have requested : ∀ param ∈ ctor.params, src.Requested catalog
          (src.paramKey ((src.program.classAt cls).substFor ty) param) := by
        have := built.param_requested
        simpa only [Source.ctorCall, found, Option.map_some, Option.getD_some] using this
      refine (keeps_arguments answers regular requested
        fun _ mem => absurd mem List.not_mem_nil).bind fun args next _ _ said => ?_
      refine .mono (keeps_alloc_now key rfl rfl rfl said) ?_
      rintro id next - - ⟨serves, found⟩
      exact ⟨serves, _, found, rfl⟩

theorem keeps_planCall {b : MemberBinding} {s : Subst}
    (built : src.Built catalog (src.memberCall key b.member s false)) :
    Keeps d.discipline st (src.planCall requests site key b s) fun id next =>
      d.Serves site.params next ⟨key, id⟩ := by
  refine keeps_constructing (c := src.memberCall key b.member s false) built rfl ?_
  refine (keeps_receiverFor answers regular built.receiver_requested).bind
    fun receiver mid inv _ received => ?_
  refine (keeps_arguments answers regular built.param_requested
    fun _ mem => absurd mem List.not_mem_nil).bind fun args next _ le said => ?_
  have served : ∀ c ∈ receiver.toList ++ args.values, d.Serves site.params next c := by
    intro c mem
    rcases List.mem_append.mp mem with mem | mem
    · exact (received c (Option.mem_toList.mp mem)).mono inv le
    · exact said c mem
  refine .mono (keeps_alloc_now key rfl rfl rfl served) ?_
  rintro id next - - ⟨serves, found⟩
  exact ⟨serves, _, found, rfl⟩

theorem keeps_planKept {path : FieldPath} (requested : src.Requested catalog key) :
    Keeps d.discipline st (Source.planKept requests site key path) fun id next =>
      d.Serves site.params next ⟨key, id⟩ := by
  refine (keeps_demand answers (regular.unwrap key) requested).bind fun slot next _ _ said => ?_
  refine (keeps_alloc_now key rfl rfl rfl fun c mem => ?_).mono fun id next _ _ said => said.1
  obtain rfl := List.mem_singleton.mp mem
  exact said.2.1

theorem keeps_planMember {b : MemberBinding} {s : Subst} (requested : src.Requested catalog key)
    (built : src.Built catalog (src.memberCall key b.member s false)) :
    Keeps d.discipline st (src.planMember requests site key b s) fun id next =>
      d.Serves site.params next ⟨key, id⟩ := by
  simp only [Source.planMember]
  split
  · exact keeps_planKept answers regular requested
  · exact keeps_planCall answers regular built

theorem keeps_contributorSlots {contributors : List MemberBinding}
    (built : ∀ b ∈ contributors,
      src.Built catalog (src.memberCall (src.contributionKey b) b.member .empty false)) :
    Keeps d.discipline st (src.contributorSlots requests site contributors) fun slots next =>
      ∀ c ∈ slots, d.Serves site.params next c := by
  induction contributors generalizing st with
  | nil => exact .pure (List.forall_mem_nil _)
  | cons b rest ih =>
      simp only [Source.contributorSlots]
      refine (keeps_planCall answers regular (built b List.mem_cons_self)).bind
        fun id mid inv _ first => ?_
      refine (ih fun b mem => built b (List.mem_cons_of_mem _ mem)).bind
        fun slots next _ le others => ?_
      refine .pure fun c mem => ?_
      rcases List.mem_cons.mp mem with rfl | mem
      · exact first.mono inv le
      · exact others c mem

theorem keeps_planBinding {b : Binding} (requested : src.Requested catalog key)
    (chosen : (src.choose catalog key).1 = .binding b) :
    Keeps d.discipline st (src.planBinding requests site key b) fun id next =>
      d.Serves site.params next ⟨key, id⟩ := by
  have built : ∀ c ∈ src.bindingCalls key b, src.Built catalog c := fun c mem =>
    ⟨key, requested, Source.calls_of_binding chosen ▸ mem⟩
  cases b with
  | ctor cls index ty path scopedIn =>
      simp only [Source.planBinding]
      split
      · exact keeps_planKept answers regular requested
      · exact keeps_planCtor answers regular (built _ (List.mem_singleton_self _))
  | member b =>
      exact keeps_planMember answers regular requested (built _ (List.mem_singleton_self _))
  | container kind contributors =>
      have each := fun b (mem : b ∈ contributors) => built _ (List.mem_map_of_mem mem)
      refine (keeps_contributorSlots answers regular each).bind fun slots next _ _ said => ?_
      exact .mono (keeps_alloc_now key rfl rfl rfl said) fun id next _ _ said => said.1
  | object cls =>
      exact .mono (keeps_alloc_now key rfl rfl rfl fun _ mem => absurd mem List.not_mem_nil)
        fun id next _ _ said => said.1

/-! ## Values built later -/

/-- The result of a lambda is served among its parameters, which are named like parameters. -/
def ServesLambda (d : Regime src catalog) (site : Site) (lambda : List LambdaParam × Slot)
    (st : PlannerState) : Prop :=
  (∀ param ∈ lambda.1, IsParamName param.name) ∧
    d.Serves (site.params ++ lambda.1.map (·.name)) st lambda.2

omit answers regular in
theorem keeps_nameParams {n : Nat} {types : List Ty} :
    Keeps d.discipline st (Source.nameParams n types) fun lambda _ =>
      ∀ param ∈ lambda, IsParamName param.name := by
  obtain ⟨lambda, supply, run, fresh⟩ := Source.exists_runFrom_nameParams n types st
  refine .of_ok run fun inv => ⟨⟨inv.1.of_eq rfl rfl fun _ mem => mem, inv.2⟩,
    ⟨.refl _, rfl, d.le_refl _⟩, fun param mem => ?_⟩
  exact (fresh.new param.name (List.mem_map_of_mem mem)).2.2

theorem keeps_planFunctionCall {f : MemberId} {types : List Ty}
    (built : src.Built catalog (src.memberCall key f .empty true)) :
    Keeps d.discipline st (src.planFunctionCall requests site key f types) fun id next =>
      d.Serves site.params next ⟨key, id⟩ ∧ src.Shaped catalog next.arena key id := by
  refine keeps_constructing_lambda (c := src.memberCall key f .empty true) built rfl ?_
  refine keeps_nameParams.bind fun lambda start _ _ names => ?_
  have inside := regular.inside names
  refine (keeps_receiverFor answers inside built.receiver_requested).bind
    fun receiver mid inv _ received => ?_
  refine (keeps_arguments answers inside built.param_requested
    fun _ mem => absurd mem List.not_mem_nil).bind fun args next _ le said => ?_
  have proper : ∀ name ∈ lambda.map (·.name), IsParamName name := by
    intro name mem
    obtain ⟨param, among, rfl⟩ := List.mem_map.mp mem
    exact names param among
  rw [Site.params_inside] at received said
  refine .mono (keeps_alloc (L := site.params ++ lambda.map (·.name)) key proper rfl rfl
    fun c mem => ?_) fun id next _ _ said => ⟨said.1, _, said.2.1, rfl, said.2.2⟩
  rcases List.mem_append.mp mem with mem | mem
  · exact (received c (Option.mem_toList.mp mem)).mono inv le
  · exact said c mem

theorem keeps_planFunction (requested : src.Requested catalog key)
    (unbound : src.Unbound catalog key) (function : key.ty.isFunction = true) :
    Keeps d.discipline st (src.planFunction requests site key) fun id next =>
      d.Serves site.params next ⟨key, id⟩ ∧ src.Shaped catalog next.arena key id := by
  simp only [Source.planFunction]
  split
  · exact .failTraced _
  · rename_i result last
    split
    · rename_i f aliased
      refine keeps_planFunctionCall answers regular ⟨key, requested, ?_⟩
      rw [Source.calls_of_unbound unbound]
      simp [Source.unboundCalls, function, aliased]
    · rename_i aliased
      have inner : src.Requested catalog (.of result key.qualifier) := by
        refine .inner requested unbound ?_
        simp [Source.innerKey?, function, aliased, last]
      refine .bind (keeps_deferred (?_ : Keeps d.discipline _ _ (d.ServesLambda site))) ?_
      · refine keeps_nameParams.bind fun lambda mid _ _ names => ?_
        refine (keeps_demand answers (regular.inside names) inner).bind fun slot next _ _ said => ?_
        rw [Site.params_inside] at said
        exact .pure ⟨names, said.2.1⟩
      · rintro ⟨lambda, slot⟩ next - - ⟨names, serves⟩
        refine .mono (keeps_alloc_later key rfl ?_ fun c mem => ?_) fun id next _ _ said =>
          ⟨said.1, fun _ _ p there => ?_⟩
        · intro name mem
          obtain ⟨param, among, rfl⟩ := List.mem_map.mp mem
          exact names param among
        · obtain rfl := List.mem_singleton.mp mem
          exact serves
        · cases said.2.symm.trans there
          exact .inl rfl

theorem keeps_planLazy (requested : src.Requested catalog key) (unbound : src.Unbound catalog key)
    (plain : key.ty.isFunction = false) (lazy' : key.ty.isLazy = true) :
    Keeps d.discipline st (Source.planLazy requests site key) fun id next =>
      d.Serves site.params next ⟨key, id⟩ := by
  simp only [Source.planLazy]
  split
  · exact .failTraced _
  · rename_i inner first
    have requested : src.Requested catalog (.of inner key.qualifier) := by
      refine .inner requested unbound ?_
      simp [Source.innerKey?, plain, lazy', first]
    refine (keeps_deferred (keeps_demand answers regular requested)).bind
      fun slot next _ _ said => ?_
    refine .mono (keeps_alloc_later key rfl (List.forall_mem_nil _)
      fun c mem => ?_) fun id next _ _ said => said.1
    obtain rfl := List.mem_singleton.mp mem
    simpa [Plan.lambdaParams] using said.2.1

/-! ## Requests -/

theorem keeps_planGeneric (requested : src.Requested catalog key)
    (unbound : src.Unbound catalog key) (plain : key.ty.isFunction = false)
    (strict : key.ty.isLazy = false) :
    Keeps d.discipline st (src.planGeneric requests site key) fun answer next =>
      ∀ id, answer = some id → d.Serves site.params next ⟨key, id⟩ := by
  simp only [Source.planGeneric]
  split
  · exact .pure (by simp)
  · rename_i b s fits
    have built : src.Built catalog (src.memberCall key b.member s false) := by
      refine ⟨key, requested, ?_⟩
      rw [Source.calls_of_unbound unbound]
      rw [regular.catalog_eq] at fits
      simp [Source.unboundCalls, plain, strict, fits]
    refine (keeps_planMember answers regular requested built).bind fun id next _ _ said => ?_
    refine .pure fun other mem => ?_
    obtain rfl := Option.some.inj mem
    exact said
  · exact .failTraced _

theorem keeps_planFor (requested : src.Requested catalog key) :
    Keeps d.discipline st (src.planFor requests site key) fun answer next =>
      ∀ id, answer = some id →
        d.Serves site.params next ⟨key, id⟩ ∧ src.Shaped catalog next.arena key id := by
  simp only [Source.planFor]
  split
  · exact .throw _
  · split
    · rename_i param found
      have mem : param ∈ site.lambdaParams := by
        simp only [Site.findParam] at found
        split at found
        · cases found
        · exact List.mem_reverse.mp (List.mem_of_find?_eq_some found)
      refine (keeps_alloc_arg key (regular.names param mem) (List.mem_map_of_mem mem)).bind
        fun id next _ _ said => .pure fun other same => ?_
      obtain rfl := Option.some.inj same
      refine ⟨said.1, fun _ _ p there => .inr ?_⟩
      cases said.2.symm.trans there
      rfl
    · refine keeps_bindingFor.bind fun answer mid _ _ chosen => ?_
      rw [regular.catalog_eq] at chosen
      cases answer with
      | some b =>
          refine (keeps_planBinding answers regular requested chosen).bind
            fun id next _ _ said => ?_
          refine .pure fun other same => ?_
          obtain rfl := Option.some.inj same
          exact ⟨said, fun unbound => absurd (chosen.symm.trans unbound) (by simp)⟩
      | none =>
          dsimp only
          split
          · rename_i function
            refine (keeps_planFunction answers regular requested chosen function).bind
              fun id next _ _ said => .pure fun other same => ?_
            obtain rfl := Option.some.inj same
            exact said
          · rename_i plain
            rw [Bool.not_eq_true] at plain
            have shaped : ∀ (a : Arena) (id : PlanId), src.Shaped catalog a key id :=
              fun _ _ _ function => absurd (plain.symm.trans function) (by simp)
            split
            · rename_i lazy'
              refine (keeps_planLazy answers regular requested chosen plain lazy').bind
                fun id next _ _ said => .pure fun other same => ?_
              obtain rfl := Option.some.inj same
              exact ⟨said, shaped _ _⟩
            · rename_i strict
              rw [Bool.not_eq_true] at strict
              exact (keeps_planGeneric answers regular requested chosen plain strict).mono
                fun answer next _ _ said id same => ⟨said id same, shaped _ _⟩

end Serving

theorem keeps_kept? :
    Keeps d.discipline st (Source.kept? site key) fun answer next => ∀ id, answer = some id →
      d.Serves site.params next ⟨key, id⟩ ∧ src.Shaped catalog next.arena key id := by
  refine Keeps.kept?.mono ?_
  rintro _ next inv - said id rfl
  obtain ⟨rfl, -, -, found⟩ := said
  obtain ⟨known, closed, shaped⟩ := inv.1.kept found
  exact ⟨⟨.of_isClosed inv.1.sound known closed, d.served_closed inv.1.sound closed⟩, shaped⟩

/-- One request is answered when those that follow from it are. -/
theorem answers_requestWith {requests : Source.Requests} (answers : d.Answers requests) :
    d.Answers (src.requestWith requests) := by
  intro site key st regular requested
  simp only [Source.requestWith]
  refine keeps_kept?.bind fun answer mid _ _ kept => ?_
  cases answer with
  | some id =>
      refine .pure fun slot same => ?_
      obtain rfl := Option.some.inj same
      exact ⟨rfl, kept id rfl⟩
  | none =>
      refine (keeps_planFor answers regular requested).bind fun answer next inv _ said => ?_
      cases answer with
      | none => exact .pure (by simp)
      | some id =>
          obtain ⟨serves, shaped⟩ := said id rfl
          have slot (last : PlannerState) (le : d.discipline.le next last) :
              Keeps d.discipline last (pure (some ⟨key, id⟩)) fun answer next =>
                ∀ slot, answer = some slot → slot.key = key ∧ d.Serves site.params next slot ∧
                  src.Shaped catalog next.arena key slot.id := by
            refine .pure fun slot same => ?_
            obtain rfl := Option.some.inj same
            exact ⟨rfl, serves.mono inv le, shaped.mono le.1 serves.1.known⟩
          dsimp only
          split
          · exact slot next (d.discipline.refl next)
          · exact (keeps_remember serves.1.known shaped).bind fun _ last _ le _ => slot last le

theorem answers_requestTo (depth : Nat) : d.Answers (src.requestTo depth) := by
  induction depth with
  | zero => exact fun _ _ _ _ _ => .throw _
  | succ depth ih => exact answers_requestWith ih

theorem answers_request : d.Answers src.request := fun site key st =>
  answers_requestTo (src.requestDepth key) site key st

/-! ## Accessors -/

/-- An accessor that succeeds is done. -/
theorem keeps_implement {m : MemberId} (regular : site.Regular catalog)
    (accessor : m ∈ catalog.own.accessors) (outside : site.lambdaParams = []) :
    Keeps d.coarse st (src.implement site m) fun entry next =>
      entry.result.id < next.arena.size ∧ d.done next.arena entry.result.id := by
  have requested : src.Requested catalog (src.accessorKey site.catalog m) := by
    rw [regular.catalog_eq]
    exact .accessor accessor
  have params : site.params = [] := by simp [Site.params, outside]
  simp only [Source.implement]
  have cleared : Keeps d.coarse st Source.startAfresh fun _ next => next.stack = {} :=
    .of_ok rfl fun inv => ⟨⟨inv.1.of_eq rfl rfl (List.forall_mem_nil _), inv.2⟩, .refl _, rfl⟩
  have reported (findings : List Finding) (fresh : PlannerState) (empty : fresh.stack = {}) :
      Keeps d.coarse fresh (report findings) fun _ next => next.stack = {} :=
    .of_ok (runFrom_report _ fresh) fun inv =>
      ⟨⟨inv.1.of_eq rfl rfl fun _ mem => mem, inv.2⟩, .refl _, empty⟩
  refine cleared.bind fun _ fresh _ _ empty => ?_
  refine (reported _ fresh empty).bind fun _ start _ _ empty => ?_
  have planned : Keeps d.discipline (start.push (.building (.member m)))
      (do return (← src.resolve site (src.accessorKey site.catalog m)).id) fun id next =>
        d.Serves [] next ⟨src.accessorKey site.catalog m, id⟩ ∧
          src.Shaped catalog next.arena (src.accessorKey site.catalog m) id := by
    refine (keeps_demand answers_request regular requested).bind fun slot next _ _ said => .pure ?_
    obtain ⟨same, serves, shaped⟩ := said
    rw [params] at serves
    exact ⟨same ▸ serves, shaped⟩
  refine (keeps_accessor accessor empty planned).bind fun id after _ _ said => ?_
  refine Keeps.get.bind fun _ _ _ _ same => ?_
  obtain ⟨rfl, rfl⟩ := same
  split
  · exact .throw _
  · rename_i closed
    refine .pure (said ?_)
    simpa [BuildStack.unclosed?] using closed

/-- The outcome for `m` in front of what came of the accessors behind it. -/
def prepend (m : MemberId) (more : Source.Implemented) : Except PlanError Entry → Source.Implemented
  | .ok entry => { more with entries := entry :: more.entries }
  | .error e => { more with failures := (m, e) :: more.failures }

theorem run_implementEach_cons {m : MemberId} {rest : List MemberId} {mid last : PlannerState}
    {result : Except PlanError Entry} {more : Source.Implemented}
    (first : (src.implement site m).runFrom st = (result, mid))
    (others : (src.implementEach site rest).run mid = (more, last)) :
    (src.implementEach site (m :: rest)).run st = (prepend m more result, last) := by
  have run : (src.implement site m).run.run st = (result, mid) := first
  rw [Source.implementEach, StateT.run_bind, run]
  show StateT.run (src.implementEach site rest >>= _) mid = _
  rw [StateT.run_bind, others]
  cases result <;> rfl

/-- What each accessor keeps, and what its entry has from then on, holds after all of them. -/
theorem implementEach_induction (inv : PlannerState → Prop) (holds : Arena → Entry → Prop)
    {accessors : List MemberId}
    (mono : ∀ st, inv st → ∀ b, st.arena.Within b → ∀ e, holds st.arena e → holds b e)
    (step : ∀ m ∈ accessors, ∀ st, inv st → inv ((src.implement site m).runFrom st).2 ∧
      st.arena.Within ((src.implement site m).runFrom st).2.arena ∧
      ∀ e, ((src.implement site m).runFrom st).1 = .ok e →
        holds ((src.implement site m).runFrom st).2.arena e)
    (start : inv st) :
    inv ((src.implementEach site accessors).run st).2 ∧
      st.arena.Within ((src.implementEach site accessors).run st).2.arena ∧
      ∀ e ∈ ((src.implementEach site accessors).run st).1.entries,
        holds ((src.implementEach site accessors).run st).2.arena e := by
  induction accessors generalizing st with
  | nil => exact ⟨start, .refl _, List.forall_mem_nil _⟩
  | cons m rest ih =>
      have one := step m List.mem_cons_self st start
      cases first : (src.implement site m).runFrom st with
      | mk result mid =>
          rw [first] at one
          obtain ⟨inv', within, finished⟩ := one
          have all := ih (fun m mem => step m (List.mem_cons_of_mem _ mem)) inv'
          cases others : (src.implementEach site rest).run mid with
          | mk more last =>
              rw [others] at all
              rw [run_implementEach_cons first others]
              obtain ⟨inv'', within', done⟩ := all
              refine ⟨inv'', within.trans within', fun e mem => ?_⟩
              cases result with
              | error failure => exact done e mem
              | ok entry =>
                  rcases List.mem_cons.mp mem with rfl | mem
                  · exact mono mid inv' _ within' e (finished e rfl)
                  · exact done e mem

/-- All accessors that succeed are done. -/
theorem implementEach_keeps (d : Regime src catalog) {accessors : List MemberId}
    (regular : site.Regular catalog) (outside : site.lambdaParams = [])
    (own : ∀ m ∈ accessors, m ∈ catalog.own.accessors) (inv : d.discipline.inv st) :
    d.discipline.inv ((src.implementEach site accessors).run st).2 ∧
      st.arena.Within ((src.implementEach site accessors).run st).2.arena ∧
      ∀ e ∈ ((src.implementEach site accessors).run st).1.entries,
        e.result.id < ((src.implementEach site accessors).run st).2.arena.size ∧
          d.done ((src.implementEach site accessors).run st).2.arena e.result.id := by
  refine implementEach_induction d.discipline.inv
    (fun a e => e.result.id < a.size ∧ d.done a e.result.id) ?_ (fun m mem st => ?_) inv
  · rintro mid inv b within e ⟨known, done⟩
    exact ⟨Nat.lt_of_lt_of_le known within.size_le, d.done_mono inv.1.sound within known done⟩
  · exact keeps_implement (d := d) regular (own m mem) outside

end Regime

/-- The state in which an accessor is begun. -/
def PlannerState.afresh (st : PlannerState) : PlannerState := { st with stack := {}, names := {} }

namespace Discipline

variable {src : Source} {d : Discipline} {st : PlannerState} {site : Site} {m : MemberId}
  {made : PlanId → PlannerState → Prop}

/-- What is done for an accessor once it is begun. -/
theorem accessor (findings : List Finding) (entry : PlanId → Entry)
    (result : ∀ id, (entry id).result = ⟨src.accessorKey site.catalog m, id⟩)
    (reported : ∀ findings, Keeps d st (report findings) fun _ _ => True)
    (built : ∀ start, d.le st start →
      Keeps d start
        (constructing (src.accessorKey site.catalog m) (.member m) do
          return (← src.resolve site (src.accessorKey site.catalog m)).id) made) :
    Keeps d st
      (do
        report findings
        let id ← constructing (src.accessorKey site.catalog m) (.member m) do
          return (← src.resolve site (src.accessorKey site.catalog m)).id
        match (← get).stack.unclosed? with
        | some trace => throw (.unclosed m trace)
        | none => return entry id)
      fun answer next => answer.result.key = src.accessorKey site.catalog m ∧
        made answer.result.id next := by
  refine (reported findings).bind fun _ start _ le _ => ?_
  refine (built start le).bind fun id next _ _ said => ?_
  refine Keeps.get.bind fun _ last _ _ same => ?_
  obtain ⟨rfl, rfl⟩ := same
  split
  · exact .throw _
  · refine .pure ?_
    rw [result]
    exact ⟨rfl, said⟩

/-- Implementing an accessor keeps to what building its value keeps to. -/
theorem implement (reported : ∀ findings, Keeps d st.afresh (report findings) fun _ _ => True)
    (built : ∀ start, d.le st.afresh start →
      Keeps d start
        (constructing (src.accessorKey site.catalog m) (.member m) do
          return (← src.resolve site (src.accessorKey site.catalog m)).id) made)
    (inv : d.inv st.afresh) :
    d.inv ((src.implement site m).runFrom st).2 ∧
      d.le st.afresh ((src.implement site m).runFrom st).2 ∧
      ∀ entry, ((src.implement site m).runFrom st).1 = .ok entry →
        entry.result.key = src.accessorKey site.catalog m ∧
          made entry.result.id ((src.implement site m).runFrom st).2 :=
  accessor _ _ (fun _ => rfl) reported built inv

end Discipline

/-! ## All accessors of a component -/

namespace Source

variable (src : Source) (className : String) (catalog : Catalog) (log : Log)

/-- What comes of planning the accessors of a component, in the class `className`. -/
def planning : Implemented × PlannerState :=
  (src.implementAll { className, catalog }).run { log }

/-- The plans of the accessors that succeed. -/
def planned : Forest where
  arena := (src.planning className catalog log).2.arena
  entries := (src.planning className catalog log).1.entries

variable {src catalog}

/-- What a regime asks for holds of all that is planned. -/
theorem planned_keeps (d : Regime src catalog) (className : String) (log : Log) :
    src.Orderly catalog (src.planned className catalog log).arena ∧
      d.inv (src.planned className catalog log).arena ∧
      ∀ e ∈ (src.planned className catalog log).entries,
        e.result.id < (src.planned className catalog log).arena.size ∧
          d.done (src.planned className catalog log).arena e.result.id := by
  have empty : src.Sane catalog { log } := Sane.empty.of_eq rfl rfl fun _ mem => mem
  have regular : Site.Regular catalog { className, catalog } := ⟨rfl, List.forall_mem_nil _⟩
  have start : d.discipline.inv { log } := ⟨empty, d.inv_empty⟩
  obtain ⟨inv, -, done⟩ := d.implementEach_keeps regular rfl (fun _ mem => mem) start
  exact ⟨inv.1.toOrderly, inv.2, done⟩

variable (src catalog) in
/-- The regime that asks for nothing, under which plans are kept in order. -/
def order : Regime src catalog where
  inv _ := True
  le _ _ := True
  served _ _ _ _ := True
  done _ _ := True
  le_refl _ := trivial
  le_trans _ _ _ := trivial
  le_of_push _ := trivial
  le_await _ _ _ := trivial
  le_settle _ _ _ _ := trivial
  inv_empty := trivial
  inv_add _ _ _ _ := trivial
  served_mono _ _ _ _ _ _ := trivial
  served_closed _ _ := trivial
  served_arg _ _ _ := trivial
  served_variable _ _ _ _ _ := trivial
  served_now _ _ _ _ _ _ := trivial
  served_later _ _ _ _ := trivial
  served_lambda _ _ _ _ _ _ := trivial
  served_leave _ _ _ _ _ := trivial
  served_claim _ _ _ _ _ _ _ _ _ _ := ⟨trivial, trivial⟩
  done_mono _ _ _ _ := trivial
  done_leave _ _ := trivial
  done_claim _ _ _ _ _ _ _ _ _ _ _ _ := ⟨trivial, fun _ => trivial⟩

variable (src catalog) in
theorem planned_orderly (className : String) (log : Log) :
    src.Orderly catalog (src.planned className catalog log).arena :=
  (planned_keeps (order src catalog) className log).1

end Source

/-! ## Small components -/

/-- An injectable class with one constructor. -/
def ClassDecl.injectable (name : String) (params : List (String × Ty)) : ClassDecl where
  name := name
  annotations := [.ofDecl .inject]
  ctors := [{ params := params.map fun (name, ty) => { name, ty } }]

/-- A component with the given members. -/
def ClassDecl.abstractComponent (members : List MemberId) : ClassDecl where
  name := "C"
  isAbstract := true
  annotations := [.ofDecl .component]
  ctors := [{}]
  members := members

/-- An accessor of `owner`. -/
def MemberDecl.accessor (owner : ClassId) (name : String) (ty : Ty) : MemberDecl where
  owner := some owner
  name := name
  kind := .property
  isAbstract := true
  returnType := ty

/-- A contribution of `owner` to a set. -/
def MemberDecl.contribution (owner : ClassId) (name : String) (params : List (String × Ty))
    (ty : Ty) : MemberDecl where
  owner := some owner
  name := name
  annotations := [.ofDecl .provides, .ofDecl .intoSet]
  params := params.map fun (name, ty) => { name, ty }
  returnType := ty

/-- What is planned for a component on its own. -/
def Source.plannedAlone (src : Source) (cls : ClassId) : Forest :=
  src.planned (implementationName (src.program.classAt cls).name) (src.collect cls {}).1 {}

/-- `A` needs a function that makes a `B`, and a `B` needs an `A`. -/
def deferredPair : Source where
  program :=
    { classes := [.injectable "A" [("next", .function [] { name := "B" })],
        .injectable "B" [("a", { name := "A" })], .abstractComponent [.ofNat 0]]
      members := [.accessor (.ofNat 2) "a" { name := "A" }] }
  options := {}

/-- All that is asked for in `deferredPair`. -/
def deferredPairKeys : List Key :=
  [.of { name := "A" }, .of (.function [] { name := "B" }), .of { name := "B" }]

theorem deferredPair_covers :
    deferredPair.Covers (deferredPair.collect (.ofNat 2) {}).1 deferredPairKeys := by
  decide +kernel

theorem deferredPair_planned : ∃ e, e ∈ (deferredPair.plannedAlone (.ofNat 2)).entries :=
  List.exists_mem_of_ne_nil _ (by decide +kernel)

end Injector
