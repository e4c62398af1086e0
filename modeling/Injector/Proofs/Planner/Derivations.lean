/-
# Injector.Proofs.Planner.Derivations -- where a plan comes from

`Derived` tells what a plan in the arena was made for: a request at some site, a call for
it, or the step that the call takes.  It has one case for each way in which planning comes
to an answer, and the case of a kept plan leads back to the request that the plan was made
for.  Everything below a derived plan is derived (`Derived.child`), so whatever is to be
shown of the plans below an accessor can be shown by induction on a derivation.

A request is `Posed` when it follows from the accessors.  Two things are said of its site:
a key that is being built for its scope there is just asked for, or a call of it is under
construction; and each lambda parameter around comes from a function that the request
follows from.
-/
import Injector.Proofs.Planner.Recurrence
import Injector.Proofs.Planner.Typings

namespace Injector

set_option autoImplicit false

open LambdaParam (names types)
open Relation (ReflTransGen)

namespace Source

/-! ## Requests -/

variable (src : Source) (catalog : Catalog)

/-- The parameter is one of a function that the request for the key follows from. -/
def Introduced (param : LambdaParam) (key : Key) : Prop :=
  ∃ fn first, src.Requested catalog fn ∧ fn.ty.isFunction = true ∧
    param.ty ∈ fn.ty.dealias.args.dropLast ∧ src.Next catalog fn first ∧
    ReflTransGen (src.Next catalog) first key

/-- The key is asked for at the site with these entries on the stack, directly for its scope
if `bare`. -/
structure Posed (bare : Bool) (site : Site) (s : List BuildEntry) (key : Key) : Prop where
  own : site.catalog = catalog
  requested : src.Requested catalog key
  direct : bare = true → site.unwrapping = some key ∧ src.calls catalog key ≠ []
  nested : bare = false → ∀ k, site.unwrapping = some k →
    ∃ c ∈ src.calls catalog k, .building c.element ∈ s
  introduced : ∀ param ∈ site.lambdaParams, src.Introduced catalog param key

variable {src catalog} {bare : Bool} {site : Site} {s : List BuildEntry} {key : Key} {c : Call}

theorem Introduced.next {param : LambdaParam} {next : Key}
    (introduced : src.Introduced catalog param key) (step : src.Next catalog key next) :
    src.Introduced catalog param next := by
  obtain ⟨fn, first, requested, function, mem, enters, chain⟩ := introduced
  exact ⟨fn, first, requested, function, mem, enters, chain.tail step⟩

namespace Posed

theorem accessor {m : MemberId} (mem : m ∈ catalog.own.accessors) (own : site.catalog = catalog)
    (params : site.lambdaParams = []) (outside : site.unwrapping = none) (s : List BuildEntry) :
    src.Posed catalog false site s (src.accessorKey catalog m) where
  own := own
  requested := .accessor mem
  direct := by simp
  nested _ k here := by simp [outside] at here
  introduced := by simp [params]

theorem unwrap (posed : src.Posed catalog bare site s key)
    (built : src.calls catalog key ≠ []) : src.Posed catalog true (site.unwrap key) s key where
  own := posed.own
  requested := posed.requested
  direct _ := ⟨rfl, built⟩
  nested := by simp
  introduced := posed.introduced

/-- Where a call is on the stack, it answers for the key that is being built for its scope. -/
theorem within_call (posed : src.Posed catalog bare site s key) (mem : c ∈ src.calls catalog key)
    {t : List BuildEntry} (below : ∀ entry ∈ s, entry ∈ t) (here : .building c.element ∈ t) :
    ∀ k, site.unwrapping = some k → ∃ d ∈ src.calls catalog k, .building d.element ∈ t := by
  intro k unwrapping
  cases bare with
  | true =>
      obtain rfl := Option.some.inj ((posed.direct rfl).1.symm.trans unwrapping)
      exact ⟨c, mem, here⟩
  | false =>
      obtain ⟨d, mem, building⟩ := posed.nested rfl k unwrapping
      exact ⟨d, mem, below _ building⟩

theorem asked (posed : src.Posed catalog bare site s key) (mem : c ∈ src.calls catalog key)
    {asked : Key} (asks : asked ∈ src.asks c) :
    src.Posed catalog false site (.building c.element :: s) asked where
  own := posed.own
  requested := posed.requested.step (.inl ⟨c, mem, asks⟩)
  direct := by simp
  nested _ := posed.within_call mem (fun _ => List.mem_cons_of_mem _) List.mem_cons_self
  introduced param among := (posed.introduced param among).next (.inl ⟨c, mem, asks⟩)

/-- The parameters of a lambda for the key are those of its type. -/
theorem introduced_inside {lambda : List LambdaParam} (posed : src.Posed catalog bare site s key)
    (function : lambda ≠ [] → key.ty.isFunction = true)
    (params : types lambda <+: key.ty.dealias.args.dropLast) {next : Key}
    (step : src.Next catalog key next) :
    ∀ param ∈ (site.inside lambda).lambdaParams, src.Introduced catalog param next := by
  intro param mem
  rcases List.mem_append.mp mem with mem | mem
  · exact (posed.introduced param mem).next step
  · exact ⟨key, next, posed.requested, function (List.ne_nil_of_mem mem),
      params.subset (List.mem_map_of_mem mem), step, .refl⟩

theorem lambda {lambda : List LambdaParam} (posed : src.Posed catalog bare site s key)
    (mem : c ∈ src.calls catalog key) (later : c.inLambda = true)
    (params : types lambda <+: key.ty.dealias.args.dropLast) {asked : Key}
    (asks : asked ∈ src.asks c) :
    src.Posed catalog false (site.inside lambda) (.building c.element :: .deferred :: s) asked where
  own := posed.own
  requested := posed.requested.step (.inl ⟨c, mem, asks⟩)
  direct := by simp
  nested _ := posed.within_call mem
    (fun _ among => List.mem_cons_of_mem _ (List.mem_cons_of_mem _ among)) List.mem_cons_self
  introduced := posed.introduced_inside (fun _ => (unbound_of_inLambda mem later).2.2) params
    (.inl ⟨c, mem, asks⟩)

/-- Nothing is called for a lambda or a lazy value, so it is not built for its scope. -/
theorem inner {lambda : List LambdaParam} (posed : src.Posed catalog bare site s key)
    (unbound : src.Unbound catalog key) {inner : Key} (found : src.innerKey? key = some inner)
    (function : lambda ≠ [] → key.ty.isFunction = true)
    (params : types lambda <+: key.ty.dealias.args.dropLast) :
    src.Posed catalog false (site.inside lambda) (.deferred :: s) inner where
  own := posed.own
  requested := posed.requested.step (.inr ⟨unbound, found⟩)
  direct := by simp
  nested := by
    intro _ k unwrapping
    cases bare with
    | true => exact absurd (calls_of_innerKey? unbound found) (posed.direct rfl).2
    | false =>
        obtain ⟨d, mem, building⟩ := posed.nested rfl k unwrapping
        exact ⟨d, mem, List.mem_cons_of_mem _ building⟩
  introduced := posed.introduced_inside function params (.inr ⟨unbound, found⟩)

end Posed

end Source

/-- The plan calls a constructor or a member for a value that is needed now. -/
def Plan.isCall : Plan → Bool
  | .construct .. | .provide .. => true
  | _ => false

/-- The plan asks for the values that it needs. -/
def Plan.asksFor : Plan → Bool
  | .construct .. | .provide .. | .namedFunction .. | .function .. | .lazy .. => true
  | _ => false

/-- The plan `id` calls something, or declares a variable for what a plan calls. -/
def Arena.Calls (a : Arena) (id : PlanId) (p : Plan) : Prop :=
  p.isCall = true ∧ (a.plan? id = some p ∨
    ∃ name result, a.plan? id = some (.lateInit name result) ∧ a.plan? result.id = some p)

/-- The receiver and the arguments of a call. -/
def Plan.inputs : Plan → Option Slot × Table String Slot
  | .construct _ params _ => (none, params)
  | .provide _ _ _ receiver _ params | .namedFunction _ _ _ receiver params => (receiver, params)
  | _ => (none, {})

/-- The plans above a slot, but for a variable that is declared just around it. -/
def Plan.around : List Plan → List Plan
  | .lateInit _ _ :: above => above
  | above => above

/-! ## Derivations -/

/-- What a plan is made for. -/
inductive Task where
  /-- A request, directly for its scope if `bare`. -/
  | value (bare : Bool) (key : Key)
  /-- A call, which may close a cycle. -/
  | call (c : Call)
  /-- The step that a call takes. -/
  | step (c : Call)

def Task.key : Task → Key
  | value _ key => key
  | call c | step c => c.key

namespace Source

variable (src : Source) (catalog : Catalog)

/-- The plan is a step that the call takes at the site, inside the lambda parameters. -/
inductive Makes (site : Site) : Call → List LambdaParam → Plan → Prop where
  | ctor {key : Key} {cls : ClassId} {index : Nat} {ty : Ty} {args : Table String Slot}
      {named : Bool} : Makes site (src.ctorCall key cls index ty) [] (.construct ty args named)
  | member {key : Key} {m : MemberId} {subst : Subst} {path : FieldPath} {receiver : Option Slot}
      {args : Table String Slot} : Makes site (src.memberCall key m subst false) []
        (.provide site.className (src.program.memberAt m).name path receiver
          ((src.program.memberAt m).kind == .property) args)
  | lambda {key : Key} {m : MemberId} {lambda : List LambdaParam} {receiver : Option Slot}
      {args : Table String Slot} : Makes site (src.memberCall key m .empty true) lambda
        (.namedFunction (src.program.memberAt m).package (src.program.memberAt m).name
          (names lambda) receiver args)

/-- The plan is given what the call asks for, each under its key. -/
structure Passes (c : Call) (p : Plan) : Prop where
  asked : ∀ child ∈ p.children, child.key ∈ src.asks c
  receiver : p.inputs.1.map (·.key) = c.receiver.map (receiverKey c.subst)
  arguments : (c.params.map (·.name)).Nodup → src.Supplies c.subst c.params p.inputs.2

/-- The plan `id` is made for the task at the site, with these entries on the stack. -/
inductive Derived (a : Arena) : Site → List BuildEntry → Task → PlanId → Prop where
  /-- A kept plan, where no lambda parameter is around. -/
  | again {site other : Site} {s t : List BuildEntry} {key : Key} {id : PlanId} :
      src.Posed catalog false site s key → site.lambdaParams = [] → a.isClosed id = true →
      Derived a other t (.value false key) id → Derived a site s (.value false key) id
  | param {bare : Bool} {site : Site} {s : List BuildEntry} {key : Key} {id : PlanId}
      {param : LambdaParam} :
      src.Posed catalog bare site s key → site.findParam src.program key = some param →
      a.plan? id = some (.arg param.name) → Derived a site s (.value bare key) id
  | keep {bare : Bool} {site : Site} {s : List BuildEntry} {key : Key} {id result : PlanId}
      {path : FieldPath} :
      src.Posed catalog bare site s key → site.findParam src.program key = none →
      src.keeper? catalog key = some path → a.plan? id = some (.keep key.text path ⟨key, result⟩) →
      Derived a (site.unwrap key) s (.value true key) result → Derived a site s (.value bare key) id
  | call {bare : Bool} {site : Site} {s : List BuildEntry} {key : Key} {id : PlanId} {c : Call} :
      src.Posed catalog bare site s key → src.Answers catalog key c → c.inLambda = false →
      (src.keeper? catalog key = none ∨ site.unwrapping = some key) →
      Derived a site s (.call c) id → Derived a site s (.value bare key) id
  | container {bare : Bool} {site : Site} {s : List BuildEntry} {key : Key} {id : PlanId}
      {kind : ContainerKind} {rows : List (MemberBinding × Slot)} :
      src.Posed catalog bare site s key →
      (src.choose catalog key).1 = .binding (.container kind (rows.map (·.1))) →
      a.plan? id = some (.container kind (rows.map (·.2))) →
      (∀ row ∈ rows, row.2.key = src.contributionKey row.1) →
      (∀ row ∈ rows, Derived a site s
        (.call (src.memberCall row.2.key row.1.member .empty false)) row.2.id) →
      Derived a site s (.value bare key) id
  | object {bare : Bool} {site : Site} {s : List BuildEntry} {key : Key} {id : PlanId} {ty : Ty} :
      src.Posed catalog bare site s key → a.plan? id = some (.object ty) →
      Derived a site s (.value bare key) id
  | function {bare : Bool} {site : Site} {s : List BuildEntry} {key inner : Key}
      {id result : PlanId} {lambda : List LambdaParam} :
      src.Posed catalog bare site s key → src.Unbound catalog key →
      src.innerKey? key = some inner →
      a.plan? id = some (.function (names lambda) ⟨inner, result⟩) →
      Derived a (site.inside lambda) (.deferred :: s) (.value false inner) result →
      Derived a site s (.value bare key) id
  | functionCall {bare : Bool} {site : Site} {s : List BuildEntry} {key : Key} {id : PlanId}
      {c : Call} :
      src.Posed catalog bare site s key → src.Answers catalog key c → c.inLambda = true →
      Derived a site (.deferred :: s) (.call c) id →
      Derived a site s (.value bare key) id
  | lazy {bare : Bool} {site : Site} {s : List BuildEntry} {key inner : Key}
      {id result : PlanId} :
      src.Posed catalog bare site s key → src.Unbound catalog key →
      src.innerKey? key = some inner → a.plan? id = some (.lazy ⟨inner, result⟩) →
      Derived a site (.deferred :: s) (.value false inner) result →
      Derived a site s (.value bare key) id
  /-- The call is under construction. -/
  | variable {site : Site} {s : List BuildEntry} {id : PlanId} {c : Call} {name : String} :
      .building c.element ∈ s → a.plan? id = some (.localVar name) →
      Derived a site s (.call c) id
  | made {site : Site} {s : List BuildEntry} {id : PlanId} {c : Call} :
      .building c.element ∉ s → Derived a site (.building c.element :: s) (.step c) id →
      Derived a site s (.call c) id
  /-- A cycle is closed around the call. -/
  | late {site : Site} {s : List BuildEntry} {id result : PlanId} {c : Call} {name : String} :
      .building c.element ∉ s → a.plan? id = some (.lateInit name ⟨c.key, result⟩) →
      Derived a site (.building c.element :: s) (.step c) result → Derived a site s (.call c) id
  | step {site : Site} {s : List BuildEntry} {id : PlanId} {c : Call} {lambda : List LambdaParam}
      {p : Plan} :
      src.Makes site c lambda p → a.plan? id = some p → src.Passes c p →
      (∀ child ∈ p.children,
        Derived a (site.inside lambda) s (.value false child.key) child.id) →
      Derived a site s (.step c) id

variable {src catalog} {a b : Arena} {site : Site} {s : List BuildEntry} {task : Task}
  {id : PlanId}

theorem Derived.lt_size (derived : src.Derived catalog a site s task id) : id < a.size := by
  induction derived with
  | again | call | functionCall | made => assumption
  | param _ _ found | keep _ _ _ found | container _ _ found | object _ found
  | function _ _ _ found | lazy _ _ _ found | «variable» _ found | late _ found
  | step _ found => exact Arena.lt_size_of_plan? found

/-- More plans change nothing. -/
theorem Derived.mono (derived : src.Derived catalog a site s task id) (within : a.Within b) :
    src.Derived catalog b site s task id := by
  induction derived with
  | again posed params closed derived ih =>
      exact .again posed params ((within.isClosed_eq derived.lt_size).trans closed) ih
  | param posed found there => exact .param posed found (within.plan?_of_some there)
  | keep posed absent kept found _ ih =>
      exact .keep posed absent kept (within.plan?_of_some found) ih
  | call posed answers now kept _ ih => exact .call posed answers now kept ih
  | container posed chosen found keys _ ih =>
      exact .container posed chosen (within.plan?_of_some found) keys ih
  | object posed found => exact .object posed (within.plan?_of_some found)
  | function posed unbound inner found _ ih =>
      exact .function posed unbound inner (within.plan?_of_some found) ih
  | functionCall posed answers later _ ih => exact .functionCall posed answers later ih
  | lazy posed unbound inner found _ ih =>
      exact .lazy posed unbound inner (within.plan?_of_some found) ih
  | «variable» met found => exact .variable met (within.plan?_of_some found)
  | made new _ ih => exact .made new ih
  | late new found _ ih => exact .late new (within.plan?_of_some found) ih
  | step makes found passes _ ih => exact .step makes (within.plan?_of_some found) passes ih

/-! ## Below a derived plan -/

variable (src catalog) in
/-- What is made for the task is found under the plans, the nearest one first. -/
inductive Placed : List Plan → Task → Prop where
  | asked {above : List Plan} {key : Key} :
      (∀ p ∈ (Plan.around above).head?, p.asksFor = true) → Placed above (.value false key)
  | kept {above : List Plan} {key : Key} {token : String} {path : FieldPath} {id : PlanId} :
      Placed (.keep token path ⟨key, id⟩ :: above) (.value true key)
  | called {above : List Plan} {bare : Bool} {key : Key} {c : Call} :
      Placed above (.value bare key) → src.Answers catalog key c →
      (src.keeper? catalog key = none ∨ bare = true) → Placed above (.call c)
  | contributed {above : List Plan} {key : Key} {kind : ContainerKind} {slots : List Slot}
      {contributors : List MemberBinding} {b : MemberBinding} :
      src.Requested catalog key →
      (src.choose catalog key).1 = .binding (.container kind contributors) → b ∈ contributors →
      Placed (.container kind slots :: above)
        (.call (src.memberCall (src.contributionKey b) b.member .empty false))
  | made {above : List Plan} {c : Call} : Placed above (.call c) → Placed above (.step c)
  | around {above : List Plan} {c : Call} {name : String} {id : PlanId} :
      Placed above (.call c) → Placed (.lateInit name ⟨c.key, id⟩ :: above) (.step c)

theorem placed_of_asksFor {above : List Plan} {p : Plan} {key : Key} (asks : p.asksFor = true) :
    src.Placed catalog (p :: above) (.value false key) := by
  refine .asked fun q mem => ?_
  cases p with
  | lateInit => cases asks
  | _ =>
      obtain rfl := Option.some.inj mem
      exact asks

theorem Makes.asksFor {c : Call} {lambda : List LambdaParam} {p : Plan}
    (makes : src.Makes site c lambda p) : p.asksFor = true := by
  cases makes <;> rfl

/-- A step is not taken for a key that is kept, unless directly for its scope. -/
theorem Derived.unkept {bare : Bool} {key : Key} {c : Call} {p : Plan}
    (posed : src.Posed catalog bare site s key) (answers : src.Answers catalog key c)
    (unwrapped : src.keeper? catalog key = none ∨ site.unwrapping = some key)
    (derived : src.Derived catalog a site s (.call c) id) (found : a.plan? id = some p)
    (plain : ∀ name, p ≠ .localVar name) : src.keeper? catalog key = none ∨ bare = true := by
  refine unwrapped.imp_right fun unwrapping => ?_
  cases bare with
  | true => rfl
  | false =>
      obtain ⟨d, mem, building⟩ := posed.nested rfl key unwrapping
      rw [answers.only] at mem
      obtain rfl := List.mem_singleton.mp mem
      cases derived with
      | «variable» _ there => exact absurd (Option.some.inj (found.symm.trans there)) (plain _)
      | made new => exact absurd building new
      | late new => exact absurd building new

/-- What a derived plan needs is derived and placed below it. -/
theorem Derived.child {p : Plan} {child : Slot} {above : List Plan}
    (derived : src.Derived catalog a site s task id) (placed : src.Placed catalog above task)
    (found : a.plan? id = some p) (mem : child ∈ p.children) :
    ∃ site' s' task', src.Derived catalog a site' s' task' child.id ∧ task'.key = child.key ∧
      src.Placed catalog (p :: above) task' := by
  induction derived with
  | again _ _ _ _ ih => exact ih placed found
  | param _ _ there | object _ there | «variable» _ there =>
      cases found.symm.trans there
      cases mem
  | keep _ _ _ there derived =>
      cases found.symm.trans there
      obtain rfl := List.mem_singleton.mp mem
      exact ⟨_, _, _, derived, rfl, .kept⟩
  | call posed answers _ unwrapped derived ih =>
      have plain : ∀ name, p ≠ .localVar name := by
        rintro name rfl
        cases mem
      exact ih (.called placed answers (derived.unkept posed answers unwrapped found plain)) found
  | container posed chosen there keys derived =>
      cases found.symm.trans there
      obtain ⟨row, among, rfl⟩ := List.mem_map.mp mem
      refine ⟨_, _, _, derived row among, rfl, ?_⟩
      rw [keys row among]
      exact .contributed posed.requested chosen (List.mem_map_of_mem among)
  | function _ _ _ there derived | lazy _ _ _ there derived =>
      cases found.symm.trans there
      obtain rfl := List.mem_singleton.mp mem
      exact ⟨_, _, _, derived, rfl, placed_of_asksFor rfl⟩
  | functionCall _ answers later _ ih =>
      exact ih (.called placed answers (.inl (answers.keeper?_of_inLambda later))) found
  | made _ _ ih => exact ih (.made placed) found
  | late _ there derived =>
      cases found.symm.trans there
      obtain rfl := List.mem_singleton.mp mem
      exact ⟨_, _, _, derived, rfl, .around placed⟩
  | step makes there _ derived =>
      cases found.symm.trans there
      exact ⟨_, _, _, derived child mem, rfl, placed_of_asksFor makes.asksFor⟩

/-- Everything below a derived plan is derived. -/
theorem Derived.path {root t : Slot} {above : List Plan}
    (derived : src.Derived catalog a site s (.value false root.key) root.id) (outer : List Plan)
    (placed : src.Placed catalog outer (.value false root.key))
    (path : Arena.Path a root above t) :
    ∃ site' s' task', src.Derived catalog a site' s' task' t.id ∧ task'.key = t.key ∧
      src.Placed catalog (above ++ outer) task' := by
  induction path with
  | here => exact ⟨site, s, _, derived, rfl, placed⟩
  | down _ found mem ih =>
      obtain ⟨_, _, _, derived, -, placed⟩ := ih
      exact derived.child placed found mem

/-- A plan that keeps a value is made for a request for its key. -/
theorem Derived.kept {token : String} {path : FieldPath} {result : Slot}
    (derived : src.Derived catalog a site s task id)
    (found : a.plan? id = some (.keep token path result)) :
    task.key = result.key ∧ token = result.key.text ∧ src.keeper? catalog result.key = some path ∧
      ∃ bare site s, src.Posed catalog bare site s result.key ∧
        site.findParam src.program result.key = none ∧
        src.Derived catalog a (site.unwrap result.key) s (.value true result.key) result.id := by
  induction derived with
  | again _ _ _ _ ih | made _ _ ih => exact ih found
  | param _ _ there | object _ there | «variable» _ there | container _ _ there
  | function _ _ _ there | lazy _ _ _ there | late _ there => cases found.symm.trans there
  | keep posed absent kept there derived =>
      cases found.symm.trans there
      exact ⟨rfl, rfl, kept, _, _, _, posed, absent, derived⟩
  | call _ answers _ _ _ ih | functionCall _ answers _ _ ih =>
      rw [Task.key, ← answers.same]
      exact ih found
  | step makes there =>
      cases found.symm.trans there
      cases makes

/-- A plan that gathers contributions has a slot for each of those that are chosen. -/
theorem Derived.gathered {kind : ContainerKind} {slots : List Slot}
    (derived : src.Derived catalog a site s task id)
    (found : a.plan? id = some (.container kind slots)) :
    ∃ rows : List (MemberBinding × Slot), slots = rows.map (·.2) ∧
      (src.choose catalog task.key).1 = .binding (.container kind (rows.map (·.1))) ∧
      ∀ row ∈ rows, row.2.key = src.contributionKey row.1 ∧ ∃ site s,
        src.Derived catalog a site s (.call (src.memberCall row.2.key row.1.member .empty false))
          row.2.id := by
  induction derived with
  | again _ _ _ _ ih | made _ _ ih => exact ih found
  | param _ _ there | object _ there | «variable» _ there | keep _ _ _ there
  | function _ _ _ there | lazy _ _ _ there | late _ there => cases found.symm.trans there
  | container _ chosen there keys derived =>
      cases found.symm.trans there
      exact ⟨_, rfl, chosen, fun row mem => ⟨keys row mem, _, _, derived row mem⟩⟩
  | call _ answers _ _ _ ih | functionCall _ answers _ _ ih =>
      rw [Task.key, ← answers.same]
      exact ih found
  | step makes there =>
      cases found.symm.trans there
      cases makes

/-- What calls something for a call passes what the call asks for. -/
theorem Derived.passes {c : Call} {p : Plan} (derived : src.Derived catalog a site s (.call c) id)
    (calls : a.Calls id p) : ∃ site lambda, src.Makes site c lambda p ∧ src.Passes c p := by
  obtain ⟨call, here | ⟨name, result, around, here⟩⟩ := calls
  · cases derived with
    | «variable» _ there | late _ there =>
        cases here.symm.trans there
        cases call
    | made _ derived =>
        cases derived with
        | step makes there passes =>
            cases here.symm.trans there
            exact ⟨_, _, makes, passes⟩
  · cases derived with
    | «variable» _ there => cases around.symm.trans there
    | late _ there derived =>
        cases around.symm.trans there
        cases derived with
        | step makes there passes =>
            cases here.symm.trans there
            exact ⟨_, _, makes, passes⟩
    | made _ derived =>
        cases derived with
        | step makes there =>
            cases around.symm.trans there
            cases makes

/-- A plan that calls something is made for the step of a call. -/
theorem Derived.called {p : Plan} {above : List Plan}
    (derived : src.Derived catalog a site s task id) (placed : src.Placed catalog above task)
    (found : a.plan? id = some p) (call : p.isCall = true) :
    ∃ site c lambda, src.Makes site c lambda p ∧ src.Passes c p ∧ c.key = task.key ∧
      src.Placed catalog above (.step c) := by
  induction derived with
  | again _ _ _ _ ih => exact ih placed found
  | made _ _ ih => exact ih (.made placed) found
  | param _ _ there | object _ there | «variable» _ there | container _ _ there
  | function _ _ _ there | lazy _ _ _ there | late _ there | keep _ _ _ there =>
      cases found.symm.trans there
      cases call
  | call posed answers _ unwrapped derived ih =>
      have plain : ∀ name, p ≠ .localVar name := by
        rintro name rfl
        cases call
      rw [Task.key, ← answers.same]
      exact ih (.called placed answers (derived.unkept posed answers unwrapped found plain)) found
  | functionCall _ answers later _ ih =>
      rw [Task.key, ← answers.same]
      exact ih (.called placed answers (.inl (answers.keeper?_of_inLambda later))) found
  | step makes there passes =>
      cases found.symm.trans there
      exact ⟨_, _, _, makes, passes, rfl, placed⟩

end Source

end Injector
