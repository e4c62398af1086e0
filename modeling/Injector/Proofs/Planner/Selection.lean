/-
# Injector.Proofs.Planner.Selection -- generic members are selected exactly

What nothing else can build is left to the generic members (`LeftToGenerics`).  They are looked
for wherever the key is asked for, and what is found depends on the catalog and the key alone.  A
plan may be kept from an earlier request, though.  So the planner is followed through all states
that it can come to (`Underway`): in each of them the plan kept for such a key calls the one
member that is found, at the path through which it is found (`CacheSelected`).

With what is said of the candidates (`Injector.Proofs.Planner.Candidates`) this tells how a
request is answered where no member, one member or several members are offered
(`selection_exact`).
-/
import Injector.Proofs.Planner.Candidates
import Injector.Proofs.Planner.Derivations
import Injector.Proofs.Planner.Steadiness
import Injector.Proofs.Planner.Termination

namespace Injector

set_option autoImplicit false

open PlanM

namespace Arena

variable {a b : Arena} {id result : PlanId} {p : Plan}

/-- A plan that refers to something is not closed. -/
theorem isClosed_alloc_reference (a : Arena) {name : String} (refers : p.reference? = some name) :
    (a.alloc p).2.isClosed a.size = false := by
  have free : name ∈ (a.alloc p).2.freeNames a.size := by
    rw [freeNames_alloc_self, mem_freeIn]
    exact ⟨.inl refers, by simp [binders_of_reference? refers]⟩
  simpa [isClosed] using List.ne_nil_of_mem free

/-- Around an open plan a kept value is open. -/
theorem isClosed_of_alloc_keep {text : String} {path : FieldPath} {slot : Slot}
    (closed : (a.alloc (.keep text path slot)).2.isClosed a.size = true) :
    a.isClosed slot.id = true := by
  simp only [isClosed, List.isEmpty_iff, freeNames_alloc_self] at closed ⊢
  refine List.eq_nil_iff_forall_not_mem.mpr fun name free => ?_
  have inside : name ∈ a.freeIn (.keep text path slot) :=
    mem_freeIn.mpr ⟨.inr ⟨slot, List.mem_singleton_self slot, free⟩, List.not_mem_nil⟩
  rw [closed] at inside
  cases inside

theorem Calls.mono (calls : a.Calls id p) (within : a.Within b) : b.Calls id p := by
  have stays {id : PlanId} {p : Plan} (found : a.plan? id = some p) : b.plan? id = some p :=
    (within.plan?_eq (lt_size_of_plan? found)).trans found
  obtain ⟨call, found | ⟨name, result, found, inner⟩⟩ := calls
  · exact ⟨call, .inl (stays found)⟩
  · exact ⟨call, .inr ⟨name, result, stays found, stays inner⟩⟩

theorem Calls.lt_size (calls : a.Calls id p) : id < a.size := by
  obtain ⟨-, found | ⟨name, result, found, -⟩⟩ := calls
  · exact lt_size_of_plan? found
  · exact lt_size_of_plan? found

end Arena

namespace Source

variable (src : Source) (catalog : Catalog)

/-- Nothing but a generic member can build the key. -/
structure LeftToGenerics (key : Key) : Prop where
  resolved : key.ty.isUnresolved = false
  unbound : src.Unbound catalog key
  plain : key.ty.isFunction = false
  strict : key.ty.isLazy = false

/-- The states of the planner of a component, also in the middle of planning: planning reports,
changes the stack and the names, adds plans, and makes requests. -/
inductive Underway : PlannerState → Prop where
  | start (log : Log) : Underway { log }
  | aside {st : PlannerState} (log : Log) (stack : BuildStack) (names : NameSupply) :
      Underway st → Underway { st with log, stack, names }
  | add {st : PlannerState} (p : Plan) : Underway st → Underway (st.add p)
  | asked {st : PlannerState} {site : Site} (depth : Nat) (key : Key) : site.catalog = catalog →
      Underway st → Underway ((src.requestTo depth site key).runFrom st).2

/-- The plan calls the member of the binding at its path. -/
def CallsMember (a : Arena) (b : MemberBinding) (id : PlanId) : Prop :=
  ∃ className receiver args, a.Calls id <| .provide className (src.program.memberAt b.member).name
    b.path receiver ((src.program.memberAt b.member).kind == .property) args

/-- The plan calls the member of the binding, through the scope at its path if the value is
kept there. -/
def CallsThrough (a : Arena) (kept : Bool) (key : Key) (b : MemberBinding) (id : PlanId) : Prop :=
  if kept then
    ∃ result, a.plan? id = some (.keep key.text b.path ⟨key, result⟩) ∧ src.CallsMember a b result
  else src.CallsMember a b id

/-- The plan calls the one generic member that fits. -/
def Selected (a : Arena) (unwrapping : Bool) (key : Key) (id : PlanId) : Prop :=
  ∃ b s, src.fitting key catalog.generics [] = [(b, s)] ∧
    src.CallsThrough a (b.scopedIn.isSome && !unwrapping) key b id

/-- The plan is in the arena, and if it can be kept it calls the one generic member that fits. -/
structure Selects (a : Arena) (unwrapping : Bool) (key : Key) (id : PlanId) : Prop where
  known : id < a.size
  selected : a.isClosed id = true → src.Selected catalog a unwrapping key id

/-- What is kept for a key that is left to generic members calls the one that fits. -/
def CacheSelected (st : PlannerState) : Prop :=
  ∀ key id, st.cache.get? key = some id → src.LeftToGenerics catalog key →
    src.Selected catalog st.arena false key id

/-- Plans stay, and those that are kept are selected. -/
def selecting : Discipline := .keeping (src.CacheSelected catalog)

/-- Requests for what is left to generic members are answered by the one that fits. -/
def AllSelect (requests : Requests) : Prop :=
  ∀ site key st, site.catalog = catalog →
    Keeps (src.selecting catalog) st (requests site key) fun answer next =>
      ∀ slot ∈ answer, slot.key = key ∧ (src.LeftToGenerics catalog key →
        src.Selects catalog next.arena (site.isUnwrapping key) key slot.id)

variable {src catalog} {a a' : Arena} {b : MemberBinding} {s : Subst} {site : Site} {key : Key}
  {st next : PlannerState} {id : PlanId} {kept unwrapping : Bool}

/-! ## Plans that call the member -/

theorem CallsMember.mono (calls : src.CallsMember a b id) (within : a.Within a') :
    src.CallsMember a' b id := by
  obtain ⟨className, receiver, args, calls⟩ := calls
  exact ⟨className, receiver, args, calls.mono within⟩

theorem CallsMember.lt_size (calls : src.CallsMember a b id) : id < a.size := by
  obtain ⟨_, _, _, calls⟩ := calls
  exact calls.lt_size

theorem CallsThrough.mono (calls : src.CallsThrough a kept key b id) (within : a.Within a') :
    src.CallsThrough a' kept key b id := by
  cases kept with
  | false => exact CallsMember.mono calls within
  | true =>
      obtain ⟨result, found, calls⟩ := calls
      exact ⟨result, (within.plan?_eq (Arena.lt_size_of_plan? found)).trans found,
        calls.mono within⟩

theorem CallsThrough.lt_size (calls : src.CallsThrough a kept key b id) : id < a.size := by
  cases kept with
  | false => exact CallsMember.lt_size calls
  | true =>
      obtain ⟨result, found, -⟩ := calls
      exact Arena.lt_size_of_plan? found

theorem Selected.mono (selected : src.Selected catalog a unwrapping key id)
    (within : a.Within a') : src.Selected catalog a' unwrapping key id := by
  obtain ⟨b, s, fits, calls⟩ := selected
  exact ⟨b, s, fits, calls.mono within⟩

theorem CacheSelected.of_within (selected : src.CacheSelected catalog st)
    (cache : next.cache = st.cache) (within : st.arena.Within next.arena) :
    src.CacheSelected catalog next := by
  intro key id found left
  rw [cache] at found
  exact (selected key id found left).mono within

theorem selecting_steady : (src.selecting catalog).Steady :=
  Discipline.steady_keeping (fun _ _ _ selected => selected) fun p selected =>
    selected.of_within rfl (.alloc _ p)

/-! ## Steps -/

/-- A plan that refers to something is not kept. -/
theorem selects_reference {p : Plan} {name : String} (refers : p.reference? = some name) :
    Keeps (src.selecting catalog) st (alloc p) fun id next =>
      id < next.arena.size ∧ next.arena.isClosed id = false :=
  .of_ok (runFrom_alloc p st) fun inv =>
    ⟨selecting_steady.inv_add p inv, .alloc st.arena p,
      Arena.lt_size_of_plan? (Regime.plan?_add st p), Arena.isClosed_alloc_reference _ refers⟩

theorem selects_remember
    (selected : src.LeftToGenerics catalog key → st.arena.isClosed id = true →
      src.Selected catalog st.arena false key id) :
    Keeps (src.selecting catalog) st (remember key id) fun _ next => next.arena = st.arena := by
  refine .of_ok (runFrom_remember key id st) fun inv => ?_
  split
  · rename_i closed
    refine ⟨fun other old found left => ?_, .refl _, rfl⟩
    rcases Table.of_get?_insertNew found with found | ⟨rfl, rfl⟩
    · exact inv other old found left
    · exact selected left closed
  · exact ⟨inv, .refl _, rfl⟩

section Requests

variable {requests : Requests} (all : src.AllSelect catalog requests)
  (own : site.catalog = catalog)

include all

theorem follows_of_selects : (src.selecting catalog).Follows catalog requests :=
  fun site key st own => (all site key st own).mono fun _ _ _ _ _ => trivial

include own

/-- The member is called, or the answer is a variable for a call under construction. -/
theorem selects_planCall :
    Keeps (src.selecting catalog) st (src.planCall requests site key b s) fun id next =>
      id < next.arena.size ∧
        (next.arena.isClosed id = true → src.CallsMember next.arena b id) := by
  have follows := follows_of_selects all
  let provides (id : PlanId) (next : PlannerState) : Prop :=
    ∃ receiver args, next.arena.plan? id = some (.provide site.className
      (src.program.memberAt b.member).name b.path receiver
      ((src.program.memberAt b.member).kind == .property) args)
  refine .constructing selecting_steady.stackless (fun entry => (?_ : Keeps _ _ _ provides))
    (fun _ made => made) ?_ fun name stack => ?_
  · refine (steady_receiverFor follows own).bind fun receiver _ _ _ _ => ?_
    refine (steady_arguments selecting_steady follows own).bind fun args _ _ _ _ => ?_
    exact (steady_alloc selecting_steady _).mono fun _ _ _ _ found => ⟨receiver, args, found⟩
  · rintro id next - ⟨receiver, args, found⟩
    refine .closeCycle selecting_steady.stackless (fun _ => ?_) fun name stack => ?_
    · exact ⟨Arena.lt_size_of_plan? found, fun _ => ⟨_, receiver, args, rfl, .inl found⟩⟩
    · refine (steady_alloc selecting_steady _).mono fun last after _ le around => ?_
      have inner := (le.plan?_eq (Arena.lt_size_of_plan? found)).trans found
      exact ⟨Arena.lt_size_of_plan? around,
        fun _ => ⟨_, receiver, args, rfl, .inr ⟨name, _, around, inner⟩⟩⟩
  · refine (selects_reference rfl).mono fun id next _ _ said => ⟨said.1, fun closed => ?_⟩
    cases said.2.symm.trans closed

/-- The value that is kept at the path is a call of the member. -/
theorem selects_planKept (left : src.LeftToGenerics catalog key)
    (fits : src.fitting key catalog.generics [] = [(b, s)]) :
    Keeps (src.selecting catalog) st (planKept requests site key b.path) fun id next =>
      id < next.arena.size ∧
        (next.arena.isClosed id = true → src.CallsThrough next.arena true key b id) := by
  simp only [planKept, demand]
  let answered (slot : Slot) (next : PlannerState) : Prop :=
    slot.key = key ∧ src.Selects catalog next.arena true key slot.id
  refine .bind (?_ : Keeps _ _ _ answered) fun slot mid _ _ said => ?_
  · have unwrapped : (site.unwrap key).catalog = catalog := own
    refine (all (site.unwrap key) key st unwrapped).bind fun answer mid _ _ said => ?_
    cases answer with
    | none => exact .failTraced _
    | some slot =>
        obtain ⟨same, selects⟩ := said slot rfl
        have here : (site.unwrap key).isUnwrapping key = true := by
          simp [Site.isUnwrapping, Site.unwrap]
        rw [here] at selects
        exact .pure ⟨same, selects left⟩
  · obtain ⟨rfl, known, selected⟩ := said
    refine .of_ok (runFrom_alloc _ mid) fun inv => ⟨selecting_steady.inv_add _ inv,
      .alloc mid.arena _, Arena.lt_size_of_plan? (Regime.plan?_add mid _), fun closed => ?_⟩
    obtain ⟨b', s', fits', calls⟩ := selected (Arena.isClosed_of_alloc_keep closed)
    cases fits.symm.trans fits'
    rw [Bool.not_true, Bool.and_false] at calls
    exact ⟨slot.id, Regime.plan?_add mid _, CallsMember.mono calls (.alloc mid.arena _)⟩

theorem selects_planMember (left : src.LeftToGenerics catalog key)
    (fits : src.fitting key catalog.generics [] = [(b, s)]) :
    Keeps (src.selecting catalog) st (src.planMember requests site key b s) fun id next =>
      src.Selects catalog next.arena (site.isUnwrapping key) key id := by
  simp only [planMember]
  split
  · rename_i kept
    refine (selects_planKept all own left fits).mono fun id next _ _ said =>
      ⟨said.1, fun closed => ⟨b, s, fits, ?_⟩⟩
    rw [kept]
    exact said.2 closed
  · rename_i direct
    rw [Bool.not_eq_true] at direct
    refine (selects_planCall all own).mono fun id next _ _ said =>
      ⟨said.1, fun closed => ⟨b, s, fits, ?_⟩⟩
    rw [direct]
    exact said.2 closed

theorem selects_planGeneric (left : src.LeftToGenerics catalog key) :
    Keeps (src.selecting catalog) st (src.planGeneric requests site key) fun answer next =>
      ∀ id ∈ answer, src.Selects catalog next.arena (site.isUnwrapping key) key id := by
  simp only [planGeneric]
  split
  · exact .nothing
  · rename_i b s fits
    rw [own] at fits
    exact (selects_planMember all own left fits).bind fun id next _ _ selects => .found selects
  · exact .failTraced _

theorem selects_planFor (left : src.LeftToGenerics catalog key) :
    Keeps (src.selecting catalog) st (src.planFor requests site key) fun answer next =>
      ∀ id ∈ answer, src.Selects catalog next.arena (site.isUnwrapping key) key id := by
  simp only [planFor, left.resolved, left.plain, left.strict, Bool.false_eq_true, if_false]
  split
  · refine (selects_reference rfl).bind fun id next _ _ said => .found ⟨said.1, fun closed => ?_⟩
    cases said.2.symm.trans closed
  · refine (Keeps.bindingFor fun _ => steady_report selecting_steady _).bind
      fun answer mid _ _ said => ?_
    cases answer with
    | some binding =>
        have chosen := said.1
        rw [own, left.unbound] at chosen
        cases chosen
    | none => exact selects_planGeneric all own left

omit own in
theorem selects_requestWith : src.AllSelect catalog (src.requestWith requests) := by
  intro site key st own
  have planned : Keeps (src.selecting catalog) st (src.planFor requests site key)
      fun answer next => ∀ id ∈ answer, src.LeftToGenerics catalog key →
        src.Selects catalog next.arena (site.isUnwrapping key) key id := by
    by_cases left : src.LeftToGenerics catalog key
    · exact (selects_planFor all own left).mono fun _ _ _ _ said id mem _ => said id mem
    · exact (steady_planFor selecting_steady (follows_of_selects all) own).mono
        fun _ _ _ _ _ _ _ left' => absurd left' left
  simp only [requestWith]
  refine Keeps.kept?.bind fun answer mid inv _ said => ?_
  obtain ⟨rfl, kept⟩ := said
  cases answer with
  | some id =>
      obtain ⟨-, fresh, found⟩ := kept
      refine .found ⟨rfl, fun left => ?_⟩
      obtain ⟨b, s, fits, calls⟩ := inv key id found left
      rw [fresh]
      exact ⟨calls.lt_size, fun _ => ⟨b, s, fits, calls⟩⟩
  | none =>
      refine planned.bind fun answer next _ _ said => ?_
      cases answer with
      | none => exact .nothing
      | some id =>
          have selects := said id rfl
          dsimp only
          split
          · exact .found ⟨rfl, selects⟩
          · rename_i fresh
            rw [Bool.not_eq_true] at fresh
            rw [fresh] at selects ⊢
            refine (selects_remember fun left => (selects left).selected).bind
              fun _ last _ _ same => .found ⟨rfl, ?_⟩
            rwa [same]

end Requests

theorem selects_requestTo (depth : Nat) : src.AllSelect catalog (src.requestTo depth) := by
  induction depth with
  | zero => exact fun _ _ _ _ => .throw _
  | succ depth ih => exact selects_requestWith ih

/-! ## States that planning comes to -/

namespace Underway

theorem selected (underway : src.Underway catalog st) : src.CacheSelected catalog st := by
  induction underway with
  | start log =>
      intro key id found
      cases found
  | aside log stack names _ ih => exact ih
  | add p _ ih => exact ih.of_within rfl (.alloc _ p)
  | asked depth key own _ ih => exact (selects_requestTo depth _ key _ own ih).1

variable (src catalog) in
/-- Planning goes from one of its states to another one, and plans stay. -/
def discipline : Discipline := .keeping (src.Underway catalog)

theorem steady : (discipline src catalog).Steady := Discipline.steady_keeping .aside .add

theorem follows : (discipline src catalog).Follows catalog src.request := by
  intro site key st own underway
  refine ⟨.asked _ key own underway, ?_, fun _ _ => trivial⟩
  exact (selects_requestTo _ site key st own underway.selected).2.1

theorem resolve (underway : src.Underway site.catalog st) (key : Key) :
    src.Underway site.catalog ((src.resolve site key).runFrom st).2 :=
  (steady_demand follows rfl underway).1

theorem implementAll (underway : src.Underway site.catalog st) :
    src.Underway site.catalog ((src.implementAll site).run st).2 :=
  steady_implementAll steady follows id underway

end Underway

/-! ## Answers -/

variable (src catalog) in
/-- The state after it is reported what is wrong with the class that the key asks for. -/
def reported (key : Key) (st : PlannerState) : PlannerState :=
  { st with log := st.log.errors (src.choose catalog key).2 }

/-- What is left to generic members is planned by them. -/
theorem runFrom_planFor_left {requests : Requests} (left : src.LeftToGenerics site.catalog key)
    (alone : site.findParam src.program key = none) :
    (src.planFor requests site key).runFrom st =
      (src.planGeneric requests site key).runFrom (src.reported site.catalog key st) := by
  have unbound : (src.choose site.catalog key).1 = .nothing := left.unbound
  simp only [planFor, left.resolved, alone, bindingFor, runFrom_bind, runFrom_report, unbound,
    runFrom_pure, left.plain, left.strict, Bool.false_eq_true, if_false]
  rfl

variable (src) in
/-- Plan the member for the key, and keep the plan unless it is just being built for its scope. -/
def answerBy (site : Site) (key : Key) (b : MemberBinding) (s : Subst) : PlanM (Option Slot) := do
  let id ← src.planMember src.request site key b s
  unless site.isUnwrapping key do remember key id
  return some ⟨key, id⟩

/-- Where no plan may be used that is kept, the answer depends on how many members fit. -/
theorem runFrom_request_left (left : src.LeftToGenerics site.catalog key)
    (alone : site.findParam src.program key = none)
    (new : site.lambdaParams = [] → site.isUnwrapping key = false → st.cache.get? key = none) :
    (src.request site key).runFrom st =
      match src.fitting key site.catalog.generics [] with
      | [] => (.ok none, src.reported site.catalog key st)
      | [(b, s)] => (src.answerBy site key b s).runFrom (src.reported site.catalog key st)
      | several => (.error (.ambiguous key (membersOf several) st.stack.elements),
          src.reported site.catalog key st) := by
  rw [runFrom_request_new new, runFrom_bind, runFrom_planFor_left left alone, planGeneric]
  generalize src.fitting key site.catalog.generics [] = fits
  rcases fits with _ | ⟨⟨b, s⟩, _ | ⟨second, more⟩⟩
  · rfl
  · simp only [answerBy, runFrom_bind]
    generalize PlanM.runFrom _ (src.reported site.catalog key st) = outcome
    obtain ⟨answer, next⟩ := outcome
    cases answer <;> rfl
  · rfl

section Offered

variable (acyclic : src.program.Acyclic) (underway : src.Underway site.catalog st)
  (left : src.LeftToGenerics site.catalog key) (alone : site.findParam src.program key = none)

include underway left in
/-- A plan is kept for the key only if just one member fits. -/
theorem not_kept (several : ∀ b s, src.fitting key site.catalog.generics [] ≠ [(b, s)]) :
    st.cache.get? key = none := by
  refine Option.eq_none_iff_forall_ne_some.mpr fun id kept => ?_
  obtain ⟨b, s, fits, -⟩ := underway.selected key id kept left
  exact several b s fits

include acyclic underway left alone

theorem request_of_not_offered (nothing : ∀ m, ¬src.Offered site.catalog key m) :
    (src.request site key).runFrom st = (.ok none, src.reported site.catalog key st) := by
  have fits : src.fitting key site.catalog.generics [] = [] := by
    refine List.eq_nil_iff_forall_not_mem.mpr fun entry mem => nothing entry.1.member ?_
    exact (mem_fitting_iff acyclic).mp (List.mem_map_of_mem mem)
  have new := not_kept underway left fun b s => by simp [fits]
  rw [runFrom_request_left left alone fun _ _ => new, fits]

theorem request_of_one_offered {m : MemberId}
    (only : ∀ other, src.Offered site.catalog key other ↔ other = m) :
    ∃ place own s, own.binding.member = m ∧ src.FirstMatch site.catalog key place own s ∧
      let b := own.binding.under place.1
      ((src.request site key).runFrom st =
          (src.answerBy site key b s).runFrom (src.reported site.catalog key st) ∨
        ∃ id, site.lambdaParams = [] ∧ site.isUnwrapping key = false ∧
          st.cache.get? key = some id ∧ src.CallsThrough st.arena b.scopedIn.isSome key b id ∧
          (src.request site key).runFrom st = (.ok (some ⟨key, id⟩), st)) ∧
      ∀ slot, ((src.request site key).runFrom st).1 = .ok (some slot) →
        ((src.request site key).runFrom st).2.arena.isClosed slot.id = true →
          src.CallsThrough ((src.request site key).runFrom st).2.arena
            (b.scopedIn.isSome && !site.isUnwrapping key) key b slot.id := by
  have members : membersOf (src.fitting key site.catalog.generics []) = [m] := by
    refine List.perm_singleton.mp ?_
    refine (List.perm_ext_iff_of_nodup (nodup_fitting acyclic) (List.nodup_singleton m)).mpr ?_
    simp [mem_fitting_iff acyclic, only]
  obtain ⟨⟨b, s⟩, fits, same⟩ := List.map_eq_singleton_iff.mp members
  have mem : (b, s) ∈ src.fitting key site.catalog.generics [] := by
    rw [fits]
    exact List.mem_singleton_self _
  obtain ⟨place, own, rfl, first⟩ := firstMatch_of_mem_fitting acyclic mem
  refine ⟨place, own, s, same, first, ?_, fun slot found closed => ?_⟩
  · by_cases kept : site.lambdaParams = [] ∧ site.isUnwrapping key = false ∧
        ∃ id, st.cache.get? key = some id
    · obtain ⟨bare, fresh, id, kept⟩ := kept
      obtain ⟨b, s', fits', calls⟩ := underway.selected key id kept left
      cases fits.symm.trans fits'
      refine .inr ⟨id, bare, fresh, kept, ?_, runFrom_request_kept bare fresh kept⟩
      simpa using calls
    · have new (bare : site.lambdaParams = []) (fresh : site.isUnwrapping key = false) :
          st.cache.get? key = none :=
        Option.eq_none_iff_forall_ne_some.mpr fun id found => kept ⟨bare, fresh, id, found⟩
      left
      rw [runFrom_request_left left alone new, fits]
  · obtain ⟨-, -, said⟩ := selects_requestTo _ site key st rfl underway.selected
    obtain ⟨b, s', fits', calls⟩ := ((said _ found slot rfl).2 left).selected closed
    cases fits.symm.trans fits'
    exact calls

theorem request_of_several_offered {m m' : MemberId} (differ : m ≠ m')
    (one : src.Offered site.catalog key m) (other : src.Offered site.catalog key m') :
    ∃ candidates : List MemberId, candidates.Nodup ∧
      (∀ m, m ∈ candidates ↔ src.Offered site.catalog key m) ∧
      (src.request site key).runFrom st =
        (.error (.ambiguous key candidates st.stack.elements),
          src.reported site.catalog key st) := by
  refine ⟨_, nodup_fitting acyclic, fun m => mem_fitting_iff acyclic, ?_⟩
  have among := (mem_fitting_iff acyclic).mpr one
  have among' := (mem_fitting_iff acyclic).mpr other
  have several (b : MemberBinding) (s : Subst) :
      src.fitting key site.catalog.generics [] ≠ [(b, s)] := by
    intro fits
    rw [fits] at among among'
    exact differ ((List.mem_singleton.mp among).trans (List.mem_singleton.mp among').symm)
  rw [runFrom_request_left left alone fun _ _ => not_kept underway left several]
  generalize src.fitting key site.catalog.generics [] = fits at among several
  rcases fits with _ | ⟨⟨b, s⟩, _ | ⟨second, more⟩⟩
  · cases among
  · exact absurd rfl (several b s)
  · rfl

end Offered

/-- In a program without cycles in its hierarchy, wherever planning comes to ask for a key that is
left to generic members and no lambda parameter stands in: nothing is found if no member is
offered; if one member is, it is called through its first match along the walk, now or by the plan
that is kept from an earlier request; and if several are, the request fails and names each of them
once. -/
theorem selection_exact (src : Source) {site : Site} {key : Key} {st : PlannerState}
    (acyclic : src.program.Acyclic) (underway : src.Underway site.catalog st)
    (left : src.LeftToGenerics site.catalog key)
    (alone : site.findParam src.program key = none) :
    let answer := (src.request site key).runFrom st
    let mid := src.reported site.catalog key st
    ((∀ m, ¬src.Offered site.catalog key m) → answer = (.ok none, mid)) ∧
      (∀ m, (∀ other, src.Offered site.catalog key other ↔ other = m) →
        ∃ place own s, own.binding.member = m ∧ src.FirstMatch site.catalog key place own s ∧
          let b := own.binding.under place.1
          (answer = (src.answerBy site key b s).runFrom mid ∨
            ∃ id, site.lambdaParams = [] ∧ site.isUnwrapping key = false ∧
              st.cache.get? key = some id ∧ src.CallsThrough st.arena b.scopedIn.isSome key b id ∧
              answer = (.ok (some ⟨key, id⟩), st)) ∧
          ∀ slot, answer.1 = .ok (some slot) → answer.2.arena.isClosed slot.id = true →
            src.CallsThrough answer.2.arena (b.scopedIn.isSome && !site.isUnwrapping key) key b
              slot.id) ∧
      ∀ m m', m ≠ m' → src.Offered site.catalog key m → src.Offered site.catalog key m' →
        ∃ candidates : List MemberId, candidates.Nodup ∧
          (∀ m, m ∈ candidates ↔ src.Offered site.catalog key m) ∧
          answer = (.error (.ambiguous key candidates st.stack.elements), mid) :=
  ⟨request_of_not_offered acyclic underway left alone,
    fun _ => request_of_one_offered acyclic underway left alone,
    fun _ _ => request_of_several_offered acyclic underway left alone⟩

end Source

/-- Two parents of a component share a library, which makes a shelf for books of any kind.  The
one parent makes a box for anything, the other one a box for books. -/
def library : Source where
  program :=
    { classes := [{ name := "Book", kind := .interface },
        { name := "Novel", supers := [{ name := "Book" }] }, { name := "Stone" },
        { ClassDecl.abstractComponent [.ofNat 0] with name := "Library" },
        below "Left" [("library", "Library")] [.ofNat 1],
        below "Right" [("library", "Library")] [.ofNat 2],
        below "C" [("left", "Left"), ("right", "Right")] []]
      members := [maker (.ofNat 3) "Shelf" [{ name := "Book" }], maker (.ofNat 4) "Box" [],
        maker (.ofNat 5) "Box" [{ name := "Book" }]] }
  options := {}
where
  below (name : String) (parents : List (String × String)) (members : List MemberId) : ClassDecl :=
    { ClassDecl.abstractComponent members with
      name
      ctors := [{ params := parents.map fun (name, parent) =>
        { name, ty := { name := parent }, annotations := [.ofDecl .component] } }] }
  maker (owner : ClassId) (name : String) (bounds : List Ty) : MemberDecl :=
    { owner := some owner, name := "make" ++ name, annotations := [.ofDecl .provides],
      typeVars := [{ name := "T", bounds }], returnType := { name, args := [.typeVar "T"] } }

/-- No shelf is made for a stone; one for a novel is made by the library of the left parent; and
both parents make a box for a novel. -/
theorem library_selects :
    let site : Site := { className := "InjectC", catalog := (library.collect (.ofNat 6) {}).1 }
    let of (name arg : String) : Key := .of { name, args := [{ name := arg }] }
    let novel := (library.request site (of "Shelf" "Novel")).runFrom {}
    (library.request site (of "Shelf" "Stone")).runFrom {} = (.ok none, {}) ∧
      (∃ place own s, own.binding.member = .ofNat 0 ∧
        library.FirstMatch site.catalog (of "Shelf" "Novel") place own s ∧
        library.CallsThrough novel.2.arena own.binding.scopedIn.isSome (of "Shelf" "Novel")
          (own.binding.under place.1) 0) ∧
      novel.1 = .ok (some ⟨of "Shelf" "Novel", 0⟩) ∧
      novel.2.arena.plan? 0 =
        some (.provide "InjectC" "makeShelf" ⟨["left", "library"]⟩ none false {}) ∧
      ∃ candidates : List MemberId, candidates.Nodup ∧
        (∀ m, m ∈ candidates ↔ library.Offered site.catalog (of "Box" "Novel") m) ∧
        ((library.request site (of "Box" "Novel")).runFrom {}).1 =
          .error (.ambiguous (of "Box" "Novel") candidates []) := by
  intro site of novel
  have acyclic : library.program.Acyclic :=
    Program.acyclic_of_declared ClassId.toNat (by decide) (by decide)
  have started : library.Underway site.catalog {} := .start {}
  have left : ∀ key ∈ [of "Shelf" "Stone", of "Shelf" "Novel", of "Box" "Novel"],
      key.ty.isUnresolved = false ∧ library.Unbound site.catalog key ∧
        key.ty.isFunction = false ∧ key.ty.isLazy = false := by
    decide +kernel
  have selects (key : Key)
      (mem : key ∈ [of "Shelf" "Stone", of "Shelf" "Novel", of "Box" "Novel"]) :=
    let ⟨resolved, unbound, plain, strict⟩ := left key mem
    Source.selection_exact library acyclic started ⟨resolved, unbound, plain, strict⟩
      (show site.findParam library.program key = none by simp [Site.findParam, site])
  have offered (key : Key) (m : MemberId) :
      m ∈ Source.membersOf (library.fitting key site.catalog.generics []) ↔
        library.Offered site.catalog key m :=
    Source.mem_fitting_iff acyclic
  have stone : Source.membersOf (library.fitting (of "Shelf" "Stone") site.catalog.generics []) =
      [] := by decide +kernel
  have shelf : Source.membersOf (library.fitting (of "Shelf" "Novel") site.catalog.generics []) =
      [.ofNat 0] := by decide +kernel
  have boxes : Source.membersOf (library.fitting (of "Box" "Novel") site.catalog.generics []) =
      [.ofNat 1, .ofNat 2] := by decide +kernel
  have found : novel.1 = .ok (some ⟨of "Shelf" "Novel", 0⟩) := by decide +kernel
  refine ⟨?_, ?_, found, by decide +kernel, ?_⟩
  · have nothing (m : MemberId) : ¬library.Offered site.catalog (of "Shelf" "Stone") m := by
      rw [← offered, stone]
      exact List.not_mem_nil
    exact ((selects _ (by simp)).1 nothing).trans (by decide +kernel)
  · have only (m : MemberId) :
        library.Offered site.catalog (of "Shelf" "Novel") m ↔ m = .ofNat 0 := by
      rw [← offered, shelf, List.mem_singleton]
    obtain ⟨place, own, s, member, first, -, calls⟩ := (selects _ (by simp)).2.1 _ only
    have fresh : site.isUnwrapping (of "Shelf" "Novel") = false := rfl
    have called := calls _ found (by decide +kernel)
    rw [fresh, Bool.not_false, Bool.and_true] at called
    exact ⟨place, own, s, member, first, called⟩
  · have both : ∀ m ∈ [MemberId.ofNat 1, .ofNat 2],
        library.Offered site.catalog (of "Box" "Novel") m := by
      intro m mem
      rwa [← offered, boxes]
    obtain ⟨candidates, once, mem_iff, failed⟩ := (selects (of "Box" "Novel") (by simp)).2.2
      (.ofNat 1) (.ofNat 2) (by decide) (both _ (by simp)) (both _ (by simp))
    exact ⟨candidates, once, mem_iff, congrArg Prod.fst failed⟩

end Injector
