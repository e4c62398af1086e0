/-
# Injector.Proofs.Planner.Agreement -- an accessor is planned alike from twins

From twins, planning an accessor comes to twins, and to answers that are the same without
the names of lambda parameters, or it fails from both.  There is one lemma for each
function of the planner, in the order of their definitions.

For calm keys the two plannings need not take the same steps, as one may find a plan that
the other one makes; there the blueprint decides.  For all other keys they take the same
steps, as they find plans for the same keys (`agrees_requestWith`).
-/
import Injector.Proofs.Planner.Twins
import Injector.Proofs.Planner.Transcription

namespace Injector

set_option autoImplicit false

open PlanM
open BuildStack (above?)
open LambdaParam (names types names_inside types_inside)
open Relation (ReflTransGen)

namespace Source

variable {src : Source} {catalog : Catalog} {className : String} {ms : List MemberId}
  {m : MemberId} {st st' next next' : PlannerState} {site site' : Site}
  {around around' : List LambdaParam} {key : Key} {depth : Nat} {requests : Requests}

/-- The names that both plannings give to the parameters of a lambda. -/
theorem alike_nameParams {n : Nat} {tys : List Ty} :
    src.Alike catalog className ms m st st' (nameParams n tys) (nameParams n tys)
      fun lambda lambda' next next' =>
        (types lambda = tys ∧ (names lambda).Nodup ∧ ∀ name ∈ names lambda,
          name ∉ st.names.taken ∧ name ∈ next.names.taken ∧ IsParamName name) ∧
        (types lambda' = tys ∧ (names lambda').Nodup ∧ ∀ name ∈ names lambda',
          name ∉ st'.names.taken ∧ name ∈ next'.names.taken ∧ IsParamName name) :=
  .of_quiet (copies_nameParams fun _ => False) (copies_nameParams fun _ => False)
    (fun _ _ _ _ one two => ⟨one, two⟩) (fun _ _ _ _ none => none) fun _ _ _ _ none => none

/-- Where a call of a key is met within itself, its key recurs. -/
theorem Due.recurs {s : List BuildEntry} {u : Option Key} {c : Call}
    (due : src.Due catalog m (depth + 1) s u key) (accessor : m ∈ ms)
    (mem : c ∈ src.calls catalog key) (met : .building c.element ∈ s) :
    src.Recurs catalog ms c.key :=
  ⟨m, accessor, s, u, key, c, due.1, mem, met, rfl⟩

/-! ## Calls -/

/-- Requests that are due are answered alike. -/
def Agrees (src : Source) (catalog : Catalog) (className : String) (ms : List MemberId)
    (m : MemberId) (depth : Nat) (requests : Requests) : Prop :=
  ∀ site site' key st st', Paired catalog className st st' site site' →
    src.Due catalog m depth st.stack.entries site.unwrapping key →
    src.Pairs catalog className ms m site.around site'.around Reading.slot.option st st'
      (requests site key) (requests site' key)

section Pairs

variable (tidy : src.Tidy catalog ms) (accessor : m ∈ ms)
  (agrees : src.Agrees catalog className ms m depth requests)
  (paired : Paired catalog className st st' site site')

include agrees paired

theorem pairs_demand (due : src.Due catalog m depth st.stack.entries site.unwrapping key) :
    src.Pairs catalog className ms m site.around site'.around .slot st st'
      (demand requests site key) (demand requests site' key) := by
  refine (agrees site site' key st st' paired due).bind
    fun answer answer' next next' _ _ _ both => ?_
  obtain ⟨rfl, rfl⟩ | ⟨slot, slot', rfl, rfl, served⟩ := both.option_cases
  · exact .failTraced
  · exact .pure served

theorem pairs_arguments {subst : Subst} (element : Element) {params : List ParamDecl}
    (out out' : Table String Slot) (distinct : (out.keys ++ params.map (·.name)).Nodup)
    (distinct' : (out'.keys ++ params.map (·.name)).Nodup)
    (due : ∀ param ∈ params, src.Due catalog m depth st.stack.entries site.unwrapping
      (src.paramKey subst param)) :
    src.Alike catalog className ms m st st' (src.arguments requests site subst element params out)
      (src.arguments requests site' subst element params out') fun args args' next next' =>
        ∃ rows rows', args.rows = out.rows ++ rows ∧ args'.rows = out'.rows ++ rows' ∧
          Matches site.around site'.around Reading.slot.row.list next.arena next'.arena
            rows rows' := by
  induction params generalizing out out' st st' with
  | nil => exact .pure ⟨[], [], by simp, by simp, .nil⟩
  | cons param rest ih =>
      simp only [arguments]
      refine (alike_report _ _).bind fun _ _ mid mid' _ le le' _ => ?_
      have paired := paired.mono le le'
      have first := le.entries ▸ due param List.mem_cons_self
      refine (agrees site site' _ mid mid' paired first).bind
        fun answer answer' next next' twins lt lt' both => ?_
      have paired := paired.mono lt lt'
      have others : ∀ p ∈ rest, src.Due catalog m depth next.stack.entries site.unwrapping
          (src.paramKey subst p) := by
        intro p mem
        rw [lt.entries, le.entries]
        exact due p (List.mem_cons_of_mem param mem)
      obtain ⟨rfl, rfl⟩ | ⟨slot, slot', rfl, rfl, served⟩ := both.option_cases
      · dsimp only
        split
        · exact ih paired out out' (distinct.sublist (by simp)) (distinct'.sublist (by simp)) others
        · exact .failTraced
      · -- A new name is behind all others, with the rest behind it.
        have behind {t : Table String Slot} (s : Slot)
            (distinct : (t.keys ++ (param :: rest).map (·.name)).Nodup) :
            (t.insert param.name s).rows = t.rows ++ [(param.name, s)] ∧
              ((t.insert param.name s).keys ++ rest.map (·.name)).Nodup := by
          have new : param.name ∉ t.keys := fun mem =>
            (List.nodup_append.mp distinct).2.2 _ mem _ List.mem_cons_self rfl
          have rows := Table.rows_insert_of_notMem new s
          refine ⟨rows, ?_⟩
          rw [Table.keys, rows]
          simpa [Table.keys] using distinct
        obtain ⟨rows, nodup⟩ := behind slot distinct
        obtain ⟨rows', nodup'⟩ := behind slot' distinct'
        refine .of_twins fun twins => .mono (ih paired _ _ nodup nodup' others) ?_
        rintro args args' last last' lt lt' ⟨more, more', split, split', tail⟩
        refine ⟨(param.name, slot) :: more, (param.name, slot') :: more', ?_, ?_, ?_⟩
        · rw [split, rows, List.append_assoc, List.singleton_append]
        · rw [split', rows', List.append_assoc, List.singleton_append]
        · exact ((served.row param.name).mono twins.left.sound twins.right.sound lt.within
            lt'.within).cons tail

/-- All arguments of a call. -/
theorem pairs_passed {subst : Subst} (element : Element) {params : List ParamDecl}
    (distinct : (params.map (·.name)).Nodup)
    (due : ∀ param ∈ params, src.Due catalog m depth st.stack.entries site.unwrapping
      (src.paramKey subst param)) :
    src.Alike catalog className ms m st st' (src.arguments requests site subst element params {})
      (src.arguments requests site' subst element params {}) fun args args' next next' =>
        Matches site.around site'.around Reading.slot.row.list next.arena next'.arena args.rows
          args'.rows := by
  refine .mono (pairs_arguments agrees paired element {} {} distinct distinct due) ?_
  rintro args args' next next' - - ⟨rows, rows', whole, whole', passed⟩
  rw [whole, whole']
  exact passed

theorem pairs_receiverFor {subst : Subst} {receiver : Option Ty}
    (due : ∀ ty ∈ receiver, src.Due catalog m depth st.stack.entries site.unwrapping
      (receiverKey subst ty)) :
    src.Pairs catalog className ms m site.around site'.around Reading.slot.option st st'
      (receiverFor requests site subst receiver) (receiverFor requests site' subst receiver) := by
  cases receiver with
  | none => exact .pure .none'
  | some ty =>
      exact (pairs_demand agrees paired (due ty rfl)).bind
        fun slot slot' _ _ _ _ _ both => .pure both.some'

/-- The receiver, the arguments and then the call itself, outside the parameters of the
lambda that makes it, if there is one. -/
theorem pairs_call (c : Call) {lambda lambda' : List LambdaParam}
    {step step' blank : Option Slot → Table String Slot → Plan}
    (split : site.around = lambda.reverse ++ around)
    (split' : site'.around = lambda'.reverse ++ around')
    (new : ∀ name ∈ names lambda, name ∉ names around ∧ IsParamName name)
    (new' : ∀ name ∈ names lambda', name ∉ names around' ∧ IsParamName name)
    (distinct : (c.params.map (·.name)).Nodup)
    (due : ∀ asked ∈ src.asks c,
      src.Due catalog m depth st.stack.entries site.unwrapping asked)
    (calls : ∀ receiver args, (step receiver args).Calls lambda receiver args blank)
    (calls' : ∀ receiver args, (step' receiver args).Calls lambda' receiver args blank) :
    src.Pairs catalog className ms m around around' .plan st st'
      (do
        let receiver ← receiverFor requests site c.subst c.receiver
        let args ← src.arguments requests site c.subst c.element c.params {}
        alloc (step receiver args))
      (do
        let receiver ← receiverFor requests site' c.subst c.receiver
        let args ← src.arguments requests site' c.subst c.element c.params {}
        alloc (step' receiver args)) := by
  have receiver : ∀ ty ∈ c.receiver, src.Due catalog m depth st.stack.entries site.unwrapping
      (receiverKey c.subst ty) :=
    fun ty mem => due _ (List.mem_append_left _ (by simp [Option.mem_def.mp mem]))
  refine (pairs_receiverFor agrees paired receiver).bind
    fun answer answer' mid mid' twins le le' received => ?_
  have params : ∀ param ∈ c.params, src.Due catalog m depth mid.stack.entries site.unwrapping
      (src.paramKey c.subst param) := by
    intro param mem
    rw [le.entries]
    exact due _ (List.mem_append_right _ (List.mem_map_of_mem mem))
  refine (pairs_passed agrees (paired.mono le le') c.element distinct params).bind
    fun args args' next next' _ lt lt' passed => ?_
  have received := received.mono twins.left.sound twins.right.sound lt.within lt'.within
  rw [split, split'] at received passed
  exact pairs_alloc_call (calls answer args) (calls' answer' args') new new' received passed

include tidy accessor

theorem pairs_planCtor {cls : ClassId} {index : Nat} {ty : Ty} (k : Key)
    (due : src.Due catalog m (depth + 1) st.stack.entries site.unwrapping key)
    (mem : src.ctorCall k cls index ty ∈ src.calls catalog key) :
    src.Pairs catalog className ms m site.around site'.around .plan st st'
      (src.planCtor requests site k cls index ty) (src.planCtor requests site' k cls index ty) := by
  refine pairs_constructing tidy (due.recurs accessor mem) fun new => ?_
  dsimp only
  have asks := due.asked mem rfl new
  have paired := paired.push (.building (src.ctorCall k cls index ty).element)
  cases found : (src.program.classAt cls).ctors[index]? with
  | none => exact .throw
  | some ctor =>
      have params : ∀ param ∈ ctor.params, src.Due catalog m depth
          (st.push (.building (src.ctorCall k cls index ty).element)).stack.entries
          site.unwrapping (src.paramKey ((src.program.classAt cls).substFor ty) param) := by
        intro param among
        refine asks _ (List.mem_append_right _ (List.mem_map.mpr ⟨param, ?_, rfl⟩))
        simpa only [ctorCall, found, Option.map_some, Option.getD_some] using among
      refine (pairs_passed agrees paired (.ctor cls (UInt64.ofNat index))
        (tidy.distinct.ctor found) params).bind fun args args' next next' _ _ _ passed => ?_
      have calls (args : Table String Slot) :
          (Plan.construct ty args ctor.namedArguments).Calls [] none args
            fun _ args => .construct ty args ctor.namedArguments := ⟨rfl, rfl, rfl, rfl, rfl⟩
      have none : Matches site.around site'.around Reading.slot.option next.arena next'.arena
          none none := .none'
      exact pairs_alloc_call (calls args) (calls args') (List.forall_mem_nil _)
        (List.forall_mem_nil _) none passed

theorem pairs_planCall {b : MemberBinding} {subst : Subst} (k : Key)
    (due : src.Due catalog m (depth + 1) st.stack.entries site.unwrapping key)
    (mem : src.memberCall k b.member subst false ∈ src.calls catalog key) :
    src.Pairs catalog className ms m site.around site'.around .plan st st'
      (src.planCall requests site k b subst) (src.planCall requests site' k b subst) := by
  refine pairs_constructing tidy (due.recurs accessor mem) fun new => ?_
  have asks := due.asked mem rfl new
  let step (receiver : Option Slot) (args : Table String Slot) : Plan :=
    .provide className (src.program.memberAt b.member).name b.path receiver
      ((src.program.memberAt b.member).kind == .property) args
  have calls (receiver : Option Slot) (args : Table String Slot) :
      (step receiver args).Calls [] receiver args step := ⟨rfl, rfl, rfl, rfl, rfl⟩
  have called := pairs_call agrees (paired.push (.building (.member b.member)))
    (src.memberCall k b.member subst false) rfl rfl (List.forall_mem_nil _)
    (List.forall_mem_nil _) (tidy.distinct.member b.member) asks calls calls
  rw [paired.left.className_eq, paired.right.className_eq]
  exact called

omit tidy accessor in
theorem pairs_planKept {path : FieldPath}
    (due : src.Due catalog m (depth + 1) st.stack.entries site.unwrapping key)
    (wrapped : site.isUnwrapping key = false) (built : src.calls catalog key ≠ []) :
    src.Pairs catalog className ms m site.around site'.around .plan st st'
      (planKept requests site key path) (planKept requests site' key path) := by
  have unwrapped : src.Due catalog m depth st.stack.entries (site.unwrap key).unwrapping key :=
    due.unwrap (by simpa [Site.isUnwrapping] using wrapped) built
  refine (pairs_demand agrees (paired.unwrap key) unwrapped).bind
    fun slot slot' next next' _ _ _ both => ?_
  have surrounds (slot : Slot) :
      (Plan.keep key.text path slot).Surrounds [] slot (.keep key.text path) :=
    ⟨rfl, rfl, rfl, rfl, rfl⟩
  exact pairs_alloc_around (surrounds slot) (surrounds slot')
    (List.forall_mem_nil _) (List.forall_mem_nil _) both

theorem pairs_planMember {b : MemberBinding} {subst : Subst}
    (due : src.Due catalog m (depth + 1) st.stack.entries site.unwrapping key)
    (mem : src.memberCall key b.member subst false ∈ src.calls catalog key) :
    src.Pairs catalog className ms m site.around site'.around .plan st st'
      (src.planMember requests site key b subst) (src.planMember requests site' key b subst) := by
  simp only [planMember, paired.isUnwrapping_eq key]
  split
  · rename_i wrap
    have wrapped : site.isUnwrapping key = false := by simp_all
    exact pairs_planKept agrees paired due wrapped (List.ne_nil_of_mem mem)
  · exact pairs_planCall tidy accessor agrees paired key due mem

theorem pairs_contributorSlots {contributors : List MemberBinding}
    (due : src.Due catalog m (depth + 1) st.stack.entries site.unwrapping key)
    (mem : ∀ b ∈ contributors, src.memberCall (src.contributionKey b) b.member .empty false ∈
      src.calls catalog key) :
    src.Pairs catalog className ms m site.around site'.around Reading.slot.list st st'
      (src.contributorSlots requests site contributors)
      (src.contributorSlots requests site' contributors) := by
  induction contributors generalizing st st' with
  | nil => exact .pure .nil
  | cons b rest ih =>
      simp only [contributorSlots]
      refine (pairs_planCall tidy accessor agrees paired (src.contributionKey b) due
        (mem b List.mem_cons_self)).bind fun id id' mid mid' twins le le' both => ?_
      have others := ih (paired.mono le le') (le.entries ▸ due)
        fun b among => mem b (List.mem_cons_of_mem _ among)
      refine others.bind fun slots slots' next next' _ lt lt' tail => .pure ?_
      have first := both.mono twins.left.sound twins.right.sound lt.within lt'.within
      have slot : Matches site.around site'.around .slot next.arena next'.arena
          ⟨src.contributionKey b, id⟩ ⟨src.contributionKey b, id'⟩ :=
        ⟨first.left, first.right, congrArg (Need.mk (src.contributionKey b)) first.same⟩
      exact slot.cons tail

theorem pairs_planBinding {b : Binding}
    (due : src.Due catalog m (depth + 1) st.stack.entries site.unwrapping key)
    (chosen : (src.choose catalog key).1 = .binding b) :
    src.Pairs catalog className ms m site.around site'.around .plan st st'
      (src.planBinding requests site key b) (src.planBinding requests site' key b) := by
  have calls := calls_of_binding chosen
  cases b with
  | ctor cls index ty path scopedIn =>
      have mem : src.ctorCall key cls index ty ∈ src.calls catalog key := by
        rw [calls]
        exact List.mem_singleton_self _
      simp only [planBinding, paired.isUnwrapping_eq key]
      split
      · rename_i wrap
        have wrapped : site.isUnwrapping key = false := by simp_all
        exact pairs_planKept agrees paired due wrapped (List.ne_nil_of_mem mem)
      · exact pairs_planCtor tidy accessor agrees paired key due mem
  | member b =>
      have mem : src.memberCall key b.member .empty false ∈ src.calls catalog key := by
        rw [calls]
        exact List.mem_singleton_self _
      exact pairs_planMember tidy accessor agrees paired due mem
  | container kind contributors =>
      have mem : ∀ b ∈ contributors,
          src.memberCall (src.contributionKey b) b.member .empty false ∈ src.calls catalog key := by
        rw [calls]
        exact fun b among => List.mem_map_of_mem among
      refine (pairs_contributorSlots tidy accessor agrees paired due mem).bind
        fun slots slots' next next' _ _ _ both => ?_
      have composes (slots : List Slot) : (Plan.container kind slots).Composes [] slots
          (.container kind (slots.map fun s => { s with id := 0 })) := ⟨rfl, rfl, rfl, rfl, rfl⟩
      refine pairs_alloc (composes slots) (composes slots') (List.forall_mem_nil _)
        (List.forall_mem_nil _) (fun c child => both.left c.id ?_)
        (fun c child => both.right c.id ?_) ?_
      · rw [Reading.ids_slots]
        exact List.mem_map_of_mem child
      · rw [Reading.ids_slots]
        exact List.mem_map_of_mem child
      · have read (a : Arena) (scope : List String) (slots : List Slot) :
            PlanTree.node (.container kind (slots.map fun s => { s with id := 0 }))
                (slots.map fun c => a.nameless scope c.id) =
              .node (.container kind ((Reading.slot.list.read a scope slots).map Need.slot))
                ((Reading.slot.list.read a scope slots).map Need.tree) := by
          simp only [Reading.list, List.map_map]
          rfl
        have same := congrArg (fun needs : List Need =>
          PlanTree.node (.container kind (needs.map Need.slot)) (needs.map Need.tree)) both.same
        exact (read _ _ slots).trans (same.trans (read _ _ slots').symm)
  | object cls =>
      have composes : (Plan.object (src.program.classAt cls).ty).Composes [] []
          (.object (src.program.classAt cls).ty) := ⟨rfl, rfl, rfl, rfl, rfl⟩
      exact pairs_alloc composes composes (List.forall_mem_nil _) (List.forall_mem_nil _)
        (List.forall_mem_nil _) (List.forall_mem_nil _) rfl

/-! ## Values built later -/

omit tidy accessor agrees in
include paired in
/-- Inside lambdas whose parameters were given new names. -/
theorem Paired.inside {tys : List Ty} {lambda lambda' : List LambdaParam}
    (follows : src.Follows catalog ms False st next)
    (follows' : src.Follows catalog ms False st' next')
    (named : types lambda = tys ∧ (names lambda).Nodup ∧ ∀ name ∈ names lambda,
      name ∉ st.names.taken ∧ name ∈ next.names.taken ∧ IsParamName name)
    (named' : types lambda' = tys ∧ (names lambda').Nodup ∧ ∀ name ∈ names lambda',
      name ∉ st'.names.taken ∧ name ∈ next'.names.taken ∧ IsParamName name) :
    (∀ name ∈ names lambda, name ∉ names site.around ∧ IsParamName name) ∧
      (∀ name ∈ names lambda', name ∉ names site'.around ∧ IsParamName name) ∧
        Paired catalog className next next' (site.inside lambda) (site'.inside lambda') := by
  obtain ⟨same, distinct, fresh⟩ := named
  obtain ⟨same', distinct', fresh'⟩ := named'
  have outside : ∀ name ∈ names lambda, name ∉ names site.around ∧ IsParamName name :=
    fun name mem => ⟨fun around => (fresh name mem).1 (paired.left.taken name around).1,
      (fresh name mem).2.2⟩
  have outside' : ∀ name ∈ names lambda', name ∉ names site'.around ∧ IsParamName name :=
    fun name mem => ⟨fun around => (fresh' name mem).1 (paired.right.taken name around).1,
      (fresh' name mem).2.2⟩
  have here := paired.mono follows follows'
  refine ⟨outside, outside', ?_, ?_, ?_, paired.unwrapping_eq⟩
  · exact here.left.inside distinct fun name mem => ⟨(outside name mem).1, (fresh name mem).2⟩
  · exact here.right.inside distinct' fun name mem => ⟨(outside' name mem).1, (fresh' name mem).2⟩
  · rw [Site.around_inside, Site.around_inside, types_inside, types_inside, same, same',
      paired.types_eq]

theorem pairs_planFunctionCall {f : MemberId} {tys : List Ty}
    (due : src.Due catalog m (depth + 1) st.stack.entries site.unwrapping key)
    (mem : src.memberCall key f .empty true ∈ src.calls catalog key) :
    src.Pairs catalog className ms m site.around site'.around .plan st st'
      (src.planFunctionCall requests site key f tys)
      (src.planFunctionCall requests site' key f tys) := by
  refine alike_deferred (fun _ _ _ _ _ _ both => both)
    (pairs_constructing tidy (fun met => due.recurs accessor mem ?_) fun new => ?_)
  · exact (List.mem_cons.mp met).resolve_left (by simp)
  have new : above? (.member f) st.stack.entries = none := by
    have new : above? (.member f) (.deferred :: st.stack.entries) = none := new
    rwa [above?, if_neg (by simp), Option.map_eq_none_iff] at new
  have paired := (paired.push .deferred).push (.building (.member f))
  refine alike_nameParams.bind ?_
  rintro lambda lambda' start start' - le le' ⟨named, named'⟩
  obtain ⟨outside, outside', inside⟩ := paired.inside le le' named named'
  have asks : ∀ asked ∈ src.asks (src.memberCall key f .empty true),
      src.Due catalog m depth start.stack.entries site.unwrapping asked := by
    rw [le.entries]
    exact due.lambda mem rfl new
  let step (lambda : List LambdaParam) (receiver : Option Slot) (args : Table String Slot) : Plan :=
    .namedFunction (src.program.memberAt f).package (src.program.memberAt f).name (names lambda)
      receiver args
  let blank (receiver : Option Slot) (args : Table String Slot) : Plan :=
    .namedFunction (src.program.memberAt f).package (src.program.memberAt f).name
      (tys.map fun _ => "") receiver args
  have calls {lambda : List LambdaParam} (same : types lambda = tys) (receiver : Option Slot)
      (args : Table String Slot) :
      (step lambda receiver args).Calls lambda receiver args blank := by
    refine ⟨rfl, rfl, rfl, rfl, ?_⟩
    simp only [step, blank, ← same, types, names, Plan.shape, Plan.mapSlots, Plan.nameless,
      List.map_map]
    rfl
  exact pairs_call agrees inside (src.memberCall key f .empty true) (site.around_inside lambda)
    (site'.around_inside lambda') outside outside' (tidy.distinct.member f) asks (calls named.1)
    (calls named'.1)

theorem pairs_planFunction
    (due : src.Due catalog m (depth + 1) st.stack.entries site.unwrapping key)
    (unbound : src.Unbound catalog key) (function : key.ty.isFunction = true) :
    src.Pairs catalog className ms m site.around site'.around .plan st st'
      (src.planFunction requests site key) (src.planFunction requests site' key) := by
  simp only [planFunction]
  split
  · exact .failTraced
  · rename_i result last
    split
    · rename_i f aliased
      have mem : src.memberCall key f .empty true ∈ src.calls catalog key := by
        rw [calls_of_unbound unbound]
        simp [unboundCalls, function, aliased]
      exact pairs_planFunctionCall tidy accessor agrees paired due mem
    · rename_i aliased
      have inner : src.innerKey? key = some (.of result key.qualifier) := by
        simp [innerKey?, function, aliased, last]
      -- What is said inside the lambdas, of their parameters and of the slots.
      let said (x x' : List LambdaParam × Slot) (next next' : PlannerState) : Prop :=
        (types x.1 = key.ty.dealias.args.dropLast ∧
            ∀ name ∈ names x.1, name ∉ names site.around ∧ IsParamName name) ∧
          (types x'.1 = key.ty.dealias.args.dropLast ∧
            ∀ name ∈ names x'.1, name ∉ names site'.around ∧ IsParamName name) ∧
          Matches (x.1.reverse ++ site.around) (x'.1.reverse ++ site'.around) .slot next.arena
            next'.arena x.2 x'.2
      refine Alike.bind (alike_deferred (fun _ _ _ _ _ _ both => both) ?_ :
        src.Alike catalog className ms m st st' _ _ said) ?_
      · refine alike_nameParams.bind ?_
        rintro lambda lambda' mid mid' - le le' ⟨named, named'⟩
        obtain ⟨outside, outside', inside⟩ := (paired.push .deferred).inside le le' named named'
        have asked : src.Due catalog m depth mid.stack.entries site.unwrapping
            (.of result key.qualifier) := by
          rw [le.entries]
          exact due.inner unbound inner
        refine (pairs_demand agrees inside asked).bind fun slot slot' next next' _ _ _ both =>
          .pure ⟨⟨named.1, outside⟩, ⟨named'.1, outside'⟩, ?_⟩
        rw [Site.around_inside, Site.around_inside] at both
        exact both
      · rintro ⟨lambda, slot⟩ ⟨lambda', slot'⟩ next next' - - -
          ⟨⟨same, outside⟩, ⟨same', outside'⟩, both⟩
        have surrounds {lambda : List LambdaParam} (slot : Slot)
            (same : types lambda = key.ty.dealias.args.dropLast) :
            (Plan.function (names lambda) slot).Surrounds lambda slot
              (.function (key.ty.dealias.args.dropLast.map fun _ => "")) := by
          refine ⟨rfl, rfl, rfl, rfl, ?_⟩
          simp only [← same, types, names, Plan.shape, Plan.mapSlots, Plan.nameless, List.map_map]
          rfl
        exact pairs_alloc_around (surrounds slot same) (surrounds slot' same') outside outside' both

omit tidy accessor in
theorem pairs_planLazy
    (due : src.Due catalog m (depth + 1) st.stack.entries site.unwrapping key)
    (unbound : src.Unbound catalog key) (plain : key.ty.isFunction = false)
    (strict : key.ty.isLazy = true) :
    src.Pairs catalog className ms m site.around site'.around .plan st st'
      (planLazy requests site key) (planLazy requests site' key) := by
  simp only [planLazy]
  split
  · exact .failTraced
  · rename_i inner first
    have inner : src.innerKey? key = some (.of inner key.qualifier) := by
      simp [innerKey?, plain, strict, first]
    have demanded := pairs_demand agrees (paired.push .deferred) (due.inner unbound inner)
    refine (alike_deferred (fun _ _ _ _ _ _ both => both) demanded).bind
      fun slot slot' next next' _ _ _ both => ?_
    have surrounds (slot : Slot) : (Plan.lazy slot).Surrounds [] slot .lazy :=
      ⟨rfl, rfl, rfl, rfl, rfl⟩
    exact pairs_alloc_around (surrounds slot) (surrounds slot')
      (List.forall_mem_nil _) (List.forall_mem_nil _) both

/-! ## Requests -/

theorem pairs_planGeneric
    (due : src.Due catalog m (depth + 1) st.stack.entries site.unwrapping key)
    (unbound : src.Unbound catalog key) (plain : key.ty.isFunction = false)
    (strict : key.ty.isLazy = false) :
    src.Pairs catalog className ms m site.around site'.around Reading.plan.option st st'
      (src.planGeneric requests site key) (src.planGeneric requests site' key) := by
  simp only [planGeneric]
  rw [paired.left.catalog_eq, paired.right.catalog_eq]
  split
  · exact .pure .none'
  · rename_i b subst fits
    have mem : src.memberCall key b.member subst false ∈ src.calls catalog key := by
      rw [calls_of_unbound unbound]
      simp [unboundCalls, plain, strict, fits]
    exact (pairs_planMember tidy accessor agrees paired due mem).bind
      fun id id' _ _ _ _ _ both => .pure both.some'
  · exact .failTraced

omit tidy accessor agrees in
include paired in
/-- The same binding is followed. -/
theorem alike_bindingFor :
    src.Alike catalog className ms m st st' (src.bindingFor site key) (src.bindingFor site' key)
      fun answer answer' _ _ => answer' = answer ∧ match answer with
        | some b => (src.choose catalog key).1 = .binding b
        | none => src.Unbound catalog key := by
  simp only [bindingFor]
  rw [paired.left.catalog_eq, paired.right.catalog_eq]
  refine (alike_report _ _).bind fun _ _ next next' _ _ _ _ => ?_
  split
  · rename_i chosen
    exact .pure ⟨rfl, chosen⟩
  · rename_i b chosen
    exact .pure ⟨rfl, chosen⟩
  · exact .failTraced

omit tidy accessor agrees in
include paired in
variable (src) in
/-- The same lambda parameter stands for a key, or none does. -/
theorem Paired.findParam_cases (key : Key) :
    (site.findParam src.program key = none ∧ site'.findParam src.program key = none) ∨
      ∃ param param' n, site.findParam src.program key = some param ∧
        site'.findParam src.program key = some param' ∧
        (names site.around).idxOf? param.name = some n ∧
        (names site'.around).idxOf? param'.name = some n := by
  have whole (site : Site) : site.around = site.around ++ [] := (List.append_nil _).symm
  cases found : site.findParam src.program key with
  | none =>
      have index := paramIndex?_eq_none found (whole site)
      cases found' : site'.findParam src.program key with
      | none => exact .inl ⟨rfl, rfl⟩
      | some param' =>
          obtain ⟨n, index', -⟩ :=
            paramIndex?_of_findParam paired.right found' (whole site') List.not_mem_nil
          rw [paired.types_eq, index] at index'
          cases index'
  | some param =>
      obtain ⟨n, index, place⟩ :=
        paramIndex?_of_findParam paired.left found (whole site) List.not_mem_nil
      cases found' : site'.findParam src.program key with
      | none =>
          have index' := paramIndex?_eq_none found' (whole site')
          rw [paired.types_eq, index] at index'
          cases index'
      | some param' =>
          obtain ⟨n', index', place'⟩ :=
            paramIndex?_of_findParam paired.right found' (whole site') List.not_mem_nil
          rw [paired.types_eq, index] at index'
          cases index'
          exact .inr ⟨param, param', n, rfl, rfl, place, place'⟩

omit tidy accessor agrees in
include paired in
/-- References to the lambda parameters that stand for a key. -/
theorem pairs_alloc_arg {param param' : LambdaParam} {n : Nat} (known : key.ty.isUnresolved = false)
    (found : site.findParam src.program key = some param)
    (found' : site'.findParam src.program key = some param')
    (place : (names site.around).idxOf? param.name = some n)
    (place' : (names site'.around).idxOf? param'.name = some n) :
    src.Pairs catalog className ms m site.around site'.around Reading.plan.option st st'
      (do return some (← alloc (.arg param.name)))
      (do return some (← alloc (.arg param'.name))) := by
  have one : src.Mirrors catalog className ms False site.around st Reading.plan.option
      (do return some (← alloc (.arg param.name)))
      fun scope => (src.blueprint catalog className).next src catalog className false scope key :=
    mirrors_alloc_arg paired.left known found
  have two : src.Mirrors catalog className ms False site'.around st' Reading.plan.option
      (do return some (← alloc (.arg param'.name)))
      fun scope => (src.blueprint catalog className).next src catalog className false scope key :=
    mirrors_alloc_arg paired.right known found'
  refine .of_meets rfl rfl one two fun twins _ _ told told' =>
    ⟨twins.pending, ?_, told.serves, told'.serves, ?_⟩
  · exact twins.kept.mono twins.left twins.right (.alloc _ _) (.alloc _ _) (fun _ _ => rfl)
      fun _ _ => rfl
  · have tree {s : PlannerState} (sound : s.arena.Sound) {scope : List String} {name : String}
        (place : scope.idxOf? name = some n) :
        (s.arena.alloc (.arg name)).2.nameless scope s.arena.size =
          .node (.arg (positional n)) [] := by
      rw [Arena.nameless_alloc (p := .arg name) sound (List.forall_mem_nil _)]
      simp only [Plan.shape, Plan.mapSlots, Plan.nameless, Plan.position, place]
      rfl
    exact congrArg some ((tree twins.left.sound place).trans (tree twins.right.sound place').symm)

theorem pairs_planFor
    (due : src.Due catalog m (depth + 1) st.stack.entries site.unwrapping key) :
    src.Pairs catalog className ms m site.around site'.around Reading.plan.option st st'
      (src.planFor requests site key) (src.planFor requests site' key) := by
  have option {act act' : PlanM PlanId} {st st' : PlannerState}
      (both : src.Pairs catalog className ms m site.around site'.around .plan st st' act act') :
      src.Pairs catalog className ms m site.around site'.around Reading.plan.option st st'
        (do return some (← act)) (do return some (← act')) :=
    Alike.bind both fun id id' _ _ _ _ _ both => .pure both.some'
  simp only [planFor]
  split
  · exact .throw
  · rename_i known
    rw [Bool.not_eq_true] at known
    obtain ⟨none, none'⟩ | ⟨param, param', n, found, found', place, place'⟩ :=
      paired.findParam_cases src key
    · rw [none, none']
      dsimp only
      refine (alike_bindingFor paired).bind ?_
      rintro _ answer next next' - le le' ⟨rfl, chosen⟩
      have paired := paired.mono le le'
      have due := le.entries ▸ due
      cases answer with
      | some b => exact option (pairs_planBinding tidy accessor agrees paired due chosen)
      | none =>
          dsimp only
          split
          · rename_i function
            exact option (pairs_planFunction tidy accessor agrees paired due chosen function)
          · rename_i plain
            split
            · rename_i strict
              exact option (pairs_planLazy agrees paired due chosen (by simpa using plain) strict)
            · rename_i strict
              exact pairs_planGeneric tidy accessor agrees paired due chosen
                (by simpa using plain) (by simpa using strict)
    · rw [found, found']
      exact pairs_alloc_arg paired known found found' place place'

end Pairs

/-- For a key that is not calm, plans of one tree are found in both states, or none. -/
theorem alike_kept? (paired : Paired catalog className st st' site site')
    (comes : ReflTransGen (src.Next catalog) (src.accessorKey catalog m) key)
    (wild : ¬src.Calm catalog ms key) :
    src.Pairs catalog className ms m site.around site'.around Reading.plan.option st st'
      (kept? site key) (kept? site' key) := by
  have outside : site'.lambdaParams.isEmpty = site.lambdaParams.isEmpty := by
    have lengths := congrArg List.length paired.types_eq
    simp only [types, List.length_map, Site.around, List.length_reverse] at lengths
    rw [Bool.eq_iff_iff, List.isEmpty_iff_length_eq_zero, List.isEmpty_iff_length_eq_zero, lengths]
  simp only [kept?, paired.isUnwrapping_eq key, outside]
  split
  · rename_i here
    rw [Bool.and_eq_true, List.isEmpty_iff] at here
    have nothing : site.around = [] := by rw [Site.around, here.1, List.reverse_nil]
    have nothing' : site'.around = [] := by
      rw [here.1, List.isEmpty_nil, List.isEmpty_iff] at outside
      rw [Site.around, outside, List.reverse_nil]
    have run (st : PlannerState) :
        (do return (← get).cache.get? key : PlanM (Option PlanId)).runFrom st =
          (.ok (st.cache.get? key), st) := by
      simp only [runFrom_bind, runFrom_get, runFrom_pure]
    have served {s : PlannerState} (settled : src.Settled catalog className ms s)
        (around : List LambdaParam) :
        ∀ id ∈ Reading.plan.option.ids (s.cache.get? key), Serves around s.arena id := by
      intro id mem
      cases found : s.cache.get? key with
      | none =>
          rw [found] at mem
          cases mem
      | some kept =>
          rw [found] at mem
          obtain rfl := List.mem_singleton.mp mem
          exact serves_of_isClosed (settled.kept found).known (settled.kept found).closed
    refine .of_ok (run st) (run st') fun twins => ⟨twins,
      (src.copying catalog className ms False).refl st,
      (src.copying catalog className ms False).refl st',
      served twins.left site.around, served twins.right site'.around, ?_⟩
    rw [nothing, nothing']
    exact (twins.kept key comes wild).symm
  · exact .pure .none'

/-- One more step of depth. -/
theorem agrees_requestWith (tidy : src.Tidy catalog ms) (accessor : m ∈ ms)
    (replies : src.Transcribes catalog className ms m depth (src.blueprint catalog className)
      requests)
    (agrees : src.Agrees catalog className ms m depth requests) :
    src.Agrees catalog className ms m (depth + 1) (src.requestWith requests) := by
  intro site site' key st st' paired due
  refine .of_twins fun twins => ?_
  by_cases calm : src.Calm catalog ms key
  · -- Both answers are copies of the blueprint.
    have sought : src.Sought catalog ms m True (depth + 1) (site.isUnwrapping key) site
        st.stack.entries key := ⟨due, fun _ => calm, fun _ => rfl⟩
    have sought' : src.Sought catalog ms m True (depth + 1) (site.isUnwrapping key) site'
        st'.stack.entries key := by
      refine ⟨?_, fun _ => calm, fun _ => paired.isUnwrapping_eq key⟩
      rw [twins.entries, paired.unwrapping_eq]
      exact due
    have one := transcribes_requestWith tidy accessor replies True _ site key st paired.left sought
    have two :=
      transcribes_requestWith tidy accessor replies True _ site' key st' paired.right sought'
    rw [paired.types_eq] at two
    refine .of_quiet one two ?_ ?_ ?_
    · rintro answer answer' next next' ⟨same, told⟩ ⟨same', told'⟩
      have copy := told.copies trivial site.around clear_around
      have copy' := told'.copies trivial site'.around clear_around
      rw [paired.types_eq, copy] at copy'
      have read {answer : Option Slot} (same : ∀ slot ∈ answer, slot.key = key) (a : Arena)
          (scope : List String) : Reading.slot.option.read a scope answer =
            (Reading.value.option.read a scope answer).map (Need.mk key) := by
        cases answer with
        | none => rfl
        | some slot =>
            rw [← same slot rfl]
            rfl
      refine ⟨told.serves, told'.serves, ?_⟩
      rw [read same, read same', Option.some.inj copy']
    · rintro answer next e ⟨-, told⟩ none
      cases (told.copies trivial site.around clear_around).symm.trans (none trivial)
    · rintro answer next e ⟨-, told⟩ none
      have copy := told.copies trivial site'.around clear_around
      rw [paired.types_eq] at copy
      cases copy.symm.trans (none trivial)
  · have comes := due.1.chain
    have slotted {next next' : PlannerState} {answer answer' : Option PlanId}
        (both : Matches site.around site'.around Reading.plan.option next.arena next'.arena
          answer answer') :
        Matches site.around site'.around Reading.slot.option next.arena next'.arena
          (answer.map (Slot.mk key)) (answer'.map (Slot.mk key)) := by
      obtain ⟨rfl, rfl⟩ | ⟨id, id', rfl, rfl, tree⟩ := both.option_cases
      · exact .none'
      · exact ⟨tree.left, tree.right, congrArg (some ∘ Need.mk key) tree.same⟩
    simp only [requestWith]
    refine Alike.bind (alike_kept? paired comes calm)
      fun answer answer' mid mid' _ le le' found => ?_
    obtain ⟨rfl, rfl⟩ | ⟨id, id', rfl, rfl, -⟩ := found.option_cases
    · have paired := paired.mono le le'
      refine Alike.bind (pairs_planFor tidy accessor agrees paired (le.entries ▸ due))
        fun answer answer' next next' twins lt lt' planned => ?_
      obtain ⟨rfl, rfl⟩ | ⟨id, id', rfl, rfl, both⟩ := planned.option_cases
      · exact .pure (slotted planned)
      · dsimp only
        rw [paired.isUnwrapping_eq key]
        split
        · exact .pure (slotted planned)
        · have kinds {site : Site} {st : PlannerState} (stands : site.Stands catalog className st) :
              ∀ name ∈ names site.around, IsParamName name :=
            fun name mem => (stands.taken name mem).2
          refine (alike_remember accessor comes calm (kinds paired.left) (kinds paired.right)
            both).bind ?_
          rintro - - last last' - - - ⟨same, same'⟩
          refine .pure ?_
          rw [same, same']
          exact slotted planned
    · exact .pure (slotted found)

theorem agrees_requestTo (tidy : src.Tidy catalog ms) (accessor : m ∈ ms) (depth : Nat) :
    src.Agrees catalog className ms m depth (src.requestTo depth) := by
  induction depth with
  | zero => exact fun _ _ _ _ _ _ due => absurd due.2 (Nat.not_lt_zero _)
  | succ depth ih =>
      exact agrees_requestWith tidy accessor (transcribes_requestTo tidy accessor depth) ih

end Source

end Injector
