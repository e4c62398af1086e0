/-
# Injector.Proofs.Planner.Holding -- what planning hands out may be used

Each answer of the planner is a slot in hand: it may be put into one plan.  There is one
lemma for each function of the planner, in the order of their definitions;
`holds_requestTo` closes the circle by induction on the depth, and `holds_implementEach`
collects the results of the accessors.

So in what is planned for a component plans are shared by key (`planned_sharing`), and a
private entry, whose type is taken from one slot, has the right type for every other slot
that its plan was built for.
-/
import Injector.Proofs.Generation.Outcome
import Injector.Proofs.Planner.Ownership
import Injector.Proofs.Planner.Parameters

namespace Injector

set_option autoImplicit false

open PlanM
open PlannerState (KeepsSlot Owned HeldAll Spares heldAll_nil heldAll_singleton)

namespace Source

variable {src : Source} {site : Site} {base : Nat} {st next : PlannerState} {key : Key}
  {id : PlanId} {slots : List Slot}

/-! ## Steps -/

/-- A step that adds no plan and keeps none leaves the slots in hand. -/
theorem holds_of_same {α : Type} {act : PlanM α} {a : α} (run : act.runFrom st = (.ok a, next))
    (arena : next.arena = st.arena) (cache : next.cache = st.cache)
    (held : HeldAll base st slots) :
    Keeps (holding base) st act fun _ next => HeldAll base next slots := by
  refine .of_ok run fun inv => ?_
  have spares (bound : Nat) : Spares bound st next := (holding_of_same arena cache).2
  exact ⟨(holding_of_same arena cache).1 inv, spares base, held.spares (spares _)⟩

theorem holds_report (findings : List Finding) (held : HeldAll base st slots) :
    Keeps (holding base) st (report findings) fun _ next => HeldAll base next slots :=
  holds_of_same (runFrom_report findings st) rfl rfl held

theorem holds_alloc {p : Plan} (key : Key) (held : HeldAll base st p.children) :
    Keeps (holding base) st (alloc p) fun id next => next.Held base ⟨key, id⟩ := by
  refine .of_ok (runFrom_alloc p st) fun ⟨owned, le⟩ => ?_
  refine ⟨⟨owned.add held, ?_⟩, .add held, .inr ⟨le, .add owned held⟩⟩
  exact Nat.le_trans le (Spares.add held).within.size_le

/-- A plan that is in hand may be kept. -/
theorem holds_remember (held : st.Held base ⟨key, id⟩) :
    Keeps (holding base) st (remember key id) fun _ next => next.Held base ⟨key, id⟩ := by
  have untouched : (holding base).inv st →
      (holding base).inv st ∧ (holding base).le st st ∧ st.Held base ⟨key, id⟩ :=
    fun inv => ⟨inv, (holding base).refl st, held⟩
  by_cases closed : st.arena.isClosed id = true
  · have run : (remember key id).runFrom st = (.ok (), st.keep key id) := by
      rw [runFrom_remember, if_pos closed]
      rfl
    refine .of_ok run fun inv => ?_
    cases old : st.cache.get? key with
    | some other =>
        rw [PlannerState.keep_of_kept old]
        exact untouched inv
    | none =>
        obtain kept | ⟨high, loose⟩ := held
        · cases old.symm.trans kept
        · have now : (st.keep key id).KeepsSlot ⟨key, id⟩ :=
            (PlannerState.get?_keep old).mpr (.inr ⟨rfl, rfl⟩)
          exact ⟨⟨inv.1.keep loose closed old, inv.2⟩, .keep high old, .inl now⟩
  · have run : (remember key id).runFrom st = (.ok (), st) := by
      rw [runFrom_remember, if_neg closed]
    exact .of_ok run untouched

theorem holds_constructing {act : PlanM PlanId} {key : Key} {element : Element}
    (inside : ∀ entry, Keeps (holding base) (st.push entry) act fun id next =>
      next.Held base ⟨key, id⟩) :
    Keeps (holding base) st (constructing key element act) fun id next =>
      next.Held base ⟨key, id⟩ := by
  have stable {s : Slot} {next : PlannerState} (stack : BuildStack) (held : next.Held base s) :
      PlannerState.Held base { next with stack } s :=
    held.spares (holding_stackless.le next stack)
  refine .constructing holding_stackless inside stable ?_ ?_
  · intro id next _ held
    refine .closeCycle holding_stackless (fun stack => stable stack held) fun name stack => ?_
    exact holds_alloc key (heldAll_singleton.mpr (stable stack held))
  · intro name stack
    exact holds_alloc key (heldAll_nil base _)

/-! ## Calls -/

/-- From every state requests hand out what may be put into a plan. -/
def Holds (requests : Requests) : Prop :=
  ∀ base site key st, Keeps (holding base) st (requests site key) fun answer next =>
    ∀ slot ∈ answer, slot.key = key ∧ next.Held base slot

section Requests

variable {requests : Requests} (holds : Holds requests)

include holds

/-- What is in hand stays there while a request is made. -/
theorem holds_request (held : HeldAll base st slots) :
    Keeps (holding base) st (requests site key) fun answer next =>
      (∀ slot ∈ answer, slot.key = key) ∧ HeldAll base next (slots ++ answer.toList) := by
  refine (Keeps.frame Option.toList held (holds _ site key st) ?_).mono ?_
  · intro answer next said
    cases answer with
    | none => exact heldAll_nil _ _
    | some slot => exact heldAll_singleton.mpr (said slot rfl).2
  · intro answer next _ _ said
    exact ⟨fun slot mem => (said.1 slot mem).1, said.2⟩

theorem holds_demand (held : HeldAll base st slots) :
    Keeps (holding base) st (demand requests site key) fun slot next =>
      slot.key = key ∧ HeldAll base next (slots ++ [slot]) := by
  simp only [demand]
  refine (holds_request holds held).bind fun answer next _ _ said => ?_
  cases answer with
  | none => exact .failTraced _
  | some slot => exact .pure ⟨said.1 slot rfl, said.2⟩

/-- The arguments are in hand, beside the slots that were. -/
theorem holds_arguments {s : Subst} {element : Element} {params : List ParamDecl}
    {out : Table String Slot} (held : HeldAll base st (slots ++ out.values)) :
    Keeps (holding base) st (src.arguments requests site s element params out) fun args next =>
      HeldAll base next (slots ++ args.values) := by
  induction params generalizing out st with
  | nil => exact .pure held
  | cons param rest ih =>
      simp only [arguments]
      refine (holds_report _ held).bind fun _ mid _ _ held => ?_
      refine (holds_request holds held).bind fun answer next _ _ said => ?_
      cases answer with
      | none =>
          dsimp only
          split
          · apply ih
            simpa using said.2
          · exact .failTraced _
      | some slot =>
          apply ih
          obtain ⟨others, among, perm⟩ := out.values_insert_perm param.name slot
          have kept : HeldAll base next (slots ++ (others ++ [slot])) := by
            rw [← List.append_assoc]
            exact said.2.sublist ((among.append_left slots).append_right [slot])
          exact kept.perm (perm.symm.append_left slots)

theorem holds_receiverFor {s : Subst} {receiver : Option Ty} :
    Keeps (holding base) st (receiverFor requests site s receiver) fun answer next =>
      HeldAll base next answer.toList := by
  cases receiver with
  | none => exact .pure (heldAll_nil base st)
  | some ty =>
      simp only [receiverFor]
      refine (holds_demand holds (heldAll_nil base st)).bind
        fun slot next _ _ said => .pure said.2

theorem holds_planCtor {cls : ClassId} {index : Nat} {ty : Ty} :
    Keeps (holding base) st (src.planCtor requests site key cls index ty) fun id next =>
      next.Held base ⟨key, id⟩ := by
  apply holds_constructing
  intro entry
  dsimp only
  cases (src.program.classAt cls).ctors[index]? with
  | none => exact .throw _
  | some ctor =>
      have start : HeldAll base (st.push entry) ([] ++ (Table.empty : Table String Slot).values) :=
        heldAll_nil base _
      exact (holds_arguments holds start).bind fun args next _ _ held => holds_alloc key held

theorem holds_planCall {b : MemberBinding} {s : Subst} :
    Keeps (holding base) st (src.planCall requests site key b s) fun id next =>
      next.Held base ⟨key, id⟩ := by
  apply holds_constructing
  intro entry
  refine (holds_receiverFor holds).bind fun receiver mid _ _ held => ?_
  have start : HeldAll base mid (receiver.toList ++ (Table.empty : Table String Slot).values) := by
    rwa [show (Table.empty : Table String Slot).values = [] from rfl, List.append_nil]
  exact (holds_arguments holds start).bind fun args next _ _ held => holds_alloc key held

theorem holds_planKept {path : FieldPath} :
    Keeps (holding base) st (planKept requests site key path) fun id next =>
      next.Held base ⟨key, id⟩ := by
  refine (holds_demand holds (heldAll_nil base st)).bind fun slot next _ _ said => ?_
  exact holds_alloc key said.2

theorem holds_planMember {b : MemberBinding} {s : Subst} :
    Keeps (holding base) st (src.planMember requests site key b s) fun id next =>
      next.Held base ⟨key, id⟩ := by
  simp only [planMember]
  split
  · exact holds_planKept holds
  · exact holds_planCall holds

theorem holds_contributorSlots {contributors : List MemberBinding} :
    Keeps (holding base) st (src.contributorSlots requests site contributors) fun slots next =>
      HeldAll base next slots := by
  induction contributors generalizing base st with
  | nil => exact .pure (heldAll_nil base st)
  | cons b rest ih =>
      simp only [contributorSlots]
      refine (holds_planCall holds).bind fun id mid _ _ first => ?_
      have held := heldAll_singleton.mpr first
      refine (Keeps.frame (fun slots => slots) held ih fun _ _ said => said).bind
        fun slots next _ _ said => .pure said.2

theorem holds_planBinding {b : Binding} :
    Keeps (holding base) st (src.planBinding requests site key b) fun id next =>
      next.Held base ⟨key, id⟩ := by
  cases b with
  | ctor cls index ty path scopedIn =>
      simp only [planBinding]
      split
      · exact holds_planKept holds
      · exact holds_planCtor holds
  | member b => exact holds_planMember holds
  | container kind contributors =>
      exact (holds_contributorSlots holds).bind fun slots next _ _ held => holds_alloc key held
  | object cls => exact holds_alloc key (heldAll_nil base st)

/-! ## Values built later -/

omit holds in
theorem holds_nameParams {n : Nat} {types : List Ty} (held : HeldAll base st slots) :
    Keeps (holding base) st (nameParams n types) fun _ next => HeldAll base next slots := by
  obtain ⟨lambda, supply, run, -⟩ := exists_runFrom_nameParams n types st
  exact holds_of_same run rfl rfl held

theorem holds_planFunctionCall {f : MemberId} {types : List Ty} :
    Keeps (holding base) st (src.planFunctionCall requests site key f types) fun id next =>
      next.Held base ⟨key, id⟩ := by
  refine .deferred holding_stackless (holds_constructing fun entry => ?_) fun stack held =>
    held.spares (holding_stackless.le _ stack)
  refine (holds_nameParams (heldAll_nil base _)).bind fun lambda start _ _ _ => ?_
  refine (holds_receiverFor holds).bind fun receiver mid _ _ held => ?_
  have start : HeldAll base mid (receiver.toList ++ (Table.empty : Table String Slot).values) := by
    rwa [show (Table.empty : Table String Slot).values = [] from rfl, List.append_nil]
  exact (holds_arguments holds start).bind fun args next _ _ held => holds_alloc key held

theorem holds_planFunction :
    Keeps (holding base) st (src.planFunction requests site key) fun id next =>
      next.Held base ⟨key, id⟩ := by
  simp only [planFunction]
  split
  · exact .failTraced _
  · split
    · exact holds_planFunctionCall holds
    · let served (answer : List LambdaParam × Slot) (next : PlannerState) : Prop :=
        HeldAll base next [answer.2]
      refine .bind (.deferred holding_stackless (?_ : Keeps _ _ _ served) fun stack held =>
        held.spares (holding_stackless.le _ stack)) fun answer next _ _ held => holds_alloc key held
      refine (holds_nameParams (heldAll_nil base _)).bind fun lambda mid _ _ held => ?_
      exact (holds_demand holds held).bind fun slot next _ _ said => .pure said.2

theorem holds_planLazy :
    Keeps (holding base) st (planLazy requests site key) fun id next =>
      next.Held base ⟨key, id⟩ := by
  simp only [planLazy]
  split
  · exact .failTraced _
  · refine .bind (.deferred holding_stackless
      (holds_demand holds (heldAll_nil base _)) fun stack said =>
        ⟨said.1, said.2.spares (holding_stackless.le _ stack)⟩) fun slot next _ _ said => ?_
    exact holds_alloc key said.2

/-! ## Requests -/

theorem holds_planGeneric :
    Keeps (holding base) st (src.planGeneric requests site key) fun answer next =>
      ∀ id ∈ answer, next.Held base ⟨key, id⟩ := by
  simp only [planGeneric]
  split
  · exact .nothing
  · exact (holds_planMember holds).bind fun id next _ _ held => .found held
  · exact .failTraced _

theorem holds_planFor :
    Keeps (holding base) st (src.planFor requests site key) fun answer next =>
      ∀ id ∈ answer, next.Held base ⟨key, id⟩ := by
  simp only [planFor]
  split
  · exact .throw _
  · split
    · refine (holds_alloc key (heldAll_nil base st)).bind fun id next _ _ held => ?_
      exact .found held
    · have reported (findings : List Finding) :
          Keeps (holding base) st (report findings) fun _ _ => True :=
        (holds_report findings (heldAll_nil base st)).mono fun _ _ _ _ _ => trivial
      refine (Keeps.bindingFor reported).bind fun answer mid _ _ _ => ?_
      cases answer with
      | some b => exact (holds_planBinding holds).bind fun id next _ _ held => .found held
      | none =>
          dsimp only
          split
          · exact (holds_planFunction holds).bind fun id next _ _ held => .found held
          · split
            · exact (holds_planLazy holds).bind fun id next _ _ held => .found held
            · exact holds_planGeneric holds

end Requests

theorem holds_kept? :
    Keeps (holding base) st (kept? site key) fun answer next =>
      ∀ id ∈ answer, next.Held base ⟨key, id⟩ := by
  refine Keeps.kept?.mono ?_
  rintro _ next - - said id rfl
  obtain ⟨rfl, -, -, found⟩ := said
  exact .inl found

theorem holds_requestWith {requests : Requests} (holds : Holds requests) :
    Holds (src.requestWith requests) := by
  intro base site key st
  simp only [requestWith]
  refine holds_kept?.bind fun answer mid _ _ kept => ?_
  cases answer with
  | some id => exact .found ⟨rfl, kept id rfl⟩
  | none =>
      refine (holds_planFor holds).bind fun answer next _ _ said => ?_
      cases answer with
      | none => exact .nothing
      | some id =>
          have held := said id rfl
          dsimp only
          split
          · exact .found ⟨rfl, held⟩
          · exact (holds_remember held).bind fun _ last _ _ held => .found ⟨rfl, held⟩

theorem holds_requestTo (depth : Nat) : Holds (src.requestTo depth) := by
  induction depth with
  | zero => exact fun _ _ _ _ => .throw _
  | succ depth ih => exact holds_requestWith ih

theorem holds_resolve : Holds src.request := fun base site key =>
  holds_requestTo (src.requestDepth key) base site key

/-! ## Accessors -/

theorem holds_implement {m : MemberId} :
    Keeps (holding base) st (src.implement site m) fun entry next =>
      next.Held base entry.result := by
  simp only [implement]
  have start : Keeps (holding base) st startAfresh fun _ next => HeldAll base next [] :=
    holds_of_same rfl rfl rfl (heldAll_nil base st)
  refine start.bind fun _ fresh _ _ held => ?_
  refine (holds_report _ held).bind fun _ mid _ _ _ => ?_
  have built : Keeps (holding base) mid
      (constructing (src.accessorKey site.catalog m) (.member m) do
        return (← src.resolve site (src.accessorKey site.catalog m)).id) fun id next =>
      next.Held base ⟨src.accessorKey site.catalog m, id⟩ := by
    apply holds_constructing
    intro entry
    refine (holds_demand holds_resolve (heldAll_nil base _)).bind
      fun slot next _ _ said => .pure ?_
    rw [← said.1]
    exact heldAll_singleton.mp said.2
  refine built.bind fun id next _ _ held => ?_
  refine Keeps.get.bind fun seen last _ _ same => ?_
  obtain ⟨rfl, rfl⟩ := same
  split
  · exact .throw _
  · exact .pure held

/-- After all accessors the results of the entries are in hand. -/
theorem holds_implementEach {accessors : List MemberId} (inv : (holding base).inv st) :
    let last := ((src.implementEach site accessors).run st).2
    (holding base).inv last ∧ Spares base st last ∧
      HeldAll base last
        (((src.implementEach site accessors).run st).1.entries.map Entry.result) := by
  induction accessors generalizing base st with
  | nil => exact ⟨inv, .refl base st, heldAll_nil base st⟩
  | cons m rest ih =>
      have one : Keeps (holding base) st (src.implement site m) _ := holds_implement
      obtain ⟨⟨owned, le⟩, spares, handed⟩ := one inv
      cases first : (src.implement site m).runFrom st with
      | mk result mid =>
          rw [first] at owned le spares handed
          obtain ⟨⟨owned', le'⟩, spares', held⟩ := ih ⟨owned, Nat.le_refl _⟩
          rw [Regime.run_implementEach_cons first rfl]
          refine ⟨⟨owned', Nat.le_trans le le'⟩, spares.trans (spares'.mono le), ?_⟩
          -- the entry was there before the plans of the others
          have before : HeldAll base mid
              (((result.toOption.map Entry.result).toList : List Slot)) := by
            cases result with
            | error _ => exact heldAll_nil base mid
            | ok entry => exact heldAll_singleton.mpr (handed entry rfl)
          have all := (before.spares spares').append held le
            fun s mem => (before.each s mem).known owned
          cases result <;> exact all

/-! ## All accessors of a component -/

variable (src) in
/-- After planning nothing is shared but through the cache, the results of entries included. -/
theorem planning_owned (className : String) (catalog : Catalog) (log : Log) :
    (src.planning className catalog log).2.Owned ∧
      HeldAll 0 (src.planning className catalog log).2
        ((src.planned className catalog log).entries.map Entry.result) := by
  have start : (holding 0).inv { log } := ⟨.empty log, Nat.zero_le _⟩
  obtain ⟨⟨owned, -⟩, -, held⟩ : (holding 0).inv (src.planning className catalog log).2 ∧
      Spares 0 { log } (src.planning className catalog log).2 ∧
        HeldAll 0 (src.planning className catalog log).2
          ((src.planned className catalog log).entries.map Entry.result) :=
    holds_implementEach start
  exact ⟨owned, held⟩

/-- Entries are of accessors, whether or not all of them succeed. -/
theorem exists_implements_of_mem {accessors : List MemberId} {e : Entry}
    (mem : e ∈ ((src.implementEach site accessors).run st).1.entries) :
    ∃ m ∈ accessors, src.Implements site.catalog.own.cls m e := by
  induction accessors generalizing st with
  | nil => cases mem
  | cons m rest ih =>
      have later {st : PlannerState}
          (mem : e ∈ ((src.implementEach site rest).run st).1.entries) :
          ∃ m' ∈ m :: rest, src.Implements site.catalog.own.cls m' e := by
        obtain ⟨m', among, implements⟩ := ih mem
        exact ⟨m', List.mem_cons_of_mem m among, implements⟩
      cases first : (src.implement site m).runFrom st with
      | mk result mid =>
          rw [Regime.run_implementEach_cons first rfl] at mem
          cases result with
          | error failure => exact later mem
          | ok entry =>
              obtain rfl | mem := List.mem_cons.mp mem
              · exact ⟨m, List.mem_cons_self, implements_of_implement first⟩
              · exact later mem

end Source

/-- Two slots that point at one plan are slots for one key, and the plan is closed. -/
def Forest.SharesByKey (f : Forest) : Prop :=
  ∀ place other s t, f.slotAt? place = some s → f.slotAt? other = some t → place ≠ other →
    s.id = t.id → f.arena.isClosed s.id = true ∧ s.key = t.key

open Source

theorem planned_sharesByKey (src : Source) (className : String) (catalog : Catalog) (log : Log) :
    (src.planned className catalog log).SharesByKey := by
  obtain ⟨owned, held⟩ := planning_owned src className catalog log
  -- what one of the slots shows to be kept is closed, and kept for one key
  have kept {s t : Slot} (here : (src.planning className catalog log).2.KeepsSlot s)
      (there : (src.planning className catalog log).2.KeepsSlot t) (same : s.id = t.id) :
      (src.planning className catalog log).2.arena.isClosed s.id = true ∧ s.key = t.key :=
    ⟨(owned.closed here).2, owned.single here (same ▸ there)⟩
  have result {n : Nat} {s : Slot}
      (found : (src.planned className catalog log).slotAt? (.entry n) = some s) :
      ((src.planned className catalog log).entries.map Entry.result)[n]? = some s := by
    rw [List.getElem?_map]
    exact found
  -- an entry and a slot inside a plan
  have mixed {n parent k : Nat} {s t : Slot}
      (found : (src.planned className catalog log).slotAt? (.entry n) = some s)
      (child : (src.planned className catalog log).slotAt? (.child parent k) = some t)
      (same : s.id = t.id) :
      (src.planning className catalog log).2.KeepsSlot s ∧
        (src.planning className catalog log).2.KeepsSlot t := by
    obtain here | ⟨-, loose⟩ := held.each s (List.mem_of_getElem? (result found))
    · have name := owned.named parent t (List.mem_of_getElem? child) s.key (same ▸ here)
      refine ⟨here, ?_⟩
      rw [KeepsSlot, name, ← same]
      exact here
    · exact absurd same.symm (loose.unused parent t (List.mem_of_getElem? child))
  intro place other s t found found' ne same
  cases place with
  | entry m =>
      cases other with
      | entry n =>
          obtain ⟨low, at_⟩ := List.getElem?_eq_some_iff.mp (result found)
          obtain ⟨low', at'⟩ := List.getElem?_eq_some_iff.mp (result found')
          have ordered := List.pairwise_iff_getElem.mp held.apart
          obtain less | rfl | more := Nat.lt_trichotomy m n
          · have both := ordered m n low low' less (by rw [at_, at', same])
            rw [at_, at'] at both
            exact kept both.1 both.2 same
          · exact absurd rfl ne
          · have both := ordered n m low' low more (by rw [at_, at', same])
            rw [at_, at'] at both
            exact kept both.2 both.1 same
      | child parent n =>
          obtain ⟨here, there⟩ := mixed found found' same
          exact kept here there same
  | child parent m =>
      cases other with
      | entry n =>
          obtain ⟨there, here⟩ := mixed found' found same.symm
          exact kept here there same
      | child parent' n =>
          have apart : (parent, m) ≠ (parent', n) := by
            rintro ⟨⟩
            exact ne rfl
          have here := owned.shared found found' apart same
          have there := owned.shared found' found apart.symm same.symm
          exact kept here there same

/-- In what is planned for a component each slot inside a plan points at an earlier plan; what
two slots point at is closed, and both are slots for one key.  So the type and the key of a
private entry, which are taken from one slot, are those of all slots that its plan was built
for. -/
theorem planned_sharing (src : Source) (className : String) (catalog : Catalog) (log : Log) :
    let f := src.planned className catalog log
    (∀ parent n s, f.slotAt? (.child parent n) = some s → s.id < parent) ∧ f.SharesByKey ∧
      ∀ names, ∀ e ∈ (f.hoist className names).1.entries, e.isPrivate = true →
        ∀ place s, f.slotAt? place = some s → s.id = e.result.id →
          e.result.key = s.key ∧ e.returnType = s.key.ty.unqualified := by
  intro f
  have shares : f.SharesByKey := planned_sharesByKey src className catalog log
  refine ⟨?_, shares, ?_⟩
  · intro parent n s found
    have owned := (planning_owned src className catalog log).1
    exact owned.before parent s (List.mem_of_getElem? found)
  · intro names e mem isPrivate place s found same
    have plain : ∀ e ∈ f.entries, e.isPrivate = false := by
      intro e mem
      obtain ⟨m, -, implements⟩ := exists_implements_of_mem mem
      exact implements.isPrivate
    obtain ⟨type, other, t, found', same', key⟩ :=
      Forest.hoist_keyed (planned_filled src className catalog log) className names plain e mem
        isPrivate
    have keys : s.key = t.key := by
      by_cases here : place = other
      · subst here
        rw [Option.some.inj (found.symm.trans found')]
      · exact (shares place other s t found found' here (same.trans same'.symm)).2
    refine ⟨key.symm.trans keys.symm, ?_⟩
    rw [type, ← key, keys]

/-- A `Left` and a `Right` need a `Foo` each, and that needs a `Bar`. -/
def sharedFoo : Source where
  program :=
    { classes := [.injectable "Left" [("foo", { name := "Foo" })],
        .injectable "Right" [("foo", { name := "Foo" })],
        .injectable "Foo" [("bar", { name := "Bar" })], .injectable "Bar" [],
        .abstractComponent [.ofNat 0, .ofNat 1]]
      members := [.accessor (.ofNat 4) "left" { name := "Left" },
        .accessor (.ofNat 4) "right" { name := "Right" }] }
  options := {}

/-- Both point at one plan of the `Foo`, which becomes a private entry for its key. -/
theorem sharedFoo_sharing :
    let f := sharedFoo.planned "C" (sharedFoo.collect (.ofNat 4) {}).1 {}
    ∃ s t, f.slotAt? (.child 2 0) = some s ∧ f.slotAt? (.child 3 0) = some t ∧ s.id = t.id ∧
      f.arena.isClosed s.id = true ∧ s.key = t.key ∧
        ∃ e ∈ (f.hoist "C" .empty).1.entries,
          e.isPrivate = true ∧ e.result.key = s.key ∧ e.returnType = s.key.ty.unqualified := by
  have places :
      let f := sharedFoo.planned "C" (sharedFoo.collect (.ofNat 4) {}).1 {}
      ∃ s ∈ (f.slotAt? (.child 2 0)).toList, ∃ t ∈ (f.slotAt? (.child 3 0)).toList, s.id = t.id ∧
        ∃ e ∈ (f.hoist "C" .empty).1.entries, e.isPrivate = true ∧ s.id = e.result.id := by
    decide +kernel
  have sharing := planned_sharing sharedFoo "C" (sharedFoo.collect (.ofNat 4) {}).1 {}
  generalize sharedFoo.planned "C" (sharedFoo.collect (.ofNat 4) {}).1 {} = f at places sharing
  obtain ⟨s, mem, t, mem', same, e, made, isPrivate, built⟩ := places
  have found := Option.mem_toList.mp mem
  have found' := Option.mem_toList.mp mem'
  obtain ⟨-, shares, keyed⟩ := sharing
  obtain ⟨closed, key⟩ := shares _ _ s t found found' (by simp) same
  obtain ⟨key', type⟩ := keyed .empty e made isPrivate _ s found built
  exact ⟨s, t, found, found', same, closed, key, e, made, isPrivate, key', type⟩

end Injector
