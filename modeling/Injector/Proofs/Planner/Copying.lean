/-
# Injector.Proofs.Planner.Copying -- steps that copy blueprints

Planning settles states: every plan that is kept for a calm key is a copy of the key's
blueprint, and only keys that recur are waited for (`Settled`).  What a step keeps of the
state before is said by `Follows`: a step that is `quiet` leaves pending cycles alone, and
what is kept for keys that are not calm.

A step `Mirrors` a blueprint when it answers with a copy of it, and fails only where there
is none.  Here are the steps that planning is made of.
-/
import Injector.Proofs.Planner.Parameters
import Injector.Proofs.Planner.Recurrence
import Injector.Proofs.Planner.Errors

namespace Injector

set_option autoImplicit false

open PlanM
open BuildStack (above?)
open LambdaParam (names types names_inside types_inside)

/-- The parameters of a declaration have different names. -/
def Program.DistinctParams (p : Program) : Prop :=
  (∀ c ∈ p.classes, ∀ ctor ∈ c.ctors, (ctor.params.map (·.name)).Nodup) ∧
    ∀ m ∈ p.members, (m.params.map (·.name)).Nodup

instance (p : Program) : Decidable p.DistinctParams := inferInstanceAs (Decidable (_ ∧ _))

theorem Program.DistinctParams.ctor {p : Program} (distinct : p.DistinctParams) {cls : ClassId}
    {index : Nat} {ctor : CtorDecl} (found : (p.classAt cls).ctors[index]? = some ctor) :
    (ctor.params.map (·.name)).Nodup := by
  rw [classAt] at found
  cases here : p.classes[cls.toNat]? with
  | none =>
      rw [here] at found
      cases found
  | some c =>
      rw [here] at found
      exact distinct.1 c (List.mem_of_getElem? here) ctor (List.mem_of_getElem? found)

theorem Program.DistinctParams.member {p : Program} (distinct : p.DistinctParams) (m : MemberId) :
    ((p.memberAt m).params.map (·.name)).Nodup := by
  rw [memberAt]
  cases here : p.members[m.toNat]? with
  | none => exact .nil
  | some decl => exact distinct.2 decl (List.mem_of_getElem? here)

namespace Site

/-- The place of a request in the component, below parameters whose names are taken. -/
structure Stands (catalog : Catalog) (className : String) (st : PlannerState) (site : Site) :
    Prop where
  catalog_eq : site.catalog = catalog
  className_eq : site.className = className
  distinct : (names site.around).Nodup
  taken : ∀ name ∈ names site.around, name ∈ st.names.taken ∧ IsParamName name

variable {catalog : Catalog} {className : String} {st next : PlannerState} {site : Site}

theorem Stands.mono (stands : site.Stands catalog className st)
    (taken : ∀ name ∈ st.names.taken, name ∈ next.names.taken) :
    site.Stands catalog className next where
  catalog_eq := stands.catalog_eq
  className_eq := stands.className_eq
  distinct := stands.distinct
  taken name mem := ⟨taken name (stands.taken name mem).1, (stands.taken name mem).2⟩

theorem Stands.unwrap (stands : site.Stands catalog className st) (key : Key) :
    (site.unwrap key).Stands catalog className st :=
  ⟨stands.catalog_eq, stands.className_eq, stands.distinct, stands.taken⟩

/-- Inside a lambda whose parameters have new names. -/
theorem Stands.inside {lambda : List LambdaParam} (stands : site.Stands catalog className st)
    (distinct : (names lambda).Nodup)
    (new : ∀ name ∈ names lambda, name ∉ names site.around ∧ name ∈ st.names.taken ∧
      IsParamName name) : (site.inside lambda).Stands catalog className st where
  catalog_eq := stands.catalog_eq
  className_eq := stands.className_eq
  distinct := by
    rw [around_inside, names_inside]
    refine List.nodup_append.mpr ⟨List.nodup_reverse.mpr distinct, stands.distinct, ?_⟩
    rintro name mem _ mem' rfl
    exact (new name (List.mem_reverse.mp mem)).1 mem'
  taken name mem := by
    rw [around_inside, names_inside] at mem
    rcases List.mem_append.mp mem with mem | mem
    · exact (new name (List.mem_reverse.mp mem)).2
    · exact stands.taken name mem

end Site

namespace Source

variable (src : Source) (catalog : Catalog) (className : String) (ms : List MemberId)

/-- Names are told apart: those of the parameters of a declaration, and those of variables
from those of lambda parameters. -/
structure Tidy : Prop where
  distinct : src.program.DistinctParams
  apart : ∀ key, src.Recurs catalog ms key → ¬IsParamName key.ty.suggestedName

/-- A closed plan that may be kept for the key: one of the accessors comes to the key, and if
it is calm the plan is a copy of its blueprint. -/
structure Stored (a : Arena) (key : Key) (id : PlanId) : Prop where
  comes : src.Comes catalog ms key
  known : id < a.size
  closed : a.isClosed id = true
  copies : src.Calm catalog ms key →
    src.blueprint catalog className false [] key = some (some (a.nameless [] id))

/-- The plans are in order, the kept ones too, and only keys that recur are waited for. -/
structure Settled (st : PlannerState) : Prop where
  sound : st.arena.Sound
  named : st.arena.Named IsParamName
  pending : ∀ q ∈ st.stack.pending,
    src.Recurs catalog ms q.key ∧ q.name = q.key.ty.suggestedName
  kept : ∀ {key : Key} {id : PlanId}, st.cache.get? key = some id →
    src.Stored catalog className ms st.arena key id

/-- What a state keeps of an earlier one; if `quiet`, also what is pending, and the plans
kept for keys that are not calm. -/
structure Follows (quiet : Prop) (st next : PlannerState) : Prop where
  within : st.arena.Within next.arena
  entries : next.stack.entries = st.stack.entries
  taken : ∀ name ∈ st.names.taken, name ∈ next.names.taken
  pending : quiet → next.stack.pending = st.stack.pending
  kept : quiet → ∀ key, ¬src.Calm catalog ms key → next.cache.get? key = st.cache.get? key

/-- Planning that copies blueprints. -/
def copying (quiet : Prop) : Discipline where
  inv := src.Settled catalog className ms
  le := src.Follows catalog ms quiet
  refl st := ⟨.refl st.arena, rfl, fun _ mem => mem, fun _ => rfl, fun _ _ _ => rfl⟩
  trans first second := {
    within := first.within.trans second.within
    entries := second.entries.trans first.entries
    taken := fun name mem => second.taken name (first.taken name mem)
    pending := fun q => (second.pending q).trans (first.pending q)
    kept := fun q key wild => (second.kept q key wild).trans (first.kept q key wild) }

/-- The step answers with a copy of the blueprint, and fails only where there is none. -/
def Mirrors {α β : Type} (quiet : Prop) (around : List LambdaParam) (st : PlannerState)
    (r : Reading α β) (act : PlanM α) (bp : List Ty → Option β) : Prop :=
  Meets (src.copying catalog className ms quiet) st act
    (fun x next => Told quiet around r bp next.arena x) fun _ => quiet → bp (types around) = none

variable {src catalog className ms} {ns : List MemberId} {quiet : Prop} {st next : PlannerState}
  {key : Key} {around : List LambdaParam} {bp : List Ty → Option PlanTree}

/-! ## States -/

theorem Stored.mono {a b : Arena} {id : PlanId} (kept : src.Stored catalog className ms a key id)
    (sound : a.Sound) (within : a.Within b) : src.Stored catalog className ms b key id where
  comes := kept.comes
  known := Nat.lt_of_lt_of_le kept.known within.size_le
  closed := (within.isClosed_eq kept.known).trans kept.closed
  copies calm := by
    rw [within.nameless_eq sound kept.known]
    exact kept.copies calm

/-- Only the plans, the kept ones and what is pending matter. -/
theorem Settled.of_eq (settled : src.Settled catalog className ms st)
    (arena : next.arena = st.arena) (pending : next.stack.pending = st.stack.pending)
    (cache : next.cache = st.cache) :
    src.Settled catalog className ms next where
  sound := arena ▸ settled.sound
  named := arena ▸ settled.named
  pending := pending ▸ settled.pending
  kept := by
    rw [cache, arena]
    exact settled.kept

theorem Settled.add {p : Plan} (settled : src.Settled catalog className ms st)
    (known : ∀ c ∈ p.children, c.id < st.arena.size)
    (params : ∀ name ∈ p.lambdaParams, IsParamName name)
    (arg : ∀ name, p = .arg name → IsParamName name)
    (cycle : ∀ name, p = .localVar name ∨ p.declared? = some name → ¬IsParamName name) :
    src.Settled catalog className ms (st.add p) where
  sound := settled.sound.alloc known
  named := settled.named.alloc params arg cycle
  pending := settled.pending
  kept found := (settled.kept found).mono settled.sound (.alloc st.arena p)

theorem Follows.add (p : Plan) : src.Follows catalog ms quiet st (st.add p) where
  within := .alloc st.arena p
  entries := rfl
  taken _ mem := mem
  pending _ := rfl
  kept _ _ _ := rfl

/-- Going back to the height before an entry was pushed. -/
theorem Follows.popTo {entry : BuildEntry}
    (follows : src.Follows catalog ms quiet (st.push entry) next) :
    src.Follows catalog ms quiet st (next.popTo st.stack.height) where
  within := follows.within
  entries := (BuildStack.push_popTo st.stack follows.entries).2
  taken := follows.taken
  pending := follows.pending
  kept := follows.kept

theorem Tidy.of_subset (tidy : src.Tidy catalog ns) (among : ms ⊆ ns) : src.Tidy catalog ms :=
  ⟨tidy.distinct, fun key recurs => tidy.apart key (recurs.of_subset among)⟩

theorem Settled.of_subset (settled : src.Settled catalog className ms st) (among : ms ⊆ ns) :
    src.Settled catalog className ns st where
  sound := settled.sound
  named := settled.named
  pending q mem := ⟨(settled.pending q mem).1.of_subset among, (settled.pending q mem).2⟩
  kept found := by
    have kept := settled.kept found
    obtain ⟨m, accessor, chain⟩ := kept.comes
    exact ⟨⟨m, among accessor, chain⟩, kept.known, kept.closed,
      fun calm => kept.copies (calm.of_subset among)⟩

theorem settled_empty (log : Log) : src.Settled catalog className ms { log } where
  sound := Arena.sound_empty
  named _ _ found := by simp [Arena.plan?] at found
  pending := List.forall_mem_nil _
  kept found := by cases found

/-- The blueprint may be replaced by one that is the same below the parameters around. -/
theorem Mirrors.congr {α β : Type} {r : Reading α β} {act : PlanM α} {bp bp' : List Ty → Option β}
    (mirrors : src.Mirrors catalog className ms quiet around st r act bp)
    (same : quiet → ∀ inner outer, around = inner ++ outer →
      bp' (types inner) = bp (types inner)) :
    src.Mirrors catalog className ms quiet around st r act bp' := by
  refine Meets.mono mirrors (fun _ _ _ _ told => ⟨told.serves, fun q inner clear => ?_⟩)
    fun _ none q => (same q around [] (List.append_nil around).symm).trans (none q)
  obtain ⟨outer, split, far⟩ := clear
  exact (same q inner outer split).trans (told.copies q inner ⟨outer, split, far⟩)

theorem Mirrors.map_some {α β : Type} {r : Reading α β} {act : PlanM α} {bp : List Ty → Option β}
    (mirrors : src.Mirrors catalog className ms quiet around st r act bp) :
    src.Mirrors catalog className ms quiet around st r.option (do return some (← act))
      fun scope => (bp scope).map some :=
  Meets.andThen mirrors (fun _ none q => congrArg (Option.map some) (none q))
    fun _ _ _ _ told => .pure ⟨told.serves, fun q inner clear =>
      congrArg (Option.map some) (told.copies q inner clear)⟩

/-! ## Steps -/

theorem copies_report (findings : List Finding) (fail : PlanError → Prop) :
    Meets (src.copying catalog className ms quiet) st (report findings)
      (fun _ next => next.arena = st.arena) fail :=
  .of_ok (runFrom_report findings st) fun settled =>
    ⟨settled.of_eq rfl rfl rfl, ⟨.refl _, rfl, fun _ mem => mem, fun _ => rfl, fun _ _ _ => rfl⟩,
      rfl⟩

/-- A plan that is added is a copy if what it needs is. -/
theorem mirrors_alloc {p blank : Plan} {lambda : List LambdaParam} {needs : List Slot}
    (composes : p.Composes lambda needs blank)
    (new : ∀ name ∈ names lambda, name ∉ names around ∧ IsParamName name)
    (serves : ∀ c ∈ needs, Serves (lambda.reverse ++ around) st.arena c.id)
    (copies : quiet → ∀ inner,
      Clear (lambda.reverse ++ around) st.arena (needs.map (·.id)) (lambda.reverse ++ inner) →
        bp (types inner) = some (.node blank
          (needs.map fun c => st.arena.nameless (names (lambda.reverse ++ inner)) c.id))) :
    src.Mirrors catalog className ms quiet around st .plan (alloc p) bp := by
  refine .of_ok (runFrom_alloc p st) fun settled => ⟨settled.add ?_ ?_ ?_ ?_, .add p, ?_⟩
  · rw [composes.children]
    exact fun c child => (serves c child).known
  · rw [composes.binds]
    exact fun name mem => (new name mem).2
  · rintro name rfl
    cases composes.composite
  · rintro name (rfl | declares)
    · cases composes.composite
    · cases composes.plain.symm.trans declares
  · exact composes.told_alloc settled.sound (fun name mem => (new name mem).1) serves copies

/-- A call that is added is a copy if its receiver and its arguments are. -/
theorem mirrors_alloc_call {p : Plan} {lambda : List LambdaParam} {receiver : Option Slot}
    {args : Table String Slot} {blank : Option Slot → Table String Slot → Plan}
    {rb : List Ty → Option (Option Need)} {ab : List Ty → Option (List (String × Need))}
    (calls : p.Calls lambda receiver args blank)
    (new : ∀ name ∈ names lambda, name ∉ names around ∧ IsParamName name)
    (received : Told quiet (lambda.reverse ++ around) Reading.slot.option rb st.arena receiver)
    (passed : Told quiet (lambda.reverse ++ around) Reading.slot.row.list ab st.arena args.rows) :
    src.Mirrors catalog className ms quiet around st .plan (alloc p) fun scope =>
      (rb ((types lambda).reverse ++ scope)).bind fun receiver =>
        (ab ((types lambda).reverse ++ scope)).map fun args => .call receiver args blank := by
  refine mirrors_alloc calls new (serves_call received.serves passed.serves)
    fun q inner clear => ?_
  rw [List.map_append] at clear
  have first := received.copies q _ <| clear.subset fun id mem => by
    rw [Reading.ids_slot?] at mem
    exact List.mem_append_left _ mem
  have second := passed.copies q _ <| clear.subset fun id mem => by
    rw [Reading.ids_rows] at mem
    exact List.mem_append_right _ mem
  rw [types_inside] at first second
  simp only [first, second, Option.bind_some, Option.map_some]
  rw [PlanTree.call_read]

/-- A plan around one value. -/
theorem mirrors_alloc_around {p : Plan} {lambda : List LambdaParam} {slot : Slot}
    {blank : Slot → Plan} {nb : List Ty → Option Need} (surrounds : p.Surrounds lambda slot blank)
    (new : ∀ name ∈ names lambda, name ∉ names around ∧ IsParamName name)
    (told : Told quiet (lambda.reverse ++ around) Reading.slot nb st.arena slot) :
    src.Mirrors catalog className ms quiet around st .plan (alloc p) fun scope =>
      (nb ((types lambda).reverse ++ scope)).map fun need => .around need blank := by
  refine mirrors_alloc surrounds new (fun c child => ?_) fun q inner clear => ?_
  · obtain rfl := List.mem_singleton.mp child
    exact told.serves c.id (List.mem_singleton_self _)
  · have copy := told.copies q _ clear
    rw [types_inside] at copy
    simp only [copy, Option.map_some]
    rfl

theorem mirrors_closeCycle {k : Key} {id : PlanId} (tidy : src.Tidy catalog ms)
    (calm : quiet → ¬src.Recurs catalog ms k) (told : Told quiet around .plan bp st.arena id) :
    src.Mirrors catalog className ms quiet around st .plan (closeCycle k id) bp := by
  refine .of_inv fun settled => ?_
  have known := (told.serves id (List.mem_singleton_self _)).known
  have inScope := (told.serves id (List.mem_singleton_self _)).inScope
  obtain ⟨p, found⟩ := Arena.exists_plan? known
  cases passive : p.isPassive with
  | true =>
      exact .of_ok (runFrom_closeCycle_passive k found passive) fun settled =>
        ⟨settled, (src.copying catalog className ms quiet).refl st, told⟩
  | false =>
      have run := runFrom_closeCycle_active k found passive
      split at run
      · exact .of_ok run fun settled =>
          ⟨settled, (src.copying catalog className ms quiet).refl st, told⟩
      · rename_i q waits
        obtain ⟨mem, rfl⟩ := BuildStack.mem_of_pendingFor waits
        obtain ⟨recurs, named⟩ := settled.pending q mem
        have settled' : src.Settled catalog className ms (st.settle q.key) := {
          sound := settled.sound
          named := settled.named
          pending := fun r mem => settled.pending r (List.mem_of_mem_eraseP mem)
          kept := settled.kept }
        refine .of_ok run fun _ =>
          ⟨settled'.add ?_ (List.forall_mem_nil _) (by simp) ?_, ?_, ⟨?_, ?_⟩⟩
        · intro c child
          obtain rfl := List.mem_singleton.mp child
          exact known
        · rintro name (same | declares)
          · cases same
          · obtain rfl := Option.some.inj declares
            rw [named]
            exact tidy.apart q.key recurs
        · exact ⟨.alloc st.arena _, rfl, fun _ mem => mem, fun q' => absurd recurs (calm q'),
            fun _ _ _ => rfl⟩
        · intro other mem
          obtain rfl := List.mem_singleton.mp mem
          refine serves_alloc settled.sound ?_ (by simp [Plan.reference?])
            fun c child name free kind _ => ?_
          · intro c child
            obtain rfl := List.mem_singleton.mp child
            exact known
          · obtain rfl := List.mem_singleton.mp child
            exact inScope name free kind
        · exact fun q' => absurd recurs (calm q')

/-- A variable stands only for what recurs. -/
theorem mirrors_variable {name : String} {k : Key} (tidy : src.Tidy catalog ms)
    (recurs : src.Recurs catalog ms k) (wild : ¬quiet) (named : name = k.ty.suggestedName)
    (follows : src.Follows catalog ms quiet st next)
    (settled : src.Settled catalog className ms next) :
    src.Settled catalog className ms (next.add (.localVar name)) ∧
      src.Follows catalog ms quiet st (next.add (.localVar name)) ∧
      Told quiet around .plan bp (next.add (.localVar name)).arena next.arena.size := by
  have kind : ¬IsParamName name := named ▸ tidy.apart k recurs
  have leaf : ∀ c ∈ (Plan.localVar name).children, c.id < next.arena.size :=
    List.forall_mem_nil _
  refine ⟨settled.add leaf (List.forall_mem_nil _) (by simp) ?_,
    (src.copying catalog className ms quiet).trans follows (.add _), ?_, fun q => absurd q wild⟩
  · rintro other (same | declares)
    · cases same
      exact kind
    · cases declares
  · intro id mem
    obtain rfl := List.mem_singleton.mp mem
    refine serves_alloc settled.sound leaf ?_ (List.forall_mem_nil _)
    intro other refers param
    obtain rfl := Option.some.inj refers
    exact absurd param kind

/-- An element is entered, or met again; that of a call for a calm key is entered. -/
theorem mirrors_constructing {act : PlanM PlanId} {k : Key} {element : Element}
    (tidy : src.Tidy catalog ms)
    (met : .building element ∈ st.stack.entries → src.Recurs catalog ms k)
    (calm : quiet → ¬src.Recurs catalog ms k)
    (inside : above? element st.stack.entries = none →
      src.Mirrors catalog className ms quiet around (st.push (.building element)) .plan act bp) :
    src.Mirrors catalog className ms quiet around st .plan (constructing k element act) bp := by
  refine .of_inv fun settled => ?_
  cases here : above? element st.stack.entries with
  | none =>
      have run := runFrom_constructing_entered k act here
      have pushed : src.Settled catalog className ms (st.push (.building element)) :=
        settled.of_eq rfl rfl rfl
      obtain ⟨keeps, failing⟩ := inside here
      obtain ⟨inv, le, told⟩ := keeps pushed
      have failing := failing pushed
      rw [runFrom_bind, runFrom_restoring] at run
      generalize act.runFrom (st.push (.building element)) = outcome at run inv le told failing
      obtain ⟨result, after⟩ := outcome
      have inv' : src.Settled catalog className ms (after.popTo st.stack.height) :=
        Settled.of_eq inv rfl rfl rfl
      have le' : src.Follows catalog ms quiet st (after.popTo st.stack.height) := Follows.popTo le
      cases result with
      | error e => exact .of_error run fun _ => ⟨inv', le', failing e rfl⟩
      | ok id =>
          have closing : src.Mirrors catalog className ms quiet around
              (after.popTo st.stack.height) .plan (closeCycle k id) bp :=
            mirrors_closeCycle tidy calm (told id rfl)
          obtain ⟨inv'', le'', told'⟩ := closing.1 inv'
          simp only [Meets, Keeps, run]
          exact ⟨fun _ => ⟨inv'', (src.copying catalog className ms quiet).trans le' le'', told'⟩,
            fun _ => closing.2 inv'⟩
  | some above =>
      have recurs := met (BuildStack.building_of_above? here)
      have wild : ¬quiet := fun q => calm q recurs
      by_cases later : above.contains .deferred = true
      · have run := runFrom_constructing_closes k act here later
        split at run
        · rename_i q waits
          obtain ⟨mem, rfl⟩ := BuildStack.mem_of_pendingFor waits
          exact .of_ok run fun _ => mirrors_variable tidy recurs wild (settled.pending q mem).2
            ((src.copying catalog className ms quiet).refl st) settled
        · refine .of_ok run fun _ => mirrors_variable tidy recurs wild rfl
            ⟨.refl _, rfl, fun _ mem => mem, fun q => absurd q wild, fun _ _ _ => rfl⟩ ?_
          refine ⟨settled.sound, settled.named, fun q mem => ?_, settled.kept⟩
          rcases List.mem_append.mp mem with mem | mem
          · exact settled.pending q mem
          · obtain rfl := List.mem_singleton.mp mem
            exact ⟨recurs, rfl⟩
      · have run := runFrom_constructing_endless k act here (Bool.eq_false_iff.mpr later)
        exact .of_error run fun inv =>
          ⟨inv, (src.copying catalog className ms quiet).refl st, fun q => absurd q wild⟩

theorem copies_deferred {α : Type} {act : PlanM α} {post : α → PlannerState → Prop}
    {fail : PlanError → Prop}
    (arena : ∀ x (mid last : PlannerState), last.arena = mid.arena → last.names = mid.names →
      post x mid → post x last)
    (inside : Meets (src.copying catalog className ms quiet) (st.push .deferred) act post fail) :
    Meets (src.copying catalog className ms quiet) st (deferred act) post fail := by
  refine .of_inv fun settled => ?_
  have pushed : src.Settled catalog className ms (st.push .deferred) := settled.of_eq rfl rfl rfl
  obtain ⟨inv, le, told⟩ := inside.1 pushed
  have failing := inside.2 pushed
  rw [Meets, Keeps, runFrom_deferred]
  exact ⟨fun _ => ⟨Settled.of_eq inv rfl rfl rfl, Follows.popTo le, fun x run =>
    arena x (act.runFrom (st.push .deferred)).2 _ rfl rfl (told x run)⟩,
    fun _ => failing⟩

/-- Names for the parameters of a lambda are different, and were free. -/
theorem copies_nameParams {n : Nat} {tys : List Ty} (fail : PlanError → Prop) :
    Meets (src.copying catalog className ms quiet) st (nameParams n tys) (fun lambda next =>
      types lambda = tys ∧ (names lambda).Nodup ∧ ∀ name ∈ names lambda,
        name ∉ st.names.taken ∧ name ∈ next.names.taken ∧ IsParamName name) fail := by
  obtain ⟨lambda, supply, run, fresh⟩ := exists_runFrom_nameParams n tys st
  exact .of_ok run fun settled =>
    ⟨settled.of_eq rfl rfl rfl,
      ⟨.refl _, rfl, fun _ mem => fresh.grows mem, fun _ => rfl, fun _ _ _ => rfl⟩,
      fresh.types_eq, fresh.apart, fresh.new⟩

theorem copies_remember {id : PlanId} (calm : quiet → src.Calm catalog ms key)
    (kept : st.arena.isClosed id = true → src.Stored catalog className ms st.arena key id)
    (fail : PlanError → Prop) :
    Meets (src.copying catalog className ms quiet) st (remember key id)
      (fun _ next => next.arena = st.arena) fail := by
  have run := runFrom_remember key id st
  split at run
  · rename_i closed
    refine .of_ok run fun settled =>
      ⟨⟨settled.sound, settled.named, settled.pending, ?_⟩, ?_, rfl⟩
    · intro other old found
      rcases Table.of_get?_insertNew found with found | ⟨rfl, rfl⟩
      · exact settled.kept found
      · exact kept closed
    · refine ⟨.refl _, rfl, fun _ mem => mem, fun _ => rfl, fun q other wild => ?_⟩
      rw [Table.get?_insertNew, if_neg, Option.or_none]
      rintro rfl
      exact wild (calm q)
  · exact .of_ok run fun settled =>
      ⟨settled, (src.copying catalog className ms quiet).refl st, rfl⟩

end Source

end Injector
