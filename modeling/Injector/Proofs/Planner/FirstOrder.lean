/-
# Injector.Proofs.Planner.FirstOrder -- planning is unfolding

Planning goes through kept plans, an arena and a stack.  In a component of first order none of
this shows: whatever has been planned before, the plan for an accessor unfolds to the tree of
its key (`planned_unfolds`).  The accessor has a plan if the key has a tree in which the
accessor itself is not called, and only if the key has a tree.

Each function of the planner has one lemma, in the order of their definitions.  What a request
is answered with is in the arena and unfolds to the tree of the key, and so does what is kept.
A request fails only if it is not `Ready`: the key has no tree, or a call in it is under
construction.  A call asks for what is ready with the call on the stack, for otherwise the tree
would go on forever.

An accessor that a parent has too may be called for its own key.  That is a cycle, unless an
earlier accessor has left a plan for the key (`firstOrder_entries_refuted`).
-/
import Injector.Proofs.Planner.Unfolding
import Injector.Proofs.Planner.Sharing

namespace Injector

set_option autoImplicit false

open PlanM
open BuildStack (above?)
open Relation (ReflTransGen)

/-- Plans and the entries on the stack stay. -/
structure PlannerState.Grows (st next : PlannerState) : Prop where
  within : st.arena.Within next.arena
  entries : next.stack.entries = st.stack.entries

namespace PlannerState.Grows

theorem refl (st : PlannerState) : st.Grows st := ⟨.refl st.arena, rfl⟩

theorem trans {s t u : PlannerState} (first : s.Grows t) (second : t.Grows u) : s.Grows u :=
  ⟨first.within.trans second.within, second.entries.trans first.entries⟩

end PlannerState.Grows

namespace Source

variable (src : Source) (catalog : Catalog) (className : String)

/-- The plan in the slot unfolds to the tree of the key. -/
structure Unfolded (a : Arena) (slot : Slot) : Prop where
  known : slot.id < a.size
  tree : src.Unfolding catalog className slot.key (a.tree slot.id)

/-- No cycle waits, nothing is built later, and kept plans unfold to the trees of their keys. -/
structure Simple (st : PlannerState) : Prop where
  sound : st.arena.Sound
  settled : st.stack.pending = []
  now : .deferred ∉ st.stack.entries
  kept : ∀ key id, st.cache.get? key = some id → src.Unfolded catalog className st.arena ⟨key, id⟩

/-- States stay simple; plans and the entries on the stack stay. -/
def simplicity : Discipline where
  inv := src.Simple catalog className
  le := PlannerState.Grows
  refl := PlannerState.Grows.refl
  trans := PlannerState.Grows.trans

/-- The key has a tree, and no call in it is under construction. -/
structure Ready (s : List BuildEntry) (key : Key) : Prop where
  tree : ∃ t, src.Unfolding catalog className key t
  new : ∀ next c, ReflTransGen (src.Now catalog) key next → c ∈ src.calls catalog next →
    .building c.element ∉ s

/-- The key is asked for in the component, and needs less than the depth. -/
structure Asked (depth : Nat) (s : List BuildEntry) (key : Key) : Prop where
  requested : src.Requested catalog key
  less : src.need s none key < depth

/-- Requests are answered with what the keys unfold to, and fail only for keys that are not
ready. -/
def Unfolds (depth : Nat) (requests : Requests) : Prop :=
  ∀ key st, src.Asked catalog depth st.stack.entries key →
    Meets (src.simplicity catalog className) st (requests { className, catalog } key)
      (fun answer next =>
        match answer with
        | some slot => slot.key = key ∧ src.Unfolded catalog className next.arena slot
        | none => src.Unbound catalog key)
      fun _ => ¬src.Ready catalog className st.stack.entries key

variable {src catalog className} {a b : Arena} {slot : Slot} {key asked : Key} {id : PlanId}
  {st next : PlannerState} {s : List BuildEntry} {depth : Nat} {c : Call}

/-! ## What plans unfold to -/

theorem Unfolded.mono (unfolded : src.Unfolded catalog className a slot) (sound : a.Sound)
    (within : a.Within b) : src.Unfolded catalog className b slot where
  known := Nat.lt_of_lt_of_le unfolded.known within.size_le
  tree := by
    rw [within.tree_eq sound.before unfolded.known]
    exact unfolded.tree

/-- A plan for the step of the binding unfolds to the tree of the key if what it needs does. -/
theorem unfolded_of_found {b : Binding} {p : Plan} (known : key.ty.isUnresolved = false)
    (chosen : (src.choose catalog key).1 = .binding b) (sound : a.Sound)
    (found : a.plan? id = some p) (shape : p.shape = src.stepOf className b)
    (keys : p.children.map (·.key) = src.wants catalog key)
    (below : ∀ c ∈ p.children, src.Unfolded catalog className a c) :
    src.Unfolded catalog className a ⟨key, id⟩ := by
  refine ⟨Arena.lt_size_of_plan? found, ?_⟩
  have each : ∀ asked, ∃ t, asked ∈ src.wants catalog key →
      src.Unfolding catalog className asked t := by
    intro asked
    by_cases mem : asked ∈ src.wants catalog key
    · rw [← keys] at mem
      obtain ⟨c, child, rfl⟩ := List.mem_map.mp mem
      exact ⟨_, fun _ => (below c child).tree⟩
    · exact ⟨default, fun here => absurd here mem⟩
  choose trees unfolding using each
  have same : (p.children.map fun c => a.tree c.id) = (src.wants catalog key).map trees := by
    rw [← keys, List.map_map]
    refine List.map_congr_left fun c child => ?_
    have mem : c.key ∈ src.wants catalog key := keys ▸ List.mem_map_of_mem child
    exact (unfolding c.key mem).unique (below c child).tree
  have tree : a.tree id = _ := Arena.tree_eq found (sound.before found)
  rw [show (⟨key, id⟩ : Slot).id = id from rfl, tree, shape, same]
  exact .node trees known chosen unfolding

theorem Simple.of_eq (simple : src.Simple catalog className st) (arena : next.arena = st.arena)
    (cache : next.cache = st.cache) (settled : next.stack.pending = [])
    (now : .deferred ∉ next.stack.entries) : src.Simple catalog className next where
  sound := by
    rw [arena]
    exact simple.sound
  settled := settled
  now := now
  kept := by
    rw [arena, cache]
    exact simple.kept

theorem Simple.add (simple : src.Simple catalog className st) {p : Plan}
    (known : ∀ c ∈ p.children, c.id < st.arena.size) :
    src.Simple catalog className (st.add p) where
  sound := simple.sound.alloc known
  settled := simple.settled
  now := simple.now
  kept key id found := (simple.kept key id found).mono simple.sound (.alloc st.arena p)

theorem Simple.push (simple : src.Simple catalog className st) (element : Element) :
    src.Simple catalog className (st.push (.building element)) := by
  refine simple.of_eq rfl rfl simple.settled ?_
  simpa [PlannerState.push, BuildStack.push] using simple.now

/-! ## What is ready -/

theorem Ready.known (ready : src.Ready catalog className s key) : key.ty.isUnresolved = false := by
  obtain ⟨_, unfolding⟩ := ready.tree
  exact unfolding.bound.1

theorem Ready.bound (ready : src.Ready catalog className s key) : ¬src.Unbound catalog key := by
  obtain ⟨_, unfolding⟩ := ready.tree
  exact unfolding.bound.2

section FirstOrder

variable (first : src.FirstOrder catalog) (requested : src.Requested catalog key)

include first requested

/-- A call for what is ready asks for what is ready while it is under construction. -/
theorem Ready.of_asks (ready : src.Ready catalog className s key) (mem : c ∈ src.calls catalog key)
    (asks : asked ∈ src.asks c) :
    src.Ready catalog className (.building c.element :: s) asked := by
  obtain ⟨_, unfolding⟩ := ready.tree
  have now : src.Now catalog key asked := (mem_wants_iff (first.plain key requested)).mp
    (List.mem_flatMap.mpr ⟨c, mem, asks⟩)
  refine ⟨unfolding.now now, fun next d chain mem' again => ?_⟩
  rcases List.mem_cons.mp again with same | under
  · have plain := first.plain next ((requested.now (.single now)).now chain)
    exact (unfolding.buildable first requested).onward key c .refl mem
      ⟨asked, asks, next, chain, d, mem', (call_of_plain plain mem').2.1, by simpa using same⟩
  · exact ready.new next d (.head now chain) mem' under

end FirstOrder

theorem Asked.of_asks (here : src.Asked catalog (depth + 1) s key) (mem : c ∈ src.calls catalog key)
    (new : above? c.element s = none) (asks : asked ∈ src.asks c) :
    src.Asked catalog depth (.building c.element :: s) asked where
  requested := .asked here.requested mem asks
  less := Nat.lt_of_lt_of_le (need_asked (u := none) mem asks new) (Nat.le_of_lt_succ here.less)

/-! ## Steps -/

section Steps

variable {fail : PlanError → Prop}

theorem unfolds_report (findings : List Finding) :
    Meets (src.simplicity catalog className) st (report findings) (fun _ _ => True) fail :=
  .of_ok (runFrom_report findings st) fun inv =>
    ⟨inv.of_eq rfl rfl inv.settled inv.now, ⟨.refl _, rfl⟩, trivial⟩

theorem unfolds_alloc {p : Plan} (known : ∀ c ∈ p.children, c.id < st.arena.size) :
    Meets (src.simplicity catalog className) st (alloc p)
      (fun id next => next.arena.plan? id = some p) fail :=
  .of_ok (runFrom_alloc p st) fun inv =>
    ⟨inv.add known, ⟨.alloc st.arena p, rfl⟩, Regime.plan?_add st p⟩

theorem unfolds_remember (unfolded : src.Unfolded catalog className st.arena ⟨key, id⟩) :
    Meets (src.simplicity catalog className) st (remember key id) (fun _ _ => True) fail := by
  refine .of_ok (runFrom_remember key id st) fun inv => ?_
  split
  · refine ⟨⟨inv.sound, inv.settled, inv.now, fun other old found => ?_⟩, ⟨.refl _, rfl⟩, trivial⟩
    rcases Table.of_get?_insertNew found with found | ⟨rfl, rfl⟩
    · exact inv.kept other old found
    · exact unfolded
  · exact ⟨inv, .refl st, trivial⟩

/-- Where no cycle waits nothing is put around a plan. -/
theorem runFrom_closeCycle_settled (settled : st.stack.pending = []) (key : Key) (id : PlanId) :
    (closeCycle key id).runFrom st = (.ok id, st) := by
  have none : st.stack.pendingFor key = none := by simp [BuildStack.pendingFor, settled]
  simp only [closeCycle, runFrom_bind, runFrom_get]
  split
  · rfl
  · rfl
  · rfl
  · rfl
  · simp only [runFrom_bind, runFrom_modifyGet, BuildStack.claim, none]
    rfl

/-- An element is built unless it is under construction. -/
theorem unfolds_constructing {act : PlanM PlanId} (post : PlanId → Arena → Prop) (key : Key)
    (element : Element) (again : .building element ∈ st.stack.entries → ∀ e, fail e)
    (inside : above? element st.stack.entries = none →
      Meets (src.simplicity catalog className) (st.push (.building element)) act
        (fun id next => post id next.arena) fail) :
    Meets (src.simplicity catalog className) st (constructing key element act)
      (fun id next => post id next.arena) fail := by
  refine .of_inv fun inv => ?_
  cases met : above? element st.stack.entries with
  | none =>
      obtain ⟨simple, ⟨within, entries⟩, holds⟩ := (inside met).1 (inv.push element)
      have failing := (inside met).2 (inv.push element)
      have run := runFrom_constructing_entered key act met
      rw [runFrom_bind, runFrom_restoring] at run
      generalize act.runFrom (st.push (.building element)) = ran
        at simple within entries holds failing run
      obtain ⟨answer, after⟩ := ran
      have back := entries_popTo entries
      have simple' : src.Simple catalog className (after.popTo st.stack.height) :=
        simple.of_eq rfl rfl simple.settled (back ▸ inv.now)
      cases answer with
      | error e => exact .of_error run fun _ => ⟨simple', ⟨within, back⟩, failing e rfl⟩
      | ok id =>
          have closed := runFrom_closeCycle_settled simple'.settled key id
          exact .of_ok (run.trans closed) fun _ => ⟨simple', ⟨within, back⟩, holds id rfl⟩
  | some above =>
      have now : above.contains .deferred = false := by
        simpa using fun mem => inv.now (BuildStack.subset_of_above? met mem)
      exact .of_error (runFrom_constructing_endless key act met now) fun _ =>
        ⟨inv, .refl st, again (BuildStack.building_of_above? met) _⟩

end Steps

/-- The choice is reported; only a key that nothing makes has no answer. -/
theorem unfolds_bindingFor :
    Meets (src.simplicity catalog className) st (src.bindingFor { className, catalog } key)
      (fun answer _ =>
        match answer with
        | some b => (src.choose catalog key).1 = .binding b
        | none => src.Unbound catalog key)
      fun _ => ¬src.Ready catalog className s key := by
  simp only [bindingFor]
  refine (unfolds_report _).bind fun _ next _ _ _ => ?_
  split
  · rename_i chosen
    exact .pure chosen
  · rename_i b chosen
    exact .pure chosen
  · rename_i chosen
    refine .failTraced fun ready => ?_
    obtain ⟨_, unfolding⟩ := ready.tree
    cases unfolding with
    | node _ _ chosen' _ => cases chosen.symm.trans chosen'

/-! ## Calls -/

theorem wants_of_calls (only : src.calls catalog key = [c]) :
    src.wants catalog key = src.asks c := by
  rw [wants, only, List.flatMap_singleton]

theorem mapValues_of_rows {subst : Subst} {params : List ParamDecl} {args : Table String Slot}
    (rows : args.rows.map (fun row => (row.1, row.2.key)) =
      params.map fun param => (param.name, src.paramKey subst param)) :
    (args.mapValues fun slot => { slot with id := 0 }) = src.blanks subst params := by
  have blank := congrArg (List.map fun row : String × Key => (row.1, (⟨row.2, 0⟩ : Slot))) rows
  rw [List.map_map, List.map_map] at blank
  exact congrArg Table.mk blank

theorem keys_of_rows {subst : Subst} {params : List ParamDecl} {args : Table String Slot}
    (rows : args.rows.map (fun row => (row.1, row.2.key)) =
      params.map fun param => (param.name, src.paramKey subst param)) :
    args.values.map (·.key) = params.map (src.paramKey subst) := by
  have keys := congrArg (List.map fun row : String × Key => row.2) rows
  rw [List.map_map, List.map_map] at keys
  rw [Table.values, List.map_map]
  exact keys

/-- A plan is made for the step of the binding once what it needs is there. -/
theorem unfolds_made {b : Binding} {p : Plan} {fail : PlanError → Prop}
    (known : key.ty.isUnresolved = false) (chosen : (src.choose catalog key).1 = .binding b)
    (shape : p.shape = src.stepOf className b)
    (keys : p.children.map (·.key) = src.wants catalog key)
    (below : ∀ c ∈ p.children, src.Unfolded catalog className st.arena c) :
    Meets (src.simplicity catalog className) st (alloc p)
      (fun id next => src.Unfolded catalog className next.arena ⟨key, id⟩) fail := by
  refine .of_inv fun inv => ?_
  refine (unfolds_alloc fun c child => (below c child).known).mono
    (fun id next inv' le found => ?_) fun _ failed => failed
  exact unfolded_of_found known chosen inv'.sound found shape keys
    fun c child => (below c child).mono inv.sound le.1

section Requests

variable {requests : Requests} (unfolds : src.Unfolds catalog className depth requests)

include unfolds

theorem unfolds_demand (here : src.Asked catalog depth st.stack.entries key) :
    Meets (src.simplicity catalog className) st (demand requests { className, catalog } key)
      (fun slot next => slot.key = key ∧ src.Unfolded catalog className next.arena slot)
      fun _ => ¬src.Ready catalog className st.stack.entries key := by
  simp only [demand]
  refine (unfolds key st here).bind fun answer next _ _ said => ?_
  cases answer with
  | none => exact .failTraced fun ready => ready.bound said
  | some slot => exact .pure said

/-- There is an argument for each parameter. -/
theorem unfolds_arguments {fail : PlanError → Prop} {subst : Subst} {element : Element}
    {params : List ParamDecl} {out : Table String Slot}
    (strict : ∀ param ∈ params, param.hasDefault = false) (apart : (params.map (·.name)).Nodup)
    (new : ∀ param ∈ params, param.name ∉ out.keys)
    (before : ∀ slot ∈ out.values, src.Unfolded catalog className st.arena slot)
    (here : ∀ param ∈ params,
      src.Asked catalog depth st.stack.entries (src.paramKey subst param))
    (blame : ∀ param ∈ params,
      ¬src.Ready catalog className st.stack.entries (src.paramKey subst param) → ∀ e, fail e) :
    Meets (src.simplicity catalog className) st
      (src.arguments requests { className, catalog } subst element params out)
      (fun args next => args.rows.map (fun row => (row.1, row.2.key)) =
          out.rows.map (fun row => (row.1, row.2.key)) ++
            params.map (fun param => (param.name, src.paramKey subst param)) ∧
        ∀ slot ∈ args.values, src.Unfolded catalog className next.arena slot)
      fail := by
  induction params generalizing out st with
  | nil => exact .pure ⟨by simp, before⟩
  | cons param rest ih =>
      obtain ⟨other, apart⟩ := List.nodup_cons.mp apart
      refine .of_inv fun inv => ?_
      simp only [arguments]
      refine (unfolds_report _).bind fun _ mid _ le _ => ?_
      have first : src.Asked catalog depth mid.stack.entries (src.paramKey subst param) :=
        le.2 ▸ here param List.mem_cons_self
      have blameFirst := blame param List.mem_cons_self
      refine (unfolds _ mid first).andThen (fun e unready => blameFirst (le.2 ▸ unready) e)
        fun answer next _ le' said => ?_
      have entries : next.stack.entries = st.stack.entries := le'.2.trans le.2
      cases answer with
      | none =>
          dsimp only
          rw [if_neg (by simp [strict param List.mem_cons_self])]
          exact .failTraced (blameFirst (fun ready => ready.bound said) _)
      | some slot =>
          obtain ⟨same, unfolded⟩ := said
          have row : (out.insert param.name slot).rows = out.rows ++ [(param.name, slot)] :=
            Table.rows_insert_of_notMem (new param List.mem_cons_self) slot
          have new' : ∀ p ∈ rest, p.name ∉ (out.insert param.name slot).keys := by
            intro p mem
            rw [Table.keys, row, List.map_append, List.mem_append, not_or]
            refine ⟨new p (List.mem_cons_of_mem _ mem), fun twice => other ?_⟩
            rw [← List.mem_singleton.mp twice]
            exact List.mem_map_of_mem mem
          have before' : ∀ s ∈ (out.insert param.name slot).values,
              src.Unfolded catalog className next.arena s := by
            intro s mem
            rcases Table.mem_values_insert mem with rfl | mem
            · exact unfolded
            · exact (before s mem).mono inv.sound (le.1.trans le'.1)
          refine (ih (fun p mem => strict p (List.mem_cons_of_mem _ mem)) apart new' before'
            (fun p mem => entries ▸ here p (List.mem_cons_of_mem _ mem))
            fun p mem unready => blame p (List.mem_cons_of_mem _ mem) (entries ▸ unready)).mono
            (fun args last _ _ passed => ⟨?_, passed.2⟩) fun _ failed => failed
          rw [passed.1, row]
          simp [same, paramKey]

/-- The receiver is there if one is declared. -/
theorem unfolds_receiverFor {fail : PlanError → Prop} {subst : Subst} {receiver : Option Ty}
    (here : ∀ ty ∈ receiver, src.Asked catalog depth st.stack.entries (receiverKey subst ty))
    (blame : ∀ ty ∈ receiver,
      ¬src.Ready catalog className st.stack.entries (receiverKey subst ty) → ∀ e, fail e) :
    Meets (src.simplicity catalog className) st
      (receiverFor requests { className, catalog } subst receiver)
      (fun answer next => answer.map (·.key) = receiver.map (receiverKey subst) ∧
        ∀ slot ∈ answer, src.Unfolded catalog className next.arena slot)
      fail := by
  cases receiver with
  | none => exact .pure ⟨rfl, by simp⟩
  | some ty =>
      refine (unfolds_demand unfolds (here ty rfl)).andThen
        (fun e unready => blame ty rfl unready e) fun slot next _ _ said => .pure ⟨?_, ?_⟩
      · rw [Option.map_some, Option.map_some, said.1]
      · rintro _ ⟨⟩
        exact said.2

variable (first : src.FirstOrder catalog)

include first

theorem unfolds_planCtor {cls : ClassId} {index : Nat} {path : FieldPath}
    {scopedIn : Option ClassId} (known : key.ty.isUnresolved = false)
    (chosen : (src.choose catalog key).1 = .binding (.ctor cls index key.ty path scopedIn))
    (here : src.Asked catalog (depth + 1) st.stack.entries key) :
    Meets (src.simplicity catalog className) st
      (src.planCtor requests { className, catalog } key cls index key.ty)
      (fun id next => src.Unfolded catalog className next.arena ⟨key, id⟩)
      fun _ => ¬src.Ready catalog className st.stack.entries key := by
  let c := src.ctorCall key cls index key.ty
  have only : src.calls catalog key = [c] := calls_of_binding chosen
  have mem : c ∈ src.calls catalog key := by simp [only]
  have built : src.Built catalog c := ⟨key, here.requested, mem⟩
  obtain ⟨ctor, declared⟩ := exists_ctor (ctor_of_chosen chosen)
  have params : c.params = ctor.params := by simp [c, ctorCall, declared]
  have asks : src.asks c = ctor.params.map (src.paramKey c.subst) := by
    simp [Source.asks, params, show c.receiver = none from rfl]
  refine unfolds_constructing (fun id a => src.Unfolded catalog className a ⟨key, id⟩) key _
    (fun again _ ready => ready.new key c .refl mem again) fun new => ?_
  dsimp only
  rw [declared]
  have param_asks : ∀ param ∈ ctor.params, src.paramKey c.subst param ∈ src.asks c :=
    fun param mem' => asks ▸ List.mem_map_of_mem mem'
  refine (unfolds_arguments unfolds (params ▸ first.strict c built)
    (params ▸ first.distinct c built) (fun _ _ => List.not_mem_nil) (List.forall_mem_nil _)
    (fun param mem' => here.of_asks mem new (param_asks param mem'))
    fun param mem' unready _ ready => ?_).bind fun args mid _ _ passed => ?_
  · exact unready (ready.of_asks first here.requested mem (param_asks param mem'))
  · obtain ⟨rows, below⟩ := passed
    refine unfolds_made known chosen ?_ ?_ below
    · rw [stepOf, declared, Option.getD_some, Plan.shape, Plan.mapSlots, mapValues_of_rows rows]
    · rw [wants_of_calls only, asks]
      exact keys_of_rows rows

theorem unfolds_planCall {b : MemberBinding} (known : key.ty.isUnresolved = false)
    (chosen : (src.choose catalog key).1 = .binding (.member b))
    (here : src.Asked catalog (depth + 1) st.stack.entries key) :
    Meets (src.simplicity catalog className) st
      (src.planCall requests { className, catalog } key b .empty)
      (fun id next => src.Unfolded catalog className next.arena ⟨key, id⟩)
      fun _ => ¬src.Ready catalog className st.stack.entries key := by
  let c := src.memberCall key b.member .empty false
  have only : src.calls catalog key = [c] := calls_of_binding chosen
  have mem : c ∈ src.calls catalog key := by simp [only]
  have built : src.Built catalog c := ⟨key, here.requested, mem⟩
  refine unfolds_constructing (fun id a => src.Unfolded catalog className a ⟨key, id⟩) key _
    (fun again _ ready => ready.new key c .refl mem again) fun new => ?_
  have receiver_asks : ∀ ty ∈ c.receiver, receiverKey c.subst ty ∈ src.asks c := fun ty mem' =>
    List.mem_append_left _ (by simp [Option.mem_def.mp mem'])
  have param_asks : ∀ param ∈ c.params, src.paramKey c.subst param ∈ src.asks c := fun param mem' =>
    List.mem_append_right _ (List.mem_map_of_mem mem')
  -- what is asked for is asked for with the call on the stack, as long as it is built
  have blame (asked : Key) (asks : asked ∈ src.asks c)
      (unready : ¬src.Ready catalog className (.building c.element :: st.stack.entries) asked) :
      ¬src.Ready catalog className st.stack.entries key := fun ready =>
    unready (ready.of_asks first here.requested mem asks)
  refine (unfolds_receiverFor unfolds (fun ty mem' => here.of_asks mem new (receiver_asks ty mem'))
    fun ty mem' unready _ => blame _ (receiver_asks ty mem') unready).bind
    fun receiver mid inv le received => ?_
  refine (unfolds_arguments unfolds (first.strict c built) (first.distinct c built)
    (fun _ _ => List.not_mem_nil) (List.forall_mem_nil _) (fun param mem' => ?_)
    fun param mem' unready _ => ?_).bind fun args last _ le' passed => ?_
  · rw [le.2]
    exact here.of_asks mem new (param_asks param mem')
  · rw [le.2] at unready
    exact blame _ (param_asks param mem') unready
  · obtain ⟨rows, below⟩ := passed
    refine unfolds_made known chosen ?_ ?_ fun slot child => ?_
    · have blank := congrArg (Option.map fun key => (⟨key, 0⟩ : Slot)) received.1
      rw [Option.map_map, Option.map_map] at blank
      rw [stepOf, Plan.shape, Plan.mapSlots, mapValues_of_rows rows]
      exact congrArg (fun receiver => Plan.provide _ _ _ receiver _ _) blank
    · rw [wants_of_calls only, Plan.children, List.map_append, keys_of_rows rows]
      have one : receiver.toList.map (·.key) = (c.receiver.map (receiverKey c.subst)).toList := by
        rw [← Option.toList_map]
        exact congrArg Option.toList received.1
      rw [one]
      rfl
    · rcases List.mem_append.mp child with child | child
      · exact (received.2 slot (Option.mem_toList.mp child)).mono inv.sound le'.1
      · exact below slot child

theorem unfolds_planBinding {b : Binding} (known : key.ty.isUnresolved = false)
    (chosen : (src.choose catalog key).1 = .binding b)
    (here : src.Asked catalog (depth + 1) st.stack.entries key) :
    Meets (src.simplicity catalog className) st
      (src.planBinding requests { className, catalog } key b)
      (fun id next => src.Unfolded catalog className next.arena ⟨key, id⟩)
      fun _ => ¬src.Ready catalog className st.stack.entries key := by
  have plain := first.plain key here.requested
  simp only [Plain, PlainChoice, chosen] at plain
  cases b with
  | ctor cls index ty path scopedIn =>
      obtain ⟨rfl, -⟩ := class_of_chosen chosen
      obtain rfl : scopedIn = none := plain
      exact unfolds_planCtor unfolds first known chosen here
  | member b =>
      have unscoped : b.scopedIn = none := plain
      simp only [planBinding, planMember, unscoped, Option.isSome_none, Bool.false_and]
      exact unfolds_planCall unfolds first known chosen here
  | container => cases plain
  | object cls =>
      have nothing : src.wants catalog key = [] := by
        rw [wants, calls_of_binding chosen]
        rfl
      exact unfolds_made known chosen rfl nothing.symm (List.forall_mem_nil _)

/-! ## Requests -/

/-- A plan for the key unfolds to its tree, and there is none only if nothing binds it. -/
theorem unfolds_planFor (here : src.Asked catalog (depth + 1) st.stack.entries key) :
    Meets (src.simplicity catalog className) st
      (src.planFor requests { className, catalog } key)
      (fun answer next =>
        match answer with
        | some id => src.Unfolded catalog className next.arena ⟨key, id⟩
        | none => src.Unbound catalog key)
      fun _ => ¬src.Ready catalog className st.stack.entries key := by
  have absent : Site.findParam src.program { className, catalog } key = none := by
    simp [Site.findParam]
  simp only [planFor, absent]
  split
  · rename_i unresolved
    exact .throw fun ready => by simp [ready.known] at unresolved
  · rename_i known
    rw [Bool.not_eq_true] at known
    refine unfolds_bindingFor.bind fun answer mid _ le chosen => ?_
    cases answer with
    | some b =>
        rw [← le.2] at here ⊢
        exact (unfolds_planBinding unfolds first known chosen here).bind
          fun id next _ _ unfolded => .pure unfolded
    | none =>
        have plain := first.plain key here.requested
        have nothing : (src.choose catalog key).1 = .nothing := chosen
        simp only [Plain, PlainChoice, nothing] at plain
        obtain ⟨plain, strict, none⟩ := plain
        simp only [plain, strict, planGeneric, none]
        exact .pure chosen

end Requests

theorem unfolds_kept? {fail : PlanError → Prop} :
    Meets (src.simplicity catalog className) st (kept? { className, catalog } key)
      (fun answer next => ∀ id ∈ answer, src.Unfolded catalog className next.arena ⟨key, id⟩)
      fail := by
  have run : (kept? { className, catalog } key).runFrom st = (.ok (st.cache.get? key), st) := rfl
  exact .of_ok run fun inv =>
    ⟨inv, .refl st, fun id found => inv.kept key id found⟩

section Requests

variable (first : src.FirstOrder catalog)

include first

theorem unfolds_requestWith {requests : Requests}
    (unfolds : src.Unfolds catalog className depth requests) :
    src.Unfolds catalog className (depth + 1) (src.requestWith requests) := by
  intro key st here
  simp only [requestWith]
  refine unfolds_kept?.bind fun answer mid _ le kept => ?_
  cases answer with
  | some id => exact .pure ⟨rfl, kept id rfl⟩
  | none =>
      rw [← le.2] at here ⊢
      refine (unfolds_planFor unfolds first here).bind fun answer next inv _ said => ?_
      cases answer with
      | none => exact .pure said
      | some id =>
          refine (unfolds_remember said).bind fun _ last _ le _ => .pure ⟨rfl, ?_⟩
          exact said.mono inv.sound le.1

theorem unfolds_requestTo (depth : Nat) :
    src.Unfolds catalog className depth (src.requestTo depth) := by
  induction depth with
  | zero => exact fun _ _ here => absurd here.less (Nat.not_lt_zero _)
  | succ depth ih => exact unfolds_requestWith first ih

/-- Requests have depth enough. -/
theorem unfolds_request (depth : Nat) : src.Unfolds catalog className depth src.request :=
  fun key st here =>
    unfolds_requestTo first (src.requestDepth key) key st
      ⟨here.requested, need_lt_requestDepth _ _ _⟩

/-! ## Accessors -/

/-- What is done for an accessor once the stack is empty. -/
theorem unfolds_accessor {m : MemberId} (accessor : m ∈ catalog.own.accessors)
    (empty : st.stack.entries = []) (findings : List Finding) (entry : PlanId → Entry) :
    Meets (src.simplicity catalog className) st
      (do
        report findings
        let id ← constructing (src.accessorKey catalog m) (.member m) do
          return (← src.resolve { className, catalog } (src.accessorKey catalog m)).id
        match (← get).stack.unclosed? with
        | some trace => throw (.unclosed m trace)
        | none => return entry id)
      (fun e next => ∃ id, e = entry id ∧
        src.Unfolded catalog className next.arena ⟨src.accessorKey catalog m, id⟩)
      fun _ =>
        ¬src.Ready catalog className [.building (.member m)] (src.accessorKey catalog m) := by
  let key := src.accessorKey catalog m
  refine (unfolds_report findings).bind fun _ mid _ le _ => ?_
  have bare : mid.stack.entries = [] := le.2.trans empty
  refine (unfolds_constructing (fun id a => src.Unfolded catalog className a ⟨key, id⟩) key _
    (fun again => by simp [bare] at again) fun _ => ?_).bind fun id next inv _ unfolded => ?_
  · have alone : (mid.push (.building (.member m))).stack.entries = [.building (.member m)] :=
      congrArg _ bare
    have here : src.Asked catalog (src.requestDepth key)
        (mid.push (.building (.member m))).stack.entries key :=
      ⟨.accessor accessor, need_lt_requestDepth _ _ _⟩
    rw [← alone]
    refine (unfolds_demand (unfolds_request first _) here).bind fun slot next _ _ said => .pure ?_
    rw [← said.1]
    exact said.2
  · have none : next.stack.unclosed? = none := by simp [BuildStack.unclosed?, inv.settled]
    refine .of_ok (?_ : _ = (Except.ok (entry id), next)) fun inv =>
      ⟨inv, .refl _, id, rfl, unfolded⟩
    simp only [runFrom_bind, runFrom_get, none, runFrom_pure]

/-- An accessor that succeeds unfolds to the tree of its key; one that fails was not ready. -/
theorem unfolds_implement {m : MemberId} (accessor : m ∈ catalog.own.accessors)
    (inv : src.Simple catalog className st) :
    let ran := (src.implement { className, catalog } m).runFrom st
    src.Simple catalog className ran.2 ∧ st.arena.Within ran.2.arena ∧
      (∀ e, ran.1 = .ok e → e.name = (src.program.memberAt m).name ∧
        e.result.key = src.accessorKey catalog m ∧
        src.Unfolded catalog className ran.2.arena e.result) ∧
      ∀ e, ran.1 = .error e →
        ¬src.Ready catalog className [.building (.member m)] (src.accessorKey catalog m) := by
  let fresh : PlannerState := { st with stack := {}, names := {} }
  have start : src.Simple catalog className fresh := inv.of_eq rfl rfl rfl List.not_mem_nil
  have implemented : Meets (src.simplicity catalog className) fresh _ _ _ :=
    unfolds_accessor first accessor rfl
    (Finding.listAt (.member m) (src.qualifier (src.program.memberAt m).annotations
      (src.program.returnTypeIn m catalog.own.cls)).2)
    (fun id => {
      name := (src.program.memberAt m).name
      returnType := (src.program.returnTypeIn m catalog.own.cls).unqualified
      isProperty := (src.program.memberAt m).kind == .property
      isPrivate := false
      isOverride := true
      isSuspend := (src.program.memberAt m).isSuspend
      result := ⟨src.accessorKey catalog m, id⟩ })
  obtain ⟨simple, ⟨within, -⟩, holds⟩ := implemented.1 start
  refine ⟨simple, within, fun e done => ?_, implemented.2 start⟩
  obtain ⟨id, rfl, unfolded⟩ := holds e done
  exact ⟨rfl, rfl, unfolded⟩

theorem unfolds_implementEach {accessors : List MemberId}
    (own : accessors ⊆ catalog.own.accessors) (inv : src.Simple catalog className st) :
    let last := ((src.implementEach { className, catalog } accessors).run st).2
    src.Simple catalog className last ∧ st.arena.Within last.arena := by
  induction accessors generalizing st with
  | nil => exact ⟨inv, .refl _⟩
  | cons m rest ih =>
      obtain ⟨inv', within, -⟩ := unfolds_implement first (own List.mem_cons_self) inv
      obtain ⟨inv'', within'⟩ := ih (fun _ mem => own (List.mem_cons_of_mem _ mem)) inv'
      rw [Regime.run_implementEach_cons rfl rfl]
      exact ⟨inv'', within.trans within'⟩

end Requests

theorem simple_empty (log : Log) : src.Simple catalog className { log } where
  sound := Arena.sound_empty
  settled := rfl
  now := List.not_mem_nil
  kept _ _ found := by cases found

/-- An accessor that is not called for what it comes to is ready just if its key is buildable. -/
theorem ready_iff_buildable {m : MemberId} (first : src.FirstOrder catalog)
    (requested : src.Requested catalog (src.accessorKey catalog m))
    (apart : ∀ c, src.Needs catalog m c → c.element ≠ .member m) :
    src.Ready catalog className [.building (.member m)] (src.accessorKey catalog m) ↔
      src.Buildable catalog (src.accessorKey catalog m) := by
  have tree : (∃ t, src.Unfolding catalog className (src.accessorKey catalog m) t) ↔ _ :=
    exists_unfolding_iff first requested
  refine ⟨fun ready => tree.mp ready.tree, fun buildable =>
    ⟨tree.mpr buildable, fun next c chain mem again => ?_⟩⟩
  have needs : src.Needs catalog m c :=
    ⟨next, ReflTransGen.mono (fun _ _ => Now.toNext) _ _ chain, mem⟩
  exact apart c needs (by simpa using again)

/-- In a component of first order, whatever is planned before an accessor, its plan is the tree
of its key.  An accessor that is not called for what it comes to has a plan if and only if all
that it comes to is bound, and no declaration is called again for what its call asks for. -/
theorem planned_unfolds (src : Source) (className : String) (catalog : Catalog) (log : Log)
    (first : src.FirstOrder catalog) {before after : List MemberId} {m : MemberId}
    (order : catalog.own.accessors = before ++ m :: after) :
    let key := src.accessorKey catalog m
    let outcome := (src.turn className catalog log before m).1
    (∃ later, (src.planning className catalog log).1 =
      (src.prior className catalog log before).1 ++ (outcome ++ later)) ∧
    ((∃ e, outcome = ⟨[e], []⟩) ∨ ∃ failure, outcome = ⟨[], [(m, failure)]⟩) ∧
    (∀ e, outcome = ⟨[e], []⟩ →
      e.name = (src.program.memberAt m).name ∧ e.result.key = key ∧
      ∀ t, src.Unfolding catalog className key t ↔
        t = (src.planned className catalog log).arena.tree e.result.id) ∧
    ((∀ c, src.Needs catalog m c → c.element ≠ .member m) →
      ((∃ e, outcome = ⟨[e], []⟩) ↔ src.Buildable catalog key)) := by
  intro key outcome
  have whole : src.planning className catalog log =
      let later := (src.implementEach { className, catalog } after).run
        (src.turn className catalog log before m).2
      ((src.prior className catalog log before).1 ++ (outcome ++ later.1), later.2) := by
    have split : before ++ m :: after = before ++ ([m] ++ after) := rfl
    rw [planning, implementAll, order, split]
    simp only [run_implementEach_append]
    rfl
  have accessor : m ∈ catalog.own.accessors := by simp [order]
  have requested : src.Requested catalog key := .accessor accessor
  have ready (apart : ∀ c, src.Needs catalog m c → c.element ≠ .member m) :
      src.Ready catalog className [.building (.member m)] key ↔ src.Buildable catalog key :=
    ready_iff_buildable first requested apart
  have start : src.Simple catalog className (src.prior className catalog log before).2 :=
    (unfolds_implementEach first (by simp [order]) (simple_empty log)).1
  have implemented := unfolds_implement first accessor start
  cases ran : (src.implement { className, catalog } m).runFrom
      (src.prior className catalog log before).2 with
  | mk result mid =>
      rw [ran] at implemented
      obtain ⟨inv, -, done, failed⟩ := implemented
      have turned : src.turn className catalog log before m = (Regime.prepend m {} result, mid) :=
        Regime.run_implementEach_cons ran rfl
      have same : outcome = Regime.prepend m {} result := congrArg Prod.fst turned
      cases result with
      | error failure =>
          refine ⟨⟨_, congrArg Prod.fst whole⟩, .inr ⟨failure, same⟩,
            fun e planned => ?_, fun apart => iff_of_false ?_ fun buildable => ?_⟩
          · cases same.symm.trans planned
          · rintro ⟨e, planned⟩
            cases same.symm.trans planned
          · exact failed failure rfl ((ready apart).mpr buildable)
      | ok e =>
          obtain ⟨name, result, unfolded⟩ := done e rfl
          have within : mid.arena.Within (src.planned className catalog log).arena := by
            rw [planned, whole, turned]
            exact (unfolds_implementEach first (by simp [order]) inv).2
          have tree : src.Unfolding catalog className key
              ((src.planned className catalog log).arena.tree e.result.id) := by
            rw [show key = e.result.key from result.symm]
            exact (unfolded.mono inv.sound within).tree
          refine ⟨⟨_, congrArg Prod.fst whole⟩, .inl ⟨e, same⟩, fun e' planned => ?_,
            fun apart => iff_of_true ⟨e, same⟩ (tree.buildable first requested)⟩
          cases same.symm.trans planned
          exact ⟨name, result, fun t => ⟨tree.unique, fun same => same ▸ tree⟩⟩

end Source

open Source

/-- A component that has components as parameters. -/
def ClassDecl.componentBelow (parents : List (String × Ty)) (supers : List Ty)
    (members : List MemberId) : ClassDecl where
  name := "C"
  isAbstract := true
  annotations := [.ofDecl .component]
  supers := supers
  ctors := [{ params := parents.map fun (name, ty) =>
    { name, ty, annotations := [.ofDecl .component] } }]
  members := members

/-- A `Foo` needs a `Bar` and the `Baz`; the parent makes the `Bar`, from the `Baz`. -/
def plainParent : Source where
  program :=
    { classes := [.injectable "Foo" [("bar", { name := "Bar" }), ("baz", { name := "Baz" })],
        { name := "Bar" }, { name := "Baz", kind := .object, annotations := [.ofDecl .inject] },
        { ClassDecl.abstractComponent [.ofNat 0] with name := "P" },
        .componentBelow [("p", { name := "P" })] [] [.ofNat 1, .ofNat 2]]
      members := [
        { owner := some (.ofNat 3), name := "makeBar", annotations := [.ofDecl .provides],
          params := [{ name := "baz", ty := { name := "Baz" } }], returnType := { name := "Bar" } },
        .accessor (.ofNat 4) "bar" { name := "Bar" },
        .accessor (.ofNat 4) "foo" { name := "Foo" }] }
  options := {}

/-- All that is asked for in `plainParent`. -/
def plainParentKeys : List Key :=
  [.of { name := "Foo" }, .of { name := "Bar" }, .of { name := "Baz" }]

theorem plainParent_covers :
    plainParent.Covers (plainParent.collect (.ofNat 4) {}).1 plainParentKeys := by
  decide +kernel

/-- Where the `Bar` is planned first, the plan for the `Foo` is its tree. -/
theorem plainParent_unfolds :
    let catalog := (plainParent.collect (.ofNat 4) {}).1
    plainParent.FirstOrder catalog ∧ catalog.own.accessors = [.ofNat 1] ++ .ofNat 2 :: [] ∧
      plainParent.Buildable catalog (.of { name := "Foo" }) ∧
      ∃ e, (plainParent.turn "InjectC" catalog {} [.ofNat 1] (.ofNat 2)).1 = ⟨[e], []⟩ ∧
        plainParent.Unfolding catalog "InjectC" (.of { name := "Foo" })
          ((plainParent.planned "InjectC" catalog {}).arena.tree e.result.id) := by
  intro catalog
  have first : plainParent.FirstOrder catalog := plainParent_covers.firstOrder (by decide)
    (by decide +kernel) (by decide +kernel) (by decide +kernel)
  have order : catalog.own.accessors = [.ofNat 1] ++ .ofNat 2 :: [] := by decide +kernel
  have key : plainParent.accessorKey catalog (.ofNat 2) = .of { name := "Foo" } := by
    decide +kernel
  have calls : ∀ c ∈ plainParentKeys.flatMap (plainParent.calls catalog),
      c.element ≠ .member (.ofNat 2) := by
    decide +kernel
  have succeeds :
      (plainParent.turn "InjectC" catalog {} [.ofNat 1] (.ofNat 2)).1.failures = [] := by
    decide +kernel
  obtain ⟨-, outcome, unfolds, complete⟩ :=
    planned_unfolds plainParent "InjectC" catalog {} first order
  have accessor : .ofNat 2 ∈ catalog.own.accessors := by simp [order]
  obtain ⟨e, planned⟩ | ⟨failure, failed⟩ := outcome
  · have buildable := (complete fun c needs =>
      calls c (plainParent_covers.built (needs.built accessor))).mp ⟨e, planned⟩
    obtain ⟨-, -, tree⟩ := unfolds e planned
    rw [key] at buildable tree
    exact ⟨first, order, buildable, e, planned, (tree _).mpr rfl⟩
  · rw [failed] at succeeds
    cases succeeds

/-- What is asked for is made, but of a type that is not known. -/
def unknownType : Source where
  program :=
    { classes := [.abstractComponent [.ofNat 0, .ofNat 1]]
      members := [.accessor (.ofNat 0) "gone" { kind := .unresolved, name := "Gone" },
        { owner := some (.ofNat 0), name := "makeGone", annotations := [.ofDecl .provides],
          returnType := { kind := .unresolved, name := "Gone" } }] }
  options := {}

/-- A component inherits the accessor `foo`, and so does its parent; it has an accessor for a
`Bar`, which needs the `Foo`. -/
def inheritedTwice : Source where
  program :=
    { classes := [{ name := "I", kind := .interface, members := [.ofNat 0] },
        { ClassDecl.abstractComponent [] with name := "P", supers := [{ name := "I" }] },
        .componentBelow [("p", { name := "P" })] [{ name := "I" }] [.ofNat 1],
        { name := "Foo" }, .injectable "Bar" [("foo", { name := "Foo" })]]
      members := [.accessor (.ofNat 0) "foo" { name := "Foo" },
        .accessor (.ofNat 2) "bar" { name := "Bar" }] }
  options := {}

/-- A bound key whose type is not known has no plan.  And the accessor `foo` has one after that
for the `Bar`, although it calls itself. -/
theorem firstOrder_entries_refuted :
    let catalog := (unknownType.collect (.ofNat 0) {}).1
    let catalog' := (inheritedTwice.collect (.ofNat 2) {}).1
    (unknownType.FirstOrder catalog ∧ catalog.own.accessors = [] ++ .ofNat 0 :: [] ∧
      (∀ key, unknownType.Requested catalog key → ¬unknownType.Unbound catalog key) ∧
      (∀ c, unknownType.Built catalog c →
        c.element ≠ .member (.ofNat 0) ∧ ¬unknownType.LeadsBack catalog c) ∧
      (unknownType.turn "InjectC" catalog {} [] (.ofNat 0)).1.entries = []) ∧
    (inheritedTwice.FirstOrder catalog' ∧
      catalog'.own.accessors = [.ofNat 1] ++ .ofNat 0 :: [] ∧
      (∃ c, inheritedTwice.Needs catalog' (.ofNat 0) c ∧ c.element = .member (.ofNat 0)) ∧
      (inheritedTwice.turn "InjectC" catalog' {} [.ofNat 1] (.ofNat 0)).1.entries ≠ []) := by
  constructor
  · have covers : unknownType.Covers (unknownType.collect (.ofNat 0) {}).1
        [.of { kind := .unresolved, name := "Gone" }] := by
      decide +kernel
    have bound : ∀ key ∈ [(.of { kind := .unresolved, name := "Gone" } : Key)],
        ¬unknownType.Unbound (unknownType.collect (.ofNat 0) {}).1 key := by
      decide +kernel
    have calls : ∀ c ∈ [(.of { kind := .unresolved, name := "Gone" } : Key)].flatMap
        (unknownType.calls (unknownType.collect (.ofNat 0) {}).1),
          c.element ≠ .member (.ofNat 0) ∧ unknownType.asks c = [] := by
      decide +kernel
    have first := covers.firstOrder (by decide) (by decide +kernel) (by decide +kernel)
      (by decide +kernel)
    refine ⟨first, by decide +kernel, fun key requested => bound key (covers.requested requested),
      fun c built => ?_, by decide +kernel⟩
    obtain ⟨other, idle⟩ := calls c (covers.built built)
    refine ⟨other, ?_⟩
    rintro ⟨asked, asks, -⟩
    rw [idle] at asks
    cases asks
  · have covers : inheritedTwice.Covers (inheritedTwice.collect (.ofNat 2) {}).1
        [.of { name := "Foo" }, .of { name := "Bar" }] := by
      decide +kernel
    have call : inheritedTwice.memberCall (.of { name := "Foo" }) (.ofNat 0) .empty false ∈
        inheritedTwice.calls (inheritedTwice.collect (.ofNat 2) {}).1
          (inheritedTwice.accessorKey (inheritedTwice.collect (.ofNat 2) {}).1 (.ofNat 0)) := by
      decide +kernel
    exact ⟨covers.firstOrder (by decide) (by decide +kernel) (by decide +kernel)
      (by decide +kernel), by decide +kernel, ⟨_, ⟨_, .refl, call⟩, rfl⟩, by decide +kernel⟩

end Injector
