/-
# Injector.Proofs.Planner.Readings -- answers of planning, read as trees

Planning answers with numbers of plans.  A reading says which plans an answer refers to,
and what it is once they are read as nameless trees.  `Told` says that an answer given
below some lambda parameters is a copy of a blueprint.  It says so for every inner part
of the parameters such that none of the other ones is free in the answer: a closed plan
is a copy of what is built where there are no parameters at all, and this is where plans
that are kept are used.
-/
import Injector.Proofs.Planner.Blueprint
import Injector.Planner.State

namespace Injector

set_option autoImplicit false

/-- What an answer is, read as trees without the names of lambda parameters. -/
structure Reading (α β : Type) where
  /-- The plans that the answer refers to. -/
  ids : α → List PlanId
  read : Arena → List String → α → β
  /-- More plans do not matter. -/
  stable : ∀ {a b : Arena} {scope : List String} {x : α}, a.Sound → a.Within b →
    (∀ id ∈ ids x, id < a.size) → read b scope x = read a scope x

namespace Reading

variable {α β : Type}

/-- A plan is read as its tree. -/
def plan : Reading PlanId PlanTree where
  ids id := [id]
  read a scope id := a.nameless scope id
  stable sound within known := within.nameless_eq sound (known _ (List.mem_singleton_self _))

/-- A slot is read as the tree in it. -/
def value : Reading Slot PlanTree where
  ids s := [s.id]
  read a scope s := a.nameless scope s.id
  stable sound within known := within.nameless_eq sound (known _ (List.mem_singleton_self _))

/-- A slot is read as its key and the tree. -/
def slot : Reading Slot Need where
  ids s := [s.id]
  read a scope s := ⟨s.key, a.nameless scope s.id⟩
  stable sound within known := by
    rw [within.nameless_eq sound (known _ (List.mem_singleton_self _))]

def option (r : Reading α β) : Reading (Option α) (Option β) where
  ids x := (x.map r.ids).getD []
  read a scope x := x.map (r.read a scope)
  stable {_ _ _ x} sound within known := by
    cases x with
    | none => rfl
    | some x => rw [Option.map_some, Option.map_some, r.stable sound within known]

def list (r : Reading α β) : Reading (List α) (List β) where
  ids xs := xs.flatMap r.ids
  read a scope xs := xs.map (r.read a scope)
  stable sound within known := List.map_congr_left fun x mem =>
    r.stable sound within fun id inside => known id (List.mem_flatMap.mpr ⟨x, mem, inside⟩)

/-- An answer under a name. -/
def row (r : Reading α β) : Reading (String × α) (String × β) where
  ids x := r.ids x.2
  read a scope x := (x.1, r.read a scope x.2)
  stable sound within known := by rw [r.stable sound within known]

/-- The slots of a table are those of its rows. -/
theorem ids_rows (t : Table String Slot) : slot.row.list.ids t.rows = t.values.map (·.id) := by
  obtain ⟨rows⟩ := t
  simp only [list, row, slot, Table.values]
  induction rows with
  | nil => rfl
  | cons first rest ih => simp_all

theorem ids_slots (slots : List Slot) : slot.list.ids slots = slots.map (·.id) := by
  induction slots with
  | nil => rfl
  | cons s rest ih => exact congrArg (s.id :: ·) ih

theorem ids_slot? (s : Option Slot) : slot.option.ids s = s.toList.map (·.id) := by
  cases s <;> rfl

end Reading

namespace LambdaParam

/-- The names of parameters. -/
def names (params : List LambdaParam) : List String := params.map (·.name)

/-- The types of parameters. -/
def types (params : List LambdaParam) : List Ty := params.map (·.ty)

theorem names_inside (lambda inner : List LambdaParam) :
    names (lambda.reverse ++ inner) = (names lambda).reverse ++ names inner := by
  rw [names, List.map_append, List.map_reverse, names, names]

theorem types_inside (lambda inner : List LambdaParam) :
    types (lambda.reverse ++ inner) = (types lambda).reverse ++ types inner := by
  rw [types, List.map_append, List.map_reverse, types, types]

end LambdaParam

open LambdaParam (names types names_inside types_inside)

namespace Site

/-- The lambda parameters around, innermost first. -/
def around (site : Site) : List LambdaParam := site.lambdaParams.reverse

theorem around_inside (site : Site) (lambda : List LambdaParam) :
    (site.inside lambda).around = lambda.reverse ++ site.around := List.reverse_append

end Site

/-! ## Answers below lambda parameters -/

section Answers

variable {around inner lambda : List LambdaParam} {a b : Arena} {ids more : List PlanId}
  {id : PlanId} {p : Plan}

/-- The parameters `inner` are the innermost ones of those around, and no other one is free
in the plans. -/
def Clear (around : List LambdaParam) (a : Arena) (ids : List PlanId) (inner : List LambdaParam) :
    Prop :=
  ∃ outer, around = inner ++ outer ∧ ∀ id ∈ ids, ∀ name ∈ names outer, name ∉ a.freeNames id

/-- The plan is there, and the parameters free in it are in scope. -/
structure Serves (around : List LambdaParam) (a : Arena) (id : PlanId) : Prop where
  known : id < a.size
  inScope : a.InScope IsParamName (names around) id

theorem Clear.subset (clear : Clear around a ids inner) (among : ∀ id ∈ more, id ∈ ids) :
    Clear around a more inner := by
  obtain ⟨outer, split, free⟩ := clear
  exact ⟨outer, split, fun id mem => free id (among id mem)⟩

theorem Clear.of_within (clear : Clear around b ids inner) (within : a.Within b)
    (known : ∀ id ∈ ids, id < a.size) : Clear around a ids inner := by
  obtain ⟨outer, split, free⟩ := clear
  refine ⟨outer, split, fun id mem => ?_⟩
  rw [← within.freeNames_eq (known id mem)]
  exact free id mem

theorem clear_around : Clear around a ids around := ⟨[], by simp, by simp [names]⟩

theorem clear_of_isClosed (closed : a.isClosed id = true) : Clear around a [id] [] := by
  refine ⟨around, rfl, fun other mem name _ free => ?_⟩
  obtain rfl := List.mem_singleton.mp mem
  rw [Arena.isClosed, List.isEmpty_iff] at closed
  rw [closed] at free
  cases free

theorem Serves.mono (serves : Serves around a id) (within : a.Within b) : Serves around b id where
  known := Nat.lt_of_lt_of_le serves.known within.size_le
  inScope := by
    rw [Arena.InScope, within.freeNames_eq serves.known]
    exact serves.inScope

theorem serves_of_isClosed (known : id < a.size) (closed : a.isClosed id = true) :
    Serves around a id := by
  refine ⟨known, fun name free => ?_⟩
  rw [Arena.isClosed, List.isEmpty_iff] at closed
  rw [closed] at free
  cases free

/-- A plan that is added is served where its reference and what it needs are. -/
theorem serves_alloc (sound : a.Sound) (known : ∀ c ∈ p.children, c.id < a.size)
    (refers : ∀ name, p.reference? = some name → IsParamName name → name ∈ names around)
    (needs : ∀ c ∈ p.children, ∀ name ∈ a.freeNames c.id, IsParamName name →
      name ∉ p.binders → name ∈ names around) : Serves around (a.alloc p).2 a.size := by
  have found : (a.alloc p).2.plan? a.size = some p := Arena.plan?_alloc_self a p
  refine ⟨Arena.lt_size_of_plan? found, fun name free kind => ?_⟩
  rw [(sound.alloc known).free found, Arena.mem_freeIn] at free
  obtain ⟨reference | ⟨c, child, free⟩, unbound⟩ := free
  · exact refers name reference kind
  · rw [(Arena.Within.alloc a p).freeNames_eq (known c child)] at free
    exact needs c child name free kind unbound

/-- What is clear around a plan is clear inside, with the parameters that it introduces. -/
theorem Clear.inside (sound : a.Sound) (found : a.plan? id = some p)
    (binds : p.binders = names lambda) (new : ∀ name ∈ names lambda, name ∉ names around)
    (clear : Clear around a [id] inner) :
    Clear (lambda.reverse ++ around) a (p.children.map (·.id)) (lambda.reverse ++ inner) := by
  obtain ⟨outer, split, free⟩ := clear
  refine ⟨outer, by rw [split, List.append_assoc], ?_⟩
  intro child mem name far inside
  obtain ⟨c, child, rfl⟩ := List.mem_map.mp mem
  refine free id (List.mem_singleton_self _) name far ?_
  rw [sound.free found, Arena.mem_freeIn]
  refine ⟨.inr ⟨c, child, inside⟩, fun bound => ?_⟩
  rw [binds] at bound
  refine new name bound ?_
  rw [split, names, List.map_append]
  exact List.mem_append_right _ far

end Answers

variable {α β : Type}

/-- The answer is served below the lambda parameters around and, if `quiet`, is a copy of the
blueprint. -/
structure Told (quiet : Prop) (around : List LambdaParam) (r : Reading α β)
    (bp : List Ty → Option β) (a : Arena) (x : α) : Prop where
  serves : ∀ id ∈ r.ids x, Serves around a id
  copies : quiet → ∀ inner, Clear around a (r.ids x) inner →
    bp (types inner) = some (r.read a (names inner) x)

theorem Told.mono {quiet : Prop} {around : List LambdaParam} {r : Reading α β}
    {bp : List Ty → Option β} {a b : Arena} {x : α} (told : Told quiet around r bp a x)
    (sound : a.Sound) (within : a.Within b) : Told quiet around r bp b x := by
  have known : ∀ id ∈ r.ids x, id < a.size := fun id mem => (told.serves id mem).known
  refine ⟨fun id mem => (told.serves id mem).mono within, fun q inner clear => ?_⟩
  rw [r.stable sound within known]
  exact told.copies q inner (clear.of_within within known)

/-! ## Steps -/

/-- The step needs what is in the slots, inside the parameters of `lambda`; `blank` is the
step without names and without the numbers of what it needs. -/
structure Plan.Composes (p : Plan) (lambda : List LambdaParam) (needs : List Slot)
    (blank : Plan) : Prop where
  composite : p.reference? = none
  plain : p.declared? = none
  binds : p.lambdaParams = names lambda
  children : p.children = needs
  shape : p.shape.nameless [] = blank

/-- The step is a call with the receiver and the arguments. -/
def Plan.Calls (p : Plan) (lambda : List LambdaParam) (receiver : Option Slot)
    (args : Table String Slot) (blank : Option Slot → Table String Slot → Plan) : Prop :=
  p.Composes lambda (receiver.toList ++ args.values)
    (blank (receiver.map fun s => { s with id := 0 }) (args.mapValues fun s => { s with id := 0 }))

/-- The step needs what is in the slot only. -/
def Plan.Surrounds (p : Plan) (lambda : List LambdaParam) (slot : Slot) (blank : Slot → Plan) :
    Prop :=
  p.Composes lambda [slot] (blank { slot with id := 0 })

section Steps

variable {quiet : Prop} {around lambda inner : List LambdaParam} {bp : List Ty → Option PlanTree}
  {a : Arena} {p blank : Plan} {needs : List Slot}

namespace Plan.Composes

theorem binders_eq (composes : p.Composes lambda needs blank) : p.binders = names lambda := by
  obtain ⟨-, plain, binds, -, -⟩ := composes
  rw [← binds]
  cases p <;> first | rfl | cases plain

/-- The tree of a step that is added is one step around the trees of what it needs. -/
theorem nameless_alloc (composes : p.Composes lambda needs blank) (sound : a.Sound)
    (known : ∀ c ∈ needs, c.id < a.size) (inner : List LambdaParam) :
    (a.alloc p).2.nameless (names inner) a.size =
      .node blank (needs.map fun c => a.nameless (names (lambda.reverse ++ inner)) c.id) := by
  obtain ⟨composite, -, binds, rfl, rfl⟩ := composes
  have fixed (scope : List String) : p.shape.nameless scope = p.shape.nameless [] := by
    cases p <;> first | rfl | cases composite
  rw [Arena.nameless_alloc sound known, fixed, binds, names_inside]

/-- A step that is added is a copy if what it needs is. -/
theorem told_alloc (composes : p.Composes lambda needs blank) (sound : a.Sound)
    (new : ∀ name ∈ names lambda, name ∉ names around)
    (serves : ∀ c ∈ needs, Serves (lambda.reverse ++ around) a c.id)
    (copies : quiet → ∀ inner,
      Clear (lambda.reverse ++ around) a (needs.map (·.id)) (lambda.reverse ++ inner) →
        bp (types inner) = some (.node blank
          (needs.map fun c => a.nameless (names (lambda.reverse ++ inner)) c.id))) :
    Told quiet around .plan bp (a.alloc p).2 a.size := by
  have found : (a.alloc p).2.plan? a.size = some p := Arena.plan?_alloc_self a p
  have known : ∀ c ∈ needs, c.id < a.size := fun c child => (serves c child).known
  have children : p.children = needs := composes.children
  have sound' : (a.alloc p).2.Sound := sound.alloc (children ▸ known)
  refine ⟨fun id mem => ?_, fun q inner clear => ?_⟩
  · obtain rfl := List.mem_singleton.mp mem
    refine serves_alloc sound (children ▸ known) (fun name refers => ?_)
      fun c child name free kind unbound => ?_
    · rw [composes.composite] at refers
      cases refers
    · have mem := (serves c (children ▸ child)).inScope name free kind
      rw [names_inside] at mem
      rw [composes.binders_eq] at unbound
      exact (List.mem_append.mp mem).resolve_left fun introduced =>
        unbound (List.mem_reverse.mp introduced)
  · have below := clear.inside sound' found composes.binders_eq new
    rw [children] at below
    have below := below.of_within (.alloc a p) fun id mem => by
      obtain ⟨c, child, rfl⟩ := List.mem_map.mp mem
      exact known c child
    rw [copies q inner below]
    exact congrArg some (composes.nameless_alloc sound known inner).symm

end Plan.Composes

/-- What a call needs is served if the receiver and the arguments are. -/
theorem serves_call {receiver : Option Slot} {args : Table String Slot}
    (received : ∀ id ∈ Reading.slot.option.ids receiver, Serves around a id)
    (passed : ∀ id ∈ Reading.slot.row.list.ids args.rows, Serves around a id) :
    ∀ c ∈ receiver.toList ++ args.values, Serves around a c.id := by
  intro c child
  rcases List.mem_append.mp child with mem | mem
  · refine received c.id ?_
    rw [Reading.ids_slot?]
    exact List.mem_map_of_mem mem
  · refine passed c.id ?_
    rw [Reading.ids_rows]
    exact List.mem_map_of_mem mem

/-- A call without the numbers of what it needs is a call of what these are read as. -/
theorem PlanTree.call_read (a : Arena) (scope : List String) (receiver : Option Slot)
    (args : Table String Slot) (step : Option Slot → Table String Slot → Plan) :
    PlanTree.call (Reading.slot.option.read a scope receiver)
        (Reading.slot.row.list.read a scope args.rows) step =
      .node (step (receiver.map fun s => { s with id := 0 })
          (args.mapValues fun s => { s with id := 0 }))
        ((receiver.toList ++ args.values).map fun c => a.nameless scope c.id) := by
  cases receiver <;>
    simp [PlanTree.call, Reading.option, Reading.list, Reading.row, Reading.slot, Need.slot,
      Table.mapValues, Table.values, Function.comp_def]

end Steps

end Injector
