/-
# Injector.Proofs.Plan.Trees -- what a plan unfolds to

Plans share what they need.  The tree of a plan forgets the sharing: a node is a
step without the numbers of the plans it needs (`Plan.shape`), and below it are
the trees of these plans.  Two plans with one tree build the same value.

In an arena whose children come first every plan has a tree, and the arena gives
it by recursion on the number (`Arena.tree`).  Where a plan may stand for another
one -- a call of a member for what the member builds -- a tree need not exist, so
there it is a relation (`Arena.Unfolds`) with at most one tree for each plan.
-/
import Injector.Proofs.Plan.Paths

namespace Injector

set_option autoImplicit false

namespace Plan

/-- The plan with `f` applied to each slot. -/
def mapSlots (f : Slot → Slot) : Plan → Plan
  | construct ty params named => construct ty (params.mapValues f) named
  | provide className memberName path receiver isProperty params =>
    provide className memberName path (receiver.map f) isProperty (params.mapValues f)
  | namedFunction package name lambdaParams receiver params =>
    namedFunction package name lambdaParams (receiver.map f) (params.mapValues f)
  | keep token path result => keep token path (f result)
  | container kind contributors => container kind (contributors.map f)
  | function params result => function params (f result)
  | lazy result => lazy (f result)
  | lateInit name result => lateInit name (f result)
  | object ty => object ty
  | arg name => arg name
  | localVar name => localVar name

/-- The step alone: which plans it needs is left out, the keys it asks for stay. -/
def shape (p : Plan) : Plan := p.mapSlots fun s => { s with id := 0 }

theorem children_mapSlots (f : Slot → Slot) (p : Plan) :
    (p.mapSlots f).children = p.children.map f := by
  have row (params : Table String Slot) : (params.mapValues f).values = params.values.map f := by
    simp [Table.values, Table.mapValues]
  have call (receiver : Option Slot) : (receiver.map f).toList = receiver.toList.map f := by
    cases receiver <;> rfl
  cases p <;> simp [mapSlots, children, row, call]

theorem children_shape (p : Plan) :
    p.shape.children = p.children.map fun s => { s with id := 0 } :=
  children_mapSlots _ p

@[simp] theorem reference?_shape (p : Plan) : p.shape.reference? = p.reference? := by
  cases p <;> rfl

@[simp] theorem binders_shape (p : Plan) : p.shape.binders = p.binders := by
  cases p <;> rfl

/-- Steps of one shape refer to the same name and bind the same names. -/
theorem names_of_shape {p q : Plan} (same : p.shape = q.shape) :
    p.reference? = q.reference? ∧ p.binders = q.binders := by
  rw [← reference?_shape p, ← binders_shape p, same, reference?_shape, binders_shape]
  exact ⟨rfl, rfl⟩

/-- Steps of one shape need equally many values. -/
theorem length_children_of_shape {p q : Plan} (same : p.shape = q.shape) :
    p.children.length = q.children.length := by
  have both := congrArg (fun r : Plan => r.children.length) same
  simpa only [children_shape, List.length_map] using both

/-- A slot that is redirected keeps its key, so the step keeps its shape. -/
theorem shape_modifyChild {f : Slot → Slot} (keeps : ∀ s, (f s).key = s.key) (n : Nat) (p : Plan) :
    (p.modifyChild f n).shape = p.shape := by
  have slot (s : Slot) : ({ f s with id := 0 } : Slot) = { s with id := 0 } := by
    simp only [keeps s]
  have row (params : Table String Slot) (n : Nat) :
      (modifyRow f params n).mapValues (fun s => { s with id := 0 }) =
        params.mapValues fun s => { s with id := 0 } := by
    obtain ⟨rows⟩ := params
    simp only [modifyRow, Table.mapValues, Table.mk.injEq]
    induction rows generalizing n with
    | nil => simp
    | cons first rest ih => cases n <;> simp_all
  have list (slots : List Slot) (n : Nat) :
      (slots.modify n f).map (fun s => { s with id := 0 }) =
        slots.map fun s => { s with id := 0 } := by
    induction slots generalizing n with
    | nil => simp
    | cons first rest ih => cases n <;> simp_all
  have call (receiver : Option Slot) (params : Table String Slot) (n : Nat) :
      (modifyCall f receiver params n).1.map (fun s => { s with id := 0 }) =
          receiver.map (fun s => { s with id := 0 }) ∧
        (modifyCall f receiver params n).2.mapValues (fun s => { s with id := 0 }) =
          params.mapValues fun s => { s with id := 0 } := by
    cases receiver <;> cases n <;> simp [modifyCall, row, slot]
  cases p with
  | construct => simp [shape, modifyChild, mapSlots, row]
  | provide | namedFunction => simp [shape, modifyChild, mapSlots, call]
  | container => simp [shape, modifyChild, mapSlots, list]
  | object | arg | localVar => rfl
  | keep | function | lazy | lateInit => cases n <;> simp [shape, modifyChild, mapSlots, slot]

end Plan

/-- A step and the trees of the values it needs. -/
inductive PlanTree where
  | node (step : Plan) (needs : List PlanTree)
  deriving Inhabited

namespace Arena

/-- The tree of the plan `id`, where what a plan needs comes before it. -/
def tree (a : Arena) (id : PlanId) : PlanTree :=
  .node ((a.plan? id).getD default).shape
    ((a.children id).map fun c => if _ : c.id < id then a.tree c.id else default)
termination_by id

/-- The plan `id` unfolds to the tree, where `instead` has the plans that stand for
others: such a plan unfolds to what the other one does. -/
inductive Unfolds (a : Arena) (instead : PlanId → Option PlanId) : PlanId → PlanTree → Prop where
  | plan {id : PlanId} {p : Plan} (trees : PlanId → PlanTree) :
      instead id = none → a.plan? id = some p →
      (∀ c ∈ p.children, Unfolds a instead c.id (trees c.id)) →
      Unfolds a instead id (.node p.shape (p.children.map fun c => trees c.id))
  | other {id target : PlanId} {t : PlanTree} :
      instead id = some target → Unfolds a instead target t → Unfolds a instead id t

section Trees

variable {a b : Arena} {id : PlanId} {p : Plan}

theorem children_of_plan? (found : a.plan? id = some p) : a.children id = p.children := by
  rw [children, found]
  rfl

theorem tree_eq (found : a.plan? id = some p) (before : ∀ c ∈ p.children, c.id < id) :
    a.tree id = .node p.shape (p.children.map fun c => a.tree c.id) := by
  rw [tree, children_of_plan? found, found]
  congr 1
  refine List.map_congr_left fun c child => ?_
  rw [dif_pos (before c child)]

/-- A plan unfolds to one tree only. -/
theorem Unfolds.unique {instead : PlanId → Option PlanId} {t t' : PlanTree}
    (first : a.Unfolds instead id t) (second : a.Unfolds instead id t') : t' = t := by
  induction first generalizing t' with
  | @plan id p trees self found _ ih =>
      cases second with
      | @plan _ p' trees' _ found' below =>
          obtain rfl : p = p' := Option.some.inj (found.symm.trans found')
          congr 1
          exact List.map_congr_left fun c child => ih c child (below c child)
      | other stands _ =>
          rw [self] at stands
          cases stands
  | @other id target t stands _ ih =>
      cases second with
      | plan _ self _ _ =>
          rw [self] at stands
          cases stands
      | other stands' below =>
          obtain rfl := Option.some.inj (stands.symm.trans stands')
          exact ih below

/-- More plans leave the trees of those there as they are. -/
theorem Within.tree_eq (within : a.Within b)
    (before : ∀ {id : PlanId} {p : Plan}, a.plan? id = some p → ∀ c ∈ p.children, c.id < id)
    (lt : id < a.size) : b.tree id = a.tree id := by
  induction id using Nat.strongRecOn with
  | _ id ih =>
      obtain ⟨p, found⟩ := exists_plan? lt
      rw [Arena.tree_eq found (before found),
        Arena.tree_eq (within.plan?_of_some found) (before found)]
      congr 1
      refine List.map_congr_left fun c child => ?_
      have below := before found c child
      exact ih c.id below (Nat.lt_trans below lt)

end Trees

end Arena

end Injector
