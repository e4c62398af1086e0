/-
# Injector.Plan.Arena -- plans by number

An arena numbers plans in the order in which they are added.  With each plan it
keeps the names that are free in the whole construction below it, computed once
from the names free in the values it needs: those names, and its own reference,
less what it binds.  A plan is closed when no name is free in it; then it builds
the same value wherever it is put.

The free names are not computed again when a slot is redirected (`modify`).

A number is the position of its plan, without a limit, so each plan has a number of
its own.  Numbers of 32 bits that stay at the last one when they run out would do the
same for as many plans as there are such numbers, and no longer.
-/
import Injector.Plan.Basic

namespace Injector

set_option autoImplicit false

/-- A plan and the names free in it. -/
structure ArenaNode where
  plan : Plan
  free : List String
  deriving DecidableEq, Inhabited

structure Arena where
  nodes : Array ArenaNode := #[]
  deriving DecidableEq, Inhabited

namespace Arena

def empty : Arena := {}

def size (a : Arena) : Nat := a.nodes.size

def isEmpty (a : Arena) : Bool := a.nodes.isEmpty

def plan? (a : Arena) (id : PlanId) : Option Plan := (a.nodes[id]?).map (·.plan)

/-- All plans, by number. -/
def plans (a : Arena) : List Plan := a.nodes.toList.map (·.plan)

/-- The values that the plan `id` needs. -/
def children (a : Arena) (id : PlanId) : List Slot := ((a.plan? id).map Plan.children).getD []

/-- The names free in the plan `id`. -/
def freeNames (a : Arena) (id : PlanId) : List String := ((a.nodes[id]?).map (·.free)).getD []

/-- The names of `more` that are not among `names`, behind `names`. -/
def union (names more : List String) : List String :=
  more.foldl (fun names name => if names.contains name then names else names ++ [name]) names

/-- The names free in a plan whose values are in the arena. -/
def freeIn (a : Arena) (plan : Plan) : List String :=
  (plan.children.foldl (fun names slot => union names (a.freeNames slot.id))
    plan.reference?.toList).filter fun name => !plan.binders.contains name

/-- Add a plan whose values are in the arena already. -/
def alloc (a : Arena) (plan : Plan) : PlanId × Arena :=
  (a.size, ⟨a.nodes.push ⟨plan, a.freeIn plan⟩⟩)

/-- Whether nothing outside the plan `id` is referred to in it. -/
def isClosed (a : Arena) (id : PlanId) : Bool := (a.freeNames id).isEmpty

/-- Change the plan `id`, keeping its free names. -/
def modify (a : Arena) (id : PlanId) (f : Plan → Plan) : Arena :=
  ⟨a.nodes.modify id fun node => { node with plan := f node.plan }⟩

/-- How many slots all plans have together. -/
def slotCount (a : Arena) : Nat :=
  a.plans.foldl (fun n plan => n + plan.children.length) 0

@[simp] theorem size_alloc (a : Arena) (plan : Plan) : (a.alloc plan).2.size = a.size + 1 := by
  simp [alloc, size]

theorem plan?_alloc_self (a : Arena) (plan : Plan) :
    (a.alloc plan).2.plan? (a.alloc plan).1 = some plan := by
  simp [alloc, plan?, size]

theorem plan?_alloc_of_lt {a : Arena} {id : PlanId} (plan : Plan) (h : id < a.size) :
    (a.alloc plan).2.plan? id = a.plan? id := by
  simp only [size] at h
  simp [alloc, plan?, Array.getElem?_push, Nat.ne_of_lt h]

end Arena

end Injector
