/-
# Injector.Plan.Forest -- the plans of one component

A forest is an arena with an entry for every member that the component
implements.  A place is where a slot is: the result of an entry, or a value that
a plan needs.  `reach` goes depth first over everything the entries need, in
order, and lists each plan once and each place with what it points at; every
place is put on the stack at most once, so the number of slots bounds the walk.
-/
import Injector.Plan.Arena

namespace Injector

set_option autoImplicit false

/-- A member of the generated component. -/
structure Entry where
  name : String
  returnType : Ty
  isProperty : Bool
  /-- The member is not declared anywhere but made for sharing. -/
  isPrivate : Bool
  isOverride : Bool
  isSuspend : Bool
  result : Slot
  deriving DecidableEq, Inhabited

/-- Where a slot is. -/
inductive Place where
  | entry (index : Nat)
  | child (parent : PlanId) (index : Nat)
  deriving DecidableEq, Inhabited, Repr

structure Forest where
  arena : Arena := {}
  entries : List Entry := []
  deriving DecidableEq, Inhabited

/-- Plans in the order of the walk, and places with what they point at. -/
structure Reach where
  order : List PlanId := []
  uses : List (Place × PlanId) := []
  deriving DecidableEq, Inhabited

namespace Arena

/-- The places of the values that the plan `id` needs. -/
def childUses (a : Arena) (id : PlanId) : List (Place × PlanId) :=
  (a.children id).zipIdx.map fun (slot, n) => (.child id n, slot.id)

/-- Depth first over the plans on the stack. -/
def reachFrom (a : Arena) : Nat → List PlanId → Reach → Reach
  | 0, _, r => r
  | _ + 1, [], r => r
  | fuel + 1, id :: stack, r =>
    if r.order.contains id then a.reachFrom fuel stack r
    else
      a.reachFrom fuel ((a.children id).map (·.id) ++ stack)
        { order := r.order ++ [id], uses := r.uses ++ a.childUses id }

end Arena

namespace Forest

/-- The first entry called `name`. -/
def entry? (f : Forest) (name : String) : Option Entry := f.entries.find? (·.name = name)

/-- The plan of the entry called `name`. -/
def planOf? (f : Forest) (name : String) : Option Plan :=
  (f.entry? name).bind fun e => f.arena.plan? e.result.id

/-- The slot at a place. -/
def slotAt? (f : Forest) : Place → Option Slot
  | .entry n => (f.entries[n]?).map (·.result)
  | .child parent n => (f.arena.children parent)[n]?

/-- Let the slot at a place point at `target`. -/
def redirect (f : Forest) (place : Place) (target : PlanId) : Forest :=
  match place with
  | .entry n =>
    { f with entries := f.entries.modify n fun e => { e with result.id := target } }
  | .child parent n =>
    let turn (s : Slot) : Slot := { s with id := target }
    { f with arena := f.arena.modify parent (Plan.modifyChild turn n) }

/-- The next entry: its own place, and what its plan needs. -/
def reachEntry (a : Arena) (r : Reach) (n : Nat) (e : Entry) : Reach :=
  a.reachFrom (a.slotCount + 1) [e.result.id]
    { r with uses := r.uses ++ [(.entry n, e.result.id)] }

/-- Everything the entries need. -/
def reach (f : Forest) : Reach :=
  f.entries.zipIdx.foldl (fun r (e, n) => reachEntry f.arena r n e) {}

end Forest

end Injector
