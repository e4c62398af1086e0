/-
# Injector.Plan.Hoist -- building a shared plan once

A closed plan that several places point at is built in one entry only, and the
other places call that entry.  This pays when the plan needs other values, and it
is needed when two entries have the plan as their result.

* If exactly one entry has the plan as its result, that entry keeps it.
* Otherwise a private property is made for it, named after the type; the private
  entries come before all others.
* Places inside other plans share one call of the entry; every other entry gets a
  call of its own.

Which plans are shared is read off the forest before anything is changed.
-/
import Injector.Plan.Forest
import Injector.NameSupply

namespace Injector

set_option autoImplicit false

/-- A forest while its shared plans are being moved. -/
structure Hoisting where
  forest : Forest
  names : NameSupply
  /-- Private entries, in the order in which they were made. -/
  made : List Entry := []
  deriving Inhabited

namespace Place

/-- The entry whose result is at the place. -/
def entry? : Place → Option Nat
  | entry n => some n
  | child .. => none

end Place

namespace Hoisting

/-- What the names of private entries begin with. -/
def privateStem : String := "_"

/-- The call of a member of the component itself. -/
def call (className memberName : String) (isProperty : Bool) : Plan :=
  .provide className memberName .here none isProperty {}

/-- The private property that builds the plan at `slot`. -/
def privateEntry (name : String) (slot : Slot) : Entry :=
  { name, returnType := slot.key.ty.unqualified, isProperty := true, isPrivate := true,
    isOverride := false, isSuspend := false, result := slot }

/-- Let the places call a member: `inner` is the call that places inside other
plans share, once there is one. -/
def redirectAll (delegate : Plan) (owner : Option Nat) :
    List Place → Option PlanId → Forest → Forest
  | [], _, f => f
  | .entry n :: rest, inner, f =>
    if owner = some n then redirectAll delegate owner rest inner f
    else
      let (id, arena) := f.arena.alloc delegate
      redirectAll delegate owner rest inner ({ f with arena }.redirect (.entry n) id)
  | .child parent n :: rest, some id, f =>
    redirectAll delegate owner rest (some id) (f.redirect (.child parent n) id)
  | .child parent n :: rest, none, f =>
    let (id, arena) := f.arena.alloc delegate
    redirectAll delegate owner rest (some id) ({ f with arena }.redirect (.child parent n) id)

/-- Whether the plan `id` with the given places is to be built in one entry. -/
def isShared (a : Arena) (id : PlanId) (places : List Place) : Bool :=
  let owners := places.filterMap Place.entry?
  places.length ≥ 2 && (!(a.children id).isEmpty || owners.length ≥ 2) && a.isClosed id

/-- The entry that keeps a plan: the only one whose result it is. -/
def ownerOf (places : List Place) : Option Nat :=
  match places.filterMap Place.entry? with
  | [n] => some n
  | _ => none

/-- Move the plan `id` if it is shared. -/
def step (className : String) (uses : List (Place × PlanId)) (h : Hoisting) (id : PlanId) :
    Hoisting :=
  let places := uses.filterMap fun (place, target) => if target = id then some place else none
  if isShared h.forest.arena id places then
    match ownerOf places with
    | some n =>
      let e := h.forest.entries.getD n default
      { h with
        forest := redirectAll (call className e.name e.isProperty) (some n) places none h.forest }
    | none =>
      let slot := (places.head?.bind h.forest.slotAt?).getD default
      let (name, names) := h.names.fresh (privateStem ++ slot.key.ty.suggestedName)
      { forest := redirectAll (call className name true) none places none h.forest,
        names, made := h.made ++ [privateEntry name { slot with id }] }
  else h

end Hoisting

namespace Forest

/-- Build every shared plan of the forest in one entry.  The names taken in
`names` are those of all members of the component. -/
def hoist (f : Forest) (className : String) (names : NameSupply) : Forest × NameSupply :=
  let reach := f.reach
  let h := reach.order.foldl (Hoisting.step className reach.uses) { forest := f, names }
  ({ h.forest with entries := h.made ++ h.forest.entries }, h.names)

end Forest

end Injector
