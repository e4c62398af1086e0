/-
# Injector.BuildStack -- what is under construction, and cycles in it

The stack holds the elements that are being constructed, innermost first, with a
mark between them wherever a value is only built later (inside a lambda or a
lazy value).  Asking for an element that is on the stack already is a cycle.

* With no mark above the element the construction would never end (`endless`).
* With a mark above it the value is needed only after it is built.  The cycle is
  closed through a variable: the key is noted as pending, under a name, until the
  construction of that key claims it (`claim`).  While a key is pending it keeps
  its name.

A frame is the height of the stack at which something was pushed; `popTo` goes
back to that height whatever was pushed since, so a construction that fails
leaves nothing behind.
-/
import Injector.Key
import Injector.Element

namespace Injector

set_option autoImplicit false

/-- An entry of the stack. -/
inductive BuildEntry where
  | building (element : Element)
  /-- What is above is built later than what is below. -/
  | deferred
  deriving DecidableEq, Inhabited, Repr

/-- A cycle that waits for the construction of its key to close it. -/
structure PendingCycle where
  key : Key
  /-- The variable that stands for the value. -/
  name : String
  /-- The elements under construction when the cycle was met, innermost first. -/
  path : List Element
  deriving DecidableEq, Inhabited

structure BuildStack where
  /-- Innermost first. -/
  entries : List BuildEntry := []
  /-- Oldest first. -/
  pending : List PendingCycle := []
  deriving DecidableEq, Inhabited

/-- What entering an element leads to. -/
inductive Entrance where
  /-- The element is on the stack now, above the given height. -/
  | entered (height : Nat)
  | endless
  /-- The value is in the variable `name`. -/
  | closes (name : String)
  deriving DecidableEq, Inhabited, Repr

namespace BuildStack

def empty : BuildStack := {}

def height (s : BuildStack) : Nat := s.entries.length

/-- The elements under construction, innermost first. -/
def elements (s : BuildStack) : List Element :=
  s.entries.filterMap fun
    | .building e => some e
    | .deferred => none

/-- The entries above the innermost occurrence of `element`, if there is one. -/
def above? (element : Element) : List BuildEntry → Option (List BuildEntry)
  | [] => none
  | entry :: rest =>
    if entry = .building element then some [] else (above? element rest).map (entry :: ·)

/-- The cycle that waits for `key`. -/
def pendingFor (s : BuildStack) (key : Key) : Option PendingCycle :=
  s.pending.find? fun p => decide (p.key = key)

/-- Enter the construction of `element` for `key`. -/
def enter (s : BuildStack) (key : Key) (element : Element) : Entrance × BuildStack :=
  match above? element s.entries with
  | none => (.entered s.height, { s with entries := .building element :: s.entries })
  | some above =>
    if above.contains .deferred then
      match s.pendingFor key with
      | some p => (.closes p.name, s)
      | none =>
        let name := key.ty.suggestedName
        (.closes name, { s with pending := s.pending ++ [⟨key, name, element :: s.elements⟩] })
    else (.endless, s)

/-- Mark that what follows is built later; answers the height before. -/
def defer (s : BuildStack) : Nat × BuildStack :=
  (s.height, { s with entries := .deferred :: s.entries })

/-- Go back to `height`; a stack that is no higher stays as it is. -/
def popTo (s : BuildStack) (height : Nat) : BuildStack :=
  { s with entries := s.entries.drop (s.entries.length - height) }

/-- Claim the variable that waits for `key`. -/
def claim (s : BuildStack) (key : Key) : Option String × BuildStack :=
  match s.pendingFor key with
  | some p => (some p.name, { s with pending := s.pending.eraseP fun p => decide (p.key = key) })
  | none => (none, s)

def hasOpenCycle (s : BuildStack) : Bool := !s.pending.isEmpty

/-- The path of the oldest cycle that was never closed. -/
def unclosed? (s : BuildStack) : Option (List Element) := s.pending.head?.map (·.path)

theorem popTo_enter {s : BuildStack} {key : Key} {element : Element}
    (h : above? element s.entries = none) : (s.enter key element).2.popTo s.height = s := by
  simp [enter, h, popTo, height]

theorem popTo_defer (s : BuildStack) : s.defer.2.popTo s.defer.1 = s := by
  simp [defer, popTo, height]

end BuildStack

end Injector
