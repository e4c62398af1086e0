/-
# Injector.Plan.Outline -- a forest drawn as text

Each entry is followed by its plan as a tree: a line for every slot, one level
deeper than the plan that needs it.  A plan that was drawn before is not drawn
again; its line is marked.

A path of lines without mark visits different plans, so the tree is no deeper
than there are plans, and one more for the marked line.
-/
import Injector.Plan.Forest

namespace Injector

set_option autoImplicit false

/-- The line of one slot. -/
structure OutlineLine where
  /-- For each line above on the way to the entry, outermost first: it is the last
  of its neighbours. -/
  above : List Bool
  /-- The line is the last of its neighbours. -/
  last : Bool
  kind : String
  slot : Slot
  /-- The plan was drawn before. -/
  repeated : Bool
  deriving DecidableEq, Inhabited

namespace OutlineLine

/-- How deep the line is in the tree. -/
def depth (l : OutlineLine) : Nat := l.above.length

def text (l : OutlineLine) : String :=
  String.join (l.above.map fun last => if last then "  " else "│ ") ++
    (if l.last then "└" else "├") ++ " " ++ l.kind ++ "@" ++ toString l.slot.id ++ ": " ++
    l.slot.key.text ++ if l.repeated then " *" else ""

end OutlineLine

namespace Arena

/-- Draw neighbouring slots, one after the other. -/
def drawAll (draw : Bool → Slot → List PlanId → List OutlineLine × List PlanId) :
    List Slot → List PlanId → List OutlineLine × List PlanId
  | [], seen => ([], seen)
  | slot :: rest, seen =>
    let (first, seen) := draw rest.isEmpty slot seen
    let (more, seen) := drawAll draw rest seen
    (first ++ more, seen)

/-- Draw a slot and, the first time, what its plan needs. -/
def draw (a : Arena) : Nat → List Bool → Bool → Slot → List PlanId →
    List OutlineLine × List PlanId
  | 0, _, _, _, seen => ([], seen)
  | depth + 1, above, last, slot, seen =>
    let kind := ((a.plan? slot.id).map Plan.stepName).getD ""
    if seen.contains slot.id then ([⟨above, last, kind, slot, true⟩], seen)
    else
      let (below, seen) :=
        drawAll (a.draw depth (above ++ [last])) (a.children slot.id) (slot.id :: seen)
      (⟨above, last, kind, slot, false⟩ :: below, seen)

end Arena

namespace Forest

/-- The entries with their trees, given the plans drawn before. -/
def outlineFrom (a : Arena) : List Entry → List PlanId → List (Entry × List OutlineLine)
  | [], _ => []
  | e :: rest, seen =>
    let (lines, seen) := a.draw (a.size + 1) [] true e.result seen
    (e, lines) :: outlineFrom a rest seen

/-- The entries with their trees. -/
def outline (f : Forest) : List (Entry × List OutlineLine) := outlineFrom f.arena f.entries []

/-- The drawing under the heading `title`; every line ends in a line break. -/
def outlineText (f : Forest) (title : String) : String :=
  title ++ "\n" ++ String.join (f.outline.map fun (e, lines) =>
    "* " ++ e.name ++ ": " ++ e.returnType.text ++ "\n" ++
      String.join (lines.map fun l => l.text ++ "\n"))

end Forest

end Injector
