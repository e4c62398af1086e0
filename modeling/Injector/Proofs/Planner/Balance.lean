/-
# Injector.Proofs.Planner.Balance -- the stack is left as it was found

An error ends a request wherever it occurs: inside a call, a lambda, a lazy value or a
container.  An entry or a mark left behind would turn a later request that needs itself
at once into one that seems to need itself later.  None is left: each step that pushes
onto the stack goes back to the height before it, on every way out.
-/
import Injector.Proofs.Planner.Tallying

namespace Injector

set_option autoImplicit false

open PlanM

/-- From every state, the entries on the stack are the same afterwards, also when the step
fails. -/
def Balanced {α : Type} (act : PlanM α) : Prop :=
  ∀ st, (act.runFrom st).2.stack.entries = st.stack.entries

namespace Source

variable {src : Source} {catalog : Catalog}

theorem descends_any :
    src.Descends catalog (fun _ => True) (fun _ _ _ => True) (fun _ _ _ => True) := by
  constructor <;> intros <;> trivial

/-- A request of whatever depth leaves the entries, with those that follow from it. -/
theorem agree_any (depth : Nat) :
    Agree catalog (fun _ => True) (fun _ _ _ => True) (src.requestTo depth)
      (src.requestTo depth) := by
  induction depth with
  | zero =>
      intro site key st _ _
      exact .throw trivial
  | succ depth ih => exact agree_requestWith descends_any ih

/-- A request leaves the entries on the stack as it found them, and so does each request that
follows from it, down to every depth. -/
theorem resolve_balanced (src : Source) (site : Site) (key : Key) :
    Balanced (src.resolve site key) ∧ ∀ depth, Balanced (src.requestTo depth site key) := by
  have each (depth : Nat) : Agree site.catalog (fun _ => True) (fun _ _ _ => True)
      (src.requestTo depth) (src.requestTo depth) := agree_any depth
  constructor
  · intro st
    have agree : Agree site.catalog (fun _ => True) (fun _ _ _ => True) src.request src.request :=
      fun site' key' => each (src.requestDepth key') site' key'
    have tallies : Tallies (fun _ => True) st (src.resolve site key) (src.resolve site key) _ :=
      tallies_demand agree rfl (fun _ _ => trivial) trivial
    exact (tallies.meets.1 trivial).2.1
  · intro depth st
    exact ((each depth site key st rfl trivial).meets.1 trivial).2.1

end Source

end Injector
