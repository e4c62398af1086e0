/-
# Injector.Text.CodePoints -- sets of code points by their edges

A set of code points is written as the increasing list of the points where
membership changes, starting outside.  A code point belongs to the set when an
odd number of edges lie at or below it (`inEdges`), so two edges `a, b` stand for
the half-open range from `a` to `b` (`inEdges_pair`).
-/
namespace Injector.Text

set_option autoImplicit false

/-- Membership in the set with the given edges. -/
def inEdges : List Nat → Nat → Bool
  | [], _ => false
  | edge :: rest, n => if n < edge then false else !inEdges rest n

theorem inEdges_pair (a b n : Nat) : inEdges [a, b] n = (decide (a ≤ n) && decide (n < b)) := by
  simp only [inEdges]
  by_cases ha : n < a <;> by_cases hb : n < b <;> simp [ha, hb]
  omega

end Injector.Text
