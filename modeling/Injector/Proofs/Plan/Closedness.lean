/-
# Injector.Proofs.Plan.Closedness -- what is said of a closed plan

An arena keeps the free names of its plans as they are added, from the free names of the values
they need.  A plan that several others need has its names kept once, whatever binds them around
it here and there.  What is kept tells the same as going down every path would: a plan is closed
just when no path leads from it to a reference without meeting a plan that binds the name
(`isClosed_iff_paths`).
-/
import Injector.Proofs.Plan.Scopes

namespace Injector

set_option autoImplicit false

/-- The plan binds the name in the values it needs: it is a lambda with a parameter of that name,
or declares the variable. -/
inductive Plan.Binds (name : String) : Plan → Prop where
  | function {params : List String} {result : Slot} : name ∈ params →
      Binds name (.function params result)
  | namedFunction {package callee : String} {lambdaParams : List String} {receiver : Option Slot}
      {params : Table String Slot} : name ∈ lambdaParams →
      Binds name (.namedFunction package callee lambdaParams receiver params)
  | lateInit {result : Slot} : Binds name (.lateInit name result)

theorem Plan.binds_iff {p : Plan} {name : String} : p.Binds name ↔ name ∈ p.binders := by
  constructor
  · rintro (mem | mem | _)
    · exact mem
    · exact mem
    · exact List.mem_singleton_self name
  · intro mem
    cases p with
    | function => exact .function mem
    | namedFunction => exact .namedFunction mem
    | lateInit =>
        obtain rfl := List.mem_singleton.mp mem
        exact .lateInit
    | construct | provide | keep | container | object | arg | localVar | lazy => cases mem

namespace Arena

/-- A plan of an arena is closed if and only if on every path of values from it to a parameter or
a variable there is a plan that binds the name. -/
theorem isClosed_iff_paths {a : Arena} (built : a.Built) (root : Slot) :
    a.isClosed root.id = true ↔
      ∀ above s p name, Path a root above s → a.plan? s.id = some p →
        p = .arg name ∨ p = .localVar name → ∃ q ∈ p :: above, q.Binds name := by
  rw [isClosed_iff built.sound]
  constructor
  · intro bound above s p name path there refers
    obtain ⟨q, mem, binds⟩ := bound above s p name path there
      (Plan.reference?_eq_some.mpr refers.symm)
    exact ⟨q, List.mem_cons_of_mem _ mem, Plan.binds_iff.mpr binds⟩
  · intro bound above s p name path there refers
    obtain ⟨q, mem, binds⟩ := bound above s p name path there
      (Plan.reference?_eq_some.mp refers).symm
    have binds := Plan.binds_iff.mp binds
    -- The reference itself binds nothing.
    rcases List.mem_cons.mp mem with rfl | mem
    · rw [binders_of_reference? refers] at binds
      cases binds
    · exact ⟨q, mem, binds⟩

end Arena

/-- A `Baz` needs the parameter `x` by way of a lambda that binds it, and directly; the call in a
lambda with the same parameter needs both again. -/
def boundOnOnePath : Arena :=
  let slot (name : String) (id : PlanId) : Slot := { key := .of { name }, id }
  [.arg "x", .function ["x"] (slot "Foo" 0),
    .construct { name := "Baz" } ⟨[("make", slot "Make" 1), ("foo", slot "Foo" 0)]⟩ false,
    .namedFunction "" "call" ["x"] (some (slot "Foo" 0)) ⟨[("baz", slot "Baz" 2)]⟩].foldl
    (fun a p => (a.alloc p).2) .empty

theorem boundOnOnePath_closed :
    let a := boundOnOnePath
    (List.range 4).map a.isClosed = [false, true, false, true] ∧
      ¬(∀ above s p name, a.Path { key := .of { name := "Baz" }, id := 2 } above s →
        a.plan? s.id = some p → p = .arg name ∨ p = .localVar name →
          ∃ q ∈ p :: above, q.Binds name) ∧
      ∀ above s p name, a.Path { key := .of { name := "Call" }, id := 3 } above s →
        a.plan? s.id = some p → p = .arg name ∨ p = .localVar name →
          ∃ q ∈ p :: above, q.Binds name := by
  intro a
  have built : a.Built :=
    .alloc (.alloc (.alloc (.alloc .empty (by decide)) (by decide)) (by decide)) (by decide)
  refine ⟨by decide, fun all => ?_, (Arena.isClosed_iff_paths built _).mp (by decide)⟩
  have closed : a.isClosed 2 = true := (Arena.isClosed_iff_paths built _).mpr all
  exact absurd closed (by decide)

end Injector
