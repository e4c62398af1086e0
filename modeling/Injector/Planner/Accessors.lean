/-
# Injector.Planner.Accessors -- implementing the accessors of a component

Every accessor is planned on its own: the stack and the names of lambda
parameters start afresh, while plans that are kept serve all of them.  The
accessor itself is under construction while its value is planned, so a value
that needs it again is a cycle.  An accessor that leaves a cycle unclosed has
failed, like one that raises an error.
-/
import Injector.Planner.Request
import Injector.Plan.Forest

namespace Injector

set_option autoImplicit false

open PlanM

namespace Source

variable (src : Source)

/-- Forget what is under construction. -/
def startAfresh : PlanM Unit := modify fun st => { st with stack := {}, names := {} }

/-- The entry for the accessor `m`. -/
def implement (site : Site) (m : MemberId) : PlanM Entry := do
  startAfresh
  let decl := src.program.memberAt m
  let returnType := src.program.returnTypeIn m site.catalog.own.cls
  let (qualifier, problems) := src.qualifier decl.annotations returnType
  report (Finding.listAt (.member m) problems)
  let key := Key.of returnType qualifier
  let id ← constructing key (.member m) do return (← src.resolve site key).id
  match (← get).stack.unclosed? with
  | some trace => throw (.unclosed m trace)
  | none =>
    return {
      name := decl.name, returnType := returnType.unqualified,
      isProperty := decl.kind == .property, isPrivate := false, isOverride := true,
      isSuspend := decl.isSuspend, result := ⟨key, id⟩ }

/-- What came of implementing several accessors. -/
structure Implemented where
  entries : List Entry := []
  failures : List (MemberId × PlanError) := []
  deriving Inhabited

/-- The accessors in order. -/
def implementEach (site : Site) : List MemberId → StateM PlannerState Implemented
  | [] => return {}
  | m :: rest => do
    let result ← (src.implement site m).run
    let more ← implementEach site rest
    match result with
    | .ok entry => return { more with entries := entry :: more.entries }
    | .error e => return { more with failures := (m, e) :: more.failures }

/-- All accessors of the component. -/
def implementAll (site : Site) : StateM PlannerState Implemented :=
  src.implementEach site site.catalog.own.accessors

end Source

end Injector
