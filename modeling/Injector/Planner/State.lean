/-
# Injector.Planner.State -- where a request is made, and what planning keeps

A site is the place of a request: the component with its catalog, the lambda
parameters around, and the key whose value is just being built for its scope.

Planning goes on after an error with everything that was done before it, so the
state lies below the error in `PlanM`.  The steps that push onto the stack go
back to the height from which they started, whether they succeed or fail
(`restoring`).
-/
import Injector.Planner.Error
import Injector.BuildStack
import Injector.NameSupply
import Injector.Plan.Arena
import Injector.Catalog.Collect

namespace Injector

set_option autoImplicit false

/-- A parameter of a lambda around a request. -/
structure LambdaParam where
  ty : Ty
  name : String
  deriving DecidableEq, Inhabited

/-- Where a request is made. -/
structure Site where
  /-- The name of the generated component. -/
  className : String
  catalog : Catalog
  /-- The lambda parameters around, outermost first. -/
  lambdaParams : List LambdaParam := []
  /-- The key whose value is being built for its scope. -/
  unwrapping : Option Key := none
  deriving Inhabited

namespace Site

/-- The site at which the value of `key` is built for its scope. -/
def unwrap (site : Site) (key : Key) : Site := { site with unwrapping := some key }

/-- The site inside a lambda. -/
def inside (site : Site) (params : List LambdaParam) : Site :=
  { site with lambdaParams := site.lambdaParams ++ params }

def isUnwrapping (site : Site) (key : Key) : Bool := site.unwrapping == some key

/-- The innermost lambda parameter that can stand for an unqualified key. -/
def findParam (p : Program) (site : Site) (key : Key) : Option LambdaParam :=
  if key.qualifier.isSome then none
  else site.lambdaParams.reverse.find? fun param => p.isAssignable key.ty param.ty

end Site

/-- What planning keeps from one request to the next. -/
structure PlannerState where
  log : Log := {}
  stack : BuildStack := {}
  arena : Arena := {}
  /-- Closed plans by the key they were made for. -/
  cache : Table Key PlanId := {}
  /-- Names for lambda parameters. -/
  names : NameSupply := {}
  deriving DecidableEq, Inhabited

/-- Steps of planning: an error leaves the state as it is then. -/
abbrev PlanM := ExceptT PlanError (StateM PlannerState)

namespace PlanM

variable {α : Type}

/-- Report findings as errors. -/
def report (findings : List Finding) : PlanM Unit :=
  modify fun st => { st with log := st.log.errors findings }

/-- Add a plan to the arena. -/
def alloc (plan : Plan) : PlanM PlanId :=
  modifyGet fun st =>
    let (id, arena) := st.arena.alloc plan
    (id, { st with arena })

/-- A free name. -/
def freshName (suggestion : String) : PlanM String :=
  modifyGet fun st =>
    let (name, names) := st.names.fresh suggestion
    (name, { st with names })

/-- Fail with what is under construction. -/
def failTraced (error : List Element → PlanError) : PlanM α := do
  throw (error (← get).stack.elements)

/-- Go back to a height of the stack after `act`, also when it fails. -/
def restoring (height : Nat) (act : PlanM α) : PlanM α :=
  ExceptT.mk do
    let result ← act.run
    modify fun st => { st with stack := st.stack.popTo height }
    return result

/-- Do `act` for a value that is built later. -/
def deferred (act : PlanM α) : PlanM α := do
  let height ← modifyGet fun st =>
    let (height, stack) := st.stack.defer
    (height, { st with stack })
  restoring height act

/-- Close the cycles that wait for `key` around the plan `id`.  A plan that builds
nothing itself is left alone: whatever is inside it closes the cycle. -/
def closeCycle (key : Key) (id : PlanId) : PlanM PlanId := do
  match (← get).arena.plan? id with
  | some (.localVar _) | some (.lazy _) | some (.function ..) | some (.namedFunction ..) =>
    return id
  | _ =>
    let claimed ← modifyGet fun st =>
      let (name, stack) := st.stack.claim key
      (name, { st with stack })
    match claimed with
    | some name => alloc (.lateInit name ⟨key, id⟩)
    | none => return id

/-- Build `element` for `key` by `act`, or close the cycle that it is part of. -/
def constructing (key : Key) (element : Element) (act : PlanM PlanId) : PlanM PlanId := do
  let entrance ← modifyGet fun st =>
    let (entrance, stack) := st.stack.enter key element
    (entrance, { st with stack })
  match entrance with
  | .entered height => closeCycle key (← restoring height act)
  | .endless => failTraced (.endless element)
  | .closes name => closeCycle key (← alloc (.localVar name))

/-- Keep a closed plan for `key`, unless one is kept already. -/
def remember (key : Key) (id : PlanId) : PlanM Unit :=
  modify fun st =>
    if st.arena.isClosed id then { st with cache := st.cache.insertNew key id } else st

end PlanM

end Injector
