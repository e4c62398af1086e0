/-
# Injector.Planner.Error -- why a value cannot be built

Each cause names what was asked for and, where the reader has to see how it came
to that, the elements that were under construction, innermost first.  A message
is a headline, for an ambiguous key its candidates, and then the trace.
-/
import Injector.Program.Trace
import Injector.Key

namespace Injector

set_option autoImplicit false

inductive PlanError where
  /-- Nothing binds the key. -/
  | notFound (key : Key) (trace : List Element)
  /-- The construction of `element` needs itself. -/
  | endless (element : Element) (trace : List Element)
  /-- A cycle in the construction of `accessor` was never closed. -/
  | unclosed (accessor : MemberId) (trace : List Element)
  /-- Several generic members fit the key. -/
  | ambiguous (key : Key) (candidates : List MemberId) (trace : List Element)
  /-- No component keeps the values of the scope of `cls`. -/
  | noScopeOwner (scope : AnnotationUse) (cls : ClassId) (trace : List Element)
  /-- The type asked for is not known. -/
  | unresolved (key : Key)
  /-- The constructor that builds the class is missing. -/
  | noConstructor (cls : ClassId)
  /-- The request goes deeper than any request can. -/
  | tooDeep
  deriving DecidableEq, Inhabited

namespace PlanError

/-- Where the error is to be reported, if it has a place of its own. -/
def element? : PlanError → Option Element
  | endless element _ => some element
  | unclosed accessor _ => some (.member accessor)
  | noScopeOwner _ cls _ => some (.cls cls)
  | noConstructor cls => some (.cls cls)
  | notFound .. | ambiguous .. | unresolved .. | tooDeep => none

/-- The key that could not be served. -/
def key? : PlanError → Option Key
  | notFound key _ | ambiguous key _ _ | unresolved key => some key
  | _ => none

/-- The members that fit an ambiguous key. -/
def candidates : PlanError → List MemberId
  | ambiguous _ candidates _ => candidates
  | _ => []

/-- The elements under construction, innermost first. -/
def trace : PlanError → List Element
  | notFound _ trace | endless _ trace | unclosed _ trace | ambiguous _ _ trace
  | noScopeOwner _ _ trace => trace
  | unresolved _ | noConstructor _ | tooDeep => []

/-- The trace lines of the members that fit an ambiguous key. -/
def candidateLines (p : Program) (e : PlanError) : List String :=
  e.candidates.map fun m => p.traceLine (.member m)

/-- What went wrong, without the way to it. -/
def headline (p : Program) : PlanError → String
  | notFound key _ => "Cannot find an @Inject constructor or provider for: " ++ key.text
  | endless .. | unclosed .. => "Cycle detected"
  | ambiguous key candidates _ =>
    "Ambiguous bindings for: " ++ key.text ++ ", candidates:\n" ++
      p.traceText (candidates.map .member)
  | noScopeOwner scope cls _ =>
    "Cannot find component with scope: " ++ scope.text ++ " to inject " ++ (p.classAt cls).text
  | unresolved key => "Unresolved reference: " ++ key.text
  | noConstructor cls => "Cannot find constructor of " ++ (p.classAt cls).text
  | tooDeep => "Request nested too deeply"

/-- The headline and the trace below it. -/
def message (p : Program) (e : PlanError) : String :=
  let lines := p.traceText e.trace
  if lines.isEmpty then e.headline p else e.headline p ++ "\n" ++ lines

end PlanError

end Injector
