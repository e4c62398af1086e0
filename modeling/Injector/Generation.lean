/-
# Injector.Generation -- the implementation of a component

Generating a component goes through its own declaration, its catalog and its
accessors, and stops at the first of these with an error; what is left then is a
stub.  If all is well the plans of the accessors form the forest, in which shared
plans are built once.

A session keeps the catalogs of the components generated before.  What is wrong
with a catalog is reported where it is built; a component that shares the catalog
later reports that it does.
-/
import Injector.Planner.Accessors
import Injector.Plan.Hoist
import Injector.Plan.Outline

namespace Injector

set_option autoImplicit false

/-- What was generated for one component. -/
structure Implementation where
  cls : ClassId
  /-- The name of the generated class. -/
  name : String
  scope : Option AnnotationUse
  forest : Forest
  diagnostics : List Diagnostic
  /-- Nothing could be generated but an empty class. -/
  isStub : Bool
  deriving DecidableEq, Inhabited

def Implementation.hasErrors (c : Implementation) : Bool := c.diagnostics.any Diagnostic.isError

/-- What one generation keeps for the next. -/
structure Session where
  store : CatalogStore := {}
  deriving Inhabited

namespace Source

variable (src : Source)

/-- What the names of generated classes begin with. -/
def classStem : String := "Inject"

/-- The name of the class generated for a class called `name`: the parts of a
nested name are joined by underscores. -/
def implementationName (name : String) : String :=
  classStem ++ String.ofList (Text.rejoin '_' (Text.pieces '.' name.toList))

/-- What is wrong with a parameter that is a parent component. -/
def parentParamProblem? (p : ParamDecl) : Option Problem :=
  if !p.isField then some (.parentNotField p.name)
  else if p.visibility = .withinOwner then some (.parentPrivate p.name)
  else none

/-- What is wrong with the declaration of the component itself. -/
def componentFindings (cls : ClassId) : List Finding :=
  let c := src.program.classAt cls
  if !c.isAbstract then [⟨.componentConcrete c.decl, some (.cls cls)⟩]
  else if c.visibility = .withinOwner then [⟨.componentPrivate c.decl, some (.cls cls)⟩]
  else Finding.listAt (.ctor cls 0) ((src.parentParams cls).filterMap parentParamProblem?)

/-- Why a component cannot be generated from a catalog that was found faulty before. -/
def faultProblem (cls : ClassId) (catalog : Catalog) : Problem :=
  match catalog.parents.find? fun (_, parent) => parent.faulty with
  | some (_, parent) => .parentFaulty (src.program.classAt parent.own.cls).decl
  | none => .componentFaulty (src.program.classAt cls).decl

/-- The names that private entries must not have: those of all members that the
component has or inherits, and of its parameters. -/
def memberNames (cls : ClassId) : NameSupply :=
  let members := (src.program.chain cls).flatMap fun c => (src.program.classAt c).members
  let params := (((src.program.classAt cls).primaryCtor?).map (·.params)).getD []
  let names := members.map (fun m => (src.program.memberAt m).name) ++ params.map (·.name)
  names.foldl NameSupply.reserve .empty

/-- An empty class. -/
def stub (cls : ClassId) (scope : Option AnnotationUse) (log : Log) : Implementation :=
  { cls, name := implementationName (src.program.classAt cls).name, scope, forest := {},
    diagnostics := log.diagnostics, isStub := true }

/-- Report what failed, at the place of the error or at the accessor. -/
def reportFailures (log : Log) (failures : List (MemberId × PlanError)) : Log :=
  failures.foldl (fun log (m, e) =>
    log.error (.note (e.message src.program)) (e.element?.or (some (.member m)))) log

/-- The component, from plans for all its accessors. -/
def complete (cls : ClassId) (scope : Option AnnotationUse) (log : Log) (forest : Forest) :
    Implementation :=
  let name := implementationName (src.program.classAt cls).name
  let forest := (forest.hoist name (src.memberNames cls)).1
  let log :=
    if src.options.dumpGraph then log.warn (.note (forest.outlineText name)) (some (.cls cls))
    else log
  { cls, name, scope, forest, diagnostics := log.diagnostics, isStub := false }

/-- Implement the accessors of a component whose catalog has no faults. -/
def implementComponent (cls : ClassId) (catalog : Catalog) (log : Log) : Implementation :=
  let site : Site := { className := implementationName (src.program.classAt cls).name, catalog }
  let (implemented, st) := (src.implementAll site).run { log }
  let log := src.reportFailures st.log implemented.failures
  if !implemented.failures.isEmpty || log.hasErrors then src.stub cls catalog.own.scope log
  else
    src.complete cls catalog.own.scope log { arena := st.arena, entries := implemented.entries }

/-- Generate the component `cls`. -/
def generate (session : Session) (cls : ClassId) : Implementation × Session :=
  match src.componentFindings cls with
  | [] =>
    let (catalog, st) := src.collect cls { store := session.store }
    let plan :=
      if catalog.faulty then
        let log :=
          if st.log.hasErrors then st.log
          else st.log.error (src.faultProblem cls catalog) (some (.cls cls))
        src.stub cls catalog.own.scope log
      else src.implementComponent cls catalog st.log
    (plan, { store := st.store })
  | findings => (src.stub cls none (Log.empty.errors findings), session)

end Source

end Injector
