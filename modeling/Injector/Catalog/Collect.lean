/-
# Injector.Catalog.Collect -- catalogs of components and their parents

A catalog needs the catalogs of the parents, which are the components in the
parameters of the primary constructor.  Each catalog is built once and kept in a
store; a component that is met while it is being built is its own parent, which
is an error and is answered by an empty catalog that is not kept.

A component in progress is never entered again, so the parents nest no deeper
than there are classes.
-/
import Injector.Catalog.Holdings

namespace Injector

set_option autoImplicit false

/-- Finished catalogs, and the components that are being built. -/
structure CatalogStore where
  catalogs : Table ClassId Catalog := {}
  inProgress : List ClassId := []
  deriving Inhabited

namespace CatalogStore

def empty : CatalogStore := {}

/-- How many catalogs are finished. -/
def size (s : CatalogStore) : Nat := s.catalogs.size

/-- Start on `id`. -/
def enter (s : CatalogStore) (id : ClassId) : CatalogStore :=
  { s with inProgress := id :: s.inProgress }

/-- Keep the finished catalog of `id`. -/
def finish (s : CatalogStore) (id : ClassId) (c : Catalog) : CatalogStore :=
  { catalogs := s.catalogs.insert id c, inProgress := s.inProgress.erase id }

end CatalogStore

/-- A store and the log of what was found while filling it. -/
structure Collecting where
  store : CatalogStore := {}
  log : Log := {}
  deriving Inhabited

namespace Collecting

def error (st : Collecting) (problem : Problem) (element : Element) : Collecting :=
  { st with log := st.log.error problem (some element) }

def errors (st : Collecting) (findings : List Finding) : Collecting :=
  { st with log := st.log.errors findings }

end Collecting

/-- The catalog that stands for a component which is its own parent. -/
def Catalog.ownParent (id : ClassId) : Catalog := { own := { cls := id }, faulty := true }

namespace Source

/-- What is wrong between a component and one of its parents: a scope that the
parent or an ancestor has too, and bindings of the parent that cannot be called. -/
def parentFindings (src : Source) (own : Holdings) (parent : Catalog) : List Finding :=
  let scopes :=
    match own.scope.bind fun scope => (parent.scopeOwner scope).map fun owner => (scope, owner) with
    | none => []
    | some (scope, owner) =>
      [⟨.scopeRefused scope, some (.cls own.cls)⟩,
        ⟨.scopeTakenByParent scope, some (.cls owner.cls)⟩]
  let hidden := parent.own.direct.rows.filterMap fun (key, b) =>
    if (src.program.memberAt b.member).visibility = .withinSubclasses &&
        !parent.own.passthroughs.contains key then
      some ⟨.inaccessible, some (.member b.member)⟩
    else none
  scopes ++ hidden

/-- The parents among the parameters, built by `collect`. -/
def parentCatalogs (src : Source) (collect : ClassId → Collecting → Catalog × Collecting)
    (own : Holdings) : List ParamDecl → Collecting → List (String × Catalog) × Collecting
  | [], st => ([], st)
  | param :: rest, st =>
    match src.program.classOf param.ty with
    | none =>
      src.parentCatalogs collect own rest (st.error (.noSuchComponent param.ty) (.ctor own.cls 0))
    | some id =>
      let (parent, st) := collect id st
      let st := st.errors (src.parentFindings own parent)
      let (more, st) := src.parentCatalogs collect own rest st
      ((param.name, parent) :: more, st)

/-- The parameters of the primary constructor that are components. -/
def parentParams (src : Source) (id : ClassId) : List ParamDecl :=
  match (src.program.classAt id).primaryCtor? with
  | none => []
  | some ctor => ctor.params.filter fun p => AnnotationUse.markComponent p.annotations

/-- Build the catalog of `id`, with `collect` for the parents. -/
def build (src : Source) (collect : ClassId → Collecting → Catalog × Collecting) (id : ClassId)
    (st : Collecting) : Catalog × Collecting :=
  let before := st.log.errorCount
  let (own, findings) := src.holdings id
  let st : Collecting := { store := st.store.enter id, log := st.log.errors findings }
  let (parents, st) := src.parentCatalogs collect own (src.parentParams id) st
  let faulty := decide (st.log.errorCount > before) || parents.any fun (_, parent) => parent.faulty
  let catalog : Catalog := { own, parents, faulty }
  (catalog, { st with store := st.store.finish id catalog })

/-- The catalog of `id`, through at most `depth` components in progress. -/
def collectTo (src : Source) : Nat → ClassId → Collecting → Catalog × Collecting
  | 0, id, st => (.ownParent id, st)
  | depth + 1, id, st =>
    match st.store.catalogs.get? id with
    | some catalog => (catalog, st)
    | none =>
      if st.store.inProgress.contains id then
        (.ownParent id, st.error (.ownParent (src.program.classAt id).decl) (.cls id))
      else src.build (src.collectTo depth) id st

/-- The catalog of `id`: kept from before, or built now. -/
def collect (src : Source) (id : ClassId) (st : Collecting) : Catalog × Collecting :=
  src.collectTo (src.program.classes.length + 2) id st

end Source

end Injector
