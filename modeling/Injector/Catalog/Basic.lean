/-
# Injector.Catalog.Basic -- everything a component can bind

A catalog holds what one component declares itself (`Holdings`) and links to the
catalogs of its parents, each under the field that leads there.  Requests are
answered over the whole of it:

* `walk` lists the catalog and its ancestors with the paths to them, nearest
  first; an ancestor that several paths lead to is listed once for each path;
* `lookup` takes the nearest catalog that offers the key, and finds nothing if
  that one offers it twice;
* `container?` gathers the contributions of all of them;
* `generics` and `scopeOwner` search them in the same order.

Whatever is found in an ancestor carries the path to it.
-/
import Injector.Key
import Injector.FieldPath
import Injector.Element
import Injector.Table

namespace Injector

set_option autoImplicit false

/-- A member of a component that can be called for a value. -/
structure MemberBinding where
  member : MemberId
  /-- Where the member is, from the requesting component. -/
  path : FieldPath := .here
  /-- The component that keeps the value, when the member has a scope. -/
  scopedIn : Option ClassId := none
  deriving DecidableEq, Inhabited

/-- The binding as seen from where `path` starts. -/
def MemberBinding.under (b : MemberBinding) (path : FieldPath) : MemberBinding :=
  { b with path := path ++ b.path }

inductive ContainerKind where
  | set
  | map
  deriving DecidableEq, Inhabited, Repr

/-- A source of values for one key. -/
inductive Binding where
  /-- A constructor of the class that is asked for. -/
  | ctor (cls : ClassId) (index : Nat) (ty : Ty) (path : FieldPath) (scopedIn : Option ClassId)
  | member (binding : MemberBinding)
  /-- All contributions to a set or a map. -/
  | container (kind : ContainerKind) (contributors : List MemberBinding)
  /-- The single instance of a class. -/
  | object (cls : ClassId)
  deriving DecidableEq, Inhabited

/-- A member whose type has variables to be matched. -/
structure GenericMember where
  binding : MemberBinding
  pattern : Ty
  qualifier : Option AnnotationUse
  deriving DecidableEq, Inhabited

/-- The contributions of one component to one container. -/
structure Contributions where
  kind : ContainerKind
  /-- The member that contributed first. -/
  first : MemberId
  contributors : List MemberBinding
  deriving DecidableEq, Inhabited

/-- What one component declares itself. -/
structure Holdings where
  cls : ClassId
  scope : Option AnnotationUse := none
  /-- The members to be implemented, in order. -/
  accessors : List MemberId := []
  direct : Table Key MemberBinding := {}
  containers : Table Key Contributions := {}
  generics : List GenericMember := []
  /-- Accessors by key: the way in for components further down. -/
  passthroughs : Table Key MemberBinding := {}
  /-- Keys bound more than once, which bind nothing. -/
  duplicated : List Key := []
  deriving DecidableEq, Inhabited

/-- A component with its ancestors. -/
structure Catalog where
  own : Holdings
  /-- Parents under the fields that lead to them, in order. -/
  parents : List (String × Catalog) := []
  /-- Something is wrong with the declarations of the component or an ancestor. -/
  faulty : Bool := false
  deriving Inhabited

/-- A binding and the component that declares it. -/
structure Found where
  binding : Binding
  owner : ClassId
  deriving DecidableEq, Inhabited

/-- The component that keeps the values of a scope. -/
structure ScopeOwner where
  cls : ClassId
  path : FieldPath
  deriving DecidableEq, Inhabited

namespace Catalog

/-! ## Ancestors -/

mutual

/-- The length of the longest path of parent links. -/
def height : Catalog → Nat
  | ⟨_, parents, _⟩ => heightAll parents

def heightAll : List (String × Catalog) → Nat
  | [] => 0
  | (_, parent) :: rest => max (height parent + 1) (heightAll rest)

end

/-- The parents of a catalog reached by `path`, with the paths to them. -/
def links (place : FieldPath × Catalog) : List (FieldPath × Catalog) :=
  place.2.parents.map fun (field, parent) => (place.1.push field, parent)

/-- The catalogs of one level and of `n - 1` levels above them. -/
def levels : Nat → List (FieldPath × Catalog) → List (FieldPath × Catalog)
  | 0, _ => []
  | n + 1, level => level ++ levels n (level.flatMap links)

/-- The catalog and its ancestors, nearest first. -/
def walk (c : Catalog) : List (FieldPath × Catalog) := levels (c.height + 1) [(.here, c)]

/-! ## Requests -/

/-- What a catalog itself offers for `key`.  Seen from further down an accessor
comes before a binding; the component itself is about to implement its accessors. -/
def offers (key : Key) (c : Catalog) (fromBelow : Bool) : Option MemberBinding :=
  if fromBelow then (c.own.passthroughs.get? key).or (c.own.direct.get? key)
  else c.own.direct.get? key

/-- The first catalog in a walk that offers `key` decides. -/
def lookupIn (key : Key) : List (FieldPath × Catalog) → Option Found
  | [] => none
  | (path, c) :: rest =>
    match c.offers key !path.isHere with
    | none => lookupIn key rest
    | some b =>
      if c.own.duplicated.contains key then none else some ⟨.member (b.under path), c.own.cls⟩

/-- The member that binds `key`. -/
def lookup (c : Catalog) (key : Key) : Option Found := lookupIn key c.walk

/-- The contributions to `key` along a walk. -/
def contributionsIn (key : Key) (walk : List (FieldPath × Catalog)) :
    List (FieldPath × Contributions) :=
  walk.filterMap fun (path, c) => (c.own.containers.get? key).map fun found => (path, found)

/-- All contributions to `key`; the first one tells the kind of container. -/
def container? (c : Catalog) (key : Key) : Option Binding :=
  let found := contributionsIn key c.walk
  match found with
  | [] => none
  | (_, first) :: _ =>
    some <| .container first.kind <| found.flatMap fun (path, entry) =>
      if entry.kind = first.kind then entry.contributors.map (·.under path) else []

/-- Generic bindings, nearest first. -/
def generics (c : Catalog) : List GenericMember :=
  c.walk.flatMap fun (path, c) =>
    c.own.generics.map fun g => { g with binding := g.binding.under path }

/-- The nearest component with the scope `scope`. -/
def scopeOwner (c : Catalog) (scope : AnnotationUse) : Option ScopeOwner :=
  (c.walk.find? fun (_, c) => c.own.scope == some scope).map fun (path, c) => ⟨c.own.cls, path⟩

/-- The keys that the component itself binds. -/
def boundKeys (c : Catalog) : List Key := c.own.direct.keys

end Catalog

end Injector
