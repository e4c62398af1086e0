/-
# Injector.Planner.Choice -- which binding serves a key

The choice depends on the catalog and the program alone, not on what has been
planned before.  `choose` takes the nearest member that provides the key, else
all contributions to it, else the class itself; a class is considered only for a
key without qualifier that is no alias.  `fitting` lists the generic members that
fit a key, each through the first of its paths.
-/
import Injector.Catalog.Holdings
import Injector.Ty.Pattern

namespace Injector

set_option autoImplicit false

/-- What there is to build a key from. -/
inductive Choice where
  | nothing
  | binding (b : Binding)
  /-- The class has a scope whose values no component keeps. -/
  | ownerless (scope : AnnotationUse) (cls : ClassId)
  deriving DecidableEq, Inhabited

namespace Source

variable (src : Source)

/-- Whether every type variable stands for a type within its bounds. -/
def withinBounds (vars : List TypeVarDecl) (s : Subst) : Bool :=
  vars.all fun v =>
    match s.get? v.name with
    | none => false
    | some arg => v.bounds.all fun bound => src.program.isAssignable (bound.subst s) arg

/-- The constructor at `index` of the class that `key` asks for, in the component
that keeps the values of its scope if it has one. -/
def ctorChoice (catalog : Catalog) (key : Key) (cls : ClassId) (index : Nat) :
    Option AnnotationUse → Choice
  | none => .binding (.ctor cls index key.ty .here none)
  | some scope =>
    match catalog.scopeOwner scope with
    | some owner => .binding (.ctor cls index key.ty owner.path (some owner.cls))
    | none => .ownerless scope cls

/-- How the class `cls` that `key` asks for is built, if it is injectable. -/
def classChoice (catalog : Catalog) (key : Key) (cls : ClassId) : Choice × List Finding :=
  let c := src.program.classAt cls
  if c.kind = .object then
    (if src.isInjectable c.annotations then .binding (.object cls) else .nothing, [])
  else if key.ty.args.length ≠ c.typeVars.length then (.nothing, [])
  else
    let (ctor, findings) := src.injectCtor cls
    match ctor with
    | none => (.nothing, findings)
    | some index =>
      if src.withinBounds c.typeVars (c.substFor key.ty) then
        let (scope, problems) := src.scope c.annotations
        (ctorChoice catalog key cls index scope, findings ++ Finding.listAt (.cls cls) problems)
      else (.nothing, findings)

/-- The binding of a key: a member, contributions, or the class asked for. -/
def choose (catalog : Catalog) (key : Key) : Choice × List Finding :=
  match catalog.lookup key with
  | some found => (.binding found.binding, [])
  | none =>
    match catalog.container? key with
    | some b => (.binding b, [])
    | none =>
      if key.qualifier.isSome || key.ty.isAlias then (.nothing, [])
      else
        match src.program.classOf key.ty with
        | none => (.nothing, [])
        | some cls => src.classChoice catalog key cls

/-- The generic members that fit `key`, behind those found before. -/
def fitting (key : Key) : List GenericMember → List (MemberBinding × Subst) →
    List (MemberBinding × Subst)
  | [], found => found
  | g :: rest, found =>
    if g.qualifier ≠ key.qualifier ∨ found.any fun (b, _) => b.member == g.binding.member then
      fitting key rest found
    else
      match g.pattern.fit key.ty .empty with
      | (false, _) => fitting key rest found
      | (true, s) =>
        if src.withinBounds (src.program.memberAt g.binding.member).typeVars s then
          fitting key rest (found ++ [(g.binding, s)])
        else fitting key rest found

end Source

end Injector
