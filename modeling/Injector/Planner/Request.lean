/-
# Injector.Planner.Request -- from a key to a plan

A request is served by the first of these that applies:

1. the plan kept for the key, when no lambda parameter is around;
2. the innermost lambda parameter that can stand for it;
3. a binding: the nearest member that provides the key, all contributions to it,
   or the class itself if it is injectable;
4. for a function type, a lambda around a request for what it returns, or around
   a call of the injectable function that goes by the alias;
5. for a lazy type, a request for what is inside;
6. the one generic member whose pattern fits.

`requestWith` is one step, with the way to make further requests as an argument;
`requestTo` closes it up to a depth.  Between two constructions a request gets
smaller, and no element is under construction twice, so a depth that depends on
the program and the key alone is enough (`requestDepth`).
-/
import Injector.Planner.State
import Injector.Planner.Choice

namespace Injector

set_option autoImplicit false

open PlanM

namespace Source

/-- Further requests, which may find nothing. -/
abbrev Requests := Site → Key → PlanM (Option Slot)

variable (src : Source)

/-- The binding of a key, with what is wrong with the class that it asks for. -/
def bindingFor (site : Site) (key : Key) : PlanM (Option Binding) := do
  let (choice, findings) := src.choose site.catalog key
  report findings
  match choice with
  | .nothing => return none
  | .binding b => return some b
  | .ownerless scope cls => failTraced (.noScopeOwner scope cls)

/-! ## Calls -/

/-- A request that has to be served. -/
def demand (requests : Requests) (site : Site) (key : Key) : PlanM Slot := do
  match ← requests site key with
  | some slot => return slot
  | none => failTraced (.notFound key)

/-- Arguments for the parameters; one with a default may be left out. -/
def arguments (requests : Requests) (site : Site) (s : Subst) (element : Element) :
    List ParamDecl → Table String Slot → PlanM (Table String Slot)
  | [], out => return out
  | param :: rest, out => do
    let ty := param.ty.subst s
    let (qualifier, problems) := src.qualifier param.annotations ty
    report (Finding.listAt element problems)
    let key := Key.of ty qualifier
    match ← requests site key with
    | some slot => arguments requests site s element rest (out.insert param.name slot)
    | none =>
      if param.hasDefault then arguments requests site s element rest out
      else failTraced (.notFound key)

/-- The receiver, for a member that has one. -/
def receiverFor (requests : Requests) (site : Site) (s : Subst) :
    Option Ty → PlanM (Option Slot)
  | none => return none
  | some ty => do return some (← demand requests site (.of (ty.subst s)))

/-- Call the constructor at `index`. -/
def planCtor (requests : Requests) (site : Site) (key : Key) (cls : ClassId) (index : Nat)
    (ty : Ty) : PlanM PlanId :=
  let element := Element.ctor cls (UInt64.ofNat index)
  constructing key element do
    let c := src.program.classAt cls
    match c.ctors[index]? with
    | none => throw (.noConstructor cls)
    | some ctor =>
      let args ← src.arguments requests site (c.substFor ty) element ctor.params {}
      alloc (.construct ty args ctor.namedArguments)

/-- Call a member, with `s` for the type variables in its declaration. -/
def planCall (requests : Requests) (site : Site) (key : Key) (b : MemberBinding) (s : Subst) :
    PlanM PlanId :=
  constructing key (.member b.member) do
    let m := src.program.memberAt b.member
    let receiver ← receiverFor requests site s m.receiver
    let args ← src.arguments requests site s (.member b.member) m.params {}
    alloc (.provide site.className m.name b.path receiver (m.kind == .property) args)

/-- Build the value of `key` once in the component at the end of `path`. -/
def planKept (requests : Requests) (site : Site) (key : Key) (path : FieldPath) : PlanM PlanId := do
  let result ← demand requests (site.unwrap key) key
  alloc (.keep key.text path result)

/-- Call a member, through the scope that keeps its value if there is one. -/
def planMember (requests : Requests) (site : Site) (key : Key) (b : MemberBinding) (s : Subst) :
    PlanM PlanId :=
  if b.scopedIn.isSome && !site.isUnwrapping key then planKept requests site key b.path
  else src.planCall requests site key b s

/-- The contributed values in order, each under the key of its member. -/
def contributorSlots (requests : Requests) (site : Site) : List MemberBinding → PlanM (List Slot)
  | [] => return []
  | b :: rest => do
    let key := Key.of (src.program.memberAt b.member).returnType
    let id ← src.planCall requests site key b .empty
    return ⟨key, id⟩ :: (← contributorSlots requests site rest)

/-- Follow a binding. -/
def planBinding (requests : Requests) (site : Site) (key : Key) : Binding → PlanM PlanId
  | .ctor cls index ty path scopedIn =>
    if scopedIn.isSome && !site.isUnwrapping key then planKept requests site key path
    else src.planCtor requests site key cls index ty
  | .member b => src.planMember requests site key b .empty
  | .container kind contributors => do
    alloc (.container kind (← src.contributorSlots requests site contributors))
  | .object cls => alloc (.object (src.program.classAt cls).ty)

/-! ## Values built later -/

/-- What the names of lambda parameters begin with. -/
def paramStem : String := "arg"

/-- Names for the parameters of a lambda, from position `n`. -/
def nameParams : Nat → List Ty → PlanM (List LambdaParam)
  | _, [] => return []
  | n, ty :: rest => do
    let name ← freshName (paramStem ++ toString n)
    return ⟨ty, name⟩ :: (← nameParams (n + 1) rest)

/-- The injectable function that the alias `ty` names. -/
def aliasedFunction (ty : Ty) : Option MemberId :=
  if ty.isAlias then
    (src.program.functionsNamed ty.decl).find? fun f =>
      src.isInjectable (src.program.memberAt f).annotations
  else none

/-- A lambda that calls a top-level function. -/
def planFunctionCall (requests : Requests) (site : Site) (key : Key) (f : MemberId)
    (params : List Ty) : PlanM PlanId :=
  deferred <| constructing key (.member f) do
    let m := src.program.memberAt f
    let lambda ← nameParams 0 params
    let site := site.inside lambda
    let receiver ← receiverFor requests site .empty m.receiver
    let args ← src.arguments requests site .empty (.member f) m.params {}
    alloc (.namedFunction m.package m.name (lambda.map (·.name)) receiver args)

/-- A lambda for a function type. -/
def planFunction (requests : Requests) (site : Site) (key : Key) : PlanM PlanId := do
  let args := key.ty.dealias.args
  match args.getLast? with
  | none => failTraced (.notFound key)
  | some result =>
    match src.aliasedFunction key.ty with
    | some f => src.planFunctionCall requests site key f args.dropLast
    | none =>
      let (params, slot) ← deferred do
        let params ← nameParams 0 args.dropLast
        let slot ← demand requests (site.inside params) (.of result key.qualifier)
        return (params, slot)
      alloc (.function (params.map (·.name)) slot)

/-- A value that is built on first access. -/
def planLazy (requests : Requests) (site : Site) (key : Key) : PlanM PlanId := do
  match key.ty.dealias.args.head? with
  | none => failTraced (.notFound key)
  | some inner =>
    let slot ← deferred (demand requests site (.of inner key.qualifier))
    alloc (.lazy slot)

/-! ## Generic members -/

/-- Call the generic member that fits; there must not be two. -/
def planGeneric (requests : Requests) (site : Site) (key : Key) : PlanM (Option PlanId) := do
  match src.fitting key site.catalog.generics [] with
  | [] => return none
  | [(b, s)] => return some (← src.planMember requests site key b s)
  | several => failTraced (.ambiguous key (several.map fun (b, _) => b.member))

/-! ## Requests -/

/-- A plan for `key`, if anything builds it. -/
def planFor (requests : Requests) (site : Site) (key : Key) : PlanM (Option PlanId) := do
  if key.ty.isUnresolved then throw (.unresolved key)
  else
    match site.findParam src.program key with
    | some param => return some (← alloc (.arg param.name))
    | none =>
      match ← src.bindingFor site key with
      | some binding => return some (← src.planBinding requests site key binding)
      | none =>
        if key.ty.isFunction then return some (← src.planFunction requests site key)
        else if key.ty.isLazy then return some (← planLazy requests site key)
        else src.planGeneric requests site key

/-- The plan that is kept for `key`, where it may be used. -/
def kept? (site : Site) (key : Key) : PlanM (Option PlanId) := do
  if site.lambdaParams.isEmpty && !site.isUnwrapping key then return (← get).cache.get? key
  else return none

/-- One request, with `requests` for those that follow from it. -/
def requestWith (requests : Requests) : Requests := fun site key => do
  match ← kept? site key with
  | some id => return some ⟨key, id⟩
  | none =>
    match ← src.planFor requests site key with
    | none => return none
    | some id =>
      unless site.isUnwrapping key do remember key id
      return some ⟨key, id⟩

/-- Requests down to a depth. -/
def requestTo : Nat → Requests
  | 0 => fun _ _ => throw .tooDeep
  | depth + 1 => src.requestWith (requestTo depth)

/-- How many elements there are to construct. -/
def elementCount (p : Program) : Nat :=
  p.classes.foldl (fun n c => n + c.ctors.length) p.members.length

/-- The height of the highest declared type that a construction can ask for. -/
def declaredHeight (p : Program) : Nat :=
  let ofParams (params : List ParamDecl) : Nat := Ty.heightAll (params.map (·.ty))
  let ofMember (m : MemberDecl) : Nat := max (ofParams m.params) (Ty.heightTarget m.receiver)
  let ofClass (c : ClassDecl) : Nat := (c.ctors.map fun ctor => ofParams ctor.params).foldl max 0
  max ((p.members.map ofMember).foldl max 0) ((p.classes.map ofClass).foldl max 0)

/-- A depth that no request for `key` exceeds: with each element under construction
the type asked for grows by at most the height of a declared type, and in between
each height is met twice at most, once to be kept in a scope and once to be built. -/
def requestDepth (key : Key) : Nat :=
  let elements := elementCount src.program
  2 * (elements + 1) * (key.ty.height + elements * declaredHeight src.program) + 1

/-- A slot for `key`, if anything builds it. -/
def request (site : Site) (key : Key) : PlanM (Option Slot) :=
  src.requestTo (src.requestDepth key) site key

/-- A slot for `key`. -/
def resolve (site : Site) (key : Key) : PlanM Slot := demand src.request site key

end Source

end Injector
