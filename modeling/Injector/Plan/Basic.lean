/-
# Injector.Plan.Basic -- how values are built

A plan is one step in building a value: a call, a reference, or something wrapped
around another value.  The values that it needs are slots: each slot has the key
that was asked for and the number of the plan that builds it, so two slots with
one number share what they point at.

A lambda binds the names of its parameters and a late variable binds its own
name; a reference to either is free until a plan around it binds the name.
-/
import Injector.Key
import Injector.FieldPath
import Injector.Table
import Injector.Catalog.Basic

namespace Injector

set_option autoImplicit false

/-- The number of a plan in its arena.  There is one for every plan, however many there are; where
numbers have 32 bits, what is said here is for arenas of no more than `lastIdentity + 1` plans,
which such numbers tell apart. -/
abbrev PlanId := Nat

/-- A value that a plan needs. -/
structure Slot where
  key : Key
  id : PlanId
  deriving DecidableEq, Inhabited

/-- One step of a construction. -/
inductive Plan where
  /-- Call a constructor of `ty`. -/
  | construct (ty : Ty) (params : Table String Slot) (namedArguments : Bool)
  /-- Call a member of the component at the end of `path`. -/
  | provide (className memberName : String) (path : FieldPath) (receiver : Option Slot)
      (isProperty : Bool) (params : Table String Slot)
  /-- Build `result` once and keep it, under `token`, in the component at the end of `path`. -/
  | keep (token : String) (path : FieldPath) (result : Slot)
  /-- A set or a map of the contributed values. -/
  | container (kind : ContainerKind) (contributors : List Slot)
  /-- A lambda. -/
  | function (params : List String) (result : Slot)
  /-- A lambda that calls a top-level function. -/
  | namedFunction (package name : String) (lambdaParams : List String) (receiver : Option Slot)
      (params : Table String Slot)
  /-- The single instance of `ty`. -/
  | object (ty : Ty)
  /-- A parameter of a lambda around. -/
  | arg (name : String)
  /-- A late variable declared around. -/
  | localVar (name : String)
  /-- A value that is built on first access. -/
  | lazy (result : Slot)
  /-- Declare the variable `name`, build `result`, and put it into the variable. -/
  | lateInit (name : String) (result : Slot)
  deriving DecidableEq, Inhabited

namespace Plan

/-- The values needed: the receiver first, then the parameters in order. -/
def children : Plan → List Slot
  | construct _ params _ => params.values
  | provide _ _ _ receiver _ params => receiver.toList ++ params.values
  | namedFunction _ _ _ receiver params => receiver.toList ++ params.values
  | keep _ _ result | function _ result | lazy result | lateInit _ result => [result]
  | container _ contributors => contributors
  | object _ | arg _ | localVar _ => []

/-- Change the slot at position `n` in a table. -/
def modifyRow (f : Slot → Slot) (params : Table String Slot) (n : Nat) : Table String Slot :=
  ⟨params.rows.modify n fun (name, slot) => (name, f slot)⟩

/-- Change the slot at position `n` of a receiver followed by parameters. -/
def modifyCall (f : Slot → Slot) (receiver : Option Slot) (params : Table String Slot) (n : Nat) :
    Option Slot × Table String Slot :=
  match receiver, n with
  | none, n => (none, modifyRow f params n)
  | some r, 0 => (some (f r), params)
  | some r, n + 1 => (some r, modifyRow f params n)

/-- Change the `n`-th of the values needed. -/
def modifyChild (f : Slot → Slot) (n : Nat) : Plan → Plan
  | construct ty params named => construct ty (modifyRow f params n) named
  | provide className memberName path receiver isProperty params =>
    let (receiver, params) := modifyCall f receiver params n
    provide className memberName path receiver isProperty params
  | namedFunction package name lambdaParams receiver params =>
    let (receiver, params) := modifyCall f receiver params n
    namedFunction package name lambdaParams receiver params
  | keep token path result => keep token path (if n = 0 then f result else result)
  | function params result => function params (if n = 0 then f result else result)
  | lazy result => lazy (if n = 0 then f result else result)
  | lateInit name result => lateInit name (if n = 0 then f result else result)
  | container kind contributors => container kind (contributors.modify n f)
  | object ty => object ty
  | arg name => arg name
  | localVar name => localVar name

/-- The kind of step, by name. -/
def stepName : Plan → String
  | construct .. => "Constructor"
  | provide .. => "Provides"
  | keep .. => "Scoped"
  | container .. => "Container"
  | function .. => "Function"
  | namedFunction .. => "NamedFunction"
  | object .. => "Object"
  | arg .. => "Arg"
  | localVar .. => "LocalVar"
  | lazy .. => "Lazy"
  | lateInit .. => "LateInit"

/-- The name that the plan refers to. -/
def reference? : Plan → Option String
  | arg name | localVar name => some name
  | _ => none

/-- The names that the plan binds in the values it needs. -/
def binders : Plan → List String
  | function params _ => params
  | namedFunction _ _ lambdaParams _ _ => lambdaParams
  | lateInit name _ => [name]
  | _ => []

/-- Changing a value needed changes the list of them at that position. -/
theorem children_modifyChild (f : Slot → Slot) (n : Nat) (plan : Plan) :
    (plan.modifyChild f n).children = plan.children.modify n f := by
  have row : ∀ (params : Table String Slot) (n : Nat),
      (modifyRow f params n).values = params.values.modify n f := by
    intro ⟨rows⟩ n
    simp only [modifyRow, Table.values]
    induction rows generalizing n with
    | nil => simp
    | cons row rest ih => cases n <;> simp_all
  have call : ∀ (receiver : Option Slot) (params : Table String Slot) (n : Nat),
      (modifyCall f receiver params n).1.toList ++ (modifyCall f receiver params n).2.values =
        (receiver.toList ++ params.values).modify n f := by
    intro receiver params n
    cases receiver <;> cases n <;> simp [modifyCall, row]
  cases plan with
  | construct => simp [modifyChild, children, row]
  | provide => simp [modifyChild, children, call]
  | namedFunction => simp [modifyChild, children, call]
  | container => simp [modifyChild, children]
  | object | arg | localVar => simp [modifyChild, children]
  | keep | function | lazy | lateInit => cases n <;> simp [modifyChild, children]

end Plan

end Injector
