/-
# Injector.Program.Hierarchy -- supertypes and what follows from them

The hierarchy is walked twice over, once by classes and once by types.

* `chain c` lists the classes above `c`, itself first, depth first over the
  declared supertypes and each class once.  Every class puts its supertypes on
  the stack at most once, so the number of declared supertypes bounds the walk.
* `supertypes t` lists the types above `t` with arguments put for type variables.
  What is new about a type is listed before anything further up, and the last of
  it is followed first.  Nothing bounds that walk (`ascend`): where a class comes
  back to itself at other arguments each time it goes on for ever, and nothing is
  said of the list.  A hierarchy without a cycle is no deeper than there
  are classes, and to that depth the walk is a plain recursion, which is tried
  first (`supertypesFrom`).

On these stand the view of an inherited member (`memberSubst`, `returnTypeIn`),
overriding, and assignability; they come to an end if the walks do that they ask
for.
-/
import Injector.Program.Basic

namespace Injector.Program

set_option autoImplicit false

/-! ## Classes above a class -/

/-- The classes of the declared supertypes, in order; unknown ones are left out. -/
def superClasses (p : Program) (id : ClassId) : List ClassId :=
  (p.classAt id).supers.filterMap p.classOf

/-- Depth first over the classes on the stack; `seen` lists the classes met. -/
def chainFrom (p : Program) : Nat → List ClassId → List ClassId → List ClassId
  | 0, _, seen => seen
  | _ + 1, [], seen => seen
  | fuel + 1, c :: stack, seen =>
    if seen.contains c then p.chainFrom fuel stack seen
    else p.chainFrom fuel (p.superClasses c ++ stack) (seen ++ [c])

/-- How many supertypes are declared in all. -/
def superCount (p : Program) : Nat :=
  p.classes.foldl (fun n c => n + c.supers.length) 0

/-- `id` and the classes above it. -/
def chain (p : Program) (id : ClassId) : List ClassId :=
  p.chainFrom (p.superCount + 1) [id] []

/-! ## Types above a type -/

/-- The declared supertypes of the class of `ty`, at the arguments of `ty`. -/
def directSupertypes (p : Program) (ty : Ty) : List Ty :=
  match p.classOf ty with
  | none => []
  | some id =>
    let c := p.classAt id
    c.supers.map (Ty.subst (c.substFor ty))

/-- The first occurrences in a list of types that are not among `seen`. -/
def unseen : List Ty → List Ty → List Ty
  | [], _ => []
  | t :: rest, seen => if seen.contains t then unseen rest seen else t :: unseen rest (seen ++ [t])

/-- `seen` and the types above `ty`, unless they go further up than to the given depth. -/
def supertypesFrom (p : Program) : Nat → Ty → List Ty → Option (List Ty)
  | 0, ty, seen => if unseen (p.directSupertypes ty) seen = [] then some seen else none
  | depth + 1, ty, seen =>
    let new := unseen (p.directSupertypes ty) seen
    new.reverse.foldlM (fun seen t => p.supertypesFrom depth t seen) (seen ++ new)

/-- One step of a walk with the types on the stack still to be looked at, the first one next,
and those of `seen` listed. -/
def visit (p : Program) (stack seen : List Ty) : (List Ty × List Ty) ⊕ List Ty :=
  match stack with
  | [] => .inr seen
  | ty :: stack =>
    let new := unseen (p.directSupertypes ty) seen
    .inl (new.reverse ++ stack, seen ++ new)

/-- `seen` and the types above those on the stack, if there is an end of them. -/
def ascend (p : Program) (stack seen : List Ty) : List Ty :=
  Id.run (repeatM (fun (stack, seen) => pure (p.visit stack seen)) (stack, seen))

/-- The types above `ty`, without repetition, if there is an end of them. -/
def supertypes (p : Program) (ty : Ty) : List Ty :=
  match p.supertypesFrom p.classes.length ty.dealias [] with
  | some out => out
  | none => p.ascend [ty.dealias] []

theorem ascend_nil (p : Program) (seen : List Ty) : p.ascend [] seen = seen := by
  rw [ascend, repeatM_eq_of_monadTail]
  rfl

theorem ascend_cons (p : Program) (ty : Ty) (stack seen : List Ty) :
    p.ascend (ty :: stack) seen =
      p.ascend ((unseen (p.directSupertypes ty) seen).reverse ++ stack)
        (seen ++ unseen (p.directSupertypes ty) seen) := by
  rw [ascend, repeatM_eq_of_monadTail]
  rfl

/-! ## Inherited members -/

/-- What the type variables of `owner` stand for in the members that `enclosing`
inherits from it: the arguments in the first supertype that is a use of `owner`. -/
def memberSubst (p : Program) (enclosing owner : ClassId) : Subst :=
  if enclosing = owner then .empty
  else
    match (p.supertypes (p.classAt enclosing).ty).find? fun t => p.classOf t == some owner with
    | some t => (p.classAt owner).substFor t
    | none => .empty

/-- The return type of `m` as seen from `enclosing`. -/
def returnTypeIn (p : Program) (m : MemberId) (enclosing : ClassId) : Ty :=
  let decl := p.memberAt m
  match decl.owner with
  | some owner => decl.returnType.subst (p.memberSubst enclosing owner)
  | none => decl.returnType

/-- Whether the parameters have the same types in order, once `s` is put for the
type variables of the second list. -/
def sameParams (s : Subst) : List ParamDecl → List ParamDecl → Bool
  | [], [] => true
  | a :: as, b :: bs => a.ty.agrees (b.ty.subst s) && sameParams s as bs
  | _, _ => false

/-- Whether `m` overrides `other`: a member of the same name and kind, with the
same parameters and receiver, in a class below that of `other`. -/
def overrides (p : Program) (m other : MemberId) : Bool :=
  let a := p.memberAt m
  let b := p.memberAt other
  match a.owner, b.owner with
  | some ownerA, some ownerB =>
    if ownerA = ownerB ∨ a.name ≠ b.name ∨ a.kind ≠ b.kind then false
    else if (p.chain ownerA).contains ownerB then
      let s := p.memberSubst ownerA ownerB
      sameParams s a.params b.params &&
        a.receiver.map Ty.dealias == b.receiver.map fun r => (r.subst s).dealias
    else false
  | _, _ => false

/-! ## Assignability -/

/-- Whether a value of type `source` may stand where `target` is expected. -/
def isAssignable (p : Program) (target source : Ty) : Bool :=
  if source.dealias.nullable && !target.dealias.nullable then false
  else target.agrees source || (p.supertypes source).any target.agrees

end Injector.Program
