/-
# Injector.Proofs.Planner.Blueprint -- what a key is built from, memory apart

Planning remembers: which plans it made, which elements are under construction, which
names it gave to lambda parameters.  A blueprint is the tree that a key is built by when
nothing of this plays a part.  It depends on the key, on whether the value is just being
built for its scope, and on the types of the lambda parameters around, innermost first; a
reference to a parameter has its position (`Injector.Proofs.Plan.Renaming`).

There is one function for each function of the planner; it says what the step is made of
when all keys are built by given blueprints.  The last of them, `Blueprints.next`, makes
blueprints of blueprints, and makes no fewer of more (`Blueprints.Below.next`).  The answer
`none` is a failure, `some none` means that nothing builds the key.

The blueprints of a component (`Source.blueprint`) are the least ones of which a step makes
nothing new (`Source.next_blueprint`): an answer is among them when a step makes it of
answers that are (`Grounded`).  So a construction that needs itself has no blueprint.
-/
import Injector.Proofs.Plan.Renaming
import Injector.Proofs.Planner.Constructions

namespace Injector

set_option autoImplicit false

/-- A value that a step needs: the key that was asked for, and how it is built. -/
structure Need where
  key : Key
  tree : PlanTree

/-- The slot in which the step needs the value, without its number. -/
def Need.slot (n : Need) : Slot := ⟨n.key, 0⟩

namespace PlanTree

/-- A step that needs one value. -/
def around (n : Need) (step : Slot → Plan) : PlanTree := .node (step n.slot) [n.tree]

/-- A step that needs a receiver and arguments. -/
def call (receiver : Option Need) (args : List (String × Need))
    (step : Option Slot → Table String Slot → Plan) : PlanTree :=
  .node (step (receiver.map Need.slot) ⟨args.map fun (name, n) => (name, n.slot)⟩)
    ((receiver.toList ++ args.map (·.2)).map Need.tree)

end PlanTree

/-- The position of the innermost lambda parameter that can stand for an unqualified key. -/
def Source.paramIndex? (src : Source) (scope : List Ty) (key : Key) : Option Nat :=
  if key.qualifier.isSome then none
  else scope.findIdx? fun ty => src.program.isAssignable key.ty ty

/-- What answers a request for a key: whether the value is just being built for its scope,
the types of the lambda parameters around, and the key. -/
abbrev Blueprints := Bool → List Ty → Key → Option (Option PlanTree)

namespace Blueprints

variable (blueprints : Blueprints) (src : Source) (catalog : Catalog) (className : String)

/-- A value that has to be built. -/
def demand (bare : Bool) (scope : List Ty) (key : Key) : Option Need :=
  match blueprints bare scope key with
  | some (some tree) => some ⟨key, tree⟩
  | _ => none

/-- The arguments for the parameters, by name. -/
def arguments (scope : List Ty) (s : Subst) : List ParamDecl → Option (List (String × Need))
  | [] => some []
  | param :: rest =>
    match blueprints false scope (src.paramKey s param) with
    | none => none
    | some none => if param.hasDefault then arguments scope s rest else none
    | some (some tree) =>
      (arguments scope s rest).map ((param.name, ⟨src.paramKey s param, tree⟩) :: ·)

/-- The receiver, for a member that has one. -/
def receiver (scope : List Ty) (s : Subst) : Option Ty → Option (Option Need)
  | none => some none
  | some ty => (blueprints.demand false scope (Source.receiverKey s ty)).map some

/-- A call of the constructor at `index`. -/
def ctor (scope : List Ty) (cls : ClassId) (index : Nat) (ty : Ty) : Option PlanTree :=
  let c := src.program.classAt cls
  match c.ctors[index]? with
  | none => none
  | some ctor => (blueprints.arguments src scope (c.substFor ty) ctor.params).map fun args =>
      .call none args fun _ args => .construct ty args ctor.namedArguments

/-- A step to which a receiver and arguments are passed. -/
def passed (scope : List Ty) (s : Subst) (receiver : Option Ty) (params : List ParamDecl)
    (step : Option Slot → Table String Slot → Plan) : Option PlanTree :=
  (blueprints.receiver scope s receiver).bind fun receiver =>
    (blueprints.arguments src scope s params).map fun args => .call receiver args step

/-- A call of a member. -/
def call (scope : List Ty) (b : MemberBinding) (s : Subst) : Option PlanTree :=
  let m := src.program.memberAt b.member
  blueprints.passed src scope s m.receiver m.params fun receiver args =>
    .provide className m.name b.path receiver (m.kind == .property) args

/-- A value that is built once in the component at the end of `path`. -/
def kept (scope : List Ty) (key : Key) (path : FieldPath) : Option PlanTree :=
  (blueprints.demand true scope key).map fun need => .around need (.keep key.text path)

/-- A call of a member, through the scope that keeps its value if there is one. -/
def member (bare : Bool) (scope : List Ty) (key : Key) (b : MemberBinding) (s : Subst) :
    Option PlanTree :=
  if b.scopedIn.isSome && !bare then blueprints.kept scope key b.path
  else blueprints.call src className scope b s

/-- The contributed values. -/
def contributors (scope : List Ty) : List MemberBinding → Option (List Need)
  | [] => some []
  | b :: rest => (blueprints.call src className scope b .empty).bind fun tree =>
      (contributors scope rest).map (⟨src.contributionKey b, tree⟩ :: ·)

/-- What follows from a binding. -/
def binding (bare : Bool) (scope : List Ty) (key : Key) : Binding → Option PlanTree
  | .ctor cls index ty path scopedIn =>
    if scopedIn.isSome && !bare then blueprints.kept scope key path
    else blueprints.ctor src scope cls index ty
  | .member b => blueprints.member src className bare scope key b .empty
  | .container kind contributors =>
    (blueprints.contributors src className scope contributors).map fun needs =>
      .node (.container kind (needs.map Need.slot)) (needs.map Need.tree)
  | .object cls => some (.node (.object (src.program.classAt cls).ty) [])

/-- A lambda that calls a top-level function. -/
def functionCall (scope : List Ty) (f : MemberId) (params : List Ty) : Option PlanTree :=
  let m := src.program.memberAt f
  blueprints.passed src (params.reverse ++ scope) .empty m.receiver m.params fun receiver args =>
    .namedFunction m.package m.name (params.map fun _ => "") receiver args

/-- A lambda for a function type. -/
def function (scope : List Ty) (key : Key) : Option PlanTree :=
  let args := key.ty.dealias.args
  match args.getLast? with
  | none => none
  | some result =>
    match src.aliasedFunction key.ty with
    | some f => blueprints.functionCall src scope f args.dropLast
    | none => (blueprints.demand false (args.dropLast.reverse ++ scope)
        (.of result key.qualifier)).map fun need =>
          .around need (.function (args.dropLast.map fun _ => ""))

/-- A value that is built on first access. -/
def lazy (scope : List Ty) (key : Key) : Option PlanTree :=
  match key.ty.dealias.args.head? with
  | none => none
  | some inner => (blueprints.demand false scope (.of inner key.qualifier)).map fun need =>
      .around need .lazy

/-- A call of the one generic member that fits. -/
def generic (bare : Bool) (scope : List Ty) (key : Key) : Option (Option PlanTree) :=
  match src.fitting key catalog.generics [] with
  | [] => some none
  | [(b, s)] => (blueprints.member src className bare scope key b s).map some
  | _ => none

/-- How a value of `key` is built, if anything builds it. -/
def next : Blueprints := fun bare scope key =>
  if key.ty.isUnresolved then none
  else
    match src.paramIndex? scope key with
    | some n => some (some (.node (.arg (positional n)) []))
    | none =>
      match (src.choose catalog key).1 with
      | .ownerless _ _ => none
      | .binding b => (blueprints.binding src className bare scope key b).map some
      | .nothing =>
        if key.ty.isFunction then (blueprints.function src scope key).map some
        else if key.ty.isLazy then (blueprints.lazy scope key).map some
        else blueprints.generic src catalog className bare scope key

variable {src catalog className}

/-- The blueprint of a key for which no lambda parameter stands. -/
theorem next_of_paramIndex?_none (bare : Bool) {scope : List Ty} {key : Key}
    (known : key.ty.isUnresolved = false) (none : src.paramIndex? scope key = none) :
    blueprints.next src catalog className bare scope key =
      match (src.choose catalog key).1 with
      | .ownerless _ _ => .none
      | .binding b => (blueprints.binding src className bare scope key b).map some
      | .nothing =>
        if key.ty.isFunction then (blueprints.function src scope key).map some
        else if key.ty.isLazy then (blueprints.lazy scope key).map some
        else blueprints.generic src catalog className bare scope key := by
  rw [next, if_neg (by simp [known]), none]

end Blueprints

/-! ## A step makes no less of more -/

/-- An answer that is missing, or else the other one. -/
def Weaker {α : Type} (x y : Option α) : Prop := x = none ∨ x = y

namespace Weaker

variable {α β : Type} {x y : Option α}

theorem refl (x : Option α) : Weaker x x := .inr rfl

theorem none (y : Option α) : Weaker none y := .inl rfl

theorem eq_some {a : α} (weaker : Weaker x y) (found : x = some a) : y = some a := by
  rcases weaker with missing | same
  · cases found.symm.trans missing
  · exact same.symm.trans found

theorem map (weaker : Weaker x y) (f : α → β) : Weaker (x.map f) (y.map f) :=
  weaker.imp (congrArg (Option.map f)) (congrArg (Option.map f))

theorem bind {f g : α → Option β} (weaker : Weaker x y) (next : ∀ a, Weaker (f a) (g a)) :
    Weaker (x.bind f) (y.bind g) := by
  rcases weaker with rfl | rfl
  · exact .none _
  · cases x with
    | none => exact .none _
    | some a => exact next a

end Weaker

/-- The other blueprints are the same, or there are more of them. -/
def Blueprints.Below (blueprints others : Blueprints) : Prop :=
  ∀ bare scope key, Weaker (blueprints bare scope key) (others bare scope key)

namespace Blueprints.Below

variable {blueprints others : Blueprints} {src : Source} {catalog : Catalog} {className : String}

theorem demand (below : blueprints.Below others) (bare : Bool) (scope : List Ty) (key : Key) :
    Weaker (blueprints.demand bare scope key) (others.demand bare scope key) := by
  unfold Blueprints.demand
  rcases below bare scope key with none | same
  · rw [none]
    exact .none _
  · rw [same]
    exact .refl _

theorem arguments (below : blueprints.Below others) (scope : List Ty) (s : Subst)
    (params : List ParamDecl) :
    Weaker (blueprints.arguments src scope s params) (others.arguments src scope s params) := by
  induction params with
  | nil => exact .refl _
  | cons param rest ih =>
      rw [Blueprints.arguments, Blueprints.arguments]
      rcases below false scope (src.paramKey s param) with none | same
      · rw [none]
        exact .none _
      rw [← same]
      split
      · exact .none _
      · split
        · exact ih
        · exact .none _
      · exact ih.map _

theorem receiver (below : blueprints.Below others) (scope : List Ty) (s : Subst)
    (ty : Option Ty) : Weaker (blueprints.receiver scope s ty) (others.receiver scope s ty) := by
  cases ty with
  | none => exact .refl _
  | some ty => exact (below.demand _ _ _).map _

theorem ctor (below : blueprints.Below others) (scope : List Ty) (cls : ClassId) (index : Nat)
    (ty : Ty) :
    Weaker (blueprints.ctor src scope cls index ty) (others.ctor src scope cls index ty) := by
  unfold Blueprints.ctor
  dsimp only
  split
  · exact .none _
  · exact (below.arguments _ _ _).map _

theorem passed (below : blueprints.Below others) (scope : List Ty) (s : Subst)
    (receiver : Option Ty) (params : List ParamDecl)
    (step : Option Slot → Table String Slot → Plan) :
    Weaker (blueprints.passed src scope s receiver params step)
      (others.passed src scope s receiver params step) :=
  (below.receiver _ _ _).bind fun _ => (below.arguments _ _ _).map _

theorem call (below : blueprints.Below others) (scope : List Ty) (b : MemberBinding) (s : Subst) :
    Weaker (blueprints.call src className scope b s) (others.call src className scope b s) :=
  below.passed _ _ _ _ _

theorem kept (below : blueprints.Below others) (scope : List Ty) (key : Key) (path : FieldPath) :
    Weaker (blueprints.kept scope key path) (others.kept scope key path) :=
  (below.demand _ _ _).map _

theorem member (below : blueprints.Below others) (bare : Bool) (scope : List Ty) (key : Key)
    (b : MemberBinding) (s : Subst) :
    Weaker (blueprints.member src className bare scope key b s)
      (others.member src className bare scope key b s) := by
  unfold Blueprints.member
  split
  · exact below.kept _ _ _
  · exact below.call _ _ _

theorem contributors (below : blueprints.Below others) (scope : List Ty)
    (contributors : List MemberBinding) :
    Weaker (blueprints.contributors src className scope contributors)
      (others.contributors src className scope contributors) := by
  induction contributors with
  | nil => exact .refl _
  | cons b rest ih => exact (below.call _ _ _).bind fun _ => ih.map _

theorem binding (below : blueprints.Below others) (bare : Bool) (scope : List Ty) (key : Key)
    (b : Binding) :
    Weaker (blueprints.binding src className bare scope key b)
      (others.binding src className bare scope key b) := by
  cases b with
  | ctor cls index ty path scopedIn =>
      unfold Blueprints.binding
      dsimp only
      split
      · exact below.kept _ _ _
      · exact below.ctor _ _ _ _
  | member b => exact below.member _ _ _ _ _
  | container kind contributors => exact (below.contributors _ _).map _
  | object cls => exact .refl _

theorem function (below : blueprints.Below others) (scope : List Ty) (key : Key) :
    Weaker (blueprints.function src scope key) (others.function src scope key) := by
  unfold Blueprints.function
  dsimp only
  split
  · exact .none _
  · split
    · exact below.passed _ _ _ _ _
    · exact (below.demand _ _ _).map _

theorem lazy (below : blueprints.Below others) (scope : List Ty) (key : Key) :
    Weaker (blueprints.lazy scope key) (others.lazy scope key) := by
  unfold Blueprints.lazy
  split
  · exact .none _
  · exact (below.demand _ _ _).map _

theorem generic (below : blueprints.Below others) (bare : Bool) (scope : List Ty) (key : Key) :
    Weaker (blueprints.generic src catalog className bare scope key)
      (others.generic src catalog className bare scope key) := by
  unfold Blueprints.generic
  split
  · exact .refl _
  · exact (below.member _ _ _ _ _).map _
  · exact .none _

theorem next (below : blueprints.Below others) :
    (blueprints.next src catalog className).Below (others.next src catalog className) := by
  intro bare scope key
  unfold Blueprints.next
  split
  · exact .none _
  split
  · exact .refl _
  split
  · exact .none _
  · exact (below.binding _ _ _ _).map _
  split
  · exact (below.function _ _).map _
  split
  · exact (below.lazy _ _).map _
  · exact below.generic _ _ _

end Blueprints.Below

/-! ## The blueprints of a component -/

namespace Source

variable {src : Source} {catalog : Catalog} {className : String} {bare : Bool}
  {scope : List Ty} {key : Key} {x y : Option PlanTree}

/-- An answer that a step makes of answers which are grounded themselves. -/
inductive Grounded (src : Source) (catalog : Catalog) (className : String) :
    Bool → List Ty → Key → Option PlanTree → Prop where
  | step {bare : Bool} {scope : List Ty} {key : Key} {x : Option PlanTree}
      (blueprints : Blueprints)
      (grounded : ∀ bare scope key x, blueprints bare scope key = some x →
        Grounded src catalog className bare scope key x)
      (made : blueprints.next src catalog className bare scope key = some x) :
      Grounded src catalog className bare scope key x

/-- No request has two grounded answers. -/
theorem Grounded.unique (one : src.Grounded catalog className bare scope key x)
    (other : src.Grounded catalog className bare scope key y) : x = y := by
  induction one generalizing y with
  | step blueprints grounded made ih =>
      obtain ⟨others, grounded', made'⟩ := other
      -- The blueprints that both answers are made of differ nowhere, so they can be joined.
      let joined : Blueprints := fun bare scope key =>
        (blueprints bare scope key).or (others bare scope key)
      have first : blueprints.Below joined := by
        intro bare scope key
        cases here : blueprints bare scope key with
        | none => exact .none _
        | some a => exact .inr (by simp [joined, here])
      have second : others.Below joined := by
        intro bare scope key
        cases there : others bare scope key with
        | none => exact .none _
        | some b =>
            cases here : blueprints bare scope key with
            | none => exact .inr (by simp [joined, here, there])
            | some a =>
                have same := ih bare scope key a here (grounded' bare scope key b there)
                exact .inr (by simp [joined, here, same])
      have left := (first.next _ _ _).eq_some made
      have right := (second.next _ _ _).eq_some made'
      exact Option.some.inj (left.symm.trans right)

open Classical in
/-- What the keys of a component are built from: the grounded answers. -/
noncomputable def blueprint (src : Source) (catalog : Catalog) (className : String) : Blueprints :=
  fun bare scope key =>
    if found : ∃ x, src.Grounded catalog className bare scope key x then some found.choose
    else none

theorem blueprint_eq_some_iff :
    src.blueprint catalog className bare scope key = some x ↔
      src.Grounded catalog className bare scope key x := by
  rw [blueprint]
  split
  · rename_i found
    refine ⟨fun same => Option.some.inj same ▸ found.choose_spec, fun grounded => ?_⟩
    rw [found.choose_spec.unique grounded]
  · rename_i none
    exact ⟨fun found => absurd found (by simp), fun grounded => absurd ⟨x, grounded⟩ none⟩

/-- A step makes of the blueprints the blueprints themselves. -/
theorem next_blueprint (src : Source) (catalog : Catalog) (className : String) :
    (src.blueprint catalog className).next src catalog className =
      src.blueprint catalog className := by
  funext bare scope key
  refine Option.ext fun x => ⟨fun made => ?_, fun found => ?_⟩
  · exact blueprint_eq_some_iff.mpr (.step _ (fun _ _ _ _ => blueprint_eq_some_iff.mp) made)
  · obtain ⟨blueprints, grounded, made⟩ := blueprint_eq_some_iff.mp found
    have below : blueprints.Below (src.blueprint catalog className) := by
      intro bare scope key
      cases here : blueprints bare scope key with
      | none => exact .none _
      | some a => exact .inr (blueprint_eq_some_iff.mpr (grounded _ _ _ _ here)).symm
    exact (below.next _ _ _).eq_some made

end Source

end Injector
