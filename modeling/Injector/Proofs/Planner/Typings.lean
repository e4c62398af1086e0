/-
# Injector.Proofs.Planner.Typings -- plans that fit the keys asked for

`Typed` is a typing judgement for the plans of an arena: inside some lambda parameters, a plan
is one for a key.  A plan that is asked for gives way to a lambda parameter that can stand for
the key; a plan that is just built does not, which is what a scope keeps, what is contributed
to a set or a map, and what is put into a late variable.

What a typed plan needs is typed inside the parameters around and those that the plan
introduces (`Typed.inside`).  So is everything on the trails from there (`Typed.trail`), and
the parameters that are introduced along a trail are the last of those around its end.
-/
import Injector.Proofs.Planner.Readings
import Injector.Proofs.Planner.Origins

namespace Injector

set_option autoImplicit false

open LambdaParam (names types)

/-! ## Lambda parameters -/

/-- The innermost of the parameters that can stand for an unqualified key. -/
def LambdaParam.standIn? (p : Program) (params : List LambdaParam) (key : Key) :
    Option LambdaParam :=
  if key.qualifier.isSome then none
  else params.reverse.find? fun param => p.isAssignable key.ty param.ty

open LambdaParam (standIn?)

theorem Site.findParam_eq (p : Program) (site : Site) (key : Key) :
    site.findParam p key = standIn? p site.lambdaParams key := rfl

namespace Plan

/-- The names of the lambda parameters that the plan introduces. -/
def lambdaNames : Plan → List String
  | function params _ => params
  | namedFunction _ _ lambdaParams _ _ => lambdaParams
  | _ => []

/-- The lambda parameters that a plan for the key introduces, with the types of the key. -/
def introduces (key : Key) (p : Plan) : List LambdaParam :=
  key.ty.dealias.args.dropLast.zipWith LambdaParam.mk p.lambdaNames

/-- The plan needs a value that is built without being asked for. -/
def placesBuilt : Plan → Bool
  | container .. | lateInit .. => true
  | _ => false

theorem introduces_of_lambdaNames {key : Key} {p : Plan} (none : p.lambdaNames = []) :
    p.introduces key = [] := by
  rw [introduces, none, List.zipWith_nil_right]

/-- The parameters are those with the given types if these are the types of the key. -/
theorem introduces_of_types {key : Key} {p : Plan} {lambda : List LambdaParam}
    (named : p.lambdaNames = names lambda)
    (typed : types lambda = key.ty.dealias.args.dropLast) : p.introduces key = lambda := by
  rw [introduces, named, ← typed, types, names, List.zipWith_map, List.zipWith_self]
  exact List.map_id'' (fun _ => rfl) lambda

end Plan

namespace Source

variable (src : Source) (catalog : Catalog)

/-- The arguments are, in order, those for all parameters but some with defaults. -/
def Supplies (s : Subst) (params : List ParamDecl) (args : Table String Slot) : Prop :=
  ∃ given : List ParamDecl, given.Sublist params ∧
    (∀ param ∈ params, param.hasDefault = false → param ∈ given) ∧
    args.rows.map (fun row => (row.1, row.2.key)) =
      given.map fun param => (param.name, src.paramKey s param)

/-- With parameters of different names, arguments for them come after those of `out`. -/
def Fills (s : Subst) (out : Table String Slot) (params : List ParamDecl)
    (args : Table String Slot) : Prop :=
  (params.map (·.name)).Nodup → (∀ param ∈ params, param.name ∉ out.keys) →
    ∃ given : List ParamDecl, given.Sublist params ∧
      (∀ param ∈ params, param.hasDefault = false → param ∈ given) ∧
      args.rows.map (fun row => (row.1, row.2.key)) =
        out.rows.map (fun row => (row.1, row.2.key)) ++
          given.map fun param => (param.name, src.paramKey s param)

section Fills

variable {src} {s : Subst} {out args : Table String Slot} {param : ParamDecl}
  {rest : List ParamDecl}

variable (src s out) in
theorem Fills.nil : src.Fills s out [] out :=
  fun _ _ => ⟨[], .refl _, List.forall_mem_nil _, by simp⟩

theorem Fills.leaveOut (omitted : param.hasDefault = true) (fills : src.Fills s out rest args) :
    src.Fills s out (param :: rest) args := by
  intro apart new
  obtain ⟨-, apart⟩ := List.nodup_cons.mp apart
  obtain ⟨given, among, all, rows⟩ := fills apart fun p mem => new p (List.mem_cons_of_mem _ mem)
  refine ⟨given, among.cons param, fun p mem needed => ?_, rows⟩
  rcases List.mem_cons.mp mem with rfl | mem
  · exact absurd omitted (by simp [needed])
  · exact all p mem needed

theorem Fills.give {slot : Slot} (same : slot.key = src.paramKey s param)
    (fills : src.Fills s (out.insert param.name slot) rest args) :
    src.Fills s out (param :: rest) args := by
  intro apart new
  obtain ⟨first, apart⟩ := List.nodup_cons.mp apart
  have row : (out.insert param.name slot).rows = out.rows ++ [(param.name, slot)] :=
    Table.rows_insert_of_notMem (new param List.mem_cons_self) slot
  have others : ∀ p ∈ rest, p.name ∉ (out.insert param.name slot).keys := by
    intro p mem
    rw [Table.keys, row, List.map_append, List.mem_append, not_or]
    refine ⟨new p (List.mem_cons_of_mem _ mem), fun same => first ?_⟩
    rw [← List.mem_singleton.mp same]
    exact List.mem_map_of_mem mem
  obtain ⟨given, among, all, rows⟩ := fills apart others
  refine ⟨param :: given, among.cons_cons param, fun p mem needed => ?_, ?_⟩
  · rcases List.mem_cons.mp mem with rfl | mem
    · exact List.mem_cons_self
    · exact List.mem_cons_of_mem _ (all p mem needed)
  · rw [rows, row]
    simp [same]

theorem Fills.supplies {params : List ParamDecl} (fills : src.Fills s {} params args)
    (apart : (params.map (·.name)).Nodup) : src.Supplies s params args := by
  obtain ⟨given, among, all, rows⟩ := fills apart fun _ _ => List.not_mem_nil
  exact ⟨given, among, all, rows⟩

end Fills

/-! ## Typing -/

/-- How a plan comes to be needed. -/
inductive Use where
  /-- Its key was asked for. -/
  | asked
  /-- Its key was asked for around it, or it is contributed. -/
  | built
  deriving DecidableEq

/-- The plan `id` is one for the key inside the lambda parameters. -/
inductive Typed (a : Arena) : List LambdaParam → Use → Key → PlanId → Prop where
  /-- A kept plan, where no lambda parameter is around. -/
  | again {around : List LambdaParam} {key : Key} {id : PlanId} :
      (names around).Nodup → Typed a around .asked key id → Typed a [] .asked key id
  | param {around : List LambdaParam} {key : Key} {id : PlanId} {param : LambdaParam} :
      standIn? src.program around key = some param → a.plan? id = some (.arg param.name) →
      Typed a around .asked key id
  | keep {around : List LambdaParam} {key : Key} {id result : PlanId} {path : FieldPath} :
      standIn? src.program around key = none →
      a.plan? id = some (.keep key.text path ⟨key, result⟩) →
      Typed a around .built key result → Typed a around .asked key id
  | built {around : List LambdaParam} {key : Key} {id : PlanId} :
      standIn? src.program around key = none → Typed a around .built key id →
      Typed a around .asked key id
  | container {around : List LambdaParam} {key : Key} {id : PlanId} {kind : ContainerKind}
      {contributors : List MemberBinding} {slots : List Slot} :
      standIn? src.program around key = none →
      (src.choose catalog key).1 = .binding (.container kind contributors) →
      a.plan? id = some (.container kind slots) →
      (∀ slot ∈ slots, Typed a around .built slot.key slot.id) → Typed a around .asked key id
  | object {around : List LambdaParam} {key : Key} {id : PlanId} {cls : ClassId} :
      standIn? src.program around key = none →
      (src.choose catalog key).1 = .binding (.object cls) →
      a.plan? id = some (.object (src.program.classAt cls).ty) → Typed a around .asked key id
  | function {around lambda : List LambdaParam} {key : Key} {id result : PlanId} {ty : Ty} :
      standIn? src.program around key = none → key.ty.isFunction = true →
      key.ty.dealias.args = types lambda ++ [ty] → (names (around ++ lambda)).Nodup →
      a.plan? id = some (.function (names lambda) ⟨.of ty key.qualifier, result⟩) →
      Typed a (around ++ lambda) .asked (.of ty key.qualifier) result → Typed a around .asked key id
  | lazy {around : List LambdaParam} {key : Key} {id result : PlanId} {ty : Ty} :
      standIn? src.program around key = none → key.ty.isLazy = true →
      key.ty.dealias.args = [ty] → a.plan? id = some (.lazy ⟨.of ty key.qualifier, result⟩) →
      Typed a around .asked (.of ty key.qualifier) result → Typed a around .asked key id
  | «variable» {around : List LambdaParam} {key : Key} {id : PlanId} {name : String} :
      a.plan? id = some (.localVar name) → Typed a around .built key id
  | late {around : List LambdaParam} {use : Use} {key : Key} {id result : PlanId}
      {name : String} :
      a.plan? id = some (.lateInit name ⟨key, result⟩) → Typed a around use key result →
      Typed a around .built key id
  | construct {around : List LambdaParam} {key : Key} {id : PlanId} {cls : ClassId} {index : Nat}
      {path : FieldPath} {scopedIn : Option ClassId} {ctor : CtorDecl} {args : Table String Slot} :
      (src.choose catalog key).1 = .binding (.ctor cls index key.ty path scopedIn) →
      (src.program.classAt cls).ctors[index]? = some ctor →
      ((ctor.params.map (·.name)).Nodup →
        src.Supplies ((src.program.classAt cls).substFor key.ty) ctor.params args) →
      a.plan? id = some (.construct key.ty args ctor.namedArguments) →
      (∀ slot ∈ args.values, Typed a around .asked slot.key slot.id) → Typed a around .built key id
  | provide {around : List LambdaParam} {key : Key} {id : PlanId} {className memberName : String}
      {path : FieldPath} {receiver : Option Slot} {isProperty : Bool} {args : Table String Slot} :
      a.plan? id = some (.provide className memberName path receiver isProperty args) →
      (∀ slot ∈ receiver.toList ++ args.values, Typed a around .asked slot.key slot.id) →
      Typed a around .built key id
  | namedFunction {around lambda : List LambdaParam} {key : Key} {id : PlanId}
      {package name : String} {receiver : Option Slot} {args : Table String Slot} {ty : Ty} :
      key.ty.isFunction = true → key.ty.dealias.args = types lambda ++ [ty] →
      (names (around ++ lambda)).Nodup →
      a.plan? id = some (.namedFunction package name (names lambda) receiver args) →
      (∀ slot ∈ receiver.toList ++ args.values,
        Typed a (around ++ lambda) .asked slot.key slot.id) → Typed a around .built key id

variable {src catalog} {a b : Arena} {around : List LambdaParam} {use : Use} {key : Key}
  {id : PlanId} {p : Plan}

theorem Typed.lt_size (typed : src.Typed catalog a around use key id) : id < a.size := by
  induction typed with
  | again | built => assumption
  | param _ found | keep _ found | container _ _ found | object _ _ found
  | function _ _ _ _ found | lazy _ _ _ found | «variable» found | late found
  | construct _ _ _ found | provide found | namedFunction _ _ _ found =>
      exact Arena.lt_size_of_plan? found

/-- More plans change nothing. -/
theorem Typed.mono (typed : src.Typed catalog a around use key id) (within : a.Within b) :
    src.Typed catalog b around use key id := by
  induction typed with
  | again apart _ ih => exact .again apart ih
  | param stands found => exact .param stands (within.plan?_of_some found)
  | keep absent found _ ih => exact .keep absent (within.plan?_of_some found) ih
  | built absent _ ih => exact .built absent ih
  | container absent chosen found _ ih =>
      exact .container absent chosen (within.plan?_of_some found) ih
  | object absent chosen found => exact .object absent chosen (within.plan?_of_some found)
  | function absent function args apart found _ ih =>
      exact .function absent function args apart (within.plan?_of_some found) ih
  | lazy absent strict args found _ ih =>
      exact .lazy absent strict args (within.plan?_of_some found) ih
  | «variable» found => exact .variable (within.plan?_of_some found)
  | late found _ ih => exact .late (within.plan?_of_some found) ih
  | construct chosen declared supplies found _ ih =>
      exact .construct chosen declared supplies (within.plan?_of_some found) ih
  | provide found _ ih => exact .provide (within.plan?_of_some found) ih
  | namedFunction function args apart found _ ih =>
      exact .namedFunction function args apart (within.plan?_of_some found) ih

/-! ## Below a typed plan -/

/-- The parameters are told apart by their names, and the last of them are the given ones,
followed by those that the plan introduces for the key. -/
structure Extends (key : Key) (p : Plan) (around inside : List LambdaParam) : Prop where
  apart : (names inside).Nodup
  named : names (p.introduces key) = p.lambdaNames
  suffix : ∀ last, last <:+ around → last ++ p.introduces key <:+ inside

theorem Extends.of_lambdaNames (none : p.lambdaNames = []) (apart : (names around).Nodup) :
    Extends key p around around := by
  have nothing : p.introduces key = [] := Plan.introduces_of_lambdaNames none
  exact ⟨apart, by rw [nothing, none]; rfl, fun last suffix => by rwa [nothing, List.append_nil]⟩

theorem Extends.of_lambda {lambda : List LambdaParam} {ty : Ty}
    (apart : (names (around ++ lambda)).Nodup) (named : p.lambdaNames = names lambda)
    (args : key.ty.dealias.args = types lambda ++ [ty]) :
    Extends key p around (around ++ lambda) := by
  have introduces : p.introduces key = lambda :=
    Plan.introduces_of_types named (by rw [args, List.dropLast_concat])
  refine ⟨apart, by rw [introduces, named], fun last suffix => ?_⟩
  rw [introduces]
  exact List.suffix_append_self_iff.mpr suffix

theorem Extends.nil {inside : List LambdaParam} (extends_ : Extends key p around inside) :
    Extends key p [] inside :=
  ⟨extends_.apart, extends_.named, fun last suffix =>
    extends_.suffix last (suffix.trans List.nil_suffix)⟩

/-- What a typed plan needs is typed inside the parameters that the plan introduces. -/
theorem Typed.inside (typed : src.Typed catalog a around use key id) (apart : (names around).Nodup)
    (found : a.plan? id = some p) :
    ∃ inside, Extends key p around inside ∧ ∀ child ∈ p.children,
      ∃ use', src.Typed catalog a inside use' child.key child.id ∧
        (use' = .built → p.placesBuilt = false → standIn? src.program inside child.key = none) := by
  induction typed with
  | again apart' _ ih =>
      obtain ⟨inside, extends_, below⟩ := ih apart' found
      exact ⟨inside, extends_.nil, below⟩
  | built _ _ ih => exact ih apart found
  | param _ there | object _ _ there | «variable» there =>
      cases found.symm.trans there
      exact ⟨_, .of_lambdaNames rfl apart, List.forall_mem_nil _⟩
  | keep absent there typed =>
      cases found.symm.trans there
      exact ⟨_, .of_lambdaNames rfl apart, List.forall_mem_singleton.mpr
        ⟨_, typed, fun _ _ => absent⟩⟩
  | container _ _ there typed =>
      cases found.symm.trans there
      exact ⟨_, .of_lambdaNames rfl apart, fun child mem => ⟨_, typed child mem, fun _ => nofun⟩⟩
  | function _ _ args apart' there typed =>
      cases found.symm.trans there
      exact ⟨_, .of_lambda apart' rfl args, List.forall_mem_singleton.mpr ⟨_, typed, nofun⟩⟩
  | lazy _ _ _ there typed =>
      cases found.symm.trans there
      exact ⟨_, .of_lambdaNames rfl apart, List.forall_mem_singleton.mpr ⟨_, typed, nofun⟩⟩
  | late there typed =>
      cases found.symm.trans there
      exact ⟨_, .of_lambdaNames rfl apart, List.forall_mem_singleton.mpr
        ⟨_, typed, fun _ => nofun⟩⟩
  | construct _ _ _ there typed | provide there typed =>
      cases found.symm.trans there
      exact ⟨_, .of_lambdaNames rfl apart, fun child mem => ⟨_, typed child mem, nofun⟩⟩
  | namedFunction _ args apart' there typed =>
      cases found.symm.trans there
      exact ⟨_, .of_lambda apart' rfl args, fun child mem => ⟨_, typed child mem, nofun⟩⟩

end Source

/-! ## Trails -/

/-- The plans on the way from a slot down to another one, the nearest one first, each with the
key that it is needed for. -/
inductive Arena.Trail (a : Arena) (root : Slot) : List (Key × Plan) → Slot → Prop where
  | here : Trail a root [] root
  | down {above : List (Key × Plan)} {s child : Slot} {p : Plan} : Trail a root above s →
      a.plan? s.id = some p → child ∈ p.children → Trail a root ((s.key, p) :: above) child

namespace LambdaParam

/-- The parameters that plans introduce, in this order, the nearest plan coming first. -/
def introducedBy : List (Key × Plan) → List LambdaParam
  | [] => []
  | (key, p) :: above => introducedBy above ++ p.introduces key

end LambdaParam

open LambdaParam (introducedBy)

/-- A path is the trail without the keys. -/
theorem Arena.Path.trail {a : Arena} {root t : Slot} {above : List Plan}
    (path : a.Path root above t) : ∃ rows, a.Trail root rows t ∧ rows.map (·.2) = above := by
  induction path with
  | here => exact ⟨[], .here, rfl⟩
  | down _ found mem ih =>
      obtain ⟨rows, trail, rfl⟩ := ih
      exact ⟨_, .down trail found mem, rfl⟩

namespace Source

variable {src : Source} {catalog : Catalog} {a : Arena} {around : List LambdaParam} {use : Use}
  {root t : Slot} {above : List (Key × Plan)}

/-- The end of a trail from a typed plan is typed inside parameters that end in those which
are introduced along the trail. -/
theorem Typed.trail (typed : src.Typed catalog a around use root.key root.id)
    (apart : (names around).Nodup) (trail : a.Trail root above t) :
    ∃ inside use', src.Typed catalog a inside use' t.key t.id ∧ (names inside).Nodup ∧
      introducedBy above <:+ inside ∧
      (above.flatMap fun row => row.2.lambdaNames).Perm (names (introducedBy above)) ∧
      (use' = .built → ∀ row ∈ above.head?, row.2.placesBuilt = false →
        standIn? src.program inside t.key = none) := by
  induction trail with
  | here => exact ⟨_, _, typed, apart, List.nil_suffix, .refl _, fun _ => nofun⟩
  | @down above s child p trail found mem ih =>
      obtain ⟨outside, _, typed, apart, suffix, perm, -⟩ := ih
      obtain ⟨inside, extends_, below⟩ := typed.inside apart found
      obtain ⟨use', typed, direct⟩ := below child mem
      refine ⟨inside, use', typed, extends_.apart, extends_.suffix _ suffix, ?_, ?_⟩
      · rw [introducedBy, names, List.map_append, List.flatMap_cons]
        exact (List.perm_append_comm.trans (perm.append_right _)).trans
          (.of_eq (congrArg _ extends_.named.symm))
      · intro built row first
        obtain rfl := Option.some.inj first
        exact direct built

end Source

end Injector
