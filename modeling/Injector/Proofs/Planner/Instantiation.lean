/-
# Injector.Proofs.Planner.Instantiation -- members of generic supertypes

A component has the members of its generic supertypes at one instantiation of their type
variables, and files them by their return types at that instantiation
(`returnTypeIn_eq_subst`).  A call of such a member is planned without it: what is asked for
are the types of the receiver and of the parameters as they are written, and a contribution
goes under its return type as it is written.

So the calls of a component agree with what it has just if the instantiation changes nothing
about what they ask for (`planned_instantiated_iff`); in particular if it stands for no
variable that the declarations mention.
-/
import Injector.Proofs.Catalog.Requests
import Injector.Proofs.Planner.Fitness
import Injector.Proofs.Catalog.Overriding
import Injector.Proofs.Ty.Composition

namespace Injector

set_option autoImplicit false

/-- A member that does not exist has no parameters. -/
theorem Program.params_distinct (p : Program)
    (distinct : ∀ decl ∈ p.members, (decl.params.map (·.name)).Nodup) (m : MemberId) :
    ((p.memberAt m).params.map (·.name)).Nodup := by
  rw [memberAt]
  cases found : p.members[m.toNat]? with
  | none => exact List.nodup_nil
  | some decl => exact distinct decl (List.mem_of_getElem? found)

namespace Source

variable (src : Source)

/-- What the type variables around the member stand for in the component. -/
def instantiation (cls : ClassId) (m : MemberId) : Subst :=
  match (src.program.memberAt m).owner with
  | some owner => src.program.memberSubst cls owner
  | none => .empty

theorem returnTypeIn_eq_subst (cls : ClassId) (m : MemberId) :
    src.program.returnTypeIn m cls =
      (src.program.memberAt m).returnType.subst (src.instantiation cls m) := by
  cases owner : (src.program.memberAt m).owner with
  | some cls => simp only [Program.returnTypeIn, instantiation, owner]
  | none => simp only [Program.returnTypeIn, instantiation, owner, Ty.subst_empty]

/-! ## What a call asks for -/

/-- The plan calls the member and passes it values of the declared types at the instantiation:
for the receiver, and for the parameters in order but for some with defaults. -/
def CallsAt (m : MemberId) (s : Subst) : Plan → Prop
  | .provide _ name _ receiver isProperty args =>
    name = (src.program.memberAt m).name ∧
      isProperty = ((src.program.memberAt m).kind == .property) ∧
      receiver.map (·.key) = (src.program.memberAt m).receiver.map (receiverKey s) ∧
      src.Supplies s (src.program.memberAt m).params args
  | _ => False

/-- The instantiation changes nothing about what the plan passes to the member. -/
structure Unchanged (m : MemberId) (s : Subst) (p : Plan) : Prop where
  receiver : (src.program.memberAt m).receiver.map (receiverKey s) =
    (src.program.memberAt m).receiver.map (receiverKey .empty)
  params : ∀ param ∈ (src.program.memberAt m).params, param.name ∈ p.inputs.2.keys →
    src.paramKey s param = src.paramKey .empty param

variable {src} {catalog : Catalog} {m : MemberId} {s : Subst} {p : Plan} {key : Key} {c : Call}
  {site : Site} {lambda : List LambdaParam}

/-- Arguments for the written types are for those of an instantiation just if it changes nothing
about the parameters that have one. -/
theorem supplies_iff {params : List ParamDecl} {args : Table String Slot}
    (distinct : (params.map (·.name)).Nodup) (written : src.Supplies .empty params args) :
    src.Supplies s params args ↔ ∀ param ∈ params, param.name ∈ args.keys →
      src.paramKey s param = src.paramKey .empty param := by
  obtain ⟨given, among, needed, rows⟩ := written
  have names : args.keys = given.map (·.name) := by
    have first := congrArg (List.map Prod.fst) rows
    simpa only [List.map_map, Function.comp_def, Table.keys] using first
  constructor
  · -- a row names its parameter, so for each name both ways to fill in give one key
    rintro ⟨given', among', -, rows'⟩ param mem named
    rw [names] at named
    obtain ⟨other, there, same⟩ := List.mem_map.mp named
    obtain rfl : other = param :=
      List.inj_on_of_nodup_map distinct (among.subset there) mem same
    have row : (other.name, src.paramKey .empty other) ∈
        given'.map fun param => (param.name, src.paramKey s param) := by
      rw [← rows', rows]
      exact List.mem_map_of_mem there
    obtain ⟨third, there', same'⟩ := List.mem_map.mp row
    obtain rfl : third = other :=
      List.inj_on_of_nodup_map distinct (among'.subset there') mem (congrArg Prod.fst same')
    exact congrArg Prod.snd same'
  · intro unchanged
    refine ⟨given, among, needed, rows.trans (List.map_congr_left fun param mem => ?_)⟩
    have named : param.name ∈ args.keys := names ▸ List.mem_map_of_mem mem
    rw [unchanged param (among.subset mem) named]

theorem CallsAt.iff (distinct : ((src.program.memberAt m).params.map (·.name)).Nodup)
    (written : src.CallsAt m .empty p) : src.CallsAt m s p ↔ src.Unchanged m s p := by
  cases p with
  | provide _ name _ receiver isProperty args =>
      obtain ⟨named, kind, receiverKey, supplies⟩ := written
      have args_iff := supplies_iff (s := s) distinct supplies
      constructor
      · rintro ⟨-, -, same, supplies'⟩
        exact ⟨same.symm.trans receiverKey, args_iff.mp supplies'⟩
      · rintro ⟨same, params⟩
        exact ⟨named, kind, receiverKey.trans same.symm, args_iff.mpr params⟩
  | _ => exact written.elim

/-- What is made for a call of a member calls the member, at what stands for its variables. -/
theorem callsAt_of_makes {inLambda : Bool} (now : p.isCall = true)
    (distinct : ((src.program.memberAt m).params.map (·.name)).Nodup)
    (makes : src.Makes site c lambda p) (passes : src.Passes c p)
    (same : c = src.memberCall key m s inLambda) : src.CallsAt m s p := by
  have element : c.element = .member m := congrArg Call.element same
  cases makes with
  | ctor => cases element
  | member =>
      obtain rfl := Element.member.inj element
      have receiver := passes.receiver
      have arguments := passes.arguments
      rw [same] at receiver arguments
      exact ⟨rfl, rfl, receiver, arguments distinct⟩
  | lambda => cases now

/-! ## The calls of a component -/

variable (src catalog) in
/-- It holds of each call of a member without type variables of its own that a component files
as a binding or as a contribution, and of the key of each slot for such a contribution. -/
structure EachCall (f : Forest) (call : ClassId → MemberId → Plan → Prop)
    (slotKey : ClassId → MemberId → Key → Prop) : Prop where
  direct : ∀ above s p, f.Below above s → f.arena.plan? s.id = some p → p.isCall = true →
    Plan.isContributed above = false → ∀ place ∈ catalog.walk, ∀ b,
      place.2.own.direct.get? s.key = some b →
      (src.choose catalog s.key).1 = .binding (.member (b.under place.1)) →
      (src.program.memberAt b.member).typeVars = [] → call place.2.own.cls b.member p
  contributed : ∀ above s kind slots, f.Below above s →
    f.arena.plan? s.id = some (.container kind slots) →
      ∃ bs, (src.choose catalog s.key).1 = .binding (.container kind bs) ∧
        bs.length = slots.length ∧ ∀ row ∈ bs.zip slots, ∀ place ∈ catalog.walk, ∀ b,
          place.2.own.Gathers s.key b → row.1 = b.under place.1 →
          (src.program.memberAt b.member).typeVars = [] →
            slotKey place.2.own.cls b.member row.2.key ∧
              ∀ p, f.arena.Calls row.2.id p → call place.2.own.cls b.member p

/-- What follows from two things that hold of each call holds of each. -/
theorem EachCall.combine {f : Forest} {first second third : ClassId → MemberId → Plan → Prop}
    {firstKey secondKey thirdKey : ClassId → MemberId → Key → Prop}
    (each : src.EachCall catalog f first firstKey) (other : src.EachCall catalog f second secondKey)
    (call : ∀ place ∈ catalog.walk, ∀ b p,
      (b ∈ place.2.own.direct.values ∨ ∃ whole, place.2.own.Gathers whole b) →
      first place.2.own.cls b.member p → second place.2.own.cls b.member p →
        third place.2.own.cls b.member p)
    (slotKey : ∀ place ∈ catalog.walk, ∀ b key, (∃ whole, place.2.own.Gathers whole b) →
      firstKey place.2.own.cls b.member key → secondKey place.2.own.cls b.member key →
        thirdKey place.2.own.cls b.member key) :
    src.EachCall catalog f third thirdKey where
  direct above s p below found now asked place there b filed chosen plain :=
    call place there b p (.inl (Table.mem_values_of_get? filed))
      (each.direct above s p below found now asked place there b filed chosen plain)
      (other.direct above s p below found now asked place there b filed chosen plain)
  contributed above s kind slots below found := by
    obtain ⟨bs, chosen, length, rows⟩ := each.contributed above s kind slots below found
    obtain ⟨bs', chosen', -, rows'⟩ := other.contributed above s kind slots below found
    cases chosen.symm.trans chosen'
    refine ⟨bs, chosen, length, fun row mem place there b gathers same plain => ?_⟩
    obtain ⟨key, calls⟩ := rows row mem place there b gathers same plain
    obtain ⟨key', calls'⟩ := rows' row mem place there b gathers same plain
    exact ⟨slotKey place there b row.2.key ⟨_, gathers⟩ key key', fun p made =>
      call place there b p (.inr ⟨_, gathers⟩) (calls p made) (calls' p made)⟩

section Planned

variable {className : String} {log : Log}

/-- What a member that is bound is called with is of the types as they are written. -/
theorem callsAt_of_chosen {above : List Plan} {s : Slot} {b : MemberBinding}
    (distinct : ∀ m, ((src.program.memberAt m).params.map (·.name)).Nodup)
    (below : (src.planned className catalog log).Below above s)
    (found : (src.planned className catalog log).arena.plan? s.id = some p)
    (now : p.isCall = true) (asked : Plan.isContributed above = false)
    (chosen : (src.choose catalog s.key).1 = .binding (.member b)) :
    src.CallsAt b.member .empty p := by
  obtain ⟨site, stack, task, derived, same, placed⟩ :=
    planned_below below found (by cases p <;> first | rfl | cases now)
  obtain ⟨site, c, lambda, makes, passes, key, placed⟩ := derived.called placed found now
  rcases situated_of_step placed with ⟨-, answers, -⟩ | ⟨among, -, -⟩
  · rw [key, same] at answers
    have only := answers.only
    rw [calls_of_binding chosen] at only
    exact callsAt_of_makes now (distinct b.member) makes passes (List.singleton_inj.mp only).symm
  · cases asked.symm.trans among

variable (src catalog className log) in
/-- What is asked for and what contributions go under is as it is written. -/
theorem planned_asWritten
    (distinct : ∀ m, ((src.program.memberAt m).params.map (·.name)).Nodup) :
    src.EachCall catalog (src.planned className catalog log)
      (fun _ m p => src.CallsAt m .empty p)
      (fun _ m key => key = .of (src.program.memberAt m).returnType) where
  direct above s p below found now asked place there b filed chosen plain := by
    -- seen from further down it is a call of the same member
    have calls := callsAt_of_chosen distinct below found now asked chosen
    exact calls
  contributed above s kind slots below found := by
    obtain ⟨site, stack, task, derived, same, -⟩ := planned_below below found rfl
    obtain ⟨rows, rfl, chosen, made⟩ := derived.gathered found
    rw [same] at chosen
    refine ⟨rows.map (·.1), chosen, by simp, fun row mem place there b gathers member plain => ?_⟩
    rw [List.zip_map', List.mem_map] at mem
    obtain ⟨row, mem, rfl⟩ := mem
    obtain ⟨key, site, stack, derived⟩ := made row mem
    have same : row.1.member = b.member := by
      change row.1 = b.under place.1 at member
      rw [member]
      rfl
    refine ⟨?_, fun p calls => ?_⟩
    · show row.2.key = _
      rw [key, contributionKey, same]
    · obtain ⟨site, lambda, makes, passes⟩ := derived.passes calls
      rw [← same]
      exact callsAt_of_makes calls.1 (distinct _) makes passes rfl

end Planned

/-- The types that a call of the member asks for. -/
def inputTypes (src : Source) (m : MemberId) : List Ty :=
  (src.program.memberAt m).receiver.toList ++ (src.program.memberAt m).params.map (·.ty)

/-- The component's instantiation of the member stands for no variable in the types. -/
def Untouched (src : Source) (cls : ClassId) (m : MemberId) (types : List Ty) : Prop :=
  ∀ t ∈ types, ∀ v ∈ t.vars, (src.instantiation cls m).get? v = none

instance (src : Source) (cls : ClassId) (m : MemberId) (types : List Ty) :
    Decidable (src.Untouched cls m types) :=
  inferInstanceAs (Decidable (∀ t ∈ types, _))

theorem Untouched.unchanged {cls : ClassId} (untouched : src.Untouched cls m (src.inputTypes m)) :
    src.Unchanged m (src.instantiation cls m) p := by
  obtain ⟨receiver, params⟩ := List.forall_mem_append.mp untouched
  constructor
  · refine Option.map_congr fun ty mem => ?_
    rw [receiverKey, receiverKey, Ty.subst_empty,
      Ty.subst_eq_self ty (receiver ty (Option.mem_toList.mpr mem))]
  · intro param mem _
    rw [paramKey, paramKey, Ty.subst_empty,
      Ty.subst_eq_self param.ty (params param.ty (List.mem_map_of_mem mem))]

end Source

open Source

/-- The calls of a component ask for what its members declare at the instantiation at which it
has them just if the instantiation changes nothing about the keys.  So it is if it stands for
no variable in the types of receivers, parameters and contributions. -/
theorem planned_instantiated_iff (src : Source) (history : List ClassId) (cls : ClassId)
    (className : String) (log : Log)
    (distinct : ∀ decl ∈ src.program.members, (decl.params.map (·.name)).Nodup) :
    let catalog := src.catalogAfter history cls
    let f := src.planned className catalog log
    let instantiated := src.EachCall catalog f
      (fun cls m p => src.CallsAt m (src.instantiation cls m) p)
      (fun cls m key => key = .of (src.program.returnTypeIn m cls))
    (instantiated ↔ src.EachCall catalog f
      (fun cls m p => src.Unchanged m (src.instantiation cls m) p)
      (fun cls m _ => .of (src.program.returnTypeIn m cls) =
        Key.of (src.program.memberAt m).returnType)) ∧
    ((∀ place ∈ catalog.walk,
        (∀ b ∈ place.2.own.direct.values,
          src.Untouched place.2.own.cls b.member (src.inputTypes b.member)) ∧
        ∀ entry ∈ place.2.own.containers.values, ∀ b ∈ entry.contributors,
          src.Untouched place.2.own.cls b.member
            ((src.program.memberAt b.member).returnType :: src.inputTypes b.member)) →
      instantiated) := by
  intro catalog f instantiated
  have distinct := src.program.params_distinct distinct
  have written := planned_asWritten src catalog className log distinct
  have agree {cls : ClassId} {m : MemberId} {p : Plan} (calls : src.CallsAt m .empty p) :=
    calls.iff (s := src.instantiation cls m) (distinct m)
  refine ⟨⟨fun each => ?_, fun each => ?_⟩, fun untouched => ?_⟩
  · exact written.combine each (fun _ _ _ _ _ calls at_ => (agree calls).mp at_)
      fun _ _ _ _ _ key at_ => at_.symm.trans key
  · exact written.combine each (fun _ _ _ _ _ calls same => (agree calls).mpr same)
      fun _ _ _ _ _ key same => key.trans same.symm
  · refine written.combine written (fun place there b p filed calls _ => (agree calls).mpr ?_)
      fun place there b _ contributed written _ => ?_
    · obtain ⟨direct, contributed⟩ := untouched place there
      rcases filed with mem | ⟨whole, entry, held, among⟩
      · exact (direct b mem).unchanged
      · refine Untouched.unchanged fun t mem => ?_
        exact contributed entry (Table.mem_values_of_get? held) b among t
          (List.mem_cons_of_mem _ mem)
    · obtain ⟨whole, entry, held, among⟩ := contributed
      have plain := (untouched place there).2 entry (Table.mem_values_of_get? held) b among _
        List.mem_cons_self
      rw [written, returnTypeIn_eq_subst, Ty.subst_eq_self _ plain]

/-! ## A component of `Foo` -/

/-- A generic interface has the binding `make` from the type `box`, and contributes the type
`part`; a component inherits both for `Foo`. -/
def overGeneric (box part : Ty) : Source where
  program :=
    { classes := [
        { name := "Base", kind := .interface, typeVars := [{ name := "T" }],
          members := [.ofNat 0, .ofNat 1] },
        { ClassDecl.injectable "Box" [] with typeVars := [{ name := "T" }] },
        { ClassDecl.abstractComponent [.ofNat 2, .ofNat 3] with
          supers := [{ name := "Base", args := [{ name := "Foo" }] }] },
        { name := "Foo" }, { name := "Holder", typeVars := [{ name := "T" }] }]
      members := [
        { MemberDecl.bindingMake (.ofNat 0) { name := "Holder", args := [.typeVar "T"] } with
          params := [{ name := "box", ty := { name := "Box", args := [box] } }] },
        .contribution (.ofNat 0) "part" [] part,
        .accessor (.ofNat 2) "holder" { name := "Holder", args := [{ name := "Foo" }] },
        .accessor (.ofNat 2) "all" (.setOf { name := "Foo" })] }
  options := {}

/-- What is written for a `Foo` is called for a `Foo`. -/
theorem writtenForFoo_instantiated :
    let src := overGeneric { name := "Foo" } { name := "Foo" }
    let f := src.plannedAlone (.ofNat 2)
    ∃ above s p, f.Below above s ∧ f.arena.plan? s.id = some p ∧ p.isCall = true ∧
      src.CallsAt (.ofNat 0) (src.instantiation (.ofNat 2) (.ofNat 0)) p := by
  intro src f
  have shape : ∃ e ∈ f.entries, ∃ p ∈ (f.arena.plan? e.result.id).toList, p.isCall = true ∧
      ∃ place ∈ (src.catalogAfter [] (.ofNat 2)).walk, place.2.own.cls = .ofNat 2 ∧
      ∃ b ∈ (place.2.own.direct.get? e.result.key).toList, b.member = .ofNat 0 ∧
        (src.choose (src.catalogAfter [] (.ofNat 2)) e.result.key).1 =
          .binding (.member (b.under place.1)) := by
    decide +kernel
  obtain ⟨e, mem, p, found, now, place, there, own, b, filed, member, chosen⟩ := shape
  have below : f.Below [] e.result := ⟨e, mem, .here⟩
  have found := Option.mem_toList.mp found
  have each := (planned_instantiated_iff src [] (.ofNat 2) (implementationName "C") {}
    (by decide +kernel)).2 (by decide +kernel)
  have calls := each.direct [] e.result p below found now rfl place there b
    (Option.mem_toList.mp filed) chosen (by rw [member]; decide +kernel)
  rw [own, member] at calls
  exact ⟨[], e.result, p, below, found, now, calls⟩

/-- What is written for a `T` is called for a `T`, and contributed for a `T`. -/
theorem writtenForVariable_instantiated_refuted :
    let src := overGeneric (.typeVar "T") (.typeVar "T")
    let catalog := src.catalogAfter [] (.ofNat 2)
    let f := src.plannedAlone (.ofNat 2)
    ¬src.EachCall catalog f (fun cls m p => src.CallsAt m (src.instantiation cls m) p)
        (fun _ _ _ => True) ∧
      ¬src.EachCall catalog f (fun _ _ _ => True)
        (fun cls m key => key = .of (src.program.returnTypeIn m cls)) := by
  intro src catalog f
  constructor
  · intro each
    have shape : ∃ e ∈ f.entries, ∃ p ∈ (f.arena.plan? e.result.id).toList, p.isCall = true ∧
        ∃ place ∈ catalog.walk, ∃ b ∈ (place.2.own.direct.get? e.result.key).toList,
          (src.choose catalog e.result.key).1 = .binding (.member (b.under place.1)) ∧
          (src.program.memberAt b.member).typeVars = [] ∧
          ∃ param ∈ (src.program.memberAt b.member).params, param.name ∈ p.inputs.2.keys ∧
            src.paramKey (src.instantiation place.2.own.cls b.member) param ≠
              src.paramKey .empty param := by
      decide +kernel
    obtain ⟨e, mem, p, found, now, place, there, b, filed, chosen, plain, param, declared, given,
      differ⟩ := shape
    have below : f.Below [] e.result := ⟨e, mem, .here⟩
    have found := Option.mem_toList.mp found
    have distinct : ∀ m, ((src.program.memberAt m).params.map (·.name)).Nodup :=
      src.program.params_distinct (by decide +kernel)
    have written := callsAt_of_chosen distinct below found now rfl chosen
    have calls := each.direct [] e.result p below found now rfl place there b
      (Option.mem_toList.mp filed) chosen plain
    exact differ (((CallsAt.iff (distinct b.member) written).mp calls).params param declared given)
  · intro each
    have shape : ∃ e ∈ f.entries, ∃ p ∈ (f.arena.plan? e.result.id).toList,
        ∃ slot ∈ p.children, p = .container .set [slot] ∧
        ∃ place ∈ catalog.walk,
          ∃ entry ∈ (place.2.own.containers.get? e.result.key).toList, ∃ b ∈ entry.contributors,
            (src.choose catalog e.result.key).1 =
              .binding (.container .set [b.under place.1]) ∧
            (src.program.memberAt b.member).typeVars = [] ∧
            slot.key ≠ .of (src.program.returnTypeIn b.member place.2.own.cls) := by
      decide +kernel
    obtain ⟨e, mem, p, found, slot, -, container, place, there, entry, held, b, among, chosen,
      plain, differ⟩ := shape
    have found := Option.mem_toList.mp found
    rw [container] at found
    obtain ⟨bs, chosen', -, rows⟩ := each.contributed [] e.result .set [slot] ⟨e, mem, .here⟩ found
    cases chosen.symm.trans chosen'
    exact differ (rows _ (List.mem_singleton_self _) place there b
      ⟨entry, Option.mem_toList.mp held, among⟩ rfl plain).1

end Injector
