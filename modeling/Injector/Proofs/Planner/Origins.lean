/-
# Injector.Proofs.Planner.Origins -- what answers for a key

A key may be answered for by one call (`Answers`), and its value may be kept (`keeper?`).
`Answers.origin` says where in the catalog such a call comes from: from the class asked for,
from a binding or a way in that is filed under the key, or from a generic member whose
pattern fits.  The inversion lemmas before it do the same for each way of choosing.
-/
import Injector.Proofs.Planner.Constructions
import Injector.Proofs.Catalog.Requests

namespace Injector

set_option autoImplicit false

namespace Source

variable (src : Source) (catalog : Catalog)

/-- Where the value of the key is kept, if what binds it has a scope. -/
def keeper? (key : Key) : Option FieldPath :=
  match (src.choose catalog key).1 with
  | .binding (.ctor _ _ _ path scopedIn) => scopedIn.map fun _ => path
  | .binding (.member b) => b.scopedIn.map fun _ => b.path
  | .nothing =>
    if key.ty.isFunction || key.ty.isLazy then none
    else
      match src.fitting key catalog.generics [] with
      | [(b, _)] => b.scopedIn.map fun _ => b.path
      | _ => none
  | _ => none

/-- The value of the key is that of the call, and not made of contributions. -/
structure Answers (key : Key) (c : Call) : Prop where
  only : src.calls catalog key = [c]
  single : ∀ kind contributors,
    (src.choose catalog key).1 ≠ .binding (.container kind contributors)
  same : c.key = key

variable {src catalog} {key : Key} {c : Call}

theorem Answers.mem (answers : src.Answers catalog key c) : c ∈ src.calls catalog key := by
  rw [answers.only]
  exact List.mem_singleton_self _

theorem Answers.keeper?_of_inLambda (answers : src.Answers catalog key c)
    (later : c.inLambda = true) : src.keeper? catalog key = none := by
  obtain ⟨-, unbound, function⟩ := unbound_of_inLambda answers.mem later
  have nothing : (src.choose catalog key).1 = .nothing := unbound
  simp [keeper?, nothing, function]

/-- A call answers for each key with a kept value. -/
theorem exists_answers_of_keeper? {path : FieldPath} (kept : src.keeper? catalog key = some path) :
    ∃ c, src.Answers catalog key c := by
  simp only [keeper?] at kept
  split at kept
  · rename_i cls index ty _ _ chosen
    exact ⟨src.ctorCall key cls index ty, by simp [calls, chosen, bindingCalls], by simp [chosen],
      rfl⟩
  · rename_i b chosen
    exact ⟨src.memberCall key b.member .empty false, by simp [calls, chosen, bindingCalls],
      by simp [chosen], rfl⟩
  · rename_i nothing
    split at kept
    · cases kept
    · rename_i plain
      split at kept
      · rename_i b s fits
        simp only [Bool.or_eq_true, not_or, Bool.not_eq_true] at plain
        exact ⟨src.memberCall key b.member s false,
          by simp [calls, nothing, unboundCalls, plain.1, plain.2, fits], by simp [nothing], rfl⟩
      · cases kept
  · cases kept

/-! ## Ways of choosing -/

/-- A member that is found is filed under the key by a component along the walk. -/
theorem exists_of_lookup {found : Found} (here : catalog.lookup key = some found) :
    ∃ place ∈ catalog.walk, ∃ b, found.binding = .member (b.under place.1) ∧
      (place.2.own.direct.get? key = some b ∨ place.2.own.passthroughs.get? key = some b) := by
  obtain ⟨place, b, nearest, rfl⟩ := Catalog.nearest_of_lookupIn here
  refine ⟨place, nearest.mem, b, rfl, ?_⟩
  rcases Catalog.offers_cases nearest.offered with ⟨-, way⟩ | ⟨direct, -⟩
  · exact .inr way
  · exact .inl direct

theorem binding_of_container? {b : Binding} (here : catalog.container? key = some b) :
    ∃ kind contributors, b = .container kind contributors := by
  simp only [Catalog.container?] at here
  split at here
  · cases here
  · cases here
    exact ⟨_, _, rfl⟩

variable (src) in
/-- A class is built by one of its constructors, if it is no single instance. -/
theorem classChoice_cases (catalog : Catalog) (key : Key) (id : ClassId) :
    (src.classChoice catalog key id).1 = .nothing ∨
      (src.classChoice catalog key id).1 = .binding (.object id) ∨
      key.ty.args.length = (src.program.classAt id).typeVars.length ∧ ∃ index,
        (src.classChoice catalog key id).1 =
          ctorChoice catalog key id index (src.scope (src.program.classAt id).annotations).1 := by
  simp only [classChoice]
  split
  · split
    · exact .inr (.inl rfl)
    · exact .inl rfl
  · split
    · exact .inl rfl
    · rename_i arity
      split
      · exact .inl rfl
      · split
        · exact .inr (.inr ⟨by simpa using arity, _, rfl⟩)
        · exact .inl rfl

variable (src) in
/-- A member goes before contributions, and both before the class that is asked for. -/
theorem choose_cases (catalog : Catalog) (key : Key) :
    (∃ place ∈ catalog.walk, ∃ own,
      (src.choose catalog key).1 = .binding (.member (own.under place.1)) ∧
        (place.2.own.direct.get? key = some own ∨
          place.2.own.passthroughs.get? key = some own)) ∨
      (∃ kind contributors,
        (src.choose catalog key).1 = .binding (.container kind contributors)) ∨
      (src.choose catalog key).1 = .nothing ∨
      key.qualifier = none ∧ ∃ id, src.program.classOf key.ty = some id ∧
        (src.choose catalog key).1 = (src.classChoice catalog key id).1 := by
  simp only [choose]
  split
  · rename_i found here
    obtain ⟨place, mem, own, same, filed⟩ := exists_of_lookup here
    exact .inl ⟨place, mem, own, congrArg Choice.binding same, filed⟩
  · split
    · rename_i b here
      obtain ⟨kind, contributors, rfl⟩ := binding_of_container? here
      exact .inr (.inl ⟨kind, contributors, rfl⟩)
    · split
      · exact .inr (.inr (.inl rfl))
      · rename_i plain
        split
        · exact .inr (.inr (.inl rfl))
        · rename_i id named
          simp only [Bool.or_eq_true, not_or, Bool.not_eq_true] at plain
          exact .inr (.inr (.inr ⟨by simpa using plain.1, id, named, rfl⟩))

/-- A constructor is chosen for the very type that is asked for, and has no keeper only if
the class has no scope. -/
theorem class_of_chosen {cls : ClassId} {index : Nat} {ty : Ty} {path : FieldPath}
    {scopedIn : Option ClassId}
    (chosen : (src.choose catalog key).1 = .binding (.ctor cls index ty path scopedIn)) :
    ty = key.ty ∧ key.qualifier = none ∧ src.program.classOf key.ty = some cls ∧
      key.ty.args.length = (src.program.classAt cls).typeVars.length ∧
      (scopedIn = none → (src.scope (src.program.classAt cls).annotations).1 = none) := by
  rcases src.choose_cases catalog key with ⟨_, _, _, same, _⟩ | ⟨_, _, same⟩ | same |
    ⟨plain, id, named, same⟩ <;> rw [same] at chosen
  · cases chosen
  · cases chosen
  · cases chosen
  · rcases src.classChoice_cases catalog key id with same | same | ⟨arity, index, same⟩ <;>
      rw [same] at chosen
    · cases chosen
    · cases chosen
    · simp only [ctorChoice] at chosen
      split at chosen
      · rename_i unscoped
        cases chosen
        exact ⟨rfl, plain, named, arity, fun _ => unscoped⟩
      · split at chosen <;> cases chosen
        exact ⟨rfl, plain, named, arity, nofun⟩

/-- A member is chosen from those that are filed under the key. -/
theorem member_of_chosen {b : MemberBinding}
    (chosen : (src.choose catalog key).1 = .binding (.member b)) :
    ∃ place ∈ catalog.walk, ∃ own, b = own.under place.1 ∧
      (place.2.own.direct.get? key = some own ∨ place.2.own.passthroughs.get? key = some own) := by
  rcases src.choose_cases catalog key with ⟨place, mem, own, same, filed⟩ | ⟨_, _, same⟩ | same |
    ⟨plain, id, named, same⟩ <;> rw [same] at chosen
  · cases chosen
    exact ⟨place, mem, own, rfl, filed⟩
  · cases chosen
  · cases chosen
  · rcases src.classChoice_cases catalog key id with same | same | ⟨arity, index, same⟩ <;>
      rw [same] at chosen
    · cases chosen
    · cases chosen
    · simp only [ctorChoice] at chosen
      split at chosen
      · cases chosen
      · split at chosen <;> cases chosen

/-- The pattern of a generic member that fits is the first one for the member. -/
theorem mem_fitting {members : List GenericMember} {found : List (MemberBinding × Subst)}
    {b : MemberBinding} {s : Subst} (mem : (b, s) ∈ src.fitting key members found) :
    (b, s) ∈ found ∨ ∃ g ∈ members, g.binding = b ∧ g.qualifier = key.qualifier ∧
      g.pattern.fit key.ty .empty = (true, s) := by
  induction members generalizing found with
  | nil => exact .inl mem
  | cons g rest ih =>
      have later {found : List (MemberBinding × Subst)}
          (mem : (b, s) ∈ src.fitting key rest found) :
          (b, s) ∈ found ∨ ∃ g' ∈ g :: rest, g'.binding = b ∧ g'.qualifier = key.qualifier ∧
            g'.pattern.fit key.ty .empty = (true, s) := by
        refine (ih mem).imp_right ?_
        rintro ⟨g', mem, fits⟩
        exact ⟨g', List.mem_cons_of_mem _ mem, fits⟩
      rw [fitting] at mem
      split at mem
      · exact later mem
      · rename_i usable
        split at mem
        · exact later mem
        · rename_i s' fits
          split at mem
          · rcases later mem with mem | there
            · rcases List.mem_append.mp mem with mem | mem
              · exact .inl mem
              · cases List.mem_singleton.mp mem
                refine .inr ⟨g, List.mem_cons_self, rfl, ?_, fits⟩
                exact Decidable.byContradiction fun other => usable (.inl other)
            · exact .inr there
          · exact later mem

/-! ## Where a call comes from -/

variable (src catalog) in
/-- Where in the catalog the call comes from that answers for the key. -/
inductive Origin (key : Key) (c : Call) : Prop where
  | cls {id : ClassId} {index : Nat} : key.qualifier = none →
      src.program.classOf key.ty = some id →
      key.ty.args.length = (src.program.classAt id).typeVars.length →
      c = src.ctorCall key id index key.ty →
      (src.keeper? catalog key = none →
        (src.scope (src.program.classAt id).annotations).1 = none) → Origin key c
  | direct {place : FieldPath × Catalog} {b : MemberBinding} : place ∈ catalog.walk →
      place.2.own.direct.get? key = some b → c = src.memberCall key b.member .empty false →
      src.keeper? catalog key = (b.scopedIn.map fun _ => place.1 ++ b.path) → Origin key c
  | passthrough {place : FieldPath × Catalog} {b : MemberBinding} : place ∈ catalog.walk →
      place.2.own.passthroughs.get? key = some b →
      c = src.memberCall key b.member .empty false →
      src.keeper? catalog key = (b.scopedIn.map fun _ => place.1 ++ b.path) → Origin key c
  | generic {place : FieldPath × Catalog} {g : GenericMember} {s : Subst} :
      place ∈ catalog.walk → g ∈ place.2.own.generics → g.qualifier = key.qualifier →
      g.pattern.fit key.ty .empty = (true, s) → c = src.memberCall key g.binding.member s false →
      src.keeper? catalog key = (g.binding.scopedIn.map fun _ => place.1 ++ g.binding.path) →
      Origin key c

theorem Answers.origin (answers : src.Answers catalog key c) (now : c.inLambda = false) :
    src.Origin catalog key c := by
  have mem := answers.mem
  simp only [calls] at mem
  split at mem
  case h_1 nothing =>
      simp only [unboundCalls] at mem
      split at mem
      · split at mem
        · obtain rfl := List.mem_singleton.mp mem
          cases now
        · cases mem
      · rename_i plain
        rw [Bool.not_eq_true] at plain
        split at mem
        · cases mem
        · rename_i strict
          rw [Bool.not_eq_true] at strict
          split at mem
          · rename_i b s fits
            obtain rfl := List.mem_singleton.mp mem
            have among : (b, s) ∈ src.fitting key catalog.generics [] := by
              rw [fits]
              exact List.mem_singleton_self _
            obtain ⟨g, offered, rfl, qualifier, fits'⟩ :=
              (mem_fitting among).resolve_left List.not_mem_nil
            obtain ⟨place, there, own, filed, rfl⟩ := Catalog.mem_generics_iff.mp offered
            refine .generic there filed qualifier fits' rfl ?_
            simp only [keeper?, nothing, plain, strict, Bool.or_self, Bool.false_eq_true, if_false,
              fits]
            rfl
          · cases mem
  case h_2 b chosen =>
      cases b with
      | ctor id index ty path scopedIn =>
          obtain rfl := List.mem_singleton.mp mem
          obtain ⟨rfl, plain, named, arity, scope⟩ := class_of_chosen chosen
          refine .cls plain named arity rfl fun unkept => scope ?_
          simpa [keeper?, chosen] using unkept
      | member b =>
          obtain rfl := List.mem_singleton.mp mem
          obtain ⟨place, there, own, rfl, filed⟩ := member_of_chosen chosen
          have kept : src.keeper? catalog key =
              own.scopedIn.map fun _ => place.1 ++ own.path := by
            simp only [keeper?, chosen]
            rfl
          rcases filed with filed | filed
          · exact .direct there filed rfl kept
          · exact .passthrough there filed rfl kept
      | container kind contributors => exact absurd chosen (answers.single kind contributors)
      | object => cases mem
  case h_3 => cases mem

end Source

end Injector
