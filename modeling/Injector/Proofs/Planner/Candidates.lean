/-
# Injector.Proofs.Planner.Candidates -- which generic members suit a key

A generic binding `Suits` a key if its qualifier is that of the key, its pattern fits the type,
and each type parameter of the member stands for a type that its bounds accept.  An ancestor that
several paths lead to is met once for each of them, and a member may be offered by several
patterns, so the same member can suit a key in many places.

`fitting` goes through the bindings once.  What it has found after any part of them (`Lists`) has
each member once, through the first binding that suits, and leaves out none; so along a walk it
finds just the members that are `Offered`, each through its `FirstMatch`.
-/
import Injector.Proofs.Catalog.Requests
import Injector.Proofs.Program.Assignability
import Injector.Planner.Choice

namespace Injector

set_option autoImplicit false

namespace Source

variable (src : Source) (catalog : Catalog) (key : Key)

/-- Each type variable stands for a type that its bounds accept. -/
def Bounded (vars : List TypeVarDecl) (s : Subst) : Prop :=
  ∀ v ∈ vars, ∃ arg, s.get? v.name = some arg ∧
    ∀ bound ∈ v.bounds, src.program.Accepts (bound.subst s) arg

/-- The generic binding can serve the key, with `s` for the type variables of the member. -/
structure Suits (g : GenericMember) (s : Subst) : Prop where
  qualifier : g.qualifier = key.qualifier
  fits : g.pattern.fit key.ty .empty = (true, s)
  bounded : src.Bounded (src.program.memberAt g.binding.member).typeVars s

/-- The member suits the key through some generic binding on some path. -/
def Offered (m : MemberId) : Prop :=
  ∃ place ∈ catalog.walk, ∃ own ∈ place.2.own.generics,
    own.binding.member = m ∧ ∃ s, src.Suits key own s

/-- The binding `own` at `place` suits the key, and it is the first of its member along the walk
that does. -/
structure FirstMatch (place : FieldPath × Catalog) (own : GenericMember) (s : Subst) : Prop where
  suits : src.Suits key own s
  first : ∃ before after earlier later,
    catalog.walk = before ++ place :: after ∧ place.2.own.generics = earlier ++ own :: later ∧
      ∀ g ∈ (before.flatMap fun place => place.2.own.generics) ++ earlier,
        g.binding.member = own.binding.member → ∀ s, ¬src.Suits key g s

variable {src catalog key} {g : GenericMember} {b : MemberBinding} {m : MemberId} {s t : Subst}

theorem withinBounds_iff (acyclic : src.program.Acyclic) {vars : List TypeVarDecl} :
    src.withinBounds vars s = true ↔ src.Bounded vars s := by
  simp only [withinBounds, Bounded, List.all_eq_true]
  refine forall₂_congr fun v _ => ?_
  cases s.get? v.name <;> simp [Program.isAssignable_iff acyclic]

theorem suits_under (path : FieldPath) :
    src.Suits key { g with binding := g.binding.under path } s ↔ src.Suits key g s :=
  ⟨fun ⟨qualifier, fits, bounded⟩ => ⟨qualifier, fits, bounded⟩,
    fun ⟨qualifier, fits, bounded⟩ => ⟨qualifier, fits, bounded⟩⟩

/-! ## What is found in a list of bindings -/

/-- The members found, in order. -/
def membersOf (found : List (MemberBinding × Subst)) : List MemberId :=
  found.map fun (b, _) => b.member

/-- The binding is the first of its member that suits. -/
def FirstIn (src : Source) (key : Key) (seen : List GenericMember) (b : MemberBinding)
    (s : Subst) : Prop :=
  ∃ before g after, seen = before ++ g :: after ∧ g.binding = b ∧ src.Suits key g s ∧
    ∀ other ∈ before, other.binding.member = b.member → ∀ t, ¬src.Suits key other t

/-- What is found after the bindings `seen`. -/
structure Lists (src : Source) (key : Key) (seen : List GenericMember)
    (found : List (MemberBinding × Subst)) : Prop where
  once : (membersOf found).Nodup
  mem_iff : ∀ m, m ∈ membersOf found ↔
    ∃ g ∈ seen, g.binding.member = m ∧ ∃ s, src.Suits key g s
  first : ∀ b s, (b, s) ∈ found → src.FirstIn key seen b s

theorem FirstIn.append {seen : List GenericMember} (first : src.FirstIn key seen b s)
    (more : List GenericMember) : src.FirstIn key (seen ++ more) b s := by
  obtain ⟨before, g, after, rfl, rfl, suits, none⟩ := first
  exact ⟨before, g, after ++ more, by simp, rfl, suits, none⟩

theorem mem_membersOf {found : List (MemberBinding × Subst)} :
    m ∈ membersOf found ↔ ∃ b s, (b, s) ∈ found ∧ b.member = m := by
  simp [membersOf]

variable {seen rest : List GenericMember} {found : List (MemberBinding × Subst)}

/-- The next binding is taken if it suits and its member is new. -/
theorem fitting_cons_of_suits (acyclic : src.program.Acyclic) (suits : src.Suits key g s)
    (new : g.binding.member ∉ membersOf found) :
    src.fitting key (g :: rest) found = src.fitting key rest (found ++ [(g.binding, s)]) := by
  have absent : (found.any fun (b, _) => b.member == g.binding.member) = false := by
    simpa [mem_membersOf] using new
  have within := (withinBounds_iff acyclic).mpr suits.bounded
  simp [fitting, suits.qualifier, absent, suits.fits, within]

/-- Otherwise it is passed over. -/
theorem fitting_cons_of_not_suits (acyclic : src.program.Acyclic)
    (unfit : g.binding.member ∈ membersOf found ∨ ∀ s, ¬src.Suits key g s) :
    src.fitting key (g :: rest) found = src.fitting key rest found := by
  rw [fitting]
  split
  · rfl
  · rename_i usable
    obtain ⟨qualifier, new⟩ := not_or.mp usable
    have absent : g.binding.member ∉ membersOf found := by
      simpa [mem_membersOf] using new
    split
    · rfl
    · rename_i s fits
      split
      · rename_i within
        refine absurd ?_ (unfit.resolve_left absent s)
        exact ⟨not_not.mp qualifier, fits, (withinBounds_iff acyclic).mp within⟩
      · rfl

namespace Lists

theorem nil : src.Lists key [] [] where
  once := List.nodup_nil
  mem_iff m := by simp [membersOf]
  first := by simp

/-- A binding that suits, of a new member. -/
theorem take (lists : src.Lists key seen found) (suits : src.Suits key g s)
    (new : g.binding.member ∉ membersOf found) :
    src.Lists key (seen ++ [g]) (found ++ [(g.binding, s)]) where
  once := by
    rw [membersOf, List.map_append]
    refine List.nodup_append'.mpr ⟨lists.once, List.nodup_singleton _, fun m mem mem' => ?_⟩
    obtain rfl := List.mem_singleton.mp mem'
    exact new mem
  mem_iff m := by
    have more : m ∈ membersOf (found ++ [(g.binding, s)]) ↔
        m ∈ membersOf found ∨ g.binding.member = m := by
      simp [membersOf, eq_comm]
    simp only [more, lists.mem_iff, List.mem_append, List.mem_singleton, or_and_right, exists_or,
      exists_eq_left]
    exact or_congr_right ⟨fun same => ⟨same, s, suits⟩, And.left⟩
  first b t mem := by
    rcases List.mem_append.mp mem with mem | mem
    · exact (lists.first b t mem).append [g]
    · cases List.mem_singleton.mp mem
      refine ⟨seen, g, [], rfl, rfl, suits, fun other mem same t suits' => new ?_⟩
      exact (lists.mem_iff _).mpr ⟨other, mem, same, t, suits'⟩

/-- A binding that does not, or of a member found before. -/
theorem skip (lists : src.Lists key seen found)
    (unfit : g.binding.member ∈ membersOf found ∨ ∀ s, ¬src.Suits key g s) :
    src.Lists key (seen ++ [g]) found where
  once := lists.once
  mem_iff m := by
    rw [lists.mem_iff]
    constructor
    · rintro ⟨other, mem, said⟩
      exact ⟨other, List.mem_append_left _ mem, said⟩
    · rintro ⟨other, mem, rfl, s, suits⟩
      rcases List.mem_append.mp mem with mem | mem
      · exact ⟨other, mem, rfl, s, suits⟩
      · obtain rfl := List.mem_singleton.mp mem
        exact (lists.mem_iff _).mp (unfit.resolve_right fun none => none s suits)
  first b t mem := (lists.first b t mem).append [g]

/-- What is found after the bindings that are left. -/
theorem fitting (acyclic : src.program.Acyclic) (lists : src.Lists key seen found)
    (rest : List GenericMember) : src.Lists key (seen ++ rest) (src.fitting key rest found) := by
  induction rest generalizing seen found with
  | nil => simpa [Source.fitting] using lists
  | cons g rest ih =>
      rw [List.append_cons]
      by_cases usable : g.binding.member ∉ membersOf found ∧ ∃ s, src.Suits key g s
      · obtain ⟨new, s, suits⟩ := usable
        rw [fitting_cons_of_suits acyclic suits new]
        exact ih (lists.take suits new)
      · have unfit : g.binding.member ∈ membersOf found ∨ ∀ s, ¬src.Suits key g s := by
          simpa only [not_and_or, not_not, not_exists] using usable
        rw [fitting_cons_of_not_suits acyclic unfit]
        exact ih (lists.skip unfit)

end Lists

/-! ## What is found along a walk -/

/-- Where an entry of lists that are put together stands. -/
theorem exists_split_of_flatMap {α β : Type} {f : α → List β} {l : List α} {before after : List β}
    {b : β} (split : l.flatMap f = before ++ b :: after) :
    ∃ l₁ a l₂ earlier later, l = l₁ ++ a :: l₂ ∧ f a = earlier ++ b :: later ∧
      before = l₁.flatMap f ++ earlier := by
  induction l generalizing before with
  | nil => simp at split
  | cons a l ih =>
      rw [List.flatMap_cons] at split
      rcases List.append_eq_append_iff.mp split with ⟨more, rfl, same⟩ | ⟨more, here, same⟩
      · obtain ⟨l₁, a', l₂, earlier, later, rfl, parts, rfl⟩ := ih same
        exact ⟨a :: l₁, a', l₂, earlier, later, rfl, parts, by simp⟩
      · cases more with
        | nil =>
            obtain ⟨l₁, a', l₂, earlier, later, rfl, parts, none⟩ := @ih [] same.symm
            refine ⟨a :: l₁, a', l₂, earlier, later, rfl, parts, ?_⟩
            rw [List.flatMap_cons, List.append_assoc, ← none, here, List.append_nil,
              List.append_nil]
        | cons b' later =>
            cases same
            exact ⟨[], a, l, before, later, rfl, here, rfl⟩

theorem lists_generics (acyclic : src.program.Acyclic) :
    src.Lists key catalog.generics (src.fitting key catalog.generics []) := by
  simpa using Lists.nil.fitting acyclic catalog.generics

/-- Each member found is found once. -/
theorem nodup_fitting (acyclic : src.program.Acyclic) :
    (membersOf (src.fitting key catalog.generics [])).Nodup :=
  (lists_generics acyclic).once

/-- The members found are those that are offered. -/
theorem mem_fitting_iff (acyclic : src.program.Acyclic) :
    m ∈ membersOf (src.fitting key catalog.generics []) ↔ src.Offered catalog key m := by
  rw [(lists_generics acyclic).mem_iff]
  constructor
  · rintro ⟨g, mem, rfl, s, suits⟩
    obtain ⟨place, there, own, among, rfl⟩ := Catalog.mem_generics_iff.mp mem
    exact ⟨place, there, own, among, rfl, s, (suits_under place.1).mp suits⟩
  · rintro ⟨place, there, own, among, rfl, s, suits⟩
    exact ⟨_, Catalog.mem_generics_iff.mpr ⟨place, there, own, among, rfl⟩, rfl, s,
      (suits_under place.1).mpr suits⟩

/-- Each is found through its first match. -/
theorem firstMatch_of_mem_fitting (acyclic : src.program.Acyclic)
    (mem : (b, s) ∈ src.fitting key catalog.generics []) :
    ∃ place own, b = own.binding.under place.1 ∧ src.FirstMatch catalog key place own s := by
  obtain ⟨before, g, after, split, rfl, suits, first⟩ := (lists_generics acyclic).first b s mem
  obtain ⟨walked, place, others, earlier, later, walk, here, rfl⟩ := exists_split_of_flatMap split
  obtain ⟨earlier, later, generics, rfl, there⟩ := List.map_eq_append_iff.mp here
  obtain ⟨own, later, rfl, rfl, -⟩ := List.map_eq_cons_iff.mp there
  refine ⟨place, own, rfl, (suits_under place.1).mp suits,
    walked, others, earlier, later, walk, generics, fun g mem same s suits => ?_⟩
  rcases List.mem_append.mp mem with mem | mem
  · obtain ⟨place', there, among⟩ := List.mem_flatMap.mp mem
    refine first { g with binding := g.binding.under place'.1 } (List.mem_append_left _ ?_) same s
      ((suits_under place'.1).mpr suits)
    exact List.mem_flatMap.mpr ⟨place', there, List.mem_map.mpr ⟨g, among, rfl⟩⟩
  · exact first { g with binding := g.binding.under place.1 }
      (List.mem_append_right _ (List.mem_map.mpr ⟨g, mem, rfl⟩)) same s
      ((suits_under place.1).mpr suits)

end Source

end Injector
