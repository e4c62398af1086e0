/-
# Injector.Proofs.Catalog.Requests -- what a catalog answers with

A request for a member is answered by the nearest component that offers the key
(`Catalog.Nearest`), and a request for a set or a map by all that contribute to it.

So what contributes reaches those who ask for the whole, unless an ancestor offers the whole
itself: a member goes before contributions, however near they are (`contribution_chosen`).
-/
import Injector.Proofs.Catalog.Registering
import Injector.Proofs.Generation.Sessions

namespace Injector

set_option autoImplicit false

theorem Ty.setOf_ne_mapOf (element key value : Ty) : Ty.setOf element ≠ .mapOf key value := by
  simp [Ty.setOf, Ty.mapOf]

namespace Catalog

variable {c : Catalog} {key : Key} {place : FieldPath × Catalog} {b : MemberBinding}
  {walk before after : List (FieldPath × Catalog)}

/-! ## Members -/

/-- Going through `walk`, `place` is the first to offer the key. -/
def NearestIn (walk : List (FieldPath × Catalog)) (key : Key) (place : FieldPath × Catalog)
    (b : MemberBinding) : Prop :=
  ∃ before after, walk = before ++ place :: after ∧
    (∀ p ∈ before, p.2.offers key (!p.1.isHere) = none) ∧
    place.2.offers key (!place.1.isHere) = some b

/-- No component nearer than `place` offers the key. -/
def Nearest (c : Catalog) (key : Key) (place : FieldPath × Catalog) (b : MemberBinding) : Prop :=
  NearestIn c.walk key place b

theorem NearestIn.mem (nearest : NearestIn walk key place b) : place ∈ walk := by
  obtain ⟨before, after, rfl, -, -⟩ := nearest
  simp

theorem NearestIn.offered (nearest : NearestIn walk key place b) :
    place.2.offers key (!place.1.isHere) = some b := by
  obtain ⟨-, -, -, -, offered⟩ := nearest
  exact offered

/-- What is offered is an accessor seen from below, or a binding that no accessor goes before. -/
theorem offers_cases {fromBelow : Bool} (offered : c.offers key fromBelow = some b) :
    (fromBelow = true ∧ c.own.passthroughs.get? key = some b) ∨
      c.own.direct.get? key = some b ∧
        (fromBelow = true → c.own.passthroughs.get? key = none) := by
  cases fromBelow with
  | false => exact .inr ⟨offered, nofun⟩
  | true =>
      rcases Option.or_eq_some_iff.mp offered with way | ⟨noWay, direct⟩
      · exact .inl ⟨rfl, way⟩
      · exact .inr ⟨direct, fun _ => noWay⟩

/-- Some component is the first to offer the key, or none offers it. -/
theorem exists_nearest (walk : List (FieldPath × Catalog)) (key : Key) :
    (∃ place b, NearestIn walk key place b) ∨
      ∀ place ∈ walk, place.2.offers key (!place.1.isHere) = none := by
  induction walk with
  | nil => exact .inr nofun
  | cons first rest ih =>
      cases offered : first.2.offers key (!first.1.isHere) with
      | some b => exact .inl ⟨first, b, [], rest, rfl, nofun, offered⟩
      | none =>
          refine ih.imp ?_ fun silent => List.forall_mem_cons.mpr ⟨offered, silent⟩
          rintro ⟨place, b, before, after, rfl, silent, found⟩
          exact ⟨place, b, first :: before, after, rfl, List.forall_mem_cons.mpr ⟨offered, silent⟩,
            found⟩

theorem lookupIn_of_silent (silent : ∀ place ∈ walk, place.2.offers key (!place.1.isHere) = none) :
    lookupIn key walk = none := by
  induction walk with
  | nil => rfl
  | cons first rest ih =>
      obtain ⟨here, later⟩ := List.forall_mem_cons.mp silent
      simp only [lookupIn, here]
      exact ih later

/-- The nearest offer is found, if it is the only one of its component. -/
theorem lookupIn_of_nearest (nearest : NearestIn walk key place b)
    (single : place.2.own.duplicated.contains key = false) :
    lookupIn key walk = some ⟨.member (b.under place.1), place.2.own.cls⟩ := by
  obtain ⟨before, after, rfl, silent, offered⟩ := nearest
  induction before with
  | nil => simp only [List.nil_append, lookupIn, offered, single, Bool.false_eq_true, if_false]
  | cons first rest ih =>
      obtain ⟨here, later⟩ := List.forall_mem_cons.mp silent
      simp only [List.cons_append, lookupIn, here]
      exact ih later

/-- What is found is the nearest offer. -/
theorem nearest_of_lookupIn {found : Found} (answer : lookupIn key walk = some found) :
    ∃ place b, NearestIn walk key place b ∧
      found = ⟨.member (b.under place.1), place.2.own.cls⟩ := by
  rcases exists_nearest walk key with ⟨place, b, nearest⟩ | silent
  · refine ⟨place, b, nearest, ?_⟩
    cases duplicated : place.2.own.duplicated.contains key with
    | false => exact Option.some.inj (answer.symm.trans (lookupIn_of_nearest nearest duplicated))
    | true =>
        -- the walk stops at an offer that is made twice
        obtain ⟨before, after, rfl, silent, offered⟩ := nearest
        induction before with
        | nil =>
            simp only [List.nil_append, lookupIn, offered, duplicated, if_true] at answer
            cases answer
        | cons first rest ih =>
            obtain ⟨here, later⟩ := List.forall_mem_cons.mp silent
            simp only [List.cons_append, lookupIn, here] at answer
            exact ih answer later
  · cases answer.symm.trans (lookupIn_of_silent silent)

/-! ## Patterns -/

theorem mem_generics_iff {g : GenericMember} : g ∈ c.generics ↔ ∃ place ∈ c.walk,
    ∃ own ∈ place.2.own.generics, g = { own with binding := own.binding.under place.1 } := by
  simp only [generics, List.mem_flatMap, List.mem_map, eq_comm]

/-! ## Contributions -/

/-- What a request for a set or a map is answered with comes from components on the walk. -/
theorem gathers_of_container? {kind : ContainerKind} {bs : List MemberBinding}
    (answer : c.container? key = some (.container kind bs)) (mem : b ∈ bs) :
    ∃ place ∈ c.walk, ∃ own, place.2.own.Gathers key own ∧ b = own.under place.1 := by
  simp only [container?] at answer
  split at answer
  · cases answer
  · cases answer
    obtain ⟨⟨path, entry⟩, found, among⟩ := List.mem_flatMap.mp mem
    simp only [contributionsIn, List.mem_filterMap, Option.map_eq_some_iff] at found
    obtain ⟨place, there, entry, present, same⟩ := found
    cases same
    simp only at among
    split at among
    · obtain ⟨own, contributed, rfl⟩ := List.mem_map.mp among
      exact ⟨place, there, own, ⟨entry, present, contributed⟩, rfl⟩
    · cases among

/-- All that contribute to a set or a map are in the answer to a request for it. -/
theorem container?_of_gathers (gathered : ∀ place ∈ c.walk, Source.Gathered place.2.own)
    (there : place ∈ c.walk) (gathers : place.2.own.Gathers key b) :
    ∃ kind bs, c.container? key = some (.container kind bs) ∧ b.under place.1 ∈ bs := by
  obtain ⟨entry, present, mem⟩ := gathers
  have found : (place.1, entry) ∈ contributionsIn key c.walk :=
    List.mem_filterMap.mpr ⟨place, there, by simp only [present, Option.map_some]⟩
  -- sets and maps have different keys
  have alike : ∀ row ∈ contributionsIn key c.walk, ∀ other ∈ contributionsIn key c.walk,
      row.2.kind = other.2.kind := by
    have kind (row : FieldPath × Contributions) (among : row ∈ contributionsIn key c.walk) :
        (row.2.kind = .set ∧ ∃ element, key.ty = .setOf element) ∨
          (row.2.kind = .map ∧ ∃ first second, key.ty = .mapOf first second) := by
      simp only [contributionsIn, List.mem_filterMap, Option.map_eq_some_iff] at among
      obtain ⟨place, there, entry, present, rfl⟩ := among
      exact gathered place there key entry present
    intro row among other among'
    rcases kind row among with ⟨set, element, ty⟩ | ⟨map, first, second, ty⟩ <;>
      rcases kind other among' with ⟨set', element', ty'⟩ | ⟨map', first', second', ty'⟩
    · rw [set, set']
    · exact absurd (ty.symm.trans ty') (Ty.setOf_ne_mapOf _ _ _)
    · exact absurd (ty'.symm.trans ty) (Ty.setOf_ne_mapOf _ _ _)
    · rw [map, map']
  simp only [container?]
  split
  · rename_i none
    rw [none] at found
    cases found
  · rename_i path first rest some
    refine ⟨_, _, rfl, List.mem_flatMap.mpr ⟨(place.1, entry), found, ?_⟩⟩
    have same : entry.kind = first.kind :=
      alike _ found (path, first) (some ▸ List.mem_cons_self)
    simp only [if_pos same]
    exact List.mem_map_of_mem mem

end Catalog

namespace Source

variable {src : Source} {cls : ClassId} {id : ClassId} {c : Catalog} {key : Key}
  {place : FieldPath × Catalog} {b : MemberBinding}

theorem Checked.gathered (checked : src.Checked place) : Gathered place.2.own := by
  obtain ⟨⟨id, genuine⟩, -⟩ := checked
  rw [genuine.registered.1]
  exact gathered_holdings id

theorem Checked.single (checked : src.Checked place) (key : Key) :
    place.2.own.duplicated.contains key = false := by
  obtain ⟨⟨id, genuine⟩, -⟩ := checked
  rw [genuine.registered.2.2.single]
  rfl

/-- Without faults the nearest offer is chosen. -/
theorem Genuine.choose_of_nearest (genuine : src.Genuine id c) (nearest : c.Nearest key place b) :
    (src.choose c key).1 = .binding (.member (b.under place.1)) := by
  have found := Catalog.lookupIn_of_nearest nearest
    ((genuine.walk place nearest.mem).single key)
  simp only [choose, Catalog.lookup, found]

/-- What nobody offers and somebody contributes to is chosen as a whole. -/
theorem Genuine.choose_of_gathers (genuine : src.Genuine id c)
    (silent : ∀ place ∈ c.walk, place.2.offers key (!place.1.isHere) = none)
    (there : place ∈ c.walk) (gathers : place.2.own.Gathers key b) :
    ∃ kind bs, (src.choose c key).1 = .binding (.container kind bs) ∧ b.under place.1 ∈ bs := by
  obtain ⟨kind, bs, answer, mem⟩ := Catalog.container?_of_gathers
    (fun place there => (genuine.walk place there).gathered) there gathers
  refine ⟨kind, bs, ?_, mem⟩
  simp only [choose, Catalog.lookup, Catalog.lookupIn_of_silent silent, answer]

end Source

/-! ## Members and contributions -/

namespace Catalog

variable {c : Catalog} {key : Key}

theorem mem_walk_here (c : Catalog) : (.here, c) ∈ c.walk :=
  List.mem_append_left _ (List.mem_singleton_self _)

/-- The paths to ancestors are not empty. -/
theorem walk_cases (c : Catalog) :
    ∀ place ∈ c.walk, place = (.here, c) ∨ place.1.isHere = false := by
  apply walk_induction
  · exact .inl rfl
  · intro place _ next linked
    obtain ⟨row, -, rfl⟩ := List.mem_map.mp linked
    right
    simp [FieldPath.isHere, FieldPath.push]

/-- An ancestor offers the key by itself. -/
def OfferedAbove (c : Catalog) (key : Key) : Prop :=
  ∃ place ∈ c.walk, place.1.isHere = false ∧ place.2.offers key true ≠ none

instance (c : Catalog) (key : Key) : Decidable (c.OfferedAbove key) :=
  inferInstanceAs (Decidable (∃ place ∈ c.walk, _))

/-- What the component does not bind itself is offered by an ancestor, or by nobody. -/
theorem nearest_of_offeredAbove (apart : c.own.direct.get? key = none) :
    (c.OfferedAbove key → ∃ place b, c.Nearest key place b ∧ place.1.isHere = false) ∧
      (¬c.OfferedAbove key → ∀ place ∈ c.walk, place.2.offers key (!place.1.isHere) = none) := by
  -- the component itself offers what it binds
  have own : c.offers key (!FieldPath.here.isHere) = none := apart
  constructor
  · rintro ⟨place, there, above, offered⟩
    rcases exists_nearest c.walk key with ⟨nearest, b, first⟩ | silent
    · refine ⟨nearest, b, first, (c.walk_cases nearest first.mem).resolve_left ?_⟩
      rintro rfl
      cases own.symm.trans first.offered
    · have unoffered := silent place there
      rw [above] at unoffered
      exact absurd unoffered offered
  · intro unoffered place there
    rcases c.walk_cases place there with rfl | above
    · exact own
    · rw [above]
      exact Decidable.byContradiction fun offered => unoffered ⟨place, there, above, offered⟩

end Catalog

/-- What contributes is filed, and reaches those who ask for the whole, unless an ancestor
offers the whole by itself: then the nearest such offer is chosen. -/
theorem contribution_chosen (src : Source) (cls : ClassId) :
    let c := (src.collect cls {}).1
    c.faulty = false →
      ∀ m ∈ (src.scan cls).provides, src.contributes m = true →
        ∃ key, src.wholeKey? cls m = some key ∧ c.own.Gathers key (src.ownBinding cls m) ∧
          (c.own.direct.get? key = none →
            (¬c.OfferedAbove key → ∃ kind bs, (src.choose c key).1 = .binding (.container kind bs) ∧
              src.ownBinding cls m ∈ bs) ∧
            (c.OfferedAbove key → ∃ place b, c.Nearest key place b ∧ place.1.isHere = false ∧
              (src.choose c key).1 = .binding (.member (b.under place.1)))) := by
  intro c sound m mem contributes
  have genuine : src.Genuine cls c := Source.genuine_of_collect Source.Clean.empty rfl rfl sound
  obtain ⟨whole, gathered, -⟩ := genuine.registered.2.2.entered m mem
  obtain ⟨key, whole⟩ := whole contributes
  have gathers := gathered key whole
  refine ⟨key, whole, gathers, fun apart => ?_⟩
  obtain ⟨above, nowhere⟩ := Catalog.nearest_of_offeredAbove apart
  constructor
  · intro unoffered
    exact genuine.choose_of_gathers (nowhere unoffered) c.mem_walk_here gathers
  · intro offered
    obtain ⟨place, b, nearest, higher⟩ := above offered
    exact ⟨place, b, nearest, higher, genuine.choose_of_nearest nearest⟩

/-- A component `P` with the first members, and a component `C` below it with the others. -/
def familyOf (above below : List MemberDecl) : Source where
  program :=
    { classes := [
        { name := "P", isAbstract := true, annotations := [.ofDecl .component], ctors := [{}],
          members := (List.range above.length).map .ofNat },
        { name := "C", isAbstract := true, annotations := [.ofDecl .component],
          ctors := [{ params := [.parentP] }],
          members := (List.range below.length).map fun n => .ofNat (above.length + n) },
        { name := "Foo" }]
      members := above.map ({ · with owner := some (.ofNat 0) }) ++
        below.map ({ · with owner := some (.ofNat 1) }) }
  options := {}

/-- A contribution of one `Foo` to the set of them. -/
def MemberDecl.partOfFoos (name : String) (visibility : Visibility := .everywhere) :
    MemberDecl where
  name := name
  visibility := visibility
  annotations := [.ofDecl .provides, .ofDecl .intoSet]
  returnType := { name := "Foo" }

/-- An accessor of the set of all `Foo`. -/
def MemberDecl.allFoos : MemberDecl where
  name := "all"
  kind := .property
  isAbstract := true
  returnType := .setOf { name := "Foo" }

/-- A parent and its child contribute to one set. -/
theorem sharedSet_contribution :
    let src := familyOf [.partOfFoos "old"] [.partOfFoos "new"]
    let c := (src.collect (.ofNat 1) {}).1
    c.faulty = false ∧ ∃ kind bs,
      (src.choose c (.of (.setOf { name := "Foo" }))).1 = .binding (.container kind bs) ∧
        src.ownBinding (.ofNat 1) (.ofNat 1) ∈ bs := by
  intro src c
  have sound : c.faulty = false := by decide +kernel
  obtain ⟨key, whole, -, reached⟩ :=
    contribution_chosen src (.ofNat 1) sound (.ofNat 1) (by decide +kernel) (by decide +kernel)
  have same : src.wholeKey? (.ofNat 1) (.ofNat 1) = some (.of (.setOf { name := "Foo" })) := by
    decide +kernel
  cases whole.symm.trans same
  exact ⟨sound, (reached (by decide +kernel)).1 (by decide +kernel)⟩

/-- The child contributes to a set, and is given the one that its parent has. -/
theorem parentSet_contribution_refuted :
    let src := familyOf [.partOfFoos "old", .allFoos] [.partOfFoos "new"]
    let c := (src.collect (.ofNat 1) {}).1
    c.faulty = false ∧
      c.own.Gathers (.of (.setOf { name := "Foo" })) (src.ownBinding (.ofNat 1) (.ofNat 2)) ∧
      ¬∃ kind bs, (src.choose c (.of (.setOf { name := "Foo" }))).1 =
          .binding (.container kind bs) ∧ src.ownBinding (.ofNat 1) (.ofNat 2) ∈ bs := by
  intro src c
  have chosen : (src.choose c (.of (.setOf { name := "Foo" }))).1 =
      .binding (.member { member := .ofNat 1, path := ⟨["p"]⟩ }) := by
    decide +kernel
  refine ⟨by decide +kernel, ⟨⟨.set, .ofNat 2, [{ member := .ofNat 2 }]⟩, ?_, ?_⟩, ?_⟩
  · decide +kernel
  · decide +kernel
  · rintro ⟨kind, bs, whole, -⟩
    cases chosen.symm.trans whole

end Injector
