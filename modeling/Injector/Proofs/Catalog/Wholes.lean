/-
# Injector.Proofs.Catalog.Wholes -- sets and maps have all that is contributed

A request for a set or a map is answered with the contributions of all components on the
walk, each under the path to the component (`Catalog.container?_eq`).  That takes for granted
that they agree on the kind of container, and they do: the kind is that of the type that is
asked for, in every catalog that is collected, whatever is wrong with it (`Sorts`).

A component that stands for itself as its own parent contributes nothing.  All others
contribute what was picked for the key, in order (`wholes_gathered`).
-/
import Injector.Proofs.Catalog.Routes
import Injector.Proofs.Catalog.Tables

namespace Injector

set_option autoImplicit false

/-- Whatever is contributed to a key makes the container that its type says. -/
def Holdings.Sorts (own : Holdings) : Prop :=
  ∀ key entry, own.containers.get? key = some entry →
    key.wholeKind? = some entry.kind ∧ entry.contributors ≠ []

namespace Catalog

variable {c : Catalog} {key : Key} {kind : ContainerKind} {walk : List (FieldPath × Catalog)}

/-- All that is contributed along a walk, each under the path to the one that contributes. -/
def gatheredIn (key : Key) (walk : List (FieldPath × Catalog)) : List MemberBinding :=
  walk.flatMap fun (path, c) => (c.own.contributors key).map (·.under path)

theorem gatheredIn_cons (place : FieldPath × Catalog) (rest : List (FieldPath × Catalog)) :
    gatheredIn key (place :: rest) =
      (place.2.own.contributors key).map (·.under place.1) ++ gatheredIn key rest := rfl

theorem kind_of_contributionsIn (sorts : ∀ place ∈ walk, place.2.own.Sorts) :
    ∀ row ∈ contributionsIn key walk, key.wholeKind? = some row.2.kind := by
  intro row mem
  obtain ⟨place, there, same⟩ := List.mem_filterMap.mp mem
  obtain ⟨entry, present, rfl⟩ := Option.map_eq_some_iff.mp same
  exact (sorts place there key entry present).1

theorem contributionsIn_eq_nil_iff (sorts : ∀ place ∈ walk, place.2.own.Sorts) :
    contributionsIn key walk = [] ↔ ∀ place ∈ walk, place.2.own.contributors key = [] := by
  rw [contributionsIn, List.filterMap_eq_nil_iff]
  refine forall₂_congr fun place there => ?_
  rw [Option.map_eq_none_iff, Holdings.contributors]
  cases present : place.2.own.containers.get? key with
  | none => simp
  | some entry => simpa using (sorts place there key entry present).2

/-- Where all make one kind of container, nothing that is contributed is passed over. -/
theorem flatMap_contributionsIn
    (same : ∀ row ∈ contributionsIn key walk, row.2.kind = kind) :
    ((contributionsIn key walk).flatMap fun (path, entry) =>
      if entry.kind = kind then entry.contributors.map (·.under path) else []) =
      gatheredIn key walk := by
  induction walk with
  | nil => rfl
  | cons first rest ih =>
      rw [gatheredIn_cons, Holdings.contributors]
      cases present : first.2.own.containers.get? key with
      | none =>
          have skip : contributionsIn key (first :: rest) = contributionsIn key rest := by
            simp [contributionsIn, present]
          rw [skip] at same ⊢
          exact ih same
      | some entry =>
          have take : contributionsIn key (first :: rest) =
              (first.1, entry) :: contributionsIn key rest := by
            simp [contributionsIn, present]
          rw [take] at same ⊢
          obtain ⟨here, later⟩ := List.forall_mem_cons.mp same
          have here : entry.kind = kind := here
          rw [List.flatMap_cons, ih later]
          simp only [if_pos here, Option.map_some, Option.getD_some]

/-- The answer to a request for a set or a map is all that is contributed along the walk. -/
theorem container?_eq (sorts : ∀ place ∈ c.walk, place.2.own.Sorts) (key : Key) :
    (c.container? key = none ↔ ∀ place ∈ c.walk, place.2.own.contributors key = []) ∧
      ∀ found, c.container? key = some found → ∃ kind, key.wholeKind? = some kind ∧
        found = .container kind (gatheredIn key c.walk) := by
  have kinds : ∀ row ∈ contributionsIn key c.walk, key.wholeKind? = some row.2.kind :=
    kind_of_contributionsIn sorts
  rw [← contributionsIn_eq_nil_iff sorts]
  cases split : contributionsIn key c.walk with
  | nil =>
      have unanswered : c.container? key = none := by simp only [container?, split]
      rw [unanswered]
      refine ⟨⟨fun _ => rfl, fun _ => rfl⟩, fun found answer => ?_⟩
      cases answer
  | cons first rest =>
      have here : key.wholeKind? = some first.2.kind :=
        kinds first (split ▸ List.mem_cons_self)
      have same : ∀ row ∈ contributionsIn key c.walk, row.2.kind = first.2.kind :=
        fun row mem => Option.some.inj ((kinds row mem).symm.trans here)
      have whole : c.container? key =
          some (.container first.2.kind (gatheredIn key c.walk)) := by
        rw [← flatMap_contributionsIn same]
        simp only [container?, split]
      rw [whole]
      refine ⟨iff_of_false (Option.some_ne_none _) (List.cons_ne_nil _ _), fun found answer => ?_⟩
      exact ⟨first.2.kind, here, (Option.some.inj answer).symm⟩

end Catalog

namespace Source

variable {src : Source} {own : Holdings} {cls : ClassId} {met : List MemberId}

theorem Tabled.sorts (tabled : src.Tabled cls met own) : own.Sorts := by
  intro key entry present
  rw [tabled.containers] at present
  refine ⟨wholeKind_of_wholeRow? present, ?_⟩
  obtain ⟨first, head, rfl⟩ := Option.map_eq_some_iff.mp present
  simpa using List.ne_nil_of_mem (List.mem_of_mem_head? head)

variable (src) in
/-- It is all that the component declares, or nothing if it stands for itself as its own parent. -/
def Collected (own : Holdings) : Prop :=
  own = { cls := own.cls } ∨ own = (src.holdings own.cls).1

theorem Collected.sorts (collected : src.Collected own) : own.Sorts := by
  rcases collected with alone | whole
  · rw [alone]
    exact nofun
  · rw [whole]
    exact (src.tabled_holdings own.cls).sorts

variable (src) in
theorem collected_holdings (cls : ClassId) : src.Collected (src.holdings cls).1 :=
  .inr (by rw [cls_holdings])

variable (src) in
/-- All along the walk of what is collected there is nothing else. -/
theorem collected_walk (history : List (ClassId × Log)) (cls : ClassId) (log : Log) :
    ∀ place ∈ (src.collect cls { store := src.storeAfter history, log }).1.walk,
      src.Collected place.2.own :=
  (everywhere_collectTo src.collected_holdings (fun _ => .inl rfl) _ cls _
    (src.storeAfter_everywhere src.collected_holdings (fun _ => .inl rfl) history)).1.walk

/-- What a component contributes has the path of the component itself. -/
theorem Collected.path_of_contributors (collected : src.Collected own) {key : Key} :
    ∀ b ∈ own.contributors key, b.path = .here := by
  rcases collected with alone | whole
  · rw [alone]
    exact nofun
  · rw [whole, (src.tabled_holdings own.cls).contributors]
    simp [ownBinding]

end Source

/-- A request for a set or a map is answered with all that the components on the walk
contribute to it, in the order in which it was picked, each under the path to the component.
There is no answer only if nobody contributes; and nobody disagrees with the type that is
asked for on the kind of container. -/
theorem wholes_gathered (src : Source) (history : List (ClassId × Log)) (cls : ClassId)
    (log : Log) (key : Key) :
    let c := (src.collect cls { store := src.storeAfter history, log }).1
    (c.container? key = none ↔ ∀ place ∈ c.walk, place.2.own.contributors key = []) ∧
    (∀ found, c.container? key = some found → ∃ kind, key.wholeKind? = some kind ∧
      found = .container kind (c.walk.flatMap fun (path, d) =>
        (d.own.contributors key).map fun b => { b with path })) ∧
    (∀ place ∈ c.walk, place.2.own = { cls := place.2.own.cls } ∨
      place.2.own = (src.holdings place.2.own.cls).1 ∧ place.2.own.contributors key =
        (src.wholeMembers place.2.own.cls key (src.scan place.2.own.cls).provides).map
          (src.ownBinding place.2.own.cls)) ∧
    (∀ row ∈ Catalog.contributionsIn key c.walk, key.wholeKind? = some row.2.kind) ∧
    ∀ id before m after, (src.scan id).provides = before ++ m :: after →
      src.wholeKey? id m = some key →
        let own := (Source.fileAll src.register (src.blank id) before).1
        (∀ entry, own.containers.get? key = some entry → entry.kind = src.wholeKind m) ∧
          (Source.contribute own key (src.wholeKind m) (src.ownBinding id m)).2 = [] := by
  intro c
  have collected : ∀ place ∈ c.walk, src.Collected place.2.own := src.collected_walk history cls log
  have sorts := fun place there => (collected place there).sorts
  obtain ⟨nothing, all⟩ := c.container?_eq sorts key
  refine ⟨nothing, fun found answer => ?_, fun place there => ?_,
    Catalog.kind_of_contributionsIn sorts, fun id before m after picked whole => ?_⟩
  · obtain ⟨kind, ofType, rfl⟩ := all found answer
    refine ⟨kind, ofType, congrArg (Binding.container kind) ?_⟩
    refine List.flatMap_congr fun place there => List.map_congr_left fun b mem => ?_
    exact Catalog.under_eq ((collected place there).path_of_contributors b mem) place.1
  · refine (collected place there).imp_right fun whole => ⟨whole, ?_⟩
    have tabled := src.tabled_holdings place.2.own.cls
    rw [← whole] at tabled
    exact tabled.contributors key
  · have tabled := src.tabled_fileAll id before
    refine ⟨fun _ => tabled.kind_of_present whole, ?_⟩
    rw [Source.contribute_of_kind fun _ => tabled.kind_of_present whole]

/-- A component and its parent contribute to one set, the component two values. -/
theorem familyParts_gathered :
    let src := familyOf [.partOfFoos "old"] [.partOfFoos "new", .partOfFoos "newer"]
    let c := (src.collect (.ofNat 1) {}).1
    c.container? (.of (.setOf { name := "Foo" })) = some (.container .set
      [{ member := .ofNat 1 }, { member := .ofNat 2 }, { member := .ofNat 0, path := ⟨["p"]⟩ }]) := by
  intro src c
  obtain ⟨none, all, -⟩ :=
    wholes_gathered src [] (.ofNat 1) {} (.of (.setOf { name := "Foo" }))
  cases answer : c.container? (.of (.setOf { name := "Foo" })) with
  | none =>
      have nothing := none.mp answer _ c.mem_walk_here
      exact absurd nothing (by decide +kernel)
  | some found =>
      obtain ⟨kind, ofType, rfl⟩ := all found answer
      obtain rfl : kind = .set := by
        cases ofType
        rfl
      decide +kernel

end Injector
