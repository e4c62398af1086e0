/-
# Injector.Proofs.Catalog.Access -- members of ancestors that can be called

A component calls what it finds in its ancestors from outside, so a member that only
subclasses see cannot be called there.  When a parent is linked its direct bindings are
checked for that, and no others.  So without faults an answer names a hidden member of an
ancestor just when the ancestor has one that was not checked: a contribution, a pattern, or
an accessor through which a key is reached (`yields_callable_iff`).
-/
import Injector.Proofs.Catalog.Requests

namespace Injector

set_option autoImplicit false

/-- What requests are answered with: a member that provides the key, one of those that
contribute to it, or one whose pattern may fit. -/
inductive Catalog.Yields (c : Catalog) (b : MemberBinding) : Prop where
  | member {key : Key} {owner : ClassId} : c.lookup key = some ⟨.member b, owner⟩ → Yields c b
  | contribution {key : Key} {kind : ContainerKind} {bs : List MemberBinding} :
      c.container? key = some (.container kind bs) → b ∈ bs → Yields c b
  | pattern {g : GenericMember} : g ∈ c.generics → g.binding = b → Yields c b

namespace Source

variable (src : Source) (c : Catalog)

/-- The member can be called from outside of the classes that have it. -/
def Callable (m : MemberId) : Prop := (src.program.memberAt m).visibility ≠ .withinSubclasses

instance (m : MemberId) : Decidable (src.Callable m) := inferInstanceAs (Decidable (¬_))

/-- Contributions and patterns of ancestors can be called. -/
def SharesCallable : Prop :=
  ∀ place ∈ c.walk, place.1.isHere = false → ∀ m ∈ (src.scan place.2.own.cls).provides,
    src.bindsDirectly place.2.own.cls m = false → src.Callable m

/-- Accessors of ancestors can be called, if they are the nearest offers of their keys. -/
def WaysCallable : Prop :=
  ∀ key place b, c.Nearest key place b → place.1.isHere = false →
    place.2.own.passthroughs.get? key = some b → src.Callable b.member

instance : Decidable (src.SharesCallable c) := inferInstanceAs (Decidable (∀ place ∈ c.walk, _))

variable {src c} {id : ClassId} {key : Key} {place : FieldPath × Catalog} {b : MemberBinding}

/-! ## What was checked -/

theorem Checked.filed (checked : src.Checked place) : src.Filed place.2.own := by
  obtain ⟨⟨id, genuine⟩, -⟩ := checked
  rw [genuine.registered.1]
  exact filed_holdings id

/-- A direct binding of an ancestor can be called, or an accessor goes before it. -/
theorem Checked.callable_direct (checked : src.Checked place) (above : place.1.isHere = false)
    (direct : place.2.own.direct.get? key = some b)
    (noWay : place.2.own.passthroughs.get? key = none) : src.Callable b.member := by
  obtain ⟨own, fine⟩ := checked.2 above
  have unhidden := List.filterMap_eq_nil_iff.mp (List.append_eq_nil_iff.mp fine).2 (key, b)
    (Table.mem_rows_of_get? direct)
  intro hidden
  simp [hidden, Table.contains, noWay] at unhidden

theorem Checked.mem_accessors (checked : src.Checked place)
    (way : place.2.own.passthroughs.get? key = some b) :
    b.member ∈ (src.scan place.2.own.cls).accessors := by
  obtain ⟨⟨id, genuine⟩, -⟩ := checked
  obtain ⟨own, rfl, -⟩ := genuine.registered
  rw [own] at way
  exact mem_accessors_of_passthrough way

/-! ## Where answers are -/

theorem isHere_under (here : b.path = .here) (path : FieldPath) :
    (b.under path).path.isHere = path.isHere := by
  show (path ++ b.path).fields.isEmpty = path.fields.isEmpty
  rw [here, FieldPath.fields_append]
  simp [FieldPath.here]

theorem bindsDirectly_of_wholeKey? {cls : ClassId} {m : MemberId}
    (whole : src.wholeKey? cls m = some key) : src.bindsDirectly cls m = false := by
  simp [bindsDirectly, contributes_of_wholeKey? whole]

theorem Checked.registered (checked : src.Checked place) :
    src.Registered place.2.own.cls (src.scan place.2.own.cls).provides place.2.own := by
  obtain ⟨⟨id, genuine⟩, -⟩ := checked
  obtain ⟨-, rfl, registered⟩ := genuine.registered
  exact registered

/-- Whatever is not a direct binding can be an answer. -/
theorem Genuine.sharesCallable (genuine : src.Genuine id c)
    (callable : ∀ b, c.Yields b → b.path.isHere = false → src.Callable b.member) :
    src.SharesCallable c := by
  intro place there above m mem shared
  have checked := genuine.walk place there
  obtain ⟨whole, gathered, generic⟩ := checked.registered.entered m mem
  have far : ((src.ownBinding place.2.own.cls m).under place.1).path.isHere = false :=
    (isHere_under rfl place.1).trans above
  cases among : src.contributes m with
  | true =>
      obtain ⟨key, whole⟩ := whole among
      obtain ⟨kind, bs, answer, mem⟩ := Catalog.container?_of_gathers
        (fun place there => (genuine.walk place there).gathered) there (gathered key whole)
      exact callable _ (.contribution answer mem) far
  | false =>
      have pattern : src.isGeneric place.2.own.cls m = true := by
        simpa [bindsDirectly, among] using shared
      have listed : { src.ownPattern place.2.own.cls m with
          binding := (src.ownBinding place.2.own.cls m).under place.1 } ∈ c.generics :=
        Catalog.mem_generics_iff.mpr ⟨place, there, _, generic among pattern, rfl⟩
      exact callable _ (.pattern listed rfl) far

theorem Genuine.waysCallable (genuine : src.Genuine id c)
    (callable : ∀ b, c.Yields b → b.path.isHere = false → src.Callable b.member) :
    src.WaysCallable c := by
  intro key place b nearest above way
  have checked := genuine.walk place nearest.mem
  have here : b.path = .here :=
    congrArg MemberBinding.path (checked.filed.passthroughs key b way).1
  have found := Catalog.lookupIn_of_nearest nearest (checked.single key)
  exact callable (b.under place.1) (.member found) ((isHere_under here place.1).trans above)

theorem Genuine.callable_of_yields (genuine : src.Genuine id c) (shares : src.SharesCallable c)
    (ways : src.WaysCallable c) (yields : c.Yields b) (above : b.path.isHere = false) :
    src.Callable b.member := by
  cases yields with
  | @member key _ answer =>
      obtain ⟨place, own, nearest, same⟩ := Catalog.nearest_of_lookupIn answer
      cases same
      have checked := genuine.walk place nearest.mem
      rcases Catalog.offers_cases nearest.offered with ⟨-, way⟩ | ⟨direct, noWay⟩
      · have here : own.path = .here :=
          congrArg MemberBinding.path (checked.filed.passthroughs key own way).1
        rw [isHere_under here] at above
        exact ways key place own nearest above way
      · have here : own.path = .here :=
          congrArg MemberBinding.path (checked.filed.direct key own direct).1
        rw [isHere_under here] at above
        have callable : src.Callable own.member :=
          checked.callable_direct above direct (noWay (by rw [above]; rfl))
        exact callable
  | contribution answer mem =>
      obtain ⟨place, there, own, gathers, rfl⟩ := Catalog.gathers_of_container? answer mem
      have checked := genuine.walk place there
      obtain ⟨picked, whole⟩ := checked.registered.contribution _ own gathers
      obtain ⟨entry, present, among⟩ := gathers
      have here : own.path = .here :=
        congrArg MemberBinding.path (checked.filed.containers _ entry present own among)
      rw [isHere_under here] at above
      exact shares place there above own.member picked (bindsDirectly_of_wholeKey? whole)
  | pattern listed same =>
      obtain ⟨place, there, own, mem, rfl⟩ := Catalog.mem_generics_iff.mp listed
      obtain rfl := same
      have checked := genuine.walk place there
      have here : own.binding.path = .here :=
        congrArg MemberBinding.path (checked.filed.generics own mem).1
      obtain ⟨picked, generic⟩ := checked.registered.pattern own mem
      rw [isHere_under here] at above
      exact shares place there above own.binding.member picked (by simp [bindsDirectly, generic])

end Source

/-- Without faults, what requests are answered with can be called in the ancestors if and only
if contributions, patterns, and the accessors that keys are reached through can be called.  So
it is if all members of ancestors can be called that are not bound directly. -/
theorem yields_callable_iff (src : Source) (cls : ClassId) :
    let c := (src.collect cls {}).1
    c.faulty = false →
      ((∀ b, c.Yields b → b.path.isHere = false → src.Callable b.member) ↔
        src.SharesCallable c ∧ src.WaysCallable c) ∧
      (src.SharesCallable c →
        (∀ place ∈ c.walk, place.1.isHere = false →
          ∀ m ∈ (src.scan place.2.own.cls).accessors, src.Callable m) →
        ∀ b, c.Yields b → b.path.isHere = false → src.Callable b.member) := by
  intro c sound
  have genuine : src.Genuine cls c := Source.genuine_of_collect Source.Clean.empty rfl rfl sound
  constructor
  · constructor
    · intro callable
      exact ⟨genuine.sharesCallable callable, genuine.waysCallable callable⟩
    · rintro ⟨shares, ways⟩ b
      exact genuine.callable_of_yields shares ways
  · intro shares accessors b
    refine genuine.callable_of_yields shares ?_
    intro key place b nearest above way
    exact accessors place nearest.mem above b.member
      ((genuine.walk place nearest.mem).mem_accessors way)

/-- A member that only subclasses see, for a child of its component to reach. -/
def MemberDecl.hidden (m : MemberDecl) : MemberDecl := { m with visibility := .withinSubclasses }

/-- A binding of `Foo`, which an accessor goes before. -/
def MemberDecl.makeFoo : MemberDecl where
  name := "makeFoo"
  annotations := [.ofDecl .provides]
  returnType := { name := "Foo" }

/-- An accessor of `Foo`. -/
def MemberDecl.foo : MemberDecl where
  name := "foo"
  kind := .property
  isAbstract := true
  returnType := { name := "Foo" }

/-- A binding for each type, by a pattern. -/
def MemberDecl.emptyBox : MemberDecl where
  name := "emptyBox"
  annotations := [.ofDecl .provides]
  typeVars := [{ name := "T" }]
  returnType := { name := "Box", args := [.typeVar "T"] }

/-- The parent hides a binding behind an accessor that can be called. -/
theorem hiddenBinding_callable :
    let src := familyOf [MemberDecl.makeFoo.hidden, .foo, .partOfFoos "part"] []
    let c := (src.collect (.ofNat 1) {}).1
    c.faulty = false ∧ ∀ b, c.Yields b → b.path.isHere = false → src.Callable b.member := by
  intro src c
  have sound : c.faulty = false := by decide +kernel
  refine ⟨sound, (yields_callable_iff src (.ofNat 1) sound).2 ?_ ?_⟩
  · decide +kernel
  · decide +kernel

/-- A hidden contribution, pattern and accessor of a parent are reached without a fault. -/
theorem hiddenMembers_callable_refuted :
    let src := familyOf [(MemberDecl.partOfFoos "part").hidden, MemberDecl.emptyBox.hidden,
      MemberDecl.foo.hidden] []
    let c := (src.collect (.ofNat 1) {}).1
    c.faulty = false ∧ ∀ m ∈ [MemberId.ofNat 0, .ofNat 1, .ofNat 2],
      c.Yields { member := m, path := ⟨["p"]⟩ } ∧ ¬src.Callable m := by
  intro src c
  have part : c.container? (.of (.setOf { name := "Foo" })) =
      some (.container .set [{ member := .ofNat 0, path := ⟨["p"]⟩ }]) := by
    decide +kernel
  have box : c.generics = [{ src.ownPattern (.ofNat 0) (.ofNat 1) with
      binding := { member := .ofNat 1, path := ⟨["p"]⟩ } }] := by
    decide +kernel
  have foo : c.lookup (.of { name := "Foo" }) =
      some ⟨.member { member := .ofNat 2, path := ⟨["p"]⟩ }, .ofNat 0⟩ := by
    decide +kernel
  have listed := List.mem_singleton_self { src.ownPattern (.ofNat 0) (.ofNat 1) with
    binding := { member := .ofNat 1, path := ⟨["p"]⟩ } }
  rw [← box] at listed
  refine ⟨by decide +kernel, ?_⟩
  simp only [List.forall_mem_cons]
  refine ⟨⟨.contribution part (List.mem_singleton_self _), ?_⟩, ⟨.pattern listed rfl, ?_⟩,
    ⟨.member foo, ?_⟩, nofun⟩
  all_goals decide +kernel

end Injector
