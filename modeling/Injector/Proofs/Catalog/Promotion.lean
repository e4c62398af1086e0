/-
# Injector.Proofs.Catalog.Promotion -- members that take over from bindings they override

A scan passes over a binding that is overridden, and picks the member that overrides it in its
place (`promoted_scan`), although that is not annotated as a binding.  What it is filed as is
read off its own annotations (`Tabled.files_iff`).

So it is filed as what it overrides would have been just if the two declarations say the same
of it, for instance if they agree on what they contribute to, on scope and on qualifier
(`promoted_filed`).  The annotations of the overridden member have no part in that
(`droppedSet_promoted_refuted`).
-/
import Injector.Proofs.Catalog.Duplicates
import Injector.Proofs.Catalog.Overriding

namespace Injector

set_option autoImplicit false

/-- What a member is to a component that binds it. -/
inductive Role where
  | direct (key : Key)
  /-- It contributes to the set or the map. -/
  | part (kind : ContainerKind) (whole : Key)
  | pattern (ty : Ty) (qualifier : Option AnnotationUse)
  deriving DecidableEq

/-- How a member is filed. -/
structure Filing where
  role : Role
  /-- The component that keeps the value. -/
  keeper : Option ClassId
  deriving DecidableEq

/-- The member is found in that role, in the table for it. -/
def Holdings.FilesAs (own : Holdings) (m : MemberId) (f : Filing) : Prop :=
  let b : MemberBinding := { member := m, scopedIn := f.keeper }
  match f.role with
  | .direct key => own.bound? key = some b
  | .part kind whole =>
    ∃ entry, own.containers.get? whole = some entry ∧ entry.kind = kind ∧ b ∈ entry.contributors
  | .pattern ty qualifier => ⟨b, ty, qualifier⟩ ∈ own.generics

namespace Source

variable (src : Source)

/-- The role that the declaration gives to the member, if it has a place for it. -/
def role? (cls : ClassId) (m : MemberId) : Option Role :=
  if src.contributes m then (src.wholeKey? cls m).map (.part (src.wholeKind m))
  else if src.isGeneric cls m then
    some (.pattern (src.program.returnTypeIn m cls) (src.ownQualifier cls m))
  else some (.direct (src.directKey cls m))

/-- What the member is filed as if it is picked; one without a value is not. -/
def filing? (cls : ClassId) (m : MemberId) : Option Filing :=
  if (src.program.memberAt m).returnType.isUnit then none
  else (src.role? cls m).map fun role => ⟨role, (src.ownBinding cls m).scopedIn⟩

/-- In `cls` the member `m` takes over from the binding `o`: it is met first, nothing else
overrides either of them, and no other binding asks for the same key. -/
structure TakesOver (cls : ClassId) (m o : MemberId) : Prop where
  inherited : o ∈ src.program.chainMembers cls
  binding : (src.program.memberAt o).isBinding = true
  overrides : src.program.overrides m o = true
  unmarked : (src.program.memberAt m).isBinding = false
  concrete : (src.program.memberAt m).isAbstract = false
  visible : (src.program.memberAt m).visibility ≠ .withinOwner
  returns : src.program.returnTypeIn m cls = src.program.returnTypeIn o cls
  earlier : ∀ row ∈ (src.program.chainMembers cls).zipIdx, row.1 = o →
    m ∈ (src.program.chainMembers cls).take row.2
  only : ∀ n ∈ src.program.chainMembers cls, src.program.overrides n o = true → n = m
  last : ∀ n ∈ src.program.chainMembers cls, src.program.overrides n m = false
  single : src.bindsDirectly cls m = true → ∀ n ∈ (src.scan cls).provides,
    src.bindsDirectly cls n = true → src.directKey cls n = src.directKey cls m → n = m

/-- The two declarations say the same of how their members are bound. -/
structure MarkedAlike (m o : MemberId) : Prop where
  toMap : (src.program.memberAt m).contributesToMap = (src.program.memberAt o).contributesToMap
  toSet : (src.program.memberAt m).contributesToSet = (src.program.memberAt o).contributesToSet
  scope : (src.scope (src.program.memberAt m).annotations).1 =
    (src.scope (src.program.memberAt o).annotations).1
  qualifiers : src.qualifiers (src.program.memberAt m).annotations =
    src.qualifiers (src.program.memberAt o).annotations
  typeVars : (src.program.memberAt m).typeVars.isEmpty = (src.program.memberAt o).typeVars.isEmpty
  valued : (src.program.memberAt m).returnType.isUnit = (src.program.memberAt o).returnType.isUnit

variable {src} {cls : ClassId} {m n o : MemberId} {met : List MemberId} {s : Scan}
  {own : Holdings}

/-! ## What is picked -/

variable (src) in
/-- The binding was not taken, and the member that takes over is picked where that was met. -/
structure Promoting (cls : ClassId) (m o : MemberId) (met : List MemberId) (s : Scan) : Prop where
  among : s.seen ⊆ src.program.chainMembers cls
  picked : ∀ n, n ∈ s.provides ∨ n ∈ s.accessors → n ∈ s.seen
  standing : m ∈ met → m ∈ s.seen
  passed : o ∉ s.seen
  once : s.provides.count m ≤ 1
  valued : m ∈ s.provides → (src.program.memberAt m).returnType.isUnit = false
  promoted : o ∈ met → (src.program.memberAt m).returnType.isUnit = false → m ∈ s.provides

theorem Promoting.pass (promoting : src.Promoting cls m o met s) (apart : n ≠ m)
    (promoted : n = o → (src.program.memberAt m).returnType.isUnit = false → m ∈ s.provides) :
    src.Promoting cls m o (met ++ [n]) s where
  among := promoting.among
  picked := promoting.picked
  standing mem := by
    rcases List.mem_append.mp mem with mem | only
    · exact promoting.standing mem
    · exact absurd (List.mem_singleton.mp only).symm apart
  passed := promoting.passed
  once := promoting.once
  valued := promoting.valued
  promoted mem := by
    rcases List.mem_append.mp mem with mem | only
    · exact promoting.promoted mem
    · exact promoted (List.mem_singleton.mp only).symm

theorem Promoting.take (promoting : src.Promoting cls m o met s)
    (inside : n ∈ src.program.chainMembers cls) (apart : n ≠ o) :
    src.Promoting cls m o (met ++ [n]) { s with seen := s.seen ++ [n] } where
  among := List.append_subset.mpr ⟨promoting.among, by simpa using inside⟩
  picked k picked := List.mem_append_left _ (promoting.picked k picked)
  standing mem := by
    rcases List.mem_append.mp mem with mem | only
    · exact List.mem_append_left _ (promoting.standing mem)
    · exact List.mem_append_right _ only
  passed mem := by
    rcases List.mem_append.mp mem with mem | only
    · exact promoting.passed mem
    · exact apart (List.mem_singleton.mp only).symm
  once := promoting.once
  valued := promoting.valued
  promoted mem := by
    rcases List.mem_append.mp mem with mem | only
    · exact promoting.promoted mem
    · exact absurd (List.mem_singleton.mp only).symm apart

/-- A member that stands is picked, `m` no second time. -/
theorem Promoting.scanProvides (promoting : src.Promoting cls m o met s) (isComponent : Bool)
    (mem : n ∈ s.seen) (new : n = m → m ∉ s.provides) :
    src.Promoting cls m o met (src.scanProvides isComponent n s) := by
  simp only [Source.scanProvides]
  split
  · exact { promoting with }
  · rename_i fit
    refine { promoting with picked := fun k picked => ?_, once := ?_, valued := ?_, promoted := ?_ }
    · rcases picked with provides | accessor
      · rcases List.mem_append.mp provides with provides | only
        · exact promoting.picked k (.inl provides)
        · exact List.mem_singleton.mp only ▸ mem
      · exact promoting.picked k (.inr accessor)
    · rw [List.count_append, List.count_singleton]
      split
      · rename_i same
        rw [List.count_eq_zero.mpr (new (by simpa using same))]
      · exact promoting.once
    · intro provides
      rcases List.mem_append.mp provides with provides | only
      · exact promoting.valued provides
      · obtain rfl := List.mem_singleton.mp only
        simp only [providesProblem?] at fit
        split at fit
        · cases fit
        · split at fit
          · cases fit
          · rename_i value
            simpa using value
    · exact fun here value => List.mem_append_left _ (promoting.promoted here value)

/-- The member that takes over can be picked unless it has no value. -/
theorem TakesOver.mem_scanProvides (takes : src.TakesOver cls m o) (isComponent : Bool)
    (valued : (src.program.memberAt m).returnType.isUnit = false) :
    m ∈ (src.scanProvides isComponent m s).provides := by
  have fit : providesProblem? isComponent (src.program.memberAt m) = none := by
    simp [providesProblem?, takes.visible, valued, takes.concrete]
  simp [Source.scanProvides, fit]

theorem Promoting.scanMember (takes : src.TakesOver cls m o)
    (promoting : src.Promoting cls m o met s) {after : List MemberId}
    (whole : src.program.chainMembers cls = met ++ n :: after) (isComponent : Bool) :
    src.Promoting cls m o (met ++ [n]) (src.scanMember isComponent s n) := by
  have inside : n ∈ src.program.chainMembers cls := by simp [whole]
  simp only [Source.scanMember]
  split
  · rename_i overriding found
    have mem : overriding ∈ s.seen := List.mem_of_find?_eq_some found
    have overrides : src.program.overrides overriding n = true := by
      simpa using List.find?_some found
    have apart : n ≠ m := by
      rintro rfl
      cases overrides.symm.trans (takes.last overriding (promoting.among mem))
    have itself (same : n = o) : overriding = m :=
      takes.only overriding (promoting.among mem) (same ▸ overrides)
    split
    · rename_i open_
      simp only [Bool.and_eq_true, Bool.not_eq_true', List.contains_eq_mem,
        decide_eq_false_iff_not] at open_
      refine (promoting.scanProvides isComponent mem fun same => same ▸ open_.2).pass apart ?_
      intro same valued
      rw [itself same]
      exact takes.mem_scanProvides isComponent valued
    · rename_i closed
      refine promoting.pass apart fun same _ => ?_
      obtain rfl := itself same
      simpa [same, takes.binding, takes.unmarked] using closed
  · rename_i none
    have apart : n ≠ o := by
      rintro rfl
      have row : (n, met.length) ∈ (src.program.chainMembers cls).zipIdx := by
        rw [List.mem_zipIdx_iff_getElem?, whole]
        simp
      have before := takes.earlier _ row rfl
      rw [whole, List.take_left] at before
      exact List.find?_eq_none.mp none m (promoting.standing before) takes.overrides
    have taken := promoting.take inside apart
    have here : n ∈ s.seen ++ [n] := List.mem_append_right _ (List.mem_singleton_self n)
    split
    · rename_i marked
      refine taken.scanProvides isComponent here fun same => ?_
      rw [same, takes.unmarked] at marked
      cases marked
    · split
      · refine { taken with picked := fun k picked => ?_ }
        rcases picked with provides | accessor
        · exact taken.picked k (.inl provides)
        · rcases List.mem_append.mp accessor with accessor | only
          · exact taken.picked k (.inr accessor)
          · exact List.mem_singleton.mp only ▸ here
      · exact taken

/-- The member that takes over is picked once, and the binding that it overrides is not. -/
theorem promoted_scan (takes : src.TakesOver cls m o) :
    src.Promoting cls m o (src.program.chainMembers cls) (src.scan cls) := by
  refine scan_induction ⟨nofun, by simp, nofun, nofun, Nat.zero_le _, nofun, nofun⟩
    (fun met s id before => ?_) fun met n after s whole before => before.scanMember takes whole _
  obtain ⟨seen, provides, accessors⟩ := src.scanScope_frame s id
  refine ⟨?_, ?_, ?_, ?_, ?_, ?_, ?_⟩
  · rw [seen]
    exact before.among
  · rw [seen, provides, accessors]
    exact before.picked
  · rw [seen]
    exact before.standing
  · rw [seen]
    exact before.passed
  · rw [provides]
    exact before.once
  · rw [provides]
    exact before.valued
  · rw [provides]
    exact before.promoted

/-! ## What it is filed as -/

theorem role?_eq_direct_iff {key : Key} : src.role? cls m = some (.direct key) ↔
    src.bindsDirectly cls m = true ∧ src.directKey cls m = key := by
  simp only [role?, bindsDirectly]
  split
  · rename_i among
    simp [among]
  · rename_i alone
    split
    · rename_i generic
      simp [generic]
    · rename_i plain
      simp [alone, plain]

theorem role?_eq_part_iff {kind : ContainerKind} {whole : Key} :
    src.role? cls m = some (.part kind whole) ↔
      src.wholeKey? cls m = some whole ∧ src.wholeKind m = kind := by
  simp only [role?]
  split
  · simp [and_comm]
  · rename_i alone
    have none : src.wholeKey? cls m ≠ some whole := fun found =>
      alone (contributes_of_wholeKey? found)
    split <;> simp [none]

theorem role?_eq_pattern_iff {ty : Ty} {qualifier : Option AnnotationUse} :
    src.role? cls m = some (.pattern ty qualifier) ↔ src.isPattern cls m = true ∧
      src.program.returnTypeIn m cls = ty ∧ src.ownQualifier cls m = qualifier := by
  simp only [role?, isPattern]
  split
  · rename_i among
    simp [among]
  · rename_i alone
    split
    · rename_i generic
      simp [alone, generic]
    · rename_i plain
      simp [plain]

/-- A binding of a member tells who keeps its value. -/
theorem eq_ownBinding_iff {keeper : Option ClassId} :
    ({ member := m, scopedIn := keeper } : MemberBinding) = src.ownBinding cls n ↔
      n = m ∧ keeper = (src.ownBinding cls m).scopedIn := by
  constructor
  · intro same
    obtain rfl : m = n := congrArg MemberBinding.member same
    exact ⟨rfl, congrArg MemberBinding.scopedIn same⟩
  · rintro ⟨rfl, rfl⟩
    rfl

/-- A member is filed in the role that its own declaration gives to it. -/
theorem Tabled.files_iff {f : Filing} (tabled : src.Tabled cls met own)
    (single : m ∈ met → src.bindsDirectly cls m = true →
      src.directMembers cls (src.directKey cls m) met = [m]) :
    own.FilesAs m f ↔ m ∈ met ∧ src.role? cls m = some f.role ∧
      f.keeper = (src.ownBinding cls m).scopedIn := by
  obtain ⟨role, keeper⟩ := f
  cases role with
  | direct key =>
      simp only [Holdings.FilesAs, tabled.bound?_eq, eq_ownBinding_iff, role?_eq_direct_iff]
      constructor
      · rintro ⟨n, one, rfl, keeper⟩
        have asking : n ∈ src.directMembers cls key met := one ▸ List.mem_singleton_self n
        obtain ⟨mem, asks⟩ := List.mem_filter.mp asking
        exact ⟨mem, by simpa using asks, keeper⟩
      · rintro ⟨mem, ⟨direct, rfl⟩, keeper⟩
        exact ⟨m, single mem direct, rfl, keeper⟩
  | part kind whole =>
      simp only [Holdings.FilesAs, tabled.containers, role?_eq_part_iff]
      constructor
      · rintro ⟨entry, present, rfl, filed⟩
        have ofType := wholeKind_of_wholeRow? present
        obtain ⟨first, -, rfl⟩ := Option.map_eq_some_iff.mp present
        obtain ⟨n, among, same⟩ := List.mem_map.mp filed
        obtain ⟨rfl, keeper⟩ := eq_ownBinding_iff.mp same.symm
        obtain ⟨mem, found⟩ := List.mem_filter.mp among
        have found : src.wholeKey? cls n = some whole := by simpa using found
        refine ⟨mem, ⟨found, ?_⟩, keeper⟩
        exact Option.some.inj ((wholeKind?_of_wholeKey? found).symm.trans ofType)
      · rintro ⟨mem, ⟨found, rfl⟩, keeper⟩
        have among : m ∈ src.wholeMembers cls whole met :=
          List.mem_filter.mpr ⟨mem, by simpa using found⟩
        obtain ⟨first, rest, split⟩ := List.exists_cons_of_ne_nil (List.ne_nil_of_mem among)
        have present : src.wholeRow? cls (src.wholeMembers cls whole met) =
            some ⟨src.wholeKind first, first,
              (src.wholeMembers cls whole met).map (src.ownBinding cls)⟩ := by
          rw [wholeRow?, split]
          rfl
        refine ⟨_, present, ?_, List.mem_map.mpr ⟨m, among, ?_⟩⟩
        · exact Option.some.inj
            ((wholeKind_of_wholeRow? present).symm.trans (wholeKind?_of_wholeKey? found))
        · exact (eq_ownBinding_iff.mpr ⟨rfl, keeper⟩).symm
  | pattern ty qualifier =>
      simp only [Holdings.FilesAs, tabled.generics, role?_eq_pattern_iff, List.mem_map,
        List.mem_filter]
      constructor
      · rintro ⟨n, ⟨mem, pattern⟩, filed⟩
        obtain ⟨rfl, keeper⟩ :=
          eq_ownBinding_iff.mp (congrArg GenericMember.binding filed).symm
        exact ⟨mem, ⟨pattern, congrArg GenericMember.pattern filed,
          congrArg GenericMember.qualifier filed⟩, keeper⟩
      · rintro ⟨mem, ⟨pattern, rfl, rfl⟩, keeper⟩
        refine ⟨m, ⟨mem, pattern⟩, ?_⟩
        rw [eq_ownBinding_iff.mpr ⟨rfl, keeper⟩]
        rfl

theorem MarkedAlike.filing? (alike : src.MarkedAlike m o)
    (returns : src.program.returnTypeIn m cls = src.program.returnTypeIn o cls) :
    src.filing? cls m = src.filing? cls o := by
  have qualifier : src.ownQualifier cls m = src.ownQualifier cls o := by
    simp only [ownQualifier, Source.qualifier, alike.qualifiers, returns]
  simp only [Source.filing?, role?, wholeKey?, wholeKind, contributes, isGeneric, directKey,
    ownBinding, qualifier, returns, alike.toMap, alike.toSet, alike.scope, alike.typeVars,
    alike.valued]
  rfl

theorem TakesOver.directMembers (takes : src.TakesOver cls m o)
    (mem : m ∈ (src.scan cls).provides) (direct : src.bindsDirectly cls m = true) :
    src.directMembers cls (src.directKey cls m) (src.scan cls).provides = [m] := by
  have only : src.directMembers cls (src.directKey cls m) (src.scan cls).provides =
      (src.scan cls).provides.filter (· == m) := by
    refine List.filter_congr fun n among => ?_
    rw [Bool.eq_iff_iff, Bool.and_eq_true, decide_eq_true_eq, beq_iff_eq]
    refine ⟨fun ⟨asks, same⟩ => takes.single direct n among asks same, ?_⟩
    rintro rfl
    exact ⟨direct, rfl⟩
  have once := (promoted_scan takes).once
  have here := List.count_pos_iff.mpr mem
  rw [only, List.filter_beq, show (src.scan cls).provides.count m = 1 by omega]
  rfl

end Source

/-- A member that takes over from a binding is filed by what its own declaration says.  That is
what the binding would have been filed as if the declarations are marked alike, and not
otherwise; the binding itself is not filed. -/
theorem promoted_filed (src : Source) (history : List (ClassId × Log)) (cls : ClassId) (log : Log)
    (m o : MemberId) (takes : src.TakesOver cls m o) :
    let own := (src.collect cls { store := src.storeAfter history, log }).1.own
    ¬own.Binds o ∧ (∀ f, own.FilesAs m f ↔ src.filing? cls m = some f) ∧
      ((∀ f, own.FilesAs m f ↔ src.filing? cls o = some f) ↔
        src.filing? cls m = src.filing? cls o) ∧
      (src.MarkedAlike m o → ∀ f, own.FilesAs m f ↔ src.filing? cls o = some f) := by
  intro own
  have collected : own = (src.holdings cls).1 := src.own_collect_storeAfter history cls log
  have tabled : src.Tabled cls (src.scan cls).provides own := src.tabled_collect history cls log
  have promoted := Source.promoted_scan takes
  have files (f : Filing) : own.FilesAs m f ↔ src.filing? cls m = some f := by
    rw [tabled.files_iff takes.directMembers, Source.filing?]
    split
    · rename_i unit
      refine ⟨fun ⟨mem, _⟩ => ?_, nofun⟩
      cases unit.symm.trans (promoted.valued mem)
    · rename_i valued
      have mem := promoted.promoted takes.inherited (by simpa using valued)
      obtain ⟨role, keeper⟩ := f
      simp [mem, eq_comm]
  have unbound : ¬own.Binds o := by
    rw [collected]
    exact fun binds => promoted.passed (promoted.picked o binds.picked)
  refine ⟨unbound, files, ?_, fun alike f => ?_⟩
  · simp only [files]
    exact Option.ext_iff.symm
  · rw [files, alike.filing? takes.returns]

/-- A component makes a `Foo` where it inherits a binding that does, one with further `marks`. -/
def remade (marks : List AnnotationUse) : Source where
  program :=
    { classes := [.interfaceWith "Base" [] (.ofNat 0),
        { name := "C", isAbstract := true, annotations := [.ofDecl .component],
          supers := [{ name := "Base" }], ctors := [{}], members := [.ofNat 1] },
        { name := "Foo" }]
      members := [{ MemberDecl.bindingMake (.ofNat 0) { name := "Foo" } with
          annotations := .ofDecl .provides :: marks },
        { owner := some (.ofNat 1), name := "make", returnType := { name := "Foo" } }] }
  options := {}

/-- With no further marks the member is bound as the binding would have been. -/
theorem remadeFoo_promoted :
    let src := remade []
    let own := (src.collect (.ofNat 1) {}).1.own
    src.TakesOver (.ofNat 1) (.ofNat 1) (.ofNat 0) ∧ ¬own.Binds (.ofNat 0) ∧
      own.FilesAs (.ofNat 1) ⟨.direct (.of { name := "Foo" }), none⟩ := by
  intro src own
  have takes : src.TakesOver (.ofNat 1) (.ofNat 1) (.ofNat 0) := by
    constructor <;> decide +kernel
  have alike : src.MarkedAlike (.ofNat 1) (.ofNat 0) := by
    constructor <;> decide +kernel
  obtain ⟨unbound, -, -, filed⟩ := promoted_filed src [] (.ofNat 1) {} (.ofNat 1) (.ofNat 0) takes
  exact ⟨takes, unbound, (filed alike _).mpr (by decide +kernel)⟩

/-- In place of a contribution to a set the member is bound by itself. -/
theorem droppedSet_promoted_refuted :
    let src := remade [.ofDecl .intoSet]
    let own := (src.collect (.ofNat 1) {}).1.own
    src.TakesOver (.ofNat 1) (.ofNat 1) (.ofNat 0) ∧
      src.filing? (.ofNat 1) (.ofNat 0) =
        some ⟨.part .set (.of (.setOf { name := "Foo" })), none⟩ ∧
      ¬own.FilesAs (.ofNat 1) ⟨.part .set (.of (.setOf { name := "Foo" })), none⟩ ∧
      own.FilesAs (.ofNat 1) ⟨.direct (.of { name := "Foo" }), none⟩ := by
  intro src own
  have takes : src.TakesOver (.ofNat 1) (.ofNat 1) (.ofNat 0) := by
    constructor <;> decide +kernel
  have none : own.containers.get? (.of (.setOf { name := "Foo" })) = none := by decide +kernel
  refine ⟨takes, by decide +kernel, ?_, ?_⟩
  · rintro ⟨entry, present, -⟩
    cases none.symm.trans present
  · show own.bound? (.of { name := "Foo" }) = some { member := .ofNat 1 }
    decide +kernel

end Injector
