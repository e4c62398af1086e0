/-
# Injector.Proofs.Catalog.Tables -- exactly what each table holds

What a component declares itself is a function of the members that were picked, key by key,
whatever else is wrong with them.  A key is bound directly by the first member that asks for
it, and masked once a second one does; a set or a map lists all that contribute to it, in
order; and patterns are listed in order.  `Tabled` says so of the members met so far, and is
kept by each further one (`Tabled.register`).

The kind of a container is that of its type (`Key.wholeKind?`), so all that contribute to
one key agree on it, and no contribution is refused for its kind (`Tabled.kind_of_present`).
-/
import Injector.Proofs.Catalog.Registering

namespace Injector

set_option autoImplicit false

/-- The kind of container that a use of the type is. -/
def Key.wholeKind? (key : Key) : Option ContainerKind :=
  if key.ty.isA .set then some .set else if key.ty.isA .map then some .map else none

/-- What the component itself contributes to `key`. -/
def Holdings.contributors (own : Holdings) (key : Key) : List MemberBinding :=
  ((own.containers.get? key).map (·.contributors)).getD []

/-- What is contributed to a key, with one more contribution. -/
def Contributions.join (before : Option Contributions) (kind : ContainerKind)
    (b : MemberBinding) : Contributions :=
  match before with
  | none => ⟨kind, b.member, [b]⟩
  | some entry => { entry with contributors := entry.contributors ++ [b] }

namespace Source

variable (src : Source)

/-- The key that the member asks for if it binds one by itself. -/
def directKey (cls : ClassId) (m : MemberId) : Key :=
  .of (src.program.returnTypeIn m cls) (src.ownQualifier cls m)

/-- Those of the members that bind `key` by themselves, in order. -/
def directMembers (cls : ClassId) (key : Key) (ms : List MemberId) : List MemberId :=
  ms.filter fun m => src.bindsDirectly cls m && src.directKey cls m = key

/-- Those of the members that contribute to `key`, in order. -/
def wholeMembers (cls : ClassId) (key : Key) (ms : List MemberId) : List MemberId :=
  ms.filter fun m => src.wholeKey? cls m = some key

/-- The member is a pattern. -/
def isPattern (cls : ClassId) (m : MemberId) : Bool := !src.contributes m && src.isGeneric cls m

/-- The entry for all of the members that contribute to one key. -/
def wholeRow? (cls : ClassId) (ms : List MemberId) : Option Contributions :=
  ms.head?.map fun first => ⟨src.wholeKind first, first, ms.map (src.ownBinding cls)⟩

/-- A component of which no member is filed yet. -/
def blank (cls : ClassId) : Holdings where
  cls := cls
  scope := (src.scan cls).scope.map (·.1)
  accessors := (src.scan cls).accessors

/-- The tables are those for the members met. -/
structure Tabled (cls : ClassId) (met : List MemberId) (own : Holdings) : Prop where
  owner : own.cls = cls
  direct : ∀ key, own.direct.get? key =
    (src.directMembers cls key met).head?.map (src.ownBinding cls)
  duplicated : ∀ key, key ∈ own.duplicated ↔ 2 ≤ (src.directMembers cls key met).length
  containers : ∀ key, own.containers.get? key = src.wholeRow? cls (src.wholeMembers cls key met)
  generics : own.generics = (met.filter (src.isPattern cls)).map (src.ownPattern cls)

variable {src} {own : Holdings} {cls : ClassId} {m : MemberId} {key other : Key}
  {b : MemberBinding} {met : List MemberId}

/-! ## One member -/

/-- The kind of a container is that of its type. -/
theorem wholeKind?_of_wholeKey? (whole : src.wholeKey? cls m = some key) :
    key.wholeKind? = some (src.wholeKind m) := by
  have kindOf (d : DeclName) (args : List Ty) (q : Option AnnotationUse) (e : DeclName) :
      (Key.of { Ty.ofDecl d with args } q).ty.isA e = e.isNamed d.package d.name := by
    simp [Key.of, Ty.unqualified, Ty.ofDecl, Ty.isA, Ty.dealias]
  simp only [wholeKey?] at whole
  split at whole
  · rename_i toMap
    split at whole
    · cases whole
      rw [wholeKind, if_pos toMap, Key.wholeKind?, mapOfPair, Ty.mapOf, kindOf, kindOf]
      rfl
    · cases whole
  · rename_i noMap
    split at whole
    · cases whole
      rw [wholeKind, if_neg noMap, Key.wholeKind?, Ty.setOf, kindOf]
      rfl
    · cases whole

/-- A contribution with nothing to go to is not filed. -/
theorem register_of_pairless (among : src.contributes m = true)
    (none : src.wholeKey? own.cls m = none) : (src.register own m).1 = own := by
  simp only [wholeKey?] at none
  split at none
  · rename_i toMap
    split at none
    · cases none
    · rename_i noPair
      simp only [register, toMap, noPair, if_true, Bool.false_eq_true, if_false]
  · rename_i noMap
    have toSet : (src.program.memberAt m).contributesToSet = true := by
      simpa [contributes, noMap] using among
    rw [if_pos toSet] at none
    cases none

/-! ## One more member -/

theorem directMembers_concat : src.directMembers cls key (met ++ [m]) =
    src.directMembers cls key met ++
      if src.bindsDirectly cls m = true ∧ src.directKey cls m = key then [m] else [] := by
  simp [directMembers, List.filter_cons]

theorem wholeMembers_concat : src.wholeMembers cls key (met ++ [m]) =
    src.wholeMembers cls key met ++ if src.wholeKey? cls m = some key then [m] else [] := by
  simp [wholeMembers, List.filter_cons]

theorem patterns_concat : (met ++ [m]).filter (src.isPattern cls) =
    met.filter (src.isPattern cls) ++ if src.isPattern cls m = true then [m] else [] := by
  simp [List.filter_cons]

theorem directMembers_concat_of_shared (shared : src.bindsDirectly cls m = false) :
    src.directMembers cls key (met ++ [m]) = src.directMembers cls key met := by
  rw [directMembers_concat, if_neg (by simp [shared]), List.append_nil]

theorem wholeMembers_concat_of_single (single : src.contributes m = false) :
    src.wholeMembers cls key (met ++ [m]) = src.wholeMembers cls key met := by
  have none : ¬src.wholeKey? cls m = some key := fun whole => by
    cases single.symm.trans (contributes_of_wholeKey? whole)
  rw [wholeMembers_concat, if_neg none, List.append_nil]

/-- The members that contribute to one key do so in the same way. -/
theorem wholeKind_of_wholeRow? {entry : Contributions}
    (present : src.wholeRow? cls (src.wholeMembers cls key met) = some entry) :
    key.wholeKind? = some entry.kind := by
  obtain ⟨first, head, rfl⟩ := Option.map_eq_some_iff.mp present
  have whole : src.wholeKey? cls first = some key := by
    simpa using (List.mem_filter.mp (List.mem_of_mem_head? head)).2
  exact wholeKind?_of_wholeKey? whole

theorem wholeRow?_concat (ms : List MemberId) : src.wholeRow? cls (ms ++ [m]) =
    some (.join (src.wholeRow? cls ms) (src.wholeKind m) (src.ownBinding cls m)) := by
  cases ms with
  | nil => rfl
  | cons first rest => simp [wholeRow?, Contributions.join]

/-- A contribution of the kind that is there joins the others, and is not refused. -/
theorem contribute_of_kind {kind : ContainerKind}
    (same : ∀ entry, own.containers.get? key = some entry → entry.kind = kind) :
    contribute own key kind b =
      ({ own with containers :=
          own.containers.insert key (.join (own.containers.get? key) kind b) }, []) := by
  simp only [contribute]
  split
  · rename_i absent
    rw [absent]
    rfl
  · rename_i entry present
    rw [if_pos (same entry present), present]
    rfl

theorem direct_bindDirect : (bindDirect own key b).1.direct.get? other =
    (own.direct.get? other).or (if key = other then some b else none) := by
  simp only [bindDirect]
  split
  · rename_i absent
    simp only [Table.get?_insert]
    split
    · rename_i same
      rw [← same, absent, Option.none_or]
    · rw [Option.or_none]
  · rename_i existing present
    by_cases same : key = other
    · simp [← same, present]
    · simp [same]

theorem mem_duplicated_bindDirect : other ∈ (bindDirect own key b).1.duplicated ↔
    other ∈ own.duplicated ∨ key = other ∧ (own.direct.get? key).isSome := by
  simp only [bindDirect]
  split
  · rename_i absent
    simp [absent]
  · rename_i existing present
    simp only [present, Option.isSome_some, and_true]
    split
    · rename_i old
      refine ⟨.inl, fun mem => mem.elim id fun same => ?_⟩
      rw [← same]
      simpa using old
    · simp [eq_comm]

theorem bindDirect_frame (own : Holdings) (key : Key) (b : MemberBinding) :
    (bindDirect own key b).1.cls = own.cls ∧
    (bindDirect own key b).1.containers = own.containers ∧
    (bindDirect own key b).1.generics = own.generics := by
  simp only [bindDirect]
  split <;> exact ⟨rfl, rfl, rfl⟩

/-- Each contribution finds its key free, or taken by the same kind of container. -/
theorem Tabled.kind_of_present (tabled : src.Tabled cls met own) {entry : Contributions}
    (whole : src.wholeKey? cls m = some key) (present : own.containers.get? key = some entry) :
    entry.kind = src.wholeKind m := by
  rw [tabled.containers] at present
  exact Option.some.inj
    ((wholeKind_of_wholeRow? present).symm.trans (wholeKind?_of_wholeKey? whole))

/-- A contribution joins the others to its set or map, if it has one. -/
theorem Tabled.contribution (tabled : src.Tabled cls met own) (among : src.contributes m = true) :
    src.Tabled cls (met ++ [m]) (src.register own m).1 := by
  obtain rfl := tabled.owner
  have shared : src.bindsDirectly own.cls m = false := by simp [bindsDirectly, among]
  have patterns : (met ++ [m]).filter (src.isPattern own.cls) =
      met.filter (src.isPattern own.cls) := by
    rw [patterns_concat, if_neg (by simp [isPattern, among]), List.append_nil]
  cases whole : src.wholeKey? own.cls m with
  | none =>
      rw [register_of_pairless among whole]
      refine ⟨rfl, fun key => ?_, fun key => ?_, fun key => ?_, ?_⟩
      · rw [directMembers_concat_of_shared shared, tabled.direct]
      · rw [directMembers_concat_of_shared shared, tabled.duplicated]
      · rw [wholeMembers_concat, whole, if_neg (Option.some_ne_none key).symm, List.append_nil, tabled.containers]
      · rw [patterns, tabled.generics]
  | some key =>
      rw [(register_of_whole whole).1, contribute_of_kind fun _ => tabled.kind_of_present whole]
      refine ⟨rfl, fun other => ?_, fun other => ?_, fun other => ?_, ?_⟩
      · rw [directMembers_concat_of_shared shared, tabled.direct]
      · rw [directMembers_concat_of_shared shared, tabled.duplicated]
      · rw [Table.get?_insert, wholeMembers_concat, whole]
        split
        · rename_i same
          rw [if_pos (congrArg some same), wholeRow?_concat, ← same, tabled.containers]
        · rename_i apart
          rw [if_neg fun same => apart (Option.some.inj same), List.append_nil, tabled.containers]
      · rw [patterns, tabled.generics]

theorem Tabled.pattern (tabled : src.Tabled cls met own) (single : src.contributes m = false)
    (generic : src.isGeneric cls m = true) :
    src.Tabled cls (met ++ [m]) (src.register own m).1 := by
  obtain rfl := tabled.owner
  have shared : src.bindsDirectly own.cls m = false := by simp [bindsDirectly, generic]
  have pattern : src.isPattern own.cls m = true := by simp [isPattern, single, generic]
  rw [register_of_generic single generic]
  refine ⟨rfl, fun key => ?_, fun key => ?_, fun key => ?_, ?_⟩
  · rw [directMembers_concat_of_shared shared, tabled.direct]
  · rw [directMembers_concat_of_shared shared, tabled.duplicated]
  · rw [wholeMembers_concat_of_single single, tabled.containers]
  · rw [patterns_concat, if_pos pattern, List.map_append, ← tabled.generics]
    rfl

/-- The first member that asks for a key gets it, and the second one masks it. -/
theorem Tabled.binding (tabled : src.Tabled cls met own)
    (direct : src.bindsDirectly cls m = true) :
    src.Tabled cls (met ++ [m]) (src.register own m).1 := by
  obtain rfl := tabled.owner
  obtain ⟨single, plain⟩ : src.contributes m = false ∧ src.isGeneric own.cls m = false := by
    simpa [bindsDirectly] using direct
  have binding : (src.register own m).1 =
      (bindDirect own (src.directKey own.cls m) (src.ownBinding own.cls m)).1 :=
    (register_of_direct direct).1
  obtain ⟨owner, containers, generics⟩ :=
    bindDirect_frame own (src.directKey own.cls m) (src.ownBinding own.cls m)
  rw [binding]
  refine ⟨owner, fun key => ?_, fun key => ?_, fun key => ?_, ?_⟩
  · rw [direct_bindDirect, directMembers_concat, List.head?_append, Option.map_or, tabled.direct]
    simp only [direct, true_and]
    split <;> rfl
  · rw [mem_duplicated_bindDirect, directMembers_concat, tabled.duplicated, tabled.direct,
      List.length_append]
    simp only [direct, true_and]
    split
    · rename_i same
      subst same
      cases src.directMembers own.cls (src.directKey own.cls m) met <;> simp
    · rename_i apart
      simp [apart]
  · rw [containers, wholeMembers_concat_of_single single, tabled.containers]
  · rw [generics, patterns_concat, if_neg (by simp [isPattern, plain]), List.append_nil,
      tabled.generics]

/-- With the tables for the members met, the next member changes one of them at most. -/
theorem Tabled.register (tabled : src.Tabled cls met own) (m : MemberId) :
    src.Tabled cls (met ++ [m]) (src.register own m).1 := by
  cases among : src.contributes m with
  | true => exact tabled.contribution among
  | false =>
      cases generic : src.isGeneric cls m with
      | true => exact tabled.pattern among generic
      | false => exact tabled.binding (by simp [bindsDirectly, among, generic])

/-! ## All members -/

variable (src) in
theorem tabled_blank (cls : ClassId) : src.Tabled cls [] (src.blank cls) where
  owner := rfl
  direct _ := rfl
  duplicated _ := by simp [blank, directMembers]
  containers _ := rfl
  generics := rfl

theorem Tabled.all (tabled : src.Tabled cls met own) (more : List MemberId) :
    src.Tabled cls (met ++ more) (fileAll src.register own more).1 := by
  induction more generalizing met own with
  | nil =>
      rw [List.append_nil]
      exact tabled
  | cons m rest ih =>
      have next := ih (tabled.register m)
      rwa [List.append_assoc, List.singleton_append] at next

variable (src) in
/-- The tables after some of the picked members. -/
theorem tabled_fileAll (cls : ClassId) (ms : List MemberId) :
    src.Tabled cls ms (fileAll src.register (src.blank cls) ms).1 :=
  (src.tabled_blank cls).all ms

theorem Tabled.registerAccessor (tabled : src.Tabled cls met own) (m : MemberId) :
    src.Tabled cls met (src.registerAccessor own m).1 :=
  ⟨tabled.owner, tabled.direct, tabled.duplicated, tabled.containers, tabled.generics⟩

variable (src) in
/-- What a component declares itself are the tables for the members that were picked. -/
theorem tabled_holdings (cls : ClassId) :
    src.Tabled cls (src.scan cls).provides (src.holdings cls).1 :=
  fileAll_keeps _ (fun m _ _ tabled => tabled.registerAccessor m)
    (src.tabled_fileAll cls (src.scan cls).provides)

/-- What a component contributes are all members that were picked for it, in order. -/
theorem Tabled.contributors (tabled : src.Tabled cls met own) (key : Key) :
    own.contributors key = (src.wholeMembers cls key met).map (src.ownBinding cls) := by
  rw [Holdings.contributors, tabled.containers]
  cases src.wholeMembers cls key met <;> rfl

end Source

end Injector
