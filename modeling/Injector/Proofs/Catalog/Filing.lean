/-
# Injector.Proofs.Catalog.Filing -- how bindings are filed

A binding is filed as the declaration of its member says (`Filed`): under its key or as a
pattern, with the component as the keeper of its values if the member has a scope.  That
holds of what a component declares itself (`filed_holdings`), and so of every catalog that
is collected, with its ancestors (`everywhere_collectTo`).

What holds everywhere in a catalog holds all along its walk, and so of whatever is found
for a key.
-/
import Injector.Proofs.Catalog.Genuine

namespace Injector

set_option autoImplicit false

/-! ## What holds all over a catalog -/

/-- It holds of what the component declares itself, and of what each ancestor does. -/
inductive Catalog.Everywhere (holds : Holdings → Prop) : Catalog → Prop where
  | mk {own : Holdings} {parents : List (String × Catalog)} {faulty : Bool} : holds own →
      (∀ row ∈ parents, Everywhere holds row.2) → Everywhere holds ⟨own, parents, faulty⟩

namespace Catalog

variable {holds : Holdings → Prop} {c : Catalog}

theorem Everywhere.own (everywhere : c.Everywhere holds) : holds c.own := by
  cases everywhere
  assumption

theorem Everywhere.parent (everywhere : c.Everywhere holds) :
    ∀ row ∈ c.parents, row.2.Everywhere holds := by
  cases everywhere
  assumption

/-- What each link keeps holds all along the walk. -/
theorem walk_induction {holds : FieldPath × Catalog → Prop} {c : Catalog}
    (here : holds (.here, c)) (step : ∀ place, holds place → ∀ next ∈ links place, holds next) :
    ∀ place ∈ c.walk, holds place := by
  have above (n : Nat) (level : List (FieldPath × Catalog)) (all : ∀ place ∈ level, holds place) :
      ∀ place ∈ levels n level, holds place := by
    induction n generalizing level with
    | zero => exact nofun
    | succ n ih =>
        intro place mem
        rcases List.mem_append.mp mem with mem | mem
        · exact all place mem
        · refine ih _ (fun next among => ?_) place mem
          obtain ⟨below, among', linked⟩ := List.mem_flatMap.mp among
          exact step below (all below among') next linked
  exact above _ _ (List.forall_mem_singleton.mpr here)

theorem Everywhere.walk (everywhere : c.Everywhere holds) :
    ∀ place ∈ c.walk, holds place.2.own := by
  have all : ∀ place ∈ c.walk, place.2.Everywhere holds := by
    apply walk_induction
    · exact everywhere
    · intro place above next linked
      obtain ⟨row, mem, rfl⟩ := List.mem_map.mp linked
      exact above.parent row mem
  exact fun place mem => (all place mem).own

end Catalog

/-! ## What one component files -/

namespace Source

variable (src : Source)

/-- The scope that the declaration carries, if it is one that values are built by. -/
def scopeOf : Element → Option AnnotationUse
  | .cls _ => none
  | .ctor cls _ => (src.scope (src.program.classAt cls).annotations).1
  | .member m =>
    if (src.program.memberAt m).isBinding then (src.scope (src.program.memberAt m).annotations).1
    else none

/-- The member as a binding of the component. -/
def ownBinding (cls : ClassId) (m : MemberId) : MemberBinding where
  member := m
  scopedIn := (src.scope (src.program.memberAt m).annotations).1.map fun _ => cls

/-- The qualifier of the value of the member. -/
def ownQualifier (cls : ClassId) (m : MemberId) : Option AnnotationUse :=
  (src.qualifier (src.program.memberAt m).annotations (src.program.returnTypeIn m cls)).1

/-- The member is filed as a pattern. -/
def isGeneric (cls : ClassId) (m : MemberId) : Bool :=
  !(src.program.memberAt m).typeVars.isEmpty || (src.program.returnTypeIn m cls).mentionsVariable

/-- Each binding is filed as the declaration of its member says. -/
structure Filed (own : Holdings) : Prop where
  direct : ∀ key b, own.direct.get? key = some b → b = src.ownBinding own.cls b.member ∧
    key = .of (src.program.returnTypeIn b.member own.cls) (src.ownQualifier own.cls b.member) ∧
    src.isGeneric own.cls b.member = false
  containers : ∀ key entry, own.containers.get? key = some entry →
    ∀ b ∈ entry.contributors, b = src.ownBinding own.cls b.member
  generics : ∀ g ∈ own.generics, g.binding = src.ownBinding own.cls g.binding.member ∧
    g.pattern = src.program.returnTypeIn g.binding.member own.cls ∧
    g.qualifier = src.ownQualifier own.cls g.binding.member ∧
    src.isGeneric own.cls g.binding.member = true
  passthroughs : ∀ key b, own.passthroughs.get? key = some b → b = { member := b.member } ∧
    (src.program.memberAt b.member).isBinding = false

variable {src} {own : Holdings} {cls : ClassId} {m : MemberId}

/-- A binding that is filed with no keeper has no scope. -/
theorem scopeOf_ownBinding (unkept : (src.ownBinding cls m).scopedIn = none) :
    src.scopeOf (.member m) = none := by
  simp only [ownBinding, Option.map_eq_none_iff] at unkept
  simp only [scopeOf, unkept, ite_self]

variable (src) in
/-- A component without any declarations. -/
theorem filed_empty (cls : ClassId) : src.Filed { cls } := ⟨nofun, nofun, nofun, nofun⟩

theorem Filed.contribute (filed : src.Filed own) (key : Key) (kind : ContainerKind) :
    src.Filed (contribute own key kind (src.ownBinding own.cls m)).1 ∧
      (Source.contribute own key kind (src.ownBinding own.cls m)).1.cls = own.cls := by
  -- the contributions to the key are as before but for the new one, if any
  have changed {entry : Contributions}
      (new : ∀ b ∈ entry.contributors, b = src.ownBinding own.cls b.member) :
      src.Filed { own with containers := own.containers.insert key entry } := by
    refine { filed with containers := fun other found present => ?_ }
    rw [Table.get?_insert] at present
    split at present
    · cases present
      exact new
    · exact filed.containers other found present
  simp only [Source.contribute]
  split
  · exact ⟨changed (by simp [ownBinding]), rfl⟩
  · rename_i entry present
    split
    · refine ⟨changed fun b mem => ?_, rfl⟩
      rcases List.mem_append.mp mem with mem | mem
      · exact filed.containers key entry present b mem
      · obtain rfl := List.mem_singleton.mp mem
        rfl
    · exact ⟨filed, rfl⟩

theorem Filed.bindDirect (filed : src.Filed own) (plain : src.isGeneric own.cls m = false) :
    src.Filed (bindDirect own (.of (src.program.returnTypeIn m own.cls)
        (src.ownQualifier own.cls m)) (src.ownBinding own.cls m)).1 ∧
      (Source.bindDirect own (.of (src.program.returnTypeIn m own.cls)
        (src.ownQualifier own.cls m)) (src.ownBinding own.cls m)).1.cls = own.cls := by
  simp only [Source.bindDirect]
  split
  · refine ⟨{ filed with direct := fun key b present => ?_ }, rfl⟩
    rw [Table.get?_insert] at present
    split at present
    · rename_i same
      cases present
      exact ⟨rfl, same.symm, plain⟩
    · exact filed.direct key b present
  · exact ⟨{ filed with }, rfl⟩

theorem Filed.register (filed : src.Filed own) (m : MemberId) :
    src.Filed (src.register own m).1 ∧ (src.register own m).1.cls = own.cls := by
  simp only [Source.register]
  split
  · split
    · exact filed.contribute _ _
    · exact ⟨filed, rfl⟩
  · split
    · exact filed.contribute _ _
    · split
      · rename_i generic
        refine ⟨{ filed with generics := fun g mem => ?_ }, rfl⟩
        rcases List.mem_append.mp mem with mem | mem
        · exact filed.generics g mem
        · obtain rfl := List.mem_singleton.mp mem
          exact ⟨rfl, rfl, rfl, generic⟩
      · rename_i plain
        exact filed.bindDirect (by simpa [isGeneric] using plain)

theorem Filed.registerAccessor (filed : src.Filed own)
    (accessor : (src.program.memberAt m).isBinding = false) :
    src.Filed (src.registerAccessor own m).1 := by
  refine { filed with passthroughs := fun key b present => ?_ }
  simp only [Source.registerAccessor] at present
  rcases Table.of_get?_insertNew present with present | ⟨-, rfl⟩
  · exact filed.passthroughs key b present
  · exact ⟨rfl, accessor⟩

/-- What each filing keeps holds after all of them. -/
theorem fileAll_keeps {α : Type} (holds : Holdings → Prop)
    {file : Holdings → α → Holdings × List Finding} {items : List α}
    (each : ∀ item ∈ items, ∀ own, holds own → holds (file own item).1) (start : holds own) :
    holds (fileAll file own items).1 := by
  induction items generalizing own with
  | nil => exact start
  | cons item rest ih =>
      exact ih (fun item mem => each item (List.mem_cons_of_mem _ mem))
        (each item List.mem_cons_self own start)

/-! ## Accessors -/

variable (src) in
/-- What a scan picks as an accessor is no binding. -/
def Sorted (s : Scan) : Prop := ∀ m ∈ s.accessors, (src.program.memberAt m).isBinding = false

theorem accessors_scanProvides (isComponent : Bool) (m : MemberId) (s : Scan) :
    (src.scanProvides isComponent m s).accessors = s.accessors := by
  simp only [scanProvides]
  split <;> rfl

theorem Sorted.scanMember {s : Scan} (sorted : src.Sorted s) (isComponent : Bool) (m : MemberId) :
    src.Sorted (src.scanMember isComponent s m) := by
  simp only [Source.scanMember]
  split
  · split
    · rwa [Sorted, accessors_scanProvides]
    · exact sorted
  · split
    · rwa [Sorted, accessors_scanProvides]
    · rename_i other
      split
      · intro n mem
        rcases List.mem_append.mp mem with mem | mem
        · exact sorted n mem
        · obtain rfl := List.mem_singleton.mp mem
          simpa using other
      · exact sorted

theorem accessors_scanScope (s : Scan) (cls : ClassId) :
    (src.scanScope s cls).accessors = s.accessors := by
  simp only [scanScope]
  split <;> try rfl
  split <;> rfl

theorem sorted_scan (cls : ClassId) : src.Sorted (src.scan cls) := by
  have members (isComponent : Bool) (ms : List MemberId) (s : Scan) (sorted : src.Sorted s) :
      src.Sorted (ms.foldl (src.scanMember isComponent) s) := by
    induction ms generalizing s with
    | nil => exact sorted
    | cons m rest ih => exact ih _ (sorted.scanMember isComponent m)
  have classes (isComponent : Bool) (ids : List ClassId) (s : Scan) (sorted : src.Sorted s) :
      src.Sorted (ids.foldl (src.scanClass isComponent) s) := by
    induction ids generalizing s with
    | nil => exact sorted
    | cons id rest ih =>
        refine ih _ (members isComponent _ _ ?_)
        rwa [Sorted, accessors_scanScope]
  exact classes _ _ {} nofun

theorem filed_own_holdings (cls : ClassId) :
    src.Filed (src.holdings cls).1 ∧ (src.holdings cls).1.cls = cls := by
  simp only [holdings]
  let holds (own : Holdings) : Prop := src.Filed own ∧ own.cls = cls
  refine fileAll_keeps holds (fun m mem own before => ?_) (fileAll_keeps holds
    (fun m _ own before => ?_) ?_)
  · exact ⟨before.1.registerAccessor (sorted_scan cls m mem), before.2⟩
  · exact (before.1.register m).imp_right fun same => same.trans before.2
  · exact ⟨⟨nofun, nofun, nofun, nofun⟩, rfl⟩

/-- What a component declares itself is filed as it says. -/
theorem filed_holdings (cls : ClassId) : src.Filed (src.holdings cls).1 :=
  (filed_own_holdings cls).1

/-- What a component declares is filed under that component. -/
theorem cls_holdings (cls : ClassId) : (src.holdings cls).1.cls = cls :=
  (filed_own_holdings cls).2

/-! ## Contributions -/

/-- Contributions are filed under the type of the set or the map that they make. -/
def Gathered (own : Holdings) : Prop :=
  ∀ key entry, own.containers.get? key = some entry →
    (entry.kind = .set ∧ ∃ element, key.ty = .setOf element) ∨
      (entry.kind = .map ∧ ∃ first second, key.ty = .mapOf first second)

theorem gathered_empty (cls : ClassId) : Gathered { cls } := nofun

theorem Gathered.contribute {key : Key} {kind : ContainerKind} {b : MemberBinding}
    (gathered : Gathered own)
    (fits : (kind = .set ∧ ∃ element, key.ty = .setOf element) ∨
      (kind = .map ∧ ∃ first second, key.ty = .mapOf first second)) :
    Gathered (contribute own key kind b).1 := by
  have changed {entry : Contributions} (same : entry.kind = kind) :
      Gathered { own with containers := own.containers.insert key entry } := by
    intro other found present
    rw [Table.get?_insert] at present
    split at present
    · rename_i here
      cases present
      rwa [same, ← here]
    · exact gathered other found present
  simp only [Source.contribute]
  split
  · exact changed rfl
  · split
    · rename_i same
      exact changed same
    · exact gathered

theorem Gathered.register (gathered : Gathered own) (m : MemberId) :
    Gathered (src.register own m).1 := by
  simp only [Source.register]
  split
  · split
    · exact gathered.contribute (.inr ⟨rfl, _, _, rfl⟩)
    · exact gathered
  · split
    · exact gathered.contribute (.inl ⟨rfl, _, rfl⟩)
    · split
      · exact gathered
      · simp only [bindDirect]
        split <;> exact gathered

theorem gathered_holdings (cls : ClassId) : Gathered (src.holdings cls).1 := by
  simp only [holdings]
  exact fileAll_keeps Gathered (fun _ _ _ gathered => gathered) (fileAll_keeps Gathered
    (fun m _ own gathered => gathered.register m) nofun)

end Source

/-! ## What is collected -/

/-- It holds everywhere in each catalog that is kept. -/
def CatalogStore.Everywhere (holds : Holdings → Prop) (store : CatalogStore) : Prop :=
  ∀ id c, store.catalogs.get? id = some c → c.Everywhere holds

theorem CatalogStore.Everywhere.finish {holds : Holdings → Prop} {store : CatalogStore}
    {c : Catalog} (kept : store.Everywhere holds) (everywhere : c.Everywhere holds)
    (id : ClassId) : (store.finish id c).Everywhere holds := by
  intro other d found
  simp only [CatalogStore.finish, Table.get?_insert] at found
  split at found
  · cases found
    exact everywhere
  · exact kept other d found

namespace Source

section Collected

variable {src : Source} {holds : Holdings → Prop} {st : Collecting}
  {collect : ClassId → Collecting → Catalog × Collecting}

variable (holds) in
/-- Collecting answers with a catalog in which it holds everywhere, and keeps only such. -/
def CollectsEverywhere (collect : ClassId → Collecting → Catalog × Collecting) : Prop :=
  ∀ id st, st.store.Everywhere holds →
    (collect id st).1.Everywhere holds ∧ (collect id st).2.store.Everywhere holds

theorem everywhere_parentCatalogs (own : Holdings) (params : List ParamDecl)
    (each : CollectsEverywhere holds collect) (kept : st.store.Everywhere holds) :
    (∀ row ∈ (src.parentCatalogs collect own params st).1, row.2.Everywhere holds) ∧
      (src.parentCatalogs collect own params st).2.store.Everywhere holds := by
  induction params generalizing st with
  | nil => exact ⟨nofun, kept⟩
  | cons param rest ih =>
      simp only [parentCatalogs]
      split
      · exact ih kept
      · rename_i id _
        obtain ⟨first, kept'⟩ := each id st kept
        have reported : ((collect id st).2.errors
            (src.parentFindings own (collect id st).1)).store.Everywhere holds := kept'
        obtain ⟨others, kept''⟩ := ih reported
        refine ⟨fun row mem => ?_, kept''⟩
        rcases List.mem_cons.mp mem with rfl | mem
        · exact first
        · exact others row mem

/-- What holds of all that components declare holds everywhere in what is collected. -/
theorem everywhere_collectTo (own : ∀ id, holds (src.holdings id).1)
    (none : ∀ id, holds { cls := id }) (depth : Nat) :
    CollectsEverywhere holds (src.collectTo depth) := by
  have alone (id : ClassId) : (Catalog.ownParent id).Everywhere holds := .mk (none id) nofun
  induction depth with
  | zero => exact fun id st kept => ⟨alone id, kept⟩
  | succ depth ih =>
      intro id st kept
      simp only [collectTo]
      split
      · rename_i c found
        exact ⟨kept id c found, kept⟩
      · split
        · exact ⟨alone id, kept⟩
        · have start : (src.entered id st).store.Everywhere holds := kept
          obtain ⟨parents, kept'⟩ :=
            everywhere_parentCatalogs (src.holdings id).1 (src.parentParams id) ih start
          exact ⟨.mk (own id) parents, kept'.finish (.mk (own id) parents) id⟩

end Collected

end Source

end Injector
