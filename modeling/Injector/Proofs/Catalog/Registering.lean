/-
# Injector.Proofs.Catalog.Registering -- each binding has its place

What `Filed` says of rows, read the other way: a member that is picked as a binding is filed
in one of three tables, by what its declaration says.  It contributes to a set or a map
(`wholeKey?`), or it is a pattern, or it is bound directly.  If nothing is found to be wrong,
each one gets there (`Entered`), whatever else is filed; and sets, maps and patterns hold
nothing but what was picked for them (`Registered`).

Along the walk of a component without faults this holds of every ancestor, and of each
ancestor it was checked which of its direct bindings can be called (`Genuine.walk`).
-/
import Injector.Proofs.Catalog.Filing

namespace Injector

set_option autoImplicit false

namespace Source

variable (src : Source)

/-! ## Three tables -/

/-- The set or the map that the member contributes to. -/
def wholeKey? (cls : ClassId) (m : MemberId) : Option Key :=
  let ty := src.program.returnTypeIn m cls
  if (src.program.memberAt m).contributesToMap then
    if ty.isPair then some (.of (mapOfPair ty) (src.ownQualifier cls m)) else none
  else if (src.program.memberAt m).contributesToSet then
    some (.of (.setOf ty.unqualified) (src.ownQualifier cls m))
  else none

/-- What the member contributes to, if it contributes. -/
def wholeKind (m : MemberId) : ContainerKind :=
  if (src.program.memberAt m).contributesToMap then .map else .set

/-- The member is annotated as a contribution. -/
def contributes (m : MemberId) : Bool :=
  (src.program.memberAt m).contributesToMap || (src.program.memberAt m).contributesToSet

/-- The member binds one key by itself. -/
def bindsDirectly (cls : ClassId) (m : MemberId) : Bool :=
  !src.contributes m && !src.isGeneric cls m

/-- The member as a pattern of the component. -/
def ownPattern (cls : ClassId) (m : MemberId) : GenericMember where
  binding := src.ownBinding cls m
  pattern := src.program.returnTypeIn m cls
  qualifier := src.ownQualifier cls m

variable {src} {own : Holdings} {cls : ClassId} {m : MemberId} {key : Key}

theorem contributes_of_wholeKey? (whole : src.wholeKey? cls m = some key) :
    src.contributes m = true := by
  simp only [wholeKey?] at whole
  split at whole
  · rename_i toMap
    simp [contributes, toMap]
  · split at whole
    · rename_i toSet
      simp [contributes, toSet]
    · cases whole

/-- A contribution is filed with the others to the same set or map. -/
theorem register_of_whole (whole : src.wholeKey? own.cls m = some key) :
    (src.register own m).1 = (contribute own key (src.wholeKind m) (src.ownBinding own.cls m)).1 ∧
      ((src.register own m).2 = [] →
        (contribute own key (src.wholeKind m) (src.ownBinding own.cls m)).2 = []) := by
  simp only [wholeKey?] at whole
  split at whole
  · rename_i toMap
    split at whole
    · rename_i pair
      cases whole
      simp only [register, toMap, pair, if_true, wholeKind]
      exact ⟨rfl, fun quiet => (List.append_eq_nil_iff.mp quiet).2⟩
    · cases whole
  · rename_i noMap
    rw [Bool.not_eq_true] at noMap
    split at whole
    · rename_i toSet
      cases whole
      simp only [register, noMap, toSet, if_true, Bool.false_eq_true, if_false, wholeKind]
      exact ⟨rfl, fun quiet => (List.append_eq_nil_iff.mp quiet).2⟩
    · cases whole

/-- A contribution without a set or a map to go to is reported. -/
theorem whole_of_quiet (quiet : (src.register own m).2 = []) (contributes : src.contributes m = true) :
    ∃ key, src.wholeKey? own.cls m = some key := by
  simp only [register] at quiet
  simp only [wholeKey?]
  split at quiet
  · rename_i toMap
    rw [if_pos toMap]
    split at quiet
    · rename_i pair
      rw [if_pos pair]
      exact ⟨_, rfl⟩
    · cases (List.append_eq_nil_iff.mp quiet).2
  · rename_i noMap
    have toSet : (src.program.memberAt m).contributesToSet = true := by
      simpa [Source.contributes, noMap] using contributes
    rw [if_neg noMap, if_pos toSet]
    exact ⟨_, rfl⟩

theorem register_of_generic (single : src.contributes m = false)
    (generic : src.isGeneric own.cls m = true) :
    (src.register own m).1 =
      { own with generics := own.generics ++ [src.ownPattern own.cls m] } := by
  obtain ⟨noMap, noSet⟩ := Bool.or_eq_false_iff.mp single
  simp only [isGeneric] at generic
  simp only [register, noMap, noSet, generic, Bool.false_eq_true, if_false, if_true]
  rfl

theorem register_of_direct (direct : src.bindsDirectly own.cls m = true) :
    (src.register own m).1 = (bindDirect own (.of (src.program.returnTypeIn m own.cls)
        (src.ownQualifier own.cls m)) (src.ownBinding own.cls m)).1 ∧
      ((src.register own m).2 = [] →
        (bindDirect own (.of (src.program.returnTypeIn m own.cls) (src.ownQualifier own.cls m))
          (src.ownBinding own.cls m)).2 = []) := by
  simp only [bindsDirectly, Bool.and_eq_true, Bool.not_eq_true'] at direct
  obtain ⟨noMap, noSet⟩ := Bool.or_eq_false_iff.mp direct.1
  have plain := direct.2
  simp only [isGeneric] at plain
  simp only [register, noMap, noSet, plain, Bool.false_eq_true, if_false]
  exact ⟨rfl, fun quiet => (List.append_eq_nil_iff.mp quiet).2⟩

/-- What a member does that is filed without a finding. -/
theorem register_cases (quiet : (src.register own m).2 = []) :
    (∃ key, src.wholeKey? own.cls m = some key ∧
        (src.register own m).1 =
          (contribute own key (src.wholeKind m) (src.ownBinding own.cls m)).1 ∧
        (contribute own key (src.wholeKind m) (src.ownBinding own.cls m)).2 = []) ∨
      (src.contributes m = false ∧ src.isGeneric own.cls m = true ∧
        (src.register own m).1 =
          { own with generics := own.generics ++ [src.ownPattern own.cls m] }) ∨
      (src.bindsDirectly own.cls m = true ∧ ∃ key,
        (src.register own m).1 = (bindDirect own key (src.ownBinding own.cls m)).1 ∧
        (bindDirect own key (src.ownBinding own.cls m)).2 = []) := by
  cases among : src.contributes m with
  | true =>
      obtain ⟨key, whole⟩ := whole_of_quiet quiet among
      obtain ⟨same, none⟩ := register_of_whole whole
      exact .inl ⟨key, whole, same, none quiet⟩
  | false =>
      cases generic : src.isGeneric own.cls m with
      | true => exact .inr (.inl ⟨rfl, rfl, register_of_generic among generic⟩)
      | false =>
          have direct : src.bindsDirectly own.cls m = true := by
            simp [bindsDirectly, among, generic]
          obtain ⟨same, none⟩ := register_of_direct direct
          exact .inr (.inr ⟨direct, _, same, none quiet⟩)

end Source

/-! ## Without findings -/

/-- The component itself has `b` among the contributions to `key`. -/
def Holdings.Gathers (own : Holdings) (key : Key) (b : MemberBinding) : Prop :=
  ∃ entry, own.containers.get? key = some entry ∧ b ∈ entry.contributors

namespace Source

section Filing

variable {src : Source} {own : Holdings} {cls : ClassId} {m n : MemberId} {key : Key}
  {b : MemberBinding} {met : List MemberId}

/-- A contribution without a finding joins those that are there. -/
theorem gathers_contribute {kind : ContainerKind} (quiet : (contribute own key kind b).2 = []) :
    ∃ containers, (contribute own key kind b).1 = { own with containers } ∧
      { own with containers }.Gathers key b ∧
      (∀ other c, { own with containers }.Gathers other c →
        own.Gathers other c ∨ other = key ∧ c = b) ∧
      ∀ other c, own.Gathers other c → { own with containers }.Gathers other c := by
  -- only the contributions to the key are new
  have changed {entry : Contributions} (here : b ∈ entry.contributors)
      (only : ∀ c ∈ entry.contributors, own.Gathers key c ∨ c = b)
      (kept : ∀ c, own.Gathers key c → c ∈ entry.contributors) :
      { own with containers := own.containers.insert key entry }.Gathers key b ∧
        (∀ other c, { own with containers := own.containers.insert key entry }.Gathers other c →
          own.Gathers other c ∨ other = key ∧ c = b) ∧
        ∀ other c, own.Gathers other c →
          { own with containers := own.containers.insert key entry }.Gathers other c := by
    refine ⟨⟨entry, by rw [Table.get?_insert, if_pos rfl], here⟩, ?_, ?_⟩
    · rintro other c ⟨found, present, mem⟩
      rw [Table.get?_insert] at present
      split at present
      · subst other
        cases present
        exact (only c mem).imp_right fun same => ⟨rfl, same⟩
      · exact .inl ⟨found, present, mem⟩
    · rintro other c ⟨found, present, mem⟩
      by_cases at_ : key = other
      · subst other
        exact ⟨entry, by rw [Table.get?_insert, if_pos rfl], kept c ⟨found, present, mem⟩⟩
      · exact ⟨found, by rw [Table.get?_insert, if_neg at_, present], mem⟩
  simp only [contribute] at quiet ⊢
  split
  · rename_i absent
    refine ⟨_, rfl, changed (by simp) (by simp) ?_⟩
    rintro c ⟨entry, present, -⟩
    cases absent.symm.trans present
  · rename_i entry present
    rw [present] at quiet
    split
    · refine ⟨_, rfl, changed (by simp) (fun c mem => ?_) ?_⟩
      · rcases List.mem_append.mp mem with mem | only
        · exact .inl ⟨entry, present, mem⟩
        · exact .inr (List.mem_singleton.mp only)
      · rintro c ⟨found, present', mem⟩
        cases present.symm.trans present'
        exact List.mem_append_left _ mem
    · rename_i different
      simp only [if_neg different] at quiet
      cases quiet

/-- A key that is bound without a finding was not bound before. -/
theorem bindDirect_of_quiet (quiet : (bindDirect own key b).2 = []) :
    ∃ direct, (bindDirect own key b).1 = { own with direct } := by
  simp only [bindDirect] at quiet ⊢
  split
  · exact ⟨_, rfl⟩
  · rename_i existing present
    rw [present] at quiet
    cases quiet

variable (src) in
/-- The member is filed where its declaration says. -/
structure Entered (cls : ClassId) (own : Holdings) (m : MemberId) : Prop where
  whole : src.contributes m = true → ∃ key, src.wholeKey? cls m = some key
  gathered : ∀ key, src.wholeKey? cls m = some key → own.Gathers key (src.ownBinding cls m)
  generic : src.contributes m = false → src.isGeneric cls m = true →
    src.ownPattern cls m ∈ own.generics

variable (src) in
/-- The members met are filed, and no others contribute or are patterns. -/
structure Registered (cls : ClassId) (met : List MemberId) (own : Holdings) : Prop where
  owner : own.cls = cls
  entered : ∀ m ∈ met, src.Entered cls own m
  contribution : ∀ key b, own.Gathers key b → b.member ∈ met ∧ src.wholeKey? cls b.member = some key
  pattern : ∀ g ∈ own.generics, g.binding.member ∈ met ∧
    src.isGeneric cls g.binding.member = true
  single : own.duplicated = []

/-- One more member is filed, where those before it stay. -/
theorem Registered.next {more : Holdings} (registered : src.Registered cls met own)
    (owner : more.cls = own.cls) (gathers : ∀ key c, own.Gathers key c → more.Gathers key c)
    (generics : own.generics ⊆ more.generics) (entered : src.Entered cls more m)
    (contribution : ∀ key c, more.Gathers key c →
      own.Gathers key c ∨ c.member = m ∧ src.wholeKey? cls m = some key)
    (pattern : ∀ g ∈ more.generics,
      g ∈ own.generics ∨ g.binding.member = m ∧ src.isGeneric cls m = true)
    (single : more.duplicated = own.duplicated) :
    src.Registered cls (met ++ [m]) more := by
  have last : m ∈ met ++ [m] := List.mem_append_right _ (List.mem_singleton_self m)
  refine ⟨owner.trans registered.owner, ?_, fun key c here => ?_, fun g here => ?_,
    single.trans registered.single⟩
  · refine List.forall_mem_append.mpr ⟨fun n mem => ?_, List.forall_mem_singleton.mpr entered⟩
    obtain ⟨whole, gathered, generic⟩ := registered.entered n mem
    exact ⟨whole, fun key found => gathers key _ (gathered key found),
      fun alone pattern => generics (generic alone pattern)⟩
  · rcases contribution key c here with before | ⟨rfl, whole⟩
    · exact (registered.contribution key c before).imp_left (List.mem_append_left _)
    · exact ⟨last, whole⟩
  · rcases pattern g here with before | ⟨rfl, generic⟩
    · exact (registered.pattern g before).imp_left (List.mem_append_left _)
    · exact ⟨last, generic⟩

/-- A member that is filed without a finding is filed with those before. -/
theorem Registered.register (registered : src.Registered cls met own)
    (quiet : (src.register own m).2 = []) :
    src.Registered cls (met ++ [m]) (src.register own m).1 := by
  obtain rfl := registered.owner
  rcases register_cases quiet with ⟨key, whole, same, none⟩ | ⟨alone, generic, same⟩ | ⟨direct, key, same, none⟩
  · obtain ⟨containers, joined, here, only, kept⟩ := gathers_contribute none
    rw [same, joined]
    refine registered.next rfl kept (List.Subset.refl _) ⟨fun _ => ⟨key, whole⟩, ?_, ?_⟩ ?_
      (fun g mem => .inl mem) rfl
    · intro other found
      cases whole.symm.trans found
      exact here
    · intro alone
      cases alone.symm.trans (contributes_of_wholeKey? whole)
    · intro other c gathers
      rcases only other c gathers with before | ⟨rfl, rfl⟩
      · exact .inl before
      · exact .inr ⟨rfl, whole⟩
  · rw [same]
    refine registered.next rfl (fun _ _ gathers => gathers) (List.subset_append_left _ _)
      ⟨fun among => ?_, fun other whole => ?_, fun _ _ => ?_⟩ (fun _ _ gathers => .inl gathers)
      (fun g mem => ?_) rfl
    · cases alone.symm.trans among
    · cases alone.symm.trans (contributes_of_wholeKey? whole)
    · exact List.mem_append_right _ (List.mem_singleton_self _)
    · rcases List.mem_append.mp mem with mem | last
      · exact .inl mem
      · obtain rfl := List.mem_singleton.mp last
        exact .inr ⟨rfl, generic⟩
  · obtain ⟨table, bound⟩ := bindDirect_of_quiet none
    rw [same, bound]
    simp only [bindsDirectly, Bool.and_eq_true, Bool.not_eq_true'] at direct
    obtain ⟨alone, plain⟩ := direct
    refine registered.next rfl (fun _ _ gathers => gathers) (List.Subset.refl _)
      ⟨fun among => ?_, fun other whole => ?_, fun _ generic => ?_⟩
      (fun _ _ gathers => .inl gathers) (fun g mem => .inl mem) rfl
    · cases alone.symm.trans among
    · cases alone.symm.trans (contributes_of_wholeKey? whole)
    · cases plain.symm.trans generic

/-- Going through members without a finding files them all. -/
theorem Registered.all {more : List MemberId} (registered : src.Registered cls met own)
    (quiet : (fileAll src.register own more).2 = []) :
    src.Registered cls (met ++ more) (fileAll src.register own more).1 := by
  induction more generalizing met own with
  | nil =>
      rw [List.append_nil]
      exact registered
  | cons m rest ih =>
      obtain ⟨first, others⟩ := List.append_eq_nil_iff.mp quiet
      have next := ih (registered.register first) others
      rwa [List.append_assoc, List.singleton_append] at next

theorem Registered.registerAccessor (registered : src.Registered cls met own) (m : MemberId) :
    src.Registered cls met (src.registerAccessor own m).1 :=
  ⟨registered.owner, fun n mem => ⟨(registered.entered n mem).whole,
      (registered.entered n mem).gathered, (registered.entered n mem).generic⟩,
    registered.contribution, registered.pattern, registered.single⟩

/-- What a component declares itself, if nothing is wrong with it, is what was picked. -/
theorem registered_holdings (quiet : (src.holdings cls).2 = []) :
    src.Registered cls (src.scan cls).provides (src.holdings cls).1 := by
  obtain ⟨picked, -⟩ := List.append_eq_nil_iff.mp quiet
  obtain ⟨-, filed⟩ := List.append_eq_nil_iff.mp picked
  have start : src.Registered cls []
      { cls, scope := (src.scan cls).scope.map (·.1), accessors := (src.scan cls).accessors } :=
    { owner := rfl
      entered := nofun
      contribution := fun key b gathers => by
        obtain ⟨entry, present, -⟩ := gathers
        cases present
      pattern := nofun
      single := rfl }
  simp only [holdings]
  refine fileAll_keeps _ (fun m _ own registered => registered.registerAccessor m) ?_
  have registered := start.all filed
  rwa [List.nil_append] at registered

theorem passthroughs_register (own : Holdings) (m : MemberId) :
    (src.register own m).1.passthroughs = own.passthroughs := by
  have contributed (key : Key) (kind : ContainerKind) (b : MemberBinding) :
      (contribute own key kind b).1.passthroughs = own.passthroughs := by
    simp only [contribute]
    split
    · rfl
    · split <;> rfl
  simp only [Source.register]
  split
  · split
    · exact contributed _ _ _
    · rfl
  · split
    · exact contributed _ _ _
    · split
      · rfl
      · simp only [bindDirect]
        split <;> rfl

/-- The ways in are accessors of the component. -/
theorem mem_accessors_of_passthrough
    (way : (src.holdings cls).1.passthroughs.get? key = some b) :
    b.member ∈ (src.scan cls).accessors := by
  let within (own : Holdings) : Prop :=
    ∀ key b, own.passthroughs.get? key = some b → b.member ∈ (src.scan cls).accessors
  have all : within (src.holdings cls).1 := by
    simp only [holdings]
    refine fileAll_keeps within (fun m mem own before key b way => ?_)
      (fileAll_keeps within (fun m _ own before => ?_) fun key b way => ?_)
    · simp only [Source.registerAccessor] at way
      rcases Table.of_get?_insertNew way with way | ⟨-, rfl⟩
      · exact before key b way
      · exact mem
    · simp only [within, passthroughs_register]
      exact before
    · cases way
  exact all key b way

end Filing

/-! ## Along the walk -/

section Walk

variable {src : Source} {own : Holdings} {params : List ParamDecl} {id : ClassId} {c : Catalog}
  {parents : List (String × Catalog)}

theorem GenuineParents.row (genuine : src.GenuineParents own params parents) :
    ∀ row ∈ parents, (∃ id, src.Genuine id row.2) ∧ src.parentFindings own row.2 = [] := by
  induction params generalizing parents with
  | nil =>
      cases genuine
      exact nofun
  | cons param rest ih =>
      cases genuine with
      | cons named parent fine more =>
          intro row mem
          rcases List.mem_cons.mp mem with rfl | mem
          · exact ⟨⟨_, parent⟩, fine⟩
          · exact ih more row mem

/-- Nothing is wrong with what a component without faults declares itself. -/
theorem Genuine.registered (genuine : src.Genuine id c) :
    c.own = (src.holdings id).1 ∧ c.own.cls = id ∧
      src.Registered id (src.scan id).provides c.own := by
  cases genuine with
  | mk quiet =>
      have registered := registered_holdings quiet
      exact ⟨rfl, registered.owner, registered⟩

end Walk

variable (src : Source)

/-- A component without faults; and if it is an ancestor, one that was checked as a parent. -/
def Checked (place : FieldPath × Catalog) : Prop :=
  (∃ id, src.Genuine id place.2) ∧
    (place.1.isHere = false → ∃ own, src.parentFindings own place.2 = [])

variable {src} {id : ClassId} {c : Catalog}

/-- Each ancestor of a component without faults is one, and was checked as a parent. -/
theorem Genuine.walk (genuine : src.Genuine id c) : ∀ place ∈ c.walk, src.Checked place := by
  apply Catalog.walk_induction
  · exact ⟨⟨id, genuine⟩, nofun⟩
  · rintro ⟨path, c⟩ ⟨⟨id, genuine⟩, -⟩ next linked
    obtain ⟨row, mem, rfl⟩ := List.mem_map.mp linked
    cases genuine with
    | mk quiet parents =>
        obtain ⟨parent, fine⟩ := parents.row row mem
        exact ⟨parent, fun _ => ⟨_, fine⟩⟩

end Source

end Injector
