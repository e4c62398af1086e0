/-
# Injector.Proofs.Catalog.Overriding -- overridden members do not bind

A scan goes through the members that a component has or inherits, and passes over a member
that one before it overrides.  If overriding composes, no member before one that is left
overrides it (`scanned_scan`), and whatever a component binds was left (`Binds.seen`).

Hence overridden members do not bind where each of them comes after one that overrides it
(`overridden_unbound`), in particular where the classes of a plain hierarchy come after
their subtypes.  The walk over the hierarchy does not see to that: a class that is extended
directly, and once more by another supertype further on, comes too early
(`baseFirst_overridden_refuted`).
-/
import Injector.Proofs.Program.Chain
import Injector.Proofs.Catalog.Filing
import Injector.Proofs.Generation.Sessions
import Mathlib.Data.List.Pairwise

namespace Injector

set_option autoImplicit false

/-! ## Overriding along a hierarchy -/

namespace Program

variable (p : Program)

/-- The members of a class and of the classes above it, in the order of the walk. -/
def chainMembers (cls : ClassId) : List MemberId :=
  (p.chain cls).flatMap fun c => (p.classAt c).members

/-- One of the members overrides `m`. -/
def Overridden (ms : List MemberId) (m : MemberId) : Prop := ∃ n ∈ ms, p.overrides n m = true

instance (ms : List MemberId) (m : MemberId) : Decidable (p.Overridden ms m) :=
  inferInstanceAs (Decidable (∃ n ∈ ms, _))

/-- Whatever a member overrides is overridden by those that override the member. -/
def OverridesCompose (ms : List MemberId) : Prop :=
  ∀ o ∈ ms, ∀ n ∈ ms, ∀ m ∈ ms, p.overrides o n = true → p.overrides n m = true →
    p.overrides o m = true

instance (ms : List MemberId) : Decidable (p.OverridesCompose ms) :=
  inferInstanceAs (Decidable (∀ _ ∈ ms, _))

/-- A member that is overridden comes after one that overrides it. -/
def OverriddenLater (ms : List MemberId) : Prop :=
  ∀ row ∈ ms.zipIdx, p.Overridden ms row.1 → p.Overridden (ms.take row.2) row.1

instance (ms : List MemberId) : Decidable (p.OverriddenLater ms) :=
  inferInstanceAs (Decidable (∀ _ ∈ ms.zipIdx, _))

/-- The hierarchy above a class has no type variables, each member belongs to the class that
lists it, and no class comes before one of its subtypes. -/
structure Layered (cls : ClassId) : Prop where
  plain : ∀ c ∈ p.chain cls, (p.classAt c).typeVars = []
  owned : ∀ c ∈ p.chain cls, ∀ m ∈ (p.classAt c).members, (p.memberAt m).owner = some c
  ordered : (p.chain cls).Pairwise fun c d => c ∉ p.chain d

variable {p} {ms : List MemberId} {m n o : MemberId} {cls : ClassId}

theorem Overridden.of_subset {more : List MemberId} (overridden : p.Overridden ms m)
    (among : ms ⊆ more) : p.Overridden more m :=
  let ⟨n, mem, overrides⟩ := overridden
  ⟨n, among mem, overrides⟩

/-- What overriding says of the two declarations. -/
theorem overrides_iff : p.overrides n m = true ↔ ∃ c d,
    (p.memberAt n).owner = some c ∧ (p.memberAt m).owner = some d ∧ c ≠ d ∧ d ∈ p.chain c ∧
      (p.memberAt n).name = (p.memberAt m).name ∧ (p.memberAt n).kind = (p.memberAt m).kind ∧
      sameParams (p.memberSubst c d) (p.memberAt n).params (p.memberAt m).params = true ∧
      (p.memberAt n).receiver.map Ty.dealias =
        (p.memberAt m).receiver.map fun r => (r.subst (p.memberSubst c d)).dealias := by
  simp only [overrides]
  cases (p.memberAt n).owner with
  | none => simp
  | some c =>
      cases (p.memberAt m).owner with
      | none => simp
      | some d =>
          simp only [Option.some.injEq, exists_and_left, exists_eq_left']
          split
          · rename_i apart
            simp only [Bool.false_eq_true, false_iff]
            rintro ⟨classes, -, names, kinds, -⟩
            rcases apart with same | other | other
            · exact classes same
            · exact other names
            · exact other kinds
          · rename_i alike
            simp only [not_or, Decidable.not_not] at alike
            obtain ⟨classes, names, kinds⟩ := alike
            simp [classes, names, kinds]

/-! ## Plain hierarchies -/

theorem sameParams_trans : ∀ {as bs cs : List ParamDecl}, sameParams .empty as bs = true →
    sameParams .empty bs cs = true → sameParams .empty as cs = true
  | [], [], [], _, _ => rfl
  | a :: as, b :: bs, c :: cs, first, second => by
    simp only [sameParams, Ty.subst_empty, Bool.and_eq_true] at first second ⊢
    exact ⟨Ty.agrees_trans first.1 second.1, sameParams_trans first.2 second.2⟩
  | [], _ :: _, _, first, _ => by cases first
  | _ :: _, [], _, first, _ => by cases first
  | [], [], _ :: _, _, second => by cases second
  | _ :: _, _ :: _, [], _, second => by cases second

/-- Where a class has no type variables, nothing stands for them. -/
theorem memberSubst_of_plain {c d : ClassId} (plain : (p.classAt d).typeVars = []) :
    p.memberSubst c d = .empty := by
  simp only [memberSubst]
  split
  · rfl
  · split
    · simp only [ClassDecl.substFor, plain]
      rfl
    · rfl

/-- Of two classes one is not above the other one. -/
theorem Layered.not_both (layered : p.Layered cls) {c d : ClassId} (memC : c ∈ p.chain cls)
    (memD : d ∈ p.chain cls) (apart : c ≠ d) : c ∉ p.chain d ∨ d ∉ p.chain c := by
  have symmetric : Std.Symm fun a b => a ∉ p.chain b ∨ b ∉ p.chain a := ⟨fun _ _ => Or.symm⟩
  have either : (p.chain cls).Pairwise fun a b => a ∉ p.chain b ∨ b ∉ p.chain a :=
    layered.ordered.imp fun here => .inl here
  exact either.forall memC memD apart

theorem Layered.overridesCompose (layered : p.Layered cls) :
    p.OverridesCompose (p.chainMembers cls) := by
  intro o memO n memN m memM first second
  obtain ⟨c, d, ownerO, ownerN, apart, below, names, kinds, params, receivers⟩ :=
    overrides_iff.mp first
  obtain ⟨d', e, ownerN', ownerM, apart', below', names', kinds', params', receivers'⟩ :=
    overrides_iff.mp second
  obtain rfl : d = d' := Option.some.inj (ownerN.symm.trans ownerN')
  have listed {x : MemberId} {b : ClassId} (mem : x ∈ p.chainMembers cls)
      (owner : (p.memberAt x).owner = some b) : b ∈ p.chain cls := by
    obtain ⟨a, among, mem⟩ := List.mem_flatMap.mp mem
    obtain rfl : a = b := Option.some.inj ((layered.owned a among x mem).symm.trans owner)
    exact among
  rw [memberSubst_of_plain (layered.plain d (listed memN ownerN))] at params receivers
  rw [memberSubst_of_plain (layered.plain e (listed memM ownerM))] at params' receivers'
  have through : e ∈ p.chain c := mem_chain_iff.mpr ((mem_chain_iff.mp below).trans
    (mem_chain_iff.mp below'))
  -- a class above itself would come before one of its subtypes
  have other : c ≠ e := by
    rintro rfl
    exact (layered.not_both (listed memO ownerO) (listed memN ownerN) apart).elim
      (fun wrong => wrong below') fun wrong => wrong below
  refine overrides_iff.mpr ⟨c, e, ownerO, ownerM, other, through, names.trans names',
    kinds.trans kinds', ?_, ?_⟩
  · rw [memberSubst_of_plain (layered.plain e (listed memM ownerM))]
    exact sameParams_trans params params'
  · rw [memberSubst_of_plain (layered.plain e (listed memM ownerM)), receivers]
    simpa only [Ty.subst_empty] using receivers'

theorem Layered.overriddenLater (layered : p.Layered cls) :
    p.OverriddenLater (p.chainMembers cls) := by
  have before (m n : MemberId) (cs : List ClassId)
      (owned : ∀ c ∈ cs, ∀ m ∈ (p.classAt c).members, (p.memberAt m).owner = some c)
      (ordered : cs.Pairwise fun c d => c ∉ p.chain d) {i : Nat}
      (at_ : (cs.flatMap fun c => (p.classAt c).members)[i]? = some m)
      (mem : n ∈ cs.flatMap fun c => (p.classAt c).members) (overrides : p.overrides n m = true) :
      n ∈ (cs.flatMap fun c => (p.classAt c).members).take i := by
    induction cs generalizing i with
    | nil => cases mem
    | cons c rest ih =>
        obtain ⟨first, ordered⟩ := List.pairwise_cons.mp ordered
        have owned' := fun d mem => owned d (List.mem_cons_of_mem c mem)
        rw [List.flatMap_cons] at at_ mem ⊢
        rw [List.take_append, List.mem_append]
        by_cases here : i < (p.classAt c).members.length
        · obtain ⟨d, e, ownerN, ownerM, apart, below, -⟩ := overrides_iff.mp overrides
          rw [List.getElem?_append_left here] at at_
          obtain rfl : c = e := Option.some.inj
            ((owned c List.mem_cons_self m (List.mem_of_getElem? at_)).symm.trans ownerM)
          rcases List.mem_append.mp mem with mem | mem
          · exact absurd (Option.some.inj (ownerN.symm.trans (owned c List.mem_cons_self n mem)))
              apart
          · obtain ⟨b, among, mem⟩ := List.mem_flatMap.mp mem
            obtain rfl : b = d := Option.some.inj ((owned' b among n mem).symm.trans ownerN)
            exact absurd below (first b among)
        · rw [Nat.not_lt] at here
          rw [List.getElem?_append_right here] at at_
          rcases List.mem_append.mp mem with mem | mem
          · exact .inl (by rwa [List.take_of_length_le here])
          · exact .inr (ih owned' ordered at_ mem)
  rintro ⟨m, i⟩ row ⟨n, mem, overrides⟩
  exact ⟨n, before m n _ layered.owned layered.ordered (List.mem_zipIdx_iff_getElem?.mp row) mem
    overrides, overrides⟩

end Program

/-! ## What a scan passes over -/

namespace Source

open Program (chainMembers)

variable (src : Source)

/-- What is picked was not passed over; and what was met and passed over is overridden by
something that was not. -/
structure Scanned (met : List MemberId) (s : Scan) : Prop where
  picked : ∀ m, m ∈ s.provides ∨ m ∈ s.accessors → m ∈ s.seen
  covered : ∀ m ∈ met, m ∈ s.seen ∨ src.program.Overridden s.seen m
  standing : ∀ m ∈ s.seen, ∃ before after, met = before ++ m :: after ∧
    ¬src.program.Overridden before m

variable {src} {ms met : List MemberId} {s : Scan} {m : MemberId} {cls : ClassId}

theorem Scanned.mem_met (scanned : src.Scanned met s) (mem : m ∈ s.seen) : m ∈ met := by
  obtain ⟨before, after, rfl, -⟩ := scanned.standing m mem
  simp

/-- A pick leaves the members that were met as they are. -/
theorem Scanned.scanProvides (scanned : src.Scanned met s) (isComponent : Bool)
    (mem : m ∈ s.seen) : src.Scanned met (src.scanProvides isComponent m s) := by
  simp only [Source.scanProvides]
  split
  · exact ⟨scanned.picked, scanned.covered, scanned.standing⟩
  · refine ⟨fun other picked => ?_, scanned.covered, scanned.standing⟩
    rcases picked with provides | accessor
    · rcases List.mem_append.mp provides with provides | only
      · exact scanned.picked other (.inl provides)
      · exact List.mem_singleton.mp only ▸ mem
    · exact scanned.picked other (.inr accessor)

theorem Scanned.pass (scanned : src.Scanned met s) (overridden : src.program.Overridden s.seen m) :
    src.Scanned (met ++ [m]) s where
  picked := scanned.picked
  covered n mem := by
    rcases List.mem_append.mp mem with mem | only
    · exact scanned.covered n mem
    · exact .inr (List.mem_singleton.mp only ▸ overridden)
  standing n mem := by
    obtain ⟨before, after, rfl, none⟩ := scanned.standing n mem
    exact ⟨before, after ++ [m], by simp, none⟩

/-- If overriding composes, nothing that was met overrides a member that nothing standing
overrides. -/
theorem Scanned.take (composes : src.program.OverridesCompose ms) (scanned : src.Scanned met s)
    (among : met ++ [m] ⊆ ms) (none : ¬src.program.Overridden s.seen m) :
    src.Scanned (met ++ [m]) { s with seen := s.seen ++ [m] } := by
  obtain ⟨earlier, here⟩ := List.append_subset.mp among
  refine ⟨fun n picked => List.mem_append_left _ (scanned.picked n picked), fun n mem => ?_,
    fun n mem => ?_⟩
  · rcases List.mem_append.mp mem with mem | only
    · refine (scanned.covered n mem).imp (List.mem_append_left _) fun overridden => ?_
      exact overridden.of_subset (List.subset_append_left _ _)
    · exact .inl (List.mem_append_right _ only)
  · rcases List.mem_append.mp mem with mem | only
    · obtain ⟨before, after, rfl, none⟩ := scanned.standing n mem
      exact ⟨before, after ++ [m], by simp, none⟩
    · obtain rfl := List.mem_singleton.mp only
      refine ⟨met, [], rfl, ?_⟩
      rintro ⟨o, mem, overrides⟩
      rcases scanned.covered o mem with standing | ⟨top, standing, above⟩
      · exact none ⟨o, standing, overrides⟩
      · exact none ⟨top, standing, composes top (earlier (scanned.mem_met standing)) o
          (earlier mem) n (here (List.mem_singleton_self n)) above overrides⟩

theorem Scanned.scanMember (composes : src.program.OverridesCompose ms)
    (scanned : src.Scanned met s) (among : met ++ [m] ⊆ ms) (isComponent : Bool) :
    src.Scanned (met ++ [m]) (src.scanMember isComponent s m) := by
  simp only [Source.scanMember]
  split
  · rename_i overriding found
    have mem : overriding ∈ s.seen := List.mem_of_find?_eq_some found
    have overrides : src.program.overrides overriding m = true := by
      simpa using List.find?_some found
    have passed := scanned.pass ⟨overriding, mem, overrides⟩
    split
    · exact passed.scanProvides isComponent mem
    · exact passed
  · rename_i none
    have none : ¬src.program.Overridden s.seen m := by
      rintro ⟨n, mem, overrides⟩
      exact absurd overrides (List.find?_eq_none.mp none n mem)
    have taken := scanned.take composes among none
    have here : m ∈ s.seen ++ [m] := List.mem_append_right _ (List.mem_singleton_self m)
    split
    · exact taken.scanProvides isComponent here
    · split
      · refine ⟨fun n picked => ?_, taken.covered, taken.standing⟩
        rcases picked with provides | accessor
        · exact taken.picked n (.inl provides)
        · rcases List.mem_append.mp accessor with accessor | only
          · exact taken.picked n (.inr accessor)
          · exact List.mem_singleton.mp only ▸ here
      · exact taken

/-- The scope of a class has nothing to do with its members. -/
theorem scanScope_frame (s : Scan) (id : ClassId) :
    (src.scanScope s id).seen = s.seen ∧ (src.scanScope s id).provides = s.provides ∧
      (src.scanScope s id).accessors = s.accessors := by
  simp only [Source.scanScope]
  split
  · exact ⟨rfl, rfl, rfl⟩
  · exact ⟨rfl, rfl, rfl⟩
  · split <;> exact ⟨rfl, rfl, rfl⟩

theorem Scanned.scanScope (scanned : src.Scanned met s) (id : ClassId) :
    src.Scanned met (src.scanScope s id) := by
  obtain ⟨seen, provides, accessors⟩ := src.scanScope_frame s id
  refine ⟨?_, ?_, ?_⟩
  · rw [seen, provides, accessors]
    exact scanned.picked
  · rw [seen]
    exact scanned.covered
  · rw [seen]
    exact scanned.standing

/-- What each step keeps, from member to member along the hierarchy, holds of the whole scan. -/
theorem scan_induction {holds : List MemberId → Scan → Prop} (start : holds [] {})
    (scope : ∀ met s id, holds met s → holds met (src.scanScope s id))
    (member : ∀ met m after s, src.program.chainMembers cls = met ++ m :: after → holds met s →
      holds (met ++ [m]) (src.scanMember
        (AnnotationUse.markComponent (src.program.classAt cls).annotations) s m)) :
    holds (src.program.chainMembers cls) (src.scan cls) := by
  have members (more met after : List MemberId) (s : Scan)
      (whole : src.program.chainMembers cls = met ++ more ++ after) (before : holds met s) :
      holds (met ++ more) (more.foldl (src.scanMember
        (AnnotationUse.markComponent (src.program.classAt cls).annotations)) s) := by
    induction more generalizing met s with
    | nil => simpa using before
    | cons m rest ih =>
        have split : met ++ m :: rest = met ++ [m] ++ rest := by simp
        rw [split] at whole ⊢
        exact ih _ _ whole (member met m (rest ++ after) s (by simpa using whole) before)
  have classes (ids : List ClassId) (met : List MemberId) (s : Scan)
      (whole : src.program.chainMembers cls =
        met ++ ids.flatMap fun c => (src.program.classAt c).members) (before : holds met s) :
      holds (src.program.chainMembers cls) (ids.foldl (src.scanClass
        (AnnotationUse.markComponent (src.program.classAt cls).annotations)) s) := by
    induction ids generalizing met s with
    | nil =>
        rw [whole]
        simpa using before
    | cons id rest ih =>
        rw [List.flatMap_cons, ← List.append_assoc] at whole
        exact ih _ _ whole (members _ _ _ _ whole (scope met s id before))
  exact classes _ [] {} rfl start

/-- What a scan of a hierarchy meets are the members of its classes. -/
theorem scanned_scan (composes : src.program.OverridesCompose (src.program.chainMembers cls)) :
    src.Scanned (src.program.chainMembers cls) (src.scan cls) := by
  refine scan_induction ⟨by simp, by simp, by simp⟩ (fun _ _ id scanned => scanned.scanScope id) ?_
  intro met m after s whole scanned
  have among : met ++ [m] ⊆ src.program.chainMembers cls := by
    rw [whole]
    exact List.append_subset.mpr ⟨List.subset_append_left _ _, by simp⟩
  exact scanned.scanMember composes among _

/-! ## What binds was not passed over -/

end Source

/-- The component binds the member, or implements it as an accessor. -/
def Holdings.Binds (own : Holdings) (m : MemberId) : Prop :=
  m ∈ own.accessors ∨ (∃ b ∈ own.direct.values, b.member = m) ∨
    (∃ entry ∈ own.containers.values, ∃ b ∈ entry.contributors, b.member = m) ∨
      (∃ g ∈ own.generics, g.binding.member = m) ∨ ∃ b ∈ own.passthroughs.values, b.member = m

instance (own : Holdings) (m : MemberId) : Decidable (own.Binds m) :=
  inferInstanceAs (Decidable (_ ∨ _ ∨ _ ∨ _ ∨ _))

section Filing

open Source

variable {src : Source} {own : Holdings} {b : MemberBinding} {key : Key} {m n : MemberId}
  {cls : ClassId}

namespace Holdings

theorem Binds.of_contribute {kind : ContainerKind}
    (binds : (contribute own key kind b).1.Binds m) : own.Binds m ∨ m = b.member := by
  -- only the contributions to the key are new
  have changed {entry : Contributions}
      (new : ∀ c ∈ entry.contributors, own.Binds c.member ∨ c = b)
      (binds : { own with containers := own.containers.insert key entry }.Binds m) :
      own.Binds m ∨ m = b.member := by
    rcases binds with here | here | ⟨found, mem, c, among, rfl⟩ | here
    · exact .inl (.inl here)
    · exact .inl (.inr (.inl here))
    · rcases Table.mem_values_insert mem with rfl | mem
      · exact (new c among).imp_right (congrArg MemberBinding.member)
      · exact .inl (.inr (.inr (.inl ⟨found, mem, c, among, rfl⟩)))
    · exact .inl (.inr (.inr (.inr here)))
  simp only [contribute] at binds
  split at binds
  · exact changed (fun c only => .inr (List.mem_singleton.mp only)) binds
  · rename_i entry present
    split at binds
    · refine changed (fun c mem => ?_) binds
      rcases List.mem_append.mp mem with mem | only
      · exact .inl (.inr (.inr (.inl ⟨entry, Table.mem_values_of_get? present, c, mem, rfl⟩)))
      · exact .inr (List.mem_singleton.mp only)
    · exact .inl binds

theorem Binds.of_bindDirect (binds : (bindDirect own key b).1.Binds m) :
    own.Binds m ∨ m = b.member := by
  simp only [bindDirect] at binds
  split at binds
  · rcases binds with here | ⟨c, mem, rfl⟩ | here
    · exact .inl (.inl here)
    · rcases Table.mem_values_insert mem with rfl | mem
      · exact .inr rfl
      · exact .inl (.inr (.inl ⟨c, mem, rfl⟩))
    · exact .inl (.inr (.inr here))
  · exact .inl binds

theorem Binds.of_register (binds : (src.register own n).1.Binds m) : own.Binds m ∨ m = n := by
  simp only [Source.register] at binds
  split at binds
  · split at binds
    · exact Binds.of_contribute binds
    · exact .inl binds
  · split at binds
    · exact Binds.of_contribute binds
    · split at binds
      · rcases binds with here | here | here | ⟨g, mem, rfl⟩ | here
        · exact .inl (.inl here)
        · exact .inl (.inr (.inl here))
        · exact .inl (.inr (.inr (.inl here)))
        · rcases List.mem_append.mp mem with mem | only
          · exact .inl (.inr (.inr (.inr (.inl ⟨g, mem, rfl⟩))))
          · obtain rfl := List.mem_singleton.mp only
            exact .inr rfl
        · exact .inl (.inr (.inr (.inr (.inr here))))
      · exact Binds.of_bindDirect binds

theorem Binds.of_registerAccessor (binds : (src.registerAccessor own n).1.Binds m) :
    own.Binds m ∨ m = n := by
  rcases binds with here | here | here | here | ⟨b, mem, rfl⟩
  · exact .inl (.inl here)
  · exact .inl (.inr (.inl here))
  · exact .inl (.inr (.inr (.inl here)))
  · exact .inl (.inr (.inr (.inr (.inl here))))
  · rcases Table.mem_values_insertNew mem with rfl | mem
    · exact .inr rfl
    · exact .inl (.inr (.inr (.inr (.inr ⟨b, mem, rfl⟩))))

/-- What a component binds was picked. -/
theorem Binds.picked (binds : (src.holdings cls).1.Binds m) :
    m ∈ (src.scan cls).provides ∨ m ∈ (src.scan cls).accessors := by
  have all : ∀ n, (src.holdings cls).1.Binds n →
      n ∈ (src.scan cls).provides ∨ n ∈ (src.scan cls).accessors := by
    let within (own : Holdings) : Prop :=
      ∀ n, own.Binds n → n ∈ (src.scan cls).provides ∨ n ∈ (src.scan cls).accessors
    simp only [holdings]
    refine fileAll_keeps within (fun a mem own before n binds => ?_)
      (fileAll_keeps within (fun b mem own before n binds => ?_) ?_)
    · rcases Binds.of_registerAccessor binds with old | rfl
      · exact before n old
      · exact .inr mem
    · rcases Binds.of_register binds with old | rfl
      · exact before n old
      · exact .inl mem
    · rintro n (mem | ⟨_, nothing, -⟩ | ⟨_, nothing, -⟩ | ⟨_, nothing, -⟩ | ⟨_, nothing, -⟩)
      · exact .inr mem
      all_goals cases nothing
  exact all m binds

/-- What a component binds was not passed over. -/
theorem Binds.seen (composes : src.program.OverridesCompose (src.program.chainMembers cls))
    (binds : (src.holdings cls).1.Binds m) : m ∈ (src.scan cls).seen :=
  (scanned_scan composes).picked m binds.picked

end Holdings

end Filing

/-! ## Components whose overridden members do not bind -/

/-- A component binds no overridden member if overriding composes and no member comes before
all that override it, as in a plain hierarchy whose classes come after their subtypes. -/
theorem overridden_unbound (src : Source) (history : List ClassId) (cls : ClassId) :
    let own := (src.collect cls { store := (src.sessionAfter history).store }).1.own
    let ms := src.program.chainMembers cls
    (src.program.OverridesCompose ms → src.program.OverriddenLater ms →
      ∀ m, src.program.Overridden ms m → ¬own.Binds m) ∧
    (src.program.Layered cls → ∀ m, src.program.Overridden ms m → ¬own.Binds m) := by
  intro own ms
  have kept := src.sessionAfter_kept history
  have collected : own = (src.holdings cls).1 := Source.collect_own kept.1 kept.2
  have unbound (composes : src.program.OverridesCompose ms)
      (later : src.program.OverriddenLater ms) (m : MemberId)
      (overridden : src.program.Overridden ms m) : ¬own.Binds m := by
    intro binds
    rw [collected] at binds
    obtain ⟨before, after, split, none⟩ :=
      (Source.scanned_scan composes).standing m (Holdings.Binds.seen composes binds)
    have row : (m, before.length) ∈ ms.zipIdx := by
      rw [List.mem_zipIdx_iff_getElem?, show ms = before ++ m :: after from split]
      simp
    have earlier := later (m, before.length) row overridden
    rw [show ms = before ++ m :: after from split, List.take_left] at earlier
    exact none earlier
  exact ⟨unbound, fun layered => unbound layered.overridesCompose layered.overriddenLater⟩

/-- An interface with one member. -/
def ClassDecl.interfaceWith (name : String) (supers : List Ty) (m : MemberId) : ClassDecl where
  name := name
  kind := .interface
  supers := supers
  members := [m]

/-- The binding `make` of `owner`. -/
def MemberDecl.bindingMake (owner : ClassId) (ty : Ty) : MemberDecl where
  owner := some owner
  name := "make"
  annotations := [.ofDecl .provides]
  returnType := ty

/-- `Mid` makes a `Bar` where `Base` makes a `Foo`, and a component extends the given types. -/
def rebound (supers : List Ty) : Source where
  program :=
    { classes := [.interfaceWith "Base" [] (.ofNat 0),
        .interfaceWith "Mid" [{ name := "Base" }] (.ofNat 1),
        { name := "C", isAbstract := true, annotations := [.ofDecl .component], supers,
          ctors := [{}] },
        { name := "Foo" }, { name := "Bar", supers := [{ name := "Foo" }] }]
      members := [.bindingMake (.ofNat 0) { name := "Foo" },
        .bindingMake (.ofNat 1) { name := "Bar" }] }
  options := {}

theorem rebound_unbound :
    (rebound [{ name := "Mid" }]).program.Overridden
        ((rebound [{ name := "Mid" }]).program.chainMembers (.ofNat 2)) (.ofNat 0) ∧
      ¬((rebound [{ name := "Mid" }]).collect (.ofNat 2) {}).1.own.Binds (.ofNat 0) := by
  have overridden : (rebound [{ name := "Mid" }]).program.Overridden
      ((rebound [{ name := "Mid" }]).program.chainMembers (.ofNat 2)) (.ofNat 0) := by
    decide +kernel
  have layered : (rebound [{ name := "Mid" }]).program.Layered (.ofNat 2) :=
    ⟨by decide +kernel, by decide +kernel, by decide +kernel⟩
  exact ⟨overridden, (overridden_unbound (rebound [{ name := "Mid" }]) [] (.ofNat 2)).2 layered
    (.ofNat 0) overridden⟩

/-- With `Base` before `Mid`, what the component binds to `Foo` is overridden. -/
theorem baseFirst_overridden_refuted :
    (rebound [{ name := "Base" }, { name := "Mid" }]).program.Overridden
        ((rebound [{ name := "Base" }, { name := "Mid" }]).program.chainMembers (.ofNat 2))
        (.ofNat 0) ∧
      ((rebound [{ name := "Base" }, { name := "Mid" }]).collect (.ofNat 2) {}).1.own.direct.get?
        (.of { name := "Foo" }) = some { member := .ofNat 0 } := by
  decide +kernel

end Injector
