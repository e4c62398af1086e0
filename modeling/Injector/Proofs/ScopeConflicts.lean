/-
# Injector.Proofs.ScopeConflicts -- several scopes on one declaration

A declaration has one scope.  When it is asked for, the first one is the answer, and several are
reported.  They are counted by the annotations that make a class a scope -- the native one, and
the one of `javax.inject` -- and not by where they are written: a single usage counts twice if
its class carries both and `javax.inject` is enabled (`length_scopes`).

So what is reported is a conflict of two usages, or such a usage (`scope_conflicts`).  Where no
class carries both, just the conflicts are reported.
-/
import Injector.Source

namespace Injector

set_option autoImplicit false

namespace Source

variable (src : Source) (as : List AnnotationUse)

/-- The annotation is a scope under the options. -/
def IsScope (a : AnnotationUse) : Prop :=
  src.isMarked .scope a = true ∨
    src.options.enableJavaxAnnotations = true ∧ src.isMarked .javaxScope a = true

/-- The annotation is a scope for two reasons. -/
def IsScopeTwice (a : AnnotationUse) : Prop :=
  src.isMarked .scope a = true ∧
    src.options.enableJavaxAnnotations = true ∧ src.isMarked .javaxScope a = true

/-- Scopes are written at two positions. -/
def ScopesConflict : Prop :=
  ∃ (m n : Nat) (a b : AnnotationUse),
    m < n ∧ as[m]? = some a ∧ as[n]? = some b ∧ src.IsScope a ∧ src.IsScope b

/-- Asking for the scope reports several. -/
def ReportsScopes : Prop := ∃ listed, .severalScopes listed ∈ (src.scope as).2

/-- Both of the annotations that make a class a scope count, and some class carries both. -/
def HasTwofoldScope : Prop :=
  src.options.enableJavaxAnnotations = true ∧
    ∃ c ∈ src.program.classes, c.carries .scope = true ∧ c.carries .javaxScope = true

instance (a : AnnotationUse) : Decidable (src.IsScope a) := inferInstanceAs (Decidable (_ ∨ _))

instance (a : AnnotationUse) : Decidable (src.IsScopeTwice a) :=
  inferInstanceAs (Decidable (_ ∧ _))

instance : Decidable src.HasTwofoldScope :=
  inferInstanceAs (Decidable (_ ∧ ∃ c ∈ src.program.classes, _))

variable {src as} {a : AnnotationUse}

theorem IsScopeTwice.isScope (twice : src.IsScopeTwice a) : src.IsScope a := .inl twice.1

/-- What makes an annotation a scope is on a class of the program. -/
theorem exists_class_of_isMarked {marker : DeclName} (marked : src.isMarked marker a = true) :
    ∃ id, src.program.annotationClassOf a = some id ∧ src.program.classAt id ∈ src.program.classes ∧
      (src.program.classAt id).carries marker = true := by
  unfold isMarked at marked
  split at marked
  · rename_i id named
    refine ⟨id, named, ?_, marked⟩
    unfold Program.classAt at marked ⊢
    cases found : src.program.classes[id.toNat]? with
    | some c => exact List.mem_of_getElem? found
    | none =>
        rw [found] at marked
        cases marked
  · cases marked

/-- An annotation that is a scope for two reasons has a class that carries both of them. -/
theorem IsScopeTwice.hasTwofoldScope (twice : src.IsScopeTwice a) : src.HasTwofoldScope := by
  obtain ⟨native, enabled, javax⟩ := twice
  obtain ⟨id, named, mem, native⟩ := exists_class_of_isMarked native
  obtain ⟨id', named', -, javax⟩ := exists_class_of_isMarked javax
  obtain rfl : id = id' := Option.some.inj (named.symm.trans named')
  exact ⟨enabled, _, mem, native, javax⟩

/-! ## The scopes that are listed -/

theorem mem_scopes : a ∈ src.scopes as ↔ a ∈ as ∧ src.IsScope a := by
  unfold scopes IsScope
  cases src.options.enableJavaxAnnotations <;> simp [and_or_left]

/-- A usage is listed once for each reason. -/
theorem length_scopes (src : Source) (as : List AnnotationUse) :
    (src.scopes as).length =
      as.countP (src.IsScope ·) + as.countP (src.IsScopeTwice ·) := by
  unfold scopes IsScope IsScopeTwice
  by_cases enabled : src.options.enableJavaxAnnotations = true
  · simp only [enabled, if_true, true_and, List.length_append, ← List.countP_eq_length_filter,
      Bool.decide_or, Bool.decide_and, Bool.decide_eq_true]
    induction as with
    | nil => rfl
    | cons a rest ih =>
        simp only [List.countP_cons]
        cases src.isMarked .scope a <;> cases src.isMarked .javaxScope a <;> simp <;> omega
  · simp [enabled, List.countP_eq_length_filter]

/-- Unless any two usages have one that is no scope, there are two scopes. -/
theorem not_pairwise_iff (src : Source) (as : List AnnotationUse) :
    ¬as.Pairwise (fun a b => ¬(src.IsScope a ∧ src.IsScope b)) ↔
      1 < as.countP (src.IsScope ·) := by
  induction as with
  | nil => simp
  | cons a rest ih =>
      rw [List.pairwise_cons, Classical.not_and_iff_not_or_not, ih, List.countP_cons]
      by_cases scope : src.IsScope a
      · have other : (¬∀ b ∈ rest, ¬(src.IsScope a ∧ src.IsScope b)) ↔
            0 < rest.countP (src.IsScope ·) := by
          simp [List.countP_pos_iff, scope]
        rw [other]
        simp only [scope, decide_true, if_true]
        omega
      · simp [scope]

/-- Scopes conflict when there are two of them. -/
theorem scopesConflict_iff : src.ScopesConflict as ↔ 1 < as.countP (src.IsScope ·) := by
  rw [← not_pairwise_iff, List.pairwise_iff_getElem, ScopesConflict]
  constructor
  · rintro ⟨m, n, a, b, before, here, there, scopes⟩ apart
    obtain ⟨inside, rfl⟩ := List.getElem?_eq_some_iff.mp here
    obtain ⟨inside', rfl⟩ := List.getElem?_eq_some_iff.mp there
    exact apart m n inside inside' before scopes
  · intro conflict
    simp only [Classical.not_forall, Classical.not_not] at conflict
    obtain ⟨m, n, inside, inside', before, scopes⟩ := conflict
    exact ⟨m, n, as[m], as[n], before, List.getElem?_eq_getElem inside,
      List.getElem?_eq_getElem inside', scopes⟩

/-! ## What is reported -/

theorem reportsScopes_iff : src.ReportsScopes as ↔ 1 < (src.scopes as).length := by
  unfold ReportsScopes scope
  by_cases several : 1 < (src.scopes as).length <;> simp [several]

/-- A scope that is asked for is one of the first that are listed. -/
theorem scope_eq_head (src : Source) (as : List AnnotationUse) :
    (src.scope as).1 = (src.scopes as).head? := rfl

/-- Several scopes are reported just when two usages are scopes, or one is a scope for two reasons;
so just the conflicts of two usages are, unless the only scope is one for two reasons.  The
answer is a scope of the declaration if it has any. -/
theorem scope_conflicts (src : Source) (as : List AnnotationUse) :
    (src.ReportsScopes as ↔ src.ScopesConflict as ∨ ∃ a ∈ as, src.IsScopeTwice a) ∧
      ((src.ReportsScopes as ↔ src.ScopesConflict as) ↔
        ((∃ a ∈ as, src.IsScopeTwice a) → src.ScopesConflict as)) ∧
      (¬src.HasTwofoldScope → (src.ReportsScopes as ↔ src.ScopesConflict as)) ∧
      (∀ p ∈ (src.scope as).2,
        p.message = "Cannot apply multiple scopes: " ++ AnnotationUse.listText (src.scopes as)) ∧
      ((src.scope as).1 = none ↔ ∀ a ∈ as, ¬src.IsScope a) ∧
      ∀ s, (src.scope as).1 = some s → s ∈ as ∧ src.IsScope s := by
  have reports : src.ReportsScopes as ↔
      src.ScopesConflict as ∨ ∃ a ∈ as, src.IsScopeTwice a := by
    have some_ : (∃ a ∈ as, src.IsScopeTwice a) ↔ 0 < as.countP (src.IsScopeTwice ·) := by
      simp [List.countP_pos_iff]
    have fewer : as.countP (src.IsScopeTwice ·) ≤ as.countP (src.IsScope ·) :=
      List.countP_mono_left fun a _ twice => by
        simpa using IsScopeTwice.isScope (by simpa using twice)
    rw [reportsScopes_iff, length_scopes, scopesConflict_iff, some_]
    omega
  refine ⟨reports, ?_, ?_, ?_, ?_, ?_⟩
  · rw [reports, or_iff_left_iff_imp]
  · intro apart
    have never : ¬∃ a ∈ as, src.IsScopeTwice a :=
      fun ⟨a, _, twice⟩ => apart twice.hasTwofoldScope
    rw [reports, or_iff_left never]
  · intro p mem
    simp only [scope, List.mem_ite_nil_right, List.mem_singleton] at mem
    obtain ⟨-, rfl⟩ := mem
    rfl
  · simp only [scope_eq_head, List.head?_eq_none_iff, List.eq_nil_iff_forall_not_mem, mem_scopes,
      not_and]
  · intro s first
    exact mem_scopes.mp (List.mem_of_mem_head? first)

/-- With `javax.inject` enabled, the class `S` is a native scope, `L` one of `javax.inject`. -/
def nativeAndJavax : Source where
  program := { classes := [.annotationClass "" "S" .scope, .annotationClass "" "L" .javaxScope] }
  options := { enableJavaxAnnotations := true }

/-- A scope of each kind is a conflict, one alone is none. -/
theorem nativeAndJavax_conflicts :
    ¬nativeAndJavax.HasTwofoldScope ∧
      nativeAndJavax.ReportsScopes
        [{ package := "", name := "S" }, { package := "", name := "L" }] ∧
      ¬nativeAndJavax.ReportsScopes [{ package := "", name := "L" }] := by
  have apart : ¬nativeAndJavax.HasTwofoldScope := by decide
  refine ⟨apart, ?_, ?_⟩
  · exact ((scope_conflicts nativeAndJavax _).2.2.1 apart).mpr (scopesConflict_iff.mpr (by decide))
  · intro reports
    have conflict := ((scope_conflicts nativeAndJavax _).2.2.1 apart).mp reports
    exact absurd (scopesConflict_iff.mp conflict) (by decide)

/-- The class `S` is a scope for two reasons. -/
def twofoldScope : Source where
  program := { classes :=
    [{ ClassDecl.annotationClass "" "S" .scope with
        annotations := [.ofDecl .scope, .ofDecl .javaxScope] }] }
  options := { enableJavaxAnnotations := true }

/-- A single scope is reported as several; without `javax.inject` it is not. -/
theorem twofoldScope_conflicts_refuted :
    let as : List AnnotationUse := [{ package := "", name := "S" }]
    twofoldScope.ReportsScopes as ∧ ¬twofoldScope.ScopesConflict as ∧
      ¬({ twofoldScope with options := {} } : Source).ReportsScopes as := by
  simp only [reportsScopes_iff, scopesConflict_iff]
  decide

end Source

end Injector
