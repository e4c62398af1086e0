/-
# Injector.Proofs.Ty.Expansion -- types without aliases and qualifiers

Fitting follows aliases and leaves out qualifiers, at every level, so it compares types by their
expansion (`expand`).  What a variable stands for is put in its place with the nullability of the
occurrence added to its own; in the expansion that makes a difference where a nullable
occurrence stands for a type that is not nullable (`expand_fill_iff`), and nowhere else: a type
that a pattern fits has the expansion of the pattern's instance if and only if there is no such
occurrence among the parts of the pattern (`fit_expand`).
-/
import Injector.Proofs.Ty.Fitting

namespace Injector

set_option autoImplicit false

namespace Ty

mutual

/-- The type with its aliases followed and its qualifiers left out, at every level.  As with
`dealias`, the nullability is that of the type at the end of the aliases. -/
def expand : Ty → Ty
  | ⟨k, p, n, as, u, _, none⟩ => ⟨k, p, n, expandAll as, u, none, none⟩
  | ⟨_, _, _, _, _, _, some target⟩ => expand target

def expandAll : List Ty → List Ty
  | [] => []
  | t :: rest => expand t :: expandAll rest

end

mutual

/-- The type and what it is made of under its aliases, down to the variables. -/
def parts : Ty → List Ty
  | ⟨k, p, n, as, u, q, none⟩ =>
    ⟨k, p, n, as, u, q, none⟩ :: if k = .typeVar then [] else partsAll as
  | ⟨k, p, n, as, u, q, some target⟩ =>
    ⟨k, p, n, as, u, q, some target⟩ :: if k = .typeVar then [] else parts target

def partsAll : List Ty → List Ty
  | [] => []
  | t :: rest => parts t ++ partsAll rest

end

/-- The occurrences of variables among the parts. -/
def occurrences (t : Ty) : List Ty := t.parts.filter (·.kind = .typeVar)

def occurrencesAll (ts : List Ty) : List Ty := (partsAll ts).filter (·.kind = .typeVar)

variable {t v : Ty} {nullable : Bool} {qualifier : Option AnnotationUse}

/-! ## Expansion -/

theorem expand_of_not_alias (real : t.aliasOf = none) :
    t.expand = { t with args := expandAll t.args, qualifier := none } := by
  obtain ⟨k, p, n, as, u, q, o⟩ := t
  cases real
  rw [expand]

@[simp] theorem expand_dealias : ∀ t : Ty, t.dealias.expand = t.expand
  | ⟨k, p, n, as, u, q, none⟩ => by rw [dealias_of_not_alias rfl]
  | ⟨_, _, _, _, _, _, some target⟩ => by
    rw [dealias, expand]
    exact expand_dealias target

/-- The nullability of an occurrence shows unless what stands for it is nullable anyway, or is
an alias. -/
theorem expand_fill_iff : (fill nullable qualifier v).expand = v.expand ↔
    (nullable = true → v.nullable = true ∨ v.isAlias = true) := by
  obtain ⟨k, p, n, as, u, q, o⟩ := v
  cases o with
  | none => cases u <;> cases nullable <;> simp [fill, expand, isAlias]
  | some target => simp [fill, expand, isAlias]

/-- The expansion mentions a variable only where an argument does, or is one. -/
theorem not_mentions_expand (real : t.aliasOf = none) :
    t.expand.mentionsVariable = false ↔
      t.kind ≠ .typeVar ∧ ∀ arg ∈ t.args, arg.expand.mentionsVariable = false := by
  have all (ts : List Ty) : anyMentionsVariable (expandAll ts) = false ↔
      ∀ arg ∈ ts, arg.expand.mentionsVariable = false := by
    induction ts with
    | nil => simp [expandAll, anyMentionsVariable]
    | cons arg rest ih => simp [expandAll, anyMentionsVariable, ih]
  obtain ⟨k, p, n, as, u, q, o⟩ := t
  cases real
  simp [expand, mentionsVariable, all]

/-! ## Parts -/

theorem mem_parts_self (t : Ty) : t ∈ t.parts := by
  obtain ⟨k, p, n, as, u, q, o⟩ := t
  cases o <;> exact List.mem_cons_self

theorem mem_occurrences : v ∈ t.occurrences ↔ v ∈ t.parts ∧ v.kind = .typeVar := by
  rw [occurrences, List.mem_filter, decide_eq_true_iff]

theorem occurrences_of_typeVar (isVar : t.kind = .typeVar) : t.occurrences = [t] := by
  obtain ⟨k, p, n, as, u, q, o⟩ := t
  cases isVar
  cases o <;> simp [occurrences, parts]

theorem occurrences_of_alias {target : Ty} (stands : t.aliasOf = some target)
    (other : t.kind ≠ .typeVar) : t.occurrences = target.occurrences := by
  obtain ⟨k, p, n, as, u, q, o⟩ := t
  cases stands
  simp only at other
  simp [occurrences, parts, other]

theorem occurrences_of_not_alias (real : t.aliasOf = none) (other : t.kind ≠ .typeVar) :
    t.occurrences = occurrencesAll t.args := by
  obtain ⟨k, p, n, as, u, q, o⟩ := t
  cases real
  simp only at other
  simp [occurrences, occurrencesAll, parts, other]

theorem occurrencesAll_cons (t : Ty) (rest : List Ty) :
    occurrencesAll (t :: rest) = t.occurrences ++ occurrencesAll rest := by
  rw [occurrencesAll, partsAll, List.filter_append]
  rfl

end Ty

/-! ## Fitting -/

/-- What stands for the occurrence is nullable if the occurrence is, or it is an alias. -/
def Subst.Admits (σ : Subst) (v : Ty) : Prop :=
  v.nullable = true → (σ.get? v.name).any (fun value => value.nullable || value.isAlias) = true

instance (σ : Subst) (v : Ty) : Decidable (σ.Admits v) := inferInstanceAs (Decidable (_ → _))

namespace Ty

variable {t v : Ty} {s σ : Subst}

/-- An occurrence that stands for a type. -/
theorem expand_of_bound (isVar : v.kind = .typeVar) (bound : σ.get? v.name = some t) :
    (v.subst σ).expand = t.expand ↔ ∀ w ∈ v.occurrences, σ.Admits w := by
  rw [occurrences_of_typeVar isVar, List.forall_mem_singleton, Subst.Admits]
  obtain ⟨k, p, n, as, u, q, o⟩ := v
  simp only at isVar bound
  rw [subst, if_pos isVar]
  simp only [bound, expand_fill_iff, Option.any_some, Bool.or_eq_true]

mutual

theorem expand_fitShape : ∀ (pattern target : Ty) {s s' : Subst},
    fitShape pattern target s = (true, s') → σ.Extends s' → target.aliasOf = none →
    target.expand.mentionsVariable = false → (∀ v ∈ pattern.occurrences, v.aliasOf = none) →
    ((pattern.subst σ).expand = target.expand ↔ ∀ v ∈ pattern.occurrences, σ.Admits v)
  | ⟨k, p, n, as, u, q, none⟩, target, s, s' => by
    intro fits within real ground plain
    rw [fitShape] at fits
    split at fits
    case isFalse => cases fits
    rename_i head
    simp only [fitsHead, Bool.and_eq_true, beq_iff_eq] at head
    obtain ⟨other, args⟩ := (not_mentions_expand real).mp ground
    rw [← head.1.1.1.1] at other
    rw [occurrences_of_not_alias rfl other] at plain ⊢
    have all := expand_fitAll as target.args fits within head.2 args plain
    rw [subst, if_neg other, substTarget, expand, expand_of_not_alias real, ← all]
    obtain ⟨kt, pt, nt, ast, ut, qt, ot⟩ := target
    simp only at head real ⊢
    obtain ⟨⟨⟨⟨rfl, rfl⟩, rfl⟩, rfl⟩, -⟩ := head
    cases real
    simp
  | ⟨k, p, n, as, u, q, some pattern⟩, target, s, s' => by
    intro fits within real ground plain
    have other : k ≠ .typeVar := by
      intro isVar
      rw [occurrences_of_typeVar isVar, List.forall_mem_singleton] at plain
      cases plain
    rw [occurrences_of_alias rfl other] at plain ⊢
    rw [fitShape] at fits
    rw [subst, if_neg other, substTarget, expand]
    exact expand_fitShape pattern target fits within real ground plain

theorem expand_fitAll : ∀ (patterns targets : List Ty) {s s' : Subst},
    fitAll patterns targets s = (true, s') → σ.Extends s' → patterns.length = targets.length →
    (∀ t ∈ targets, t.expand.mentionsVariable = false) →
    (∀ v ∈ occurrencesAll patterns, v.aliasOf = none) →
    (expandAll (substAll σ patterns) = expandAll targets ↔
      ∀ v ∈ occurrencesAll patterns, σ.Admits v)
  | [], [], s, s' => by
    intro _ _ _ _ _
    simp [occurrencesAll, partsAll, substAll]
  | _ :: _, [], _, _ => by
    intro _ _ length
    cases length
  | [], _ :: _, _, _ => by
    intro _ _ length
    cases length
  | pattern :: patterns, target :: targets, s, s' => by
    intro fits within length ground plain
    rw [fitAll] at fits
    split at fits
    case h_2 => cases fits
    rename_i mid first
    rw [occurrencesAll_cons, List.forall_mem_append] at plain ⊢
    obtain ⟨mine, others⟩ := List.forall_mem_cons.mp ground
    have before : σ.Extends mid := fun name t found =>
      within name t (extends_fitAll patterns targets fits name t found)
    have rest := expand_fitAll patterns targets fits within (Nat.succ.inj length) others plain.2
    rw [substAll, expandAll, expandAll, List.cons.injEq, rest]
    refine and_congr_left fun _ => ?_
    split at first
    · rename_i isVar
      exact expand_of_bound isVar (before _ _ (fitVar_eq_true first).2)
    · have one := expand_fitShape pattern target.dealias first before (aliasOf_dealias target)
        (by rwa [expand_dealias]) plain.1
      rwa [expand_dealias] at one

end

/-- A type that a pattern fits is the instance of the pattern, up to aliases and qualifiers, if
and only if no nullable occurrence of a variable stands for a type that is not nullable. -/
theorem fit_expand {pattern : Ty} (fits : pattern.fit t s = (true, σ))
    (ground : t.expand.mentionsVariable = false)
    (plain : ∀ v ∈ pattern.occurrences, v.aliasOf = none) :
    (pattern.subst σ).expand = t.expand ↔ ∀ v ∈ pattern.occurrences, σ.Admits v := by
  rw [fit] at fits
  split at fits
  · rename_i isVar
    exact expand_of_bound isVar (fitVar_eq_true fits).2
  · have shape := expand_fitShape pattern t.dealias fits (fun _ _ => id) (aliasOf_dealias t)
      (by rwa [expand_dealias]) plain
    rwa [expand_dealias] at shape

end Ty

end Injector
