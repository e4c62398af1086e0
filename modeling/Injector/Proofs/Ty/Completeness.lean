/-
# Injector.Proofs.Ty.Completeness -- a pattern fits its instances

Put types for the variables of a pattern, and the pattern fits what comes out: each variable
that occurs stands for its type again, and no other variable stands for anything (`fit_subst`).

Occurrences that are nullable or qualified are left out, since they change the type that is put
for them, and so are aliases of a variable, which are followed in the instance only.  The
induction is over the parts of the pattern with the variables met so far: they stand for what
they should, and a further part adds those that occur in it (`Subst.Gains`).
-/
import Injector.Proofs.Ty.Expansion

namespace Injector

set_option autoImplicit false

namespace Subst

/-- In `m'` the names stand for what they do in `σ`, and all others for what they do in `m`. -/
def Gains (σ : Subst) (names : List String) (m m' : Subst) : Prop :=
  ∀ name, m'.get? name = if name ∈ names then σ.get? name else m.get? name

/-- Among the parts of a pattern, the variables have types in `σ`, which go in their places
as they are, and no alias stands for a variable. -/
structure Readable (σ : Subst) (parts : List Ty) : Prop where
  bound : ∀ v ∈ parts, v.kind = .typeVar → ∃ t, σ.get? v.name = some t
  plain : ∀ v ∈ parts, v.kind = .typeVar → v.nullable = false ∧ v.qualifier = none
  direct : ∀ t ∈ parts, ∀ target ∈ t.aliasOf, target.kind ≠ .typeVar

variable {σ m mid m' : Subst} {names others : List String} {parts more : List Ty}

theorem Gains.nil : Gains σ [] m m := fun _ => rfl

theorem Gains.append (first : Gains σ names m mid) (second : Gains σ others mid m') :
    Gains σ (names ++ others) m m' := by
  intro name
  rw [second, first]
  by_cases later : name ∈ others
  · simp [later]
  · simp [later]

/-- What is gained is in accordance with `σ`. -/
theorem Gains.extends (gains : Gains σ names m m') (within : σ.Extends m) : σ.Extends m' := by
  intro name t found
  rw [gains] at found
  split at found
  · exact found
  · exact within name t found

theorem Readable.mono (readable : σ.Readable more) (fewer : parts ⊆ more) : σ.Readable parts :=
  ⟨fun v mem => readable.bound v (fewer mem), fun v mem => readable.plain v (fewer mem),
    fun t mem => readable.direct t (fewer mem)⟩

end Subst

namespace Ty

variable {σ m : Subst} {v : Ty}

theorem fill_plain (t : Ty) : fill false none t = t := by
  obtain ⟨k, p, n, as, u, q, o⟩ := t
  cases q <;> simp [fill]

/-- An occurrence fits what is put for it. -/
theorem fitVar_subst (isVar : v.kind = .typeVar) (readable : σ.Readable v.parts)
    (within : σ.Extends m) : ∃ m', fitVar v.name (v.subst σ) m = (true, m') ∧
      σ.Gains (v.occurrences.map (·.name)) m m' := by
  obtain ⟨t, found⟩ := readable.bound v (mem_parts_self v) isVar
  obtain ⟨total, bare⟩ := readable.plain v (mem_parts_self v) isVar
  have put : v.subst σ = t := by
    obtain ⟨k, p, n, as, u, q, o⟩ := v
    simp only at isVar found total bare
    rw [subst, if_pos isVar]
    simp only [found, total, bare, fill_plain]
  rw [put, occurrences_of_typeVar isVar, fitVar]
  cases known : m.get? v.name with
  | some bound =>
      have same : bound = t := Option.some.inj ((within _ _ known).symm.trans found)
      refine ⟨m, by simp [same], fun name => ?_⟩
      split
      · rename_i here
        obtain rfl : name = v.name := by simpa using here
        rw [known, found, same]
      · rfl
  | none =>
      refine ⟨m.insert v.name t, rfl, fun name => ?_⟩
      rw [Table.get?_insert]
      by_cases here : v.name = name
      · simp [← here, found]
      · simp [here, Ne.symm here]

mutual

theorem fitShape_subst : ∀ (pattern : Ty) {m : Subst}, pattern.kind ≠ .typeVar →
    σ.Readable pattern.parts → σ.Extends m →
    ∃ m', fitShape pattern (pattern.subst σ).dealias m = (true, m') ∧
      σ.Gains (pattern.occurrences.map (·.name)) m m'
  | ⟨k, p, n, as, u, q, none⟩, m => by
    intro other readable within
    have parts : (⟨k, p, n, as, u, q, none⟩ : Ty).parts =
        ⟨k, p, n, as, u, q, none⟩ :: partsAll as := by
      rw [Ty.parts, if_neg other]
    rw [parts] at readable
    obtain ⟨m', fits, gains⟩ := fitAll_subst as (readable.mono (List.subset_cons_self _ _)) within
    refine ⟨m', ?_, by rwa [occurrences_of_not_alias rfl other]⟩
    have head : fitsHead k p n u as.length ⟨k, p, n, substAll σ as, u, q, none⟩ = true := by
      simp [fitsHead, substAll_eq_map]
    rw [subst, if_neg other, substTarget, dealias, fitShape, if_pos head]
    exact fits
  | ⟨k, p, n, as, u, q, some pattern⟩, m => by
    intro other readable within
    have parts : (⟨k, p, n, as, u, q, some pattern⟩ : Ty).parts =
        ⟨k, p, n, as, u, q, some pattern⟩ :: pattern.parts := by
      rw [Ty.parts, if_neg other]
    rw [parts] at readable
    have real : pattern.kind ≠ .typeVar := readable.direct _ List.mem_cons_self pattern rfl
    rw [occurrences_of_alias rfl other, subst, if_neg other, substTarget, dealias, fitShape]
    exact fitShape_subst pattern real (readable.mono (List.subset_cons_self _ _)) within

theorem fitAll_subst : ∀ (patterns : List Ty) {m : Subst}, σ.Readable (partsAll patterns) →
    σ.Extends m → ∃ m', fitAll patterns (substAll σ patterns) m = (true, m') ∧
      σ.Gains ((occurrencesAll patterns).map (·.name)) m m'
  | [], m => by
    intro _ _
    exact ⟨m, by simp [fitAll], .nil⟩
  | pattern :: patterns, m => by
    intro readable within
    rw [partsAll] at readable
    have mine := readable.mono (List.subset_append_left _ _)
    have others := readable.mono (List.subset_append_right _ _)
    obtain ⟨mid, first, gains⟩ : ∃ mid,
        (if pattern.kind = .typeVar then fitVar pattern.name (pattern.subst σ) m
          else fitShape pattern (pattern.subst σ).dealias m) = (true, mid) ∧
        σ.Gains (pattern.occurrences.map (·.name)) m mid := by
      split
      · rename_i isVar
        exact fitVar_subst isVar mine within
      · rename_i other
        exact fitShape_subst pattern other mine within
    obtain ⟨m', rest, gains'⟩ := fitAll_subst patterns others (gains.extends within)
    refine ⟨m', ?_, ?_⟩
    · rw [substAll, fitAll, first]
      exact rest
    · rw [occurrencesAll_cons, List.map_append]
      exact gains.append gains'

end

/-- A pattern fits its instance, and its variables stand for the types they were given, if none
of them occurs nullable, qualified or as what an alias stands for. -/
theorem fit_subst {p : Ty} {s : Subst}
    (plain : ∀ v ∈ p.occurrences, v.nullable = false ∧ v.qualifier = none)
    (direct : ∀ t ∈ p.parts, ∀ target ∈ t.aliasOf, target.kind ≠ .typeVar)
    (bound : ∀ v ∈ p.occurrences, ∃ t, s.get? v.name = some t) :
    ∃ m, p.fit (p.subst s) .empty = (true, m) ∧
      ∀ name, m.get? name = if name ∈ p.occurrences.map (·.name) then s.get? name else none := by
  have readable : s.Readable p.parts :=
    ⟨fun v mem isVar => bound v (mem_occurrences.mpr ⟨mem, isVar⟩),
      fun v mem isVar => plain v (mem_occurrences.mpr ⟨mem, isVar⟩), direct⟩
  have within : s.Extends .empty := nofun
  rw [fit]
  split
  · rename_i isVar
    exact fitVar_subst isVar readable within
  · rename_i other
    exact fitShape_subst p other readable within

end Ty

/-- A map from each `A` to the alias `Pairs<C>`, which stands for pairs of an `A` and a `B`. -/
def nestedPattern : Ty :=
  .mapOf (.typeVar "A") { Ty.alias "" "Pairs" (.pairOf (.typeVar "A") (.typeVar "B")) with
    args := [.typeVar "C"] }

/-- What the variables of `nestedPattern` stand for; a `C` occurs in the name only. -/
def nestedTypes : Subst :=
  .ofArgs ["A", "B"] [{ name := "Foo", nullable := true }, .lazyOf { name := "Bar" }]

theorem nestedPattern_fits : ∃ m,
    nestedPattern.fit (nestedPattern.subst nestedTypes) .empty = (true, m) ∧
      m.get? "A" = some { name := "Foo", nullable := true } ∧
      m.get? "B" = some (.lazyOf { name := "Bar" }) ∧ m.get? "C" = none := by
  have bound : ∀ v ∈ nestedPattern.occurrences, ∃ t, nestedTypes.get? v.name = some t := by
    simp only [← Option.isSome_iff_exists]
    decide +kernel
  obtain ⟨m, fits, gained⟩ := Ty.fit_subst (s := nestedTypes) (by decide +kernel)
    (by decide +kernel) bound
  refine ⟨m, fits, ?_, ?_, ?_⟩
  · rw [gained]
    decide +kernel
  · rw [gained]
    decide +kernel
  · rw [gained]
    decide +kernel

end Injector
