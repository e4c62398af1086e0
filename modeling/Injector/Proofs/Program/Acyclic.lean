/-
# Injector.Proofs.Program.Acyclic -- hierarchies without cycles

A class is above another one when a type of the other has a type of it among its declared
supertypes.  Where no class is above itself, the walk over the supertypes of a type goes
from class to class without coming back, so its depth is at most the number of classes
(`rank_le`), and going up to that depth or further finds all of them
(`supertypesFrom_eq_supertypes`).

What is above a class is read off its declaration, unless it extends one of its own type
variables, which can stand for a type of any class (`Above.extends`).
-/
import Injector.Proofs.Catalog.Genuine
import Injector.Proofs.Program.Chain
import Mathlib.Data.List.Basic
import Mathlib.Logic.Relation

namespace Injector

set_option autoImplicit false

open Relation (TransGen)

namespace Ty

/-- Neither the type nor any type that it is an alias for is a type variable. -/
def isRigid : Ty → Bool
  | ⟨k, _, _, _, _, _, none⟩ => decide (k ≠ .typeVar)
  | ⟨k, _, _, _, _, _, some target⟩ => decide (k ≠ .typeVar) && isRigid target

/-- Whatever is put for its variables, a rigid type stays a use of its declaration. -/
theorem decl_dealias_subst (s : Subst) :
    ∀ t : Ty, t.isRigid = true → (t.subst s).dealias.decl = t.dealias.decl
  | ⟨k, p, n, as, u, q, none⟩ => by
    intro rigid
    have plain : k ≠ .typeVar := by simpa [isRigid] using rigid
    simp [subst, plain, substTarget, dealias, decl]
  | ⟨k, p, n, as, u, q, some target⟩ => by
    intro rigid
    obtain ⟨plain, rigid⟩ : k ≠ .typeVar ∧ target.isRigid = true := by
      simpa [isRigid] using rigid
    simpa [subst, plain, substTarget, dealias] using decl_dealias_subst s target rigid

end Ty

namespace Program

variable (p : Program)

/-- A type of the class `d` is declared as a supertype of some type of the class `c`. -/
def Above (c d : ClassId) : Prop :=
  ∃ ty t, p.classOf ty = some c ∧ t ∈ p.directSupertypes ty ∧ p.classOf t = some d

/-- No class is above itself. -/
def Acyclic : Prop := ∀ c, ¬TransGen p.Above c c

open Classical in
/-- The classes above `c`. -/
noncomputable def ancestors (c : ClassId) : List ClassId :=
  ((List.range p.classes.length).map ClassId.ofNat).filter fun d => TransGen p.Above c d

/-- How many classes a walk up from a type can come to. -/
noncomputable def rank (ty : Ty) : Nat :=
  match p.classOf ty with
  | none => 0
  | some c => (p.ancestors c).length + 1

variable {p} {c d : ClassId} {ty t : Ty}

/-! ## Ranks -/

theorem mem_identities (known : p.classOf ty = some c) :
    c ∈ (List.range p.classes.length).map ClassId.ofNat := by
  simp only [classOf, classNamed, Option.map_eq_some_iff] at known
  obtain ⟨n, found, rfl⟩ := known
  have inside := Source.lastNamed_lt found
  exact List.mem_map.mpr ⟨n, List.mem_range.mpr (by omega), rfl⟩

theorem rank_le (acyclic : p.Acyclic) (ty : Ty) : p.rank ty ≤ p.classes.length := by
  classical
  rw [rank]
  cases known : p.classOf ty with
  | none => exact Nat.zero_le _
  | some c =>
      have fewer : (p.ancestors c).length <
          ((List.range p.classes.length).map ClassId.ofNat).length :=
        List.length_filter_lt_length_iff_exists.mpr
          ⟨c, mem_identities known, by simpa using acyclic c⟩
      simpa [Nat.succ_le_iff] using fewer

/-- A declared supertype has a lower rank. -/
theorem rank_lt (acyclic : p.Acyclic) (mem : t ∈ p.directSupertypes ty) :
    p.rank t < p.rank ty := by
  classical
  cases known : p.classOf ty with
  | none =>
      rw [directSupertypes, known] at mem
      cases mem
  | some c =>
      cases above : p.classOf t with
      | none => simp [rank, known, above]
      | some d =>
          have step : TransGen p.Above c d := .single ⟨ty, t, known, mem, above⟩
          have inner : p.ancestors d =
              (p.ancestors c).filter fun e => decide (TransGen p.Above d e) := by
            rw [ancestors, ancestors, List.filter_filter]
            apply List.filter_congr
            intro e _
            have through : TransGen p.Above d e → TransGen p.Above c e := step.trans
            by_cases further : TransGen p.Above d e
            · simp [further, through further]
            · simp [further]
          have here : d ∈ p.ancestors c :=
            List.mem_filter.mpr ⟨mem_identities above, by simpa using step⟩
          have fewer : (p.ancestors d).length < (p.ancestors c).length := by
            rw [inner]
            exact List.length_filter_lt_length_iff_exists.mpr ⟨d, here, by simpa using acyclic d⟩
          simp only [rank, known, above]
          omega

/-! ## The walk -/

theorem mem_of_mem_unseen {ts seen : List Ty} (mem : t ∈ unseen ts seen) : t ∈ ts := by
  induction ts generalizing seen with
  | nil => cases mem
  | cons first rest ih =>
      rw [unseen] at mem
      split at mem
      · exact List.mem_cons_of_mem _ (ih mem)
      · rcases List.mem_cons.mp mem with rfl | mem
        · exact List.mem_cons_self
        · exact List.mem_cons_of_mem _ (ih mem)

/-- What finds a list from each type on does so from all of them. -/
theorem exists_foldlM {f : List Ty → Ty → Option (List Ty)} {ts seen : List Ty}
    (each : ∀ t ∈ ts, ∀ seen, ∃ out, f seen t = some out) : ∃ out, ts.foldlM f seen = some out := by
  induction ts generalizing seen with
  | nil => exact ⟨seen, rfl⟩
  | cons t ts ih =>
      obtain ⟨first, later⟩ := List.forall_mem_cons.mp each
      obtain ⟨mid, found⟩ := first seen
      simpa [found] using ih later

theorem foldlM_eq_some_of_imp {f g : List Ty → Ty → Option (List Ty)}
    (imp : ∀ seen t out, f seen t = some out → g seen t = some out) {ts seen out : List Ty}
    (found : ts.foldlM f seen = some out) : ts.foldlM g seen = some out := by
  induction ts generalizing seen with
  | nil => exact found
  | cons t ts ih =>
      simp only [List.foldlM_cons, Option.bind_eq_bind, Option.bind_eq_some_iff] at found ⊢
      obtain ⟨mid, first, rest⟩ := found
      exact ⟨mid, imp _ _ _ first, ih rest⟩

/-- Nothing is listed of a type that has nothing above it. -/
theorem supertypesFrom_of_unseen_eq_nil {seen : List Ty}
    (top : unseen (p.directSupertypes ty) seen = []) (depth : Nat) :
    p.supertypesFrom depth ty seen = some seen := by
  cases depth <;> simp [supertypesFrom, top]

/-- A depth that is enough leaves nothing for a greater one. -/
theorem supertypesFrom_mono {depth more : Nat} {seen out : List Ty}
    (found : p.supertypesFrom depth ty seen = some out) (le : depth ≤ more) :
    p.supertypesFrom more ty seen = some out := by
  induction depth generalizing more ty seen out with
  | zero =>
      simp only [supertypesFrom] at found
      split at found
      · rename_i top
        cases found
        exact supertypesFrom_of_unseen_eq_nil top more
      · cases found
  | succ depth ih =>
      cases more with
      | zero => omega
      | succ more => exact foldlM_eq_some_of_imp (fun _ _ _ here => ih here (by omega)) found

/-- The rank of a type is a depth that is enough. -/
theorem exists_supertypesFrom (acyclic : p.Acyclic) {depth : Nat} {seen : List Ty}
    (enough : p.rank ty ≤ depth) : ∃ out, p.supertypesFrom depth ty seen = some out := by
  induction depth generalizing ty seen with
  | zero =>
      have top : p.directSupertypes ty = [] := by
        rw [List.eq_nil_iff_forall_not_mem]
        intro t mem
        have := rank_lt acyclic mem
        omega
      exact ⟨seen, supertypesFrom_of_unseen_eq_nil (by rw [top, unseen]) 0⟩
  | succ depth ih =>
      refine exists_foldlM fun t mem seen => ih ?_
      have lower := rank_lt acyclic (mem_of_mem_unseen (List.mem_reverse.mp mem))
      omega

/-- To the number of classes and beyond, the walk finds all supertypes. -/
theorem supertypesFrom_eq_supertypes (acyclic : p.Acyclic) {depth : Nat}
    (enough : p.classes.length ≤ depth) (ty : Ty) :
    p.supertypesFrom depth ty.dealias [] = some (p.supertypes ty) := by
  obtain ⟨out, found⟩ : ∃ out, p.supertypesFrom p.classes.length ty.dealias [] = some out :=
    exists_supertypesFrom acyclic (rank_le acyclic ty.dealias)
  have same : p.supertypes ty = out := by rw [supertypes, found]
  exact same ▸ supertypesFrom_mono found enough

/-! ## Declared supertypes -/

/-- What is above a class is the class of one of its declared supertypes, if no class extends a
type variable. -/
theorem Above.extends (above : p.Above c d)
    (rigid : ∀ decl ∈ p.classes, ∀ super ∈ decl.supers, super.isRigid = true) :
    p.Extends c d := by
  obtain ⟨ty, t, known, mem, named⟩ := above
  simp only [directSupertypes, known, List.mem_map] at mem
  obtain ⟨super, declared, rfl⟩ := mem
  refine List.mem_filterMap.mpr ⟨super, declared, ?_⟩
  rw [classAt] at declared
  cases found : p.classes[c.toNat]? with
  | none =>
      rw [found] at declared
      cases declared
  | some decl =>
      rw [found] at declared
      rwa [classOf, Ty.decl_dealias_subst _ super
        (rigid decl (List.mem_of_getElem? found) super declared)] at named

/-- A hierarchy has no cycle if no class extends a type variable and none comes back to itself
over declared supertypes. -/
theorem acyclic_of_extends
    (rigid : ∀ decl ∈ p.classes, ∀ super ∈ decl.supers, super.isRigid = true)
    (apart : ∀ c, ¬TransGen p.Extends c c) : p.Acyclic :=
  fun c cycle => apart c (TransGen.mono (fun _ _ above => above.extends rigid) _ _ cycle)

/-- So it has if each class is below its declared supertypes in some order. -/
theorem acyclic_of_declared (order : ClassId → Nat)
    (rigid : ∀ decl ∈ p.classes, ∀ super ∈ decl.supers, super.isRigid = true)
    (lower : ∀ n < p.classes.length, ∀ d ∈ p.superClasses (.ofNat n),
      order d < order (.ofNat n)) : p.Acyclic := by
  have step : ∀ c d, p.Extends c d → order d < order c := by
    intro c d above
    have same : ClassId.ofNat c.toNat = c := by
      have small : c.toNat ≤ lastIdentity := Nat.le_of_lt_succ c.index.toNat_lt
      exact ClassId.toNat_injective (ClassId.toNat_ofNat small)
    have inside : c.toNat < p.classes.length := by
      obtain ⟨super, declared, -⟩ := List.mem_filterMap.mp above
      by_contra outside
      rw [classAt, List.getElem?_eq_none (by omega)] at declared
      cases declared
    have lower := lower c.toNat inside d
    rw [same] at lower
    exact lower above
  have descends : ∀ c d, TransGen p.Extends c d → order d < order c := by
    intro c d chain
    induction chain with
    | single above => exact step _ _ above
    | tail _ above ih => exact Nat.lt_trans (step _ _ above) ih
  exact acyclic_of_extends rigid fun c cycle => Nat.lt_irrefl _ (descends c c cycle)

end Program

end Injector
