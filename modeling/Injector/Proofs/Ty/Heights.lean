/-
# Injector.Proofs.Ty.Heights -- how high substitution and patterns make types

Following aliases and taking arguments makes a type lower.  Putting types for its
variables makes it higher by the height of the highest of them at most, and what the
variables of a pattern stand for is no higher than the type that the pattern fits.
-/
import Injector.Ty.Pattern

namespace Injector

set_option autoImplicit false

/-- Every type that stands for a variable is at most this high. -/
def Subst.AtMost (height : Nat) (s : Subst) : Prop :=
  ∀ name t, s.get? name = some t → t.height ≤ height

namespace Ty

theorem height_pos (t : Ty) : 0 < t.height := by
  obtain ⟨k, p, n, as, u, q, o⟩ := t
  rw [height]
  omega

theorem height_unqualified (t : Ty) : t.unqualified.height = t.height := by
  obtain ⟨k, p, n, as, u, q, o⟩ := t
  simp only [unqualified, height]

theorem height_fill (nullable : Bool) (qualifier : Option AnnotationUse) (t : Ty) :
    (fill nullable qualifier t).height = t.height := by
  obtain ⟨k, p, n, as, u, q, o⟩ := t
  simp only [fill, height]

theorem height_le_heightAll {t : Ty} {ts : List Ty} (mem : t ∈ ts) : t.height ≤ heightAll ts := by
  induction ts with
  | nil => cases mem
  | cons first rest ih =>
      rw [heightAll]
      rcases List.mem_cons.mp mem with rfl | mem
      · omega
      · have := ih mem
        omega

theorem height_lt_of_mem_args {t arg : Ty} (mem : arg ∈ t.args) : arg.height < t.height := by
  obtain ⟨k, p, n, as, u, q, o⟩ := t
  have := height_le_heightAll mem
  rw [height]
  simp only at this
  omega

theorem height_dealias_le : ∀ t : Ty, t.dealias.height ≤ t.height
  | ⟨k, p, n, as, u, q, none⟩ => by
    have same : (⟨k, p, n, as, u, q, none⟩ : Ty).dealias = ⟨k, p, n, as, u, q, none⟩ := by
      rw [dealias]
    exact Nat.le_of_eq (congrArg height same)
  | ⟨k, p, n, as, u, q, some target⟩ => by
    have ih := height_dealias_le target
    rw [dealias, height, heightTarget]
    omega

/-- What a type is built from, under its aliases, is lower than the type. -/
theorem height_lt_of_mem_dealias_args {t arg : Ty} (mem : arg ∈ t.dealias.args) :
    arg.height < t.height :=
  Nat.lt_of_lt_of_le (height_lt_of_mem_args mem) (height_dealias_le t)

mutual

theorem height_subst_le {s : Subst} {bound : Nat} (atMost : s.AtMost bound) :
    ∀ t : Ty, (t.subst s).height ≤ t.height + bound
  | ⟨k, p, n, as, u, q, o⟩ => by
    have all := heightAll_subst_le atMost as
    have target := heightTarget_subst_le atMost o
    have whole : (⟨k, p, n, substAll s as, u, q, substTarget s o⟩ : Ty).height ≤
        (⟨k, p, n, as, u, q, o⟩ : Ty).height + bound := by
      rw [height, height]
      omega
    rw [subst]
    split
    · split
      · rename_i value found
        have := atMost n value found
        rw [height_fill]
        omega
      · exact whole
    · exact whole

theorem heightAll_subst_le {s : Subst} {bound : Nat} (atMost : s.AtMost bound) :
    ∀ ts : List Ty, heightAll (substAll s ts) ≤ heightAll ts + bound
  | [] => by
    rw [substAll, heightAll]
    omega
  | t :: rest => by
    have first := height_subst_le atMost t
    have others := heightAll_subst_le atMost rest
    rw [substAll, heightAll, heightAll]
    omega

theorem heightTarget_subst_le {s : Subst} {bound : Nat} (atMost : s.AtMost bound) :
    ∀ o : Option Ty, heightTarget (substTarget s o) ≤ heightTarget o + bound
  | none => by
    rw [substTarget, heightTarget]
    omega
  | some t => by
    have := height_subst_le atMost t
    rw [substTarget, heightTarget, heightTarget]
    omega

end

end Ty

namespace Subst

theorem atMost_empty (bound : Nat) : AtMost bound .empty := by
  intro name t found
  cases found

theorem AtMost.insert {bound : Nat} {s : Subst} (atMost : s.AtMost bound) {name : String} {t : Ty}
    (low : t.height ≤ bound) : AtMost bound (s.insert name t) := by
  intro other value found
  rw [Table.get?_insert] at found
  split at found
  · cases found
    exact low
  · exact atMost other value found

/-- The arguments of a type are lower than the type. -/
theorem atMost_ofArgs {names : List String} {args : List Ty} {bound : Nat}
    (low : ∀ arg ∈ args, arg.height ≤ bound) : AtMost bound (ofArgs names args) := by
  have inserted (rows : List (String × Ty)) (s : Subst) (atMost : s.AtMost bound)
      (low : ∀ row ∈ rows, row.2.height ≤ bound) :
      AtMost bound (rows.foldl (fun s row => s.insert row.1 row.2) s) := by
    induction rows generalizing s with
    | nil => exact atMost
    | cons row rest ih =>
        refine ih _ (atMost.insert (low row List.mem_cons_self)) fun other mem => ?_
        exact low other (List.mem_cons_of_mem _ mem)
  exact inserted _ _ (atMost_empty bound) fun row mem => low row.2 (List.of_mem_zip mem).2

end Subst

namespace Ty

theorem atMost_fitVar {s : Subst} {bound : Nat} (atMost : s.AtMost bound) {target : Ty}
    (low : target.height ≤ bound) (name : String) : (fitVar name target s).2.AtMost bound := by
  rw [fitVar]
  split
  · exact atMost
  · exact atMost.insert low

mutual

theorem atMost_fitShape {bound : Nat} : ∀ (pattern target : Ty) (s : Subst), s.AtMost bound →
    target.height ≤ bound → (fitShape pattern target s).2.AtMost bound
  | ⟨k, p, n, as, u, _, none⟩, target, s => by
    intro atMost low
    rw [fitShape]
    split
    · refine atMost_fitAll as target.args s atMost fun arg mem => ?_
      have := height_lt_of_mem_args mem
      omega
    · exact atMost
  | ⟨_, _, _, _, _, _, some pattern⟩, target, s => by
    rw [fitShape]
    exact atMost_fitShape pattern target s

theorem atMost_fitAll {bound : Nat} : ∀ (patterns targets : List Ty) (s : Subst),
    s.AtMost bound → (∀ target ∈ targets, target.height ≤ bound) →
    (fitAll patterns targets s).2.AtMost bound
  | [], targets, s => by
    intro atMost _
    simpa only [fitAll] using atMost
  | pattern :: patterns, [], s => by
    intro atMost _
    simpa only [fitAll] using atMost
  | pattern :: patterns, target :: targets, s => by
    intro atMost low
    obtain ⟨first, others⟩ := List.forall_mem_cons.mp low
    have one : (if pattern.kind = .typeVar then fitVar pattern.name target s
        else fitShape pattern target.dealias s).2.AtMost bound := by
      split
      · exact atMost_fitVar atMost first pattern.name
      · exact atMost_fitShape pattern target.dealias s atMost
          (Nat.le_trans (height_dealias_le target) first)
    rw [fitAll]
    split
    · rename_i s' found
      rw [found] at one
      exact atMost_fitAll patterns targets s' one others
    · rename_i s' found
      rw [found] at one
      exact one

end

/-- What the variables of a pattern stand for is no higher than the type that it fits. -/
theorem atMost_fit (pattern target : Ty) {s : Subst} {bound : Nat} (atMost : s.AtMost bound)
    (low : target.height ≤ bound) : (pattern.fit target s).2.AtMost bound := by
  rw [fit]
  split
  · exact atMost_fitVar atMost low pattern.name
  · exact atMost_fitShape pattern target.dealias s atMost
      (Nat.le_trans (height_dealias_le target) low)

end Ty

end Injector
