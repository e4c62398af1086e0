/-
# Injector.Proofs.Ty.Sequence -- two substitutions as one

Substituting by `s` and then by `r` is substituting once by `s.andThen r`: what `s` stands for,
with `r` put into it, and what `r` stands for where `s` stands for nothing.  This holds of every
type, whatever its variables, aliases, nullability and qualifiers, and whatever arguments an
occurrence of a variable carries.

It holds of no other substitution (`subst_composition`).  A variable with an argument shows
whether something stands for it, even if that is the variable itself: a value takes the place of
the occurrence with its arguments (`unbound_of_subst_eq`).
-/
import Injector.Proofs.Ty.Composition

namespace Injector

set_option autoImplicit false

namespace Table

variable {α β γ : Type} [DecidableEq α]

theorem get?_mapValues (f : β → γ) (t : Table α β) (key : α) :
    (t.mapValues f).get? key = (t.get? key).map f :=
  find_map f key t.rows

/-- The table with those rows that have a new key behind its own. -/
def insertAllNew (t : Table α β) (rows : List (α × β)) : Table α β :=
  rows.foldl (fun t row => t.insertNew row.1 row.2) t

theorem get?_insertAllNew (t : Table α β) (rows : List (α × β)) (key : α) :
    (t.insertAllNew rows).get? key = (t.get? key).or (find key rows) := by
  induction rows generalizing t with
  | nil => simp [insertAllNew, find]
  | cons row rest ih =>
      have behind := ih (t.insertNew row.1 row.2)
      rw [insertAllNew] at behind ⊢
      rw [List.foldl_cons, behind, get?_insertNew, Option.or_assoc, find]
      split <;> rfl

end Table

namespace Subst

/-- The substitution `s`, then the substitution `r`. -/
def andThen (s r : Subst) : Subst := (s.mapValues (Ty.subst r)).insertAllNew r.rows

theorem get?_andThen (s r : Subst) (name : String) :
    (s.andThen r).get? name = ((s.get? name).map (Ty.subst r)).or (r.get? name) := by
  rw [andThen, Table.get?_insertAllNew, Table.get?_mapValues]
  rfl

end Subst

namespace Ty

variable {s c : Subst} {name : String}

theorem subst_typeVar (s : Subst) (name : String) :
    (typeVar name).subst s = (s.get? name).getD (typeVar name) := by
  cases bound : s.get? name with
  | none => simp [typeVar, subst, substAll, substTarget, bound]
  | some value => simp [typeVar, subst, bound, fill_none]

/-- Two substitutions that do the same to every type leave the same variables alone. -/
theorem unbound_of_subst_eq (same : ∀ t : Ty, t.subst s = t.subst c)
    (unbound : c.get? name = none) : s.get? name = none := by
  let applied : Ty := { typeVar name with args := [unit] }
  cases bound : s.get? name with
  | none => rfl
  | some value =>
      have plain : value = typeVar name := by
        simpa [subst_typeVar, bound, unbound] using same (typeVar name)
      have replaced : applied.subst s = value := by
        simp [applied, typeVar, subst, bound, fill_none]
      have left : (applied.subst c).args.length = 1 := by
        simp [applied, typeVar, subst, substAll, unbound]
      rw [← same applied, replaced, plain] at left
      cases left

/-- They stand for the same. -/
theorem get?_eq_of_subst_eq (same : ∀ t : Ty, t.subst s = t.subst c) (name : String) :
    s.get? name = c.get? name := by
  cases bound : s.get? name with
  | none => exact (unbound_of_subst_eq (fun t => (same t).symm) bound).symm
  | some value =>
      cases bound' : c.get? name with
      | none =>
          rw [unbound_of_subst_eq same bound'] at bound
          cases bound
      | some value' =>
          have occurrence := same (typeVar name)
          rw [subst_typeVar, subst_typeVar, bound, bound'] at occurrence
          exact congrArg some occurrence

/-- Substituting twice is substituting once by the composition, which has what the first stands
for with the second put into it, and what the second stands for where the first stands for
nothing.  Another substitution does so only if it stands for the same. -/
theorem subst_composition (s r : Subst) :
    (∀ t : Ty, (t.subst s).subst r = t.subst (s.andThen r)) ∧
      (∀ name, (s.andThen r).get? name = ((s.get? name).map (subst r)).or (r.get? name)) ∧
      ∀ c : Subst, (∀ t : Ty, (t.subst s).subst r = t.subst c) ↔
        ∀ name, c.get? name = (s.andThen r).get? name := by
  have once (t : Ty) : (t.subst s).subst r = t.subst (s.andThen r) :=
    subst_subst t fun name _ => s.get?_andThen r name
  refine ⟨once, s.get?_andThen r, fun c => ⟨fun also => ?_, fun same t => ?_⟩⟩
  · exact get?_eq_of_subst_eq fun t => (also t).symm.trans (once t)
  · exact subst_subst t fun name _ => (same name).trans (s.get?_andThen r name)

/-- An occurrence under an alias gives its mark and its qualifier to what stands for it at last,
and loses its argument. -/
example :
    let q : AnnotationUse := { package := "", name := "Q" }
    let s : Subst := .ofList [("T", typeVar "U")]
    let r : Subst := .ofList [("U", { name := "Foo" }), ("T", { name := "Bar" })]
    let occurrence : Ty :=
      { typeVar "T" with args := [unit], nullable := true, qualifier := some q }
    let foo : Ty := { name := "Foo", nullable := true, qualifier := some q }
    ((«alias» "" "Alias" occurrence).subst s).subst r = «alias» "" "Alias" foo ∧
      («alias» "" "Alias" occurrence).subst (s.andThen r) = «alias» "" "Alias" foo := by decide

end Ty

end Injector
