/-
# Injector.Proofs.Ty.Fitting -- which types a pattern fits

Fitting a pattern only ever adds to what its variables stand for (`extends_fit`), and what
they stand for in the end determines the type, as far as patterns look into types: two
types without aliases and qualifiers that a pattern fits with the same types for its
variables are the same (`fit_unique`).  Of the uses of a declaration this holds anyway, as long
as its variables have different names (`ofArgs_injective`).
-/
import Injector.Ty.Pattern
import Injector.Proofs.Ty.Legibility

namespace Injector

set_option autoImplicit false

/-- What stands for a variable in `s` stands for it in `σ`. -/
def Subst.Extends (σ s : Subst) : Prop := ∀ name t, s.get? name = some t → σ.get? name = some t

namespace Ty

variable {l : Lettering} {s s' σ : Subst}

/-! ## What stands for variables -/

/-- A variable that fits stands for the type from then on. -/
theorem fitVar_eq_true {name : String} {target : Ty} (fits : fitVar name target s = (true, s')) :
    s'.Extends s ∧ s'.get? name = some target := by
  rw [fitVar] at fits
  split at fits
  · rename_i bound found
    obtain ⟨same, rfl⟩ := Prod.mk.inj fits
    rw [beq_iff_eq] at same
    exact ⟨fun _ _ => id, same ▸ found⟩
  · rename_i new
    obtain ⟨-, rfl⟩ := Prod.mk.inj fits
    refine ⟨fun other t found => ?_, by rw [Table.get?_insert, if_pos rfl]⟩
    rw [Table.get?_insert]
    split
    · subst other
      cases new.symm.trans found
    · exact found

mutual

theorem extends_fitShape : ∀ (pattern target : Ty) {s s' : Subst},
    fitShape pattern target s = (true, s') → s'.Extends s
  | ⟨k, p, n, as, u, _, none⟩, target, s, s' => by
    intro fits
    rw [fitShape] at fits
    split at fits
    · exact extends_fitAll as target.args fits
    · cases fits
  | ⟨_, _, _, _, _, _, some pattern⟩, target, s, s' => by
    rw [fitShape]
    exact extends_fitShape pattern target

theorem extends_fitAll : ∀ (patterns targets : List Ty) {s s' : Subst},
    fitAll patterns targets s = (true, s') → s'.Extends s
  | [], targets, s, s' => by
    intro fits
    obtain rfl : s = s' := by simpa [fitAll] using fits
    exact fun _ _ => id
  | pattern :: patterns, [], s, s' => by
    intro fits
    obtain rfl : s = s' := by simpa [fitAll] using fits
    exact fun _ _ => id
  | pattern :: patterns, target :: targets, s, s' => by
    intro fits
    rw [fitAll] at fits
    split at fits
    · rename_i mid first
      have later := extends_fitAll patterns targets fits
      refine fun name t found => later name t ?_
      split at first
      · exact (fitVar_eq_true first).1 name t found
      · exact extends_fitShape pattern target.dealias first name t found
    · cases fits

end

/-! ## Types that are spelled -/

theorem parts_of_isSpelled {t : Ty} (spelled : t.isSpelled l = true) :
    t.qualifier = none ∧ t.aliasOf = none ∧ ∀ arg ∈ t.args, arg.isSpelled l = true := by
  obtain ⟨k, p, n, as, u, q, o⟩ := t
  simp only [isSpelled, Bool.and_eq_true, Option.isNone_iff_eq_none, areSpelled_iff] at spelled
  exact ⟨spelled.1.1.1, spelled.1.1.2, spelled.1.2⟩

theorem dealias_of_isSpelled {t : Ty} (spelled : t.isSpelled l = true) : t.dealias = t :=
  dealias_of_not_alias (parts_of_isSpelled spelled).2.1

mutual

/-- A pattern that is no variable fits one type only. -/
theorem fitShape_unique : ∀ (pattern t t' : Ty) {s s' r r' : Subst},
    fitShape pattern t s = (true, s') → fitShape pattern t' r = (true, r') →
    σ.Extends s' → σ.Extends r' → t.isSpelled l = true → t'.isSpelled l = true → t = t'
  | ⟨k, p, n, as, u, _, none⟩, t, t', s, s', r, r' => by
    intro fits fits' within within' spelled spelled'
    rw [fitShape] at fits fits'
    split at fits
    case isFalse => cases fits
    split at fits'
    case isFalse => cases fits'
    rename_i head head'
    simp only [fitsHead, Bool.and_eq_true, beq_iff_eq] at head head'
    obtain ⟨plain, real, args⟩ := parts_of_isSpelled spelled
    obtain ⟨plain', real', args'⟩ := parts_of_isSpelled spelled'
    have same := fitAll_unique as t.args t'.args fits fits' within within' head.2 head'.2 args args'
    obtain ⟨kt, pt, nt, ast, ut, qt, ot⟩ := t
    obtain ⟨kt', pt', nt', ast', ut', qt', ot'⟩ := t'
    simp only at head head' plain real plain' real' same
    obtain ⟨⟨⟨⟨rfl, rfl⟩, rfl⟩, rfl⟩, -⟩ := head
    obtain ⟨⟨⟨⟨rfl, rfl⟩, rfl⟩, rfl⟩, -⟩ := head'
    rw [plain, real, plain', real', same]
  | ⟨_, _, _, _, _, _, some pattern⟩, t, t', _, _, _, _ => by
    rw [fitShape, fitShape]
    exact fitShape_unique pattern t t'

theorem fitAll_unique : ∀ (patterns ts ts' : List Ty) {s s' r r' : Subst},
    fitAll patterns ts s = (true, s') → fitAll patterns ts' r = (true, r') →
    σ.Extends s' → σ.Extends r' → patterns.length = ts.length → patterns.length = ts'.length →
    (∀ t ∈ ts, t.isSpelled l = true) → (∀ t ∈ ts', t.isSpelled l = true) → ts = ts'
  | [], ts, ts', _, _, _, _ => by
    intro _ _ _ _ length length' _ _
    rw [List.eq_nil_of_length_eq_zero length.symm, List.eq_nil_of_length_eq_zero length'.symm]
  | _ :: _, [], _, _, _, _, _ => by
    intro _ _ _ _ length
    cases length
  | _ :: _, _ :: _, [], _, _, _, _ => by
    intro _ _ _ _ _ length
    cases length
  | pattern :: patterns, t :: ts, t' :: ts', s, s', r, r' => by
    intro fits fits' within within' length length' spelled spelled'
    rw [fitAll] at fits fits'
    split at fits
    case h_2 => cases fits
    rename_i mid first
    split at fits'
    case h_2 => cases fits'
    rename_i mid' first'
    obtain ⟨mine, others⟩ := List.forall_mem_cons.mp spelled
    obtain ⟨mine', others'⟩ := List.forall_mem_cons.mp spelled'
    have before : σ.Extends mid := fun name t found =>
      within name t (extends_fitAll patterns ts fits name t found)
    have before' : σ.Extends mid' := fun name t found =>
      within' name t (extends_fitAll patterns ts' fits' name t found)
    have rest := fitAll_unique patterns ts ts' fits fits' within within'
      (Nat.succ.inj length) (Nat.succ.inj length') others others'
    rw [rest]
    split at first
    · rename_i isVar
      rw [if_pos isVar] at first'
      have bound := before _ _ (fitVar_eq_true first).2
      have bound' := before' _ _ (fitVar_eq_true first').2
      rw [Option.some.inj (bound.symm.trans bound')]
    · rename_i other
      rw [if_neg other] at first'
      rw [dealias_of_isSpelled mine] at first
      rw [dealias_of_isSpelled mine'] at first'
      rw [fitShape_unique pattern t t' first first' before before' mine mine']

end

/-- The pattern and what its variables stand for determine the type. -/
theorem fit_unique {pattern t t' : Ty} (fits : pattern.fit t s = (true, σ))
    (fits' : pattern.fit t' s' = (true, σ)) (spelled : t.isSpelled l = true)
    (spelled' : t'.isSpelled l = true) : t = t' := by
  rw [fit] at fits fits'
  split at fits
  · rename_i isVar
    rw [if_pos isVar] at fits'
    exact Option.some.inj ((fitVar_eq_true fits).2.symm.trans (fitVar_eq_true fits').2)
  · rename_i other
    rw [if_neg other] at fits'
    rw [dealias_of_isSpelled spelled] at fits
    rw [dealias_of_isSpelled spelled'] at fits'
    exact fitShape_unique pattern t t' fits fits' (fun _ _ => id) (fun _ _ => id) spelled spelled'

end Ty

/-! ## Arguments -/

theorem Table.rows_ofList {α β : Type} [DecidableEq α] {rows : List (α × β)}
    (distinct : (rows.map (·.1)).Nodup) : (Table.ofList rows).rows = rows := by
  have added (t : Table α β) (rows : List (α × β)) (distinct : (t.keys ++ rows.map (·.1)).Nodup) :
      (rows.foldl (fun t row => t.insert row.1 row.2) t).rows = t.rows ++ rows := by
    induction rows generalizing t with
    | nil => simp
    | cons row rest ih =>
        have new : row.1 ∉ t.keys := fun mem =>
          (List.nodup_append.mp distinct).2.2 row.1 mem row.1 (by simp) rfl
        have inserted := rows_insert_of_notMem new row.2
        rw [List.foldl_cons, ih, inserted, List.append_assoc, List.singleton_append]
        rw [keys, inserted]
        simpa [keys] using distinct
  exact added empty rows (by simpa [keys, empty] using distinct)

/-- What the variables stand for determines the arguments. -/
theorem Subst.ofArgs_injective {names : List String} {args args' : List Ty} (distinct : names.Nodup)
    (length : args.length = names.length) (length' : args'.length = names.length)
    (same : Subst.ofArgs names args = Subst.ofArgs names args') : args = args' := by
  have rows {args : List Ty} (length : args.length = names.length) :
      (Subst.ofArgs names args).rows = names.zip args := by
    refine Table.rows_ofList ?_
    rwa [List.map_fst_zip (Nat.le_of_eq length.symm)]
  have zipped : names.zip args = names.zip args' := by
    rw [← rows length, ← rows length', same]
  rw [← List.map_snd_zip (Nat.le_of_eq length), zipped, List.map_snd_zip (Nat.le_of_eq length')]

end Injector
