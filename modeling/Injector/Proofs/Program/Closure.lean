/-
# Injector.Proofs.Program.Closure -- the types above a type

A type declares a supertype when its class does, with the arguments of the type put for the
class's variables (`Declares`).  `supertypes` lists the types that are above a type in one or more
such steps, each once, in a hierarchy without cycles (`supertypes_closure`).

It is the walk with a stack of types whose supertypes are still to be listed (`Walks`), which in
general has no end.  What is listed is new each time, and a listed type is on the stack until what
it declares is listed too (`Walks.covers`), so in the end nothing is missing.  There is an end just
if no more than finitely many types are above (`ends_iff`).

What the recursion of `supertypesFrom` finds is what the walk finds (`walks_supertypesFrom`), and
so is what `ascend` comes to in the end (`Walks.ascend_eq`).  So a type has the supertypes that the
walk ends with (`Ends.walks`); of a walk without an end nothing is said.
-/
import Injector.Proofs.Program.Acyclic
import Mathlib.Data.Set.Finite.Basic

namespace Injector

set_option autoImplicit false

open Relation (TransGen)

namespace Program

variable (p : Program)

/-- The second type is a declared supertype of the class of the first one, at its arguments. -/
def Declares (t u : Ty) : Prop :=
  ∃ c, p.classOf t = some c ∧
    ∃ super ∈ (p.classAt c).supers, u = super.subst ((p.classAt c).substFor t)

/-- The walk with these types on the stack, and these listed before, ends with a list. -/
inductive Walks : List Ty → List Ty → List Ty → Prop where
  | done (seen : List Ty) : Walks [] seen seen
  | visit {ty : Ty} {stack seen out : List Ty} :
      Walks ((unseen (p.directSupertypes ty) seen).reverse ++ stack)
        (seen ++ unseen (p.directSupertypes ty) seen) out → Walks (ty :: stack) seen out

/-- What is declared by a listed type that is not on the stack is listed. -/
structure Covers (stack seen : List Ty) : Prop where
  nodup : seen.Nodup
  declared : ∀ t ∈ seen, t ∈ stack ∨ ∀ u, p.Declares t u → u ∈ seen

variable {p} {t u ty : Ty} {ts stack seen out : List Ty}

theorem mem_directSupertypes : u ∈ p.directSupertypes t ↔ p.Declares t u := by
  rw [directSupertypes, Declares]
  cases p.classOf t with
  | none => simp
  | some c => simp [eq_comm]

/-! ## What is new -/

theorem mem_append_unseen : t ∈ seen ++ unseen ts seen ↔ t ∈ seen ∨ t ∈ ts := by
  induction ts generalizing seen with
  | nil => simp [unseen]
  | cons first rest ih =>
      rw [unseen]
      split
      · rename_i listed
        have listed : first ∈ seen := by simpa using listed
        rw [ih, List.mem_cons]
        constructor
        · exact Or.imp_right .inr
        · rintro (before | rfl | after)
          · exact .inl before
          · exact .inl listed
          · exact .inr after
      · rw [← List.singleton_append, ← List.append_assoc, ih, List.mem_append, List.mem_singleton,
          List.mem_cons, or_assoc]

theorem nodup_append_unseen (distinct : seen.Nodup) : (seen ++ unseen ts seen).Nodup := by
  induction ts generalizing seen with
  | nil => simpa [unseen] using distinct
  | cons first rest ih =>
      rw [unseen]
      split
      · exact ih distinct
      · rename_i new
        have new : first ∉ seen := by simpa using new
        rw [← List.singleton_append, ← List.append_assoc]
        exact ih (List.nodup_append.mpr ⟨distinct, List.nodup_singleton first, by
          rintro other mem _ only rfl
          exact new (List.mem_singleton.mp only ▸ mem)⟩)

/-- What is new was not listed, and is listed once. -/
theorem card_sdiff_append_unseen {all : Finset Ty} (distinct : seen.Nodup)
    (within : ∀ t ∈ unseen ts seen, t ∈ all) :
    (all \ (seen ++ unseen ts seen).toFinset).card + (unseen ts seen).length =
      (all \ seen.toFinset).card := by
  have both : (seen ++ unseen ts seen).Nodup := nodup_append_unseen distinct
  obtain ⟨-, fresh, apart⟩ := List.nodup_append.mp both
  rw [List.toFinset_append, ← Finset.sup_eq_union, ← sdiff_sdiff_left,
    ← List.toFinset_card_of_nodup fresh]
  refine Finset.card_sdiff_add_card_eq_card fun t mem => ?_
  have new := List.mem_toFinset.mp mem
  refine Finset.mem_sdiff.mpr ⟨within t new, fun listed => ?_⟩
  exact apart t (List.mem_toFinset.mp listed) t new rfl

/-! ## The walk to its end -/

/-- The walk has one end only. -/
theorem Walks.unique {out' : List Ty} (walks : p.Walks stack seen out)
    (walks' : p.Walks stack seen out') : out = out' := by
  induction walks with
  | done seen =>
      cases walks'
      rfl
  | visit _ ih =>
      cases walks' with
      | visit rest => exact ih rest

/-- Listing what a type declares takes it off the stack. -/
theorem Covers.visit (covers : p.Covers (ty :: stack) seen) :
    p.Covers ((unseen (p.directSupertypes ty) seen).reverse ++ stack)
      (seen ++ unseen (p.directSupertypes ty) seen) := by
  refine ⟨nodup_append_unseen covers.nodup, fun t mem => ?_⟩
  rcases List.mem_append.mp mem with listed | new
  · rcases covers.declared t listed with waits | declared
    · rcases List.mem_cons.mp waits with rfl | waits
      · right
        intro u declares
        exact mem_append_unseen.mpr (.inr (mem_directSupertypes.mpr declares))
      · exact .inl (List.mem_append_right _ waits)
    · exact .inr fun u declares => List.mem_append_left _ (declared u declares)
  · exact .inl (List.mem_append_left _ (List.mem_reverse.mpr new))

/-- In the end all that is declared is listed, by types on the stack too. -/
theorem Walks.covers (walks : p.Walks stack seen out) (covers : p.Covers stack seen) :
    p.Covers [] out ∧ seen ⊆ out ∧ ∀ t ∈ stack, ∀ u, p.Declares t u → u ∈ out := by
  induction walks with
  | done seen => exact ⟨covers, List.Subset.refl _, nofun⟩
  | @visit ty stack seen out _ ih =>
      obtain ⟨done, kept, stacked⟩ := ih covers.visit
      refine ⟨done, (List.append_subset.mp kept).1, fun t mem u declares => ?_⟩
      rcases List.mem_cons.mp mem with rfl | mem
      · exact kept (mem_append_unseen.mpr (.inr (mem_directSupertypes.mpr declares)))
      · exact stacked t (List.mem_append_right _ mem) u declares

/-- What is listed in the end was listed before, or is above a type on the stack. -/
theorem Walks.above (walks : p.Walks stack seen out) :
    ∀ t ∈ out, t ∈ seen ∨ ∃ b ∈ stack, TransGen p.Declares b t := by
  induction walks with
  | done seen => exact fun t mem => .inl mem
  | @visit ty stack seen out _ ih =>
      have declared {u : Ty} (new : u ∈ unseen (p.directSupertypes ty) seen) : p.Declares ty u :=
        mem_directSupertypes.mp (mem_of_mem_unseen new)
      intro t mem
      rcases ih t mem with listed | ⟨b, among, above⟩
      · rcases List.mem_append.mp listed with listed | new
        · exact .inl listed
        · exact .inr ⟨ty, List.mem_cons_self, .single (declared new)⟩
      · rcases List.mem_append.mp among with new | stacked
        · have first := declared (List.mem_reverse.mp new)
          exact .inr ⟨ty, List.mem_cons_self, .head first above⟩
        · exact .inr ⟨b, List.mem_cons_of_mem _ stacked, above⟩

/-! ## The recursion -/

/-- What is found going up from a type, to whatever depth, is what the walk does with it. -/
theorem walks_supertypesFrom {depth : Nat} {mid : List Ty}
    (found : p.supertypesFrom depth ty seen = some mid) (rest : p.Walks stack mid out) :
    p.Walks (ty :: stack) seen out := by
  induction depth generalizing ty seen mid stack with
  | zero =>
      simp only [supertypesFrom] at found
      split at found
      · rename_i top
        cases found
        exact .visit (by simpa [top] using rest)
      · cases found
  | succ depth ih =>
      have several (ts : List Ty) (seen : List Ty)
          (found : ts.foldlM (fun seen t => p.supertypesFrom depth t seen) seen = some mid) :
          p.Walks (ts ++ stack) seen out := by
        induction ts generalizing seen with
        | nil =>
            cases found
            exact rest
        | cons t ts others =>
            simp only [List.foldlM_cons, Option.bind_eq_bind, Option.bind_eq_some_iff] at found
            obtain ⟨mid, first, later⟩ := found
            exact ih first (others mid later)
      exact .visit (several _ _ found)

/-- Going on until nothing is on the stack is the walk, if that has an end. -/
theorem Walks.ascend_eq (walks : p.Walks stack seen out) : p.ascend stack seen = out := by
  induction walks with
  | done seen => exact p.ascend_nil seen
  | visit _ ih => exact (p.ascend_cons _ _ _).trans ih

/-! ## Types of which there is an end -/

variable (p) in
/-- There is an end of the types above the type. -/
def Ends (ty : Ty) : Prop := ∃ out, p.Walks [ty.dealias] [] out

/-- The walk ends with what is said to be above the type. -/
theorem Ends.walks (ends : p.Ends ty) : p.Walks [ty.dealias] [] (p.supertypes ty) := by
  obtain ⟨out, walks⟩ := ends
  rw [supertypes]
  split
  · rename_i mid found
    exact walks_supertypesFrom found (.done mid)
  · exact walks.ascend_eq.symm ▸ walks

theorem ends_of_acyclic (acyclic : p.Acyclic) (ty : Ty) : p.Ends ty :=
  ⟨p.supertypes ty, walks_supertypesFrom
    (supertypesFrom_eq_supertypes acyclic (Nat.le_refl _) ty) (.done _)⟩

theorem Ends.nodup_supertypes (ends : p.Ends ty) : (p.supertypes ty).Nodup :=
  (ends.walks.covers ⟨List.nodup_nil, nofun⟩).1.nodup

theorem Ends.mem_supertypes_iff (ends : p.Ends ty) :
    t ∈ p.supertypes ty ↔ TransGen p.Declares ty.dealias t := by
  obtain ⟨covers, -, first⟩ := ends.walks.covers ⟨List.nodup_nil, nofun⟩
  refine ⟨fun mem => ?_, fun above => ?_⟩
  · rcases ends.walks.above t mem with nothing | ⟨b, only, above⟩
    · cases nothing
    · exact List.mem_singleton.mp only ▸ above
  · induction above with
    | single declares => exact first _ (List.mem_singleton_self _) _ declares
    | tail _ declares listed =>
        exact (covers.declared _ listed).resolve_left List.not_mem_nil _ declares

/-- Each visit lists as many types as it puts on the stack, and takes one off. -/
theorem exists_walks (all : Finset Ty) (distinct : seen.Nodup)
    (closed : ∀ t ∈ all, ∀ u, p.Declares t u → u ∈ all)
    (stacked : ∀ t ∈ stack, ∀ u, p.Declares t u → u ∈ all) : ∃ out, p.Walks stack seen out := by
  induction size : (all \ seen.toFinset).card + stack.length using Nat.strong_induction_on
    generalizing stack seen with
  | _ n ih =>
      cases stack with
      | nil => exact ⟨seen, .done seen⟩
      | cons ty stack =>
          obtain ⟨here, others⟩ := List.forall_mem_cons.mp stacked
          have within : ∀ t ∈ unseen (p.directSupertypes ty) seen, t ∈ all := fun t mem =>
            here t (mem_directSupertypes.mp (mem_of_mem_unseen mem))
          have moved := card_sdiff_append_unseen distinct within
          have lower : ∀ t ∈ (unseen (p.directSupertypes ty) seen).reverse ++ stack,
              ∀ u, p.Declares t u → u ∈ all := by
            intro t mem
            rcases List.mem_append.mp mem with new | waits
            · exact closed t (within t (List.mem_reverse.mp new))
            · exact others t waits
          have fewer : (all \ (seen ++ unseen (p.directSupertypes ty) seen).toFinset).card +
              ((unseen (p.directSupertypes ty) seen).reverse ++ stack).length < n := by
            simp only [List.length_append, List.length_reverse, List.length_cons] at size ⊢
            omega
          obtain ⟨out, walks⟩ := ih _ fewer (nodup_append_unseen distinct) lower rfl
          exact ⟨out, .visit walks⟩

/-- There is an end of the types above a type just if there are finitely many. -/
theorem ends_iff : p.Ends ty ↔ {t | TransGen p.Declares ty.dealias t}.Finite := by
  constructor
  · intro ends
    exact (p.supertypes ty).finite_toSet.subset fun t above => ends.mem_supertypes_iff.mpr above
  · intro finite
    refine exists_walks finite.toFinset List.nodup_nil (fun t mem u declares => ?_)
      fun t mem u declares => ?_
    · exact finite.mem_toFinset.mpr ((finite.mem_toFinset.mp mem).tail declares)
    · exact finite.mem_toFinset.mpr (List.mem_singleton.mp mem ▸ .single declares)

theorem mem_supertypes_iff (acyclic : p.Acyclic) :
    t ∈ p.supertypes ty ↔ TransGen p.Declares ty.dealias t :=
  (ends_of_acyclic acyclic ty).mem_supertypes_iff

variable (p) in
/-- In a hierarchy without cycles the walk from a type comes to an end with its supertypes:
without repetition, the types that are reached from it, aliases followed, in one or more steps
to a declared supertype at the arguments of the type. -/
theorem supertypes_closure (acyclic : p.Acyclic) (ty : Ty) :
    (∀ out, p.Walks [ty.dealias] [] out ↔ out = p.supertypes ty) ∧ (p.supertypes ty).Nodup ∧
      ∀ t, t ∈ p.supertypes ty ↔ TransGen p.Declares ty.dealias t := by
  have ends := ends_of_acyclic acyclic ty
  exact ⟨fun out => ⟨fun other => other.unique ends.walks, fun same => same ▸ ends.walks⟩,
    ends.nodup_supertypes, fun t => ends.mem_supertypes_iff⟩

end Program

/-- `Bottom` is below `Top<Foo>` in two ways. -/
def diamond : Program where
  classes := [{ name := "Foo" },
    { name := "Top", kind := .interface, typeVars := [{ name := "T" }] },
    { name := "Left", kind := .interface, typeVars := [{ name := "A" }],
      supers := [{ name := "Top", args := [.typeVar "A"] }] },
    { name := "Right", kind := .interface, typeVars := [{ name := "B" }],
      supers := [{ name := "Top", args := [.typeVar "B"] }] },
    { name := "Bottom", supers := [{ name := "Left", args := [{ name := "Foo" }] },
      { name := "Right", args := [{ name := "Foo" }] }] }]
  members := []

theorem diamond_closure :
    let top : Ty := { name := "Top", args := [{ name := "Foo" }] }
    diamond.Acyclic ∧ TransGen diamond.Declares { name := "Bottom" } top ∧
      (diamond.supertypes { name := "Bottom" }).Nodup ∧
      diamond.Walks [{ name := "Bottom" }] []
        [{ name := "Left", args := [{ name := "Foo" }] },
          { name := "Right", args := [{ name := "Foo" }] }, top] := by
  intro top
  have acyclic : diamond.Acyclic :=
    Program.acyclic_of_declared ClassId.toNat (by decide) (by decide)
  obtain ⟨walks, distinct, closure⟩ :=
    Program.supertypes_closure diamond acyclic { name := "Bottom" }
  refine ⟨acyclic, (closure top).mp (by decide +kernel), distinct, ?_⟩
  exact (walks _).mpr (by decide +kernel)

end Injector
