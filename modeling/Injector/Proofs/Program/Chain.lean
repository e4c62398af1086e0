/-
# Injector.Proofs.Program.Chain -- the classes above a class

The walk up from a class goes depth first over declared supertypes.  It lists each class
once (`nodup_chain`), and just the classes that can be reached (`mem_chain_iff`), in the order
in which recursion comes to them (`chain_preorder`), whether or not the hierarchy has a cycle.

The supertypes that are still to be looked at get fewer with every class that is listed
(`openSupers_expand`), so the stack is empty before the walk gives up: it is the walk without a
limit (`stackWalk_chainFrom`).
-/
import Injector.Program.Hierarchy
import Injector.Proofs.Preorder

namespace Injector

set_option autoImplicit false

open Relation (ReflTransGen)

theorem ClassId.toNat_injective : Function.Injective ClassId.toNat := by
  rintro ⟨m⟩ ⟨n⟩ same
  exact congrArg ClassId.mk (UInt32.toNat_inj.mp same)

namespace Program

variable (p : Program)

/-- The class `c` declares a supertype that is a type of the class `d`. -/
def Extends (c d : ClassId) : Prop := d ∈ p.superClasses c

/-- How many supertypes the class at position `n` declares. -/
def supersAt (n : Nat) : Nat := ((p.classes[n]?).map (·.supers.length)).getD 0

/-- How many supertypes are declared by classes that are not listed. -/
def openSupers (seen : List ClassId) : Nat :=
  ((List.range p.classes.length).map fun n =>
    if n ∈ seen.map ClassId.toNat then 0 else p.supersAt n).sum

variable {p} {c d : ClassId} {stack seen : List ClassId}

/-! ## The walk ends -/

variable (p) in
theorem length_superClasses_le (c : ClassId) : (p.superClasses c).length ≤ p.supersAt c.toNat := by
  refine Nat.le_trans (List.length_filterMap_le _ _) ?_
  rw [supersAt, classAt]
  cases p.classes[c.toNat]? <;> exact Nat.le_refl _

/-- Listing a class takes its supertypes away. -/
theorem openSupers_expand (new : c ∉ seen) :
    p.openSupers (seen ++ [c]) + (p.superClasses c).length ≤ p.openSupers seen := by
  have absent : c.toNat ∉ seen.map ClassId.toNat := by
    rwa [List.mem_map_of_injective ClassId.toNat_injective]
  have fewer : p.openSupers (seen ++ [c]) +
      (if c.toNat ∈ List.range p.classes.length then p.supersAt c.toNat else 0) ≤
        p.openSupers seen := by
    rw [openSupers, List.map_append]
    exact sum_open_append p.supersAt (List.range p.classes.length) _ absent
  have most := p.length_superClasses_le c
  split at fewer
  · omega
  · rename_i outside
    have none : p.supersAt c.toNat = 0 := by
      rw [List.mem_range, Nat.not_lt] at outside
      simp [supersAt, List.getElem?_eq_none outside]
    omega

theorem openSupers_nil : p.openSupers [] = p.superCount := by
  have supers : (List.range p.classes.length).map p.supersAt =
      p.classes.map (·.supers.length) := by
    apply List.ext_getElem
    · simp
    · intro n h _
      simp only [List.length_map, List.length_range] at h
      simp [supersAt, h]
  rw [superCount, ← List.foldl_map (f := fun c : ClassDecl => c.supers.length), ← List.sum_eq_foldl,
    ← supers, openSupers]
  simp

/-- With enough steps the walk comes to its end. -/
theorem stackWalk_chainFrom {fuel : Nat} (enough : p.openSupers seen + stack.length ≤ fuel) :
    StackWalk p.superClasses stack seen (p.chainFrom fuel stack seen) := by
  fun_induction Program.chainFrom p fuel stack seen with
  | case1 stack seen =>
      obtain rfl : stack = [] := List.eq_nil_of_length_eq_zero (by omega)
      exact .done seen
  | case2 fuel seen => exact .done seen
  | case3 fuel c stack seen listed ih =>
      simp only [List.length_cons] at enough
      exact .skip (by simpa using listed) (ih (by omega))
  | case4 fuel c stack seen new ih =>
      have new : c ∉ seen := by simpa using new
      have fewer := openSupers_expand (p := p) new
      simp only [List.length_cons] at enough
      refine .visit new (ih ?_)
      rw [List.length_append]
      omega

variable (p) in
/-- The chain is the recursive walk up from the class. -/
theorem preorder_chain (c : ClassId) : Preorder p.superClasses [c] [] (p.chain c) := by
  refine stackWalk_iff.mp (stackWalk_chainFrom (Nat.le_of_eq ?_))
  rw [openSupers_nil, List.length_singleton]

variable (p) in
theorem nodup_chain (c : ClassId) : (p.chain c).Nodup := (p.preorder_chain c).nodup List.nodup_nil

/-- The chain of a class lists the classes that can be reached over declared supertypes. -/
theorem mem_chain_iff : d ∈ p.chain c ↔ ReflTransGen p.Extends c d := by
  rw [(p.preorder_chain c).mem_iff]
  constructor
  · rintro ⟨start, only, way⟩
    obtain rfl := List.mem_singleton.mp only
    exact way
  · intro way
    exact ⟨c, List.mem_singleton_self c, way⟩

/-- Whatever the hierarchy, the walk up from a class ends, with what recursion over the declared
supertypes lists: the class itself first, and each class that can be reached once. -/
theorem chain_preorder (p : Program) (c : ClassId) :
    StackWalk p.superClasses [c] [] (p.chain c) ∧
      (∀ out, Preorder p.superClasses [c] [] out ↔ out = p.chain c) ∧
      (p.chain c).head? = some c ∧
      (p.chain c).Nodup ∧ ∀ d, d ∈ p.chain c ↔ ReflTransGen p.Extends c d := by
  have walk := p.preorder_chain c
  refine ⟨stackWalk_iff.mpr walk, fun out => ?_, walk.head?, p.nodup_chain c,
    fun d => mem_chain_iff⟩
  constructor
  · intro other
    exact other.unique walk
  · rintro rfl
    exact walk

/-- `Foo` waits on the stack when `Bar` puts it there again, and leads back to where it began. -/
example :
    let p : Program := { classes := [
      { name := "Baz", supers := [{ name := "Bar" }, { name := "Foo" }] },
      { name := "Bar", supers := [{ name := "Foo" }] },
      { name := "Foo", supers := [{ name := "Baz" }] }] }
    p.chain (.ofNat 0) = [.ofNat 0, .ofNat 1, .ofNat 2] := by decide

end Program

end Injector
