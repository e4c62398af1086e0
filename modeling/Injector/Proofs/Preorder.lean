/-
# Injector.Proofs.Preorder -- depth first, by recursion and with a stack

From each node there is a list of nodes that come next, and nothing is known of the whole: nodes
may be shared, and they may lead back to themselves.  Going over a list of nodes by recursion, a
node that was met before is skipped; any other one is met, then what comes next from it is gone
over, then the rest of the list (`Preorder`).  The walk with a stack puts what comes next on the
stack and goes on with the top (`StackWalk`); a node may wait there more than once, and is only
skipped when it comes up again.

Both are relations between the nodes met before and those met in the end, in order, so that they
have no limit built in.  They are the same relation (`stackWalk_iff`), since the stack holds what
is left of the lists that the recursion is in.  What is met is what can be reached
(`Preorder.mem_iff`), each node once (`Preorder.nodup`).

A walk that gives up after a number of steps is one of them if there are enough.  What counts is
how much is still to be put on the stack: every node that is met takes its share of it away
(`sum_open_append`).
-/
import Mathlib.Algebra.GroupWithZero.Nat
import Mathlib.Algebra.Order.BigOperators.Group.List
import Mathlib.Algebra.Order.Group.Nat
import Mathlib.Data.List.Nodup
import Mathlib.Logic.Relation

namespace Injector

set_option autoImplicit false

open Relation (ReflTransGen)

variable {α : Type} (next : α → List α)

/-- Going over the nodes depth first, by recursion: met before, and met in the end. -/
inductive Preorder : List α → List α → List α → Prop where
  | done (seen : List α) : Preorder [] seen seen
  | skip {x : α} {rest seen out : List α} :
      x ∈ seen → Preorder rest seen out → Preorder (x :: rest) seen out
  | visit {x : α} {rest seen mid out : List α} :
      x ∉ seen → Preorder (next x) (seen ++ [x]) mid → Preorder rest mid out →
        Preorder (x :: rest) seen out

/-- Going over the nodes on a stack depth first: met before, and met in the end. -/
inductive StackWalk : List α → List α → List α → Prop where
  | done (seen : List α) : StackWalk [] seen seen
  | skip {x : α} {stack seen out : List α} :
      x ∈ seen → StackWalk stack seen out → StackWalk (x :: stack) seen out
  | visit {x : α} {stack seen out : List α} :
      x ∉ seen → StackWalk (next x ++ stack) (seen ++ [x]) out → StackWalk (x :: stack) seen out

variable {next} {x : α} {xs ys stack seen mid out out' : List α}

/-! ## Recursion and stack -/

/-- The walk has one end only. -/
theorem Preorder.unique (walk : Preorder next xs seen out) (walk' : Preorder next xs seen out') :
    out = out' := by
  induction walk generalizing out' with
  | done seen =>
      cases walk'
      rfl
  | skip met _ ih =>
      cases walk' with
      | skip _ rest => exact ih rest
      | visit new => exact absurd met new
  | visit new _ _ below behind =>
      cases walk' with
      | skip met => exact absurd met new
      | visit _ down rest =>
          cases below down
          exact behind rest

/-- One list behind another is gone over after it. -/
theorem preorder_append :
    Preorder next (xs ++ ys) seen out ↔
      ∃ mid, Preorder next xs seen mid ∧ Preorder next ys mid out := by
  constructor
  · intro walk
    induction xs generalizing seen with
    | nil => exact ⟨seen, .done seen, walk⟩
    | cons x xs ih =>
        cases walk with
        | skip met rest =>
            obtain ⟨mid, first, second⟩ := ih rest
            exact ⟨mid, .skip met first, second⟩
        | visit new down rest =>
            obtain ⟨mid, first, second⟩ := ih rest
            exact ⟨mid, .visit new down first, second⟩
  · rintro ⟨mid, first, second⟩
    induction first with
    | done => exact second
    | skip met _ ih => exact .skip met (ih second)
    | visit new down _ _ ih => exact .visit new down (ih second)

/-- Whatever the recursion goes over first, the stack can wait for. -/
theorem Preorder.stackWalk (walk : Preorder next xs seen mid)
    (rest : StackWalk next stack mid out) : StackWalk next (xs ++ stack) seen out := by
  induction walk generalizing stack with
  | done => exact rest
  | skip met _ ih => exact .skip met (ih rest)
  | visit new _ _ below behind => exact .visit new (below (behind rest))

/-- The walk with a stack is the recursive walk. -/
theorem stackWalk_iff : StackWalk next stack seen out ↔ Preorder next stack seen out := by
  constructor
  · intro walk
    induction walk with
    | done seen => exact .done seen
    | skip met _ ih => exact .skip met ih
    | visit new _ ih =>
        obtain ⟨mid, down, rest⟩ := preorder_append.mp ih
        exact .visit new down rest
  · intro walk
    have whole := walk.stackWalk (.done out)
    rwa [List.append_nil] at whole

/-! ## What is met -/

/-- What was met before stays in front. -/
theorem Preorder.isPrefix (walk : Preorder next xs seen out) : seen <+: out := by
  induction walk with
  | done seen => exact List.prefix_refl seen
  | skip _ _ ih => exact ih
  | visit _ _ _ below behind => exact ((List.prefix_append _ _).trans below).trans behind

/-- The first node is met first. -/
theorem Preorder.head? (walk : Preorder next (x :: xs) [] out) : out.head? = some x := by
  cases walk with
  | skip met => cases met
  | visit _ down rest =>
      obtain ⟨more, rfl⟩ := down.isPrefix.trans rest.isPrefix
      rfl

/-- No node is met twice. -/
theorem Preorder.nodup (walk : Preorder next xs seen out) (distinct : seen.Nodup) :
    out.Nodup := by
  induction walk with
  | done => exact distinct
  | skip _ _ ih => exact ih distinct
  | @visit x _ seen _ _ new _ _ below behind =>
      refine behind (below (List.nodup_append.mpr ⟨distinct, List.nodup_singleton x, ?_⟩))
      rintro y mem _ only rfl
      exact new (List.mem_singleton.mp only ▸ mem)

theorem Preorder.subset (walk : Preorder next xs seen out) : xs ⊆ out := by
  induction walk with
  | done seen => exact List.nil_subset seen
  | skip met rest ih => exact List.cons_subset.mpr ⟨rest.isPrefix.subset met, ih⟩
  | visit _ down rest _ ih =>
      exact List.cons_subset.mpr ⟨rest.isPrefix.subset (down.isPrefix.subset (by simp)), ih⟩

/-- What comes next from a node that the walk meets is met too. -/
theorem Preorder.next_subset (walk : Preorder next xs seen out) (mem : x ∈ out)
    (new : x ∉ seen) : next x ⊆ out := by
  induction walk with
  | done => exact absurd mem new
  | skip _ _ ih => exact ih mem new
  | @visit y _ seen mid _ _ down rest below behind =>
      by_cases earlier : x ∈ mid
      · refine List.Subset.trans ?_ rest.isPrefix.subset
        by_cases self : x = y
        · subst self
          exact down.subset
        · exact below earlier (by simp [new, self])
      · exact behind mem earlier

/-- What the walk meets can be reached from where it starts. -/
theorem Preorder.reached (walk : Preorder next xs seen out) (mem : x ∈ out) :
    x ∈ seen ∨ ∃ start ∈ xs, ReflTransGen (fun a b => b ∈ next a) start x := by
  induction walk with
  | done => exact .inl mem
  | skip _ _ ih =>
      exact (ih mem).imp_right fun ⟨start, among, way⟩ => ⟨start, .tail _ among, way⟩
  | @visit y _ seen _ _ _ _ _ below behind =>
      rcases behind mem with earlier | ⟨start, among, way⟩
      · rcases below earlier with before | ⟨start, among, way⟩
        · rcases List.mem_append.mp before with before | self
          · exact .inl before
          · obtain rfl := List.mem_singleton.mp self
            exact .inr ⟨x, List.mem_cons_self, .refl⟩
        · exact .inr ⟨y, List.mem_cons_self, way.head among⟩
      · exact .inr ⟨start, .tail _ among, way⟩

/-- The whole walk meets what can be reached. -/
theorem Preorder.mem_iff (walk : Preorder next xs [] out) :
    x ∈ out ↔ ∃ start ∈ xs, ReflTransGen (fun a b => b ∈ next a) start x := by
  constructor
  · intro mem
    exact (walk.reached mem).resolve_left List.not_mem_nil
  · rintro ⟨start, among, way⟩
    induction way with
    | refl => exact walk.subset among
    | tail _ step ih => exact walk.next_subset ih List.not_mem_nil step

/-! ## What is left to meet -/

/-- Meeting a node takes its weight away from what is left. -/
theorem sum_open_append [DecidableEq α] (weight : α → Nat) (nodes seen : List α) (new : x ∉ seen) :
    (nodes.map fun y => if y ∈ seen ++ [x] then 0 else weight y).sum +
        (if x ∈ nodes then weight x else 0) ≤
      (nodes.map fun y => if y ∈ seen then 0 else weight y).sum := by
  induction nodes with
  | nil => simp
  | cons y rest ih =>
      simp only [List.map_cons, List.sum_cons, List.mem_cons]
      by_cases same : x = y
      · subst same
        have now : x ∈ seen ++ [x] := by simp
        rw [if_pos now, if_neg new, if_pos (Or.inl rfl)]
        have : (rest.map fun y => if y ∈ seen ++ [x] then 0 else weight y).sum ≤
            (rest.map fun y => if y ∈ seen then 0 else weight y).sum := by
          omega
        omega
      · have other : y ∈ seen ++ [x] ↔ y ∈ seen := by
          simp [Ne.symm same]
        simp only [same, false_or, other]
        omega

end Injector
