/-
# Injector.Proofs.Plan.Drawing -- drawing a forest, without a limit

The drawing goes over neighbouring slots by recursion, and hands the plans drawn so far on from
each slot to the next one, and from each entry to the next one (`Draws`, `DrawsEach`).  Plans may
be shared and may even need themselves.  But a plan is put down as drawn before the values that
it needs are drawn, so the plans that are not drawn yet get fewer on every way down, and the
outline never comes to the depth at which it would stop (`drawsEach_outlineFrom`).

So the plans are gone over depth first, and the lines without a mark show them in that order
(`DrawsEach.preorder`).  A line is marked just when some line before it shows the same plan
(`DrawsEach.marked`).
-/
import Injector.Plan.Outline
import Injector.Proofs.Plan.Reach
import Injector.Proofs.Preorder
import Mathlib.Data.Finset.Card
import Mathlib.Data.Finset.Range

namespace Injector

set_option autoImplicit false

namespace OutlineLine

/-- The plans of the lines without a mark. -/
def firsts (lines : List OutlineLine) : List PlanId :=
  (lines.filter fun l => !l.repeated).map (·.slot.id)

/-- A line is marked if its plan was drawn before, be it above or on an earlier line. -/
def Marked : List PlanId → List OutlineLine → Prop
  | _, [] => True
  | seen, l :: rest => (l.repeated = true ↔ l.slot.id ∈ seen) ∧ Marked (l.slot.id :: seen) rest

variable {seen seen' : List PlanId} {xs ys before after : List OutlineLine} {l : OutlineLine}

@[simp] theorem firsts_cons :
    firsts (l :: xs) = if l.repeated then firsts xs else l.slot.id :: firsts xs := by
  cases marked : l.repeated <;> simp [firsts, marked]

@[simp] theorem firsts_append : firsts (xs ++ ys) = firsts xs ++ firsts ys := by
  simp [firsts]

theorem marked_append :
    Marked seen (xs ++ ys) ↔
      Marked seen xs ∧ Marked ((xs.map (·.slot.id)).reverse ++ seen) ys := by
  induction xs generalizing seen with
  | nil => simp [Marked]
  | cons l rest ih => simp [Marked, ih, and_assoc]

/-- Only which plans were drawn matters, not their order. -/
theorem Marked.congr (marked : Marked seen xs) (same : ∀ id, id ∈ seen ↔ id ∈ seen') :
    Marked seen' xs := by
  induction xs generalizing seen seen' with
  | nil => trivial
  | cons l rest ih =>
      exact ⟨marked.1.trans (same l.slot.id), ih marked.2 fun id => by simp [same]⟩

theorem Marked.repeated_iff (marked : Marked seen (before ++ l :: after)) :
    l.repeated = true ↔ l.slot.id ∈ seen ∨ ∃ b ∈ before, b.slot.id = l.slot.id := by
  rw [(marked_append.mp marked).2.1]
  simp [or_comm]

end OutlineLine

namespace Arena

variable (a : Arena)

/-- The kind of step of the plan `id`. -/
def kindOf (id : PlanId) : String := ((a.plan? id).map Plan.stepName).getD ""

/-- The line of a slot with these neighbours behind it. -/
def lineOf (above : List Bool) (slot : Slot) (rest : List Slot) (repeated : Bool) : OutlineLine :=
  { above, last := rest.isEmpty, kind := a.kindOf slot.id, slot, repeated }

/-- Drawing neighbouring slots below the lines `above`: the plans drawn before, the lines, and
the plans drawn then. -/
inductive Draws : List Bool → List Slot → List PlanId → List OutlineLine → List PlanId → Prop where
  | done (above : List Bool) (seen : List PlanId) : Draws above [] seen [] seen
  | again {above : List Bool} {slot : Slot} {rest : List Slot} {seen out : List PlanId}
      {more : List OutlineLine} :
      slot.id ∈ seen → Draws above rest seen more out →
        Draws above (slot :: rest) seen (lineOf a above slot rest true :: more) out
  | first {above : List Bool} {slot : Slot} {rest : List Slot} {seen mid out : List PlanId}
      {below more : List OutlineLine} :
      slot.id ∉ seen →
      Draws (above ++ [rest.isEmpty]) (a.children slot.id) (slot.id :: seen) below mid →
      Draws above rest mid more out →
        Draws above (slot :: rest) seen (lineOf a above slot rest false :: (below ++ more)) out

/-- Drawing entries, one after the other. -/
inductive DrawsEach : List Entry → List PlanId → List (Entry × List OutlineLine) → List PlanId →
    Prop where
  | done (seen : List PlanId) : DrawsEach [] seen [] seen
  | entry {e : Entry} {rest : List Entry} {seen mid out : List PlanId} {lines : List OutlineLine}
      {more : List (Entry × List OutlineLine)} :
      Draws a [] [e.result] seen lines mid → DrawsEach rest mid more out →
        DrawsEach (e :: rest) seen ((e, lines) :: more) out

@[simp] theorem depth_lineOf (above : List Bool) (slot : Slot) (rest : List Slot)
    (repeated : Bool) : (a.lineOf above slot rest repeated).depth = above.length := rfl

@[simp] theorem slot_lineOf (above : List Bool) (slot : Slot) (rest : List Slot) (repeated : Bool) :
    (a.lineOf above slot rest repeated).slot = slot := rfl

@[simp] theorem repeated_lineOf (above : List Bool) (slot : Slot) (rest : List Slot)
    (repeated : Bool) : (a.lineOf above slot rest repeated).repeated = repeated := rfl

/-- How many plans are not drawn yet. -/
def undrawn (seen : List PlanId) : Nat := ((Finset.range a.size).filter (· ∉ seen)).card

variable {a} {above : List Bool} {slots : List Slot} {seen mid out : List PlanId}
  {lines : List OutlineLine} {entries : List Entry} {o : List (Entry × List OutlineLine)}
  {id : PlanId}

/-! ## The drawing ends -/

theorem undrawn_le (more : seen ⊆ out) : a.undrawn out ≤ a.undrawn seen :=
  Finset.card_le_card (Finset.monotone_filter_right _ fun _ _ new mem => new (more mem))

/-- Putting a plan down leaves fewer to draw. -/
theorem undrawn_cons_lt (inside : id < a.size) (new : id ∉ seen) :
    a.undrawn (id :: seen) < a.undrawn seen := by
  refine Finset.card_lt_card ⟨?_, fun all => ?_⟩
  · exact Finset.monotone_filter_right _ fun _ _ fresh mem => fresh (List.mem_cons_of_mem _ mem)
  · have left := all (Finset.mem_filter.mpr ⟨Finset.mem_range.mpr inside, new⟩)
    exact (Finset.mem_filter.mp left).2 List.mem_cons_self

theorem undrawn_le_size (seen : List PlanId) : a.undrawn seen ≤ a.size := by
  have most := Finset.card_filter_le (Finset.range a.size) (· ∉ seen)
  rwa [Finset.card_range] at most

theorem Draws.subset (draws : a.Draws above slots seen lines out) : seen ⊆ out := by
  induction draws with
  | done => exact List.Subset.refl _
  | again _ _ ih => exact ih
  | first _ _ _ below behind =>
      exact fun id mem => behind (below (List.mem_cons_of_mem _ mem))

/-- To a depth of more than the plans that are left, the drawing is the one without a limit. -/
theorem draws_drawAll {depth : Nat} (enough : a.undrawn seen < depth) :
    a.Draws above slots seen (drawAll (a.draw depth above) slots seen).1
      (drawAll (a.draw depth above) slots seen).2 := by
  induction depth generalizing above slots seen with
  | zero => omega
  | succ depth deeper =>
      induction slots generalizing seen with
      | nil => exact .done above seen
      | cons slot rest ih =>
          by_cases old : slot.id ∈ seen
          · have drawn : a.draw (depth + 1) above rest.isEmpty slot seen =
                ([a.lineOf above slot rest true], seen) := by
              simp only [draw, List.contains_iff_mem.mpr old, if_true, lineOf, kindOf]
            simp only [drawAll, drawn]
            exact .again old (ih enough)
          · have below : a.Draws (above ++ [rest.isEmpty]) (a.children slot.id) (slot.id :: seen)
                (drawAll (a.draw depth (above ++ [rest.isEmpty])) (a.children slot.id)
                  (slot.id :: seen)).1
                (drawAll (a.draw depth (above ++ [rest.isEmpty])) (a.children slot.id)
                  (slot.id :: seen)).2 := by
              by_cases inside : slot.id < a.size
              · have fewer := undrawn_cons_lt inside old
                exact deeper (by omega)
              · rw [children_of_size_le (Nat.le_of_not_lt inside)]
                exact .done _ _
            have drawn : a.draw (depth + 1) above rest.isEmpty slot seen =
                (a.lineOf above slot rest false ::
                  (drawAll (a.draw depth (above ++ [rest.isEmpty])) (a.children slot.id)
                    (slot.id :: seen)).1,
                  (drawAll (a.draw depth (above ++ [rest.isEmpty])) (a.children slot.id)
                    (slot.id :: seen)).2) := by
              simp only [draw, Bool.eq_false_iff.mpr (mt List.contains_iff_mem.mp old), lineOf,
                kindOf]
              rfl
            simp only [drawAll, drawn]
            refine .first old below (ih ?_)
            have less := undrawn_le (a := a)
              (List.Subset.trans (List.subset_cons_self slot.id seen) below.subset)
            omega

/-- The outline of entries is the drawing without a limit. -/
theorem drawsEach_outlineFrom (a : Arena) (entries : List Entry) (seen : List PlanId) :
    ∃ out, a.DrawsEach entries seen (Forest.outlineFrom a entries seen) out := by
  induction entries generalizing seen with
  | nil => exact ⟨seen, .done seen⟩
  | cons e rest ih =>
      have draws : a.Draws [] [e.result] seen _ _ :=
        draws_drawAll (Nat.lt_succ_of_le (undrawn_le_size seen))
      simp only [drawAll, List.append_nil, List.isEmpty_nil] at draws
      obtain ⟨out, each⟩ := ih (a.draw (a.size + 1) [] true e.result seen).2
      exact ⟨out, .entry draws each⟩

theorem Draws.unique {lines' : List OutlineLine} {out' : List PlanId}
    (draws : a.Draws above slots seen lines out) (draws' : a.Draws above slots seen lines' out') :
    lines = lines' ∧ out = out' := by
  induction draws generalizing lines' out' with
  | done =>
      cases draws'
      exact ⟨rfl, rfl⟩
  | again old _ ih =>
      cases draws' with
      | again _ rest =>
          obtain ⟨rfl, rfl⟩ := ih rest
          exact ⟨rfl, rfl⟩
      | first new => exact absurd old new
  | first new _ _ below behind =>
      cases draws' with
      | again old => exact absurd old new
      | first _ down rest =>
          obtain ⟨rfl, rfl⟩ := below down
          obtain ⟨rfl, rfl⟩ := behind rest
          exact ⟨rfl, rfl⟩

theorem DrawsEach.unique {o' : List (Entry × List OutlineLine)} {out' : List PlanId}
    (each : a.DrawsEach entries seen o out) (each' : a.DrawsEach entries seen o' out') :
    o = o' := by
  induction each generalizing o' with
  | done =>
      cases each'
      rfl
  | entry draws _ ih =>
      cases each' with
      | entry draws' rest =>
          obtain ⟨rfl, rfl⟩ := draws.unique draws'
          rw [ih rest]

/-! ## The order of the plans -/

/-- The plans drawn are those drawn before and those of the lines without a mark. -/
theorem Draws.out_eq (draws : a.Draws above slots seen lines out) :
    out = (OutlineLine.firsts lines).reverse ++ seen := by
  induction draws with
  | done => rfl
  | again _ _ ih => simpa using ih
  | first _ _ _ below behind => simp [behind, below]

theorem Draws.preorder (draws : a.Draws above slots seen lines out) :
    Preorder a.needed (slots.map (·.id)) seen.reverse out.reverse := by
  induction draws with
  | done => exact .done _
  | again old _ ih => exact .skip (List.mem_reverse.mpr old) ih
  | first new _ _ below behind =>
      rw [List.reverse_cons] at below
      exact .visit (fun mem => new (List.mem_reverse.mp mem)) below behind

theorem DrawsEach.out_eq (each : a.DrawsEach entries seen o out) :
    out = (OutlineLine.firsts (o.flatMap (·.2))).reverse ++ seen := by
  induction each with
  | done => rfl
  | entry draws _ ih =>
      rw [ih, draws.out_eq]
      simp

/-- The lines without a mark show what the entries need depth first. -/
theorem DrawsEach.preorder (each : a.DrawsEach entries seen o out) :
    Preorder a.needed (entries.map (·.result.id)) seen.reverse out.reverse := by
  induction each with
  | done => exact .done _
  | entry draws _ ih => exact preorder_append.mpr ⟨_, draws.preorder, ih⟩

/-! ## The marks -/

/-- The plans drawn then are those drawn before and those of the lines. -/
theorem Draws.mem_out_iff (draws : a.Draws above slots seen lines out) :
    id ∈ out ↔ id ∈ (lines.map (·.slot.id)).reverse ++ seen := by
  simp only [List.mem_append, List.mem_reverse]
  induction draws with
  | done => simp
  | @again _ slot _ _ _ _ old _ ih =>
      rw [ih, List.map_cons, List.mem_cons]
      constructor
      · exact Or.imp_left .inr
      · rintro ((rfl | mem) | mem)
        · exact .inr old
        · exact .inl mem
        · exact .inr mem
  | first _ _ _ below behind =>
      rw [behind, below]
      simp only [List.map_cons, List.map_append, List.mem_cons, List.mem_append]
      tauto

theorem Draws.marked (draws : a.Draws above slots seen lines out) :
    OutlineLine.Marked seen lines := by
  induction draws with
  | done => trivial
  | again old _ ih =>
      exact ⟨⟨fun _ => old, fun _ => rfl⟩, ih.congr fun id => by
        refine ⟨List.mem_cons_of_mem _, fun mem => ?_⟩
        rcases List.mem_cons.mp mem with rfl | mem
        · exact old
        · exact mem⟩
  | first new down _ below behind =>
      refine ⟨⟨nofun, fun old => absurd old new⟩, ?_⟩
      exact OutlineLine.marked_append.mpr ⟨below, behind.congr fun id => down.mem_out_iff⟩

/-- A line is marked just when its plan was drawn before. -/
theorem DrawsEach.marked (each : a.DrawsEach entries seen o out) :
    OutlineLine.Marked seen (o.flatMap (·.2)) := by
  induction each with
  | done => trivial
  | entry draws _ ih =>
      exact OutlineLine.marked_append.mpr ⟨draws.marked, ih.congr fun id => draws.mem_out_iff⟩

end Arena

end Injector
