/-
# Injector.Proofs.Plan.Reach -- what the walk over a forest lists

The walk goes depth first over a forest that may share plans and may even have cycles.  The slots
of the plans that are not listed yet, together with the stack, get fewer with every step
(`openSlots_expand`), so the stack is empty before the walk gives up: it is the walk without a
limit, entry after entry (`collectsEach_reach`).

It lists what recursion lists (`Lists`): the plans in the order in which they are met, and behind
the place of an entry the places below the plans that are met there for the first time.  So it
lists exactly the plans that the entries need, directly or not (`mem_order_reach_iff`), and
exactly the places that lead to them, each with what it points at (`mem_uses_reach_iff`); nothing
is listed twice.
-/
import Injector.Plan.Forest
import Injector.Proofs.Preorder

namespace Injector

set_option autoImplicit false

open Relation (ReflTransGen)

theorem map_snd_zipIdx {α : Type} (xs : List α) : xs.zipIdx.map (·.2) = List.range xs.length := by
  rw [List.range_eq_range']
  exact List.zipIdx_map_snd 0 xs

namespace Forest

/-- Plans that the entries need, directly or not. -/
inductive Reachable (f : Forest) : PlanId → Prop where
  | result {e : Entry} : e ∈ f.entries → Reachable f e.result.id
  | need {id : PlanId} {c : Slot} :
      Reachable f id → c ∈ f.arena.children id → Reachable f c.id

/-- The entries lead to the place, and it points at the plan `id`. -/
def Uses (f : Forest) : Place → PlanId → Prop
  | .entry n, id => ∃ e, f.entries[n]? = some e ∧ e.result.id = id
  | .child parent n, id =>
    f.Reachable parent ∧ ∃ c, (f.arena.children parent)[n]? = some c ∧ c.id = id

/-- Every slot points at a plan. -/
def Filled (f : Forest) : Prop := ∀ place s, f.slotAt? place = some s → s.id < f.arena.size

end Forest

namespace Arena

/-- The plans that the plan `id` needs. -/
def needed (a : Arena) (id : PlanId) : List PlanId := (a.children id).map (·.id)

/-- The places of the values that the plan `id` needs, with their slots. -/
def needs (a : Arena) (id : PlanId) : List (Place × Slot) :=
  (a.children id).zipIdx.map fun s => (.child id s.2, s.1)

/-! ## The places below one plan -/

theorem childUses_eq (a : Arena) (id : PlanId) :
    a.childUses id = (a.needs id).map fun x => (x.1, x.2.id) := by
  simp [childUses, needs]

theorem mem_needs {a : Arena} {id : PlanId} {place : Place} {slot : Slot} :
    (place, slot) ∈ a.needs id ↔ ∃ n, place = .child id n ∧ (a.children id)[n]? = some slot := by
  simp only [needs, List.mem_map, Prod.exists, List.mem_zipIdx_iff_getElem?, Prod.mk.injEq]
  constructor
  · rintro ⟨_, n, found, rfl, rfl⟩
    exact ⟨n, rfl, found⟩
  · rintro ⟨n, rfl, found⟩
    exact ⟨slot, n, found, rfl, rfl⟩

theorem needs_places (a : Arena) (id : PlanId) :
    (a.needs id).map (·.1) = (List.range (a.children id).length).map (Place.child id) := by
  rw [← map_snd_zipIdx, needs, List.map_map, List.map_map]
  rfl

theorem nodup_needs (a : Arena) (id : PlanId) : ((a.needs id).map (·.1)).Nodup := by
  rw [needs_places]
  exact List.nodup_range.map fun m n same => by simpa using same

/-- No place is below two plans. -/
theorem disjoint_needs {a : Arena} {id id' : PlanId} (ne : id ≠ id') :
    List.Disjoint ((a.needs id).map (·.1)) ((a.needs id').map (·.1)) := by
  rw [needs_places, needs_places]
  intro place mem mem'
  obtain ⟨m, -, rfl⟩ := List.mem_map.mp mem
  obtain ⟨n, -, same⟩ := List.mem_map.mp mem'
  cases same
  exact ne rfl

theorem children_of_size_le {a : Arena} {id : PlanId} (h : a.size ≤ id) : a.children id = [] := by
  simp only [size] at h
  simp [children, plan?, h]

/-! ## The walk without a limit -/

/-- Depth first over the plans on the stack: what is listed before, and what is in the end. -/
inductive Collects (a : Arena) : List PlanId → Reach → Reach → Prop where
  | done (r : Reach) : Collects a [] r r
  | skip {id : PlanId} {stack : List PlanId} {r out : Reach} :
      id ∈ r.order → Collects a stack r out → Collects a (id :: stack) r out
  | expand {id : PlanId} {stack : List PlanId} {r out : Reach} :
      id ∉ r.order →
      Collects a (a.needed id ++ stack)
        { order := r.order ++ [id], uses := r.uses ++ a.childUses id } out →
      Collects a (id :: stack) r out

/-- Entries one after the other, the first of them with the number `n`. -/
inductive CollectsEach (a : Arena) : Nat → List Entry → Reach → Reach → Prop where
  | done (n : Nat) (r : Reach) : CollectsEach a n [] r r
  | entry {n : Nat} {e : Entry} {rest : List Entry} {r mid out : Reach} :
      Collects a [e.result.id] { r with uses := r.uses ++ [(.entry n, e.result.id)] } mid →
      CollectsEach a (n + 1) rest mid out → CollectsEach a n (e :: rest) r out

/-- What recursion lists of entries, the first of them with the number `n`: the plans met before,
the places with what they point at, and the plans met then. -/
inductive Lists (a : Arena) : Nat → List Entry → List PlanId → List (Place × PlanId) →
    List PlanId → Prop where
  | done (n : Nat) (seen : List PlanId) : Lists a n [] seen [] seen
  | entry {n : Nat} {e : Entry} {rest : List Entry} {seen met out : List PlanId}
      {uses : List (Place × PlanId)} :
      Preorder a.needed [e.result.id] seen (seen ++ met) →
      Lists a (n + 1) rest (seen ++ met) uses out →
      Lists a n (e :: rest) seen
        ((.entry n, e.result.id) :: (met.flatMap a.childUses ++ uses)) out

variable {a : Arena} {id : PlanId} {stack seen : List PlanId} {r out : Reach} {n : Nat}
  {entries : List Entry} {uses : List (Place × PlanId)}

/-! ## The walk ends -/

/-- How many slots the plans have that are not in `order`. -/
def openSlots (a : Arena) (order : List PlanId) : Nat :=
  ((List.range a.size).map fun id => if id ∈ order then 0 else (a.children id).length).sum

/-- Listing a plan takes its slots away. -/
theorem openSlots_expand (a : Arena) {order : List PlanId} (new : id ∉ order) :
    a.openSlots (order ++ [id]) + (a.children id).length ≤ a.openSlots order := by
  have fewer := sum_open_append (fun x => (a.children x).length) (List.range a.size) order new
  by_cases known : id < a.size
  · simpa [openSlots, known] using fewer
  · have none := children_of_size_le (Nat.le_of_not_lt known)
    simpa [openSlots, known, none] using fewer

theorem openSlots_le_slotCount (a : Arena) (order : List PlanId) :
    a.openSlots order ≤ a.slotCount := by
  have lengths : (List.range a.size).map (fun id => (a.children id).length) =
      a.plans.map fun p => p.children.length := by
    apply List.ext_getElem
    · simp [plans, size]
    · intro n h _
      simp only [List.length_map, List.length_range, size] at h
      simp [plans, children, plan?, h]
  have total : a.slotCount = ((List.range a.size).map fun id => (a.children id).length).sum := by
    rw [lengths, List.sum_eq_foldl, List.foldl_map]
    rfl
  rw [total]
  apply List.sum_le_sum
  intro id _
  split <;> omega

/-- With enough steps the walk is the one without a limit. -/
theorem collects_reachFrom {fuel : Nat} (enough : a.openSlots r.order + stack.length ≤ fuel) :
    a.Collects stack r (a.reachFrom fuel stack r) := by
  fun_induction Arena.reachFrom a fuel stack r with
  | case1 stack r =>
      obtain rfl : stack = [] := List.eq_nil_of_length_eq_zero (by omega)
      exact .done r
  | case2 fuel r => exact .done r
  | case3 fuel id stack r listed ih =>
      rw [List.length_cons] at enough
      exact .skip (by simpa using listed) (ih (by omega))
  | case4 fuel id stack r unlisted ih =>
      have new : id ∉ r.order := by simpa using unlisted
      have fewer := a.openSlots_expand new
      rw [List.length_cons] at enough
      refine .expand new (ih ?_)
      simp only [List.length_append, List.length_map]
      omega

theorem collectsEach_foldl (a : Arena) (entries : List Entry) (n : Nat) (r : Reach) :
    a.CollectsEach n entries r
      ((entries.zipIdx n).foldl (fun r e => Forest.reachEntry a r e.2 e.1) r) := by
  induction entries generalizing n r with
  | nil => exact .done n r
  | cons e rest ih =>
      rw [List.zipIdx_cons, List.foldl_cons]
      refine .entry (collects_reachFrom ?_) (ih (n + 1) _)
      have most := a.openSlots_le_slotCount r.order
      simpa using most

theorem Collects.unique {r' : Reach} (collects : a.Collects stack r out)
    (collects' : a.Collects stack r r') : out = r' := by
  induction collects with
  | done =>
      cases collects'
      rfl
  | skip listed _ ih =>
      cases collects' with
      | skip _ rest => exact ih rest
      | expand new => exact absurd listed new
  | expand new _ ih =>
      cases collects' with
      | skip listed => exact absurd listed new
      | expand _ rest => exact ih rest

theorem CollectsEach.unique {r' : Reach} (each : a.CollectsEach n entries r out)
    (each' : a.CollectsEach n entries r r') : out = r' := by
  induction each with
  | done =>
      cases each'
      rfl
  | entry first _ ih =>
      cases each' with
      | entry first' rest =>
          obtain rfl := first.unique first'
          exact ih rest

/-! ## The walk lists what recursion lists -/

/-- The plans are met in the order of recursion, and each brings the places below it. -/
theorem Collects.exists_met (collects : a.Collects stack r out) :
    ∃ met, out.order = r.order ++ met ∧ out.uses = r.uses ++ met.flatMap a.childUses ∧
      StackWalk a.needed stack r.order (r.order ++ met) := by
  induction collects with
  | done r => exact ⟨[], by simp, by simp, by simpa using .done r.order⟩
  | skip listed _ ih =>
      obtain ⟨met, order, uses, walk⟩ := ih
      exact ⟨met, order, uses, .skip listed walk⟩
  | @expand id _ r _ new _ ih =>
      obtain ⟨met, order, uses, walk⟩ := ih
      refine ⟨id :: met, by simpa using order, by simpa using uses, .visit new ?_⟩
      simpa using walk

theorem CollectsEach.lists (each : a.CollectsEach n entries r out) :
    ∃ uses, out.uses = r.uses ++ uses ∧ a.Lists n entries r.order uses out.order := by
  induction each with
  | done n r => exact ⟨[], by simp, .done n r.order⟩
  | entry first _ ih =>
      obtain ⟨met, order, below, walk⟩ := first.exists_met
      obtain ⟨uses, behind, rest⟩ := ih
      rw [order] at rest
      exact ⟨_, by simp [behind, below], .entry (stackWalk_iff.mp walk) rest⟩

theorem Lists.unique {uses' : List (Place × PlanId)} {out out' : List PlanId}
    (lists : a.Lists n entries seen uses out) (lists' : a.Lists n entries seen uses' out') :
    uses = uses' ∧ out = out' := by
  induction lists generalizing uses' with
  | done =>
      cases lists'
      exact ⟨rfl, rfl⟩
  | entry walk _ ih =>
      cases lists' with
      | entry walk' rest =>
          obtain rfl := List.append_cancel_left (walk.unique walk')
          obtain ⟨rfl, rfl⟩ := ih rest
          exact ⟨rfl, rfl⟩

theorem Lists.preorder {out : List PlanId} (lists : a.Lists n entries seen uses out) :
    Preorder a.needed (entries.map (·.result.id)) seen out := by
  induction lists with
  | done => exact .done _
  | entry walk _ ih => exact preorder_append.mpr ⟨_, walk, ih⟩

/-- The places are those of the entries and those below the plans met. -/
theorem Lists.exists_perm {out : List PlanId} (lists : a.Lists n entries seen uses out) :
    ∃ met, out = seen ++ met ∧
      uses.Perm ((entries.zipIdx n).map (fun x => (Place.entry x.2, x.1.result.id)) ++
        met.flatMap a.childUses) := by
  induction lists with
  | done => exact ⟨[], by simp, .refl _⟩
  | @entry _ _ _ _ met _ _ _ _ ih =>
      obtain ⟨more, rfl, perm⟩ := ih
      refine ⟨met ++ more, List.append_assoc _ _ _, ?_⟩
      rw [List.zipIdx_cons, List.map_cons, List.cons_append, List.flatMap_append]
      exact .cons _ ((perm.append_left _).trans (List.perm_append_comm_assoc _ _ _))

end Arena

namespace Forest

open Arena

variable {f : Forest} {id : PlanId} {place : Place}

theorem reachable_iff :
    f.Reachable id ↔ ∃ start ∈ f.entries.map (·.result.id),
      ReflTransGen (fun x y => y ∈ f.arena.needed x) start id := by
  constructor
  · intro reachable
    induction reachable with
    | result mem => exact ⟨_, List.mem_map_of_mem mem, .refl⟩
    | need _ child ih =>
        obtain ⟨start, among, way⟩ := ih
        exact ⟨start, among, way.tail (List.mem_map_of_mem child)⟩
  · rintro ⟨start, among, way⟩
    induction way with
    | refl =>
        obtain ⟨e, mem, rfl⟩ := List.mem_map.mp among
        exact .result mem
    | tail _ step ih =>
        obtain ⟨c, child, rfl⟩ := List.mem_map.mp step
        exact .need ih child

theorem Uses.slotAt? {place : Place} {id : PlanId} (uses : f.Uses place id) :
    ∃ s, f.slotAt? place = some s ∧ s.id = id := by
  cases place with
  | entry n =>
      obtain ⟨e, found, same⟩ := uses
      exact ⟨e.result, by simp [Forest.slotAt?, found], same⟩
  | child parent n =>
      obtain ⟨-, c, found, same⟩ := uses
      exact ⟨c, found, same⟩

theorem Uses.reachable {place : Place} {id : PlanId} (uses : f.Uses place id) :
    f.Reachable id := by
  cases place with
  | entry n =>
      obtain ⟨e, found, rfl⟩ := uses
      exact .result (List.mem_of_getElem? found)
  | child parent n =>
      obtain ⟨reachable, c, found, rfl⟩ := uses
      exact .need reachable (List.mem_of_getElem? found)

/-- The places of the results of the entries, and those below the given plans, with their slots. -/
def placesOf (f : Forest) (ids : List PlanId) : List (Place × Slot) :=
  f.entries.zipIdx.map (fun x => (.entry x.2, x.1.result)) ++ ids.flatMap f.arena.needs

/-- They are different, whatever is shared. -/
theorem nodup_placesOf (f : Forest) {ids : List PlanId} (distinct : ids.Nodup) :
    ((f.placesOf ids).map (·.1)).Nodup := by
  have results : (f.entries.zipIdx.map (fun x => (Place.entry x.2, x.1.result))).map (·.1) =
      (List.range f.entries.length).map Place.entry := by
    rw [← map_snd_zipIdx, List.map_map, List.map_map]
    rfl
  rw [placesOf, List.map_append, results, List.map_flatMap, List.nodup_append]
  refine ⟨List.nodup_range.map fun m n same => by simpa using same, ?_, ?_⟩
  · exact List.nodup_flatMap.mpr
      ⟨fun id _ => f.arena.nodup_needs id, distinct.imp disjoint_needs⟩
  · rintro _ mem _ mem' rfl
    obtain ⟨n, -, rfl⟩ := List.mem_map.mp mem
    obtain ⟨id, -, below⟩ := List.mem_flatMap.mp mem'
    rw [needs_places] at below
    obtain ⟨m, -, same⟩ := List.mem_map.mp below
    cases same

/-- With the plans that the entries need, they are the places that the entries lead to. -/
theorem mem_placesOf {ids : List PlanId} {slot : Slot} (reached : ∀ id, id ∈ ids ↔ f.Reachable id) :
    (place, slot) ∈ f.placesOf ids ↔ f.Uses place slot.id ∧ f.slotAt? place = some slot := by
  rw [placesOf, List.mem_append, List.mem_flatMap]
  simp only [reached, mem_needs, List.mem_map, Prod.exists, List.mem_zipIdx_iff_getElem?,
    Prod.mk.injEq]
  cases place with
  | entry n =>
      constructor
      · rintro (⟨e, _, found, ⟨⟩, rfl⟩ | ⟨_, -, _, ⟨⟩, -⟩)
        exact ⟨⟨e, found, rfl⟩, by rw [slotAt?, found, Option.map_some]⟩
      · rintro ⟨-, here⟩
        obtain ⟨e, found, rfl⟩ := Option.map_eq_some_iff.mp here
        exact .inl ⟨e, n, found, rfl, rfl⟩
  | child parent n =>
      constructor
      · rintro (⟨_, _, -, ⟨⟩, -⟩ | ⟨_, reachable, _, ⟨⟩, found⟩)
        exact ⟨⟨reachable, slot, found, rfl⟩, found⟩
      · rintro ⟨⟨reachable, -⟩, found⟩
        exact .inr ⟨parent, reachable, n, rfl, found⟩

/-! ## The walk over all entries -/

/-- The walk over the entries is the one without a limit. -/
theorem collectsEach_reach (f : Forest) : f.arena.CollectsEach 0 f.entries {} f.reach :=
  collectsEach_foldl f.arena f.entries 0 {}

/-- It lists what recursion lists. -/
theorem lists_reach (f : Forest) :
    f.arena.Lists 0 f.entries [] f.reach.uses f.reach.order := by
  obtain ⟨uses, all, lists⟩ := f.collectsEach_reach.lists
  obtain rfl : uses = f.reach.uses := all.symm
  exact lists

theorem order_nodup (f : Forest) : f.reach.order.Nodup :=
  f.lists_reach.preorder.nodup List.nodup_nil

/-- The plans listed are those that the entries need. -/
theorem mem_order_reach_iff : id ∈ f.reach.order ↔ f.Reachable id :=
  f.lists_reach.preorder.mem_iff.trans reachable_iff.symm

theorem uses_reach_perm (f : Forest) :
    f.reach.uses.Perm ((f.placesOf f.reach.order).map fun x => (x.1, x.2.id)) := by
  obtain ⟨met, all, perm⟩ := f.lists_reach.exists_perm
  rw [List.nil_append] at all
  rw [placesOf, all, List.map_append, List.map_map, List.map_flatMap]
  rwa [funext f.arena.childUses_eq] at perm

/-- No place is listed twice. -/
theorem uses_nodup (f : Forest) : (f.reach.uses.map (·.1)).Nodup := by
  refine (f.uses_reach_perm.map (·.1)).nodup_iff.mpr ?_
  rw [List.map_map]
  exact f.nodup_placesOf f.order_nodup

/-- The places listed are those that the entries lead to, with what they point at. -/
theorem mem_uses_reach_iff : (place, id) ∈ f.reach.uses ↔ f.Uses place id := by
  rw [f.uses_reach_perm.mem_iff, List.mem_map]
  constructor
  · rintro ⟨⟨_, slot⟩, mem, ⟨⟩⟩
    exact ((mem_placesOf fun _ => mem_order_reach_iff).mp mem).1
  · intro uses
    obtain ⟨slot, found, rfl⟩ := uses.slotAt?
    exact ⟨(place, slot), (mem_placesOf fun _ => mem_order_reach_iff).mpr ⟨uses, found⟩, rfl⟩

/-- Where every slot points at a plan, nothing is needed that is not there. -/
theorem Reachable.lt_size (filled : f.Filled) (reachable : f.Reachable id) : id < f.arena.size := by
  cases reachable with
  | @result e mem =>
      obtain ⟨n, here⟩ := List.mem_iff_getElem?.mp mem
      exact filled (.entry n) e.result (by simp [slotAt?, here])
  | @need parent c _ child =>
      obtain ⟨n, here⟩ := List.mem_iff_getElem?.mp child
      exact filled (.child parent n) c here

/-- Every slot points at a plan if those of the entries and of all plans do. -/
theorem filled_of_plans (results : ∀ e ∈ f.entries, e.result.id < f.arena.size)
    (children : ∀ p ∈ f.arena.plans, ∀ c ∈ p.children, c.id < f.arena.size) : f.Filled := by
  intro place s found
  cases place with
  | entry n =>
      obtain ⟨e, here, rfl⟩ := Option.map_eq_some_iff.mp found
      exact results e (List.mem_of_getElem? here)
  | child parent n =>
      have among : s ∈ f.arena.children parent := List.mem_of_getElem? found
      rw [Arena.children, Arena.plan?] at among
      cases there : f.arena.nodes[parent]? with
      | none => simp [there] at among
      | some node =>
          have mem : node.plan ∈ f.arena.plans :=
            List.mem_map_of_mem (Array.mem_toList_iff.mpr (Array.mem_of_getElem? there))
          exact children node.plan mem s (by simpa [there] using among)

/-- What the two lists of a walk over the forest hold. -/
structure Listed (f : Forest) (r : Reach) : Prop where
  /-- The plans stand in the order of recursion over the results of the entries. -/
  preorder : Preorder f.arena.needed (f.entries.map (·.result.id)) [] r.order
  /-- No plan is listed twice. -/
  plansOnce : r.order.Nodup
  /-- The plans listed are those that the entries need. -/
  plans : ∀ id, id ∈ r.order ↔ f.Reachable id
  /-- All of them are there. -/
  there : ∀ id ∈ r.order, id < f.arena.size
  /-- No place is listed twice. -/
  placesOnce : (r.uses.map (·.1)).Nodup
  /-- The places listed are those that the entries lead to. -/
  places : ∀ place id, (place, id) ∈ r.uses ↔ f.Uses place id
  /-- Each stands with what its slot points at. -/
  targets : ∀ place id, (place, id) ∈ r.uses → ∃ s, f.slotAt? place = some s ∧ s.id = id

/-- Going over a forest whose slots point at plans ends, in one way only, and never asks for a plan
that is not there.  It lists what recursion lists: the plans that the entries need in the order
in which they are met, and each place that leads to one of them, with what it points at. -/
theorem reach_listed (f : Forest) (filled : f.Filled) :
    (∀ r, f.arena.CollectsEach 0 f.entries {} r ↔ r = f.reach) ∧
      (∀ uses order, f.arena.Lists 0 f.entries [] uses order ↔
        uses = f.reach.uses ∧ order = f.reach.order) ∧
      f.Listed f.reach := by
  refine ⟨fun r => ⟨fun each => each.unique f.collectsEach_reach, ?_⟩,
    fun uses order => ⟨fun lists => lists.unique f.lists_reach, ?_⟩, ?_⟩
  · rintro rfl
    exact f.collectsEach_reach
  · rintro ⟨rfl, rfl⟩
    exact f.lists_reach
  · exact {
      preorder := f.lists_reach.preorder
      plansOnce := f.order_nodup
      plans := fun _ => mem_order_reach_iff
      there := fun _ mem => (mem_order_reach_iff.mp mem).lt_size filled
      placesOnce := f.uses_nodup
      places := fun _ _ => mem_uses_reach_iff
      targets := fun _ _ mem => (mem_uses_reach_iff.mp mem).slotAt? }

/-- A `Foo` needs a `Bar` and a `Baz`, the `Bar` needs the `Baz` too, and the `Baz` the `Foo` again.
Nothing needs the `Qux`. -/
def detour : Forest :=
  let slot (name : String) (id : PlanId) : Slot := { key := .of { name }, id }
  let plan (name : String) (needs : List (String × Slot)) : ArenaNode :=
    ⟨.construct { name } ⟨needs⟩ false, []⟩
  let entry (name : String) (result : Slot) : Entry :=
    { name, returnType := result.key.ty, isProperty := true, isPrivate := false, isOverride := true
      isSuspend := false, result }
  { arena := ⟨#[plan "Foo" [("bar", slot "Bar" 1), ("baz", slot "Baz" 2)],
      plan "Bar" [("baz", slot "Baz" 2)], plan "Baz" [("foo", slot "Foo" 0)],
      plan "Qux" [("foo", slot "Foo" 0)]]⟩
    entries := [entry "foo" (slot "Foo" 0), entry "baz" (slot "Baz" 2)] }

/-- The `Baz` is met on the way over the `Bar`, and skipped where it waits on the stack. -/
theorem detour_listed :
    detour.Filled ∧ detour.Listed detour.reach ∧ detour.reach.order = [0, 1, 2] ∧
      detour.reach.uses = [(.entry 0, 0), (.child 0 0, 1), (.child 0 1, 2), (.child 1 0, 2),
        (.child 2 0, 0), (.entry 1, 2)] := by
  have filled : detour.Filled := filled_of_plans (by decide) (by decide)
  exact ⟨filled, (detour.reach_listed filled).2.2, by decide, by decide⟩

end Forest

end Injector
