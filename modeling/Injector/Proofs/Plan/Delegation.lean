/-
# Injector.Proofs.Plan.Delegation -- slots that call a member instead

While shared plans are moved, a forest changes in two ways only: a call is added to
the arena, or a slot is turned to a call.  `Delegated className f moves g` says what such
changes leave: `g` is `f` with the places in `moves` turned to the calls beside
them.  Every step keeps its shape and its free names, each place that was not
turned still points where it did, and a call that an entry points at is pointed at
by nothing else.

`Delegated.alloc` and `Delegated.turn` are the two steps, and
`Delegated.redirectAll` is a run of them.
-/
import Injector.Plan.Hoist
import Injector.Proofs.Plan.Reach
import Injector.Proofs.Plan.Trees

namespace Injector

set_option autoImplicit false

namespace Arena

variable {a : Arena} {id other : PlanId} {p : Plan}

theorem plan?_modify (a : Arena) (id other : PlanId) (f : Plan → Plan) :
    (a.modify id f).plan? other = if id = other then (a.plan? other).map f else a.plan? other := by
  simp only [modify, plan?, Array.getElem?_modify]
  split <;> simp [Function.comp_def]

theorem freeNames_modify (a : Arena) (id other : PlanId) (f : Plan → Plan) :
    (a.modify id f).freeNames other = a.freeNames other := by
  simp only [modify, freeNames, Array.getElem?_modify]
  split <;> simp [Function.comp_def]

@[simp] theorem size_modify (a : Arena) (id : PlanId) (f : Plan → Plan) :
    (a.modify id f).size = a.size := by
  simp [modify, size]

theorem children_modify (a : Arena) (id other : PlanId) (f : Slot → Slot) (n : Nat) :
    (a.modify id (Plan.modifyChild f n)).children other =
      if id = other then (a.children other).modify n f else a.children other := by
  simp only [children, plan?_modify]
  split
  · cases a.plan? other <;> simp [Plan.children_modifyChild]
  · rfl

/-- A plan that needs nothing changes no list of values needed. -/
theorem children_alloc (a : Arena) (leaf : p.children = []) (id : PlanId) :
    (a.alloc p).2.children id = a.children id := by
  rcases Nat.lt_trichotomy id a.size with old | rfl | beyond
  · rw [children, children, plan?_alloc_of_lt p old]
  · have new : (a.alloc p).2.plan? a.size = some p := plan?_alloc_self a p
    have none := children_of_size_le (Nat.le_refl a.size)
    rw [children_of_plan? new, leaf, none]
  · have none := children_of_size_le (Nat.le_of_lt beyond)
    have none' : (a.alloc p).2.children id = [] := children_of_size_le (by rw [size_alloc]; omega)
    rw [none, none']

end Arena

/-- The entry less the number of the plan that builds it. -/
def Entry.bare (e : Entry) : Entry := { e with result.id := 0 }

namespace Forest

/-- The forest with one more plan, which nothing points at yet. -/
def addPlan (f : Forest) (p : Plan) : Forest := { f with arena := (f.arena.alloc p).2 }

/-- Only the place that is redirected changes. -/
theorem slotAt?_redirect (f : Forest) (place other : Place) (target : PlanId) :
    (f.redirect place target).slotAt? other =
      if place = other then (f.slotAt? other).map fun s => { s with id := target }
      else f.slotAt? other := by
  cases place with
  | entry n =>
      cases other with
      | entry m =>
          simp only [redirect, slotAt?, List.getElem?_modify, Place.entry.injEq]
          split <;> simp [Function.comp_def]
      | child parent m => simp [redirect, slotAt?]
  | child parent n =>
      cases other with
      | entry m => simp [redirect, slotAt?]
      | child parent' m =>
          simp only [redirect, slotAt?, Arena.children_modify, Place.child.injEq]
          by_cases same : parent = parent'
          · subst same
            simp only [if_true, List.getElem?_modify, true_and]
            split <;> simp
          · simp [same]

theorem slotAt?_addPlan (f : Forest) {p : Plan} (leaf : p.children = []) (place : Place) :
    (f.addPlan p).slotAt? place = f.slotAt? place := by
  cases place with
  | entry n => rfl
  | child parent n => simp only [slotAt?, addPlan, Arena.children_alloc f.arena leaf]

/-- A redirected slot leaves the shape of every step. -/
theorem shape_redirect (f : Forest) (place : Place) (target id : PlanId) :
    ((f.redirect place target).arena.plan? id).map Plan.shape =
      (f.arena.plan? id).map Plan.shape := by
  cases place with
  | entry n => rfl
  | child parent n =>
      simp only [redirect, Arena.plan?_modify]
      split
      · rw [Option.map_map]
        congr 1
        have keeps : ∀ s : Slot, ({ s with id := target } : Slot).key = s.key := fun _ => rfl
        exact funext fun p => Plan.shape_modifyChild keeps n p
      · rfl

theorem freeNames_redirect (f : Forest) (place : Place) (target id : PlanId) :
    (f.redirect place target).arena.freeNames id = f.arena.freeNames id := by
  cases place with
  | entry n => rfl
  | child parent n => exact Arena.freeNames_modify ..

@[simp] theorem size_redirect (f : Forest) (place : Place) (target : PlanId) :
    (f.redirect place target).arena.size = f.arena.size := by
  cases place <;> simp [redirect]

/-- A redirected entry stays the same member. -/
theorem bare_redirect (f : Forest) (place : Place) (target : PlanId) :
    (f.redirect place target).entries.map Entry.bare = f.entries.map Entry.bare := by
  cases place with
  | entry n =>
      simp only [redirect]
      generalize f.entries = entries
      induction entries generalizing n with
      | nil => simp
      | cons e rest ih => cases n <;> simp_all [Entry.bare]
  | child parent n => rfl

/-- A plan that needs nothing is not changed by redirecting slots. -/
theorem plan?_redirect_of_leaf {f : Forest} {id : PlanId} {p : Plan} (leaf : p.children = [])
    (found : f.arena.plan? id = some p) (place : Place) (target : PlanId)
    (there : (f.slotAt? place).isSome) :
    (f.redirect place target).arena.plan? id = some p := by
  cases place with
  | entry n => exact found
  | child parent n =>
      have other : parent ≠ id := by
        rintro rfl
        simp [slotAt?, Arena.children_of_plan? found, leaf] at there
      simp only [redirect, Arena.plan?_modify, if_neg other]
      exact found

end Forest

/-- The plan calls a member of the component `className` itself. -/
def Plan.CallsOwn (className : String) (p : Plan) : Prop :=
  ∃ memberName isProperty, p = Hoisting.call className memberName isProperty

theorem Plan.CallsOwn.children {className : String} {p : Plan} (calls : p.CallsOwn className) :
    p.children = [] := by
  obtain ⟨_, _, rfl⟩ := calls
  rfl

/-- `g` is `f` with calls added, and with the places in `moves` turned to the calls
beside them. -/
structure Delegated (className : String) (f : Forest) (moves : List (Place × Plan))
    (g : Forest) : Prop where
  size_le : f.arena.size ≤ g.arena.size
  shape : ∀ {id}, id < f.arena.size →
    (g.arena.plan? id).map Plan.shape = (f.arena.plan? id).map Plan.shape
  freeNames : ∀ {id}, id < f.arena.size → g.arena.freeNames id = f.arena.freeNames id
  bare : g.entries.map Entry.bare = f.entries.map Entry.bare
  added : ∀ {id p}, f.arena.size ≤ id → g.arena.plan? id = some p → p.CallsOwn className
  kept : ∀ {place}, place ∉ moves.map (·.1) → g.slotAt? place = f.slotAt? place
  moved : ∀ {place call s}, (place, call) ∈ moves → f.slotAt? place = some s →
    ∃ id, g.slotAt? place = some { s with id } ∧ f.arena.size ≤ id ∧ g.arena.plan? id = some call
  alone : ∀ {n s}, g.slotAt? (.entry n) = some s → f.arena.size ≤ s.id →
    ∀ place s', g.slotAt? place = some s' → s'.id = s.id → place = .entry n

namespace Delegated

variable {className : String} {f g : Forest} {moves : List (Place × Plan)} {call : Plan}
  {place : Place} {id : PlanId}

theorem refl (filled : f.Filled) : Delegated className f [] f where
  size_le := Nat.le_refl _
  shape _ := rfl
  freeNames _ := rfl
  bare := rfl
  added high found := absurd (Arena.lt_size_of_plan? found) (Nat.not_lt_of_le high)
  kept _ := rfl
  moved mem := absurd mem List.not_mem_nil
  alone found high := absurd (filled _ _ found) (Nat.not_lt_of_le high)

theorem slotAt?_isSome (delegated : Delegated className f moves g) (there : (f.slotAt? place).isSome) :
    (g.slotAt? place).isSome := by
  obtain ⟨s, found⟩ := Option.isSome_iff_exists.mp there
  by_cases mem : place ∈ moves.map (·.1)
  · obtain ⟨⟨_, call⟩, listed, rfl⟩ := List.mem_map.mp mem
    obtain ⟨id, here, -⟩ := delegated.moved listed found
    simp [here]
  · rw [delegated.kept mem]
    exact there

theorem filled (delegated : Delegated className f moves g) (filled : f.Filled)
    (there : ∀ place ∈ moves.map (·.1), (f.slotAt? place).isSome) : g.Filled := by
  intro place s found
  by_cases mem : place ∈ moves.map (·.1)
  · obtain ⟨s', found'⟩ := Option.isSome_iff_exists.mp (there place mem)
    obtain ⟨⟨_, call⟩, listed, rfl⟩ := List.mem_map.mp mem
    obtain ⟨id, here, -, built⟩ := delegated.moved listed found'
    obtain rfl := Option.some.inj (here.symm.trans found)
    exact Arena.lt_size_of_plan? built
  · rw [delegated.kept mem] at found
    exact Nat.lt_of_lt_of_le (filled place s found) delegated.size_le

/-- One more call in the arena. -/
theorem alloc (delegated : Delegated className f moves g) (calls : call.CallsOwn className) :
    Delegated className f moves (g.addPlan call) where
  size_le := by
    have := delegated.size_le
    rw [Forest.addPlan, Arena.size_alloc]
    omega
  shape low := by
    rw [Forest.addPlan, Arena.plan?_alloc_of_lt call (Nat.lt_of_lt_of_le low delegated.size_le)]
    exact delegated.shape low
  freeNames low := by
    have old := Nat.lt_of_lt_of_le low delegated.size_le
    rw [Forest.addPlan, (Arena.Within.alloc g.arena call).freeNames_eq old]
    exact delegated.freeNames low
  bare := delegated.bare
  added high found := by
    rcases Arena.plan?_alloc_cases found with old | ⟨-, rfl⟩
    · exact delegated.added high old
    · exact calls
  kept {place} unmoved := (g.slotAt?_addPlan calls.children place).trans (delegated.kept unmoved)
  moved mem found := by
    obtain ⟨id, here, high, built⟩ := delegated.moved mem found
    refine ⟨id, (g.slotAt?_addPlan calls.children _).trans here, high, ?_⟩
    exact (Arena.Within.alloc g.arena call).plan?_of_some built
  alone found high place s' found' same := by
    rw [g.slotAt?_addPlan calls.children] at found found'
    exact delegated.alone found high place s' found' same

/-- One more place turned to a call.  What else points at the call is inside another
plan, as the place itself then is. -/
theorem turn (delegated : Delegated className f moves g) (there : (f.slotAt? place).isSome)
    (unmoved : place ∉ moves.map (·.1)) (high : f.arena.size ≤ id)
    (built : g.arena.plan? id = some call)
    (inside : ∀ other s, g.slotAt? other = some s → s.id = id →
      other.entry? = none ∧ place.entry? = none) :
    Delegated className f (moves ++ [(place, call)]) (g.redirect place id) where
  size_le := by
    rw [Forest.size_redirect]
    exact delegated.size_le
  shape low := (g.shape_redirect place id _).trans (delegated.shape low)
  freeNames low := (g.freeNames_redirect place id _).trans (delegated.freeNames low)
  bare := (g.bare_redirect place id).trans delegated.bare
  added {id' p} high' found := by
    have lt := Arena.lt_size_of_plan? found
    rw [Forest.size_redirect] at lt
    obtain ⟨q, old⟩ := Arena.exists_plan? lt
    have calls := delegated.added high' old
    have same := Forest.plan?_redirect_of_leaf calls.children old place id
      (delegated.slotAt?_isSome there)
    obtain rfl := Option.some.inj (same.symm.trans found)
    exact calls
  kept {other} unmoved' := by
    simp only [List.map_append, List.map_cons, List.map_nil, List.mem_append, List.mem_singleton,
      not_or] at unmoved'
    rw [g.slotAt?_redirect, if_neg (Ne.symm unmoved'.2)]
    exact delegated.kept unmoved'.1
  moved {other call' s} mem found := by
    rcases List.mem_append.mp mem with mem | mem
    · have different : place ≠ other := by
        rintro rfl
        exact unmoved (List.mem_map_of_mem mem)
      obtain ⟨id', here, high', built'⟩ := delegated.moved mem found
      refine ⟨id', ?_, high', ?_⟩
      · rw [g.slotAt?_redirect, if_neg different]
        exact here
      · exact Forest.plan?_redirect_of_leaf (delegated.added high' built').children built' place id
          (delegated.slotAt?_isSome there)
    · simp only [List.mem_singleton, Prod.mk.injEq] at mem
      obtain ⟨rfl, rfl⟩ := mem
      refine ⟨id, ?_, high, ?_⟩
      · rw [g.slotAt?_redirect, if_pos rfl, delegated.kept unmoved, found]
        rfl
      · exact Forest.plan?_redirect_of_leaf (delegated.added high built).children built other id
          (delegated.slotAt?_isSome there)
  alone {n s} found high' other s' found' same := by
    rw [g.slotAt?_redirect] at found found'
    by_cases here : place = .entry n
    · rw [if_pos here] at found
      obtain ⟨t, -, rfl⟩ := Option.map_eq_some_iff.mp found
      by_cases here' : place = other
      · rw [← here', here]
      · rw [if_neg here'] at found'
        have none := (inside other s' found' same).2
        rw [here] at none
        cases none
    · rw [if_neg here] at found
      by_cases here' : place = other
      · rw [if_pos here'] at found'
        obtain ⟨t, -, rfl⟩ := Option.map_eq_some_iff.mp found'
        have none := (inside (.entry n) s found same.symm).1
        cases none
      · rw [if_neg here'] at found'
        exact delegated.alone found high' other s' found' same

end Delegated

namespace Hoisting

/-- The places that are turned to the call: all but that of the owner. -/
def turned (owner : Option Nat) (places : List Place) : List Place :=
  places.filter fun place => decide (place.entry? = none ∨ place.entry? ≠ owner)

theorem turned_entry {owner : Option Nat} {n : Nat} {places : List Place} :
    turned owner (.entry n :: places) =
      if owner = some n then turned owner places else .entry n :: turned owner places := by
  by_cases owns : owner = some n <;> simp [turned, Place.entry?, owns, eq_comm]

theorem turned_child {owner : Option Nat} {parent : PlanId} {n : Nat} {places : List Place} :
    turned owner (.child parent n :: places) = .child parent n :: turned owner places := by
  simp [turned, Place.entry?]

theorem redirectAll_entry (call : Plan) (owner : Option Nat) (n : Nat) (rest : List Place)
    (inner : Option PlanId) (f : Forest) :
    redirectAll call owner (.entry n :: rest) inner f =
      if owner = some n then redirectAll call owner rest inner f
      else redirectAll call owner rest inner
        ((f.addPlan call).redirect (.entry n) f.arena.size) := rfl

theorem redirectAll_first (call : Plan) (owner : Option Nat) (parent : PlanId) (n : Nat)
    (rest : List Place) (f : Forest) :
    redirectAll call owner (.child parent n :: rest) none f =
      redirectAll call owner rest (some f.arena.size)
        ((f.addPlan call).redirect (.child parent n) f.arena.size) := rfl

theorem redirectAll_inner (call : Plan) (owner : Option Nat) (parent : PlanId) (n : Nat)
    (rest : List Place) (id : PlanId) (f : Forest) :
    redirectAll call owner (.child parent n :: rest) (some id) f =
      redirectAll call owner rest (some id) (f.redirect (.child parent n) id) := rfl

theorem turned_subset (owner : Option Nat) (places : List Place) : turned owner places ⊆ places :=
  List.filter_subset_self places

end Hoisting

namespace Delegated

variable {className : String} {f g : Forest} {moves : List (Place × Plan)} {call : Plan}
  {owner : Option Nat} {places : List Place} {inner : Option PlanId}

/-- One more place turned to a call of its own. -/
theorem turnNew {place : Place} (delegated : Delegated className f moves g) (filled : g.Filled)
    (calls : call.CallsOwn className) (there : (f.slotAt? place).isSome)
    (unmoved : place ∉ moves.map (·.1)) :
    Delegated className f (moves ++ [(place, call)])
      ((g.addPlan call).redirect place g.arena.size) := by
  refine (delegated.alloc calls).turn there unmoved delegated.size_le
    (Arena.plan?_alloc_self g.arena call) ?_
  -- Nothing points at the new call yet.
  intro other s found same
  rw [g.slotAt?_addPlan calls.children] at found
  exact absurd same (Nat.ne_of_lt (filled other s found))

/-- Turning the places one after the other.  Once a place inside a plan has been
turned, `inner` is its call, and no entry points at that one. -/
theorem redirectAll (delegated : Delegated className f moves g) (filled : f.Filled)
    (calls : call.CallsOwn className)
    (there : ∀ place ∈ moves.map (·.1) ++ places, (f.slotAt? place).isSome)
    (distinct : (moves.map (·.1) ++ places).Nodup)
    (ready : ∀ id ∈ inner, f.arena.size ≤ id ∧ g.arena.plan? id = some call ∧
      ∀ n s, g.slotAt? (.entry n) = some s → s.id ≠ id) :
    Delegated className f (moves ++ (Hoisting.turned owner places).map (·, call))
      (Hoisting.redirectAll call owner places inner g) := by
  induction places generalizing moves g inner with
  | nil => simpa [Hoisting.redirectAll, Hoisting.turned] using delegated
  | cons place rest ih =>
      have here : (f.slotAt? place).isSome := there place (by simp)
      have filled' : g.Filled :=
        delegated.filled filled fun other mem => there other (List.mem_append_left _ mem)
      have unmoved : place ∉ moves.map (·.1) := fun mem =>
        List.disjoint_of_nodup_append distinct mem List.mem_cons_self
      -- What is left to turn once `place` has been.
      have there' : ∀ other ∈ (moves ++ [(place, call)]).map (·.1) ++ rest,
          (f.slotAt? other).isSome := by
        intro other mem
        exact there other (by simpa using mem)
      have distinct' : ((moves ++ [(place, call)]).map (·.1) ++ rest).Nodup := by
        simpa using distinct
      cases place with
      | entry n =>
          by_cases owns : owner = some n
          · rw [Hoisting.turned_entry, if_pos owns, Hoisting.redirectAll_entry, if_pos owns]
            refine ih delegated (fun other mem => ?_) ?_ ready
            · exact there other (by
                rw [List.mem_append, List.mem_cons]
                exact (List.mem_append.mp mem).imp_right .inr)
            · exact distinct.sublist ((List.Sublist.refl _).append (List.sublist_cons_self _ _))
          · rw [Hoisting.turned_entry, if_neg owns, Hoisting.redirectAll_entry, if_neg owns,
              List.map_cons, List.append_cons]
            refine ih (delegated.turnNew filled' calls here unmoved) there' distinct' ?_
            intro id mem
            obtain ⟨high, built, apart⟩ := ready id mem
            have old := Arena.lt_size_of_plan? built
            refine ⟨high, ?_, ?_⟩
            · exact (Arena.Within.alloc g.arena call).plan?_of_some built
            · intro m s found
              rw [Forest.slotAt?_redirect, g.slotAt?_addPlan calls.children] at found
              split at found
              · obtain ⟨t, -, rfl⟩ := Option.map_eq_some_iff.mp found
                exact Nat.ne_of_gt old
              · exact apart m s found
      | child parent n =>
          rw [Hoisting.turned_child, List.map_cons, List.append_cons]
          cases inner with
          | some id =>
              obtain ⟨high, built, apart⟩ := ready id rfl
              rw [Hoisting.redirectAll_inner]
              refine ih (delegated.turn here unmoved high built ?_) there' distinct' ?_
              · intro other s found same
                cases other with
                | entry m => exact absurd same (apart m s found)
                | child _ _ => exact ⟨rfl, rfl⟩
              · rintro _ ⟨⟩
                refine ⟨high, ?_, ?_⟩
                · exact Forest.plan?_redirect_of_leaf calls.children built _ _
                    (delegated.slotAt?_isSome here)
                · intro m s found
                  rw [Forest.slotAt?_redirect, if_neg (by simp)] at found
                  exact apart m s found
          | none =>
              rw [Hoisting.redirectAll_first]
              refine ih (delegated.turnNew filled' calls here unmoved) there' distinct' ?_
              rintro _ ⟨⟩
              refine ⟨delegated.size_le, ?_, ?_⟩
              · refine Forest.plan?_redirect_of_leaf calls.children
                  (Arena.plan?_alloc_self g.arena call) _ _ ?_
                rw [g.slotAt?_addPlan calls.children]
                exact delegated.slotAt?_isSome here
              · intro m s found
                rw [Forest.slotAt?_redirect, if_neg (by simp), g.slotAt?_addPlan calls.children]
                  at found
                exact Nat.ne_of_lt (filled' _ _ found)

end Delegated

end Injector
