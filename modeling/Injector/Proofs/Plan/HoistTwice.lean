/-
# Injector.Proofs.Plan.HoistTwice -- hoisting again changes nothing

The calls that hoisting adds are closed leaves, and they are shared: the places inside
other plans have one call of a member together.  But every entry has a call of its own
(`Delegated.alone`), and of a shared plan that was there before only the place of its
owner, or the private entry made for it, is left.  So afterwards nothing is shared
(`Progress.not_shared`), whatever was shared before and even where plans need one
another in a circle.
-/
import Injector.Proofs.Plan.Hoisting

namespace Injector

set_option autoImplicit false

/-- The place once `k` entries have been put in front. -/
def Place.behind (k : Nat) : Place → Place
  | entry n => entry (k + n)
  | child parent n => child parent n

namespace Hoisting.Progress

variable {className : String} {f : Forest} {names : NameSupply}
  {moves : List (Place × Plan)} {h : Hoisting} {id : PlanId} {place : Place}

/-- A private entry is made for a shared plan without an owner. -/
theorem made_shared (progress : Progress className f names f.reach.order moves h) {e : Entry}
    (mem : e ∈ h.made) :
    f.Reachable e.result.id ∧ f.Shared e.result.id ∧ f.owner? e.result.id = none := by
  have listed : e.result.id ∈ h.made.map (·.result.id) := List.mem_map_of_mem mem
  rw [progress.made, List.mem_filter, decide_eq_true_eq, Forest.mem_order_reach_iff] at listed
  exact listed

/-- Each plan has one private entry at most. -/
theorem made_unique (progress : Progress className f names f.reach.order moves h) {m n : Nat}
    {e e' : Entry} (here : h.made[m]? = some e) (here' : h.made[n]? = some e')
    (same : e.result.id = e'.result.id) : m = n := by
  have distinct : (h.made.map (·.result.id)).Nodup := by
    rw [progress.made]
    exact f.order_nodup.filter _
  have inside := (List.getElem?_eq_some_iff.mp here).1
  refine (List.getElem?_inj (by simpa using inside) distinct).mp ?_
  rw [List.getElem?_map, List.getElem?_map, here, here', Option.map_some, Option.map_some, same]

/-- A slot points at a call, or where it did before. -/
theorem slot_cases (progress : Progress className f names f.reach.order moves h) {s : Slot}
    (found : h.forest.slotAt? place = some s)
    (led : ∀ parent n, place = .child parent n → f.Reachable parent) :
    f.arena.size ≤ s.id ∨ f.Uses place s.id ∧ place ∉ moves.map (·.1) := by
  by_cases mem : place ∈ moves.map (·.1)
  · left
    obtain ⟨s', old⟩ := Option.isSome_iff_exists.mp (progress.there_of_moved mem)
    obtain ⟨⟨_, call⟩, listed, rfl⟩ := List.mem_map.mp mem
    obtain ⟨new, here, high, -⟩ := progress.delegated.moved listed old
    rw [here, Option.some.injEq] at found
    exact found ▸ high
  · right
    rw [progress.delegated.kept mem] at found
    refine ⟨?_, mem⟩
    cases place with
    | entry n =>
        obtain ⟨e, here, rfl⟩ := Option.map_eq_some_iff.mp found
        exact ⟨e, here, rfl⟩
    | child parent n => exact ⟨led parent n rfl, s, found, rfl⟩

/-- What the entries need afterwards is a call, or was needed before. -/
theorem reachable_cases (progress : Progress className f names f.reach.order moves h)
    (reachable : h.result.Reachable id) : f.arena.size ≤ id ∨ f.Reachable id := by
  induction reachable with
  | @result e mem =>
      rcases List.mem_append.mp mem with mem | mem
      · exact .inr (progress.made_shared mem).1
      · obtain ⟨n, here⟩ := List.mem_iff_getElem?.mp mem
        have found : h.forest.slotAt? (.entry n) = some e.result := by
          rw [Forest.slotAt?, here, Option.map_some]
        exact (progress.slot_cases found (by simp)).imp_right fun old => old.1.reachable
  | @need parent c _ child ih =>
      obtain ⟨n, here⟩ := List.mem_iff_getElem?.mp child
      have found : h.forest.slotAt? (.child parent n) = some c := here
      rcases ih with high | old
      · rw [Forest.slotAt?, progress.delegated.children_of_call high] at found
        cases found
      · have led (parent' : PlanId) (n' : Nat) (same : Place.child parent n = .child parent' n') :
            f.Reachable parent' := by
          cases same
          exact old
        exact (progress.slot_cases found led).imp_right fun old => old.1.reachable

/-- A private entry points at the plan; or a place that was there before does, and the
plan is a call or the place has not been turned. -/
theorem uses_cases (progress : Progress className f names f.reach.order moves h)
    (uses : h.result.Uses place id) :
    (∃ m e, place = .entry m ∧ h.made[m]? = some e ∧ e.result.id = id) ∨
      ∃ old s, place = old.behind h.made.length ∧ h.forest.slotAt? old = some s ∧ s.id = id ∧
        (f.arena.size ≤ id ∨ f.Uses old id ∧ old ∉ moves.map (·.1)) := by
  cases place with
  | entry m =>
      obtain ⟨e, here, rfl⟩ := uses
      by_cases inside : m < h.made.length
      · left
        rw [result, List.getElem?_append_left inside] at here
        exact ⟨m, e, rfl, here, rfl⟩
      · right
        rw [result, List.getElem?_append_right (Nat.le_of_not_lt inside)] at here
        have found : h.forest.slotAt? (.entry (m - h.made.length)) = some e.result := by
          rw [Forest.slotAt?, here, Option.map_some]
        refine ⟨_, _, ?_, found, rfl, progress.slot_cases found (by simp)⟩
        rw [Place.behind, Nat.add_sub_cancel' (Nat.le_of_not_lt inside)]
  | child parent n =>
      right
      obtain ⟨reachable, c, here, rfl⟩ := uses
      have found : h.forest.slotAt? (.child parent n) = some c := here
      refine ⟨_, c, rfl, found, rfl, progress.slot_cases found ?_⟩
      rintro _ _ ⟨⟩
      refine (progress.reachable_cases reachable).resolve_left fun high => ?_
      rw [Forest.slotAt?, progress.delegated.children_of_call high] at found
      cases found

/-- A shared plan is left to its owner, or to the private entry made for it. -/
theorem uses_unique_of_shared (progress : Progress className f names f.reach.order moves h)
    (shared : f.Shared id) (low : id < f.arena.size) {other : Place}
    (uses : h.result.Uses place id) (uses' : h.result.Uses other id) : place = other := by
  have unturned (old : Place) (unmoved : old ∉ moves.map (·.1)) (uses : f.Uses old id) :
      ∃ n, old = .entry n ∧ f.owner? id = some n := by
    refine Forest.owner?_of_not_turned uses fun turned => unmoved ?_
    exact progress.mem_iff.mpr ⟨id, Forest.mem_order_reach_iff.mpr uses.reachable, shared, turned⟩
  have high := Nat.not_le_of_lt low
  rcases progress.uses_cases uses with ⟨m, e, rfl, here, built⟩ | ⟨old, s, rfl, -, -, kept⟩
  · have unowned := (progress.made_shared (List.mem_of_getElem? here)).2.2
    rw [built] at unowned
    rcases progress.uses_cases uses' with ⟨n, e', rfl, here', built'⟩ | ⟨old, s, rfl, -, -, kept⟩
    · rw [progress.made_unique here here' (built.trans built'.symm)]
    · obtain ⟨uses, unmoved⟩ := kept.resolve_left high
      obtain ⟨n, -, owned⟩ := unturned old unmoved uses
      rw [unowned] at owned
      cases owned
  · obtain ⟨uses, unmoved⟩ := kept.resolve_left high
    obtain ⟨n, rfl, owned⟩ := unturned old unmoved uses
    rcases progress.uses_cases uses' with ⟨m, e', rfl, here', built'⟩ | ⟨old', s', rfl, -, -, kept'⟩
    · have unowned := (progress.made_shared (List.mem_of_getElem? here')).2.2
      rw [built', owned] at unowned
      cases unowned
    · obtain ⟨uses', unmoved'⟩ := kept'.resolve_left high
      obtain ⟨n', rfl, owned'⟩ := unturned old' unmoved' uses'
      rw [Option.some.inj (owned.symm.trans owned')]

/-- A plan that is not shared is pointed at from the places it was before, or is a call. -/
theorem uses_of_not_shared (progress : Progress className f names f.reach.order moves h)
    (unshared : ¬f.Shared id) (low : id < f.arena.size) (uses : h.result.Uses place id) :
    ∃ old, place = old.behind h.made.length ∧ f.Uses old id := by
  rcases progress.uses_cases uses with ⟨m, e, rfl, here, built⟩ | ⟨old, s, rfl, -, -, kept⟩
  · have shared := (progress.made_shared (List.mem_of_getElem? here)).2.1
    rw [built] at shared
    exact absurd shared unshared
  · exact ⟨old, rfl, (kept.resolve_left (Nat.not_le_of_lt low)).1⟩

/-- Afterwards no closed plan is to be moved. -/
theorem uses_unique (progress : Progress className f names f.reach.order moves h)
    (filled : f.Filled) (closed : h.result.arena.isClosed id = true) {other : Place}
    (uses : h.result.Uses place id) (uses' : h.result.Uses other id)
    (many : h.result.arena.children id ≠ [] ∨ ∃ m n, place = .entry m ∧ other = .entry n) :
    place = other := by
  have children : h.result.arena.children id = h.forest.arena.children id := rfl
  by_cases low : id < f.arena.size
  · by_cases shared : f.Shared id
    · exact progress.uses_unique_of_shared shared low uses uses'
    · obtain ⟨old, rfl, used⟩ := progress.uses_of_not_shared shared low uses
      obtain ⟨old', rfl, used'⟩ := progress.uses_of_not_shared shared low uses'
      by_contra ne
      refine shared (.of_places ?_ used used' (fun same => ne (same ▸ rfl)) (many.imp ?_ ?_))
      · exact (progress.delegated.isClosed_eq low).symm.trans closed
      · rw [children]
        exact mt (progress.delegated.children_eq_nil_iff low).mpr
      · rintro ⟨m, n, here, here'⟩
        cases old <;> cases old' <;> simp_all [Place.behind]
  · have high := Nat.le_of_not_lt low
    rw [children, progress.delegated.children_of_call high] at many
    obtain ⟨m, n, rfl, rfl⟩ := many.resolve_left fun needs => needs rfl
    have entries (k : Nat) (uses : h.result.Uses (.entry k) id) :
        ∃ i s, k = h.made.length + i ∧ h.forest.slotAt? (.entry i) = some s ∧ s.id = id := by
      rcases progress.uses_cases uses with ⟨_, e, -, here, built⟩ | ⟨old, s, same, found, points, -⟩
      · have reachable := (progress.made_shared (List.mem_of_getElem? here)).1
        rw [built] at reachable
        exact absurd (reachable.lt_size filled) low
      · cases old with
        | entry i => cases same; exact ⟨i, s, rfl, found, points⟩
        | child _ _ => cases same
    obtain ⟨i, s, rfl, found, points⟩ := entries m uses
    obtain ⟨j, s', rfl, found', points'⟩ := entries n uses'
    have same := progress.delegated.alone found (points.symm ▸ high) _ s' found'
      (points'.trans points.symm)
    cases same
    rfl

end Hoisting.Progress

namespace Forest

/-- Where nothing is shared, hoisting changes nothing. -/
theorem hoist_eq_self {f : Forest} (unshared : ∀ id, ¬f.Shared id) (className : String)
    (names : NameSupply) : f.hoist className names = (f, names) := by
  have stays (order : List PlanId) (h : Hoisting) (same : h.forest = f) :
      order.foldl (Hoisting.step className f.reach.uses) h = h := by
    induction order with
    | nil => rfl
    | cons id rest ih =>
        have skipped : Hoisting.step className f.reach.uses h id = h := by
          rw [Hoisting.step, same]
          exact if_neg (unshared id)
        rw [List.foldl_cons, skipped, ih]
  rw [hoist, stays f.reach.order _ rfl]
  rfl

/-- After hoisting, a closed plan that needs others is pointed at from one place at
most, and a closed plan that needs nothing is the result of one entry at most.  So
hoisting again changes nothing. -/
theorem hoist_hoist (f : Forest) (className : String) (names : NameSupply) (filled : f.Filled) :
    let g := (f.hoist className names).1
    (∀ id, g.Reachable id → g.arena.isClosed id = true →
      (g.arena.children id ≠ [] → ∀ place other,
        g.Uses place id → g.Uses other id → place = other) ∧
      (g.arena.children id = [] → ∀ m n,
        g.Uses (.entry m) id → g.Uses (.entry n) id → m = n)) ∧
    ∀ className' names', g.hoist className' names' = (g, names') := by
  obtain ⟨moves, h, progress, hoisted⟩ := exists_progress_hoist filled className names
  rw [hoisted]
  refine ⟨fun id _ closed => ⟨?_, ?_⟩, hoist_eq_self fun id shared => ?_⟩
  · intro needs place other uses uses'
    exact progress.uses_unique filled closed uses uses' (.inl needs)
  · intro _ m n uses uses'
    have same := progress.uses_unique filled closed uses uses' (.inr ⟨m, n, rfl, rfl⟩)
    cases same
    rfl
  · obtain ⟨closed, ⟨needs, p, q, uses, uses', ne⟩ | ⟨m, n, uses, uses', ne⟩⟩ :=
      shared.exists_places
    · exact ne (progress.uses_unique filled closed uses uses' (.inl needs))
    · have same := progress.uses_unique filled closed uses uses' (.inr ⟨m, n, rfl, rfl⟩)
      cases same
      exact ne rfl

end Forest

theorem sharedBar_hoisted :
    let g := (sharedBar.hoist "WirebindC" ⟨["bar", "baz"]⟩).1
    g.hoist "WirebindC" ⟨["bar", "baz"]⟩ = (g, ⟨["bar", "baz"]⟩) :=
  (Forest.hoist_hoist sharedBar "WirebindC" ⟨["bar", "baz"]⟩
    (Forest.filled_of_before sharedBar_before sharedBar_built)).2 _ _

end Injector
