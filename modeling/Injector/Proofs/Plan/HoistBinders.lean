/-
# Injector.Proofs.Plan.HoistBinders -- hoisting takes no reference from its binder

A plan that hoisting moves leaves the plans around it, and with them what they bind.  Only
closed plans are moved, and what is kept as free in a plan is free in it
(`Arena.isClosed_iff`); so the references in what is moved are bound in it.

What is left behind is a call, which refers to nothing.  So no path leads to a reference
but those that were there before, under steps that bind the same names
(`Delegated.path_before`).
-/
import Injector.Proofs.Plan.HoistTwice

namespace Injector

set_option autoImplicit false

/-- Each reference below `root` is below a plan that binds its name. -/
def Arena.Bound (a : Arena) (root : Slot) : Prop :=
  ∀ above s p name, Path a root above s → a.plan? s.id = some p → p.reference? = some name →
    ∃ q ∈ above, name ∈ q.binders

theorem Arena.bound_of_isClosed {a : Arena} (sound : a.Sound) {root : Slot}
    (closed : a.isClosed root.id = true) : a.Bound root :=
  (isClosed_iff sound root).mp closed

namespace Delegated

variable {className : String} {f g : Forest} {moves : List (Place × Plan)} {id : PlanId}
  {root s : Slot} {above : List Plan} {p q : Plan}

/-- A slot that points at a plan from before was not turned. -/
theorem slotAt?_of_low (delegated : Delegated className f moves g)
    (there : ∀ place ∈ moves.map (·.1), (f.slotAt? place).isSome) {place : Place}
    (found : g.slotAt? place = some s) (low : s.id < f.arena.size) : f.slotAt? place = some s := by
  by_cases mem : place ∈ moves.map (·.1)
  · obtain ⟨old, here⟩ := Option.isSome_iff_exists.mp (there place mem)
    obtain ⟨⟨_, call⟩, listed, rfl⟩ := List.mem_map.mp mem
    obtain ⟨new, turned, high, -⟩ := delegated.moved listed here
    obtain rfl := Option.some.inj (turned.symm.trans found)
    exact absurd low (Nat.not_lt_of_le high)
  · exact (delegated.kept mem).symm.trans found

/-- A plan from before refers to the same name and binds the same names. -/
theorem plan?_before (delegated : Delegated className f moves g) (low : id < f.arena.size)
    (found : g.arena.plan? id = some q) :
    ∃ p, f.arena.plan? id = some p ∧ p.reference? = q.reference? ∧ p.binders = q.binders := by
  obtain ⟨p, here⟩ := Arena.exists_plan? low
  have same := delegated.shape low
  rw [found, here, Option.map_some, Option.map_some, Option.some.injEq] at same
  exact ⟨p, here, Plan.names_of_shape same.symm⟩

/-- A path to a plan from before is one that was there before, under the same binders. -/
theorem path_before (delegated : Delegated className f moves g)
    (there : ∀ place ∈ moves.map (·.1), (f.slotAt? place).isSome)
    (path : g.arena.Path root above s) (low : s.id < f.arena.size) :
    ∃ above', f.arena.Path root above' s ∧ above'.map Plan.binders = above.map Plan.binders := by
  induction path with
  | here => exact ⟨[], .here, rfl⟩
  | @down above t c q _ found child ih =>
      have inside : c ∈ g.arena.children t.id := by rwa [Arena.children_of_plan? found]
      have lower : t.id < f.arena.size := by
        refine Nat.lt_of_not_le fun high => ?_
        rw [delegated.children_of_call high] at inside
        cases inside
      obtain ⟨above', path, same⟩ := ih lower
      obtain ⟨p, found', -, binders⟩ := delegated.plan?_before lower found
      obtain ⟨n, at_⟩ := List.mem_iff_getElem?.mp inside
      have unturned : f.slotAt? (.child t.id n) = some c := delegated.slotAt?_of_low there at_ low
      rw [Forest.slotAt?, Arena.children_of_plan? found'] at unturned
      refine ⟨p :: above', .down path found' (List.mem_of_getElem? unturned), ?_⟩
      rw [List.map_cons, List.map_cons, binders, same]

/-- What was bound before is bound afterwards. -/
theorem bound (delegated : Delegated className f moves g)
    (there : ∀ place ∈ moves.map (·.1), (f.slotAt? place).isSome)
    (before : root.id < f.arena.size → f.arena.Bound root) : g.arena.Bound root := by
  intro above s q name path found refers
  have low : s.id < f.arena.size := by
    refine Nat.lt_of_not_le fun high => ?_
    obtain ⟨memberName, isProperty, rfl⟩ := delegated.added high found
    cases refers
  obtain ⟨above', path', same⟩ := delegated.path_before there path low
  obtain ⟨p, found', refers', -⟩ := delegated.plan?_before low found
  have rootLow : root.id < f.arena.size := by
    rcases path'.uncons with ⟨-, rfl⟩ | ⟨r, c, rest, start, -⟩
    · exact low
    · exact Arena.lt_size_of_plan? start
  obtain ⟨r, mem, binds⟩ := before rootLow above' s p name path' found' (refers'.trans refers)
  have listed : r.binders ∈ above.map Plan.binders := same ▸ List.mem_map_of_mem mem
  obtain ⟨r', mem', binders⟩ := List.mem_map.mp listed
  exact ⟨r', mem', binders ▸ binds⟩

end Delegated

/-- Hoisting leaves each reference below a plan that binds its name, in the members that
there were and in the private ones. -/
theorem Forest.bound_hoist (f : Forest) (className : String) (names : NameSupply)
    (built : f.arena.Built) (known : ∀ e ∈ f.entries, e.result.id < f.arena.size)
    (bound : ∀ e ∈ f.entries, f.arena.Bound e.result) :
    let g := (f.hoist className names).1
    ∀ e ∈ g.entries, g.arena.Bound e.result := by
  have sound := built.sound
  have filled : f.Filled := filled_of_before (fun _ _ found => sound.before found) known
  obtain ⟨moves, h, progress, hoisted⟩ := exists_progress_hoist filled className names
  have there : ∀ place ∈ moves.map (·.1), (f.slotAt? place).isSome :=
    fun _ mem => progress.there_of_moved mem
  rw [hoisted]
  intro g e mem
  refine progress.delegated.bound there fun low => ?_
  rcases List.mem_append.mp mem with mem | mem
  · exact Arena.bound_of_isClosed sound (progress.made_shared mem).2.1.exists_places.1
  · obtain ⟨n, here⟩ := List.mem_iff_getElem?.mp mem
    have found : h.forest.slotAt? (.entry n) = some e.result := by
      rw [slotAt?, here, Option.map_some]
    have before := progress.delegated.slotAt?_of_low there found low
    obtain ⟨e', here', same⟩ := Option.map_eq_some_iff.mp before
    exact same ▸ bound e' (List.mem_of_getElem? here')

/-- A `Baz` needs twice the `Foo` that is put into a late variable; the `Foo` needs twice a
lambda, which refers to that variable and to its own parameter. -/
def sharedCycle : Forest :=
  let slot (name : String) (id : PlanId) : Slot := { key := .of { name }, id }
  let plans := [.localVar "foo", .arg "arg0",
    .construct { name := "Bar" } ⟨[("foo", slot "Foo" 0), ("qux", slot "Qux" 1)]⟩ false,
    .function ["arg0"] (slot "Bar" 2),
    .construct { name := "Foo" } ⟨[("make", slot "Make" 3), ("remake", slot "Make" 3)]⟩ false,
    .lateInit "foo" (slot "Foo" 4),
    .construct { name := "Baz" } ⟨[("left", slot "Foo" 5), ("right", slot "Foo" 5)]⟩ false]
  { arena := plans.foldl (fun a p => (a.alloc p).2) .empty
    entries := [{ name := "baz", returnType := { name := "Baz" }, isProperty := true
                  isPrivate := false, isOverride := true, isSuspend := false
                  result := slot "Baz" 6 }] }

/-- The late variable gets a member of its own, with all that refers to it. -/
theorem sharedCycle_bound :
    let g := (sharedCycle.hoist "WirebindC" ⟨["baz"]⟩).1
    g.entries.map (·.result.id) = [5, 6] ∧ ∀ e ∈ g.entries, g.arena.Bound e.result := by
  have built : sharedCycle.arena.Built :=
    .alloc (.alloc (.alloc (.alloc (.alloc (.alloc (.alloc .empty (by decide)) (by decide))
      (by decide)) (by decide)) (by decide)) (by decide)) (by decide)
  have bound : ∀ e ∈ sharedCycle.entries, sharedCycle.arena.Bound e.result :=
    List.forall_mem_singleton.mpr (Arena.bound_of_isClosed built.sound (by decide))
  exact ⟨by decide +kernel, Forest.bound_hoist sharedCycle "WirebindC" ⟨["baz"]⟩ built
    (by decide) bound⟩

end Injector
