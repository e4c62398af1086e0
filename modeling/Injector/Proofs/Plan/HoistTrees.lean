/-
# Injector.Proofs.Plan.HoistTrees -- hoisting keeps what a member builds

After hoisting some slots point at calls of members.  A call stands for what the
member builds (`Forest.calledPlan?`), and with calls followed each plan unfolds to
the tree it had before (`unfolds_hoist`).

The plans that were there before come first and children come before their parents.
A slot that was turned stands for the plan it pointed at before, so the unfolding
goes down in the old numbers (`Progress.stands`) and ends.  It depends on the names:
a private entry gets a name that no member has, so no call leads to another member.
-/
import Injector.Proofs.Plan.Hoisting

namespace Injector

set_option autoImplicit false

namespace Forest

/-- The entry of a member. -/
def member? (f : Forest) (name : String) (isProperty : Bool) : Option Entry :=
  f.entries.find? fun e => decide (e.name = name ∧ e.isProperty = isProperty)

/-- What the plan `id` stands for.  The plans from `first` on are calls, and a call
stands for the plan of the member that it calls. -/
def calledPlan? (f : Forest) (first id : PlanId) : Option PlanId :=
  if id < first then none
  else
    match f.arena.plan? id with
    | some (.provide _ memberName _ _ isProperty _) =>
      (f.member? memberName isProperty).map (·.result.id)
    | _ => none

/-- The plan itself, or the plan that it calls. -/
def standsFor (f : Forest) (first id : PlanId) : PlanId := (f.calledPlan? first id).getD id

theorem unfolds_of_standsFor {f : Forest} {first id : PlanId} {t : PlanTree}
    (unfolds : f.arena.Unfolds (f.calledPlan? first) (f.standsFor first id) t) :
    f.arena.Unfolds (f.calledPlan? first) id t := by
  cases called : f.calledPlan? first id with
  | none =>
      rw [standsFor, called] at unfolds
      exact unfolds
  | some target =>
      rw [standsFor, called] at unfolds
      exact .other called unfolds

/-- No two members are called the same. -/
def Distinct (f : Forest) : Prop := (f.entries.map fun e => (e.name, e.isProperty)).Nodup

instance (f : Forest) : Decidable f.Distinct := inferInstanceAs (Decidable (List.Nodup _))

theorem Distinct.member? {f : Forest} (distinct : f.Distinct) {e : Entry} (mem : e ∈ f.entries) :
    f.member? e.name e.isProperty = some e := by
  cases found : f.member? e.name e.isProperty with
  | none =>
      have none := List.find?_eq_none.mp found e mem
      simp at none
  | some e' =>
      have same := List.find?_some found
      rw [decide_eq_true_eq] at same
      congr 1
      exact List.inj_on_of_nodup_map distinct (List.mem_of_find?_eq_some found) mem
        (Prod.ext same.1 same.2)

end Forest

namespace Hoisting.Progress

variable {className : String} {f : Forest} {names : NameSupply} {done : List PlanId}
  {moves : List (Place × Plan)} {h : Hoisting} {id : PlanId}

/-- The entry that keeps a plan still has it as its result. -/
theorem owner_kept (progress : Progress className f names done moves h) {n : Nat}
    (owns : f.owner? id = some n) :
    ∃ e, h.forest.entries[n]? = some e ∧ e.result.id = id := by
  obtain ⟨⟨e, here, built⟩, -⟩ := Forest.owner?_eq_some owns
  obtain ⟨e', here', -⟩ := progress.delegated.entry_bare here
  have unmoved : .entry n ∉ moves.map (·.1) := by
    intro mem
    obtain ⟨other, -, -, turned⟩ := progress.mem_iff.mp mem
    obtain ⟨uses, notOwner⟩ := Forest.mem_turned.mp turned
    obtain rfl := uses.unique ⟨e, here, built⟩
    rcases notOwner with isChild | other
    · cases isChild
    · exact other owns.symm
  have same := progress.delegated.kept unmoved
  simp only [Forest.slotAt?, here, here', Option.map_some, Option.some.injEq] at same
  exact ⟨e', here', same ▸ built⟩

/-- A call leads to the member that builds the plan. -/
theorem member?_of_offers (progress : Progress className f names done moves h)
    (distinct : h.result.Distinct) {memberName : String} {isProperty : Bool}
    (offers : Offers f h.made id memberName isProperty) :
    ∃ e, h.result.member? memberName isProperty = some e ∧ e.result.id = id := by
  rcases offers with ⟨n, e, -, owns, here, rfl, rfl⟩ | ⟨e, mem, built, rfl, rfl⟩
  · obtain ⟨e', here', built⟩ := progress.owner_kept owns
    obtain ⟨e'', here'', bare⟩ := progress.delegated.entry_bare here
    obtain rfl := Option.some.inj (here'.symm.trans here'')
    obtain ⟨name, property⟩ := Entry.member_of_bare bare
    refine ⟨e', ?_, built⟩
    rw [← name, ← property]
    exact distinct.member? (List.mem_append_right _ (List.mem_of_getElem? here'))
  · exact ⟨e, distinct.member? (List.mem_append_left _ mem), built⟩

/-- No private entry is called like another member. -/
theorem result_distinct (progress : Progress className f names done moves h)
    (distinct : f.Distinct) (taken : ∀ e ∈ f.entries, e.name ∈ names.taken) :
    h.result.Distinct := by
  have old : h.forest.entries.map (fun e => (e.name, e.isProperty)) =
      f.entries.map fun e => (e.name, e.isProperty) := by
    have same := congrArg (List.map fun e : Entry => (e.name, e.isProperty)) progress.delegated.bare
    rw [List.map_map, List.map_map] at same
    exact same
  rw [Forest.Distinct, result, List.map_append, List.nodup_append', old]
  refine ⟨?_, distinct, ?_⟩
  · refine List.Nodup.of_map Prod.fst ?_
    rw [List.map_map]
    exact progress.distinct
  · intro pair made original
    obtain ⟨e, mem, rfl⟩ := List.mem_map.mp made
    obtain ⟨e', mem', same⟩ := List.mem_map.mp original
    have name : e'.name = e.name := congrArg Prod.fst same
    exact progress.fresh e mem (name ▸ taken e' mem')

/-- Each slot points at what stands for the plan that it pointed at. -/
theorem stands (progress : Progress className f names done moves h) (filled : f.Filled)
    (distinct : h.result.Distinct) {place : Place} {s : Slot} (found : f.slotAt? place = some s) :
    ∃ s', h.forest.slotAt? place = some s' ∧ h.result.standsFor f.arena.size s'.id = s.id := by
  by_cases mem : place ∈ moves.map (·.1)
  · obtain ⟨⟨_, call⟩, listed, rfl⟩ := List.mem_map.mp mem
    obtain ⟨new, here, high, built⟩ := progress.delegated.moved listed found
    obtain ⟨target, memberName, isProperty, uses, rfl, offers⟩ := progress.calls listed
    obtain ⟨s', found', rfl⟩ := uses.slotAt?
    obtain rfl := Option.some.inj (found.symm.trans found')
    obtain ⟨e, member, same⟩ := progress.member?_of_offers distinct offers
    refine ⟨_, here, ?_⟩
    have built' : h.result.arena.plan? new =
        some (.provide className memberName .here none isProperty {}) := built
    simp only [Forest.standsFor, Forest.calledPlan?, if_neg (Nat.not_lt_of_le high), built',
      member, Option.map_some, same, Option.getD_some]
  · refine ⟨s, (progress.delegated.kept mem).trans found, ?_⟩
    rw [Forest.standsFor, Forest.calledPlan?, if_pos (filled place s found), Option.getD_none]

/-- What a plan needs afterwards stands for what it needed before. -/
theorem children_stand (progress : Progress className f names done moves h) (filled : f.Filled)
    (distinct : h.result.Distinct) {p q : Plan} (found : f.arena.plan? id = some p)
    (found' : h.forest.arena.plan? id = some q) :
    q.shape = p.shape ∧
      q.children.map (fun c => h.result.standsFor f.arena.size c.id) = p.children.map (·.id) := by
  have shape : q.shape = p.shape := by
    have same := progress.delegated.shape (Arena.lt_size_of_plan? found)
    rw [found, found', Option.map_some, Option.map_some] at same
    exact Option.some.inj same
  refine ⟨shape, List.ext_getElem? fun n => ?_⟩
  rw [List.getElem?_map, List.getElem?_map]
  cases here : p.children[n]? with
  | some c =>
      have place : f.slotAt? (.child id n) = some c := by
        rw [Forest.slotAt?, Arena.children_of_plan? found, here]
      obtain ⟨c', here', same⟩ := progress.stands filled distinct place
      rw [Forest.slotAt?, Arena.children_of_plan? found'] at here'
      rw [here', Option.map_some, Option.map_some, same]
  | none =>
      have beyond := List.getElem?_eq_none_iff.mp here
      rw [← Plan.length_children_of_shape shape] at beyond
      rw [List.getElem?_eq_none_iff.mpr beyond]
      rfl

/-- With calls followed, the plans that were there before unfold as they did. -/
theorem unfolds (progress : Progress className f names done moves h) (filled : f.Filled)
    (before : ∀ id p, f.arena.plan? id = some p → ∀ c ∈ p.children, c.id < id)
    (distinct : h.result.Distinct) (low : id < f.arena.size) :
    h.result.arena.Unfolds (h.result.calledPlan? f.arena.size) id (f.arena.tree id) := by
  induction id using Nat.strongRecOn with
  | _ id ih =>
      obtain ⟨p, found⟩ := Arena.exists_plan? low
      obtain ⟨q, found'⟩ := Arena.exists_plan? (Nat.lt_of_lt_of_le low progress.delegated.size_le)
      obtain ⟨shape, stand⟩ := progress.children_stand filled distinct found found'
      have trees : p.children.map (fun c => f.arena.tree c.id) =
          q.children.map fun c => f.arena.tree (h.result.standsFor f.arena.size c.id) := by
        have same := congrArg (List.map f.arena.tree) stand
        rw [List.map_map, List.map_map] at same
        exact same.symm
      rw [Arena.tree_eq found (before id p found), ← shape, trees]
      refine .plan (fun id => f.arena.tree (h.result.standsFor f.arena.size id)) ?_ found' ?_
      · rw [Forest.calledPlan?, if_pos low]
      · intro c' child
        have old : h.result.standsFor f.arena.size c'.id ∈ p.children.map (·.id) := by
          rw [← stand]
          exact List.mem_map_of_mem child
        obtain ⟨c, child', same⟩ := List.mem_map.mp old
        have below := before id p found c child'
        refine Forest.unfolds_of_standsFor ?_
        rw [← same]
        exact ih c.id below (Nat.lt_trans below low)

end Hoisting.Progress

namespace Forest

/-- Hoisting keeps what each member builds.  The plans that it adds are calls of the
component's own members, no two members are called the same afterwards, and the
result of each member, with calls followed, unfolds to the tree that it had. -/
theorem unfolds_hoist (f : Forest) (className : String) (names : NameSupply)
    (before : ∀ id p, f.arena.plan? id = some p → ∀ c ∈ p.children, c.id < id)
    (built : ∀ e ∈ f.entries, e.result.id < f.arena.size) (distinct : f.Distinct)
    (taken : ∀ e ∈ f.entries, e.name ∈ names.taken) :
    let g := (f.hoist className names).1
    let called := g.calledPlan? f.arena.size
    (∀ id p, f.arena.size ≤ id → g.arena.plan? id = some p → p.CallsOwn className) ∧ g.Distinct ∧
      ∀ e ∈ f.entries, ∃ e', g.member? e.name e.isProperty = some e' ∧ e'.bare = e.bare ∧
        g.arena.Unfolds called e'.result.id (f.arena.tree e.result.id) ∧
        ∀ t, g.arena.Unfolds called e'.result.id t → t = f.arena.tree e.result.id := by
  have filled : f.Filled := filled_of_before before built
  obtain ⟨moves, h, progress, hoisted⟩ := exists_progress_hoist filled className names
  rw [hoisted]
  have distinct' : h.result.Distinct := progress.result_distinct distinct taken
  refine ⟨fun id p => progress.delegated.added, distinct', ?_⟩
  intro e mem
  obtain ⟨n, here⟩ := List.mem_iff_getElem?.mp mem
  obtain ⟨e', here', bare⟩ := progress.delegated.entry_bare here
  obtain ⟨name, property⟩ := Entry.member_of_bare bare
  have member : h.result.member? e.name e.isProperty = some e' := by
    rw [← name, ← property]
    exact distinct'.member? (List.mem_append_right _ (List.mem_of_getElem? here'))
  have tree := progress.unfolds filled before distinct' (built e mem)
  have slot : f.slotAt? (.entry n) = some e.result := by
    rw [slotAt?, here, Option.map_some]
  obtain ⟨s', found', same⟩ := progress.stands filled distinct' slot
  rw [slotAt?, here', Option.map_some, Option.some.injEq] at found'
  subst found'
  have unfolds : h.result.arena.Unfolds (h.result.calledPlan? f.arena.size) e'.result.id
      (f.arena.tree e.result.id) := by
    refine unfolds_of_standsFor ?_
    rw [same]
    exact tree
  exact ⟨e', member, bare, unfolds, fun t other => unfolds.unique other⟩

end Forest

theorem sharedBar_unfolds :
    let g := (sharedBar.hoist "WirebindC" ⟨["bar", "baz"]⟩).1
    ∃ e', g.member? "baz" true = some e' ∧
      g.arena.Unfolds (g.calledPlan? 3) e'.result.id (sharedBar.arena.tree 2) := by
  obtain ⟨-, -, members⟩ := Forest.unfolds_hoist sharedBar "WirebindC" ⟨["bar", "baz"]⟩
    sharedBar_before sharedBar_built (by decide) (by decide)
  obtain ⟨e', member, -, unfolds, -⟩ :=
    members _ (List.mem_of_getElem? (show sharedBar.entries[1]? = some _ from rfl))
  exact ⟨e', member, unfolds⟩

end Injector
