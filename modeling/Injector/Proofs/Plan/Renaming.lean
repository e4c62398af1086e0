/-
# Injector.Proofs.Plan.Renaming -- trees without the names of lambda parameters

A supply hands out the names of lambda parameters, so two plans of one value can differ
in them.  `PlanTree.nameless` leaves them out: a reference to a parameter counts the
parameters in scope between it and the lambda.  Trees are the same up to a renaming of
lambda parameters when they are equal without these names.

What is free in a plan does not depend on the names of parameters either, if parameters
and variables have names of different kinds (`Arena.Named`): two plans with one nameless
tree are both closed or both open (`isClosed_of_nameless_eq`).
-/
import Injector.Proofs.Plan.Scopes
import Injector.Proofs.Plan.Trees
import Injector.Proofs.NameSupply

namespace Injector

set_option autoImplicit false

/-- What stands for the name of the parameter at a position of the scope. -/
def positional (n : Nat) : String := NameSupply.pad "" n

theorem positional_injective : Function.Injective positional := NameSupply.pad_injective ""

namespace Plan

/-- A reference to a parameter in scope, the innermost first. -/
def position (scope : List String) (name : String) : String :=
  match scope.idxOf? name with
  | some n => positional n
  | none => name

/-- The step without the names of lambda parameters. -/
def nameless (scope : List String) : Plan → Plan
  | arg name => arg (position scope name)
  | function params result => function (params.map fun _ => "") result
  | namedFunction package name lambdaParams receiver params =>
    namedFunction package name (lambdaParams.map fun _ => "") receiver params
  | p => p

end Plan

namespace PlanTree

mutual

/-- The tree without the names of lambda parameters. -/
def nameless (scope : List String) : PlanTree → PlanTree
  | .node step needs =>
    .node (step.nameless scope) (namelessAll (step.lambdaParams.reverse ++ scope) needs)

def namelessAll (scope : List String) : List PlanTree → List PlanTree
  | [] => []
  | t :: rest => nameless scope t :: namelessAll scope rest

end

theorem namelessAll_eq_map (scope : List String) (trees : List PlanTree) :
    namelessAll scope trees = trees.map (nameless scope) := by
  induction trees with
  | nil => rfl
  | cons t rest ih => rw [namelessAll, ih, List.map_cons]

/-- The first step. -/
def step : PlanTree → Plan
  | .node step _ => step

end PlanTree

namespace Plan

variable {p q : Plan} {scope scope' : List String} {name : String}

theorem lambdaParams_shape (p : Plan) : p.shape.lambdaParams = p.lambdaParams := by
  cases p <;> rfl

/-- Steps that are the same without the names of parameters have equally many. -/
theorem length_lambdaParams_of_nameless_eq
    (same : p.shape.nameless scope = q.shape.nameless scope') :
    p.lambdaParams.length = q.lambdaParams.length := by
  have blank (r : Plan) (scope : List String) :
      (r.shape.nameless scope).lambdaParams.length = r.lambdaParams.length := by
    cases r <;> simp [shape, mapSlots, nameless, lambdaParams]
  rw [← blank p scope, same, blank q scope']

theorem declared?_eq_of_nameless_eq
    (same : p.shape.nameless scope = q.shape.nameless scope') : p.declared? = q.declared? := by
  have kept (r : Plan) (scope : List String) :
      (r.shape.nameless scope).declared? = r.declared? := by
    cases r <;> rfl
  rw [← kept p scope, same, kept q scope']

theorem eq_localVar_of_nameless_eq (same : (localVar name).shape.nameless scope =
    q.shape.nameless scope') : q = .localVar name := by
  cases q <;> simp_all [shape, mapSlots, nameless]

theorem eq_arg_of_nameless_eq (same : (arg name).shape.nameless scope = q.shape.nameless scope') :
    ∃ other, q = .arg other ∧ position scope name = position scope' other := by
  cases q <;> simp [shape, mapSlots, nameless] at same
  exact ⟨_, rfl, same⟩

end Plan

theorem idxOf?_append_of_notMem {names scope : List String} {name : String} (new : name ∉ names) :
    (names ++ scope).idxOf? name = (scope.idxOf? name).map (· + names.length) := by
  have none : names.idxOf? name = none := List.idxOf?_eq_none_iff.mpr new
  rw [List.idxOf?] at none ⊢
  rw [List.findIdx?_append, none, Option.none_or]

/-- What is found behind the names of an inner scope is not among these. -/
theorem idxOf?_of_append {names scope : List String} {name : String} {n : Nat}
    (found : (names ++ scope).idxOf? name = some (n + names.length)) :
    name ∉ names ∧ scope.idxOf? name = some n := by
  have new : name ∉ names := by
    intro mem
    cases first : names.idxOf? name with
    | none => exact List.idxOf?_eq_none_iff.mp first mem
    | some k =>
        have near : k < names.length := (List.idxOf?_eq_some_iff.mp first).1
        rw [List.idxOf?] at first found
        rw [List.findIdx?_append, first, Option.some_or, Option.some.injEq] at found
        omega
  refine ⟨new, ?_⟩
  rw [idxOf?_append_of_notMem new, Option.map_eq_some_iff] at found
  obtain ⟨k, found, same⟩ := found
  rwa [show k = n by omega] at found

namespace Arena

/-- The tree of the plan `id` without the names of lambda parameters. -/
def nameless (a : Arena) (scope : List String) (id : PlanId) : PlanTree :=
  (a.tree id).nameless scope

/-- Lambdas and references to their parameters have names of the kind of parameters,
variables of cycles have other names. -/
def Named (param : String → Prop) (a : Arena) : Prop :=
  ∀ ⦃id : PlanId⦄ ⦃p : Plan⦄, a.plan? id = some p →
    (∀ name ∈ p.lambdaParams, param name) ∧ (∀ name, p = .arg name → param name) ∧
      ∀ name, p = .localVar name ∨ p.declared? = some name → ¬param name

variable {a b : Arena} {id id' : PlanId} {p q : Plan} {scope scope' : List String}
  {param : String → Prop}

theorem nameless_eq (sound : a.Sound) (found : a.plan? id = some p) :
    a.nameless scope id = .node (p.shape.nameless scope)
      (p.children.map fun c => a.nameless (p.lambdaParams.reverse ++ scope) c.id) := by
  rw [nameless, tree_eq found (sound.before found), PlanTree.nameless,
    PlanTree.namelessAll_eq_map, Plan.lambdaParams_shape, List.map_map]
  rfl

theorem Within.nameless_eq (within : a.Within b) (sound : a.Sound) (known : id < a.size) :
    b.nameless scope id = a.nameless scope id := by
  rw [nameless, nameless, within.tree_eq sound.before known]

/-- The nameless tree of a plan that is added. -/
theorem nameless_alloc (sound : a.Sound) (known : ∀ c ∈ p.children, c.id < a.size) :
    (a.alloc p).2.nameless scope a.size = .node (p.shape.nameless scope)
      (p.children.map fun c => a.nameless (p.lambdaParams.reverse ++ scope) c.id) := by
  have found : (a.alloc p).2.plan? a.size = some p := plan?_alloc_self a p
  rw [Arena.nameless_eq (sound.alloc known) found]
  congr 1
  refine List.map_congr_left fun c child => ?_
  exact (Within.alloc a p).nameless_eq sound (known c child)

theorem Named.alloc (named : a.Named param) (params : ∀ name ∈ p.lambdaParams, param name)
    (arg : ∀ name, p = .arg name → param name)
    (other : ∀ name, p = .localVar name ∨ p.declared? = some name → ¬param name) :
    (a.alloc p).2.Named param := by
  intro id q found
  rcases plan?_alloc_cases found with old | ⟨-, rfl⟩
  · exact named old
  · exact ⟨params, arg, other⟩

/-- Free names of parameters are in scope. -/
def InScope (param : String → Prop) (a : Arena) (scope : List String) (id : PlanId) : Prop :=
  ∀ name ∈ a.freeNames id, param name → name ∈ scope

theorem Named.binders_of_param (named : a.Named param) (found : a.plan? id = some p)
    {name : String} (kind : param name) : name ∈ p.binders ↔ name ∈ p.lambdaParams := by
  rw [Plan.mem_binders]
  refine ⟨fun binds => binds.resolve_left fun declares => ?_, .inr⟩
  exact (named found).2.2 name (.inr declares) kind

theorem Named.binders_of_not_param (named : a.Named param) (found : a.plan? id = some p)
    {name : String} (kind : ¬param name) : name ∈ p.binders ↔ p.declared? = some name := by
  rw [Plan.mem_binders]
  refine ⟨fun binds => binds.resolve_right fun introduces => ?_, .inl⟩
  exact kind ((named found).1 name introduces)

theorem InScope.child (inScope : a.InScope param scope id) (sound : a.Sound)
    (named : a.Named param) (found : a.plan? id = some p) {c : Slot} (child : c ∈ p.children) :
    a.InScope param (p.lambdaParams.reverse ++ scope) c.id := by
  intro name free kind
  by_cases bound : name ∈ p.lambdaParams
  · exact List.mem_append_left _ (List.mem_reverse.mpr bound)
  · refine List.mem_append_right _ (inScope name ?_ kind)
    rw [sound.free found, mem_freeIn, named.binders_of_param found kind]
    exact ⟨.inr ⟨c, child, free⟩, bound⟩

/-- Plans with one nameless tree have the same variables free in them, and parameters at
the same positions. -/
theorem free_of_nameless_eq (sound : a.Sound) (named : a.Named param) (sound' : b.Sound)
    (named' : b.Named param) (kinds : ∀ name ∈ scope, param name)
    (kinds' : ∀ name ∈ scope', param name) (known : id < a.size) (known' : id' < b.size)
    (inScope : b.InScope param scope' id')
    (same : a.nameless scope id = b.nameless scope' id') :
    (∀ name ∈ a.freeNames id, ¬param name → name ∈ b.freeNames id') ∧
      ∀ n, ∀ name ∈ a.freeNames id, scope.idxOf? name = some n →
        ∃ other ∈ b.freeNames id', scope'.idxOf? other = some n := by
  induction id using Nat.strongRecOn generalizing id' scope scope' with
  | _ id ih =>
      obtain ⟨p, found⟩ := exists_plan? known
      obtain ⟨q, found'⟩ := exists_plan? known'
      rw [Arena.nameless_eq sound found, Arena.nameless_eq sound' found'] at same
      injection same with step below
      have lengths := Plan.length_lambdaParams_of_nameless_eq step
      have declares := Plan.declared?_eq_of_nameless_eq step
      -- Each value that the first plan needs goes with one that the second plan needs.
      have pair : ∀ c ∈ p.children, ∃ d ∈ q.children,
          (∀ name ∈ a.freeNames c.id, ¬param name → name ∈ b.freeNames d.id) ∧
            ∀ n, ∀ name ∈ a.freeNames c.id,
              (p.lambdaParams.reverse ++ scope).idxOf? name = some n →
                ∃ other ∈ b.freeNames d.id,
                  (q.lambdaParams.reverse ++ scope').idxOf? other = some n := by
        intro c child
        have here : a.nameless (p.lambdaParams.reverse ++ scope) c.id ∈
            q.children.map fun d => b.nameless (q.lambdaParams.reverse ++ scope') d.id := by
          rw [← below]
          exact List.mem_map.mpr ⟨c, child, rfl⟩
        obtain ⟨d, child', same⟩ := List.mem_map.mp here
        have before := sound.before found c child
        have before' := sound'.before found' d child'
        refine ⟨d, child', ih c.id before ?_ ?_ (Nat.lt_trans before known)
          (Nat.lt_trans before' known')
          (inScope.child sound' named' found' child') same.symm⟩
        · intro name mem
          rcases List.mem_append.mp mem with mem | mem
          · exact (named found).1 name (List.mem_reverse.mp mem)
          · exact kinds name mem
        · intro name mem
          rcases List.mem_append.mp mem with mem | mem
          · exact (named' found').1 name (List.mem_reverse.mp mem)
          · exact kinds' name mem
      constructor
      · intro name free kind
        rw [sound.free found, mem_freeIn, named.binders_of_not_param found kind] at free
        rw [sound'.free found', mem_freeIn, named'.binders_of_not_param found' kind, ← declares]
        refine ⟨?_, free.2⟩
        rcases free.1 with refers | ⟨c, child, free⟩
        · rcases Plan.reference?_eq_some.mp refers with rfl | rfl
          · rw [Plan.eq_localVar_of_nameless_eq step]
            exact .inl rfl
          · exact absurd ((named found).2.1 name rfl) kind
        · obtain ⟨d, child', free', -⟩ := pair c child
          exact .inr ⟨d, child', free' name free kind⟩
      · intro n name free position
        have kind : param name := kinds name (List.isSome_idxOf?.mp (by rw [position]; rfl))
        rw [sound.free found, mem_freeIn, named.binders_of_param found kind] at free
        rcases free.1 with refers | ⟨c, child, inside⟩
        · rcases Plan.reference?_eq_some.mp refers with rfl | rfl
          · exact absurd kind ((named found).2.2 name (.inl rfl))
          · obtain ⟨other, rfl, at'⟩ := Plan.eq_arg_of_nameless_eq step
            have here : other ∈ b.freeNames id' := by
              rw [sound'.free found', mem_freeIn]
              exact ⟨.inl rfl, by simp [Plan.binders]⟩
            refine ⟨other, here, ?_⟩
            have mem := inScope other here ((named' found').2.1 other rfl)
            cases place : scope'.idxOf? other with
            | none => exact absurd mem (List.idxOf?_eq_none_iff.mp place)
            | some k =>
                rw [Plan.position, Plan.position, position, place] at at'
                rw [positional_injective at']
        · obtain ⟨d, child', -, pairs⟩ := pair c child
          have new : name ∉ p.lambdaParams.reverse := by simpa using free.2
          obtain ⟨other, free', place⟩ := pairs (n + p.lambdaParams.reverse.length) name inside
            (by rw [idxOf?_append_of_notMem new, position, Option.map_some])
          rw [List.length_reverse, lengths, ← List.length_reverse] at place
          obtain ⟨new', place⟩ := idxOf?_of_append place
          have kind' : param other := kinds' other (List.isSome_idxOf?.mp (by rw [place]; rfl))
          refine ⟨other, ?_, place⟩
          rw [sound'.free found', mem_freeIn, named'.binders_of_param found' kind']
          exact ⟨.inr ⟨d, child', free'⟩, by simpa using new'⟩

/-- A plan is closed if one with the same nameless tree is. -/
theorem isClosed_of_nameless_eq (sound : a.Sound) (named : a.Named param) (sound' : b.Sound)
    (named' : b.Named param) (kinds : ∀ name ∈ scope, param name)
    (kinds' : ∀ name ∈ scope', param name) (known : id < a.size) (known' : id' < b.size)
    (inScope : a.InScope param scope id) (inScope' : b.InScope param scope' id')
    (same : a.nameless scope id = b.nameless scope' id') (closed : b.isClosed id' = true) :
    a.isClosed id = true := by
  have none : b.freeNames id' = [] := by simpa [isClosed] using closed
  obtain ⟨cycles, params⟩ :=
    free_of_nameless_eq sound named sound' named' kinds kinds' known known' inScope' same
  rw [none] at cycles params
  simp only [isClosed, List.isEmpty_iff, List.eq_nil_iff_forall_not_mem]
  intro name free
  by_cases kind : param name
  · obtain ⟨n, place⟩ := Option.isSome_iff_exists.mp
      (List.isSome_idxOf?.mpr (inScope name free kind))
    obtain ⟨other, none, -⟩ := params n name free place
    cases none
  · exact absurd (cycles name free kind) List.not_mem_nil

/-- An outer scope does not matter to a plan in which no name of it is free. -/
theorem nameless_append (sound : a.Sound) (named : a.Named param) (known : id < a.size)
    {inner : List String}
    (clear : ∀ name ∈ a.freeNames id, param name → name ∈ inner ∨ name ∉ scope) :
    a.nameless (inner ++ scope) id = a.nameless inner id := by
  induction id using Nat.strongRecOn generalizing inner with
  | _ id ih =>
      obtain ⟨p, found⟩ := exists_plan? known
      rw [Arena.nameless_eq sound found, Arena.nameless_eq sound found]
      congr 1
      · cases p with
        | arg name =>
            have free : name ∈ a.freeNames id := by
              rw [sound.free found, mem_freeIn]
              exact ⟨.inl rfl, by simp [Plan.binders]⟩
            have same : (inner ++ scope).idxOf? name = inner.idxOf? name := by
              by_cases near : name ∈ inner
              · obtain ⟨n, place⟩ := Option.isSome_iff_exists.mp (List.isSome_idxOf?.mpr near)
                rw [List.idxOf?] at place ⊢
                rw [List.findIdx?_append, place, Option.some_or]
              · have far := (clear name free ((named found).2.1 name rfl)).resolve_left near
                rw [List.idxOf?_eq_none_iff.mpr near]
                exact List.idxOf?_eq_none_iff.mpr (by simp [near, far])
            simp only [Plan.shape, Plan.mapSlots, Plan.nameless, Plan.position, same]
        | _ => rfl
      · refine List.map_congr_left fun c child => ?_
        have before := sound.before found c child
        rw [← List.append_assoc]
        refine ih c.id before (Nat.lt_trans before known) fun name free kind => ?_
        by_cases bound : name ∈ p.lambdaParams
        · exact .inl (List.mem_append_left _ (List.mem_reverse.mpr bound))
        · have free : name ∈ a.freeNames id := by
            rw [sound.free found, mem_freeIn, named.binders_of_param found kind]
            exact ⟨.inr ⟨c, child, free⟩, bound⟩
          exact (clear name free kind).imp_left (List.mem_append_right _)

theorem nameless_of_isClosed (sound : a.Sound) (named : a.Named param) (known : id < a.size)
    (closed : a.isClosed id = true) (scope : List String) :
    a.nameless scope id = a.nameless [] id := by
  have none : a.freeNames id = [] := by simpa [isClosed] using closed
  have clear : ∀ name ∈ a.freeNames id, param name → name ∈ [] ∨ name ∉ scope := by
    rw [none]
    exact List.forall_mem_nil _
  exact nameless_append sound named known clear

end Arena

end Injector
