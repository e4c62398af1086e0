/-
# Injector.Proofs.Planner.Twins -- two states to plan one accessor from

An accessor may be planned from different states: with different plans kept and different
names taken.  Two states are `Twins` for the accessor when the same is under construction
and waited for in both, and when they keep plans of one nameless tree for the keys that
the accessor can come to, or none at all, except for calm keys; plans for these are copies
of blueprints wherever they come from.

Two steps are `Alike` when they lead from twins to twins and both fail, or both answer with
what is asked of the answers; they are `Pairs` when the answers are the same without the
names of lambda parameters.  What each of the two does for itself is known already
(`Injector.Proofs.Planner.Copying`), so it is left to compare them.
-/
import Injector.Proofs.Planner.Copying

namespace Injector

set_option autoImplicit false

open PlanM
open BuildStack (above?)
open LambdaParam (names types names_inside types_inside)
open Relation (ReflTransGen)

/-- What is passive is so under any names of parameters. -/
theorem Plan.isPassive_eq_of_nameless_eq {p q : Plan} {scope scope' : List String}
    (same : p.shape.nameless scope = q.shape.nameless scope') : p.isPassive = q.isPassive := by
  have blank (r : Plan) (scope : List String) :
      (r.shape.nameless scope).isPassive = r.isPassive := by
    cases r <;> rfl
  rw [← blank p scope, same, blank q scope']

/-- The answers are served below the lambda parameters around, and read as the same. -/
structure Matches {α β : Type} (around around' : List LambdaParam) (r : Reading α β)
    (a a' : Arena) (x x' : α) : Prop where
  left : ∀ id ∈ r.ids x, Serves around a id
  right : ∀ id ∈ r.ids x', Serves around' a' id
  same : r.read a (names around) x = r.read a' (names around') x'

namespace Matches

variable {α β : Type} {around around' : List LambdaParam} {r : Reading α β} {a a' b b' : Arena}

theorem mono {x x' : α} (both : Matches around around' r a a' x x') (sound : a.Sound)
    (sound' : a'.Sound) (within : a.Within b) (within' : a'.Within b') :
    Matches around around' r b b' x x' where
  left id mem := (both.left id mem).mono within
  right id mem := (both.right id mem).mono within'
  same := by
    rw [r.stable sound within fun id mem => (both.left id mem).known,
      r.stable sound' within' fun id mem => (both.right id mem).known]
    exact both.same

/-- Either there are no answers, or there are two. -/
theorem option_cases {x x' : Option α} (both : Matches around around' r.option a a' x x') :
    (x = none ∧ x' = none) ∨
      ∃ y y', x = some y ∧ x' = some y' ∧ Matches around around' r a a' y y' := by
  obtain ⟨left, right, same⟩ := both
  cases x with
  | none =>
      cases x' with
      | none => exact .inl ⟨rfl, rfl⟩
      | some y' => cases same
  | some y =>
      cases x' with
      | none => cases same
      | some y' => exact .inr ⟨y, y', rfl, rfl, left, right, Option.some.inj same⟩

theorem some' {x x' : α} (both : Matches around around' r a a' x x') :
    Matches around around' r.option a a' (some x) (some x') :=
  ⟨both.left, both.right, congrArg some both.same⟩

theorem none' : Matches around around' r.option a a' none none :=
  ⟨List.forall_mem_nil _, List.forall_mem_nil _, rfl⟩

theorem nil : Matches around around' r.list a a' [] [] :=
  ⟨List.forall_mem_nil _, List.forall_mem_nil _, rfl⟩

theorem cons {x x' : α} {xs xs' : List α} (first : Matches around around' r a a' x x')
    (rest : Matches around around' r.list a a' xs xs') :
    Matches around around' r.list a a' (x :: xs) (x' :: xs') where
  left id mem := (List.mem_append.mp mem).elim (first.left id) (rest.left id)
  right id mem := (List.mem_append.mp mem).elim (first.right id) (rest.right id)
  same := List.cons_eq_cons.mpr ⟨first.same, rest.same⟩

theorem row {x x' : α} (name : String) (both : Matches around around' r a a' x x') :
    Matches around around' r.row a a' (name, x) (name, x') :=
  ⟨both.left, both.right, congrArg (Prod.mk name) both.same⟩

end Matches

namespace Source

variable (src : Source) (catalog : Catalog) (className : String) (ms : List MemberId) (m : MemberId)

/-- For the keys that `m` comes to and that are not calm, plans of one tree are kept. -/
def SameKept (st st' : PlannerState) : Prop :=
  ∀ key, ReflTransGen (src.Next catalog) (src.accessorKey catalog m) key →
    ¬src.Calm catalog ms key →
      (st'.cache.get? key).map (st'.arena.nameless []) =
        (st.cache.get? key).map (st.arena.nameless [])

/-- Two states in which the accessor `m` is planned in the same way. -/
structure Twins (st st' : PlannerState) : Prop where
  left : src.Settled catalog className ms st
  right : src.Settled catalog className ms st'
  entries : st'.stack.entries = st.stack.entries
  pending : st'.stack.pending = st.stack.pending
  kept : src.SameKept catalog ms m st st'

/-- From twins, the two steps come to twins; both fail, or both answer, and `post` holds of
the answers. -/
def Alike {α β : Type} (st st' : PlannerState) (act : PlanM α) (act' : PlanM β)
    (post : α → β → PlannerState → PlannerState → Prop) : Prop :=
  src.Twins catalog className ms m st st' →
    src.Twins catalog className ms m (act.runFrom st).2 (act'.runFrom st').2 ∧
      src.Follows catalog ms False st (act.runFrom st).2 ∧
      src.Follows catalog ms False st' (act'.runFrom st').2 ∧
      ((∃ x x', (act.runFrom st).1 = .ok x ∧ (act'.runFrom st').1 = .ok x' ∧
          post x x' (act.runFrom st).2 (act'.runFrom st').2) ∨
        ∃ e e', (act.runFrom st).1 = .error e ∧ (act'.runFrom st').1 = .error e')

/-- The steps answer with values that are the same without the names of parameters. -/
def Pairs {α β : Type} (around around' : List LambdaParam) (r : Reading α β)
    (st st' : PlannerState) (act act' : PlanM α) : Prop :=
  src.Alike catalog className ms m st st' act act' fun x x' next next' =>
    Matches around around' r next.arena next'.arena x x'

/-- Two places of one request, below lambda parameters of the same types. -/
structure Paired (st st' : PlannerState) (site site' : Site) : Prop where
  left : site.Stands catalog className st
  right : site'.Stands catalog className st'
  types_eq : types site'.around = types site.around
  unwrapping_eq : site'.unwrapping = site.unwrapping

variable {src catalog className ms m} {st st' next next' : PlannerState} {site site' : Site}
  {around around' : List LambdaParam} {key : Key}

/-! ## States -/

/-- More plans do not matter, nor other rows for calm keys. -/
theorem SameKept.mono (same : src.SameKept catalog ms m st st')
    (settled : src.Settled catalog className ms st)
    (settled' : src.Settled catalog className ms st') (within : st.arena.Within next.arena)
    (within' : st'.arena.Within next'.arena)
    (rows : ∀ key, ¬src.Calm catalog ms key → next.cache.get? key = st.cache.get? key)
    (rows' : ∀ key, ¬src.Calm catalog ms key → next'.cache.get? key = st'.cache.get? key) :
    src.SameKept catalog ms m next next' := by
  intro key comes wild
  have stable {s t : PlannerState} (settled : src.Settled catalog className ms s)
      (within : s.arena.Within t.arena) :
      (s.cache.get? key).map (t.arena.nameless []) =
        (s.cache.get? key).map (s.arena.nameless []) := by
    cases found : s.cache.get? key with
    | none => rfl
    | some id =>
        rw [Option.map_some, Option.map_some,
          within.nameless_eq settled.sound (settled.kept found).known]
  rw [rows key wild, rows' key wild, stable settled within, stable settled' within']
  exact same key comes wild

theorem Twins.pendingFor (twins : src.Twins catalog className ms m st st') (key : Key) :
    st'.stack.pendingFor key = st.stack.pendingFor key := by
  rw [BuildStack.pendingFor, twins.pending, BuildStack.pendingFor]

theorem Twins.push (twins : src.Twins catalog className ms m st st') (entry : BuildEntry) :
    src.Twins catalog className ms m (st.push entry) (st'.push entry) where
  left := twins.left.of_eq rfl rfl rfl
  right := twins.right.of_eq rfl rfl rfl
  entries := congrArg (entry :: ·) twins.entries
  pending := twins.pending
  kept := twins.kept

namespace Paired

theorem mono (paired : Paired catalog className st st' site site')
    (follows : src.Follows catalog ms False st next)
    (follows' : src.Follows catalog ms False st' next') :
    Paired catalog className next next' site site' :=
  ⟨paired.left.mono follows.taken, paired.right.mono follows'.taken, paired.types_eq,
    paired.unwrapping_eq⟩

theorem push (paired : Paired catalog className st st' site site') (entry : BuildEntry) :
    Paired catalog className (st.push entry) (st'.push entry) site site' :=
  ⟨paired.left.mono fun _ mem => mem, paired.right.mono fun _ mem => mem, paired.types_eq,
    paired.unwrapping_eq⟩

theorem unwrap (paired : Paired catalog className st st' site site') (key : Key) :
    Paired catalog className st st' (site.unwrap key) (site'.unwrap key) :=
  ⟨paired.left.unwrap key, paired.right.unwrap key, paired.types_eq, rfl⟩

theorem isUnwrapping_eq (paired : Paired catalog className st st' site site') (key : Key) :
    site'.isUnwrapping key = site.isUnwrapping key := by
  rw [Site.isUnwrapping, paired.unwrapping_eq, Site.isUnwrapping]

end Paired

/-! ## Steps put together -/

namespace Alike

variable {α β γ δ : Type} {act : PlanM α} {act' : PlanM β}
  {post : α → β → PlannerState → PlannerState → Prop}

theorem of_ok {x : α} {x' : β} (run : act.runFrom st = (.ok x, next))
    (run' : act'.runFrom st' = (.ok x', next'))
    (step : src.Twins catalog className ms m st st' →
      src.Twins catalog className ms m next next' ∧ src.Follows catalog ms False st next ∧
        src.Follows catalog ms False st' next' ∧ post x x' next next') :
    src.Alike catalog className ms m st st' act act' post := by
  intro twins
  obtain ⟨twins', le, le', holds⟩ := step twins
  rw [run, run']
  exact ⟨twins', le, le', .inl ⟨x, x', rfl, rfl, holds⟩⟩

theorem pure {x : α} {x' : β} (holds : post x x' st st') :
    src.Alike catalog className ms m st st' (Pure.pure x) (Pure.pure x') post :=
  of_ok (runFrom_pure x st) (runFrom_pure x' st') fun twins =>
    ⟨twins, (src.copying catalog className ms False).refl st,
      (src.copying catalog className ms False).refl st', holds⟩

/-- Both steps fail, and leave everything as it is. -/
theorem of_error {e e' : PlanError} (run : act.runFrom st = (.error e, st))
    (run' : act'.runFrom st' = (.error e', st')) :
    src.Alike catalog className ms m st st' act act' post := by
  intro twins
  rw [run, run']
  exact ⟨twins, (src.copying catalog className ms False).refl st,
    (src.copying catalog className ms False).refl st', .inr ⟨e, e', rfl, rfl⟩⟩

theorem throw {e e' : PlanError} :
    src.Alike catalog className ms m st st' (MonadExcept.throw e : PlanM α)
      (MonadExcept.throw e' : PlanM β) post :=
  of_error (runFrom_throw e st) (runFrom_throw e' st')

theorem failTraced {error error' : List Element → PlanError} :
    src.Alike catalog className ms m st st' (PlanM.failTraced error : PlanM α)
      (PlanM.failTraced error' : PlanM β) post :=
  of_error (runFrom_failTraced error st) (runFrom_failTraced error' st')

theorem bind {f : α → PlanM γ} {f' : β → PlanM δ}
    {then' : γ → δ → PlannerState → PlannerState → Prop}
    (first : src.Alike catalog className ms m st st' act act' post)
    (rest : ∀ x x' next next', src.Twins catalog className ms m next next' →
      src.Follows catalog ms False st next → src.Follows catalog ms False st' next' →
      post x x' next next' → src.Alike catalog className ms m next next' (f x) (f' x') then') :
    src.Alike catalog className ms m st st' (act >>= f) (act' >>= f') then' := by
  intro twins
  obtain ⟨twins', le, le', outcome⟩ := first twins
  rw [runFrom_bind, runFrom_bind]
  generalize act.runFrom st = one at twins' le outcome
  generalize act'.runFrom st' = two at twins' le' outcome
  obtain ⟨result, next⟩ := one
  obtain ⟨result', next'⟩ := two
  rcases outcome with ⟨x, x', rfl, rfl, holds⟩ | ⟨e, e', rfl, rfl⟩
  · obtain ⟨last, le₁, le₂, outcome⟩ := rest x x' next next' twins' le le' holds twins'
    exact ⟨last, (src.copying catalog className ms False).trans le le₁,
      (src.copying catalog className ms False).trans le' le₂, outcome⟩
  · exact ⟨twins', le, le', .inr ⟨e, e', rfl, rfl⟩⟩

theorem mono {weaker : α → β → PlannerState → PlannerState → Prop}
    (alike : src.Alike catalog className ms m st st' act act' post)
    (weaken : ∀ x x' next next', src.Follows catalog ms False st next →
      src.Follows catalog ms False st' next' → post x x' next next' → weaker x x' next next') :
    src.Alike catalog className ms m st st' act act' weaker := by
  intro twins
  obtain ⟨twins', le, le', outcome⟩ := alike twins
  refine ⟨twins', le, le', outcome.imp_left ?_⟩
  rintro ⟨x, x', run, run', holds⟩
  exact ⟨x, x', run, run', weaken x x' _ _ le le' holds⟩

/-- That the states are twins may be used. -/
theorem of_twins (step : src.Twins catalog className ms m st st' →
    src.Alike catalog className ms m st st' act act' post) :
    src.Alike catalog className ms m st st' act act' post :=
  fun twins => step twins twins

/-- Only what the steps do matters. -/
theorem congr {other : PlanM α} {other' : PlanM β} (run : act.runFrom st = other.runFrom st)
    (run' : act'.runFrom st' = other'.runFrom st')
    (alike : src.Alike catalog className ms m st st' other other' post) :
    src.Alike catalog className ms m st st' act act' post := by
  rw [Alike, run, run']
  exact alike

/-- Two steps that each copy blueprints for themselves are compared by what they answer, by
what they leave pending and by what they keep. -/
theorem of_meets {x : α} {x' : β} {one : α → PlannerState → Prop} {two : β → PlannerState → Prop}
    {fail fail' : PlanError → Prop} (run : act.runFrom st = (.ok x, next))
    (run' : act'.runFrom st' = (.ok x', next'))
    (left : Meets (src.copying catalog className ms False) st act one fail)
    (right : Meets (src.copying catalog className ms False) st' act' two fail')
    (step : src.Twins catalog className ms m st st' → src.Settled catalog className ms next →
      src.Settled catalog className ms next' → one x next → two x' next' →
      next'.stack.pending = next.stack.pending ∧ src.SameKept catalog ms m next next' ∧
        post x x' next next') :
    src.Alike catalog className ms m st st' act act' post := by
  refine of_ok run run' fun twins => ?_
  obtain ⟨settled, follows, holds⟩ := left.1 twins.left
  obtain ⟨settled', follows', holds'⟩ := right.1 twins.right
  rw [run] at settled follows holds
  rw [run'] at settled' follows' holds'
  obtain ⟨pending, kept, both⟩ := step twins settled settled' (holds x rfl) (holds' x' rfl)
  have entries : next'.stack.entries = next.stack.entries :=
    follows'.entries.trans (twins.entries.trans follows.entries.symm)
  exact ⟨⟨settled, settled', entries, pending, kept⟩, follows, follows', both⟩

/-- Quiet steps that cannot come to different outcomes are alike. -/
theorem of_quiet {one : α → PlannerState → Prop} {two : β → PlannerState → Prop}
    {fail fail' : PlanError → Prop}
    (left : Meets (src.copying catalog className ms True) st act one fail)
    (right : Meets (src.copying catalog className ms True) st' act' two fail')
    (both : ∀ x x' next next', one x next → two x' next' → post x x' next next')
    (fails : ∀ x next e, one x next → ¬fail' e) (fails' : ∀ x next e, two x next → ¬fail e) :
    src.Alike catalog className ms m st st' act act' post := by
  intro twins
  obtain ⟨settled, follows, holds⟩ := left.1 twins.left
  obtain ⟨settled', follows', holds'⟩ := right.1 twins.right
  have failing := left.2 twins.left
  have failing' := right.2 twins.right
  have calmer {s t : PlannerState} (follows : src.Follows catalog ms True s t) :
      src.Follows catalog ms False s t :=
    { follows with pending := False.elim, kept := False.elim }
  have twins' : src.Twins catalog className ms m (act.runFrom st).2 (act'.runFrom st').2 := {
    left := settled
    right := settled'
    entries := by rw [follows.entries, follows'.entries, twins.entries]
    pending := by rw [follows.pending trivial, follows'.pending trivial, twins.pending]
    kept := twins.kept.mono twins.left twins.right follows.within follows'.within
      (follows.kept trivial) (follows'.kept trivial) }
  refine ⟨twins', calmer follows, calmer follows', ?_⟩
  cases result : (act.runFrom st).1 with
  | ok x =>
      cases result' : (act'.runFrom st').1 with
      | ok x' => exact .inl ⟨x, x', rfl, rfl, both x x' _ _ (holds x result) (holds' x' result')⟩
      | error e' => exact absurd (failing' e' result') (fails x _ e' (holds x result))
  | error e =>
      cases result' : (act'.runFrom st').1 with
      | ok x' => exact absurd (failing e result) (fails' x' _ e (holds' x' result'))
      | error e' => exact .inr ⟨e, e', rfl, rfl⟩

end Alike

/-! ## Plans -/

theorem alike_report (findings findings' : List Finding) :
    src.Alike catalog className ms m st st' (report findings) (report findings')
      fun _ _ next next' => next.arena = st.arena ∧ next'.arena = st'.arena :=
  .of_quiet (copies_report findings fun _ => False) (copies_report findings' fun _ => False)
    (fun _ _ _ _ same same' => ⟨same, same'⟩) (fun _ _ _ _ none => none) fun _ _ _ _ none => none

/-- Plans that are added match if the steps and what they need are the same. -/
theorem pairs_alloc {p p' blank blank' : Plan} {lambda lambda' : List LambdaParam}
    {needs needs' : List Slot} (composes : p.Composes lambda needs blank)
    (composes' : p'.Composes lambda' needs' blank')
    (new : ∀ name ∈ names lambda, name ∉ names around ∧ IsParamName name)
    (new' : ∀ name ∈ names lambda', name ∉ names around' ∧ IsParamName name)
    (serves : ∀ c ∈ needs, Serves (lambda.reverse ++ around) st.arena c.id)
    (serves' : ∀ c ∈ needs', Serves (lambda'.reverse ++ around') st'.arena c.id)
    (same : PlanTree.node blank
        (needs.map fun c => st.arena.nameless (names (lambda.reverse ++ around)) c.id) =
      PlanTree.node blank'
        (needs'.map fun c => st'.arena.nameless (names (lambda'.reverse ++ around')) c.id)) :
    src.Pairs catalog className ms m around around' .plan st st' (alloc p) (alloc p') := by
  have one : src.Mirrors catalog className ms False around st .plan (alloc p) fun _ => none :=
    mirrors_alloc composes new serves False.elim
  have two : src.Mirrors catalog className ms False around' st' .plan (alloc p') fun _ => none :=
    mirrors_alloc composes' new' serves' False.elim
  refine .of_meets (runFrom_alloc p st) (runFrom_alloc p' st') one two
    fun twins _ _ told told' => ⟨twins.pending, ?_, told.serves, told'.serves, ?_⟩
  · exact twins.kept.mono twins.left twins.right (.alloc _ p) (.alloc _ p') (fun _ _ => rfl)
      fun _ _ => rfl
  · have known : ∀ c ∈ needs, c.id < st.arena.size := fun c child => (serves c child).known
    have known' : ∀ c ∈ needs', c.id < st'.arena.size := fun c child => (serves' c child).known
    exact (composes.nameless_alloc twins.left.sound known around).trans
      (same.trans (composes'.nameless_alloc twins.right.sound known' around').symm)

/-- Calls that are added match if their receivers and their arguments do. -/
theorem pairs_alloc_call {p p' : Plan} {lambda lambda' : List LambdaParam}
    {receiver receiver' : Option Slot} {args args' : Table String Slot}
    {blank : Option Slot → Table String Slot → Plan} (calls : p.Calls lambda receiver args blank)
    (calls' : p'.Calls lambda' receiver' args' blank)
    (new : ∀ name ∈ names lambda, name ∉ names around ∧ IsParamName name)
    (new' : ∀ name ∈ names lambda', name ∉ names around' ∧ IsParamName name)
    (received : Matches (lambda.reverse ++ around) (lambda'.reverse ++ around')
      Reading.slot.option st.arena st'.arena receiver receiver')
    (passed : Matches (lambda.reverse ++ around) (lambda'.reverse ++ around')
      Reading.slot.row.list st.arena st'.arena args.rows args'.rows) :
    src.Pairs catalog className ms m around around' .plan st st' (alloc p) (alloc p') := by
  refine pairs_alloc calls calls' new new' (serves_call received.left passed.left)
    (serves_call received.right passed.right) ?_
  rw [← PlanTree.call_read, ← PlanTree.call_read, received.same, passed.same]

/-- Plans around one value match if the values do. -/
theorem pairs_alloc_around {p p' : Plan} {lambda lambda' : List LambdaParam} {slot slot' : Slot}
    {blank : Slot → Plan} (surrounds : p.Surrounds lambda slot blank)
    (surrounds' : p'.Surrounds lambda' slot' blank)
    (new : ∀ name ∈ names lambda, name ∉ names around ∧ IsParamName name)
    (new' : ∀ name ∈ names lambda', name ∉ names around' ∧ IsParamName name)
    (both : Matches (lambda.reverse ++ around) (lambda'.reverse ++ around') .slot st.arena
      st'.arena slot slot') :
    src.Pairs catalog className ms m around around' .plan st st' (alloc p) (alloc p') :=
  pairs_alloc surrounds surrounds' new new'
    (fun c child => both.left c.id (List.mem_map_of_mem child))
    (fun c child => both.right c.id (List.mem_map_of_mem child))
    (congrArg (PlanTree.around · blank) both.same)

/-- The same cycle is closed around plans that match. -/
theorem pairs_closeCycle {id id' : PlanId} (tidy : src.Tidy catalog ms) (k : Key)
    (both : Matches around around' .plan st.arena st'.arena id id') :
    src.Pairs catalog className ms m around around' .plan st st' (closeCycle k id)
      (closeCycle k id') := by
  refine .of_twins fun twins => ?_
  have known := (both.left id (List.mem_singleton_self _)).known
  have known' := (both.right id' (List.mem_singleton_self _)).known
  obtain ⟨p, found⟩ := Arena.exists_plan? known
  obtain ⟨p', found'⟩ := Arena.exists_plan? known'
  have tree : st.arena.nameless (names around) id = st'.arena.nameless (names around') id' :=
    both.same
  have passive : p.isPassive = p'.isPassive := by
    rw [Arena.nameless_eq twins.left.sound found, Arena.nameless_eq twins.right.sound found']
      at tree
    injection tree with step
    exact Plan.isPassive_eq_of_nameless_eq step
  have unchanged : src.Alike catalog className ms m st st' (Pure.pure id : PlanM PlanId)
      (Pure.pure id' : PlanM PlanId) fun x x' next next' =>
        Matches around around' .plan next.arena next'.arena x x' := .pure both
  cases here : p.isPassive with
  | true =>
      rw [here] at passive
      exact .congr (runFrom_closeCycle_passive k found here)
        (runFrom_closeCycle_passive k found' passive.symm) unchanged
  | false =>
      rw [here] at passive
      have run := runFrom_closeCycle_active k found here
      have run' := runFrom_closeCycle_active k found' passive.symm
      rw [twins.pendingFor k] at run'
      cases waiting : st.stack.pendingFor k with
      | none =>
          rw [waiting] at run run'
          exact .congr run run' unchanged
      | some q =>
          rw [waiting] at run run'
          have one : src.Mirrors catalog className ms False around st .plan (closeCycle k id)
              fun _ => none := mirrors_closeCycle tidy False.elim ⟨both.left, False.elim⟩
          have two : src.Mirrors catalog className ms False around' st' .plan (closeCycle k id')
              fun _ => none := mirrors_closeCycle tidy False.elim ⟨both.right, False.elim⟩
          refine .of_meets run run' one two fun _ _ _ told told' =>
            ⟨?_, ?_, told.serves, told'.serves, ?_⟩
          · show st'.stack.pending.eraseP _ = st.stack.pending.eraseP _
            rw [twins.pending]
          · exact twins.kept.mono twins.left twins.right (.alloc _ _) (.alloc _ _)
              (fun _ _ => rfl) fun _ _ => rfl
          · have closes {s : PlannerState} (sound : s.arena.Sound) {i : PlanId}
                (known : i < s.arena.size) (scope : List String) :
                (s.arena.alloc (.lateInit q.name ⟨k, i⟩)).2.nameless scope s.arena.size =
                  .node (.lateInit q.name ⟨k, 0⟩) [s.arena.nameless scope i] := by
              rw [Arena.nameless_alloc sound]
              · rfl
              · intro c child
                obtain rfl := List.mem_singleton.mp child
                exact known
            show (st.arena.alloc _).2.nameless _ _ = (st'.arena.alloc _).2.nameless _ _
            rw [closes twins.left.sound known, closes twins.right.sound known', tree]

/-- Plans that match are kept for a key in both states, or in none. -/
theorem alike_remember {id id' : PlanId} (accessor : m ∈ ms)
    (comes : ReflTransGen (src.Next catalog) (src.accessorKey catalog m) key)
    (wild : ¬src.Calm catalog ms key) (kinds : ∀ name ∈ names around, IsParamName name)
    (kinds' : ∀ name ∈ names around', IsParamName name)
    (both : Matches around around' .plan st.arena st'.arena id id') :
    src.Alike catalog className ms m st st' (remember key id) (remember key id')
      fun _ _ next next' => next.arena = st.arena ∧ next'.arena = st'.arena := by
  refine .of_twins fun twins => ?_
  obtain ⟨known, inScope⟩ := both.left id (List.mem_singleton_self _)
  obtain ⟨known', inScope'⟩ := both.right id' (List.mem_singleton_self _)
  have tree : st.arena.nameless (names around) id = st'.arena.nameless (names around') id' :=
    both.same
  have keeps {s : PlannerState} {i : PlanId} (known : i < s.arena.size) :
      Meets (src.copying catalog className ms False) s (remember key i)
        (fun _ next => next.arena = s.arena) fun _ => False :=
    copies_remember False.elim
      (fun closed => ⟨⟨m, accessor, comes⟩, known, closed, fun calm => absurd calm wild⟩) _
  have closed : st'.arena.isClosed id' = st.arena.isClosed id := by
    refine Bool.eq_iff_iff.mpr ⟨fun closed => ?_, fun closed => ?_⟩
    · exact Arena.isClosed_of_nameless_eq twins.left.sound twins.left.named twins.right.sound
        twins.right.named kinds kinds' known known' inScope inScope' tree closed
    · exact Arena.isClosed_of_nameless_eq twins.right.sound twins.right.named twins.left.sound
        twins.left.named kinds' kinds known' known inScope' inScope tree.symm closed
  refine .of_meets (runFrom_remember key id st) (runFrom_remember key id' st') (keeps known)
    (keeps known') fun _ _ _ same same' => ⟨?_, ?_, same, same'⟩
  · rw [closed]
    split <;> exact twins.pending
  rw [closed]
  split
  · rename_i closed'
    -- Without a scope, the plans are still the same, since they are closed.
    have tree : st'.arena.nameless [] id' = st.arena.nameless [] id := by
      rw [← Arena.nameless_of_isClosed twins.left.sound twins.left.named known closed',
        ← Arena.nameless_of_isClosed twins.right.sound twins.right.named known'
          (closed.trans closed')]
      exact tree.symm
    intro other comes wild
    simp only [Table.get?_insertNew, Option.map_or, twins.kept other comes wild]
    split
    · rw [Option.map_some, Option.map_some, tree]
    · rfl
  · exact twins.kept

/-! ## Steps on the stack -/

/-- The step, with the entry on the stack. -/
def pushing {α : Type} (entry : BuildEntry) (act : PlanM α) : PlanM α :=
  ExceptT.mk fun st =>
    ((act.runFrom (st.push entry)).1, (act.runFrom (st.push entry)).2.popTo st.stack.height)

theorem runFrom_pushing {α : Type} (entry : BuildEntry) (act : PlanM α) (st : PlannerState) :
    (pushing entry act).runFrom st = ((act.runFrom (st.push entry)).1,
      (act.runFrom (st.push entry)).2.popTo st.stack.height) := rfl

theorem alike_pushing {α β : Type} {entry : BuildEntry} {act : PlanM α} {act' : PlanM β}
    {post : α → β → PlannerState → PlannerState → Prop}
    (stable : ∀ x x' mid mid' height height', post x x' mid mid' →
      post x x' (mid.popTo height) (mid'.popTo height'))
    (inside : src.Alike catalog className ms m (st.push entry) (st'.push entry) act act' post) :
    src.Alike catalog className ms m st st' (pushing entry act) (pushing entry act') post := by
  intro twins
  obtain ⟨twins', le, le', outcome⟩ := inside (twins.push entry)
  have popped : ((act'.runFrom (st'.push entry)).2.popTo st'.stack.height).stack.entries =
      ((act.runFrom (st.push entry)).2.popTo st.stack.height).stack.entries := by
    rw [le.popTo.entries, le'.popTo.entries, twins.entries]
  rw [runFrom_pushing, runFrom_pushing]
  refine ⟨⟨twins'.left.of_eq rfl rfl rfl, twins'.right.of_eq rfl rfl rfl, popped, twins'.pending,
    twins'.kept⟩, le.popTo, le'.popTo, outcome.imp_left ?_⟩
  rintro ⟨x, x', run, run', holds⟩
  exact ⟨x, x', run, run', stable x x' _ _ _ _ holds⟩

theorem alike_deferred {α β : Type} {act : PlanM α} {act' : PlanM β}
    {post : α → β → PlannerState → PlannerState → Prop}
    (stable : ∀ x x' mid mid' height height', post x x' mid mid' →
      post x x' (mid.popTo height) (mid'.popTo height'))
    (inside : src.Alike catalog className ms m (st.push .deferred) (st'.push .deferred) act act'
      post) : src.Alike catalog className ms m st st' (deferred act) (deferred act') post :=
  alike_pushing stable inside

/-- The same element is entered in both states, or met again in both. -/
theorem pairs_constructing {act act' : PlanM PlanId} {k : Key} {element : Element}
    (tidy : src.Tidy catalog ms)
    (met : .building element ∈ st.stack.entries → src.Recurs catalog ms k)
    (inside : above? element st.stack.entries = none →
      src.Pairs catalog className ms m around around' .plan (st.push (.building element))
        (st'.push (.building element)) act act') :
    src.Pairs catalog className ms m around around' .plan st st' (constructing k element act)
      (constructing k element act') := by
  refine .of_twins fun twins => ?_
  cases here : above? element st.stack.entries with
  | none =>
      have here' : above? element st'.stack.entries = none := twins.entries ▸ here
      have enters {s : PlannerState} {act : PlanM PlanId}
          (new : above? element s.stack.entries = none) :
          (constructing k element act).runFrom s =
            (pushing (.building element) act >>= closeCycle k).runFrom s := by
        rw [runFrom_constructing_entered k act new, runFrom_bind, runFrom_restoring, runFrom_bind,
          runFrom_pushing]
      exact .congr (enters here) (enters here') <|
        (alike_pushing (fun _ _ _ _ _ _ both => both) (inside here)).bind
          fun id id' next next' _ _ _ both => pairs_closeCycle tidy k both
  | some above =>
      have here' : above? element st'.stack.entries = some above := twins.entries ▸ here
      have recurs := met (BuildStack.building_of_above? here)
      by_cases later : above.contains .deferred = true
      · have run := runFrom_constructing_closes k act here later
        have run' := runFrom_constructing_closes k act' here' later
        have one : src.Mirrors catalog className ms False around st .plan
            (constructing k element act) fun _ => none :=
          mirrors_constructing tidy (fun _ => recurs) False.elim fun new =>
            absurd (here.symm.trans new) (by simp)
        have two : src.Mirrors catalog className ms False around' st' .plan
            (constructing k element act') fun _ => none :=
          mirrors_constructing tidy (fun _ => recurs) False.elim fun new =>
            absurd (here'.symm.trans new) (by simp)
        have variable' {s s' : PlannerState} (sound : s.arena.Sound) (sound' : s'.arena.Sound)
            (name : String) :
            (s.arena.alloc (.localVar name)).2.nameless (names around) s.arena.size =
              (s'.arena.alloc (.localVar name)).2.nameless (names around') s'.arena.size := by
          rw [Arena.nameless_alloc (p := .localVar name) sound (List.forall_mem_nil _),
            Arena.nameless_alloc (p := .localVar name) sound' (List.forall_mem_nil _)]
          rfl
        rw [twins.pendingFor k] at run'
        cases waiting : st.stack.pendingFor k with
        | some q =>
            rw [waiting] at run run'
            refine .of_meets run run' one two fun _ _ _ told told' =>
              ⟨twins.pending, ?_, told.serves, told'.serves,
                variable' twins.left.sound twins.right.sound q.name⟩
            exact twins.kept.mono twins.left twins.right (.alloc _ _) (.alloc _ _)
              (fun _ _ => rfl) fun _ _ => rfl
        | none =>
            rw [waiting] at run run'
            refine .of_meets run run' one two fun _ _ _ told told' =>
              ⟨?_, ?_, told.serves, told'.serves,
                variable' twins.left.sound twins.right.sound k.ty.suggestedName⟩
            · show st'.stack.pending ++ [⟨_, _, element :: st'.stack.elements⟩] =
                st.stack.pending ++ [⟨_, _, element :: st.stack.elements⟩]
              rw [twins.pending, BuildStack.elements, twins.entries, BuildStack.elements]
            · exact twins.kept.mono twins.left twins.right (.alloc _ _) (.alloc _ _)
                (fun _ _ => rfl) fun _ _ => rfl
      · have now := Bool.eq_false_iff.mpr later
        exact .of_error (runFrom_constructing_endless k act here now)
          (runFrom_constructing_endless k act' here' now)

end Source

end Injector
