/-
# Injector.Proofs.Planner.Run -- what a step of planning does to the state

`runFrom` gives the outcome of a step and the state it leaves, which an error
leaves as well.  The equations below say it for the steps that planning is made
of; the last ones, for `deferred` and `constructing`, tell apart the ways in which
the stack answers.

A `Discipline` is what every state has and what each state keeps of those before
it.  `Keeps` says that a step keeps to it and what holds of its answer, and has a
rule for every way in which steps are put together.  `Meets` says also what holds of
an error that the step ends in.
-/
import Injector.Planner.Request

namespace Injector

set_option autoImplicit false

namespace BuildStack

/-- The stack with an entry more. -/
def push (s : BuildStack) (entry : BuildEntry) : BuildStack :=
  { s with entries := entry :: s.entries }

/-- The stack on which a cycle for `key` waits, under the name that its type suggests. -/
def await (s : BuildStack) (key : Key) (path : List Element) : BuildStack :=
  { s with pending := s.pending ++ [⟨key, key.ty.suggestedName, path⟩] }

/-- The stack on which the cycle for `key` waits no more. -/
def settle (s : BuildStack) (key : Key) : BuildStack :=
  { s with pending := s.pending.eraseP fun p => decide (p.key = key) }

/-- What was pushed is gone after going back to the height before. -/
theorem push_popTo (s : BuildStack) {t : BuildStack} {entry : BuildEntry}
    (same : t.entries = entry :: s.entries) :
    (t.popTo s.height).push entry = t ∧ (t.popTo s.height).entries = s.entries := by
  obtain ⟨entries, pending⟩ := t
  obtain rfl : entries = entry :: s.entries := same
  simp [popTo, push, height]

theorem mem_of_pendingFor {s : BuildStack} {key : Key} {q : PendingCycle}
    (found : s.pendingFor key = some q) : q ∈ s.pending ∧ q.key = key :=
  ⟨List.mem_of_find?_eq_some found, by simpa using List.find?_some found⟩

theorem ne_of_pendingFor {s : BuildStack} {key : Key} (found : s.pendingFor key = none) :
    ∀ q ∈ s.pending, q.key ≠ key := by
  simpa [pendingFor] using found

theorem building_of_above? {element : Element} {entries above : List BuildEntry}
    (found : above? element entries = some above) : .building element ∈ entries := by
  induction entries generalizing above with
  | nil => cases found
  | cons entry rest ih =>
      simp only [above?] at found
      split at found
      · rename_i same
        simp [same]
      · obtain ⟨more, found, -⟩ := Option.map_eq_some_iff.mp found
        exact List.mem_cons_of_mem _ (ih found)

theorem subset_of_above? {element : Element} {entries above : List BuildEntry}
    (found : above? element entries = some above) : above ⊆ entries := by
  induction entries generalizing above with
  | nil => cases found
  | cons entry rest ih =>
      simp only [above?] at found
      split at found
      · cases found
        exact List.nil_subset _
      · obtain ⟨more, inner, rfl⟩ := Option.map_eq_some_iff.mp found
        exact List.cons_subset_cons entry (ih inner)

theorem not_building_of_above? {element : Element} {entries : List BuildEntry}
    (absent : above? element entries = none) : .building element ∉ entries := by
  induction entries with
  | nil => exact List.not_mem_nil
  | cons entry rest ih =>
      simp only [above?] at absent
      split at absent
      · cases absent
      · rename_i other
        rw [Option.map_eq_none_iff] at absent
        rw [List.mem_cons, not_or]
        exact ⟨fun same => other same.symm, ih absent⟩

end BuildStack

namespace PlannerState

/-- The state with an entry more on the stack. -/
def push (st : PlannerState) (entry : BuildEntry) : PlannerState :=
  { st with stack := st.stack.push entry }

/-- The state with the stack back at a height. -/
def popTo (st : PlannerState) (height : Nat) : PlannerState :=
  { st with stack := st.stack.popTo height }

/-- The state with a plan more. -/
def add (st : PlannerState) (plan : Plan) : PlannerState :=
  { st with arena := (st.arena.alloc plan).2 }

/-- The state in which a cycle for `key` waits. -/
def await (st : PlannerState) (key : Key) (path : List Element) : PlannerState :=
  { st with stack := st.stack.await key path }

/-- The state in which the cycle for `key` waits no more. -/
def settle (st : PlannerState) (key : Key) : PlannerState :=
  { st with stack := st.stack.settle key }

end PlannerState

/-- The plan builds nothing itself, so no cycle is closed around it. -/
def Plan.isPassive : Plan → Bool
  | .localVar _ | .lazy _ | .function .. | .namedFunction .. => true
  | _ => false

namespace PlanM

variable {α β : Type}

/-- The outcome of `act` from the state `st`, and the state after it. -/
def runFrom (act : PlanM α) (st : PlannerState) : Except PlanError α × PlannerState :=
  act.run.run st

/-! ## Steps one by one -/

@[simp] theorem runFrom_pure (a : α) (st : PlannerState) :
    (pure a : PlanM α).runFrom st = (.ok a, st) := rfl

@[simp] theorem runFrom_throw (e : PlanError) (st : PlannerState) :
    (throw e : PlanM α).runFrom st = (.error e, st) := rfl

theorem runFrom_bind (act : PlanM α) (f : α → PlanM β) (st : PlannerState) :
    (act >>= f).runFrom st =
      match act.runFrom st with
      | (.ok a, next) => (f a).runFrom next
      | (.error e, next) => (.error e, next) := by
  simp only [runFrom, ExceptT.run_bind, StateT.run_bind]
  generalize StateT.run act.run st = outcome
  obtain ⟨answer, next⟩ := outcome
  cases answer <;> rfl

/-- If a sequence of steps succeeds then so does each. -/
theorem ok_of_bind {act : PlanM α} {f : α → PlanM β} {b : β} {st last : PlannerState}
    (ran : (act >>= f).runFrom st = (.ok b, last)) :
    ∃ a mid, act.runFrom st = (.ok a, mid) ∧ (f a).runFrom mid = (.ok b, last) := by
  rw [runFrom_bind] at ran
  split at ran
  · rename_i a mid first
    exact ⟨a, mid, first, ran⟩
  · cases ran

theorem runFrom_get (st : PlannerState) : (get : PlanM PlannerState).runFrom st = (.ok st, st) :=
  rfl

theorem runFrom_modifyGet (f : PlannerState → α × PlannerState) (st : PlannerState) :
    (modifyGet f : PlanM α).runFrom st = (.ok (f st).1, (f st).2) := rfl

theorem runFrom_report (findings : List Finding) (st : PlannerState) :
    (report findings).runFrom st = (.ok (), { st with log := st.log.errors findings }) := rfl

theorem runFrom_alloc (plan : Plan) (st : PlannerState) :
    (alloc plan).runFrom st = (.ok st.arena.size, st.add plan) := rfl

theorem runFrom_freshName (suggestion : String) (st : PlannerState) :
    (freshName suggestion).runFrom st =
      (.ok (st.names.fresh suggestion).1, { st with names := (st.names.fresh suggestion).2 }) := rfl

theorem runFrom_failTraced (error : List Element → PlanError) (st : PlannerState) :
    (failTraced error : PlanM α).runFrom st = (.error (error st.stack.elements), st) := rfl

theorem runFrom_remember (key : Key) (id : PlanId) (st : PlannerState) :
    (remember key id).runFrom st =
      (.ok (),
        if st.arena.isClosed id then { st with cache := st.cache.insertNew key id } else st) := rfl

theorem runFrom_restoring (height : Nat) (act : PlanM α) (st : PlannerState) :
    (restoring height act).runFrom st =
      ((act.runFrom st).1, (act.runFrom st).2.popTo height) := by
  rfl

/-! ## Steps on the stack -/

theorem runFrom_deferred (act : PlanM α) (st : PlannerState) :
    (deferred act).runFrom st =
      ((act.runFrom (st.push .deferred)).1,
        (act.runFrom (st.push .deferred)).2.popTo st.stack.height) := by
  rfl

/-- Around a plan that builds nothing no cycle is closed. -/
theorem runFrom_closeCycle_passive {st : PlannerState} {id : PlanId} {p : Plan} (key : Key)
    (found : st.arena.plan? id = some p) (passive : p.isPassive = true) :
    (closeCycle key id).runFrom st = (.ok id, st) := by
  simp only [closeCycle, runFrom_bind, runFrom_get]
  rw [found]
  cases p <;> simp_all [Plan.isPassive]

/-- Around a plan that builds something the cycle that waits for its key is closed. -/
theorem runFrom_closeCycle_active {st : PlannerState} {id : PlanId} {p : Plan} (key : Key)
    (found : st.arena.plan? id = some p) (active : p.isPassive = false) :
    (closeCycle key id).runFrom st =
      match st.stack.pendingFor key with
      | none => (.ok id, st)
      | some q => (.ok st.arena.size, (st.settle key).add (.lateInit q.name ⟨key, id⟩)) := by
  simp only [closeCycle, runFrom_bind, runFrom_get]
  rw [found]
  cases p with
  | localVar | lazy | function | namedFunction => cases active
  | _ =>
      simp only [runFrom_bind, runFrom_modifyGet, BuildStack.claim]
      cases st.stack.pendingFor key <;> rfl

/-- An element that is not under construction is entered. -/
theorem runFrom_constructing_entered {st : PlannerState} {element : Element} (key : Key)
    (act : PlanM PlanId) (new : BuildStack.above? element st.stack.entries = none) :
    (constructing key element act).runFrom st =
      (restoring st.stack.height act >>= closeCycle key).runFrom (st.push (.building element)) := by
  simp only [constructing, runFrom_bind, runFrom_modifyGet, BuildStack.enter, new]
  rfl

/-- An element that is needed before it is built cannot be built. -/
theorem runFrom_constructing_endless {st : PlannerState} {element : Element}
    {above : List BuildEntry} (key : Key) (act : PlanM PlanId)
    (again : BuildStack.above? element st.stack.entries = some above)
    (now : above.contains .deferred = false) :
    (constructing key element act).runFrom st =
      (.error (.endless element st.stack.elements), st) := by
  simp only [constructing, runFrom_bind, runFrom_modifyGet, BuildStack.enter, again, now]
  rfl

/-- An element that is needed later only is referred to by a variable. -/
theorem runFrom_constructing_closes {st : PlannerState} {element : Element}
    {above : List BuildEntry} (key : Key) (act : PlanM PlanId)
    (again : BuildStack.above? element st.stack.entries = some above)
    (later : above.contains .deferred = true) :
    (constructing key element act).runFrom st =
      match st.stack.pendingFor key with
      | some q => (.ok st.arena.size, st.add (.localVar q.name))
      | none =>
        (.ok st.arena.size,
          (st.await key (element :: st.stack.elements)).add (.localVar key.ty.suggestedName)) := by
  have passive (s : PlannerState) (name : String) :
      (alloc (.localVar name) >>= closeCycle key).runFrom s =
        (.ok s.arena.size, s.add (.localVar name)) := by
    rw [runFrom_bind, runFrom_alloc]
    exact runFrom_closeCycle_passive key (Arena.plan?_alloc_self s.arena (.localVar name)) rfl
  simp only [constructing, runFrom_bind, runFrom_modifyGet, BuildStack.enter, again, later]
  cases st.stack.pendingFor key with
  | some q => exact passive st q.name
  | none => exact passive (st.await key (element :: st.stack.elements)) key.ty.suggestedName

end PlanM

/-! ## Keeping to a discipline -/

/-- What every state has, and what each state keeps of those before it. -/
structure Discipline where
  inv : PlannerState → Prop
  le : PlannerState → PlannerState → Prop
  refl : ∀ st, le st st
  trans : ∀ {s t u : PlannerState}, le s t → le t u → le s u

/-- From a state that has what it should, `act` keeps to the discipline; `post`
holds of its answer and the state it leaves. -/
def Keeps {α : Type} (d : Discipline) (st : PlannerState) (act : PlanM α)
    (post : α → PlannerState → Prop) : Prop :=
  d.inv st → d.inv (act.runFrom st).2 ∧ d.le st (act.runFrom st).2 ∧
    ∀ a, (act.runFrom st).1 = .ok a → post a (act.runFrom st).2

namespace Keeps

open PlanM

variable {α β : Type} {d : Discipline} {st next : PlannerState} {act : PlanM α}
  {post : α → PlannerState → Prop}

theorem of_ok {a : α} (run : act.runFrom st = (.ok a, next))
    (step : d.inv st → d.inv next ∧ d.le st next ∧ post a next) : Keeps d st act post := by
  intro ok
  obtain ⟨inv, le, holds⟩ := step ok
  rw [run]
  refine ⟨inv, le, ?_⟩
  rintro _ ⟨⟩
  exact holds

theorem of_error {e : PlanError} (run : act.runFrom st = (.error e, next))
    (step : d.inv st → d.inv next ∧ d.le st next) : Keeps d st act post := by
  intro ok
  rw [run]
  refine ⟨(step ok).1, (step ok).2, ?_⟩
  rintro _ ⟨⟩

theorem pure {a : α} (holds : post a st) : Keeps d st (Pure.pure a) post :=
  of_ok (runFrom_pure a st) fun ok => ⟨ok, d.refl st, holds⟩

/-- Nothing is found. -/
theorem nothing {holds : α → PlannerState → Prop} :
    Keeps d st (Pure.pure none : PlanM (Option α)) fun answer next => ∀ a ∈ answer, holds a next :=
  pure (by simp)

/-- What is found is as it should be. -/
theorem found {a : α} {holds : α → PlannerState → Prop} (served : holds a st) :
    Keeps d st (Pure.pure (some a)) fun answer next => ∀ b ∈ answer, holds b next := by
  refine pure ?_
  rintro _ ⟨⟩
  exact served

theorem throw (e : PlanError) : Keeps d st (MonadExcept.throw e : PlanM α) post :=
  of_error (runFrom_throw e st) fun ok => ⟨ok, d.refl st⟩

theorem failTraced (error : List Element → PlanError) :
    Keeps d st (PlanM.failTraced error : PlanM α) post :=
  of_error (runFrom_failTraced error st) fun ok => ⟨ok, d.refl st⟩

theorem bind {f : α → PlanM β} {then' : β → PlannerState → Prop} (first : Keeps d st act post)
    (rest : ∀ a next, d.inv next → d.le st next → post a next → Keeps d next (f a) then') :
    Keeps d st (act >>= f) then' := by
  intro ok
  obtain ⟨inv, le, holds⟩ := first ok
  rw [runFrom_bind]
  generalize act.runFrom st = outcome at inv le holds
  obtain ⟨answer, next⟩ := outcome
  cases answer with
  | error e => exact ⟨inv, le, by simp⟩
  | ok a =>
      obtain ⟨inv', le', holds'⟩ := rest a next inv le (holds a rfl) inv
      exact ⟨inv', d.trans le le', holds'⟩

theorem mono {weaker : α → PlannerState → Prop} (strong : Keeps d st act post)
    (weaken : ∀ a next, d.inv next → d.le st next → post a next → weaker a next) :
    Keeps d st act weaker := by
  intro ok
  obtain ⟨inv, le, holds⟩ := strong ok
  exact ⟨inv, le, fun a run => weaken a _ inv le (holds a run)⟩

theorem get : Keeps d st (MonadState.get : PlanM PlannerState) fun seen next =>
    seen = st ∧ next = st :=
  of_ok (runFrom_get st) fun ok => ⟨ok, d.refl st, rfl, rfl⟩

/-- What the state has may be used. -/
theorem of_inv (step : d.inv st → Keeps d st act post) : Keeps d st act post :=
  fun ok => step ok ok

/-- The choice of a binding is reported, and no plan is kept meanwhile. -/
theorem bindingFor {src : Source} {site : Site} {key : Key}
    (reported : ∀ findings, Keeps d st (PlanM.report findings) fun _ _ => True) :
    Keeps d st (src.bindingFor site key) fun answer next =>
      (match answer with
        | some b => (src.choose site.catalog key).1 = .binding b
        | none => (src.choose site.catalog key).1 = .nothing) ∧ next.cache = st.cache := by
  simp only [Source.bindingFor]
  have report : Keeps d st (PlanM.report (src.choose site.catalog key).2)
      fun _ next => next.cache = st.cache := by
    intro ok
    obtain ⟨inv, le, -⟩ := reported _ ok
    exact ⟨inv, le, fun _ _ => rfl⟩
  refine report.bind fun _ next _ _ same => ?_
  split
  · rename_i chosen
    exact .pure ⟨chosen, same⟩
  · rename_i b chosen
    exact .pure ⟨chosen, same⟩
  · exact .failTraced _

/-- A plan is found that is kept for the key, where kept plans may be used. -/
theorem kept? {site : Site} {key : Key} :
    Keeps d st (Source.kept? site key) fun answer next => next = st ∧
      match answer with
      | some id =>
        site.lambdaParams = [] ∧ site.isUnwrapping key = false ∧ st.cache.get? key = some id
      | none =>
        site.lambdaParams = [] → site.isUnwrapping key = false → st.cache.get? key = none := by
  simp only [Source.kept?]
  split
  · rename_i here
    simp only [Bool.and_eq_true, Bool.not_eq_true', List.isEmpty_iff] at here
    have run : (do return (← MonadState.get).cache.get? key : PlanM (Option PlanId)).runFrom st =
        (.ok (st.cache.get? key), st) := by
      simp only [runFrom_bind, runFrom_get, runFrom_pure]
    refine .of_ok run fun inv => ⟨inv, d.refl st, rfl, ?_⟩
    cases found : st.cache.get? key with
    | some id => exact ⟨here.1, here.2, rfl⟩
    | none => exact fun _ _ => rfl
  · rename_i away
    refine .pure ⟨rfl, fun outside fresh => absurd ?_ away⟩
    simp [outside, fresh]

end Keeps

/-! ## Disciplines that say nothing about the stack -/

/-- What becomes of the stack makes no difference. -/
structure Discipline.Stackless (d : Discipline) : Prop where
  inv : ∀ {st : PlannerState} (stack : BuildStack), d.inv st → d.inv { st with stack }
  le : ∀ (st : PlannerState) (stack : BuildStack), d.le st { st with stack }

namespace Keeps

open PlanM

variable {α : Type} {d : Discipline} {st : PlannerState} {act : PlanM α}
  {post : α → PlannerState → Prop} {made last : PlanId → PlannerState → Prop}

theorem restoring (free : d.Stackless) (height : Nat) (inside : Keeps d st act post)
    (stable : ∀ {a next} stack, post a next → post a { next with stack }) :
    Keeps d st (PlanM.restoring height act) post := by
  intro inv
  obtain ⟨inv', le, holds⟩ := inside inv
  rw [runFrom_restoring]
  exact ⟨free.inv _ inv', d.trans le (free.le _ _), fun a done => stable _ (holds a done)⟩

theorem deferred (free : d.Stackless) (inside : Keeps d (st.push .deferred) act post)
    (stable : ∀ {a next} stack, post a next → post a { next with stack }) :
    Keeps d st (PlanM.deferred act) post := by
  intro inv
  obtain ⟨inv', le, holds⟩ := inside (free.inv _ inv)
  rw [runFrom_deferred]
  refine ⟨free.inv _ inv', ?_, fun a done => stable _ (holds a done)⟩
  exact d.trans (free.le st _) (d.trans le (free.le _ _))

/-- A plan is left alone, or a variable is declared around it. -/
theorem closeCycle (free : d.Stackless) {key : Key} {id : PlanId}
    (left : ∀ stack, last id { st with stack })
    (around : ∀ name stack, Keeps d { st with stack } (alloc (.lateInit name ⟨key, id⟩)) last) :
    Keeps d st (PlanM.closeCycle key id) last := by
  refine Keeps.get.bind fun _ seen _ _ same => ?_
  obtain ⟨rfl, rfl⟩ := same
  split
  · exact .pure (left seen.stack)
  · exact .pure (left seen.stack)
  · exact .pure (left seen.stack)
  · exact .pure (left seen.stack)
  · have claim : Keeps d seen
        (modifyGet fun st => ((st.stack.claim key).1, { st with stack := (st.stack.claim key).2 }))
        fun _ next => next = { seen with stack := (seen.stack.claim key).2 } :=
      .of_ok (runFrom_modifyGet _ seen) fun inv => ⟨free.inv _ inv, free.le _ _, rfl⟩
    refine claim.bind fun claimed next _ _ same => ?_
    subst same
    cases claimed with
    | some name => exact around name _
    | none => exact .pure (left _)

/-- The answer is what was built inside, with the cycle closed around it, or a variable. -/
theorem constructing (free : d.Stackless) {key : Key} {element : Element} {act : PlanM PlanId}
    (inside : ∀ entry, Keeps d (st.push entry) act made)
    (stable : ∀ {id next} stack, made id next → made id { next with stack })
    (close : ∀ id next, d.le st next → made id next → Keeps d next (PlanM.closeCycle key id) last)
    (refer : ∀ name stack, Keeps d { st with stack } (alloc (.localVar name)) last) :
    Keeps d st (PlanM.constructing key element act) last := by
  cases met : BuildStack.above? element st.stack.entries with
  | none =>
      have entered : Keeps d (st.push (.building element))
          (PlanM.restoring st.stack.height act >>= PlanM.closeCycle key) last := by
        refine (restoring free _ (inside _) stable).bind fun id next _ le built => ?_
        exact close id next (d.trans (free.le st _) le) built
      intro inv
      obtain ⟨inv', le, holds⟩ := entered (free.inv _ inv)
      rw [runFrom_constructing_entered key act met]
      exact ⟨inv', d.trans (free.le st _) le, holds⟩
  | some above =>
      by_cases later : above.contains .deferred = true
      · have run := runFrom_constructing_closes key act met later
        have referred (name : String) (stack : BuildStack) (inv : d.inv st) :
            d.inv (PlannerState.add { st with stack } (.localVar name)) ∧
              d.le st (PlannerState.add { st with stack } (.localVar name)) ∧
              last st.arena.size (PlannerState.add { st with stack } (.localVar name)) := by
          obtain ⟨inv', le, holds⟩ := refer name stack (free.inv stack inv)
          exact ⟨inv', d.trans (free.le st stack) le, holds _ rfl⟩
        split at run
        · exact .of_ok run (referred _ st.stack)
        · exact .of_ok run (referred _ _)
      · have now : above.contains .deferred = false := Bool.eq_false_iff.mpr later
        exact .of_error (runFrom_constructing_endless key act met now) fun inv => ⟨inv, d.refl st⟩

end Keeps

/-- The step keeps to the discipline, and `fail` holds of an error that it ends in. -/
def Meets {α : Type} (d : Discipline) (st : PlannerState) (act : PlanM α)
    (post : α → PlannerState → Prop) (fail : PlanError → Prop) : Prop :=
  Keeps d st act post ∧ (d.inv st → ∀ e, (act.runFrom st).1 = .error e → fail e)

namespace Meets

open PlanM

variable {α β : Type} {d : Discipline} {st next : PlannerState} {act : PlanM α}
  {post : α → PlannerState → Prop} {fail : PlanError → Prop}

theorem of_ok {a : α} (run : act.runFrom st = (.ok a, next))
    (step : d.inv st → d.inv next ∧ d.le st next ∧ post a next) : Meets d st act post fail := by
  refine ⟨.of_ok run step, fun _ e failed => ?_⟩
  rw [run] at failed
  cases failed

theorem of_error {e : PlanError} (run : act.runFrom st = (.error e, next))
    (step : d.inv st → d.inv next ∧ d.le st next ∧ fail e) : Meets d st act post fail := by
  refine ⟨.of_error run fun ok => ⟨(step ok).1, (step ok).2.1⟩, fun ok e' failed => ?_⟩
  rw [run] at failed
  cases failed
  exact (step ok).2.2

theorem pure {a : α} (holds : post a st) : Meets d st (Pure.pure a) post fail :=
  of_ok (runFrom_pure a st) fun ok => ⟨ok, d.refl st, holds⟩

theorem throw {e : PlanError} (holds : fail e) :
    Meets d st (MonadExcept.throw e : PlanM α) post fail :=
  of_error (runFrom_throw e st) fun ok => ⟨ok, d.refl st, holds⟩

theorem failTraced {error : List Element → PlanError} (holds : fail (error st.stack.elements)) :
    Meets d st (PlanM.failTraced error : PlanM α) post fail :=
  of_error (runFrom_failTraced error st) fun ok => ⟨ok, d.refl st, holds⟩

theorem bind {f : α → PlanM β} {then' : β → PlannerState → Prop}
    (first : Meets d st act post fail)
    (rest : ∀ a next, d.inv next → d.le st next → post a next → Meets d next (f a) then' fail) :
    Meets d st (act >>= f) then' fail := by
  refine ⟨first.1.bind fun a next inv le holds => (rest a next inv le holds).1, ?_⟩
  intro ok e failed
  obtain ⟨inv, le, holds⟩ := first.1 ok
  have failing := first.2 ok
  rw [runFrom_bind] at failed
  generalize act.runFrom st = outcome at inv le holds failing failed
  obtain ⟨answer, next⟩ := outcome
  cases answer with
  | error e' =>
      cases failed
      exact failing e rfl
  | ok a => exact (rest a next inv le (holds a rfl)).2 inv e failed

theorem mono {weaker : α → PlannerState → Prop} {fail' : PlanError → Prop}
    (strong : Meets d st act post fail)
    (weaken : ∀ a next, d.inv next → d.le st next → post a next → weaker a next)
    (weaken' : ∀ e, fail e → fail' e) : Meets d st act weaker fail' :=
  ⟨strong.1.mono weaken, fun ok e failed => weaken' e (strong.2 ok e failed)⟩

/-- A first step and the others after it, where an error of the first says something else. -/
theorem andThen {f : α → PlanM β} {then' : β → PlannerState → Prop} {fail' : PlanError → Prop}
    (first : Meets d st act post fail) (weaken : ∀ e, fail e → fail' e)
    (rest : ∀ a next, d.inv next → d.le st next → post a next → Meets d next (f a) then' fail') :
    Meets d st (act >>= f) then' fail' :=
  bind (first.mono (fun _ _ _ _ holds => holds) weaken) rest

/-- What the state has may be used. -/
theorem of_inv (step : d.inv st → Meets d st act post fail) : Meets d st act post fail :=
  ⟨fun ok => (step ok).1 ok, fun ok => (step ok).2 ok⟩

end Meets

end Injector
