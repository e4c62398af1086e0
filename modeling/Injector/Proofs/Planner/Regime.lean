/-
# Injector.Proofs.Planner.Regime -- what planning keeps up

Whatever a component declares, the planner keeps its plans in order (`Sane`): the
arena is sound, names stand for what they are made for, kept plans are closed,
and each pending cycle has the name of a call that is built.

A `Regime` adds to that something about the plans that serve requests.  It is
asked for nothing but the steps in which plans and the stack change: a plan added
around what serves its values, an element left, a cycle closed.  From these a
regime follows for all of planning (`Injector.Proofs.Planner.Planning`).
-/
import Injector.Proofs.Plan.Scopes
import Injector.Proofs.Planner.Run
import Injector.Proofs.Planner.Constructions

namespace Injector

set_option autoImplicit false

open BuildStack (above?)

namespace Source

variable (src : Source) (catalog : Catalog)

/-- A slot in the arena; a variable stands in it only for what is built for its
key, under the name that the key suggests. -/
structure Apt (a : Arena) (s : Slot) : Prop where
  known : s.id < a.size
  variable' : ∀ name, a.plan? s.id = some (.localVar name) →
    name = s.key.ty.suggestedName ∧ src.Constructed catalog s.key

/-- The names of a plan are of the kind that it needs. -/
def Proper : Plan → Prop
  | .arg name => IsParamName name
  | .function params _ | .namedFunction _ _ params _ _ => ∀ name ∈ params, IsParamName name
  | .lateInit name result =>
    name = result.key.ty.suggestedName ∧ src.Constructed catalog result.key
  | _ => True

/-- For a function type that nothing binds the plan is a lambda or a reference. -/
def Shaped (a : Arena) (key : Key) (id : PlanId) : Prop :=
  src.Unbound catalog key → key.ty.isFunction = true →
    ∀ p, a.plan? id = some p → p.isDeferred = true ∨ p.reference?.isSome = true

/-- The arena is sound, and names stand for what they are made for. -/
structure Orderly (a : Arena) : Prop where
  sound : a.Sound
  proper : ∀ {id : PlanId} {p : Plan}, a.plan? id = some p →
    src.Proper catalog p ∧ ∀ c ∈ p.children, src.Apt catalog a c

/-- The plans, the kept ones and the pending cycles are in order. -/
structure Sane (st : PlannerState) : Prop extends src.Orderly catalog st.arena where
  kept : ∀ {key : Key} {id : PlanId}, st.cache.get? key = some id →
    id < st.arena.size ∧ st.arena.isClosed id = true ∧ src.Shaped catalog st.arena key id
  pending : ∀ q ∈ st.stack.pending,
    q.name = q.key.ty.suggestedName ∧ src.Constructed catalog q.key

variable {src catalog} {a b : Arena} {st : PlannerState} {s : Slot} {p : Plan}

theorem Apt.mono (within : a.Within b) (apt : src.Apt catalog a s) : src.Apt catalog b s where
  known := Nat.lt_of_lt_of_le apt.known within.size_le
  variable' := by
    rw [within.plan?_eq apt.known]
    exact apt.variable'

theorem Apt.of_reference?_none (found : a.plan? s.id = some p) (composite : p.reference? = none) :
    src.Apt catalog a s where
  known := Arena.lt_size_of_plan? found
  variable' := by
    intro name there
    obtain rfl := Option.some.inj (found.symm.trans there)
    cases composite

theorem Apt.of_arg {name : String} (found : a.plan? s.id = some (.arg name)) :
    src.Apt catalog a s where
  known := Arena.lt_size_of_plan? found
  variable' := by
    intro name there
    cases found.symm.trans there

theorem Apt.of_isClosed (sound : a.Sound) (known : s.id < a.size)
    (closed : a.isClosed s.id = true) : src.Apt catalog a s where
  known := known
  variable' := by
    intro name there
    have free : name ∈ a.freeNames s.id := by
      rw [sound.free there, Arena.mem_freeIn]
      exact ⟨.inl rfl, by simp [Plan.binders]⟩
    simp only [Arena.isClosed, List.isEmpty_iff] at closed
    simp [closed] at free

theorem Shaped.mono {key : Key} {id : PlanId} (within : a.Within b) (known : id < a.size)
    (shaped : src.Shaped catalog a key id) : src.Shaped catalog b key id := by
  intro unbound function p found
  rw [within.plan?_eq known] at found
  exact shaped unbound function p found

/-- A variable below a plan has the name that its key suggests. -/
theorem Orderly.variable_named {root : Slot} {above : List Plan} {name : String}
    (orderly : src.Orderly catalog a) (path : Arena.Path a root (p :: above) s)
    (there : a.plan? s.id = some (.localVar name)) :
    name = s.key.ty.suggestedName ∧ src.Constructed catalog s.key := by
  obtain ⟨id, found⟩ := path.plan?_of_mem List.mem_cons_self
  exact ((orderly.proper found).2 s path.child_of_cons).variable' name there

theorem Orderly.proper_above {root : Slot} {above : List Plan} (orderly : src.Orderly catalog a)
    (path : Arena.Path a root above s) (mem : p ∈ above) : src.Proper catalog p := by
  obtain ⟨id, found⟩ := path.plan?_of_mem mem
  exact (orderly.proper found).1

/-- Lambda parameters have the names made for them. -/
theorem Proper.isParamName {name : String} (proper : src.Proper catalog p)
    (mem : name ∈ p.lambdaParams) : IsParamName name := by
  cases p <;> simp_all [Proper, Plan.lambdaParams]

/-- A declared variable has the name that its key suggests. -/
theorem Proper.suggested {name : String} (proper : src.Proper catalog p)
    (declares : p.declared? = some name) : ∃ result, p = .lateInit name result ∧
      name = result.key.ty.suggestedName ∧ src.Constructed catalog result.key := by
  obtain ⟨result, rfl⟩ := Plan.declared?_eq_some.mp declares
  exact ⟨result, rfl, proper⟩

theorem Sane.empty : src.Sane catalog {} where
  sound := Arena.sound_empty
  proper found := by simp [Arena.plan?] at found
  kept found := by cases found
  pending := List.forall_mem_nil _

/-- Only plans, kept plans and pending cycles matter. -/
theorem Sane.of_eq {next : PlannerState} (sane : src.Sane catalog st)
    (arena : next.arena = st.arena) (cache : next.cache = st.cache)
    (pending : ∀ q ∈ next.stack.pending, q ∈ st.stack.pending) : src.Sane catalog next where
  sound := arena ▸ sane.sound
  proper := arena ▸ sane.proper
  kept := by
    rw [arena, cache]
    exact sane.kept
  pending q mem := sane.pending q (pending q mem)

theorem Sane.add (sane : src.Sane catalog st) (ok : src.Proper catalog p)
    (apt : ∀ c ∈ p.children, src.Apt catalog st.arena c) : src.Sane catalog (st.add p) where
  sound := sane.sound.alloc fun c mem => (apt c mem).known
  proper := by
    intro id q found
    have within := Arena.Within.alloc st.arena p
    rcases Arena.plan?_alloc_cases found with old | ⟨rfl, rfl⟩
    · exact ⟨(sane.proper old).1, fun c mem => ((sane.proper old).2 c mem).mono within⟩
    · exact ⟨ok, fun c mem => (apt c mem).mono within⟩
  kept := by
    intro key id found
    have within := Arena.Within.alloc st.arena p
    obtain ⟨known, closed, shaped⟩ := sane.kept found
    exact ⟨Nat.lt_of_lt_of_le known within.size_le, (within.isClosed_eq known).trans closed,
      shaped.mono within known⟩
  pending := sane.pending

theorem Sane.await {key : Key} {path : List Element} (sane : src.Sane catalog st)
    (built : src.Constructed catalog key) : src.Sane catalog (st.await key path) where
  sound := sane.sound
  proper := sane.proper
  kept := sane.kept
  pending := by
    intro q mem
    rcases List.mem_append.mp mem with mem | mem
    · exact sane.pending q mem
    · obtain rfl := List.mem_singleton.mp mem
      exact ⟨rfl, built⟩

/-- A waiting cycle may be closed around a plan that serves its key. -/
theorem Sane.claim {q : PendingCycle} {id : PlanId} (sane : src.Sane catalog st)
    (mem : q ∈ st.stack.pending) (apt : src.Apt catalog st.arena ⟨q.key, id⟩) :
    src.Sane catalog ((st.settle q.key).add (.lateInit q.name ⟨q.key, id⟩)) := by
  have settled : src.Sane catalog (st.settle q.key) :=
    sane.of_eq rfl rfl fun _ mem => List.mem_of_mem_eraseP mem
  apply settled.add
  · exact sane.pending q mem
  · intro child child_mem
    obtain rfl := List.mem_singleton.mp child_mem
    exact apt

theorem Sane.remember {key : Key} {id : PlanId} (sane : src.Sane catalog st)
    (known : id < st.arena.size) (closed : st.arena.isClosed id = true)
    (shaped : src.Shaped catalog st.arena key id) :
    src.Sane catalog { st with cache := st.cache.insertNew key id } where
  sound := sane.sound
  proper := sane.proper
  kept := by
    intro other old found
    rcases Table.of_get?_insertNew found with found | ⟨rfl, rfl⟩
    · exact sane.kept found
    · exact ⟨known, closed, shaped⟩
  pending := sane.pending

end Source

/-! ## Regimes -/

/-- What is to hold of the plans that serve requests, and the steps that it takes
to keep it up.  `served` is about the lambda parameters around, the arena and the
stack; `le` is what a stack keeps of an earlier one with the same entries; `done`
is about the plans of the accessors that succeed. -/
structure Regime (src : Source) (catalog : Catalog) where
  inv : Arena → Prop
  le : BuildStack → BuildStack → Prop
  served : List String → Arena → BuildStack → PlanId → Prop
  done : Arena → PlanId → Prop
  le_refl : ∀ s : BuildStack, le s s
  le_trans : ∀ {s t u : BuildStack}, t.entries = s.entries → le s t → le t u → le s u
  le_of_push : ∀ {s t : BuildStack} {entry : BuildEntry}, le (s.push entry) (t.push entry) → le s t
  le_await : ∀ (s : BuildStack) (key : Key) (path : List Element), le s (s.await key path)
  le_settle : ∀ {s t : BuildStack} {c : Call}, src.Built catalog c → c.inLambda = false →
    above? c.element s.entries = none → le s t → le s (t.settle c.key)
  inv_empty : inv {}
  inv_add : ∀ {a : Arena} {p : Plan}, a.Sound → inv a → p.declared? = none →
    (∀ c ∈ p.children, c.id < a.size) → inv (a.alloc p).2
  served_mono : ∀ {L : List String} {a b : Arena} {s t : BuildStack} {id : PlanId}, a.Sound →
    a.Within b → id < a.size → t.entries = s.entries → le s t → served L a s id → served L b t id
  served_closed : ∀ {L : List String} {a : Arena} {s : BuildStack} {id : PlanId}, a.Sound →
    a.isClosed id = true → served L a s id
  served_arg : ∀ {L : List String} {a : Arena} {s : BuildStack} {id : PlanId} {name : String},
    a.Sound → a.plan? id = some (.arg name) → name ∈ L → served L a s id
  /-- A cycle met again, or from inside the lambda that makes the call. -/
  served_variable : ∀ {L : List String} {a : Arena} {s : BuildStack} {id : PlanId} {c : Call},
    a.Sound → src.Built catalog c → a.plan? id = some (.localVar c.key.ty.suggestedName) →
    (∃ q ∈ s.pending, q.key = c.key ∧ q.name = c.key.ty.suggestedName) →
    (c.inLambda = true ∨ ∃ above, above? c.element s.entries = some above ∧ .deferred ∈ above) →
      served L a s id
  served_now : ∀ {L : List String} {a : Arena} {s : BuildStack} {id : PlanId} {p : Plan},
    a.Sound → a.plan? id = some p → p.reference? = none → p.isDeferred = false →
    p.declared? = none → (∀ c ∈ p.children, served L a s c.id) → served L a s id
  served_later : ∀ {L : List String} {a : Arena} {s : BuildStack} {id : PlanId} {p : Plan},
    a.Sound → a.plan? id = some p → p.isDeferred = true →
    (∀ c ∈ p.children, served (L ++ p.lambdaParams) a (s.push .deferred) c.id) → served L a s id
  /-- A lambda that makes the call `c`, from inside the call. -/
  served_lambda : ∀ {L : List String} {a : Arena} {s : BuildStack} {id : PlanId} {p : Plan}
    {c : Call}, a.Sound → src.Built catalog c → c.inLambda = true → a.plan? id = some p →
    p.isDeferred = true →
    (∀ child ∈ p.children,
      served (L ++ p.lambdaParams) a ((s.push .deferred).push (.building c.element)) child.id) →
      served L a s id
  /-- The call `c` is made, and no cycle waits for it. -/
  served_leave : ∀ {L : List String} {a : Arena} {s : BuildStack} {id : PlanId} {c : Call},
    src.Built catalog c → c.inLambda = false → above? c.element s.entries = none →
    (∀ q ∈ s.pending, q.key ≠ c.key) → served L a (s.push (.building c.element)) id →
      served L a s id
  /-- The call `c` is made, and closes the cycle that waits for it. -/
  served_claim : ∀ {L : List String} {a b : Arena} {s : BuildStack} {id : PlanId} {c : Call},
    a.Sound → b.Sound → inv a → id < a.size → src.Built catalog c → c.inLambda = false →
    above? c.element s.entries = none → (∀ q ∈ s.pending, q.name = q.key.ty.suggestedName) →
    served L a (s.push (.building c.element)) id →
    b = (a.alloc (.lateInit c.key.ty.suggestedName ⟨c.key, id⟩)).2 →
      inv b ∧ served L b (s.settle c.key) a.size
  done_mono : ∀ {a b : Arena} {id : PlanId}, a.Sound → a.Within b → id < a.size → done a id →
    done b id
  /-- An accessor is planned, and no cycle waits. -/
  done_leave : ∀ {a : Arena} {id : PlanId} {m : MemberId}, m ∈ catalog.own.accessors →
    served [] a ⟨[.building (.member m)], []⟩ id → done a id
  /-- An accessor is planned, and closes a cycle; no other waits if it is done. -/
  done_claim : ∀ {a b : Arena} {id : PlanId} {m : MemberId} {p : Plan} {q : PendingCycle}
    {waiting : List PendingCycle},
    a.Sound → b.Sound → inv a → id < a.size → m ∈ catalog.own.accessors →
    src.Constructed catalog q.key → q.name = q.key.ty.suggestedName →
    src.Shaped catalog a q.key id → a.plan? id = some p → p.isPassive = false →
    served [] a ⟨[.building (.member m)], waiting⟩ id →
    b = (a.alloc (.lateInit q.name ⟨q.key, id⟩)).2 → inv b ∧ (waiting = [q] → done b a.size)

namespace Regime

open PlanM

variable {src : Source} {catalog : Catalog} (d : Regime src catalog)

/-- States in order, of which each keeps what the regime asks. -/
def discipline : Discipline where
  inv st := src.Sane catalog st ∧ d.inv st.arena
  le st next := st.arena.Within next.arena ∧ next.stack.entries = st.stack.entries ∧
    d.le st.stack next.stack
  refl _ := ⟨.refl _, rfl, d.le_refl _⟩
  trans := fun ⟨w, e, l⟩ ⟨w', e', l'⟩ => ⟨w.trans w', e'.trans e, d.le_trans e l l'⟩

/-- The slot serves a request below the lambda parameters `L`. -/
def Serves (L : List String) (st : PlannerState) (s : Slot) : Prop :=
  src.Apt catalog st.arena s ∧ d.served L st.arena st.stack s.id

variable {d} {L : List String} {st next : PlannerState}

theorem Serves.mono {s : Slot} (inv : d.discipline.inv st) (le : d.discipline.le st next)
    (serves : d.Serves L st s) : d.Serves L next s :=
  ⟨serves.1.mono le.1,
    d.served_mono inv.1.sound le.1 serves.1.known le.2.1 le.2.2 serves.2⟩

/-! ## Plans added -/

theorem le_add (st : PlannerState) (p : Plan) : d.discipline.le st (st.add p) :=
  ⟨.alloc st.arena p, rfl, d.le_refl _⟩

theorem inv_add_plan {p : Plan} (inv : d.discipline.inv st) (proper : src.Proper catalog p)
    (plain : p.declared? = none) (apt : ∀ c ∈ p.children, src.Apt catalog st.arena c) :
    d.discipline.inv (st.add p) :=
  ⟨inv.1.add proper apt, d.inv_add inv.1.sound inv.2 plain fun c mem => (apt c mem).known⟩

theorem plan?_add (st : PlannerState) (p : Plan) :
    (st.add p).arena.plan? st.arena.size = some p :=
  Arena.plan?_alloc_self st.arena p

theorem keeps_alloc {p : Plan} (key : Key) (proper : src.Proper catalog p)
    (composite : p.reference? = none) (plain : p.declared? = none)
    (serves : ∀ c ∈ p.children, d.Serves L st c) :
    Keeps d.discipline st (alloc p) fun id next => src.Apt catalog next.arena ⟨key, id⟩ ∧
      next.arena.plan? id = some p ∧ ∀ c ∈ p.children, d.Serves L next c := by
  refine .of_ok (runFrom_alloc p st) fun inv => ?_
  have found := plan?_add st p
  exact ⟨inv_add_plan inv proper plain fun c mem => (serves c mem).1, le_add st p,
    .of_reference?_none found composite, found, fun c mem => (serves c mem).mono inv (le_add st p)⟩

/-- A plan whose values serve requests serves one itself. -/
theorem keeps_alloc_now {p : Plan} (key : Key) (composite : p.reference? = none)
    (now : p.isDeferred = false) (plain : p.declared? = none)
    (serves : ∀ c ∈ p.children, d.Serves L st c) :
    Keeps d.discipline st (alloc p) fun id next =>
      d.Serves L next ⟨key, id⟩ ∧ next.arena.plan? id = some p := by
  have proper : src.Proper catalog p := by
    cases p <;> simp_all [Source.Proper, Plan.reference?, Plan.isDeferred, Plan.declared?]
  refine (keeps_alloc key proper composite plain serves).mono ?_
  rintro id next inv - ⟨apt, found, serves⟩
  refine ⟨⟨apt, ?_⟩, found⟩
  exact d.served_now inv.1.sound found composite now plain fun c mem => (serves c mem).2

/-- A lambda or a lazy value around what is built later serves a request. -/
theorem keeps_alloc_later {p : Plan} (key : Key) (later : p.isDeferred = true)
    (names : ∀ name ∈ p.lambdaParams, IsParamName name)
    (serves : ∀ c ∈ p.children, d.Serves (L ++ p.lambdaParams) (st.push .deferred) c) :
    Keeps d.discipline st (alloc p) fun id next =>
      d.Serves L next ⟨key, id⟩ ∧ next.arena.plan? id = some p := by
  refine .of_ok (runFrom_alloc p st) fun inv => ?_
  have proper : src.Proper catalog p := by
    cases p <;> simp_all [Source.Proper, Plan.isDeferred, Plan.lambdaParams]
  have plain := Plan.declared?_of_deferred later
  have composite := Plan.reference?_of_deferred later
  have apt : ∀ c ∈ p.children, src.Apt catalog st.arena c := fun c mem => (serves c mem).1
  have inv' := inv_add_plan inv proper plain apt
  have found := plan?_add st p
  refine ⟨inv', le_add st p, ⟨.of_reference?_none found composite, ?_⟩, found⟩
  exact d.served_later inv'.1.sound found later fun c mem =>
    d.served_mono inv.1.sound (.alloc st.arena p) (apt c mem).known rfl (d.le_refl _)
      (serves c mem).2

theorem keeps_alloc_arg {name : String} (key : Key) (named : IsParamName name) (mem : name ∈ L) :
    Keeps d.discipline st (alloc (.arg name)) fun id next =>
      d.Serves L next ⟨key, id⟩ ∧ next.arena.plan? id = some (.arg name) := by
  refine .of_ok (runFrom_alloc _ st) fun inv => ?_
  have inv' := inv_add_plan (p := .arg name) inv named rfl (by simp [Plan.children])
  have found := plan?_add st (.arg name)
  exact ⟨inv', le_add st _, ⟨.of_arg found, d.served_arg inv'.1.sound found mem⟩, found⟩

/-! ## Steps beside plans and stack -/

theorem keeps_report (findings : List Finding) :
    Keeps d.discipline st (report findings) fun _ _ => True :=
  .of_ok (runFrom_report findings st) fun inv =>
    ⟨⟨inv.1.of_eq rfl rfl fun _ mem => mem, inv.2⟩, ⟨.refl _, rfl, d.le_refl _⟩, trivial⟩

theorem keeps_remember {key : Key} {id : PlanId} (known : id < st.arena.size)
    (shaped : src.Shaped catalog st.arena key id) :
    Keeps d.discipline st (remember key id) fun _ _ => True := by
  refine .of_ok (runFrom_remember key id st) fun inv => ?_
  split
  · rename_i closed
    exact ⟨⟨inv.1.remember known closed shaped, inv.2⟩, ⟨.refl _, rfl, d.le_refl _⟩, trivial⟩
  · exact ⟨inv, d.discipline.refl st, trivial⟩

/-! ## Steps on the stack -/

theorem inv_push (entry : BuildEntry) (inv : d.discipline.inv st) :
    d.discipline.inv (st.push entry) :=
  ⟨inv.1.of_eq rfl rfl fun _ mem => mem, inv.2⟩

/-- Going back to the height before an entry was pushed. -/
theorem popTo_of_push {entry : BuildEntry} (inv : d.discipline.inv next)
    (le : d.discipline.le (st.push entry) next) :
    d.discipline.inv (next.popTo st.stack.height) ∧
      d.discipline.le st (next.popTo st.stack.height) ∧
      (next.popTo st.stack.height).push entry = next := by
  obtain ⟨within, same, kept⟩ := le
  obtain ⟨back, entries⟩ := BuildStack.push_popTo st.stack same
  refine ⟨⟨inv.1.of_eq rfl rfl fun _ mem => mem, inv.2⟩, ⟨within, entries, ?_⟩, ?_⟩
  · have pushed : d.le (st.stack.push entry) ((next.stack.popTo st.stack.height).push entry) :=
      back.symm ▸ kept
    exact d.le_of_push pushed
  · cases next
    simp only [PlannerState.push, PlannerState.popTo] at back ⊢
    rw [back]

theorem keeps_deferred {α : Type} {act : PlanM α} {post : α → PlannerState → Prop}
    (inside : Keeps d.discipline (st.push .deferred) act post) :
    Keeps d.discipline st (deferred act) fun a next => post a (next.push .deferred) := by
  intro inv
  have outcome := inside (inv_push .deferred inv)
  rw [runFrom_deferred]
  generalize act.runFrom (st.push .deferred) = ran at outcome
  obtain ⟨answer, after⟩ := ran
  obtain ⟨inv', le', holds⟩ := outcome
  obtain ⟨popped, le, back⟩ := popTo_of_push inv' le'
  refine ⟨popped, le, fun a run => ?_⟩
  show post a ((after.popTo st.stack.height).push .deferred)
  rw [back]
  exact holds a run

/-- A call met again where it is only needed later is stood for by a variable. -/
theorem keeps_constructing_again {c : Call} {act : PlanM PlanId} {above : List BuildEntry}
    (built : src.Built catalog c) (again : above? c.element st.stack.entries = some above) :
    Keeps d.discipline st (constructing c.key c.element act) fun id next =>
      above.contains .deferred = true ∧ src.Apt catalog next.arena ⟨c.key, id⟩ ∧
        next.arena.plan? id = some (.localVar c.key.ty.suggestedName) ∧
        next.stack.entries = st.stack.entries ∧
        ∃ q ∈ next.stack.pending, q.key = c.key ∧ q.name = c.key.ty.suggestedName := by
  by_cases later : above.contains .deferred = true
  case neg =>
      exact .of_error (runFrom_constructing_endless c.key act again (Bool.eq_false_iff.mpr later))
        fun inv => ⟨inv, d.discipline.refl st⟩
  case pos =>
      have run := runFrom_constructing_closes c.key act again later
      have apt : ∀ (a : Arena) (id : PlanId), a.plan? id = some (.localVar c.key.ty.suggestedName) →
          src.Apt catalog a ⟨c.key, id⟩ := fun a id found =>
        { known := Arena.lt_size_of_plan? found
          variable' := fun name there => by
            cases found.symm.trans there
            exact ⟨rfl, built.constructed⟩ }
      cases waiting : st.stack.pendingFor c.key with
      | some q =>
          rw [waiting] at run
          refine .of_ok run fun inv => ?_
          obtain ⟨mem, same⟩ := BuildStack.mem_of_pendingFor waiting
          have named : q.name = c.key.ty.suggestedName := same ▸ (inv.1.pending q mem).1
          rw [named]
          have found := plan?_add st (.localVar c.key.ty.suggestedName)
          exact ⟨inv_add_plan inv trivial rfl (by simp [Plan.children]), le_add st _, later,
            apt _ _ found, found, rfl, q, mem, same, named⟩
      | none =>
          rw [waiting] at run
          refine .of_ok run fun inv => ?_
          have found := plan?_add (st.await c.key (c.element :: st.stack.elements))
            (.localVar c.key.ty.suggestedName)
          have waits : d.discipline.inv (st.await c.key (c.element :: st.stack.elements)) :=
            ⟨inv.1.await built.constructed, inv.2⟩
          refine ⟨inv_add_plan waits trivial rfl (by simp [Plan.children]),
            ⟨.alloc _ _, rfl, d.le_await _ _ _⟩, later, apt _ _ found, found, rfl,
            _, List.mem_append_right _ (List.mem_singleton_self _), rfl, rfl⟩

/-- The same, without what the stack keeps. -/
def coarse (d : Regime src catalog) : Discipline where
  inv := d.discipline.inv
  le st next := st.arena.Within next.arena
  refl st := .refl st.arena
  trans w w' := w.trans w'

/-- A new call: what is said inside it, and what closing its cycle makes of that. -/
theorem keeps_constructing_new {e : Discipline} {key : Key} {element : Element} {act : PlanM PlanId}
    {inside post : PlanId → PlannerState → Prop} (same : e.inv = d.discipline.inv)
    (weaker : ∀ s t, d.discipline.le s t → e.le s t)
    (new : above? element st.stack.entries = none)
    (built : Keeps d.discipline (st.push (.building element)) act inside)
    (close : ∀ id next, d.discipline.le st next → inside id (next.push (.building element)) →
      Keeps e next (closeCycle key id) post) :
    Keeps e st (constructing key element act) post := by
  intro inv
  rw [same] at inv
  have outcome := built (inv_push (.building element) inv)
  rw [runFrom_constructing_entered key act new, runFrom_bind, runFrom_restoring]
  generalize act.runFrom (st.push (.building element)) = ran at outcome
  obtain ⟨answer, after⟩ := ran
  obtain ⟨inv', le', holds⟩ := outcome
  obtain ⟨popped, le, back⟩ := popTo_of_push inv' le'
  cases answer with
  | error _ => exact ⟨same ▸ popped, weaker _ _ le, by simp⟩
  | ok id =>
      have said : inside id ((after.popTo st.stack.height).push (.building element)) := by
        rw [back]
        exact holds id rfl
      obtain ⟨inv'', le'', holds'⟩ := close id (after.popTo st.stack.height) le said (same ▸ popped)
      exact ⟨inv'', e.trans (weaker _ _ le) le'', holds'⟩

theorem keeps_closeCycle {c : Call} {id : PlanId} {p : Plan} (built : src.Built catalog c)
    (now : c.inLambda = false) (outside : above? c.element st.stack.entries = none)
    (found : st.arena.plan? id = some p) (active : p.isPassive = false)
    (serves : d.Serves L (st.push (.building c.element)) ⟨c.key, id⟩) :
    Keeps d.discipline st (closeCycle c.key id) fun id next => d.Serves L next ⟨c.key, id⟩ := by
  have run := runFrom_closeCycle_active c.key found active
  cases waiting : st.stack.pendingFor c.key with
  | none =>
      rw [waiting] at run
      refine .of_ok run fun inv => ⟨inv, d.discipline.refl st, serves.1, ?_⟩
      exact d.served_leave built now outside (BuildStack.ne_of_pendingFor waiting) serves.2
  | some q =>
      rw [waiting] at run
      refine .of_ok run fun inv => ?_
      obtain ⟨mem, same⟩ := BuildStack.mem_of_pendingFor waiting
      have named : q.name = c.key.ty.suggestedName := same ▸ (inv.1.pending q mem).1
      rw [named]
      have apt : src.Apt catalog st.arena ⟨q.key, id⟩ := same ▸ serves.1
      have sane := inv.1.claim mem apt
      rw [same, named] at sane
      obtain ⟨inv', served⟩ := d.served_claim inv.1.sound sane.sound inv.2 serves.1.known built now
        outside (fun q mem => (inv.1.pending q mem).1) serves.2 rfl
      refine ⟨⟨sane, inv'⟩, ⟨.alloc _ _, rfl, d.le_settle built now outside (d.le_refl _)⟩, ?_,
        served⟩
      exact .of_reference?_none (plan?_add (st.settle c.key) _) rfl

/-- A call serves its key when its arguments serve theirs inside it. -/
theorem keeps_constructing {c : Call} {act : PlanM PlanId} (built : src.Built catalog c)
    (now : c.inLambda = false)
    (inside : Keeps d.discipline (st.push (.building c.element)) act fun id next =>
      d.Serves L next ⟨c.key, id⟩ ∧ ∃ p, next.arena.plan? id = some p ∧ p.isPassive = false) :
    Keeps d.discipline st (constructing c.key c.element act) fun id next =>
      d.Serves L next ⟨c.key, id⟩ := by
  cases outside : above? c.element st.stack.entries with
  | some above =>
      refine (keeps_constructing_again built outside).mono ?_
      rintro id next inv - ⟨later, apt, found, same, waits⟩
      have again : above? c.element next.stack.entries = some above := same ▸ outside
      exact ⟨apt, d.served_variable inv.1.sound built found waits
        (.inr ⟨above, again, by simpa using later⟩)⟩
  | none =>
      refine keeps_constructing_new rfl (fun _ _ le => le) outside inside fun id next le said => ?_
      obtain ⟨serves, p, found, active⟩ := said
      exact keeps_closeCycle built now (le.2.1 ▸ outside) found active serves

theorem isPassive_of_isDeferred {p : Plan} (later : p.isDeferred = true) : p.isPassive = true := by
  cases p <;> simp_all [Plan.isDeferred, Plan.isPassive]

/-- A lambda that makes a call serves the key of the call. -/
theorem keeps_constructing_lambda {c : Call} {act : PlanM PlanId} (built : src.Built catalog c)
    (lambda : c.inLambda = true)
    (inside : Keeps d.discipline ((st.push .deferred).push (.building c.element)) act
      fun id next => src.Apt catalog next.arena ⟨c.key, id⟩ ∧
        ∃ p, next.arena.plan? id = some p ∧ p.isDeferred = true ∧
          ∀ child ∈ p.children, d.Serves (L ++ p.lambdaParams) next child) :
    Keeps d.discipline st (deferred (constructing c.key c.element act)) fun id next =>
      d.Serves L next ⟨c.key, id⟩ ∧ src.Shaped catalog next.arena c.key id := by
  -- the mark below the call goes only after the cycle is closed
  have marked : Keeps d.discipline (st.push .deferred) (constructing c.key c.element act)
      fun id next => src.Apt catalog next.arena ⟨c.key, id⟩ ∧
        (∀ t, next.stack = t.push .deferred → d.served L next.arena t id) ∧
          src.Shaped catalog next.arena c.key id := by
    cases outside : above? c.element (st.push .deferred).stack.entries with
    | some above =>
        refine (keeps_constructing_again built outside).mono ?_
        rintro id next inv - ⟨-, apt, found, -, waits⟩
        refine ⟨apt, fun t same => ?_, fun _ _ p there => .inr ?_⟩
        · rw [same] at waits
          exact d.served_variable inv.1.sound built found waits (.inl lambda)
        · cases found.symm.trans there
          rfl
    | none =>
        refine keeps_constructing_new rfl (fun _ _ le => le) outside inside fun id next _ said => ?_
        obtain ⟨apt, p, found, later, serves⟩ := said
        have here : next.arena.plan? id = some p := found
        have run := runFrom_closeCycle_passive c.key here (isPassive_of_isDeferred later)
        refine .of_ok run fun inv => ⟨inv, d.discipline.refl next, apt, ?_, ?_⟩
        · intro t same
          refine d.served_lambda inv.1.sound built lambda found later fun child mem => ?_
          rw [← same]
          exact (serves child mem).2
        · intro _ _ q there
          cases found.symm.trans there
          exact .inl later
  refine (keeps_deferred marked).mono ?_
  rintro id next - - ⟨apt, served, shaped⟩
  exact ⟨⟨apt, served next.stack rfl⟩, shaped⟩

/-- An accessor that leaves no cycle is done. -/
theorem keeps_accessor {m : MemberId} {key : Key} {act : PlanM PlanId}
    (accessor : m ∈ catalog.own.accessors) (fresh : st.stack = {})
    (inside : Keeps d.discipline (st.push (.building (.member m))) act fun id next =>
      d.Serves [] next ⟨key, id⟩ ∧ src.Shaped catalog next.arena key id) :
    Keeps d.coarse st (constructing key (.member m) act) fun id next =>
      next.stack.pending = [] → id < next.arena.size ∧ d.done next.arena id := by
  have new : above? (.member m) st.stack.entries = none := by rw [fresh]; rfl
  refine keeps_constructing_new rfl (fun _ _ le => le.1) new inside fun id next le said => ?_
  obtain ⟨⟨apt, served⟩, shaped⟩ := said
  obtain ⟨-, entries, -⟩ := le
  have empty : next.stack.entries = [] := by rw [entries, fresh]
  have apart : (next.push (.building (.member m))).stack =
      ⟨[.building (.member m)], next.stack.pending⟩ := by
    simp [PlannerState.push, BuildStack.push, empty]
  rw [apart] at served
  obtain ⟨p, found⟩ : ∃ p, next.arena.plan? id = some p := Arena.exists_plan? apt.known
  -- with nothing claimed there must be nothing to claim
  have unclaimed : next.stack.pending = [] → id < next.arena.size ∧ d.done next.arena id := by
    intro none
    rw [none] at served
    exact ⟨apt.known, d.done_leave accessor served⟩
  cases active : p.isPassive with
  | true =>
      exact .of_ok (runFrom_closeCycle_passive key found active)
        fun inv => ⟨inv, d.coarse.refl next, unclaimed⟩
  | false =>
      have run := runFrom_closeCycle_active key found active
      cases waiting : next.stack.pendingFor key with
      | none =>
          rw [waiting] at run
          exact .of_ok run fun inv => ⟨inv, d.coarse.refl next, unclaimed⟩
      | some q =>
          rw [waiting] at run
          refine .of_ok run fun inv => ?_
          obtain ⟨mem, rfl⟩ := BuildStack.mem_of_pendingFor waiting
          obtain ⟨named, built⟩ := inv.1.pending q mem
          have sane := inv.1.claim mem apt
          obtain ⟨inv', done⟩ := d.done_claim inv.1.sound sane.sound inv.2 apt.known accessor built
            named shaped found active served rfl
          refine ⟨⟨sane, inv'⟩, .alloc next.arena _, fun none => ⟨?_, done ?_⟩⟩
          · exact Arena.lt_size_of_plan? (plan?_add (next.settle q.key) _)
          · rcases List.eraseP_eq_nil_iff.mp none with nothing | ⟨r, -, only⟩
            · simp [nothing] at mem
            · rw [only] at mem ⊢
              rw [List.mem_singleton.mp mem]

end Regime

end Injector
