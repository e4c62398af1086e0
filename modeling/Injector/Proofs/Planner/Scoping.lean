/-
# Injector.Proofs.Planner.Scoping -- references in what is planned

An accessor has failed when a cycle of it is left pending.  But pending cycles
are told apart by their keys, and whichever construction of the key ends first
closes the cycle, be it the one that the variable stands for or not.  So a plan
can succeed with a variable that nothing declares.

`planned_wellScoped_iff`: references are well scoped exactly in the plans that
are closed and in which no name is both a parameter and a variable, whoever made
them.  If keys and declarations correspond one to one, and no type suggests a
parameter name, this is so for all that is planned: then a free variable always
has its cycle pending, below the construction that will close it (`Waits`).

The rest shows a component in which the wrong construction closes the cycle.
-/
import Injector.Proofs.Planner.Planning

namespace Injector

set_option autoImplicit false

open BuildStack (above?)

namespace Source

variable (src : Source) (catalog : Catalog)

/-- The construction that will close the pending cycle is on the stack, or is the
call of a lambda and closes none. -/
def Waits (s : BuildStack) (q : PendingCycle) : Prop :=
  ∃ c, src.Built catalog c ∧ c.key = q.key ∧
    (c.inLambda = true ∨ .building c.element ∈ s.entries)

variable {src catalog} {s t : BuildStack} {q : PendingCycle} {c : Call}

theorem Waits.of_entries (same : t.entries = s.entries) (waits : src.Waits catalog s q) :
    src.Waits catalog t q := by
  obtain ⟨c, built, key, place⟩ := waits
  exact ⟨c, built, key, same ▸ place⟩

theorem Waits.push (entry : BuildEntry) (waits : src.Waits catalog s q) :
    src.Waits catalog (s.push entry) q := by
  obtain ⟨c, built, key, place⟩ := waits
  exact ⟨c, built, key, place.imp id (List.mem_cons_of_mem _)⟩

theorem Waits.of_push_deferred (waits : src.Waits catalog (s.push .deferred) q) :
    src.Waits catalog s q := by
  obtain ⟨c, built, key, place⟩ := waits
  refine ⟨c, built, key, place.imp_right fun mem => ?_⟩
  exact (List.mem_cons.mp mem).resolve_left (by simp)

/-- Whatever waits inside the call `c` waits for it or outside it. -/
theorem Waits.of_push_building (separate : src.OneToOne catalog) (built : src.Built catalog c)
    (waits : src.Waits catalog (s.push (.building c.element)) q) :
    c.key = q.key ∨ src.Waits catalog s q := by
  obtain ⟨e, built', key, lambda | mem⟩ := waits
  · exact .inr ⟨e, built', key, .inl lambda⟩
  · rcases List.mem_cons.mp mem with same | mem
    · obtain rfl := separate.ofElement built' built (by simpa using same)
      exact .inl key
    · exact .inr ⟨e, built', key, .inr mem⟩

/-- Nothing outside a call waits for its key. -/
theorem Waits.key_ne (separate : src.OneToOne catalog) (built : src.Built catalog c)
    (now : c.inLambda = false) (outside : above? c.element s.entries = none)
    (waits : src.Waits catalog s q) : q.key ≠ c.key := by
  obtain ⟨e, built', key, place⟩ := waits
  intro same
  obtain rfl := separate.ofKey built' built (key.trans same)
  rcases place with lambda | mem
  · cases now.symm.trans lambda
  · exact BuildStack.not_building_of_above? outside mem

/-! ## Free names wait for their cycles -/

variable (src catalog) in
/-- A cycle with that name is pending, and its construction is under way. -/
def Awaited (s : BuildStack) (name : String) : Prop :=
  ∃ q ∈ s.pending, q.name = name ∧ src.Waits catalog s q

variable (src catalog) in
/-- The names free in the plan are parameters or names of cycles that wait. -/
def FreeAwaited (L : List String) (a : Arena) (s : BuildStack) (id : PlanId) : Prop :=
  ∀ name ∈ a.freeNames id, name ∈ L ∨ src.Awaited catalog s name

variable (src catalog) in
/-- The cycles that wait are still pending. -/
def KeepsAwaited (s t : BuildStack) : Prop :=
  ∀ q ∈ s.pending, src.Waits catalog s q → q ∈ t.pending

variable {L : List String} {a b : Arena} {id : PlanId} {p : Plan} {name : String}

theorem mem_freeNames (sound : a.Sound) (found : a.plan? id = some p) :
    name ∈ a.freeNames id ↔
      (p.reference? = some name ∨ ∃ child ∈ p.children, name ∈ a.freeNames child.id) ∧
        name ∉ p.binders := by
  rw [sound.free found, Arena.mem_freeIn]

theorem KeepsAwaited.trans {u : BuildStack} (same : t.entries = s.entries)
    (first : src.KeepsAwaited catalog s t) (second : src.KeepsAwaited catalog t u) :
    src.KeepsAwaited catalog s u := fun q mem waits =>
  second q (first q mem waits) (waits.of_entries same)

theorem KeepsAwaited.settle (separate : src.OneToOne catalog) (built : src.Built catalog c)
    (now : c.inLambda = false) (outside : above? c.element s.entries = none)
    (keeps : src.KeepsAwaited catalog s t) : src.KeepsAwaited catalog s (t.settle c.key) := by
  intro q mem waits
  refine (List.mem_eraseP_of_neg ?_).mpr (keeps q mem waits)
  simpa using waits.key_ne separate built now outside

theorem FreeAwaited.mono (within : a.Within b) (known : id < a.size)
    (same : t.entries = s.entries) (keeps : src.KeepsAwaited catalog s t)
    (served : src.FreeAwaited catalog L a s id) : src.FreeAwaited catalog L b t id := by
  intro name free
  rw [within.freeNames_eq known] at free
  refine (served name free).imp_right ?_
  rintro ⟨q, mem, rfl, waits⟩
  exact ⟨q, keeps q mem waits, rfl, waits.of_entries same⟩

theorem FreeAwaited.of_isClosed (closed : a.isClosed id = true) :
    src.FreeAwaited catalog L a s id := by
  simp only [Arena.isClosed, List.isEmpty_iff] at closed
  simp [FreeAwaited, closed]

theorem FreeAwaited.arg (sound : a.Sound) (found : a.plan? id = some (.arg name)) (mem : name ∈ L) :
    src.FreeAwaited catalog L a s id := by
  intro other free
  obtain ⟨refers | ⟨_, child, _⟩, -⟩ := (mem_freeNames sound found).mp free
  · obtain rfl := Option.some.inj refers
    exact .inl mem
  · cases child

theorem FreeAwaited.localVar (sound : a.Sound) (built : src.Built catalog c)
    (found : a.plan? id = some (.localVar name))
    (pending : ∃ q ∈ s.pending, q.key = c.key ∧ q.name = name)
    (place : c.inLambda = true ∨ .building c.element ∈ s.entries) :
    src.FreeAwaited catalog L a s id := by
  intro other free
  obtain ⟨refers | ⟨_, child, _⟩, -⟩ := (mem_freeNames sound found).mp free
  · obtain rfl := Option.some.inj refers
    obtain ⟨q, mem, key, named⟩ := pending
    exact .inr ⟨q, mem, named, c, built, key.symm, place⟩
  · cases child

/-- What is awaited for the values of a plan is awaited for the plan, but for what
the plan binds. -/
theorem FreeAwaited.node {t : BuildStack} (sound : a.Sound) (found : a.plan? id = some p)
    (composite : p.reference? = none)
    (served : ∀ child ∈ p.children, src.FreeAwaited catalog (L ++ p.lambdaParams) a t child.id)
    (outside : ∀ q, src.Waits catalog t q → src.Waits catalog s q)
    (pending : t.pending = s.pending) : src.FreeAwaited catalog L a s id := by
  intro name free
  obtain ⟨refers | ⟨child, mem, free⟩, unbound⟩ := (mem_freeNames sound found).mp free
  · cases composite.symm.trans refers
  · rcases served child mem name free with param | ⟨q, mem, rfl, waits⟩
    · refine .inl ((List.mem_append.mp param).resolve_right fun introduced => ?_)
      exact unbound (Plan.mem_binders.mpr (.inr introduced))
    · exact .inr ⟨q, pending ▸ mem, rfl, outside q waits⟩

theorem FreeAwaited.leave (separate : src.OneToOne catalog) (built : src.Built catalog c)
    (settled : ∀ q ∈ s.pending, q.key ≠ c.key)
    (served : src.FreeAwaited catalog L a (s.push (.building c.element)) id) :
    src.FreeAwaited catalog L a s id := by
  intro name free
  refine (served name free).imp_right ?_
  rintro ⟨q, mem, rfl, waits⟩
  refine ⟨q, mem, rfl, (waits.of_push_building separate built).resolve_left ?_⟩
  exact fun same => settled q mem same.symm

/-- The declaration of a variable binds what waits for the call that it closes. -/
theorem FreeAwaited.claim (separate : src.OneToOne catalog) (known : id < a.size)
    (sound : (a.alloc (.lateInit c.key.ty.suggestedName ⟨c.key, id⟩)).2.Sound)
    (built : src.Built catalog c) (named : ∀ q ∈ s.pending, q.name = q.key.ty.suggestedName)
    (served : src.FreeAwaited catalog L a (s.push (.building c.element)) id) :
    src.FreeAwaited catalog L (a.alloc (.lateInit c.key.ty.suggestedName ⟨c.key, id⟩)).2
      (s.settle c.key) a.size := by
  intro name free
  have found := Arena.plan?_alloc_self a (.lateInit c.key.ty.suggestedName ⟨c.key, id⟩)
  obtain ⟨refers | ⟨child, child_mem, free⟩, unbound⟩ := (mem_freeNames sound found).mp free
  · cases refers
  · obtain rfl := List.mem_singleton.mp child_mem
    rw [(Arena.Within.alloc a _).freeNames_eq known] at free
    refine (served name free).imp_right ?_
    rintro ⟨q, mem, rfl, waits⟩
    have other : q.key ≠ c.key := by
      intro same
      have bound : q.name = c.key.ty.suggestedName := same ▸ named q mem
      exact unbound (by simp [Plan.binders, bound])
    have outside := (waits.of_push_building separate built).resolve_left fun same => other same.symm
    exact ⟨q, (List.mem_eraseP_of_neg (by simpa using other)).mpr mem, rfl,
      outside.of_entries rfl⟩

/-- With nothing pending but what the accessor itself closes, nothing is free. -/
theorem FreeAwaited.isClosed_of_leave {m : MemberId} (served : src.FreeAwaited catalog [] a
    ⟨[.building (.member m)], []⟩ id) : a.isClosed id = true := by
  simp only [Arena.isClosed, List.isEmpty_iff, List.eq_nil_iff_forall_not_mem]
  intro name free
  rcases served name free with mem | ⟨q, mem, -⟩
  · cases mem
  · cases mem

theorem FreeAwaited.isClosed_of_claim {m : MemberId} {q : PendingCycle} {key : Key}
    (known : id < a.size) (sound : (a.alloc (.lateInit q.name ⟨key, id⟩)).2.Sound)
    (served : src.FreeAwaited catalog [] a ⟨[.building (.member m)], [q]⟩ id) :
    (a.alloc (.lateInit q.name ⟨key, id⟩)).2.isClosed a.size = true := by
  simp only [Arena.isClosed, List.isEmpty_iff, List.eq_nil_iff_forall_not_mem]
  intro name free
  have found := Arena.plan?_alloc_self a (.lateInit q.name ⟨key, id⟩)
  obtain ⟨refers | ⟨child, child_mem, free⟩, unbound⟩ := (mem_freeNames sound found).mp free
  · cases refers
  · obtain rfl := List.mem_singleton.mp child_mem
    rw [(Arena.Within.alloc a _).freeNames_eq known] at free
    rcases served name free with mem | ⟨r, mem, rfl, -⟩
    · cases mem
    · obtain rfl := List.mem_singleton.mp mem
      exact unbound (List.mem_singleton_self _)

/-- Where keys and declarations correspond one to one, free names are awaited. -/
def scoping (separate : src.OneToOne catalog) : Regime src catalog where
  inv _ := True
  le := src.KeepsAwaited catalog
  served := src.FreeAwaited catalog
  done a id := a.isClosed id = true
  le_refl _ _ mem _ := mem
  le_trans := .trans
  le_of_push keeps q mem waits := keeps q mem (waits.push _)
  le_await _ _ _ _ mem _ := List.mem_append_left _ mem
  le_settle built now outside keeps := keeps.settle separate built now outside
  inv_empty := trivial
  inv_add _ _ _ _ := trivial
  served_mono _ within known same keeps served := served.mono within known same keeps
  served_closed _ closed := .of_isClosed closed
  served_arg sound found mem := .arg sound found mem
  served_variable sound built found pending place :=
    .localVar sound built found pending (place.imp_right fun ⟨_, found, _⟩ =>
      BuildStack.building_of_above? found)
  served_now sound found composite now _ served := by
    refine .node sound found composite (fun child mem => ?_) (fun _ waits => waits) rfl
    rw [Plan.lambdaParams_of_not_deferred now, List.append_nil]
    exact served child mem
  served_later sound found later served :=
    .node sound found (Plan.reference?_of_deferred later) served
      (fun _ waits => waits.of_push_deferred) rfl
  served_lambda sound built lambda found later served := by
    refine .node sound found (Plan.reference?_of_deferred later) served (fun q waits => ?_) rfl
    rcases waits.of_push_building separate built with key | waits
    · exact ⟨_, built, key, .inl lambda⟩
    · exact waits.of_push_deferred
  served_leave built _ _ settled served := served.leave separate built settled
  served_claim := by
    rintro L a b s id c - sound - known built - - named served rfl
    exact ⟨trivial, served.claim separate known sound built named⟩
  done_mono _ within known closed := (within.isClosed_eq known).trans closed
  done_leave _ served := served.isClosed_of_leave
  done_claim := by
    rintro a b id m p q waiting - sound - known - - - - - - served rfl
    refine ⟨trivial, fun only => ?_⟩
    subst only
    exact served.isClosed_of_claim known sound

/-- No name is a parameter and a variable when types suggest no parameter names. -/
theorem Orderly.not_mistaken {root : Slot} (orderly : src.Orderly catalog a)
    (avoids : src.NamesAvoidParams catalog) : ¬ Arena.Mistaken a root := by
  rintro ⟨above, s, name, path, ⟨there, ⟨q, mem, introduces⟩, -⟩ | ⟨there, ⟨q, mem, declares⟩, -⟩⟩
  · have param := (orderly.proper_above path mem).isParamName introduces
    cases path with
    | here => cases mem
    | down path found child =>
        obtain ⟨named, built⟩ := orderly.variable_named (.down path found child) there
        exact avoids _ built (named ▸ param)
  · obtain ⟨result, -, named, built⟩ := (orderly.proper_above path mem).suggested declares
    have param : IsParamName name := (orderly.proper there).1
    exact avoids _ built (named ▸ param)

end Source

open Source Arena

/-! ## What succeeds -/

/-- References are well scoped in just those plans that are closed and confuse no names.
That is so in every arena (`wellScoped_iff`) and only restated for the accessors.  What
planning does is in the second part: references are well scoped in all that it makes if
keys and declarations correspond one to one and no type suggests a parameter's name. -/
theorem planned_wellScoped_iff (src : Source) (className : String) (catalog : Catalog) (log : Log) :
    (∀ e ∈ (src.planned className catalog log).entries,
      WellScoped (src.planned className catalog log).arena e.result ↔
        (src.planned className catalog log).arena.isClosed e.result.id = true ∧
          ¬ Mistaken (src.planned className catalog log).arena e.result) ∧
      (src.OneToOne catalog → src.NamesAvoidParams catalog →
        ∀ e ∈ (src.planned className catalog log).entries,
          WellScoped (src.planned className catalog log).arena e.result) := by
  have orderly := planned_orderly src catalog className log
  constructor
  · intro e _
    exact wellScoped_iff orderly.sound
  · intro separate avoids e mem
    obtain ⟨-, -, done⟩ := planned_keeps (scoping separate) className log
    have closed : (src.planned className catalog log).arena.isClosed e.result.id = true :=
      (done e mem).2
    have unmistaken : ¬ Mistaken (src.planned className catalog log).arena e.result :=
      orderly.not_mistaken avoids
    exact (wellScoped_iff orderly.sound).mpr ⟨closed, unmistaken⟩

theorem deferredPair_wellScoped :
    ∃ e ∈ (deferredPair.plannedAlone (.ofNat 2)).entries,
      WellScoped (deferredPair.plannedAlone (.ofNat 2)).arena e.result := by
  have separate := deferredPair_covers.oneToOne (by decide +kernel)
  have avoids := deferredPair_covers.namesAvoidParams (by decide +kernel)
  obtain ⟨e, mem⟩ := deferredPair_planned
  exact ⟨e, mem, (planned_wellScoped_iff deferredPair _ _ _).2 separate avoids e mem⟩

/-- `Foo` needs a `Bar` later and the set of all `Foo`; one of them is contributed. -/
def seededSet : Source where
  program :=
    { classes := [
        .injectable "Foo"
          [("bar", .function [] { name := "Bar" }), ("all", .setOf { name := "Foo" })],
        .injectable "Bar" [("foo", { name := "Foo" })],
        .abstractComponent [.ofNat 0, .ofNat 1]]
      members := [.accessor (.ofNat 2) "foo" { name := "Foo" },
        .contribution (.ofNat 2) "seed" [] { name := "Foo" }] }
  options := {}

/-- The contribution closes the cycle that waits for the constructor. -/
theorem seededSet_wellScoped_refuted :
    ∃ e ∈ (seededSet.plannedAlone (.ofNat 2)).entries,
      ¬ WellScoped (seededSet.plannedAlone (.ofNat 2)).arena e.result := by
  have exposed : ∃ e ∈ (seededSet.plannedAlone (.ofNat 2)).entries,
      (seededSet.plannedAlone (.ofNat 2)).arena.isClosed e.result.id = false := by
    decide +kernel
  obtain ⟨e, mem, exposed⟩ := exposed
  refine ⟨e, mem, fun well => ?_⟩
  have closed := well.isClosed (planned_orderly seededSet _ _ _).sound
  exact absurd (exposed.symm.trans closed) (by simp)

end Injector
