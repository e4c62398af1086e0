/-
# Injector.Proofs.Plan.Scopes -- references and what binds them

A variable is declared by a late variable above it, a parameter by a lambda.
Three things can be asked of the references below a slot:

* `WellScoped`: a binder of the right kind is above each of them;
* `Guarded`: between a late variable and a reference to it there is a lambda or a
  lazy value, so the variable is not read while its value is being built;
* `Uncaptured`: the nearest binder of a variable's name is the late variable of
  the very key that the variable stands for.

Each is told by something local.  `wellScoped_iff`: the plan is closed, and
nothing is bound only by a binder of the wrong kind.  `guarded_iff`: no late
variable below reads itself while its value is built (`ReadsNow`).
-/
import Injector.Proofs.Plan.Paths

namespace Injector

set_option autoImplicit false

namespace Plan

/-- The lambda parameters that the plan introduces. -/
def lambdaParams : Plan → List String
  | function params _ => params
  | namedFunction _ _ lambdaParams _ _ => lambdaParams
  | _ => []

/-- The variable that the plan declares. -/
def declared? : Plan → Option String
  | lateInit name _ => some name
  | _ => none

/-- The plan declares the variable of a cycle for `key`. -/
def declaresFor (key : Key) : Plan → Bool
  | lateInit _ result => decide (result.key = key)
  | _ => false

/-- What the plan needs is built later than the plan. -/
def isDeferred : Plan → Bool
  | function .. | namedFunction .. | lazy .. => true
  | _ => false

theorem mem_binders {p : Plan} {name : String} :
    name ∈ p.binders ↔ p.declared? = some name ∨ name ∈ p.lambdaParams := by
  cases p <;> simp [binders, declared?, lambdaParams, eq_comm]

theorem declared?_eq_some {p : Plan} {name : String} :
    p.declared? = some name ↔ ∃ result, p = .lateInit name result := by
  cases p <;> simp [declared?]

theorem reference?_eq_some {p : Plan} {name : String} :
    p.reference? = some name ↔ p = .localVar name ∨ p = .arg name := by
  cases p <;> simp [reference?]

theorem lambdaParams_of_not_deferred {p : Plan} (now : p.isDeferred = false) :
    p.lambdaParams = [] := by
  cases p <;> simp_all [isDeferred, lambdaParams]

theorem reference?_of_deferred {p : Plan} (later : p.isDeferred = true) : p.reference? = none := by
  cases p <;> simp_all [isDeferred, reference?]

theorem declared?_of_deferred {p : Plan} (later : p.isDeferred = true) : p.declared? = none := by
  cases p <;> simp_all [isDeferred, declared?]

end Plan

namespace Arena

/-- Each reference below `root` has a binder of its kind above it. -/
structure WellScoped (a : Arena) (root : Slot) : Prop where
  ofVariable : ∀ {above : List Plan} {s : Slot} {name : String}, Path a root above s →
    a.plan? s.id = some (.localVar name) → ∃ q ∈ above, q.declared? = some name
  ofParameter : ∀ {above : List Plan} {s : Slot} {name : String}, Path a root above s →
    a.plan? s.id = some (.arg name) → ∃ q ∈ above, name ∈ q.lambdaParams

/-- Some reference below `root` is bound, but only by binders of the other kind. -/
def Mistaken (a : Arena) (root : Slot) : Prop :=
  ∃ above s name, Path a root above s ∧
    (a.plan? s.id = some (.localVar name) ∧ (∃ q ∈ above, name ∈ q.lambdaParams) ∧
        (∀ q ∈ above, q.declared? ≠ some name) ∨
      a.plan? s.id = some (.arg name) ∧ (∃ q ∈ above, q.declared? = some name) ∧
        ∀ q ∈ above, name ∉ q.lambdaParams)

/-- A lambda or a lazy value is between each variable and its declaration. -/
def Guarded (a : Arena) (root : Slot) : Prop :=
  ∀ nearer name result farther s,
    Path a root (nearer ++ .lateInit name result :: farther) s →
    a.plan? s.id = some (.localVar name) → (∀ q ∈ nearer, q.declared? ≠ some name) →
      ∃ q ∈ nearer, q.isDeferred = true

/-- The nearest binder of each variable, if there is one, declares it for its key. -/
def Uncaptured (a : Arena) (root : Slot) : Prop :=
  ∀ nearer binder farther s name, Path a root (nearer ++ binder :: farther) s →
    a.plan? s.id = some (.localVar name) → name ∈ binder.binders →
    (∀ q ∈ nearer, name ∉ q.binders) → ∃ result, binder = .lateInit name result ∧ result.key = s.key

/-- Building the plan reads the variable `name` declared around it. -/
inductive ReadsNow (a : Arena) (name : String) : PlanId → Prop where
  | reads {id : PlanId} : a.plan? id = some (.localVar name) → ReadsNow a name id
  | needs {id : PlanId} {p : Plan} {c : Slot} : a.plan? id = some p → p.isDeferred = false →
      p.declared? ≠ some name → c ∈ p.children → ReadsNow a name c.id → ReadsNow a name id

section References

variable {a b : Arena} {root : Slot} {name : String} {id : PlanId}

theorem WellScoped.isClosed (sound : a.Sound) (well : WellScoped a root) :
    a.isClosed root.id = true := by
  rw [isClosed_iff sound]
  intro above s p name path there refers
  rcases Plan.reference?_eq_some.mp refers with rfl | rfl
  · obtain ⟨q, mem, declares⟩ := well.ofVariable path there
    exact ⟨q, mem, Plan.mem_binders.mpr (.inl declares)⟩
  · obtain ⟨q, mem, introduces⟩ := well.ofParameter path there
    exact ⟨q, mem, Plan.mem_binders.mpr (.inr introduces)⟩

/-- References are well scoped when nothing is free and nothing bound by mistake. -/
theorem wellScoped_iff (sound : a.Sound) :
    WellScoped a root ↔ a.isClosed root.id = true ∧ ¬ Mistaken a root := by
  constructor
  · intro well
    refine ⟨well.isClosed sound, ?_⟩
    rintro ⟨above, s, name, path, ⟨there, -, none⟩ | ⟨there, -, none⟩⟩
    · obtain ⟨q, mem, declares⟩ := well.ofVariable path there
      exact none q mem declares
    · obtain ⟨q, mem, introduces⟩ := well.ofParameter path there
      exact none q mem introduces
  · rintro ⟨closed, unmistaken⟩
    rw [isClosed_iff sound] at closed
    refine ⟨fun {above s name} path there => ?_, fun {above s name} path there => ?_⟩
    · obtain ⟨q, mem, binds⟩ := closed above s _ name path there rfl
      refine Decidable.byContradiction fun none => unmistaken ⟨above, s, name, path, .inl ?_⟩
      have undeclared : ∀ r ∈ above, r.declared? ≠ some name := fun r mem h => none ⟨r, mem, h⟩
      have introduces := (Plan.mem_binders.mp binds).resolve_left (undeclared q mem)
      exact ⟨there, ⟨q, mem, introduces⟩, undeclared⟩
    · obtain ⟨q, mem, binds⟩ := closed above s _ name path there rfl
      refine Decidable.byContradiction fun none => unmistaken ⟨above, s, name, path, .inr ?_⟩
      have missing : ∀ r ∈ above, name ∉ r.lambdaParams := fun r mem h => none ⟨r, mem, h⟩
      have declares := (Plan.mem_binders.mp binds).resolve_right (missing q mem)
      exact ⟨there, ⟨q, mem, declares⟩, missing⟩

/-! ## Reading a variable while its value is built -/

theorem not_readsNow_of_isDeferred {p : Plan} (found : a.plan? id = some p)
    (later : p.isDeferred = true) : ¬ ReadsNow a name id := by
  intro reads
  cases reads with
  | reads there =>
      cases found.symm.trans there
      cases later
  | needs there now =>
      cases found.symm.trans there
      cases later.symm.trans now

/-- What a plan reads now is read by a value that it needs. -/
theorem ReadsNow.child {p : Plan} (reads : ReadsNow a name id) (found : a.plan? id = some p)
    (composite : p.reference? = none) :
    p.isDeferred = false ∧ p.declared? ≠ some name ∧ ∃ c ∈ p.children, ReadsNow a name c.id := by
  cases reads with
  | reads there =>
      cases found.symm.trans there
      cases composite
  | needs there now other child below =>
      cases found.symm.trans there
      exact ⟨now, other, _, child, below⟩

theorem ReadsNow.mem_freeNames (sound : a.Sound) (reads : ReadsNow a name id) :
    name ∈ a.freeNames id := by
  induction reads with
  | reads there =>
      rw [sound.free there, mem_freeIn]
      exact ⟨.inl rfl, by simp [Plan.binders]⟩
  | @needs id p c there now other child _ ih =>
      rw [sound.free there, mem_freeIn]
      refine ⟨.inr ⟨c, child, ih⟩, fun binds => ?_⟩
      have introduces := (Plan.mem_binders.mp binds).resolve_left other
      rw [Plan.lambdaParams_of_not_deferred now] at introduces
      cases introduces

/-- Adding plans does not make a plan read more. -/
theorem ReadsNow.of_within (sound : a.Sound) (within : a.Within b) (known : id < a.size)
    (reads : ReadsNow b name id) : ReadsNow a name id := by
  induction reads with
  | reads there => exact .reads (by rwa [within.plan?_eq known] at there)
  | needs there now other child _ ih =>
      rw [within.plan?_eq known] at there
      exact .needs there now other child (ih (Nat.lt_trans (sound.before there _ child) known))

theorem ReadsNow.lift {above : List Plan} {s : Slot} (path : Path a root above s)
    (clear : ∀ q ∈ above, q.isDeferred = false ∧ q.declared? ≠ some name)
    (reads : ReadsNow a name s.id) : ReadsNow a name root.id := by
  induction path with
  | here => exact reads
  | @down above t c p _ found child ih =>
      obtain ⟨now, other⟩ := clear p List.mem_cons_self
      exact ih (fun q mem => clear q (List.mem_cons_of_mem _ mem))
        (.needs found now other child reads)

/-- What is read now is what paths without a deferred plan or a declaration lead to. -/
theorem readsNow_iff (root : Slot) :
    ReadsNow a name root.id ↔ ∃ above s, Path a root above s ∧
      a.plan? s.id = some (.localVar name) ∧
        ∀ q ∈ above, q.isDeferred = false ∧ q.declared? ≠ some name := by
  constructor
  · intro reads
    obtain ⟨id, same⟩ : ∃ id, id = root.id := ⟨_, rfl⟩
    rw [← same] at reads
    induction reads generalizing root with
    | reads there => exact ⟨[], root, .here, same ▸ there, by simp⟩
    | @needs id p c there now other child _ ih =>
        obtain ⟨above, s, path, found, clear⟩ := ih c rfl
        refine ⟨above ++ [p], s, Path.join .here (same ▸ there) child path, found, ?_⟩
        intro q mem
        rcases List.mem_append.mp mem with mem | mem
        · exact clear q mem
        · rw [List.mem_singleton.mp mem]
          exact ⟨now, other⟩
  · rintro ⟨above, s, path, there, clear⟩
    exact ReadsNow.lift path clear (.reads there)

/-- Variables are guarded when no value reads the variable that it is put into. -/
theorem guarded_iff :
    Guarded a root ↔ ∀ above t name result, Path a root above t →
      a.plan? t.id = some (.lateInit name result) → ¬ ReadsNow a name result.id := by
  constructor
  · intro guarded above t name result path found reads
    obtain ⟨nearer, s, below, there, clear⟩ := (readsNow_iff result).mp reads
    obtain ⟨q, mem, later⟩ := guarded nearer name result above s
      (path.join found (by simp [Plan.children]) below) there fun q mem => (clear q mem).2
    simp [(clear q mem).1] at later
  · intro unread nearer name result farther s whole there other
    obtain ⟨t, c, path, found, child, below⟩ := whole.split
    have same : c = result := by simpa [Plan.children] using child
    subst same
    refine Decidable.byContradiction fun unguarded => unread farther t name c path found ?_
    refine ReadsNow.lift below (fun q mem => ⟨?_, other q mem⟩) (.reads there)
    exact Bool.eq_false_iff.mpr fun later => unguarded ⟨q, mem, later⟩

/-- The positions lead to a late variable, and from its value to a reference that
reads the variable while the value is built. -/
def readsItselfAt (a : Arena) (root : Slot) (positions more : List Nat) : Bool :=
  match a.follow [] root positions with
  | none => false
  | some (_, t) =>
    match a.plan? t.id with
    | some (.lateInit name result) =>
      match a.follow [] result more with
      | none => false
      | some (nearer, s) =>
        decide (a.plan? s.id = some (.localVar name)) &&
          nearer.all fun q => !q.isDeferred && decide (q.declared? ≠ some name)
    | _ => false

theorem not_guarded_of_readsItselfAt {positions more : List Nat}
    (reads : a.readsItselfAt root positions more = true) : ¬ Guarded a root := by
  simp only [readsItselfAt] at reads
  split at reads
  · cases reads
  · rename_i above t outer
    split at reads
    · rename_i name result found
      split at reads
      · cases reads
      · rename_i nearer s inner
        simp only [Bool.and_eq_true, decide_eq_true_eq, List.all_eq_true,
          Bool.not_eq_true'] at reads
        intro guarded
        exact guarded_iff.mp guarded above t name result (path_of_follow .here outer) found
          (ReadsNow.lift (path_of_follow .here inner) reads.2 (.reads reads.1))
    · cases reads

/-- The positions lead to a plan, and from one of its values to a variable whose name
it binds for something else. -/
def capturesAt (a : Arena) (root : Slot) (positions more : List Nat) : Bool :=
  match a.follow [] root positions with
  | none => false
  | some (_, t) =>
    match a.plan? t.id with
    | none => false
    | some binder =>
      binder.children.any fun c =>
        match a.follow [] c more with
        | none => false
        | some (nearer, s) =>
          match a.plan? s.id with
          | some (.localVar name) =>
            binder.binders.contains name && nearer.all (fun q => !q.binders.contains name) &&
              !binder.declaresFor s.key
          | _ => false

theorem not_uncaptured_of_capturesAt {positions more : List Nat}
    (captures : a.capturesAt root positions more = true) : ¬ Uncaptured a root := by
  simp only [capturesAt] at captures
  split at captures
  · cases captures
  · rename_i above t outer
    split at captures
    · cases captures
    · rename_i binder found
      obtain ⟨c, child, captures⟩ := List.any_eq_true.mp captures
      split at captures
      · cases captures
      · rename_i nearer s inner
        split at captures
        · rename_i name there
          simp only [Bool.and_eq_true, Bool.not_eq_true', List.all_eq_true] at captures
          obtain ⟨⟨binds, free⟩, foreign⟩ := captures
          have path := (path_of_follow .here outer).join found child (path_of_follow .here inner)
          intro uncaptured
          obtain ⟨result, rfl, same⟩ := uncaptured nearer binder above s name path there
            (by simpa using binds) fun q mem => by simpa using free q mem
          simp [Plan.declaresFor, same] at foreign
        · cases captures

end References

end Arena

end Injector
