/-
# Injector.Proofs.Generation.Sessions -- generating after other components

A session keeps the catalogs of the components generated before, and with each
whether anything was wrong with it.  That is told by counting errors, and an error
that reads like an earlier one is not counted; so a component whose faults were
all reported at another one can be kept as if it had none.

`generate_agrees_iff` says when that matters.  A component without faults is
generated as by a fresh session (`generate_of_sound`).  One with faults is a stub
in a fresh session, and the same stub if it is one at all.  It is one if all the
components generated before were without faults.

The rest shows a parent that is generated although its binding is private, since
its child, generated before, has inherited the same binding.
-/
import Injector.Proofs.Catalog.Genuine
import Injector.Generation

namespace Injector

set_option autoImplicit false

/-- The same class was generated: name, scope, plans, and whether it is a stub. -/
structure Implementation.Agrees (a b : Implementation) : Prop where
  name : a.name = b.name
  scope : a.scope = b.scope
  isStub : a.isStub = b.isStub
  forest : a.forest = b.forest

namespace Source

variable (src : Source)

/-- The session in which the components of `history` were generated in order. -/
def sessionAfter (history : List ClassId) : Session :=
  history.foldl (fun session cls => (src.generate session cls).2) {}

variable {src} {session : Session} {cls : ClassId} {catalog : Catalog} {log : Log}

/-! ## One generation -/

theorem generate_of_findings {f : Finding} {rest : List Finding}
    (findings : src.componentFindings cls = f :: rest) :
    src.generate session cls = (src.stub cls none (Log.empty.errors (f :: rest)), session) := by
  simp only [generate, findings]

theorem generate_of_faulty (fine : src.componentFindings cls = [])
    (faulty : (src.collect cls { store := session.store }).1.faulty = true) :
    ∃ log, log.hasErrors = true ∧ (src.generate session cls).1 =
      src.stub cls (src.collect cls { store := session.store }).1.own.scope log := by
  cases collected : src.collect cls { store := session.store } with
  | mk catalog st =>
      rw [collected] at faulty
      have known : catalog.faulty = true := faulty
      simp only [generate, fine, collected, known, if_true]
      refine ⟨_, ?_, rfl⟩
      split
      · assumption
      · exact decide_eq_true (Log.errorCount_error_pos ..)

theorem generate_of_unfaulty (fine : src.componentFindings cls = [])
    (sound : (src.collect cls { store := session.store }).1.faulty = false) :
    (src.generate session cls).1 =
      src.implementComponent cls (src.collect cls { store := session.store }).1
        (src.collect cls { store := session.store }).2.log := by
  cases collected : src.collect cls { store := session.store } with
  | mk catalog st =>
      rw [collected] at sound
      have known : catalog.faulty = false := sound
      simp only [generate, fine, collected, known, Bool.false_eq_true, if_false]

/-- A stub has nothing in it but its name and scope. -/
theorem implementComponent_of_isStub
    (stub : (src.implementComponent cls catalog log).isStub = true) :
    ∃ log', src.implementComponent cls catalog log = src.stub cls catalog.own.scope log' := by
  simp only [implementComponent] at stub ⊢
  split at stub
  split at stub
  · rename_i failed
    rw [if_pos failed]
    exact ⟨_, rfl⟩
  · cases stub

/-! ## What a session keeps -/

variable (src) in
/-- Between generations nothing is in progress, and no catalog of a genuine component
is wrong. -/
def Kept (session : Session) : Prop :=
  src.Truthful session.store ∧ session.store.inProgress = []

theorem Kept.empty : src.Kept {} := ⟨Truthful.empty, rfl⟩

variable (src) in
theorem generate_session (session : Session) (cls : ClassId) :
    (src.generate session cls).2 = session ∨
      (src.generate session cls).2 =
        { store := (src.collect cls { store := session.store }).2.store } := by
  simp only [generate]
  split
  · exact .inr rfl
  · exact .inl rfl

theorem Kept.generate (kept : src.Kept session) (cls : ClassId) :
    src.Kept (src.generate session cls).2 := by
  obtain ⟨truthful, idle⟩ := kept
  obtain ⟨truthful', idle', -⟩ := collect_collects cls { store := session.store } truthful idle
  rcases src.generate_session session cls with same | same
  · rw [same]
    exact ⟨truthful, idle⟩
  · rw [same]
    exact ⟨truthful', idle'⟩

/-- What each generation keeps holds after all of them. -/
theorem sessionAfter_induction (holds : Session → Prop) {history : List ClassId} (start : holds {})
    (step : ∀ session, ∀ cls ∈ history, holds session → holds (src.generate session cls).2) :
    holds (src.sessionAfter history) := by
  have all : ∀ session, holds session →
      holds (history.foldl (fun session cls => (src.generate session cls).2) session) := by
    induction history with
    | nil => exact fun _ held => held
    | cons cls rest ih =>
        intro session held
        exact ih (fun session c mem => step session c (List.mem_cons_of_mem _ mem)) _
          (step session cls List.mem_cons_self held)
  exact all {} start

variable (src) in
theorem sessionAfter_kept (history : List ClassId) : src.Kept (src.sessionAfter history) :=
  sessionAfter_induction src.Kept Kept.empty fun _ cls _ kept => kept.generate cls

/-! ## Components without faults -/

/-- A component without faults gets the same catalog from every session, and nothing
is reported. -/
theorem collect_of_sound (kept : src.Kept session) (sound : (src.collect cls {}).1.faulty = false) :
    (src.collect cls { store := session.store }).1 = (src.collect cls {}).1 ∧
      (src.collect cls { store := session.store }).2.log = {} := by
  have genuine : src.Genuine cls (src.collect cls {}).1 :=
    genuine_of_collect Clean.empty rfl rfl sound
  exact (collect_collects cls { store := session.store } kept.1 kept.2).2.2 _ genuine

/-- A component without faults is generated as by a fresh session, reports included. -/
theorem generate_of_sound (kept : src.Kept session)
    (sound : (src.collect cls {}).1.faulty = false) :
    (src.generate session cls).1 = (src.generate {} cls).1 := by
  cases findings : src.componentFindings cls with
  | cons f rest => rw [generate_of_findings findings, generate_of_findings findings]
  | nil =>
      have fresh := collect_of_sound Kept.empty sound
      have later := collect_of_sound kept sound
      have unfaulty : (src.collect cls { store := session.store }).1.faulty = false :=
        later.1 ▸ sound
      have generated : (src.generate {} cls).1 =
          src.implementComponent cls (src.collect cls {}).1 (src.collect cls {}).2.log :=
        generate_of_unfaulty findings sound
      rw [generate_of_unfaulty findings unfaulty, generated, later.1, later.2, fresh.2]

/-- After components without faults, one that has faults is found to have them. -/
theorem sound_of_clean (kept : src.Kept session) (clean : src.Clean session.store)
    (sound : (src.collect cls { store := session.store }).1.faulty = false) :
    (src.collect cls {}).1.faulty = false := by
  have genuine := genuine_of_collect clean kept.2 rfl sound
  have fresh := (collect_collects cls {} Truthful.empty rfl).2.2 _ genuine
  rw [fresh.1]
  exact sound

theorem sessionAfter_clean {history : List ClassId}
    (sound : ∀ cls ∈ history, (src.collect cls {}).1.faulty = false) :
    src.Kept (src.sessionAfter history) ∧ src.Clean (src.sessionAfter history).store := by
  apply sessionAfter_induction (fun session => src.Kept session ∧ src.Clean session.store)
    ⟨Kept.empty, Clean.empty⟩
  rintro session cls mem ⟨kept, clean⟩
  refine ⟨kept.generate cls, ?_⟩
  rcases src.generate_session session cls with same | same
  · rw [same]
    exact clean
  · rw [same]
    have quiet := (collect_of_sound kept (sound cls mem)).2
    exact (collect_cleanly.clean cls { store := session.store } clean (by rw [quiet]; rfl)).1

/-! ## Stubs -/

/-- Where both sessions leave a stub, it is the same class. -/
theorem generate_agrees_of_stub (kept : src.Kept session)
    (faulty : (src.collect cls {}).1.faulty = true)
    (stub : (src.generate session cls).1.isStub = true) :
    (src.generate session cls).1.Agrees (src.generate {} cls).1 := by
  cases findings : src.componentFindings cls with
  | cons f rest =>
      rw [generate_of_findings findings, generate_of_findings findings]
      exact ⟨rfl, rfl, rfl, rfl⟩
  | nil =>
      have own : (src.collect cls { store := session.store }).1.own = (src.collect cls {}).1.own :=
        (collect_own kept.1 kept.2).trans (collect_own Truthful.empty rfl).symm
      obtain ⟨log, -, fresh⟩ : ∃ log, log.hasErrors = true ∧ (src.generate {} cls).1 =
          src.stub cls (src.collect cls {}).1.own.scope log := generate_of_faulty findings faulty
      have stubbed : ∃ log, (src.generate session cls).1 =
          src.stub cls (src.collect cls { store := session.store }).1.own.scope log := by
        cases kind : (src.collect cls { store := session.store }).1.faulty with
        | true => exact (generate_of_faulty findings kind).imp fun _ => And.right
        | false =>
            rw [generate_of_unfaulty findings kind] at stub ⊢
            exact implementComponent_of_isStub stub
      obtain ⟨log', later⟩ := stubbed
      rw [fresh, later, own]
      exact ⟨rfl, rfl, rfl, rfl⟩

theorem generate_isStub_of_faulty (session : Session)
    (faulty : (src.collect cls { store := session.store }).1.faulty = true) :
    (src.generate session cls).1.isStub = true := by
  cases findings : src.componentFindings cls with
  | cons f rest =>
      rw [generate_of_findings findings]
      rfl
  | nil =>
      obtain ⟨log, -, later⟩ := generate_of_faulty findings faulty
      rw [later]
      rfl

end Source

/-- A component is generated as by a fresh session just when it is a stub if it has
faults.  It is so after components without faults. -/
theorem generate_agrees_iff (src : Source) (history : List ClassId) (cls : ClassId) :
    ((src.generate (src.sessionAfter history) cls).1.Agrees (src.generate {} cls).1 ↔
      ((src.collect cls {}).1.faulty = true →
        (src.generate (src.sessionAfter history) cls).1.isStub = true)) ∧
      ((∀ c ∈ history, (src.collect c {}).1.faulty = false) →
        (src.generate (src.sessionAfter history) cls).1.Agrees (src.generate {} cls).1) := by
  have kept := src.sessionAfter_kept history
  have agrees_iff : (src.generate (src.sessionAfter history) cls).1.Agrees (src.generate {} cls).1 ↔
      ((src.collect cls {}).1.faulty = true →
        (src.generate (src.sessionAfter history) cls).1.isStub = true) := by
    constructor
    · intro agrees faulty
      rw [agrees.isStub]
      exact Source.generate_isStub_of_faulty {} faulty
    · intro stub
      cases kind : (src.collect cls {}).1.faulty with
      | true => exact Source.generate_agrees_of_stub kept kind (stub kind)
      | false =>
          rw [Source.generate_of_sound kept kind]
          exact ⟨rfl, rfl, rfl, rfl⟩
  refine ⟨agrees_iff, ?_⟩
  intro sound
  rw [agrees_iff]
  intro faulty
  obtain ⟨kept, clean⟩ := Source.sessionAfter_clean sound
  apply Source.generate_isStub_of_faulty
  cases unfaulty : (src.collect cls { store := (src.sessionAfter history).store }).1.faulty with
  | true => rfl
  | false =>
      have fresh : (src.collect cls {}).1.faulty = false :=
        Source.sound_of_clean kept clean unfaulty
      simp [fresh] at faulty

/-- A component on top of `Base`, with the given constructor parameters. -/
def ClassDecl.overBase (name : String) (params : List ParamDecl) : ClassDecl where
  name := name
  isAbstract := true
  annotations := [.ofDecl .component]
  supers := [{ name := "Base" }]
  ctors := [{ params }]

/-- The parameter that makes `P` a parent. -/
def ParamDecl.parentP : ParamDecl where
  name := "p"
  ty := { name := "P" }
  annotations := [.ofDecl .component]
  isField := true

/-- A component and its parent that inherit one binding. -/
def sharedBinding (visibility : Visibility) : Source where
  program :=
    { classes := [
        { name := "Base", kind := .interface, members := [.ofNat 0] },
        .overBase "P" [],
        .overBase "D" [.parentP],
        { name := "Foo" }]
      members := [{ owner := some (.ofNat 0), name := "secret", visibility,
                    annotations := [.ofDecl .provides], returnType := { name := "Foo" } }] }
  options := {}

theorem sharedBinding_agrees :
    ((sharedBinding .everywhere).generate
        ((sharedBinding .everywhere).sessionAfter [.ofNat 2]) (.ofNat 1)).1.Agrees
      ((sharedBinding .everywhere).generate {} (.ofNat 1)).1 :=
  (generate_agrees_iff (sharedBinding .everywhere) [.ofNat 2] (.ofNat 1)).2 (by decide +kernel)

/-- When the binding is private the parent is no stub after its child. -/
theorem sharedBinding_agrees_refuted :
    ¬ ((sharedBinding .withinOwner).generate
        ((sharedBinding .withinOwner).sessionAfter [.ofNat 2]) (.ofNat 1)).1.Agrees
      ((sharedBinding .withinOwner).generate {} (.ofNat 1)).1 := by
  have differs :
      ((sharedBinding .withinOwner).generate
          ((sharedBinding .withinOwner).sessionAfter [.ofNat 2]) (.ofNat 1)).1.isStub ≠
        ((sharedBinding .withinOwner).generate {} (.ofNat 1)).1.isStub := by
    decide +kernel
  intro agrees
  exact differs agrees.isStub

end Injector
