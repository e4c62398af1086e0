/-
# Injector.Proofs.Generation.Outcome -- what a generation comes to

There are two ways to end (`generate_cases`): with a stub, when something was reported as an
error, or with an entry for each accessor, when nothing was.  Warnings do not matter to that,
and neither does what was reported for other components.

The entries come in the order of the accessors, since each of them is either planned or
failed (`implementEach_complete`).  Hoisting puts private properties in front, under names
that no member and no parameter has; it leaves the others where they are, and changes in them
at most which plan builds the value (`entries_hoist`).
-/
import Injector.Proofs.Planner.Keeping
import Injector.Proofs.Plan.Hoisting
import Injector.Proofs.Catalog.Overriding

namespace Injector

set_option autoImplicit false

namespace Source

/-! ## Entries of accessors -/

/-- The entry implements the member in the class `cls`. -/
structure Implements (src : Source) (cls : ClassId) (m : MemberId) (e : Entry) : Prop where
  name : e.name = (src.program.memberAt m).name
  returnType : e.returnType = (src.program.returnTypeIn m cls).unqualified
  isProperty : e.isProperty = ((src.program.memberAt m).kind == .property)
  isSuspend : e.isSuspend = (src.program.memberAt m).isSuspend
  isPrivate : e.isPrivate = false
  isOverride : e.isOverride = true
  key : e.result.key = .of (src.program.returnTypeIn m cls)
    (src.qualifier (src.program.memberAt m).annotations (src.program.returnTypeIn m cls)).1

variable {src : Source} {cls : ClassId} {m : MemberId} {e : Entry} {catalog : Catalog}
  {site : Site} {st last : PlannerState} {log : Log} {className : String} {session : Session}

/-- It is the same member whichever plan builds its value. -/
theorem implements_bare_iff : src.Implements cls m e.bare ↔ src.Implements cls m e :=
  ⟨fun ⟨n, t, p, s, i, o, k⟩ => ⟨n, t, p, s, i, o, k⟩,
    fun ⟨n, t, p, s, i, o, k⟩ => ⟨n, t, p, s, i, o, k⟩⟩

theorem implements_of_bare {accessors : List MemberId} {entries kept : List Entry}
    (same : kept.map Entry.bare = entries.map Entry.bare)
    (all : List.Forall₂ (src.Implements cls) accessors entries) :
    List.Forall₂ (src.Implements cls) accessors kept := by
  have bare : List.Forall₂ (src.Implements cls) accessors (entries.map Entry.bare) :=
    List.forall₂_map_right_iff.mpr (all.imp fun _ _ => implements_bare_iff.mpr)
  rw [← same, List.forall₂_map_right_iff] at bare
  exact bare.imp fun _ _ => implements_bare_iff.mp

theorem implements_of_implement (ran : (src.implement site m).runFrom st = (.ok e, last)) :
    src.Implements site.catalog.own.cls m e := by
  simp only [implement] at ran
  -- no step before the last one has a say in anything but the plan
  obtain ⟨_, _, -, ran⟩ := PlanM.ok_of_bind ran
  obtain ⟨_, _, -, ran⟩ := PlanM.ok_of_bind ran
  obtain ⟨id, _, -, ran⟩ := PlanM.ok_of_bind ran
  obtain ⟨_, _, -, ran⟩ := PlanM.ok_of_bind ran
  split at ran
  · cases ran
  · cases ran
    exact ⟨rfl, rfl, rfl, rfl, rfl, rfl, rfl⟩

/-- If none of the accessors fail, each of them has its entry. -/
theorem implementEach_complete {accessors : List MemberId}
    (fine : ((src.implementEach site accessors).run st).1.failures = []) :
    List.Forall₂ (src.Implements site.catalog.own.cls) accessors
      ((src.implementEach site accessors).run st).1.entries := by
  induction accessors generalizing st with
  | nil => exact .nil
  | cons m rest ih =>
      cases first : (src.implement site m).runFrom st with
      | mk result mid =>
          rw [Regime.run_implementEach_cons first rfl] at fine ⊢
          cases result with
          | error failure => cases fine
          | ok e => exact .cons (implements_of_implement first) (ih fine)

theorem planned_filled (src : Source) (className : String) (catalog : Catalog) (log : Log) :
    (src.planned className catalog log).Filled := by
  obtain ⟨orderly, -, built⟩ := planned_keeps (order src catalog) className log
  exact Forest.filled_of_before (fun _ _ => orderly.sound.before) fun e mem => (built e mem).1

/-! ## Two ways to end -/

variable (src) in
theorem errorCount_reportFailures (log : Log) (failures : List (MemberId × PlanError)) :
    log.errorCount ≤ (src.reportFailures log failures).errorCount := by
  induction failures generalizing log with
  | nil => exact Nat.le_refl _
  | cons failure rest ih => exact Nat.le_trans (Log.errorCount_le_record log _) (ih _)

/-- What failed is an error, be it a new one or an old one. -/
theorem failures_of_reportFailures {failures : List (MemberId × PlanError)}
    (quiet : (src.reportFailures log failures).hasErrors = false) : failures = [] := by
  cases failures with
  | nil => rfl
  | cons failure rest =>
      obtain ⟨m, e⟩ := failure
      let first := log.error (.note (e.message src.program)) (e.element?.or (some (.member m)))
      have one : 0 < first.errorCount := Log.errorCount_error_pos ..
      have all : first.errorCount ≤ (src.reportFailures log ((m, e) :: rest)).errorCount :=
        errorCount_reportFailures src first rest
      rw [Log.hasErrors, decide_eq_false_iff_not] at quiet
      omega

theorem implementComponent_cases (src : Source) (cls : ClassId) (catalog : Catalog) (log : Log) :
    let name := implementationName (src.program.classAt cls).name
    (∃ log', log'.hasErrors = true ∧
      src.implementComponent cls catalog log = src.stub cls catalog.own.scope log') ∨
    ∃ log', log'.hasErrors = false ∧ (src.planning name catalog log).1.failures = [] ∧
      src.implementComponent cls catalog log =
        src.complete cls catalog.own.scope log' (src.planned name catalog log) := by
  intro name
  let report := src.reportFailures (src.planning name catalog log).2.log
    (src.planning name catalog log).1.failures
  have same : src.implementComponent cls catalog log =
      if !(src.planning name catalog log).1.failures.isEmpty || report.hasErrors then
        src.stub cls catalog.own.scope report
      else src.complete cls catalog.own.scope report (src.planned name catalog log) := rfl
  cases errors : report.hasErrors with
  | true =>
      refine .inl ⟨report, errors, ?_⟩
      rw [same, errors, Bool.or_true, if_pos rfl]
  | false =>
      have fine := failures_of_reportFailures errors
      refine .inr ⟨report, errors, fine, ?_⟩
      rw [same, errors, fine]
      rfl

/-- A generation ends with errors and a stub, or without and with the whole component. -/
theorem generate_cases (src : Source) (session : Session) (cls : ClassId) :
    let name := implementationName (src.program.classAt cls).name
    let collected := src.collect cls { store := session.store }
    (∃ scope log, log.hasErrors = true ∧
      (src.generate session cls).1 = src.stub cls scope log) ∨
    ∃ log, log.hasErrors = false ∧
      (src.planning name collected.1 collected.2.log).1.failures = [] ∧
      (src.generate session cls).1 = src.complete cls collected.1.own.scope log
        (src.planned name collected.1 collected.2.log) := by
  intro name collected
  cases findings : src.componentFindings cls with
  | cons f rest =>
      refine .inl ⟨none, Log.empty.errors (f :: rest), ?_, ?_⟩
      · by_contra none
        rw [Log.hasErrors, decide_eq_true_eq, Nat.not_lt, Nat.le_zero] at none
        cases Log.errorCount_errors_eq_zero none
      · rw [generate_of_findings findings]
  | nil =>
      cases faulty : collected.1.faulty with
      | true =>
          -- a fault that was found in an earlier generation is reported again
          obtain ⟨log, errors, stub⟩ := generate_of_faulty findings faulty
          exact .inl ⟨_, log, errors, stub⟩
      | false =>
          rw [generate_of_unfaulty findings faulty]
          rcases src.implementComponent_cases cls collected.1 collected.2.log with
            ⟨log, errors, stub⟩ | whole
          · exact .inl ⟨_, log, errors, stub⟩
          · exact .inr whole

/-! ## What is generated -/

theorem own_collect (kept : src.Kept session) (cls : ClassId) :
    (src.collect cls { store := session.store }).1.own.cls = cls := by
  rw [collect_own kept.1 kept.2]
  exact cls_holdings cls

/-- The names that are taken are those of members and parameters. -/
theorem not_mem_memberNames {name : String} (free : name ∉ (src.memberNames cls).taken) :
    (∀ m ∈ src.program.chainMembers cls, (src.program.memberAt m).name ≠ name) ∧
      ∀ ctor, (src.program.classAt cls).primaryCtor? = some ctor →
        ∀ param ∈ ctor.params, param.name ≠ name := by
  rw [memberNames, NameSupply.mem_taken_reserveAll, not_or, List.mem_append, not_or] at free
  obtain ⟨⟨members, params⟩, -⟩ := free
  constructor
  · rintro m mem rfl
    exact members (List.mem_map_of_mem mem)
  · rintro ctor primary param mem rfl
    rw [primary] at params
    exact params (List.mem_map_of_mem mem)

theorem hasErrors_complete (cls : ClassId) (scope : Option AnnotationUse) (forest : Forest) :
    (src.complete cls scope log forest).hasErrors = log.hasErrors := by
  simp only [Implementation.hasErrors, complete, Log.any_isError]
  split
  · simp only [Log.hasErrors, Log.errorCount_warn]
  · rfl

end Source

open Source

/-- What is generated is a stub if and only if there are errors.  A stub is empty.  Else there
is an entry for each accessor, in order, behind private properties for what is shared, whose
names are their own: no member and no parameter has one of them. -/
theorem generation_outcome (src : Source) (history : List ClassId) (cls : ClassId) :
    let plan := (src.generate (src.sessionAfter history) cls).1
    (plan.isStub = true ↔ plan.hasErrors = true) ∧
    (plan.isStub = true → plan.forest.entries = [] ∧ plan.forest.arena.size = 0) ∧
    (plan.isStub = false → ∃ made implemented, plan.forest.entries = made ++ implemented ∧
      List.Forall₂ (src.Implements cls) (src.catalogAfter history cls).own.accessors implemented ∧
      (∀ e ∈ made, ∃ slot, e = Hoisting.privateEntry e.name slot) ∧ (made.map (·.name)).Nodup ∧
      ∀ e ∈ made, (∀ m ∈ src.program.chainMembers cls, (src.program.memberAt m).name ≠ e.name) ∧
        ∀ ctor, (src.program.classAt cls).primaryCtor? = some ctor →
          ∀ param ∈ ctor.params, param.name ≠ e.name) := by
  intro plan
  have kept := src.sessionAfter_kept history
  rcases src.generate_cases (src.sessionAfter history) cls with
    ⟨scope, log, errors, stub⟩ | ⟨log, quiet, fine, whole⟩
  · have same : plan = src.stub cls scope log := stub
    have failed : plan.hasErrors = true := by
      rw [same, ← errors, ← Log.any_isError]
      rfl
    rw [failed, same]
    exact ⟨iff_of_true rfl rfl, fun _ => ⟨rfl, rfl⟩, nofun⟩
  · have same : plan = src.complete cls _ log _ := whole
    have passed : plan.hasErrors = false := by rw [same, hasErrors_complete, quiet]
    have built : plan.isStub = false := by rw [same]; rfl
    rw [passed, built]
    refine ⟨iff_of_false nofun nofun, nofun, fun _ => ?_⟩
    have owner : (src.catalogAfter history cls).own.cls = cls := own_collect kept cls
    have all : List.Forall₂ (src.Implements (src.catalogAfter history cls).own.cls)
      (src.catalogAfter history cls).own.accessors (src.planned _ _ _).entries :=
      implementEach_complete fine
    rw [owner] at all
    obtain ⟨made, implemented, entries, bare, properties, distinct, fresh⟩ :=
      Forest.entries_hoist (planned_filled src _ _ _) _ (src.memberNames cls)
    rw [same]
    exact ⟨made, implemented, entries, implements_of_bare bare all, properties, distinct,
      fun e mem => not_mem_memberNames (fresh e mem)⟩

/-- Two accessors of one `Foo`, and a parameter with the name that its property would have. -/
def twiceFoo : Source where
  program :=
    { classes := [.injectable "Foo" [],
        { ClassDecl.abstractComponent [.ofNat 0, .ofNat 1] with
          ctors := [{ params := [{ name := "_foo", ty := { name := "Foo" } }] }] }]
      members := [.accessor (.ofNat 1) "one" { name := "Foo" },
        .accessor (.ofNat 1) "two" { name := "Foo" }] }
  options := {}

/-- The property for the `Foo` has a longer name than the parameter. -/
theorem twiceFoo_outcome :
    let plan := (twiceFoo.generate (twiceFoo.sessionAfter []) (.ofNat 1)).1
    plan.hasErrors = false ∧ ∃ made implemented, plan.forest.entries = made ++ implemented ∧
      made.map (·.name) = ["_foo_"] ∧
      List.Forall₂ (twiceFoo.Implements (.ofNat 1)) [.ofNat 0, .ofNat 1] implemented := by
  have whole : (twiceFoo.generate (twiceFoo.sessionAfter []) (.ofNat 1)).1.isStub = false := by
    decide +kernel
  have names : (twiceFoo.generate (twiceFoo.sessionAfter []) (.ofNat 1)).1.forest.entries.map
      (·.name) = ["_foo_", "one", "two"] := by
    decide +kernel
  have accessors : (twiceFoo.catalogAfter [] (.ofNat 1)).own.accessors =
      [.ofNat 0, .ofNat 1] := by
    decide +kernel
  have outcome := generation_outcome twiceFoo [] (.ofNat 1)
  obtain ⟨made, implemented, entries, implements, -⟩ := outcome.2.2 whole
  rw [accessors] at implements
  refine ⟨?_, made, implemented, entries, ?_, implements⟩
  · refine Bool.eq_false_iff.mpr fun errors => ?_
    cases whole.symm.trans (outcome.1.mpr errors)
  · rw [entries, List.map_append] at names
    have two : (implemented.map (·.name)).length = 2 :=
      (List.length_map _).trans implements.length_eq.symm
    have parts : made.map (·.name) ++ implemented.map (·.name) =
        ["_foo_"] ++ ["one", "two"] := names
    exact (List.append_inj' parts two).1

end Injector
