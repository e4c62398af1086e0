/-
# Injector.Proofs.Planner.Steadiness -- disciplines that any planning keeps to

A discipline is `Steady` if reports, the stack and new names make no difference to it, and
neither does a plan more.  Beside these, planning only makes requests.  So where requests keep
to the discipline (`Follows`) each function of the planner does, at any site and for any key:
there is one lemma for each of them, in the order of their definitions.  What is put into the
cache is left to the discipline, for this is done where a request is answered.
-/
import Injector.Proofs.Planner.Parameters
import Injector.Proofs.Planner.Planning

namespace Injector

set_option autoImplicit false

open PlanM

/-- The later state has the plans of the earlier one under their numbers. -/
def PlannerState.Within (st next : PlannerState) : Prop := st.arena.Within next.arena

theorem PlannerState.Within.refl (st : PlannerState) : st.Within st := Arena.Within.refl st.arena

theorem PlannerState.Within.trans {s t u : PlannerState} (first : s.Within t)
    (second : t.Within u) : s.Within u :=
  Arena.Within.trans first second

namespace Discipline

/-- Every state has the property, and plans stay. -/
def keeping (inv : PlannerState → Prop) : Discipline where
  inv := inv
  le := PlannerState.Within
  refl := PlannerState.Within.refl
  trans := PlannerState.Within.trans

/-- Only what becomes of plans and of the cache makes a difference, and not a plan more. -/
structure Steady (d : Discipline) : Prop where
  inv_aside : ∀ {st : PlannerState} (log : Log) (stack : BuildStack) (names : NameSupply),
    d.inv st → d.inv { st with log, stack, names }
  le_aside : ∀ (st : PlannerState) (log : Log) (stack : BuildStack) (names : NameSupply),
    d.le st { st with log, stack, names }
  inv_add : ∀ {st : PlannerState} (p : Plan), d.inv st → d.inv (st.add p)
  le_add : ∀ (st : PlannerState) (p : Plan), d.le st (st.add p)

/-- Requests at the sites of the catalog keep to the discipline. -/
def Follows (d : Discipline) (catalog : Catalog) (requests : Source.Requests) : Prop :=
  ∀ site key st, site.catalog = catalog → Keeps d st (requests site key) fun _ _ => True

variable {d : Discipline}

theorem steady_keeping {inv : PlannerState → Prop}
    (aside : ∀ {st} log stack names, inv st → inv { st with log, stack, names })
    (add : ∀ {st : PlannerState} p, inv st → inv (st.add p)) : (keeping inv).Steady where
  inv_aside := aside
  le_aside st _ _ _ := Arena.Within.refl st.arena
  inv_add := add
  le_add st p := Arena.Within.alloc st.arena p

theorem Steady.stackless (steady : d.Steady) : d.Stackless :=
  ⟨fun stack inv => steady.inv_aside _ stack _ inv, fun st stack => steady.le_aside st _ stack _⟩

end Discipline

namespace Source

variable {src : Source} {d : Discipline} (steady : d.Steady) {catalog : Catalog} {site : Site}
  {key : Key} {st : PlannerState} {α : Type} {act : PlanM α}

include steady

/-! ## Steps -/

theorem steady_report (findings : List Finding) :
    Keeps d st (report findings) fun _ _ => True :=
  .of_ok (runFrom_report findings st) fun inv =>
    ⟨steady.inv_aside _ _ _ inv, steady.le_aside st _ _ _, trivial⟩

theorem steady_alloc (p : Plan) :
    Keeps d st (alloc p) fun id next => next.arena.plan? id = some p :=
  .of_ok (runFrom_alloc p st) fun inv =>
    ⟨steady.inv_add p inv, steady.le_add st p, Regime.plan?_add st p⟩

theorem steady_nameParams (n : Nat) (tys : List Ty) :
    Keeps d st (nameParams n tys) fun _ _ => True := by
  obtain ⟨lambda, supply, run, -⟩ := exists_runFrom_nameParams n tys st
  exact .of_ok run fun inv => ⟨steady.inv_aside _ _ supply inv, steady.le_aside st _ _ _, trivial⟩

theorem steady_deferred (inside : Keeps d (st.push .deferred) act fun _ _ => True) :
    Keeps d st (deferred act) fun _ _ => True :=
  inside.deferred steady.stackless fun _ _ => trivial

theorem steady_constructing {act : PlanM PlanId} (key : Key) (element : Element)
    (inside : ∀ entry, Keeps d (st.push entry) act fun _ _ => True) :
    Keeps d st (constructing key element act) fun _ _ => True := by
  have alloc_ (st : PlannerState) (p : Plan) : Keeps d st (alloc p) fun _ _ => True :=
    (steady_alloc steady p).mono fun _ _ _ _ _ => trivial
  refine .constructing steady.stackless inside (fun _ _ => trivial) ?_ fun _ _ => alloc_ _ _
  exact fun _ _ _ _ => .closeCycle steady.stackless (fun _ => trivial) fun _ _ => alloc_ _ _

/-! ## Calls -/

section Requests

variable {requests : Requests} (follows : d.Follows catalog requests)
  (own : site.catalog = catalog)

include follows own

omit steady in
theorem steady_demand : Keeps d st (demand requests site key) fun _ _ => True := by
  refine (follows site key st own).bind fun answer _ _ _ _ => ?_
  cases answer with
  | none => exact .failTraced _
  | some slot => exact .pure trivial

theorem steady_arguments {s : Subst} {element : Element} {params : List ParamDecl}
    {out : Table String Slot} :
    Keeps d st (src.arguments requests site s element params out) fun _ _ => True := by
  induction params generalizing out st with
  | nil => exact .pure trivial
  | cons param rest ih =>
      simp only [arguments]
      refine (steady_report steady _).bind fun _ mid _ _ _ => ?_
      refine (follows site _ mid own).bind fun answer _ _ _ _ => ?_
      cases answer with
      | some slot => exact ih
      | none =>
          dsimp only
          split
          · exact ih
          · exact .failTraced _

omit steady in
theorem steady_receiverFor {s : Subst} {receiver : Option Ty} :
    Keeps d st (receiverFor requests site s receiver) fun _ _ => True := by
  cases receiver with
  | none => exact .pure trivial
  | some ty => exact (steady_demand follows own).bind fun _ _ _ _ _ => .pure trivial

theorem steady_planCtor {cls : ClassId} {index : Nat} {ty : Ty} :
    Keeps d st (src.planCtor requests site key cls index ty) fun _ _ => True := by
  refine steady_constructing steady key _ fun _ => ?_
  dsimp only
  split
  · exact .throw _
  · refine (steady_arguments steady follows own).bind fun _ _ _ _ _ => ?_
    exact (steady_alloc steady _).mono fun _ _ _ _ _ => trivial

theorem steady_planCall {b : MemberBinding} {s : Subst} :
    Keeps d st (src.planCall requests site key b s) fun _ _ => True := by
  refine steady_constructing steady key _ fun _ => ?_
  refine (steady_receiverFor follows own).bind fun _ _ _ _ _ => ?_
  refine (steady_arguments steady follows own).bind fun _ _ _ _ _ => ?_
  exact (steady_alloc steady _).mono fun _ _ _ _ _ => trivial

theorem steady_planKept {path : FieldPath} :
    Keeps d st (planKept requests site key path) fun _ _ => True := by
  have unwrapped : (site.unwrap key).catalog = catalog := own
  refine (steady_demand follows unwrapped).bind fun _ _ _ _ _ => ?_
  exact (steady_alloc steady _).mono fun _ _ _ _ _ => trivial

theorem steady_planMember {b : MemberBinding} {s : Subst} :
    Keeps d st (src.planMember requests site key b s) fun _ _ => True := by
  simp only [planMember]
  split
  · exact steady_planKept steady follows own
  · exact steady_planCall steady follows own

theorem steady_contributorSlots {contributors : List MemberBinding} :
    Keeps d st (src.contributorSlots requests site contributors) fun _ _ => True := by
  induction contributors generalizing st with
  | nil => exact .pure trivial
  | cons b rest ih =>
      refine (steady_planCall steady follows own).bind fun _ _ _ _ _ => ?_
      exact ih.bind fun _ _ _ _ _ => .pure trivial

theorem steady_planBinding {b : Binding} :
    Keeps d st (src.planBinding requests site key b) fun _ _ => True := by
  have alloc_ (st : PlannerState) (p : Plan) : Keeps d st (alloc p) fun _ _ => True :=
    (steady_alloc steady p).mono fun _ _ _ _ _ => trivial
  cases b with
  | ctor cls index ty path scopedIn =>
      simp only [planBinding]
      split
      · exact steady_planKept steady follows own
      · exact steady_planCtor steady follows own
  | member b => exact steady_planMember steady follows own
  | container kind contributors =>
      exact (steady_contributorSlots steady follows own).bind fun _ _ _ _ _ => alloc_ _ _
  | object cls => exact alloc_ _ _

/-! ## Values built later, and generic members -/

theorem steady_planFunctionCall {f : MemberId} {params : List Ty} :
    Keeps d st (src.planFunctionCall requests site key f params) fun _ _ => True := by
  refine steady_deferred steady (steady_constructing steady key _ fun _ => ?_)
  refine (steady_nameParams steady 0 params).bind fun lambda _ _ _ _ => ?_
  have inside : (site.inside lambda).catalog = catalog := own
  refine (steady_receiverFor follows inside).bind fun _ _ _ _ _ => ?_
  refine (steady_arguments steady follows inside).bind fun _ _ _ _ _ => ?_
  exact (steady_alloc steady _).mono fun _ _ _ _ _ => trivial

theorem steady_planFunction :
    Keeps d st (src.planFunction requests site key) fun _ _ => True := by
  simp only [planFunction]
  split
  · exact .failTraced _
  · split
    · exact steady_planFunctionCall steady follows own
    · refine .bind (steady_deferred steady ?_) fun _ _ _ _ _ =>
        (steady_alloc steady _).mono fun _ _ _ _ _ => trivial
      refine (steady_nameParams steady 0 _).bind fun lambda _ _ _ _ => ?_
      have inside : (site.inside lambda).catalog = catalog := own
      exact (steady_demand follows inside).bind fun _ _ _ _ _ => .pure trivial

theorem steady_planLazy : Keeps d st (planLazy requests site key) fun _ _ => True := by
  simp only [planLazy]
  split
  · exact .failTraced _
  · refine (steady_deferred steady (steady_demand follows own)).bind fun _ _ _ _ _ => ?_
    exact (steady_alloc steady _).mono fun _ _ _ _ _ => trivial

theorem steady_planGeneric :
    Keeps d st (src.planGeneric requests site key) fun _ _ => True := by
  simp only [planGeneric]
  split
  · exact .pure trivial
  · exact (steady_planMember steady follows own).bind fun _ _ _ _ _ => .pure trivial
  · exact .failTraced _

/-! ## Requests -/

theorem steady_planFor :
    Keeps d st (src.planFor requests site key) fun _ _ => True := by
  simp only [planFor]
  split
  · exact .throw _
  · split
    · exact (steady_alloc steady _).bind fun _ _ _ _ _ => .pure trivial
    · refine (Keeps.bindingFor fun _ => steady_report steady _).bind fun answer _ _ _ _ => ?_
      cases answer with
      | some b =>
          exact (steady_planBinding steady follows own).bind fun _ _ _ _ _ => .pure trivial
      | none =>
          dsimp only
          split
          · exact (steady_planFunction steady follows own).bind fun _ _ _ _ _ => .pure trivial
          · split
            · exact (steady_planLazy steady follows own).bind fun _ _ _ _ _ => .pure trivial
            · exact steady_planGeneric steady follows own

end Requests

/-! ## Accessors -/

variable {m : MemberId} (follows : d.Follows site.catalog src.request)

include follows

theorem steady_implement (inv : d.inv st) :
    d.inv ((src.implement site m).runFrom st).2 ∧
      d.le st ((src.implement site m).runFrom st).2 := by
  have built (start : PlannerState) : Keeps d start
      (constructing (src.accessorKey site.catalog m) (.member m) do
        return (← src.resolve site (src.accessorKey site.catalog m)).id) fun _ _ => True := by
    refine steady_constructing steady _ _ fun _ => ?_
    exact (steady_demand follows rfl).bind fun _ _ _ _ _ => .pure trivial
  have begun : d.inv st.afresh := steady.inv_aside _ _ _ inv
  obtain ⟨inv', le, -⟩ :=
    Discipline.implement (steady_report steady) (fun start _ => built start) begun
  exact ⟨inv', d.trans (steady.le_aside st _ _ _) le⟩

theorem steady_implementAll (within : ∀ {s t}, d.le s t → s.Within t)
    (inv : d.inv st) : d.inv ((src.implementAll site).run st).2 := by
  refine (Regime.implementEach_induction d.inv (fun _ _ => True) (fun _ _ _ _ _ _ => trivial)
    (fun m _ st inv => ?_) inv).1
  obtain ⟨inv', le⟩ := steady_implement steady follows inv
  exact ⟨inv', within le, fun _ _ => trivial⟩

end Source

end Injector
