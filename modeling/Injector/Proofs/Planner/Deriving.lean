/-
# Injector.Proofs.Planner.Deriving -- planning derives what it answers

Every answer of the planner is derived for the request that it answers, and every kept plan
for a request that it was made for.  There is one lemma for each function of the planner, in
the order of their definitions; `derives_requestTo` closes the circle by induction on the
depth, and `planned_rooted` says it of the accessors.
-/
import Injector.Proofs.Planner.Derivations
import Injector.Proofs.Planner.Parameters
import Injector.Proofs.Planner.Planning

namespace Injector

set_option autoImplicit false

open PlanM
open BuildStack (above?)
open LambdaParam (names types)

theorem Site.inside_nil (site : Site) : site.inside [] = site := by
  simp [Site.inside]

namespace Source

variable (src : Source) (catalog : Catalog)

/-- Each kept plan is closed, and derived for a request for its key. -/
def CacheDerived (st : PlannerState) : Prop :=
  ∀ key id, st.cache.get? key = some id → st.arena.isClosed id = true ∧
    ∃ site s, src.Derived catalog st.arena site s (.value false key) id

/-- Kept plans are derived; plans stay, and so do the entries on the stack. -/
def tracing : Discipline where
  inv := src.CacheDerived catalog
  le st next := st.arena.Within next.arena ∧ next.stack.entries = st.stack.entries
  refl _ := ⟨.refl _, rfl⟩
  trans := fun ⟨w, e⟩ ⟨w', e'⟩ => ⟨w.trans w', e'.trans e⟩

/-- The slot is derived for a request for its key. -/
def Serving (site : Site) (s : List BuildEntry) (a : Arena) (slot : Slot) : Prop :=
  src.Derived catalog a site s (.value false slot.key) slot.id

/-- Requests that are posed get answers that are derived. -/
def Derives (requests : Requests) : Prop :=
  ∀ bare site key st, src.Posed catalog bare site st.stack.entries key →
    Keeps (src.tracing catalog) st (requests site key) fun answer next => ∀ slot ∈ answer,
      slot.key = key ∧
        src.Derived catalog next.arena site st.stack.entries (.value bare key) slot.id

variable {src catalog} {bare : Bool} {site : Site} {key : Key} {st next : PlannerState} {c : Call}

theorem CacheDerived.of_within (derived : src.CacheDerived catalog st)
    (cache : next.cache = st.cache) (within : st.arena.Within next.arena) :
    src.CacheDerived catalog next := by
  intro key id found
  rw [cache] at found
  obtain ⟨closed, site, s, derived⟩ := derived key id found
  exact ⟨(within.isClosed_eq derived.lt_size).trans closed, site, s, derived.mono within⟩

/-! ## Steps -/

theorem derives_report (findings : List Finding) :
    Keeps (src.tracing catalog) st (report findings) fun _ _ => True :=
  .of_ok (runFrom_report findings st) fun inv => ⟨inv, ⟨.refl _, rfl⟩, trivial⟩

theorem derives_alloc (p : Plan) :
    Keeps (src.tracing catalog) st (alloc p) fun id next => next.arena.plan? id = some p :=
  .of_ok (runFrom_alloc p st) fun inv =>
    ⟨inv.of_within rfl (.alloc st.arena p), ⟨.alloc st.arena p, rfl⟩, Regime.plan?_add st p⟩

theorem derives_nameParams {n : Nat} {tys : List Ty} :
    Keeps (src.tracing catalog) st (nameParams n tys) fun lambda _ => types lambda = tys := by
  obtain ⟨lambda, supply, run, fresh⟩ := exists_runFrom_nameParams n tys st
  exact .of_ok run fun inv => ⟨inv, ⟨.refl _, rfl⟩, fresh.types_eq⟩

theorem derives_remember {id : PlanId} {s : List BuildEntry}
    (derived : src.Derived catalog st.arena site s (.value false key) id) :
    Keeps (src.tracing catalog) st (remember key id) fun _ _ => True := by
  refine .of_ok (runFrom_remember key id st) fun inv => ?_
  split
  · rename_i closed
    refine ⟨fun other old found => ?_, ⟨.refl _, rfl⟩, trivial⟩
    rcases Table.of_get?_insertNew found with found | ⟨rfl, rfl⟩
    · exact inv other old found
    · exact ⟨closed, site, s, derived⟩
  · exact ⟨inv, (src.tracing catalog).refl st, trivial⟩

/-- What is done with an entry more on the stack, and the way back. -/
theorem popTo_of_push {entry : BuildEntry} (inv : src.CacheDerived catalog next)
    (le : (src.tracing catalog).le (st.push entry) next) :
    src.CacheDerived catalog (next.popTo st.stack.height) ∧
      (src.tracing catalog).le st (next.popTo st.stack.height) :=
  ⟨inv.of_within rfl (.refl _), le.1, (BuildStack.push_popTo st.stack le.2).2⟩

theorem derives_deferred {α : Type} {act : PlanM α} (post : α → Arena → Prop)
    (inside : Keeps (src.tracing catalog) (st.push .deferred) act fun a next => post a next.arena) :
    Keeps (src.tracing catalog) st (deferred act) fun a next => post a next.arena := by
  intro inv
  obtain ⟨inv', le, holds⟩ := inside (inv.of_within rfl (.refl _))
  rw [runFrom_deferred]
  obtain ⟨popped, le'⟩ := popTo_of_push inv' le
  exact ⟨popped, le', holds⟩

/-- A plan is left alone, or a variable is declared around it. -/
theorem derives_closeCycle (key : Key) (id : PlanId) :
    Keeps (src.tracing catalog) st (closeCycle key id) fun last next => last = id ∨
      ∃ name, next.arena.plan? last = some (.lateInit name ⟨key, id⟩) := by
  refine Keeps.get.bind fun seen mid _ _ same => ?_
  obtain ⟨rfl, rfl⟩ := same
  split
  · exact .pure (.inl rfl)
  · exact .pure (.inl rfl)
  · exact .pure (.inl rfl)
  · exact .pure (.inl rfl)
  · have entries : (mid.stack.claim key).2.entries = mid.stack.entries := by
      rw [BuildStack.claim]
      split <;> rfl
    have claim : Keeps (src.tracing catalog) mid
        (modifyGet fun st => ((st.stack.claim key).1, { st with stack := (st.stack.claim key).2 }))
        fun _ _ => True :=
      .of_ok (runFrom_modifyGet _ mid) fun inv =>
        ⟨inv.of_within rfl (.refl _), ⟨.refl _, entries⟩, trivial⟩
    refine claim.bind fun claimed last _ _ _ => ?_
    cases claimed with
    | some name => exact (derives_alloc _).mono fun _ _ _ _ found => .inr ⟨name, found⟩
    | none => exact .pure (.inl rfl)

/-- An element is met again, or entered; then the answer is what was built inside or a variable
around it. -/
theorem derives_constructing {act : PlanM PlanId} (key : Key) (element : Element)
    (built : PlanId → Arena → Prop)
    (inside : .building element ∉ st.stack.entries →
      Keeps (src.tracing catalog) (st.push (.building element)) act fun id next =>
        built id next.arena)
    (stable : ∀ {id a b}, Arena.Within a b → built id a → built id b) :
    Keeps (src.tracing catalog) st (constructing key element act) fun id next =>
      (.building element ∈ st.stack.entries ∧
          ∃ name, next.arena.plan? id = some (.localVar name)) ∨
        .building element ∉ st.stack.entries ∧ ∃ inner, built inner next.arena ∧
          (id = inner ∨ ∃ name, next.arena.plan? id = some (.lateInit name ⟨key, inner⟩)) := by
  cases met : above? element st.stack.entries with
  | none =>
      intro inv
      have new := BuildStack.not_building_of_above? met
      have outcome := inside new (inv.of_within rfl (.refl _))
      rw [runFrom_constructing_entered key act met, runFrom_bind, runFrom_restoring]
      generalize act.runFrom (st.push (.building element)) = ran at outcome
      obtain ⟨answer, after⟩ := ran
      obtain ⟨inv', le, holds⟩ := outcome
      obtain ⟨popped, le'⟩ := popTo_of_push inv' le
      cases answer with
      | error _ => exact ⟨popped, le', by simp⟩
      | ok id =>
          obtain ⟨inv'', le'', holds'⟩ := derives_closeCycle key id popped
          refine ⟨inv'', (src.tracing catalog).trans le' le'', fun last done => .inr ⟨new, id, ?_⟩⟩
          exact ⟨stable le''.1 (holds id rfl), holds' last done⟩
  | some above =>
      have again := BuildStack.building_of_above? met
      by_cases later : above.contains .deferred = true
      · have run := runFrom_constructing_closes key act met later
        have found (st : PlannerState) (name : String) :
            (st.add (.localVar name)).arena.plan? st.arena.size = some (.localVar name) :=
          Regime.plan?_add st _
        split at run
        · exact .of_ok run fun inv => ⟨inv.of_within rfl (.alloc _ _), ⟨.alloc _ _, rfl⟩,
            .inl ⟨again, _, found _ _⟩⟩
        · exact .of_ok run fun inv => ⟨inv.of_within rfl (.alloc _ _), ⟨.alloc _ _, rfl⟩,
            .inl ⟨again, _, found (st.await _ _) _⟩⟩
      · exact .of_error (runFrom_constructing_endless key act met (Bool.eq_false_iff.mpr later))
          fun inv => ⟨inv, (src.tracing catalog).refl st⟩

theorem derives_call (c : Call) {act : PlanM PlanId}
    (inside : Keeps (src.tracing catalog) (st.push (.building c.element)) act fun id next =>
      src.Derived catalog next.arena site (.building c.element :: st.stack.entries) (.step c) id) :
    Keeps (src.tracing catalog) st (constructing c.key c.element act) fun id next =>
      src.Derived catalog next.arena site st.stack.entries (.call c) id := by
  let built (id : PlanId) (a : Arena) : Prop :=
    src.Derived catalog a site (.building c.element :: st.stack.entries) (.step c) id
  refine (derives_constructing c.key c.element built (fun _ => inside)
    fun within derived => Derived.mono derived within).mono fun id next _ _ said => ?_
  rcases said with ⟨again, name, found⟩ | ⟨new, inner, derived, rfl | ⟨name, found⟩⟩
  · exact .variable again found
  · exact .made new derived
  · exact .late new found derived

/-! ## Calls -/

theorem derives_bindingFor :
    Keeps (src.tracing catalog) st (src.bindingFor site key) fun answer _ =>
      match answer with
      | some b => (src.choose site.catalog key).1 = .binding b
      | none => src.Unbound site.catalog key :=
  (Keeps.bindingFor fun _ => derives_report _).mono fun _ _ _ _ said => said.1

section Requests

variable {requests : Requests} (derives : src.Derives catalog requests)

include derives

theorem derives_demand (posed : src.Posed catalog bare site st.stack.entries key) :
    Keeps (src.tracing catalog) st (demand requests site key) fun slot next =>
      slot.key = key ∧
        src.Derived catalog next.arena site st.stack.entries (.value bare key) slot.id := by
  simp only [demand]
  refine (derives bare site key st posed).bind fun answer next _ _ said => ?_
  cases answer with
  | none => exact .failTraced _
  | some slot => exact .pure (said slot rfl)

theorem derives_arguments {subst : Subst} {element : Element} {params : List ParamDecl}
    {out : Table String Slot}
    (posed : ∀ param ∈ params,
      src.Posed catalog false site st.stack.entries (src.paramKey subst param))
    {allowed : List Key} (among : ∀ param ∈ params, src.paramKey subst param ∈ allowed)
    (before : ∀ slot ∈ out.values, slot.key ∈ allowed ∧
      src.Serving catalog site st.stack.entries st.arena slot) :
    Keeps (src.tracing catalog) st (src.arguments requests site subst element params out)
      fun args next => (∀ slot ∈ args.values, slot.key ∈ allowed ∧
        src.Serving catalog site st.stack.entries next.arena slot) ∧
        src.Fills subst out params args := by
  induction params generalizing out st with
  | nil => exact .pure ⟨before, .nil src subst out⟩
  | cons param rest ih =>
      simp only [arguments]
      refine (derives_report _).bind fun _ mid _ le _ => ?_
      have first : src.Posed catalog false site mid.stack.entries (src.paramKey subst param) :=
        le.2 ▸ posed param List.mem_cons_self
      refine (derives false site _ mid first).bind fun answer next _ le' said => ?_
      have entries : next.stack.entries = st.stack.entries := le'.2.trans le.2
      have others : ∀ p ∈ rest,
          src.Posed catalog false site next.stack.entries (src.paramKey subst p) :=
        fun p mem => entries ▸ posed p (List.mem_cons_of_mem param mem)
      have among' := fun p mem => among p (List.mem_cons_of_mem param mem)
      have kept : ∀ slot ∈ out.values, slot.key ∈ allowed ∧
          src.Serving catalog site next.stack.entries next.arena slot := by
        intro slot mem
        rw [entries]
        exact ⟨(before slot mem).1, (before slot mem).2.mono (le.1.trans le'.1)⟩
      rw [← entries]
      cases answer with
      | none =>
          dsimp only
          split
          · rename_i omitted
            exact (ih others among' kept).mono fun args last _ _ passed =>
              ⟨passed.1, passed.2.leaveOut omitted⟩
          · exact .failTraced _
      | some slot =>
          obtain ⟨same, derived⟩ := said slot rfl
          have given : ∀ c ∈ (out.insert param.name slot).values, c.key ∈ allowed ∧
              src.Serving catalog site next.stack.entries next.arena c := by
            intro c mem
            rcases Table.mem_values_insert mem with rfl | mem
            · rw [Serving, same, le'.2]
              exact ⟨among param List.mem_cons_self, derived⟩
            · exact kept c mem
          exact (ih others among' given).mono fun args last _ _ passed =>
            ⟨passed.1, passed.2.give same⟩

theorem derives_receiverFor {subst : Subst} {receiver : Option Ty}
    (posed : ∀ ty ∈ receiver,
      src.Posed catalog false site st.stack.entries (receiverKey subst ty)) :
    Keeps (src.tracing catalog) st (receiverFor requests site subst receiver) fun answer next =>
      answer.map (·.key) = receiver.map (receiverKey subst) ∧
        ∀ slot ∈ answer, src.Serving catalog site st.stack.entries next.arena slot := by
  cases receiver with
  | none => exact .pure ⟨rfl, nofun⟩
  | some ty =>
      refine (derives_demand derives (posed ty rfl)).bind fun slot next _ _ said => ?_
      refine .pure ⟨congrArg some said.1, fun other mem => ?_⟩
      obtain rfl := Option.some.inj mem
      rw [Serving, said.1]
      exact said.2

/-- The receiver and the arguments of a call, and the step that needs them. -/
theorem derives_inputs (site : Site) (st : PlannerState) (c : Call) (lambda : List LambdaParam)
    (plan : Option Slot → Table String Slot → Plan)
    (posed : ∀ asked ∈ src.asks c,
      src.Posed catalog false (site.inside lambda) st.stack.entries asked)
    (children : ∀ receiver args, (plan receiver args).children = receiver.toList ++ args.values ∧
      (plan receiver args).inputs = (receiver, args))
    (makes : ∀ receiver args, src.Makes site c lambda (plan receiver args)) :
    Keeps (src.tracing catalog) st
      (do
        let receiver ← receiverFor requests (site.inside lambda) c.subst c.receiver
        let args ← src.arguments requests (site.inside lambda) c.subst c.element c.params {}
        alloc (plan receiver args))
      fun id next => src.Derived catalog next.arena site st.stack.entries (.step c) id := by
  have forReceiver : ∀ ty ∈ c.receiver, src.Posed catalog false (site.inside lambda)
      st.stack.entries (receiverKey c.subst ty) :=
    fun ty mem => posed _ (List.mem_append_left _ (by simp [Option.mem_def.mp mem]))
  refine (derives_receiverFor derives forReceiver).bind fun receiver mid _ le received => ?_
  have forParams : ∀ param ∈ c.params, src.paramKey c.subst param ∈ src.asks c :=
    fun param mem => List.mem_append_right _ (List.mem_map_of_mem mem)
  refine (derives_arguments derives (fun param mem => ?_) forParams
    fun _ mem => absurd mem List.not_mem_nil).bind fun args last _ le' passed => ?_
  · rw [le.2]
    exact posed _ (forParams param mem)
  refine (derives_alloc _).mono fun id next _ le'' found => ?_
  have serving : ∀ child ∈ (plan receiver args).children, child.key ∈ src.asks c ∧
      src.Serving catalog (site.inside lambda) st.stack.entries next.arena child := by
    intro child mem
    rw [(children receiver args).1] at mem
    rcases List.mem_append.mp mem with mem | mem
    · have there := Option.mem_toList.mp mem
      have among : child.key ∈ c.receiver.map (receiverKey c.subst) := by
        rw [← received.1, Option.mem_def.mp there]
        rfl
      exact ⟨List.mem_append_left _ (Option.mem_toList.mpr among),
        (received.2 child there).mono (le'.1.trans le''.1)⟩
    · obtain ⟨among, derived⟩ := passed.1 child mem
      rw [le.2] at derived
      exact ⟨among, derived.mono le''.1⟩
  have passes : src.Passes c (plan receiver args) := by
    refine ⟨fun child mem => (serving child mem).1, ?_, ?_⟩
    · rw [(children receiver args).2]
      exact received.1
    · rw [(children receiver args).2]
      exact passed.2.supplies
  exact .step (makes receiver args) found passes fun child mem => (serving child mem).2

theorem derives_planCtor {cls : ClassId} {index : Nat} {ty : Ty}
    (posed : src.Posed catalog bare site st.stack.entries key)
    (mem : src.ctorCall key cls index ty ∈ src.calls catalog key) :
    Keeps (src.tracing catalog) st (src.planCtor requests site key cls index ty) fun id next =>
      src.Derived catalog next.arena site st.stack.entries
        (.call (src.ctorCall key cls index ty)) id := by
  refine derives_call (src.ctorCall key cls index ty) ?_
  dsimp only
  cases declared : (src.program.classAt cls).ctors[index]? with
  | none => exact .throw _
  | some ctor =>
      have among : ∀ param ∈ ctor.params,
          src.paramKey ((src.program.classAt cls).substFor ty) param ∈
            src.asks (src.ctorCall key cls index ty) := by
        intro param mem
        refine List.mem_append_right _ (List.mem_map.mpr ⟨param, ?_, rfl⟩)
        simpa only [ctorCall, declared, Option.map_some, Option.getD_some] using mem
      refine (derives_arguments derives (fun param inside => posed.asked mem (among param inside))
        among fun _ mem => absurd mem List.not_mem_nil).bind fun args mid _ _ passed => ?_
      refine (derives_alloc _).mono fun id next _ le found => ?_
      have makes : src.Makes site (src.ctorCall key cls index ty) []
          (.construct ty args ctor.namedArguments) := .ctor
      have passes : src.Passes (src.ctorCall key cls index ty)
          (.construct ty args ctor.namedArguments) := by
        refine ⟨fun child mem => (passed.1 child mem).1, rfl, ?_⟩
        simp only [ctorCall, declared, Option.map_some, Option.getD_some]
        exact passed.2.supplies
      refine .step makes found passes fun child mem => ?_
      rw [Site.inside_nil]
      exact (passed.1 child mem).2.mono le.1

theorem derives_planCall {b : MemberBinding} {subst : Subst} {k : Key}
    (posed : src.Posed catalog bare site st.stack.entries key)
    (mem : src.memberCall k b.member subst false ∈ src.calls catalog key) :
    Keeps (src.tracing catalog) st (src.planCall requests site k b subst) fun id next =>
      src.Derived catalog next.arena site st.stack.entries
        (.call (src.memberCall k b.member subst false)) id := by
  refine derives_call (src.memberCall k b.member subst false) ?_
  let plan (receiver : Option Slot) (args : Table String Slot) : Plan :=
    .provide site.className (src.program.memberAt b.member).name b.path receiver
      ((src.program.memberAt b.member).kind == .property) args
  have inputs := derives_inputs derives site (st.push (.building (.member b.member)))
    (src.memberCall k b.member subst false) [] plan
    (fun asked asks => by
      rw [Site.inside_nil]
      exact posed.asked mem asks)
    (fun _ _ => ⟨rfl, rfl⟩) fun _ _ => .member
  rwa [Site.inside_nil] at inputs

theorem derives_planKept {path : FieldPath}
    (posed : src.Posed catalog bare site st.stack.entries key)
    (absent : site.findParam src.program key = none) (built : src.calls catalog key ≠ [])
    (kept : src.keeper? catalog key = some path) :
    Keeps (src.tracing catalog) st (planKept requests site key path) fun id next =>
      src.Derived catalog next.arena site st.stack.entries (.value bare key) id := by
  simp only [planKept]
  refine (derives_demand derives (posed.unwrap built)).bind fun slot mid _ _ said => ?_
  obtain ⟨same, derived⟩ := said
  refine (derives_alloc _).mono fun id next _ le found => ?_
  have result : slot = ⟨key, slot.id⟩ := by rw [← same]
  rw [result] at found
  exact .keep posed absent kept found (derived.mono le.1)

omit derives in
/-- What is called although its value may have a scope. -/
theorem unkept {scopedIn : Option ClassId} {path : FieldPath}
    (direct : ¬(scopedIn.isSome && !site.isUnwrapping key) = true) :
    (scopedIn.map fun _ => path) = none ∨ site.unwrapping = some key := by
  cases scopedIn with
  | none => exact .inl rfl
  | some cls => exact .inr (by simpa [Site.isUnwrapping] using direct)

omit derives in
theorem isSome_of_kept {scopedIn : Option ClassId}
    (wrap : (scopedIn.isSome && !site.isUnwrapping key) = true) (path : FieldPath) :
    (scopedIn.map fun _ => path) = some path := by
  cases scopedIn with
  | none => cases wrap
  | some cls => rfl

theorem derives_planMember {b : MemberBinding} {subst : Subst}
    (posed : src.Posed catalog bare site st.stack.entries key)
    (absent : site.findParam src.program key = none)
    (answers : src.Answers catalog key (src.memberCall key b.member subst false))
    (kept : src.keeper? catalog key = b.scopedIn.map fun _ => b.path) :
    Keeps (src.tracing catalog) st (src.planMember requests site key b subst) fun id next =>
      src.Derived catalog next.arena site st.stack.entries (.value bare key) id := by
  simp only [planMember]
  split
  · rename_i wrap
    exact derives_planKept derives posed absent (List.ne_nil_of_mem answers.mem)
      (kept.trans (isSome_of_kept wrap b.path))
  · rename_i direct
    refine (derives_planCall derives posed answers.mem).mono fun id next _ _ derived => ?_
    exact .call posed answers rfl (kept ▸ unkept direct) derived

theorem derives_contributorSlots {contributors : List MemberBinding}
    (posed : src.Posed catalog bare site st.stack.entries key)
    (mem : ∀ b ∈ contributors, src.memberCall (src.contributionKey b) b.member .empty false ∈
      src.calls catalog key) :
    Keeps (src.tracing catalog) st (src.contributorSlots requests site contributors)
      fun slots next => ∃ rows : List (MemberBinding × Slot),
        contributors = rows.map (·.1) ∧ slots = rows.map (·.2) ∧
          ∀ row ∈ rows, row.2.key = src.contributionKey row.1 ∧
            src.Derived catalog next.arena site st.stack.entries
              (.call (src.memberCall row.2.key row.1.member .empty false)) row.2.id := by
  induction contributors generalizing st with
  | nil => exact .pure ⟨[], rfl, rfl, List.forall_mem_nil _⟩
  | cons b rest ih =>
      simp only [contributorSlots]
      refine (derives_planCall derives posed (mem b List.mem_cons_self)).bind
        fun id mid _ le first => ?_
      have others := fun b among => mem b (List.mem_cons_of_mem _ among)
      refine (ih (le.2 ▸ posed) others).bind fun slots next _ le' said => .pure ?_
      obtain ⟨rows, rfl, rfl, derived⟩ := said
      refine ⟨(b, ⟨src.contributionKey b, id⟩) :: rows, rfl, rfl,
        List.forall_mem_cons.mpr ⟨⟨rfl, first.mono le'.1⟩, fun row among => ?_⟩⟩
      obtain ⟨same, derived⟩ := derived row among
      exact ⟨same, le.2 ▸ derived⟩

theorem derives_planBinding {b : Binding}
    (posed : src.Posed catalog bare site st.stack.entries key)
    (absent : site.findParam src.program key = none)
    (chosen : (src.choose catalog key).1 = .binding b) :
    Keeps (src.tracing catalog) st (src.planBinding requests site key b) fun id next =>
      src.Derived catalog next.arena site st.stack.entries (.value bare key) id := by
  have calls := calls_of_binding chosen
  cases b with
  | ctor cls index ty path scopedIn =>
      have kept : src.keeper? catalog key = scopedIn.map fun _ => path := by
        simp only [keeper?, chosen]
      have answers : src.Answers catalog key (src.ctorCall key cls index ty) :=
        ⟨calls, by simp [chosen], rfl⟩
      simp only [planBinding]
      split
      · rename_i wrap
        exact derives_planKept derives posed absent (List.ne_nil_of_mem answers.mem)
          (kept.trans (isSome_of_kept wrap path))
      · rename_i direct
        refine (derives_planCtor derives posed answers.mem).mono fun id next _ _ derived => ?_
        exact .call posed answers rfl (kept ▸ unkept direct) derived
  | member b =>
      have kept : src.keeper? catalog key = b.scopedIn.map fun _ => b.path := by
        simp only [keeper?, chosen]
      exact derives_planMember derives posed absent ⟨calls, by simp [chosen], rfl⟩ kept
  | container kind contributors =>
      refine (derives_contributorSlots derives posed fun b among => ?_).bind
        fun slots mid _ _ said => ?_
      · rw [calls]
        exact List.mem_map_of_mem among
      · refine (derives_alloc _).mono fun id next _ le found => ?_
        obtain ⟨rows, rfl, rfl, derived⟩ := said
        exact .container posed chosen found (fun row mem => (derived row mem).1)
          fun row mem => (derived row mem).2.mono le.1
  | object cls => exact (derives_alloc _).mono fun id next _ _ found => .object posed found

/-! ## Values built later -/

theorem derives_planFunctionCall {f : MemberId}
    (posed : src.Posed catalog bare site st.stack.entries key)
    (answers : src.Answers catalog key (src.memberCall key f .empty true)) :
    Keeps (src.tracing catalog) st
      (src.planFunctionCall requests site key f key.ty.dealias.args.dropLast) fun id next =>
        src.Derived catalog next.arena site st.stack.entries (.value bare key) id := by
  let called (id : PlanId) (a : Arena) : Prop := src.Derived catalog a site
    (.deferred :: st.stack.entries) (.call (src.memberCall key f .empty true)) id
  refine (derives_deferred called (derives_call _ ?_)).mono fun id next _ _ derived =>
    .functionCall posed answers rfl derived
  refine derives_nameParams.bind fun lambda start _ le same => ?_
  have entries : start.stack.entries = .building (.member f) :: .deferred :: st.stack.entries :=
    le.2
  let plan (receiver : Option Slot) (args : Table String Slot) : Plan := .namedFunction
    (src.program.memberAt f).package (src.program.memberAt f).name (names lambda) receiver args
  have inputs := derives_inputs derives site start (src.memberCall key f .empty true) lambda plan
    (fun asked asks => by
      rw [entries]
      exact posed.lambda answers.mem rfl (same ▸ List.prefix_rfl) asks)
    (fun _ _ => ⟨rfl, rfl⟩) fun _ _ => .lambda
  rwa [entries] at inputs

theorem derives_planFunction (posed : src.Posed catalog bare site st.stack.entries key)
    (unbound : src.Unbound catalog key) (function : key.ty.isFunction = true) :
    Keeps (src.tracing catalog) st (src.planFunction requests site key) fun id next =>
      src.Derived catalog next.arena site st.stack.entries (.value bare key) id := by
  simp only [planFunction]
  split
  · exact .failTraced _
  · rename_i result last
    split
    · rename_i f aliased
      have nothing : (src.choose catalog key).1 = .nothing := unbound
      refine derives_planFunctionCall derives posed ⟨?_, by simp [nothing], rfl⟩
      rw [calls_of_unbound unbound]
      simp [unboundCalls, function, aliased]
    · rename_i aliased
      have inner : src.innerKey? key = some (.of result key.qualifier) := by
        simp [innerKey?, function, aliased, last]
      let served (answer : List LambdaParam × Slot) (a : Arena) : Prop :=
        answer.2.key = .of result key.qualifier ∧ src.Serving catalog (site.inside answer.1)
          (.deferred :: st.stack.entries) a answer.2
      refine (derives_deferred served ?_).bind fun answer mid _ _ said => ?_
      · refine derives_nameParams.bind fun lambda start _ le same => ?_
        have entries : start.stack.entries = .deferred :: st.stack.entries := le.2
        have posed' : src.Posed catalog false (site.inside lambda) start.stack.entries
            (.of result key.qualifier) := by
          rw [entries]
          exact posed.inner unbound inner (fun _ => function) (same ▸ List.prefix_rfl)
        refine (derives_demand derives posed').bind fun slot next _ _ said => .pure ⟨said.1, ?_⟩
        rw [Serving, said.1, ← entries]
        exact said.2
      · obtain ⟨lambda, slot⟩ := answer
        obtain ⟨same, derived⟩ := said
        refine (derives_alloc _).mono fun id next _ le found => ?_
        obtain ⟨k, result⟩ := slot
        obtain rfl : k = _ := same
        exact .function posed unbound inner found (Derived.mono derived le.1)

theorem derives_planLazy (posed : src.Posed catalog bare site st.stack.entries key)
    (unbound : src.Unbound catalog key) (plain : key.ty.isFunction = false)
    (strict : key.ty.isLazy = true) :
    Keeps (src.tracing catalog) st (planLazy requests site key) fun id next =>
      src.Derived catalog next.arena site st.stack.entries (.value bare key) id := by
  simp only [planLazy]
  split
  · exact .failTraced _
  · rename_i ty first
    have inner : src.innerKey? key = some (.of ty key.qualifier) := by
      simp [innerKey?, plain, strict, first]
    have posed' : src.Posed catalog false site (.deferred :: st.stack.entries)
        (.of ty key.qualifier) :=
      site.inside_nil ▸ posed.inner unbound inner (by simp) List.nil_prefix
    let served (slot : Slot) (a : Arena) : Prop := slot.key = .of ty key.qualifier ∧
      src.Derived catalog a site (.deferred :: st.stack.entries)
        (.value false (.of ty key.qualifier)) slot.id
    refine (derives_deferred served (derives_demand derives posed')).bind
      fun slot mid _ _ said => ?_
    obtain ⟨k, result⟩ := slot
    obtain ⟨rfl, derived⟩ := said
    exact (derives_alloc _).mono fun id next _ le found =>
      .lazy posed unbound inner found (derived.mono le.1)

/-! ## Requests -/

theorem derives_planGeneric (posed : src.Posed catalog bare site st.stack.entries key)
    (absent : site.findParam src.program key = none) (unbound : src.Unbound catalog key)
    (plain : key.ty.isFunction = false) (strict : key.ty.isLazy = false) :
    Keeps (src.tracing catalog) st (src.planGeneric requests site key) fun answer next =>
      ∀ id ∈ answer, src.Derived catalog next.arena site st.stack.entries (.value bare key) id := by
  simp only [planGeneric]
  split
  · exact .nothing
  · rename_i b subst fits
    rw [posed.own] at fits
    have nothing : (src.choose catalog key).1 = .nothing := unbound
    have answers : src.Answers catalog key (src.memberCall key b.member subst false) := by
      refine ⟨?_, by simp [nothing], rfl⟩
      rw [calls_of_unbound unbound]
      simp [unboundCalls, plain, strict, fits]
    have kept : src.keeper? catalog key = b.scopedIn.map fun _ => b.path := by
      simp [keeper?, nothing, plain, strict, fits]
    exact (derives_planMember derives posed absent answers kept).bind
      fun id next _ _ derived => .found derived
  · exact .failTraced _

theorem derives_planFor (posed : src.Posed catalog bare site st.stack.entries key) :
    Keeps (src.tracing catalog) st (src.planFor requests site key) fun answer next =>
      ∀ id ∈ answer, src.Derived catalog next.arena site st.stack.entries (.value bare key) id := by
  simp only [planFor]
  split
  · exact .throw _
  · split
    · rename_i param found
      exact (derives_alloc _).bind fun id next _ _ there => .found (.param posed found there)
    · rename_i absent
      refine derives_bindingFor.bind fun answer mid _ le chosen => ?_
      rw [posed.own] at chosen
      have posed' : src.Posed catalog bare site mid.stack.entries key := le.2 ▸ posed
      rw [← le.2]
      cases answer with
      | some b =>
          exact (derives_planBinding derives posed' absent chosen).bind
            fun id next _ _ derived => .found derived
      | none =>
          dsimp only
          split
          · rename_i function
            exact (derives_planFunction derives posed' chosen function).bind
              fun id next _ _ derived => .found derived
          · rename_i plain
            rw [Bool.not_eq_true] at plain
            split
            · rename_i strict
              exact (derives_planLazy derives posed' chosen plain strict).bind
                fun id next _ _ derived => .found derived
            · rename_i strict
              rw [Bool.not_eq_true] at strict
              exact derives_planGeneric derives posed' absent chosen plain strict

end Requests

theorem derives_kept? (posed : src.Posed catalog bare site st.stack.entries key) :
    Keeps (src.tracing catalog) st (kept? site key) fun answer next =>
      ∀ id ∈ answer, src.Derived catalog next.arena site st.stack.entries (.value bare key) id := by
  refine Keeps.kept?.mono ?_
  rintro _ next inv - said id rfl
  obtain ⟨rfl, outside, fresh, found⟩ := said
  cases bare with
  | true =>
      have unwrapping := (posed.direct rfl).1
      simp [Site.isUnwrapping, unwrapping] at fresh
  | false =>
      obtain ⟨closed, other, s, derived⟩ := inv key id found
      exact .again posed outside closed derived

/-- One request is answered by what is derived when those that follow from it are. -/
theorem derives_requestWith {requests : Requests} (derives : src.Derives catalog requests) :
    src.Derives catalog (src.requestWith requests) := by
  intro bare site key st posed
  simp only [requestWith]
  refine (derives_kept? posed).bind fun answer mid _ le kept => ?_
  cases answer with
  | some id => exact .found ⟨rfl, kept id rfl⟩
  | none =>
      have posed' : src.Posed catalog bare site mid.stack.entries key := le.2 ▸ posed
      refine (derives_planFor derives posed').bind fun answer next _ le' said => ?_
      rw [le.2] at said
      cases answer with
      | none => exact .nothing
      | some id =>
          have derived := said id rfl
          dsimp only
          split
          · exact .found ⟨rfl, derived⟩
          · rename_i outside
            cases bare with
            | true => exact absurd (posed.direct rfl).1 (by simpa [Site.isUnwrapping] using outside)
            | false =>
                exact (derives_remember derived).bind fun _ last _ le _ =>
                  .found ⟨rfl, derived.mono le.1⟩

theorem derives_requestTo (depth : Nat) : src.Derives catalog (src.requestTo depth) := by
  induction depth with
  | zero => exact fun _ _ _ _ _ => .throw _
  | succ depth ih => exact derives_requestWith ih

theorem derives_request : src.Derives catalog src.request := fun bare site key =>
  derives_requestTo (src.requestDepth key) bare site key

/-! ## Accessors -/

variable {m : MemberId} {a b : Arena} {root : Slot}

variable (src catalog) in
/-- The slot is derived for the key of an accessor; a cycle may be closed around it. -/
def Rooted (a : Arena) (root : Slot) : Prop :=
  ∃ site s inner, src.Derived catalog a site s (.value false root.key) inner ∧
    (root.id = inner ∨ ∃ name, a.plan? root.id = some (.lateInit name ⟨root.key, inner⟩))

theorem Rooted.mono (rooted : src.Rooted catalog a root) (within : a.Within b) :
    src.Rooted catalog b root := by
  obtain ⟨site, s, inner, derived, same | ⟨name, found⟩⟩ := rooted
  · exact ⟨site, s, inner, derived.mono within, .inl same⟩
  · exact ⟨site, s, inner, derived.mono within, .inr ⟨name, within.plan?_of_some found⟩⟩

/-- Everything below an accessor is derived, but for a variable that is declared around it. -/
theorem Rooted.path {above : List Plan} {t : Slot} {p : Plan} (rooted : src.Rooted catalog a root)
    (path : Arena.Path a root above t) (found : a.plan? t.id = some p)
    (plain : p.declared? = none) :
    ∃ site s task, src.Derived catalog a site s task t.id ∧ task.key = t.key ∧
      src.Placed catalog above task := by
  obtain ⟨site, s, inner, derived, same | ⟨name, around⟩⟩ := rooted
  · have here : src.Derived catalog a site s (.value false root.key) root.id := same ▸ derived
    obtain ⟨site, s, task, derived, key, placed⟩ := here.path [] (.asked nofun) path
    exact ⟨site, s, task, derived, key, List.append_nil above ▸ placed⟩
  · rcases path.uncons with ⟨-, rfl⟩ | ⟨q, child, rest, there, mem, below, rfl⟩
    · cases around.symm.trans found
      cases plain
    · cases around.symm.trans there
      obtain rfl := List.mem_singleton.mp mem
      exact Derived.path derived _ (.asked nofun) below

theorem derives_implement (accessor : m ∈ site.catalog.own.accessors)
    (params : site.lambdaParams = []) (outside : site.unwrapping = none)
    (inv : src.CacheDerived site.catalog st) :
    src.CacheDerived site.catalog ((src.implement site m).runFrom st).2 ∧
      st.arena.Within ((src.implement site m).runFrom st).2.arena ∧
      ∀ entry, ((src.implement site m).runFrom st).1 = .ok entry →
        src.Rooted site.catalog ((src.implement site m).runFrom st).2.arena entry.result := by
  let key := src.accessorKey site.catalog m
  let derived (id : PlanId) (a : Arena) : Prop :=
    ∃ s, src.Derived site.catalog a site s (.value false key) id
  -- nothing is under construction yet, so a call is built
  have built (start : PlannerState) (le : (src.tracing site.catalog).le st.afresh start) :
      Keeps (src.tracing site.catalog) start
        (constructing key (.member m) do return (← src.resolve site key).id) fun id next =>
          ∃ inner, derived inner next.arena ∧
            (id = inner ∨ ∃ name, next.arena.plan? id = some (.lateInit name ⟨key, inner⟩)) := by
    have bare : start.stack.entries = [] := le.2
    refine (derives_constructing key (.member m) derived (fun _ => ?_)
      fun within ⟨s, derived⟩ => ⟨s, derived.mono within⟩).mono fun id next _ _ said => ?_
    · refine (derives_demand derives_request
        (Posed.accessor accessor rfl params outside _)).bind fun slot mid _ _ said => ?_
      exact .pure ⟨_, said.2⟩
    · rw [bare] at said
      obtain ⟨met, -⟩ | ⟨-, made⟩ := said
      · cases met
      · exact made
  have start : (src.tracing site.catalog).inv st.afresh := inv
  obtain ⟨inv', le, said⟩ := Discipline.implement derives_report built start
  refine ⟨inv', le.1, fun entry done => ?_⟩
  obtain ⟨same, inner, ⟨s, derived⟩, closed⟩ := said entry done
  rw [Rooted, same]
  exact ⟨site, s, inner, derived, closed⟩

/-- All accessors that succeed are rooted. -/
theorem derives_implementEach {accessors : List MemberId}
    (own : ∀ m ∈ accessors, m ∈ site.catalog.own.accessors)
    (params : site.lambdaParams = []) (outside : site.unwrapping = none)
    (inv : src.CacheDerived site.catalog st) :
    st.arena.Within ((src.implementEach site accessors).run st).2.arena ∧
      ∀ e ∈ ((src.implementEach site accessors).run st).1.entries,
        src.Rooted site.catalog ((src.implementEach site accessors).run st).2.arena e.result := by
  refine (Regime.implementEach_induction (src.CacheDerived site.catalog)
    (fun a e => src.Rooted site.catalog a e.result) ?_ (fun m mem st => ?_) inv).2
  · exact fun _ _ _ within _ rooted => rooted.mono within
  · exact derives_implement (own m mem) params outside

/-- Every accessor that is planned is derived for its key. -/
theorem planned_rooted (src : Source) (catalog : Catalog) (className : String) (log : Log) :
    ∀ e ∈ (src.planned className catalog log).entries,
      src.Rooted catalog (src.planned className catalog log).arena e.result := by
  have empty : src.CacheDerived catalog { log } := fun _ _ found => by cases found
  let site : Site := { className, catalog }
  have own : ∀ m ∈ catalog.own.accessors, m ∈ site.catalog.own.accessors := fun _ mem => mem
  exact (derives_implementEach own rfl rfl empty).2

end Source

end Injector
