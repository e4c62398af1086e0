/-
# Injector.Proofs.Planner.Tallying -- two ways to make requests

The functions of the planner make further requests in a way that they are given.  Two ways
that agree about the requests which follow from one, agree about that one when it is served
with either of them (`agree_requestWith`): the state afterwards is the same and so is the
answer, the entries on the stack are those from before, and an error is one that may occur.

Which requests there are (`due`, and `further` for those that follow from them) and which
errors (`fail`) is left open, but for the steps from one request to the next and for what can
be wrong at a request (`Descends`).  A cycle that waits may be reported later as one that was
never closed, with the elements that were on the stack when it was met (`Reportable`).  With
one way on both sides this says what becomes of the stack, and with what planning fails.

There is one lemma for each function of the planner.
-/
import Injector.Proofs.Planner.Constructions
import Injector.Proofs.Planner.Run

namespace Injector

set_option autoImplicit false

open PlanM
open BuildStack (above?)

/-- The entries on the stack are the same afterwards. -/
def upright : Discipline where
  inv _ := True
  le st next := next.stack.entries = st.stack.entries
  refl _ := rfl
  trans first second := second.trans first

/-- The elements among the entries, innermost first. -/
def BuildStack.elementsOf (entries : List BuildEntry) : List Element :=
  ({ entries } : BuildStack).elements

open BuildStack (elementsOf)

/-- Each cycle that waits is one that may be reported as never closed. -/
def Reportable (fail : PlanError → Prop) (st : PlannerState) : Prop :=
  ∀ q ∈ st.stack.pending, ∀ m, fail (.unclosed m q.path)

/-- From `st`, both do the same; it leaves the entries on the stack, `post` holds of the
answer, `fail` of an error, and what waits may be reported. -/
structure Tallies {α : Type} (fail : PlanError → Prop) (st : PlannerState) (act act' : PlanM α)
    (post : α → Prop) : Prop where
  same : act.runFrom st = act'.runFrom st
  meets : Meets upright st act (fun a _ => post a) fail
  waits : Reportable fail st → Reportable fail (act.runFrom st).2

/-- Going back to the height before an entry was pushed. -/
theorem entries_popTo {st next : PlannerState} {entry : BuildEntry}
    (same : next.stack.entries = (st.push entry).stack.entries) :
    (next.popTo st.stack.height).stack.entries = st.stack.entries :=
  (BuildStack.push_popTo st.stack same).2

namespace Tallies

variable {α β : Type} {fail : PlanError → Prop} {st : PlannerState} {act act' act'' : PlanM α}
  {post : α → Prop}

/-! ## Steps -/

theorem pure {a : α} (holds : post a) : Tallies fail st (Pure.pure a) (Pure.pure a) post :=
  ⟨rfl, .pure holds, id⟩

theorem throw {e : PlanError} (holds : fail e) :
    Tallies fail st (MonadExcept.throw e : PlanM α) (MonadExcept.throw e) post :=
  ⟨rfl, .throw holds, id⟩

theorem failTraced {error : List Element → PlanError}
    (holds : fail (error (elementsOf st.stack.entries))) :
    Tallies fail st (PlanM.failTraced error : PlanM α) (PlanM.failTraced error) post :=
  ⟨rfl, .failTraced holds, id⟩

theorem bind {f f' : α → PlanM β} {then' : β → Prop} (first : Tallies fail st act act' post)
    (rest : ∀ a next, next.stack.entries = st.stack.entries → post a →
      Tallies fail next (f a) (f' a) then') :
    Tallies fail st (act >>= f) (act' >>= f') then' := by
  obtain ⟨-, le, holds⟩ := first.meets.1 trivial
  have waits := first.waits
  refine ⟨?_, first.meets.bind fun a next _ le holds => (rest a next le holds).meets,
    fun waiting => ?_⟩
  · rw [runFrom_bind, runFrom_bind, ← first.same]
    generalize act.runFrom st = outcome at le holds
    obtain ⟨answer, next⟩ := outcome
    cases answer with
    | error e => rfl
    | ok a => exact (rest a next le (holds a rfl)).same
  · rw [runFrom_bind]
    generalize act.runFrom st = outcome at le holds waits
    obtain ⟨answer, next⟩ := outcome
    cases answer with
    | error e => exact waits waiting
    | ok a => exact (rest a next le (holds a rfl)).waits (waits waiting)

theorem symm (tallies : Tallies fail st act act' post) : Tallies fail st act' act post := by
  refine ⟨tallies.same.symm, ?_, ?_⟩
  · simpa only [Meets, Keeps, ← tallies.same] using tallies.meets
  · rw [← tallies.same]
    exact tallies.waits

theorem trans (first : Tallies fail st act act' post) (second : Tallies fail st act' act'' post) :
    Tallies fail st act act'' post :=
  ⟨first.same.trans second.same, first.meets, first.waits⟩

/-- A step that leaves the stack alone. -/
theorem of_ok {a : α} {next : PlannerState} (run : act.runFrom st = (.ok a, next))
    (same : next.stack = st.stack) (holds : post a) : Tallies fail st act act post := by
  refine ⟨rfl, .of_ok run fun _ => ⟨trivial, congrArg BuildStack.entries same, holds⟩, ?_⟩
  rw [run, Reportable, Reportable, same]
  exact id

theorem report (findings : List Finding) :
    Tallies fail st (report findings) (report findings) fun _ => True :=
  .of_ok (runFrom_report findings st) rfl trivial

theorem alloc (p : Plan) : Tallies fail st (alloc p) (alloc p) fun _ => True :=
  .of_ok (runFrom_alloc p st) rfl trivial

theorem freshName (suggestion : String) :
    Tallies fail st (freshName suggestion) (freshName suggestion) fun _ => True :=
  .of_ok (runFrom_freshName suggestion st) rfl trivial

theorem remember (key : Key) (id : PlanId) :
    Tallies fail st (remember key id) (remember key id) fun _ => True := by
  refine .of_ok (runFrom_remember key id st) ?_ trivial
  split <;> rfl

theorem get : Tallies fail st (MonadState.get : PlanM PlannerState) MonadState.get fun _ => True :=
  .of_ok (runFrom_get st) rfl trivial

theorem closeCycle (key : Key) (id : PlanId) :
    Tallies fail st (closeCycle key id) (closeCycle key id) fun _ => True := by
  refine get.bind fun seen next _ _ => ?_
  split
  · exact .pure trivial
  · exact .pure trivial
  · exact .pure trivial
  · exact .pure trivial
  · have claim : (next.stack.claim key).2.entries = next.stack.entries ∧
        (next.stack.claim key).2.pending ⊆ next.stack.pending := by
      rw [BuildStack.claim]
      split
      · exact ⟨rfl, List.eraseP_subset⟩
      · exact ⟨rfl, List.Subset.refl _⟩
    have claims : Tallies fail next
        (modifyGet fun st => ((st.stack.claim key).1, { st with stack := (st.stack.claim key).2 }))
        (modifyGet fun st => ((st.stack.claim key).1, { st with stack := (st.stack.claim key).2 }))
        fun _ => True :=
      ⟨rfl, .of_ok (runFrom_modifyGet _ next) fun _ => ⟨trivial, by exact claim.1, trivial⟩,
        fun waiting q mem => waiting q (claim.2 mem)⟩
    refine claims.bind fun claimed last _ _ => ?_
    cases claimed with
    | some name => exact alloc _
    | none => exact .pure trivial

/-! ## Steps on the stack -/

/-- What is done with an entry more on the stack, and the way back. -/
theorem restoring {entry : BuildEntry} (inside : Tallies fail (st.push entry) act act' post) :
    ((act.runFrom (st.push entry)).2.popTo st.stack.height).stack.entries = st.stack.entries ∧
      (∀ a, (act.runFrom (st.push entry)).1 = .ok a → post a) ∧
      (∀ e, (act.runFrom (st.push entry)).1 = .error e → fail e) ∧
      (Reportable fail st →
        Reportable fail ((act.runFrom (st.push entry)).2.popTo st.stack.height)) := by
  obtain ⟨keeps, failing⟩ := inside.meets
  obtain ⟨-, le, holds⟩ := keeps trivial
  exact ⟨entries_popTo le, holds, failing trivial, inside.waits⟩

theorem deferred (inside : Tallies fail (st.push .deferred) act act' post) :
    Tallies fail st (deferred act) (PlanM.deferred act') post := by
  obtain ⟨entries, holds, failing, waits⟩ := inside.restoring
  refine ⟨by rw [runFrom_deferred, runFrom_deferred, inside.same], ⟨fun _ => ?_, fun _ => ?_⟩, ?_⟩
  · rw [runFrom_deferred]
    exact ⟨trivial, entries, holds⟩
  · rw [runFrom_deferred]
    exact failing
  · rw [runFrom_deferred]
    exact waits

/-- An element is entered, or met again; met again at once it is an error that may occur, and
met again later it may be reported. -/
theorem constructing {act act' : PlanM PlanId} (key : Key) (element : Element)
    (endless : ∀ above, above? element st.stack.entries = some above → .deferred ∉ above →
      fail (.endless element (elementsOf st.stack.entries)))
    (unclosed : .building element ∈ st.stack.entries → ∀ m,
      fail (.unclosed m (element :: elementsOf st.stack.entries)))
    (inside : above? element st.stack.entries = none →
      Tallies fail (st.push (.building element)) act act' fun _ => True) :
    Tallies fail st (constructing key element act) (PlanM.constructing key element act')
      fun _ => True := by
  cases met : above? element st.stack.entries with
  | none =>
      obtain ⟨entries, -, failing, waits⟩ := (inside met).restoring
      have run := runFrom_constructing_entered key act met
      have run' := runFrom_constructing_entered key act' met
      rw [runFrom_bind, runFrom_restoring] at run run'
      rw [← (inside met).same] at run'
      have same := run.trans run'.symm
      cases outcome : (act.runFrom (st.push (.building element))).1 with
      | error e =>
          simp only [outcome] at run
          refine ⟨same, .of_error run fun _ => ⟨trivial, entries, failing e outcome⟩, ?_⟩
          rw [run]
          exact waits
      | ok id =>
          simp only [outcome] at run
          let mid := (act.runFrom (st.push (.building element))).2.popTo st.stack.height
          have closed : Tallies fail mid (PlanM.closeCycle key id) _ _ := closeCycle key id
          obtain ⟨keeps, failing⟩ := closed.meets
          obtain ⟨-, le, -⟩ := keeps trivial
          refine ⟨same, ?_, ?_⟩
          · rw [Meets, Keeps, run]
            exact ⟨fun _ => ⟨trivial, le.trans entries, fun _ _ => trivial⟩,
              fun _ => failing trivial⟩
          · rw [run]
            exact fun waiting => closed.waits (waits waiting)
  | some above =>
      by_cases later : above.contains .deferred = true
      · have run := runFrom_constructing_closes key act met later
        have run' := runFrom_constructing_closes key act' met later
        have same := run.trans run'.symm
        split at run
        · refine ⟨same, .of_ok run fun _ => ⟨trivial, rfl, trivial⟩, ?_⟩
          rw [run]
          exact id
        · refine ⟨same, .of_ok run fun _ => ⟨trivial, rfl, trivial⟩, fun waiting => ?_⟩
          rw [run]
          intro q mem
          rcases List.mem_append.mp mem with old | new
          · exact waiting q old
          · cases List.mem_singleton.mp new
            exact unclosed (BuildStack.building_of_above? met)
      · have run := runFrom_constructing_endless key act met (Bool.eq_false_iff.mpr later)
        have run' := runFrom_constructing_endless key act' met (Bool.eq_false_iff.mpr later)
        have now : .deferred ∉ above := by simpa using later
        refine ⟨run.trans run'.symm,
          .of_error run fun _ => ⟨trivial, rfl, endless above met now⟩, ?_⟩
        rw [run]
        exact id

end Tallies

theorem two_le_length_of_not {α : Type} {l : List α} (none : l = [] → False)
    (one : ∀ a, l = [a] → False) : 2 ≤ l.length := by
  match l with
  | [] => exact (none rfl).elim
  | [a] => exact (one a rfl).elim
  | _ :: _ :: rest => simp

namespace Source

variable (src : Source) (catalog : Catalog)

/-- What can be wrong at a request for the key, with these entries on the stack. -/
inductive Raises (s : List BuildEntry) (key : Key) : PlanError → Prop where
  | notFound : Raises s key (.notFound key (elementsOf s))
  | ambiguous {fits : List (MemberBinding × Subst)} :
      src.fitting key catalog.generics [] = fits → 2 ≤ fits.length →
      Raises s key (.ambiguous key (fits.map fun (b, _) => b.member) (elementsOf s))
  | noScopeOwner {scope : AnnotationUse} {cls : ClassId} :
      (src.choose catalog key).1 = .ownerless scope cls →
      Raises s key (.noScopeOwner scope cls (elementsOf s))
  | unresolved : Raises s key (.unresolved key)
  | noConstructor {cls : ClassId} : Raises s key (.noConstructor cls)

/-- Requests that are `due` call only for those that are due `further` on, with the stack as
it is then.  What can be wrong there may occur, also that an element needs itself, and an
element that is needed later may be reported. -/
structure Descends (fail : PlanError → Prop)
    (due further : List BuildEntry → Option Key → Key → Prop) : Prop where
  raises : ∀ {s u key e}, due s u key → src.Raises catalog s key e → fail e
  missing : ∀ {key u} s, further s u key → fail (.notFound key (elementsOf s))
  unwrap : ∀ {s u key}, due s u key → u ≠ some key → src.calls catalog key ≠ [] →
    further s (some key) key
  asked : ∀ {s u key c}, due s u key → c ∈ src.calls catalog key → c.inLambda = false →
    above? c.element s = none → ∀ asked ∈ src.asks c, further (.building c.element :: s) u asked
  lambda : ∀ {s u key c}, due s u key → c ∈ src.calls catalog key → c.inLambda = true →
    above? c.element s = none → ∀ asked ∈ src.asks c,
      further (.building c.element :: .deferred :: s) u asked
  inner : ∀ {s u key inner}, due s u key → src.Unbound catalog key →
    src.innerKey? key = some inner → further (.deferred :: s) u inner
  endless : ∀ {s u key c above}, due s u key → c ∈ src.calls catalog key → c.inLambda = false →
    above? c.element s = some above → .deferred ∉ above →
      fail (.endless c.element (elementsOf s))
  unclosed : ∀ {s u key c}, due s u key → c ∈ src.calls catalog key → .building c.element ∈ s →
    ∀ m, fail (.unclosed m (c.element :: elementsOf s))

/-- The two ways to make requests agree about those that are due. -/
def Agree (fail : PlanError → Prop) (due : List BuildEntry → Option Key → Key → Prop)
    (requests requests' : Requests) : Prop :=
  ∀ site key st, site.catalog = catalog → due st.stack.entries site.unwrapping key →
    Tallies fail st (requests site key) (requests' site key) fun _ => True

variable {src catalog} {fail : PlanError → Prop}
  {due further : List BuildEntry → Option Key → Key → Prop} {requests requests' : Requests}
  {site : Site} {key : Key} {st : PlannerState}

/-! ## Calls -/

section Further

variable (agree : Agree catalog fail further requests requests') (own : site.catalog = catalog)

section Calls

variable (missing : ∀ {key u} s, further s u key → fail (.notFound key (elementsOf s)))

include agree own missing

theorem tallies_demand (asked : further st.stack.entries site.unwrapping key) :
    Tallies fail st (demand requests site key) (demand requests' site key) fun _ => True := by
  refine (agree site key st own asked).bind fun answer next le _ => ?_
  cases answer with
  | some slot => exact .pure trivial
  | none => exact .failTraced (missing _ (le ▸ asked))

theorem tallies_arguments {subst : Subst} {element : Element} {params : List ParamDecl}
    {out : Table String Slot}
    (asked : ∀ param ∈ params,
      further st.stack.entries site.unwrapping (src.paramKey subst param)) :
    Tallies fail st (src.arguments requests site subst element params out)
      (src.arguments requests' site subst element params out) fun _ => True := by
  induction params generalizing out st with
  | nil => exact .pure trivial
  | cons param rest ih =>
      simp only [arguments]
      refine (Tallies.report _).bind fun _ mid le _ => ?_
      have first : further mid.stack.entries site.unwrapping (src.paramKey subst param) :=
        le ▸ asked param List.mem_cons_self
      refine (agree site _ mid own first).bind fun answer next le' _ => ?_
      have others : ∀ p ∈ rest,
          further next.stack.entries site.unwrapping (src.paramKey subst p) := by
        intro p mem
        rw [le', le]
        exact asked p (List.mem_cons_of_mem param mem)
      cases answer with
      | some slot => exact ih others
      | none =>
          dsimp only
          split
          · exact ih others
          · exact .failTraced (missing _ (le' ▸ first))

theorem tallies_receiverFor {subst : Subst} {receiver : Option Ty}
    (asked : ∀ ty ∈ receiver, further st.stack.entries site.unwrapping (receiverKey subst ty)) :
    Tallies fail st (receiverFor requests site subst receiver)
      (receiverFor requests' site subst receiver) fun _ => True := by
  cases receiver with
  | none => exact .pure trivial
  | some ty =>
      exact (tallies_demand agree own missing (asked ty rfl)).bind fun _ _ _ _ => .pure trivial

/-- The receiver and the arguments of a call, with the call on the stack. -/
theorem tallies_inputs {c : Call} {α : Type} {rest : Option Slot → Table String Slot → PlanM α}
    (asked : ∀ asked ∈ src.asks c, further st.stack.entries site.unwrapping asked)
    (after : ∀ receiver args next,
      Tallies fail next (rest receiver args) (rest receiver args) fun _ => True) :
    Tallies fail st
      (do
        let receiver ← receiverFor requests site c.subst c.receiver
        let args ← src.arguments requests site c.subst c.element c.params {}
        rest receiver args)
      (do
        let receiver ← receiverFor requests' site c.subst c.receiver
        let args ← src.arguments requests' site c.subst c.element c.params {}
        rest receiver args) fun _ => True := by
  have receiver : ∀ ty ∈ c.receiver,
      further st.stack.entries site.unwrapping (receiverKey c.subst ty) :=
    fun ty mem => asked _ (List.mem_append_left _ (by simp [Option.mem_def.mp mem]))
  refine (tallies_receiverFor agree own missing receiver).bind fun _ mid le _ => ?_
  refine (tallies_arguments agree own missing fun param mem => ?_).bind fun _ next _ _ =>
    after _ _ next
  rw [le]
  exact asked _ (List.mem_append_right _ (List.mem_map_of_mem mem))

end Calls

variable (descends : src.Descends catalog fail due further)

include agree own descends

theorem tallies_planCtor {cls : ClassId} {index : Nat} {ty : Ty} (k : Key)
    (here : due st.stack.entries site.unwrapping key)
    (mem : src.ctorCall k cls index ty ∈ src.calls catalog key) :
    Tallies fail st (src.planCtor requests site k cls index ty)
      (src.planCtor requests' site k cls index ty) fun _ => True := by
  refine .constructing k _ (fun above met now => ?_) (fun met => ?_) fun new => ?_
  · exact descends.endless here mem rfl met now
  · exact descends.unclosed here mem met
  · dsimp only
    have asks := descends.asked here mem rfl new
    cases found : (src.program.classAt cls).ctors[index]? with
    | none => exact .throw (descends.raises here .noConstructor)
    | some ctor =>
        have params : ∀ param ∈ ctor.params,
            further (st.push (.building (src.ctorCall k cls index ty).element)).stack.entries
              site.unwrapping (src.paramKey ((src.program.classAt cls).substFor ty) param) := by
          intro param among
          refine asks _ (List.mem_append_right _ (List.mem_map.mpr ⟨param, ?_, rfl⟩))
          simpa only [ctorCall, found, Option.map_some, Option.getD_some] using among
        exact (tallies_arguments agree own descends.missing params).bind fun _ _ _ _ => .alloc _

theorem tallies_planCall {b : MemberBinding} {subst : Subst} (k : Key)
    (here : due st.stack.entries site.unwrapping key)
    (mem : src.memberCall k b.member subst false ∈ src.calls catalog key) :
    Tallies fail st (src.planCall requests site k b subst) (src.planCall requests' site k b subst)
      fun _ => True := by
  refine .constructing k _ (fun above met now => ?_) (fun met => ?_) fun new => ?_
  · exact descends.endless here mem rfl met now
  · exact descends.unclosed here mem met
  · exact tallies_inputs (c := src.memberCall k b.member subst false) agree own descends.missing
      (descends.asked here mem rfl new) fun _ _ _ => .alloc _

theorem tallies_planKept {path : FieldPath} (here : due st.stack.entries site.unwrapping key)
    (wrapped : site.isUnwrapping key = false) (built : src.calls catalog key ≠ []) :
    Tallies fail st (planKept requests site key path) (planKept requests' site key path)
      fun _ => True := by
  have other : site.unwrapping ≠ some key := by simpa [Site.isUnwrapping] using wrapped
  have unwrapped : (site.unwrap key).catalog = catalog := own
  exact (tallies_demand agree unwrapped descends.missing (descends.unwrap here other built)).bind
    fun _ _ _ _ => .alloc _

theorem tallies_planMember {b : MemberBinding} {subst : Subst}
    (here : due st.stack.entries site.unwrapping key)
    (mem : src.memberCall key b.member subst false ∈ src.calls catalog key) :
    Tallies fail st (src.planMember requests site key b subst)
      (src.planMember requests' site key b subst) fun _ => True := by
  simp only [planMember]
  split
  · rename_i wrap
    simp only [Bool.and_eq_true, Bool.not_eq_true'] at wrap
    exact tallies_planKept agree own descends here wrap.2 (List.ne_nil_of_mem mem)
  · exact tallies_planCall agree own descends key here mem

theorem tallies_contributorSlots {contributors : List MemberBinding}
    (here : due st.stack.entries site.unwrapping key)
    (mem : ∀ b ∈ contributors, src.memberCall (src.contributionKey b) b.member .empty false ∈
      src.calls catalog key) :
    Tallies fail st (src.contributorSlots requests site contributors)
      (src.contributorSlots requests' site contributors) fun _ => True := by
  induction contributors generalizing st with
  | nil => exact .pure trivial
  | cons b rest ih =>
      simp only [contributorSlots]
      refine (tallies_planCall agree own descends _ here (mem b List.mem_cons_self)).bind
        fun id mid le _ => ?_
      refine (ih (le ▸ here) fun b among => mem b (List.mem_cons_of_mem _ among)).bind
        fun _ _ _ _ => .pure trivial

theorem tallies_planBinding {b : Binding} (here : due st.stack.entries site.unwrapping key)
    (chosen : (src.choose catalog key).1 = .binding b) :
    Tallies fail st (src.planBinding requests site key b) (src.planBinding requests' site key b)
      fun _ => True := by
  have calls := calls_of_binding chosen
  cases b with
  | ctor cls index ty path scopedIn =>
      have mem : src.ctorCall key cls index ty ∈ src.calls catalog key := by
        rw [calls]
        exact List.mem_singleton_self _
      simp only [planBinding]
      split
      · rename_i wrap
        simp only [Bool.and_eq_true, Bool.not_eq_true'] at wrap
        exact tallies_planKept agree own descends here wrap.2 (List.ne_nil_of_mem mem)
      · exact tallies_planCtor agree own descends key here mem
  | member b =>
      refine tallies_planMember agree own descends here ?_
      rw [calls]
      exact List.mem_singleton_self _
  | container kind contributors =>
      refine (tallies_contributorSlots agree own descends here fun b among => ?_).bind
        fun _ _ _ _ => .alloc _
      rw [calls]
      exact List.mem_map_of_mem among
  | object cls => exact .alloc _

/-! ## Values built later -/

omit agree own descends in
theorem tallies_nameParams {n : Nat} {types : List Ty} :
    Tallies fail st (nameParams n types) (nameParams n types) fun _ => True := by
  induction types generalizing st n with
  | nil => exact .pure trivial
  | cons ty rest ih =>
      simp only [nameParams]
      exact (Tallies.freshName _).bind fun _ _ _ _ => ih.bind fun _ _ _ _ => .pure trivial

theorem tallies_planFunctionCall {f : MemberId} {types : List Ty}
    (here : due st.stack.entries site.unwrapping key)
    (mem : src.memberCall key f .empty true ∈ src.calls catalog key) :
    Tallies fail st (src.planFunctionCall requests site key f types)
      (src.planFunctionCall requests' site key f types) fun _ => True := by
  refine .deferred (.constructing key _ (fun above met now => ?_) (fun met => ?_) fun new => ?_)
  · -- the mark below the call is above whatever was there before
    have met : above? (.member f) (.deferred :: st.stack.entries) = some above := met
    rw [above?, if_neg (by simp)] at met
    obtain ⟨rest, -, rfl⟩ := Option.map_eq_some_iff.mp met
    exact absurd List.mem_cons_self now
  · have met : .building (.member f) ∈ .deferred :: st.stack.entries := met
    exact descends.unclosed here mem ((List.mem_cons.mp met).resolve_left (by simp))
  · have new : above? (.member f) (.deferred :: st.stack.entries) = none := new
    rw [above?, if_neg (by simp), Option.map_eq_none_iff] at new
    have asks := descends.lambda here mem rfl new
    refine tallies_nameParams.bind fun lambda start le _ => ?_
    have asks : ∀ asked ∈ src.asks (src.memberCall key f .empty true),
        further start.stack.entries (site.inside lambda).unwrapping asked := by
      rw [le]
      exact asks
    have inside : (site.inside lambda).catalog = catalog := own
    exact tallies_inputs (c := src.memberCall key f .empty true) agree inside descends.missing asks
      fun _ _ _ => .alloc _

theorem tallies_planFunction (here : due st.stack.entries site.unwrapping key)
    (unbound : src.Unbound catalog key) (function : key.ty.isFunction = true) :
    Tallies fail st (src.planFunction requests site key) (src.planFunction requests' site key)
      fun _ => True := by
  simp only [planFunction]
  split
  · exact .failTraced (descends.raises here .notFound)
  · rename_i result last
    split
    · rename_i f aliased
      refine tallies_planFunctionCall agree own descends here ?_
      rw [calls_of_unbound unbound]
      simp [unboundCalls, function, aliased]
    · rename_i aliased
      have inner : src.innerKey? key = some (.of result key.qualifier) := by
        simp [innerKey?, function, aliased, last]
      have here' := descends.inner here unbound inner
      refine Tallies.bind (.deferred (?_ : Tallies fail _ _ _ fun _ => True))
        fun _ _ _ _ => .alloc _
      refine tallies_nameParams.bind fun lambda mid le _ => ?_
      have asked : further mid.stack.entries (site.inside lambda).unwrapping
          (.of result key.qualifier) := by
        rw [le]
        exact here'
      have inside : (site.inside lambda).catalog = catalog := own
      exact (tallies_demand agree inside descends.missing asked).bind fun _ _ _ _ => .pure trivial

theorem tallies_planLazy (here : due st.stack.entries site.unwrapping key)
    (unbound : src.Unbound catalog key) (plain : key.ty.isFunction = false)
    (strict : key.ty.isLazy = true) :
    Tallies fail st (planLazy requests site key) (planLazy requests' site key) fun _ => True := by
  simp only [planLazy]
  split
  · exact .failTraced (descends.raises here .notFound)
  · rename_i inner first
    have inner : src.innerKey? key = some (.of inner key.qualifier) := by
      simp [innerKey?, plain, strict, first]
    have here' := descends.inner here unbound inner
    exact Tallies.bind (.deferred (tallies_demand agree own descends.missing here'))
      fun _ _ _ _ => .alloc _

/-! ## Requests -/

theorem tallies_planGeneric (here : due st.stack.entries site.unwrapping key)
    (unbound : src.Unbound catalog key) (plain : key.ty.isFunction = false)
    (strict : key.ty.isLazy = false) :
    Tallies fail st (src.planGeneric requests site key) (src.planGeneric requests' site key)
      fun _ => True := by
  simp only [planGeneric]
  split
  · exact .pure trivial
  · rename_i b subst fits
    have mem : src.memberCall key b.member subst false ∈ src.calls catalog key := by
      rw [calls_of_unbound unbound]
      rw [own] at fits
      simp [unboundCalls, plain, strict, fits]
    exact (tallies_planMember agree own descends here mem).bind fun _ _ _ _ => .pure trivial
  · rename_i none one
    rw [own] at none one ⊢
    exact .failTraced (descends.raises here (.ambiguous rfl
      (two_le_length_of_not none fun found => one found.1 found.2)))

omit agree in
theorem tallies_bindingFor (here : due st.stack.entries site.unwrapping key) :
    Tallies fail st (src.bindingFor site key) (src.bindingFor site key) fun answer =>
      match answer with
      | some b => (src.choose site.catalog key).1 = .binding b
      | none => src.Unbound site.catalog key := by
  simp only [bindingFor]
  refine (Tallies.report _).bind fun _ next le _ => ?_
  split
  · rename_i chosen
    exact .pure chosen
  · rename_i b chosen
    exact .pure chosen
  · rename_i chosen
    rw [own] at chosen
    exact .failTraced (descends.raises (le ▸ here) (.noScopeOwner chosen))

theorem tallies_planFor (here : due st.stack.entries site.unwrapping key) :
    Tallies fail st (src.planFor requests site key) (src.planFor requests' site key)
      fun _ => True := by
  simp only [planFor]
  split
  · exact .throw (descends.raises here .unresolved)
  · split
    · exact (Tallies.alloc _).bind fun _ _ _ _ => .pure trivial
    · refine (tallies_bindingFor own descends here).bind fun answer next le chosen => ?_
      have here : due next.stack.entries site.unwrapping key := le ▸ here
      rw [own] at chosen
      cases answer with
      | some b =>
          exact (tallies_planBinding agree own descends here chosen).bind
            fun _ _ _ _ => .pure trivial
      | none =>
          dsimp only
          split
          · rename_i function
            exact (tallies_planFunction agree own descends here chosen function).bind
              fun _ _ _ _ => .pure trivial
          · rename_i plain
            rw [Bool.not_eq_true] at plain
            split
            · rename_i strict
              exact (tallies_planLazy agree own descends here chosen plain strict).bind
                fun _ _ _ _ => .pure trivial
            · rename_i strict
              rw [Bool.not_eq_true] at strict
              exact tallies_planGeneric agree own descends here chosen plain strict

end Further

theorem tallies_kept? : Tallies fail st (kept? site key) (kept? site key) fun _ => True := by
  simp only [kept?]
  split
  · exact Tallies.get.bind fun _ _ _ _ => .pure trivial
  · exact .pure trivial

/-- What agrees about the requests that follow from one agrees about that one. -/
theorem agree_requestWith (descends : src.Descends catalog fail due further)
    (agree : Agree catalog fail further requests requests') :
    Agree catalog fail due (src.requestWith requests) (src.requestWith requests') := by
  intro site key st own here
  simp only [requestWith]
  refine tallies_kept?.bind fun answer mid le _ => ?_
  cases answer with
  | some id => exact .pure trivial
  | none =>
      refine (tallies_planFor agree own descends (le ▸ here)).bind fun answer next _ _ => ?_
      cases answer with
      | none => exact .pure trivial
      | some id =>
          dsimp only
          split
          · exact .pure trivial
          · exact (Tallies.remember key id).bind fun _ _ _ _ => .pure trivial

/-! ## Accessors -/

variable {m : MemberId}

/-- The first of two steps fails with an error that may occur, and the second one begins with
what may be reported. -/
theorem fail_of_bind {α β : Type} {act act' : PlanM α} {post : α → Prop} {f : α → PlanM β}
    {e : PlanError} (first : Tallies fail st act act' post) (waiting : Reportable fail st)
    (rest : ∀ a next, next.stack.entries = st.stack.entries → Reportable fail next →
      ((f a).runFrom next).1 = .error e → fail e)
    (failed : ((act >>= f).runFrom st).1 = .error e) : fail e := by
  obtain ⟨-, le, -⟩ := first.meets.1 trivial
  have failing := first.meets.2 trivial
  have waits := first.waits waiting
  rw [runFrom_bind] at failed
  generalize act.runFrom st = outcome at le failing waits failed
  obtain ⟨answer, next⟩ := outcome
  cases answer with
  | error e' =>
      cases failed
      exact failing e rfl
  | ok a => exact rest a next le waits failed

/-- The accessor is the first entry on the stack. -/
theorem tallies_accessor (agree : Agree site.catalog fail due src.request src.request)
    (missing : ∀ {key u} s, due s u key → fail (.notFound key (elementsOf s)))
    (first : due [.building (.member m)] site.unwrapping key) (bare : st.stack.entries = []) :
    Tallies fail st
      (constructing key (.member m) do return (← src.resolve site key).id)
      (constructing key (.member m) do return (← src.resolve site key).id) fun _ => True := by
  refine .constructing _ _ (fun above met _ => ?_) (fun met => ?_) fun _ => ?_
  · rw [bare] at met
    cases met
  · rw [bare] at met
    cases met
  · have asked : due (st.push (.building (.member m))).stack.entries site.unwrapping key := by
      simpa only [PlannerState.push, BuildStack.push, bare] using first
    exact (tallies_demand agree rfl missing asked).bind fun _ _ _ _ => .pure trivial

/-- What is done for an accessor fails with an error that may occur. -/
theorem fail_of_accessor (agree : Agree site.catalog fail due src.request src.request)
    (missing : ∀ {key u} s, due s u key → fail (.notFound key (elementsOf s)))
    (first : due [.building (.member m)] site.unwrapping key) (empty : st.stack = {})
    (findings : List Finding) (entry : PlanId → Entry) {e : PlanError}
    (failed : ((do
      report findings
      let id ← constructing key (.member m) do return (← src.resolve site key).id
      match (← get).stack.unclosed? with
      | some trace => throw (.unclosed m trace)
      | none => return entry id : PlanM Entry).runFrom st).1 = .error e) : fail e := by
  have waiting : Reportable fail st := by
    rw [Reportable, empty]
    exact List.forall_mem_nil _
  refine fail_of_bind (Tallies.report findings) waiting (fun _ start same waiting => ?_) failed
  have bare : start.stack.entries = [] := by rw [same, empty]
  refine fail_of_bind (tallies_accessor agree missing first bare) waiting
    fun id next _ waiting failed => ?_
  rw [runFrom_bind, runFrom_get] at failed
  cases found : next.stack.unclosed? with
  | none =>
      simp only [found] at failed
      cases failed
  | some trace =>
      simp only [found] at failed
      cases failed
      obtain ⟨q, head, rfl⟩ := Option.map_eq_some_iff.mp found
      exact waiting q (List.mem_of_mem_head? head) m

/-- An accessor fails with an error that may occur. -/
theorem fail_of_implement (agree : Agree site.catalog fail due src.request src.request)
    (missing : ∀ {key u} s, due s u key → fail (.notFound key (elementsOf s)))
    (first : due [.building (.member m)] site.unwrapping (src.accessorKey site.catalog m))
    {e : PlanError} (failed : ((src.implement site m).runFrom st).1 = .error e) : fail e := by
  have empty : ({ st with stack := {}, names := {} } : PlannerState).stack = {} := rfl
  exact fail_of_accessor agree missing first empty _ _ failed

end Source

end Injector
