/-
# Injector.Proofs.Planner.Fronts -- what is built first within a key

For most keys a call is made.  For a function type or a lazy type nothing is called but
what is inside is asked for, in a lambda or later, and so on inwards.  A spot is a key
together with the types of the lambda parameters that came up on the way there; `Leads`
says that building the one spot comes to building the other in this way, with nothing on
the way taken from the cache.

While the calls at a spot are under construction, building any key that leads there meets
them on the stack and refers to them by a variable.  Variables are told apart from lambda
parameters by their names, so no parameter binds it, and what is built is not closed
(`LeftOpen`); thus no key that leads to the spot is put into the cache (`Minds`).
-/
import Injector.Proofs.Planner.Recurrence
import Injector.Proofs.Planner.Typing

namespace Injector

set_option autoImplicit false

open PlanM
open BuildStack (above?)
open LambdaParam (names types)

theorem Arena.Within.freeNames_subset {a b : Arena} (within : a.Within b) (id : PlanId) :
    a.freeNames id ⊆ b.freeNames id := by
  intro name free
  by_cases known : id < a.size
  · rwa [within.freeNames_eq known]
  · rw [freeNames_of_size_le (Nat.le_of_not_lt known)] at free
    cases free

/-- A key that is asked for inside lambda parameters of the given types. -/
structure Spot where
  types : List Ty
  key : Key

/-- Outside of lambdas, the cache has no plan that would be used. -/
def Spot.Free (cache : Table Key PlanId) (s : Spot) : Prop :=
  s.types = [] → cache.get? s.key = none

/-- The key if its value is being built for its scope. -/
def Site.planned (site : Site) (key : Key) : Option Key :=
  if site.isUnwrapping key then some key else none

/-- The variable of a cycle that waits has the name that the type of its key suggests. -/
def PlannerState.Suggested (st : PlannerState) : Prop :=
  ∀ p ∈ st.stack.pending, p.name = p.key.ty.suggestedName

namespace Source

variable (src : Source) (catalog : Catalog)

/-- The types of the parameters of a lambda that is made for the key. -/
def lambdaTypes (key : Key) : List Ty :=
  if key.ty.isFunction then key.ty.dealias.args.dropLast else []

/-- None of the parameters can stand for the key. -/
def Exposed (s : Spot) : Prop :=
  s.key.qualifier.isSome = true ∨ ∀ ty ∈ s.types, src.program.isAssignable s.key.ty ty = false

/-- At `s` a lambda or a lazy value is built around what is asked for at `t`. -/
structure Wraps (s t : Spot) : Prop where
  exposed : src.Exposed s
  unbound : src.Unbound catalog s.key
  inner : src.innerKey? s.key = some t.key
  types : t.types = s.types ++ lambdaTypes s.key

/-- Through lambdas and lazy values alone, building the one spot comes to the other. -/
inductive Leads (cache : Table Key PlanId) : Spot → Spot → Prop where
  | here {s : Spot} : s.Free cache → Leads cache s s
  | inside {s t u : Spot} : s.Free cache → src.Wraps catalog s t → Leads cache t u →
      Leads cache s u

/-- The calls at the spot are under construction, or those for its key are the ones planned.
Neither does a lambda parameter stand for its key, nor is one named like their variables. -/
structure Watched (planned : Option Key) (st : PlannerState) (s : Spot) : Prop where
  exposed : src.Exposed s
  names : ∀ c ∈ src.calls catalog s.key, ¬IsParamName c.key.ty.suggestedName
  busy : planned = some s.key ∧ src.calls catalog s.key ≠ [] ∨
    ∃ c ∈ src.calls catalog s.key, .building c.element ∈ st.stack.entries

/-- Plans, names and what is kept stay.  Nothing that leads to a spot under construction is
added to the cache. -/
structure Minds (planned : Option Key) (st next : PlannerState) : Prop where
  entries : next.stack.entries = st.stack.entries
  within : st.arena.Within next.arena
  taken : st.names.taken ⊆ next.names.taken
  kept : ∀ key id, st.cache.get? key = some id → next.cache.get? key = some id
  leads : ∀ s t, src.Watched catalog planned st t → src.Leads catalog st.cache s t →
    src.Leads catalog next.cache s t

/-- Whatever building the key inside the last of the parameters leads to under construction,
the plan refers to something that is none of these parameters. -/
def LeftOpen (before : PlannerState) (site : Site) (key : Key) (a : Arena) (id : PlanId) : Prop :=
  ∀ outer inner, site.lambdaParams = outer ++ inner →
    ∀ t, src.Watched catalog none before t → src.Leads catalog before.cache ⟨types inner, key⟩ t →
      ∃ name ∈ a.freeNames id, name ∉ names inner

variable {src catalog}

/-! ## Spots -/

section Spots

variable {cache before : Table Key PlanId} {s t u : Spot} {key : Key} {id : PlanId}

theorem Leads.free (leads : src.Leads catalog cache s t) : s.Free cache := by
  cases leads with
  | here free => exact free
  | inside free => exact free

/-- With less in the cache, it leads there still. -/
theorem Leads.of_kept (leads : src.Leads catalog cache s t)
    (kept : ∀ key id, before.get? key = some id → cache.get? key = some id) :
    src.Leads catalog before s t := by
  have free {s : Spot} (free : s.Free cache) : s.Free before := by
    intro bare
    rw [Option.eq_none_iff_forall_ne_some]
    intro id found
    have absent := free bare
    rw [kept s.key id found] at absent
    cases absent
  induction leads with
  | here here => exact .here (free here)
  | inside here wraps _ ih => exact .inside (free here) wraps ih

/-- Keeping a plan for a key that does not lead there makes no difference. -/
theorem Leads.insertNew (leads : src.Leads catalog cache s t)
    (other : ¬src.Leads catalog cache ⟨[], key⟩ t) :
    src.Leads catalog (cache.insertNew key id) s t := by
  have free {s : Spot} (leads : src.Leads catalog cache s t) :
      s.Free (cache.insertNew key id) := by
    intro bare
    have apart : key ≠ s.key := by
      rintro rfl
      apply other
      obtain ⟨tys, k⟩ := s
      obtain rfl : tys = [] := bare
      exact leads
    rw [Table.get?_insertNew, leads.free bare, if_neg apart]
    rfl
  induction leads with
  | here here => exact .here (free (.here here))
  | inside here wraps leads ih => exact .inside (free (.inside here wraps leads)) wraps (ih other free)

/-- A spot with calls leads nowhere else. -/
theorem Leads.eq_of_calls (leads : src.Leads catalog cache s t)
    (built : src.calls catalog s.key ≠ []) : t = s := by
  cases leads with
  | here => rfl
  | inside _ wraps => exact absurd (calls_of_innerKey? wraps.unbound wraps.inner) built

/-- No parameter stands for a key that leads to what no parameter stands for. -/
theorem Leads.exposed (leads : src.Leads catalog cache s t) (last : src.Exposed t) :
    src.Exposed s := by
  cases leads with
  | here => exact last
  | inside _ wraps => exact wraps.exposed

end Spots

/-! ## Spots under construction -/

variable {planned weaker : Option Key} {st mid next : PlannerState} {site : Site}
  {key : Key} {t : Spot} {a b : Arena} {id : PlanId}

theorem Watched.of_none (watched : src.Watched catalog none st t) :
    src.Watched catalog planned st t :=
  ⟨watched.exposed, watched.names, watched.busy.imp_left fun ⟨other, _⟩ => nomatch other⟩

theorem Watched.built (watched : src.Watched catalog planned st t) :
    src.calls catalog t.key ≠ [] := by
  obtain ⟨-, built⟩ | ⟨c, mem, -⟩ := watched.busy
  · exact built
  · exact List.ne_nil_of_mem mem

/-- A key without calls is not planned for its calls. -/
theorem Watched.of_calls_nil (nothing : src.calls catalog key = [])
    (watched : src.Watched catalog (some key) st t) : src.Watched catalog none st t := by
  refine ⟨watched.exposed, watched.names, .inr (watched.busy.resolve_left ?_)⟩
  rintro ⟨same, built⟩
  rw [← Option.some.inj same] at built
  exact built nothing

theorem Watched.of_entries (watched : src.Watched catalog planned st t)
    (entries : st.stack.entries ⊆ next.stack.entries) : src.Watched catalog planned next t := by
  refine ⟨watched.exposed, watched.names, watched.busy.imp_right ?_⟩
  rintro ⟨c, mem, met⟩
  exact ⟨c, mem, entries met⟩

/-- What is planned is under construction once one of its calls is entered. -/
theorem Watched.enter {c : Call} (mem : c ∈ src.calls catalog key)
    (watched : src.Watched catalog (some key) st t) :
    src.Watched catalog none (st.push (.building c.element)) t := by
  refine ⟨watched.exposed, watched.names, .inr ?_⟩
  obtain ⟨same, -⟩ | ⟨d, mem', met⟩ := watched.busy
  · obtain rfl := Option.some.inj same
    exact ⟨c, mem, List.mem_cons_self⟩
  · exact ⟨d, mem', List.mem_cons_of_mem _ met⟩

theorem watched_iff_of_entries (entries : next.stack.entries = st.stack.entries) :
    src.Watched catalog planned next t ↔ src.Watched catalog planned st t := by
  constructor <;> intro watched
  · exact watched.of_entries (entries ▸ List.Subset.refl _)
  · exact watched.of_entries (entries ▸ List.Subset.refl _)

theorem Minds.refl (planned : Option Key) (st : PlannerState) :
    src.Minds catalog planned st st where
  entries := rfl
  within := .refl _
  taken := List.Subset.refl _
  kept _ _ found := found
  leads _ _ _ leads := leads

theorem Minds.trans (first : src.Minds catalog planned st mid)
    (second : src.Minds catalog planned mid next) : src.Minds catalog planned st next where
  entries := second.entries.trans first.entries
  within := first.within.trans second.within
  taken := List.Subset.trans first.taken second.taken
  kept key id found := second.kept key id (first.kept key id found)
  leads s t watched leads := second.leads s t ((watched_iff_of_entries first.entries).mpr watched)
    (first.leads s t watched leads)

theorem Minds.mono (minds : src.Minds catalog planned st next)
    (own : ∀ t, src.Watched catalog weaker st t → src.Watched catalog planned st t) :
    src.Minds catalog weaker st next where
  entries := minds.entries
  within := minds.within
  taken := minds.taken
  kept := minds.kept
  leads s t watched leads := minds.leads s t (own t watched) leads

/-- Where the cache is the same, nothing was added to it. -/
theorem Minds.of_cache (entries : next.stack.entries = st.stack.entries)
    (within : st.arena.Within next.arena) (taken : st.names.taken ⊆ next.names.taken)
    (cache : next.cache = st.cache) : src.Minds catalog planned st next where
  entries := entries
  within := within
  taken := taken
  kept key id found := by rwa [cache]
  leads s t _ leads := by rwa [cache]

/-- What was done above an entry was done from the stack without it. -/
theorem Minds.popTo {entry : BuildEntry}
    (own : ∀ t, src.Watched catalog planned st t → src.Watched catalog weaker (st.push entry) t)
    (minds : src.Minds catalog weaker (st.push entry) next) :
    src.Minds catalog planned st (next.popTo st.stack.height) where
  entries := (BuildStack.push_popTo st.stack minds.entries).2
  within := minds.within
  taken := minds.taken
  kept := minds.kept
  leads s t watched leads := minds.leads s t (own t watched) leads

/-- A plan is open that refers to all that is free in another one, if that is open. -/
theorem LeftOpen.of_subset {other : PlanId} (left : src.LeftOpen catalog st site key a other)
    (free : a.freeNames other ⊆ b.freeNames id) : src.LeftOpen catalog st site key b id := by
  intro outer inner around t watched leads
  obtain ⟨name, mem, outside⟩ := left outer inner around t watched leads
  exact ⟨name, free mem, outside⟩

theorem LeftOpen.mono (left : src.LeftOpen catalog st site key a id) (within : a.Within b) :
    src.LeftOpen catalog st site key b id :=
  left.of_subset (within.freeNames_subset id)

/-- Between two states of one construction it makes no difference in which one asks. -/
theorem leftOpen_iff (minds : src.Minds catalog planned st mid) :
    src.LeftOpen catalog mid site key a id ↔ src.LeftOpen catalog st site key a id := by
  constructor <;> intro left outer inner around t watched leads
  · exact left outer inner around t ((watched_iff_of_entries minds.entries).mpr watched)
      (minds.leads _ t watched.of_none leads)
  · exact left outer inner around t ((watched_iff_of_entries minds.entries).mp watched)
      (leads.of_kept minds.kept)

/-- A key whose plan is closed leads to nothing under construction. -/
theorem LeftOpen.not_leads (left : src.LeftOpen catalog st site key a id)
    (closed : a.isClosed id = true) (watched : src.Watched catalog none st t) :
    ¬src.Leads catalog st.cache ⟨[], key⟩ t := by
  intro leads
  obtain ⟨name, free, -⟩ := left site.lambdaParams [] (by simp) t watched leads
  rw [List.isEmpty_iff.mp closed] at free
  cases free

end Source

/-! ## Sites -/

/-- The site is one of the catalog, and the lambda parameters around have names of their own. -/
structure Site.Proper (catalog : Catalog) (st : PlannerState) (site : Site) : Prop
    extends site.Named catalog st where
  params : ∀ name ∈ names site.lambdaParams, IsParamName name

namespace Site.Proper

variable {src : Source} {catalog : Catalog} {site : Site} {planned : Option Key}
  {st next : PlannerState}

theorem of_bare (bare : site.lambdaParams = []) (st : PlannerState) :
    site.Proper site.catalog st := by
  refine ⟨⟨rfl, ?_, ?_⟩, ?_⟩ <;> rw [bare]
  · exact List.nodup_nil
  · exact List.nil_subset _
  · exact List.forall_mem_nil _

theorem mono (proper : site.Proper catalog st) (minds : src.Minds catalog planned st next) :
    site.Proper catalog next :=
  ⟨⟨proper.own, proper.apart, List.Subset.trans proper.taken minds.taken⟩, proper.params⟩

theorem push (proper : site.Proper catalog st) (entry : BuildEntry) :
    site.Proper catalog (st.push entry) :=
  ⟨proper.toNamed.push entry, proper.params⟩

theorem unwrap (proper : site.Proper catalog st) (key : Key) :
    (site.unwrap key).Proper catalog st :=
  ⟨⟨proper.own, proper.apart, proper.taken⟩, proper.params⟩

theorem inside {tys : List Ty} {lambda : List LambdaParam} (proper : site.Proper catalog st)
    (fresh : LambdaParam.Fresh st.names next.names tys lambda) :
    (site.inside lambda).Proper catalog next where
  toNamed := proper.toNamed.inside fresh.apart
    (fun name mem => ⟨(fresh.new name mem).1, (fresh.new name mem).2.1⟩) fresh.grows
  params name mem := by
    rw [Site.inside, names, List.map_append] at mem
    obtain mem | mem := List.mem_append.mp mem
    · exact proper.params name mem
    · exact (fresh.new name mem).2.2

end Site.Proper

namespace Source

variable (src : Source) (catalog : Catalog)

/-- Variables have suggested names, and what is under construction is minded. -/
def minding (planned : Option Key) : Discipline where
  inv := PlannerState.Suggested
  le := src.Minds catalog planned
  refl := .refl planned
  trans := .trans

variable {src catalog} {α : Type} {act : PlanM α} {post : α → PlannerState → Prop}
  {planned weaker : Option Key} {st next : PlannerState} {site : Site} {key : Key} {id : PlanId}

/-! ## Steps -/

theorem minds_mono (step : Keeps (src.minding catalog planned) st act post)
    (own : ∀ t, src.Watched catalog weaker st t → src.Watched catalog planned st t) :
    Keeps (src.minding catalog weaker) st act post := by
  intro inv
  obtain ⟨inv', minds, holds⟩ := step inv
  exact ⟨inv', minds.mono own, holds⟩

theorem minds_report (findings : List Finding) :
    Keeps (src.minding catalog planned) st (report findings) fun _ _ => True :=
  .of_ok (runFrom_report findings st) fun inv =>
    ⟨inv, .of_cache rfl (.refl _) (List.Subset.refl _) rfl, trivial⟩

theorem minds_bindingFor :
    Keeps (src.minding catalog planned) st (src.bindingFor site key) fun answer _ =>
      match answer with
      | some b => (src.choose site.catalog key).1 = .binding b
      | none => src.Unbound site.catalog key :=
  (Keeps.bindingFor fun _ => minds_report _).mono fun _ _ _ _ said => said.1

/-- The names free in a new plan. -/
theorem minds_alloc (p : Plan) :
    Keeps (src.minding catalog planned) st (alloc p) fun id next =>
      next.arena.freeNames id = st.arena.freeIn p :=
  .of_ok (runFrom_alloc p st) fun inv =>
    ⟨inv, .of_cache rfl (.alloc st.arena p) (List.Subset.refl _) rfl,
      Arena.freeNames_alloc_self st.arena p⟩

theorem minds_nameParams {n : Nat} {tys : List Ty} :
    Keeps (src.minding catalog planned) st (nameParams n tys) fun lambda next =>
      LambdaParam.Fresh st.names next.names tys lambda := by
  obtain ⟨lambda, supply, run, fresh⟩ := exists_runFrom_nameParams n tys st
  exact .of_ok run fun inv => ⟨inv, .of_cache rfl (.refl _) fresh.grows rfl, fresh⟩

/-- Nothing that leads to what is under construction is kept, as its plan is open. -/
theorem minds_remember (left : src.LeftOpen catalog st site key st.arena id) :
    Keeps (src.minding catalog none) st (remember key id) fun _ _ => True := by
  refine .of_ok (runFrom_remember key id st) fun inv => ?_
  split
  · rename_i closed
    refine ⟨inv, ⟨rfl, .refl _, List.Subset.refl _, ?_, ?_⟩, trivial⟩
    · intro other old found
      rw [Table.get?_insertNew, found]
      rfl
    · intro s t watched leads
      exact leads.insertNew (left.not_leads closed watched)
  · exact ⟨inv, .refl none st, trivial⟩

theorem minds_deferred (inside : Keeps (src.minding catalog planned) (st.push .deferred) act post)
    (stable : ∀ {a next} stack, post a next → post a { next with stack }) :
    Keeps (src.minding catalog planned) st (deferred act) post := by
  intro inv
  obtain ⟨inv', minds, holds⟩ := inside inv
  rw [runFrom_deferred]
  refine ⟨inv', minds.popTo ?_, fun a done => stable _ (holds a done)⟩
  exact fun t watched => watched.of_entries (List.subset_cons_self _ _)

/-- A plan is left alone, or a variable is declared around it. -/
theorem minds_closeCycle (key : Key) (id : PlanId) :
    Keeps (src.minding catalog planned) st (closeCycle key id) fun _ _ => True := by
  refine Keeps.get.bind fun _ seen _ _ same => ?_
  obtain ⟨rfl, rfl⟩ := same
  have claim : Keeps (src.minding catalog planned) seen
      (modifyGet fun st => ((st.stack.claim key).1, { st with stack := (st.stack.claim key).2 }))
      fun _ _ => True := by
    refine .of_ok (runFrom_modifyGet _ seen) fun inv => ?_
    unfold BuildStack.claim
    split
    · refine ⟨fun p mem => inv p (List.eraseP_subset mem), ?_, trivial⟩
      exact .of_cache rfl (.refl _) (List.Subset.refl _) rfl
    · exact ⟨inv, .refl planned seen, trivial⟩
  split
  · exact .pure trivial
  · exact .pure trivial
  · exact .pure trivial
  · exact .pure trivial
  · refine claim.bind fun claimed next _ _ _ => ?_
    cases claimed with
    | some name => exact (minds_alloc _).mono fun _ _ _ _ _ => trivial
    | none => exact .pure trivial

/-- A variable refers to its name. -/
theorem minds_variable (stack : BuildStack) (name : String)
    (entries : stack.entries = st.stack.entries) :
    src.Minds catalog planned st (PlannerState.add { st with stack } (.localVar name)) ∧
      name ∈ (PlannerState.add { st with stack } (.localVar name)).arena.freeNames
        st.arena.size := by
  refine ⟨.of_cache entries (.alloc st.arena _) (List.Subset.refl _) rfl, ?_⟩
  have free := Arena.freeNames_alloc_self st.arena (.localVar name)
  rw [PlannerState.add, free, Arena.mem_freeIn]
  exact ⟨.inl rfl, List.not_mem_nil⟩

/-- An element that is under construction is referred to under the name that its key suggests. -/
theorem minds_constructing {key : Key} {element : Element} {act : PlanM PlanId}
    (own : ∀ t, src.Watched catalog planned st t →
      src.Watched catalog none (st.push (.building element)) t)
    (inside : Keeps (src.minding catalog none) (st.push (.building element)) act
      fun _ _ => True) :
    Keeps (src.minding catalog planned) st (constructing key element act) fun id next =>
      .building element ∈ st.stack.entries → key.ty.suggestedName ∈ next.arena.freeNames id := by
  cases met : above? element st.stack.entries with
  | none =>
      intro inv
      obtain ⟨inv', minds, -⟩ := inside inv
      have new := BuildStack.not_building_of_above? met
      have below := minds.popTo own
      rw [runFrom_constructing_entered key act met, runFrom_bind, runFrom_restoring]
      have inner : (src.minding catalog planned).inv
          ((act.runFrom (st.push (.building element))).2.popTo st.stack.height) := inv'
      generalize (act.runFrom (st.push (.building element))).1 = answer
      generalize (act.runFrom (st.push (.building element))).2.popTo st.stack.height = mid
        at below inner
      cases answer with
      | error e => exact ⟨inner, below, by simp⟩
      | ok id =>
          obtain ⟨last, more, -⟩ := minds_closeCycle key id inner
          exact ⟨last, below.trans more, fun _ _ here => absurd here new⟩
  | some above =>
      by_cases later : above.contains .deferred = true
      · have run := runFrom_constructing_closes key act met later
        split at run
        · rename_i q found
          refine .of_ok run fun inv => ?_
          obtain ⟨mem, rfl⟩ := BuildStack.mem_of_pendingFor found
          have suggested : q.name = q.key.ty.suggestedName := inv q mem
          obtain ⟨minds, refers⟩ := minds_variable st.stack q.name rfl
          exact ⟨inv, minds, fun _ => suggested ▸ refers⟩
        · refine .of_ok run fun inv => ?_
          let waiting := st.stack.await key (element :: st.stack.elements)
          obtain ⟨minds, refers⟩ := minds_variable waiting key.ty.suggestedName rfl
          refine ⟨fun p mem => ?_, minds, fun _ => refers⟩
          obtain mem | mem := List.mem_append.mp mem
          · exact inv p mem
          · rw [List.mem_singleton.mp mem]
      · have now : above.contains .deferred = false := Bool.eq_false_iff.mpr later
        exact .of_error (runFrom_constructing_endless key act met now) fun inv =>
          ⟨inv, .refl planned st⟩

end Source

end Injector
