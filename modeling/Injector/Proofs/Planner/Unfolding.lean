/-
# Injector.Proofs.Planner.Unfolding -- what a key unfolds to

Where no value is kept in a scope or built later, a key is built by the step that follows its
binding, and by building what the call asks for (`Unfolding`).  This needs no arena, no kept
plans and no stack; a key has one such tree at most.

It has one exactly if each key that a chain of requests comes to is bound, and no declaration
is called again for what its own call asks for (`exists_unfolding_iff`).  A tree is finite,
and a declaration that leads back to itself would go on forever; without type variables what
it asks for does not depend on the key.  And if none does, each further call takes one of the
finitely many declarations away.
-/
import Injector.Proofs.Planner.Depth
import Injector.Proofs.Plan.Trees

namespace Injector

set_option autoImplicit false

open Relation (ReflTransGen TransGen)

theorem not_transGen_self {α : Type} {r : α → α → Prop} {a : α} (acc : Acc r a) :
    ¬TransGen r a a := by
  have self (b : α) (acc : Acc (TransGen r) b) : ¬TransGen r b b := by
    induction acc with
    | intro b _ ih => exact fun loop => ih b loop loop
  exact self a acc.transGen

namespace Source

variable (src : Source) (catalog : Catalog) (className : String)

/-! ## Trees of keys -/

/-- All that the calls for a key ask for, in order. -/
def wants (key : Key) : List Key := (src.calls catalog key).flatMap src.asks

/-- The slots of the arguments, without the plans in them. -/
def blanks (s : Subst) (params : List ParamDecl) : Table String Slot :=
  ⟨params.map fun param => (param.name, ⟨src.paramKey s param, 0⟩)⟩

/-- The step that follows a binding. -/
def stepOf : Binding → Plan
  | .ctor cls index ty _ _ =>
    let ctor := ((src.program.classAt cls).ctors[index]?).getD default
    .construct ty (src.blanks ((src.program.classAt cls).substFor ty) ctor.params)
      ctor.namedArguments
  | .member b =>
    let m := src.program.memberAt b.member
    .provide className m.name b.path (m.receiver.map fun ty => ⟨receiverKey .empty ty, 0⟩)
      (m.kind == .property) (src.blanks .empty m.params)
  | .container kind contributors =>
    .container kind (contributors.map fun b => ⟨src.contributionKey b, 0⟩)
  | .object cls => .object (src.program.classAt cls).ty

/-- The key unfolds to the tree: the step of its binding, above the trees of what the call
asks for. -/
inductive Unfolding : Key → PlanTree → Prop where
  | node {key : Key} {b : Binding} (trees : Key → PlanTree) : key.ty.isUnresolved = false →
      (src.choose catalog key).1 = .binding b →
      (∀ asked ∈ src.wants catalog key, Unfolding asked (trees asked)) →
      Unfolding key (.node (src.stepOf className b) ((src.wants catalog key).map trees))

/-- There is something to build the key from, and its type is known. -/
def Bound (key : Key) : Prop := key.ty.isUnresolved = false ∧ ¬src.Unbound catalog key

/-- All that the key leads to is bound, and no call leads back to its declaration. -/
structure Buildable (key : Key) : Prop where
  bound : ∀ next, ReflTransGen (src.Now catalog) key next → src.Bound catalog next
  onward : ∀ next c, ReflTransGen (src.Now catalog) key next → c ∈ src.calls catalog next →
    ¬src.LeadsBack catalog c

/-! ## First order -/

/-- What is chosen is a member, a class or a single instance, and its value is not kept; or
nothing makes a value of the key. -/
def PlainChoice (key : Key) : Choice → Prop
  | .binding (.ctor _ _ _ _ scopedIn) => scopedIn = none
  | .binding (.member b) => b.scopedIn = none
  | .binding (.object _) => True
  | .nothing => key.ty.isFunction = false ∧ key.ty.isLazy = false ∧
      src.fitting key catalog.generics [] = []
  | .binding (.container ..) | .ownerless .. => False

instance (key : Key) : (choice : Choice) → Decidable (src.PlainChoice catalog key choice)
  | .binding (.ctor _ _ _ _ scopedIn) => inferInstanceAs (Decidable (scopedIn = none))
  | .binding (.member b) => inferInstanceAs (Decidable (b.scopedIn = none))
  | .binding (.object _) => inferInstanceAs (Decidable True)
  | .nothing => inferInstanceAs (Decidable (_ ∧ _ ∧ _))
  | .binding (.container ..) | .ownerless .. => inferInstanceAs (Decidable False)

/-- The key is served by a plain choice, or not at all. -/
def Plain (key : Key) : Prop := src.PlainChoice catalog key (src.choose catalog key).1

instance (key : Key) : Decidable (src.Plain catalog key) :=
  inferInstanceAs (Decidable (src.PlainChoice ..))

/-- No class has type variables, all that can be requested is plain, and its parameters have no
defaults and names of their own. -/
structure FirstOrder : Prop where
  untyped : ∀ c ∈ src.program.classes, c.typeVars = []
  plain : ∀ key, src.Requested catalog key → src.Plain catalog key
  strict : ∀ c, src.Built catalog c → ∀ param ∈ c.params, param.hasDefault = false
  distinct : ∀ c, src.Built catalog c → (c.params.map (·.name)).Nodup

variable {src catalog className} {key next : Key} {t t' : PlanTree} {c d : Call}

theorem Covers.firstOrder {keys : List Key} (covers : src.Covers catalog keys)
    (untyped : ∀ c ∈ src.program.classes, c.typeVars = [])
    (plain : ∀ key ∈ keys, src.Plain catalog key)
    (strict : ∀ c ∈ keys.flatMap (src.calls catalog), ∀ param ∈ c.params, param.hasDefault = false)
    (distinct : ∀ c ∈ keys.flatMap (src.calls catalog), (c.params.map (·.name)).Nodup) :
    src.FirstOrder catalog where
  untyped := untyped
  plain key requested := plain key (covers.requested requested)
  strict c built := strict c (covers.built built)
  distinct c built := distinct c (covers.built built)

/-! ## Calls for plain keys -/

/-- The constructor that is chosen for a class is the same for all keys. -/
theorem ctor_of_chosen {cls : ClassId} {index : Nat} {ty : Ty} {path : FieldPath}
    {scopedIn : Option ClassId}
    (chosen : (src.choose catalog key).1 = .binding (.ctor cls index ty path scopedIn)) :
    (src.injectCtor cls).1 = some index := by
  rcases src.choose_cases catalog key with ⟨_, _, _, same, _⟩ | ⟨_, _, same⟩ | same |
    ⟨_, id, _, same⟩ <;> rw [same] at chosen
  · cases chosen
  · cases chosen
  · cases chosen
  · simp only [classChoice] at chosen
    split at chosen
    · split at chosen <;> cases chosen
    · split at chosen
      · cases chosen
      · split at chosen
        · cases chosen
        · rename_i n found
          split at chosen
          · simp only [ctorChoice] at chosen
            split at chosen
            · cases chosen
              exact found
            · split at chosen <;> cases chosen
              exact found
          · cases chosen

theorem exists_ctor {cls : ClassId} {index : Nat} (found : (src.injectCtor cls).1 = some index) :
    ∃ ctor, (src.program.classAt cls).ctors[index]? = some ctor := by
  have marked : ∀ n ∈ src.injectCtors (src.program.classAt cls),
      ∃ ctor, (src.program.classAt cls).ctors[n]? = some ctor := by
    intro n mem
    obtain ⟨⟨ctor, m⟩, mem, same⟩ := List.mem_filterMap.mp mem
    dsimp only at same
    split at same
    · cases same
      exact ⟨ctor, List.mem_zipIdx_iff_getElem?.mp mem⟩
    · cases same
  simp only [injectCtor] at found
  split at found
  · dsimp only at found
    split at found
    · cases found
    · rename_i some_
      cases found
      rw [List.isEmpty_iff] at some_
      exact ⟨_, List.getElem?_eq_getElem (List.length_pos_iff.mpr some_)⟩
  · exact marked index (List.mem_of_mem_head? found)

/-- A call for a plain key is that of the class asked for, or of a member. -/
theorem call_of_plain (plain : src.Plain catalog key) (mem : c ∈ src.calls catalog key) :
    src.calls catalog key = [c] ∧ c.inLambda = false ∧
      ((∃ cls index, (src.injectCtor cls).1 = some index ∧ c = src.ctorCall key cls index key.ty) ∨
        ∃ m, c = src.memberCall key m .empty false) := by
  simp only [Plain, PlainChoice] at plain
  split at plain
  · rename_i cls index ty path scopedIn chosen
    obtain ⟨rfl, -⟩ := class_of_chosen chosen
    have only := calls_of_binding chosen
    rw [only] at mem ⊢
    obtain rfl := List.mem_singleton.mp mem
    exact ⟨rfl, rfl, .inl ⟨cls, index, ctor_of_chosen chosen, rfl⟩⟩
  · rename_i b chosen
    have only := calls_of_binding chosen
    rw [only] at mem ⊢
    obtain rfl := List.mem_singleton.mp mem
    exact ⟨rfl, rfl, .inr ⟨b.member, rfl⟩⟩
  · rename_i cls chosen
    rw [calls_of_binding chosen] at mem
    cases mem
  · rename_i nothing
    obtain ⟨plain, strict, none⟩ := plain
    rw [calls_of_unbound nothing, unboundCalls, plain, strict, none] at mem
    cases mem
  · cases plain
  · cases plain

theorem mem_wants_iff (plain : src.Plain catalog key) :
    next ∈ src.wants catalog key ↔ src.Now catalog key next := by
  rw [wants, List.mem_flatMap]
  refine ⟨fun ⟨c, mem, asks⟩ => ⟨c, mem, (call_of_plain plain mem).2.1, asks⟩, ?_⟩
  rintro ⟨c, mem, -, asks⟩
  exact ⟨c, mem, asks⟩

/-- Without type variables a declaration asks for the same keys whatever it is called for. -/
theorem asks_eq_of_element (untyped : ∀ c ∈ src.program.classes, c.typeVars = [])
    (plain : src.Plain catalog key) (plain' : src.Plain catalog next)
    (mem : c ∈ src.calls catalog key) (mem' : d ∈ src.calls catalog next)
    (same : d.element = c.element) : src.asks d = src.asks c := by
  have noVars (cls : ClassId) (ty : Ty) : (src.program.classAt cls).substFor ty = .empty := by
    have none : (src.program.classAt cls).typeVars = [] := by
      rw [Program.classAt]
      cases found : src.program.classes[cls.toNat]? with
      | none => rfl
      | some c => exact untyped c (List.mem_of_getElem? found)
    rw [ClassDecl.substFor, none]
    rfl
  obtain ⟨-, -, ⟨cls, index, found, rfl⟩ | ⟨m, rfl⟩⟩ := call_of_plain plain mem <;>
    obtain ⟨-, -, ⟨cls', index', found', rfl⟩ | ⟨m', rfl⟩⟩ := call_of_plain plain' mem'
  · obtain rfl : cls' = cls := by
      simp only [ctorCall, Element.ctor.injEq] at same
      exact same.1
    obtain rfl : index' = index := Option.some.inj (found'.symm.trans found)
    simp only [asks, ctorCall, noVars]
  · cases same
  · cases same
  · obtain rfl : m' = m := by
      simp only [memberCall, Element.member.injEq] at same
      exact same
    rfl

/-! ## Trees and chains -/

/-- A key has one tree at most. -/
theorem Unfolding.unique (first : src.Unfolding catalog className key t)
    (second : src.Unfolding catalog className key t') : t' = t := by
  induction first generalizing t' with
  | @node key b trees _ chosen _ ih =>
      cases second with
      | @node _ b' trees' _ chosen' below =>
          obtain rfl : b = b' := by
            rw [chosen] at chosen'
            cases chosen'
            rfl
          congr 1
          exact List.map_congr_left fun asked mem => ih asked mem (below asked mem)

theorem Unfolding.bound (unfolding : src.Unfolding catalog className key t) :
    src.Bound catalog key := by
  cases unfolding with
  | node _ known chosen _ =>
      refine ⟨known, fun unbound => ?_⟩
      cases unbound.symm.trans chosen

theorem Unfolding.now (unfolding : src.Unfolding catalog className key t)
    (now : src.Now catalog key next) : ∃ t, src.Unfolding catalog className next t := by
  obtain ⟨c, mem, -, asks⟩ := now
  cases unfolding with
  | node trees _ _ below => exact ⟨_, below next (List.mem_flatMap.mpr ⟨c, mem, asks⟩)⟩

theorem Unfolding.chain (unfolding : src.Unfolding catalog className key t)
    (chain : ReflTransGen (src.Now catalog) key next) :
    ∃ t, src.Unfolding catalog className next t := by
  induction chain with
  | refl => exact ⟨t, unfolding⟩
  | tail _ now ih =>
      obtain ⟨_, unfolding⟩ := ih
      exact unfolding.now now

/-- Chains from a key that has a tree come to an end. -/
theorem Unfolding.acc (unfolding : src.Unfolding catalog className key t) :
    Acc (fun next key => src.Now catalog key next) key := by
  induction unfolding with
  | node _ _ _ _ ih =>
      refine .intro _ fun next now => ?_
      obtain ⟨c, mem, -, asks⟩ := now
      exact ih next (List.mem_flatMap.mpr ⟨c, mem, asks⟩)

theorem Requested.now (requested : src.Requested catalog key)
    (chain : ReflTransGen (src.Now catalog) key next) : src.Requested catalog next :=
  requested.chain (ReflTransGen.mono (fun _ _ => Now.toNext) _ _ chain)

theorem Buildable.chain (buildable : src.Buildable catalog key)
    (chain : ReflTransGen (src.Now catalog) key next) : src.Buildable catalog next :=
  ⟨fun other further => buildable.bound other (chain.trans further),
    fun other c further => buildable.onward other c (chain.trans further)⟩

section FirstOrder

variable (first : src.FirstOrder catalog) (requested : src.Requested catalog key)

include first requested

/-- What has a tree is bound, and calls nothing again that it is called for. -/
theorem Unfolding.buildable (unfolding : src.Unfolding catalog className key t) :
    src.Buildable catalog key where
  bound next chain := by
    obtain ⟨_, below⟩ := unfolding.chain chain
    exact below.bound
  onward := by
    rintro next c chain mem ⟨asked, asks, other, ahead, d, mem', -, same⟩
    have here := requested.now chain
    have plain := first.plain next here
    have now : src.Now catalog next asked := (mem_wants_iff plain).mp
      (List.mem_flatMap.mpr ⟨c, mem, asks⟩)
    have plain' := first.plain other ((here.now (.single now)).now ahead)
    -- the other call asks for the same key again
    have again : src.Now catalog other asked := by
      rw [← asks_eq_of_element first.untyped plain plain' mem mem' same] at asks
      exact (mem_wants_iff plain').mp (List.mem_flatMap.mpr ⟨d, mem', asks⟩)
    obtain ⟨_, below⟩ := unfolding.chain (chain.tail now)
    exact not_transGen_self below.acc (Relation.transGen_swap.mpr (.tail' ahead again))

/-- What is bound and calls nothing again that it is called for has a tree. -/
theorem Buildable.exists_unfolding (buildable : src.Buildable catalog key) :
    ∃ t, src.Unfolding catalog className key t := by
  -- The declarations that are called on the way are distinct, so they get fewer.
  have within (n : Nat) (s : List BuildEntry) (key : Key) (few : (idle src.program s).length < n)
      (requested : src.Requested catalog key) (buildable : src.Buildable catalog key)
      (new : ∀ next c, ReflTransGen (src.Now catalog) key next → c ∈ src.calls catalog next →
        .building c.element ∉ s) : ∃ t, src.Unfolding catalog className key t := by
    induction n generalizing s key with
    | zero => exact absurd few (Nat.not_lt_zero _)
    | succ n ih =>
        obtain ⟨known, bound⟩ := buildable.bound key .refl
        have plain := first.plain key requested
        have each : ∀ asked, ∃ t, asked ∈ src.wants catalog key →
            src.Unfolding catalog className asked t := by
          intro asked
          by_cases mem : asked ∈ src.wants catalog key
          · have now := (mem_wants_iff plain).mp mem
            obtain ⟨c, mem, asks⟩ := List.mem_flatMap.mp mem
            have fewer := length_idle_push (asks_bounded mem asks).2 (new key c .refl mem)
            have onward : ∀ next d, ReflTransGen (src.Now catalog) asked next →
                d ∈ src.calls catalog next →
                  .building d.element ∉ BuildEntry.building c.element :: s := by
              intro next d chain mem' again
              rcases List.mem_cons.mp again with same | under
              · have plain' := first.plain next ((requested.now (.single now)).now chain)
                exact buildable.onward key c .refl mem
                  ⟨asked, asks, next, chain, d, mem', (call_of_plain plain' mem').2.1,
                    by simpa using same⟩
              · exact new next d (.head now chain) mem' under
            obtain ⟨t, unfolding⟩ := ih _ asked (by omega) (requested.now (.single now))
              (buildable.chain (.single now)) onward
            exact ⟨t, fun _ => unfolding⟩
          · exact ⟨default, fun here => absurd here mem⟩
        choose trees below using each
        cases chosen : (src.choose catalog key).1 with
        | nothing => exact absurd chosen bound
        | binding b => exact ⟨_, .node trees known chosen below⟩
        | ownerless => simp [Plain, PlainChoice, chosen] at plain
  exact within _ [] key (Nat.lt_succ_self _) requested buildable fun _ _ _ _ => List.not_mem_nil

theorem exists_unfolding_iff :
    (∃ t, src.Unfolding catalog className key t) ↔ src.Buildable catalog key :=
  ⟨fun ⟨_, unfolding⟩ => unfolding.buildable first requested,
    fun buildable => buildable.exists_unfolding first requested⟩

end FirstOrder

end Source

end Injector
