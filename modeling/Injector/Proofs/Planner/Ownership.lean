/-
# Injector.Proofs.Planner.Ownership -- a plan is shared through the cache only

A plan that was just added is nobody's: no plan needs it, and it is not kept for a key
(`Loose`).  It is then put into one slot, or kept first and put into slots for its key.
So what two slots point at is kept, hence closed, and both are slots for the key that it
is kept for (`Owned`).

While the values of a call are collected, those that are there already must stay loose.
A request is made from a state with some number of plans; of the plans below that number
it uses only those that are kept, and it keeps none of them (`Spares`).  This is a frame:
slots that were in hand before are in hand afterwards, together with those that are new
(`Keeps.frame`).
-/
import Injector.Proofs.Plan.Reach
import Injector.Proofs.Plan.Trees
import Injector.Proofs.Planner.Run

namespace Injector

set_option autoImplicit false

open PlanM

/-- What is in a table after an insertion, in some order. -/
theorem Table.values_insert_perm {α β : Type} [DecidableEq α] (t : Table α β) (key : α)
    (value : β) :
    ∃ rest, rest.Sublist t.values ∧ (t.insert key value).values.Perm (rest ++ [value]) := by
  obtain ⟨rows⟩ := t
  simp only [insert, values]
  induction rows with
  | nil => exact ⟨[], .refl _, .refl _⟩
  | cons row rows ih =>
      obtain ⟨k, v⟩ := row
      simp only [put]
      by_cases same : k = key
      · rw [if_pos same]
        have last : (value :: rows.map Prod.snd).Perm (rows.map Prod.snd ++ [value]) :=
          (List.perm_append_singleton value _).symm
        exact ⟨rows.map Prod.snd, List.sublist_cons_self _ _, last⟩
      · rw [if_neg same]
        obtain ⟨rest, among, perm⟩ := ih
        exact ⟨v :: rest, among.cons_cons v, perm.cons v⟩

theorem Arena.Within.children_eq {a b : Arena} {id : PlanId} (within : a.Within b)
    (known : id < a.size) : b.children id = a.children id := by
  rw [children, children, within.plan?_eq known]

namespace PlannerState

/-- The plan of the slot is the one kept for its key. -/
def KeepsSlot (st : PlannerState) (s : Slot) : Prop := st.cache.get? s.key = some s.id

/-- No plan needs the plan `id`, and it is kept for no key. -/
structure Loose (st : PlannerState) (id : PlanId) : Prop where
  known : id < st.arena.size
  unkept : ∀ key, st.cache.get? key ≠ some id
  unused : ∀ parent, ∀ s ∈ st.arena.children parent, s.id ≠ id

/-- Plans are kept for one key each, and what is in two slots is kept for the key of both. -/
structure Owned (st : PlannerState) : Prop where
  before : ∀ parent, ∀ s ∈ st.arena.children parent, s.id < parent
  closed : ∀ {key id}, st.cache.get? key = some id →
    id < st.arena.size ∧ st.arena.isClosed id = true
  single : ∀ {key other id}, st.cache.get? key = some id → st.cache.get? other = some id →
    key = other
  named : ∀ parent, ∀ s ∈ st.arena.children parent, ∀ key,
    st.cache.get? key = some s.id → s.key = key
  shared : ∀ {parent other m n : Nat} {s t : Slot}, (st.arena.children parent)[m]? = some s →
    (st.arena.children other)[n]? = some t → (parent, m) ≠ (other, n) → s.id = t.id →
      st.KeepsSlot s

/-- The slot may be put into a plan: what it points at is kept for its key, or is loose and
was added from `base` on. -/
def Held (base : Nat) (st : PlannerState) (s : Slot) : Prop :=
  st.KeepsSlot s ∨ base ≤ s.id ∧ st.Loose s.id

/-- The slots may be put into one plan. -/
structure HeldAll (base : Nat) (st : PlannerState) (slots : List Slot) : Prop where
  each : ∀ s ∈ slots, st.Held base s
  apart : slots.Pairwise fun (s t : Slot) => s.id = t.id → st.KeepsSlot s ∧ st.KeepsSlot t

/-- Plans stay and stay kept.  Of the plans below `base`, new plans use only those that are
kept, and none is kept that was not. -/
structure Spares (base : Nat) (st next : PlannerState) : Prop where
  within : st.arena.Within next.arena
  kept : ∀ {key id}, st.cache.get? key = some id → next.cache.get? key = some id
  recent : ∀ {key id}, next.cache.get? key = some id → st.cache.get? key = some id ∨ base ≤ id
  slots : ∀ parent, st.arena.size ≤ parent → ∀ s ∈ next.arena.children parent,
    base ≤ s.id ∨ next.KeepsSlot s

end PlannerState

open PlannerState (KeepsSlot Loose Owned Held HeldAll Spares)

variable {base : Nat} {st next last : PlannerState} {key : Key} {id : PlanId}
  {slots more : List Slot}

/-! ## Slots in hand -/

namespace PlannerState

theorem Spares.refl (base : Nat) (st : PlannerState) : Spares base st st where
  within := .refl _
  kept found := found
  recent found := .inl found
  slots parent high s child := by
    rw [Arena.children_of_size_le high] at child
    cases child

theorem Spares.trans (first : Spares base st next) (second : Spares base next last) :
    Spares base st last where
  within := first.within.trans second.within
  kept found := second.kept (first.kept found)
  recent found := (second.recent found).elim first.recent .inr
  slots parent high s child := by
    by_cases known : parent < next.arena.size
    · rw [second.within.children_eq known] at child
      exact (first.slots parent high s child).imp_right second.kept
    · exact second.slots parent (Nat.le_of_not_lt known) s child

theorem Spares.mono {lower : Nat} (le : lower ≤ base) (spares : Spares base st next) :
    Spares lower st next where
  within := spares.within
  kept := spares.kept
  recent found := (spares.recent found).imp_right fun high => Nat.le_trans le high
  slots parent high s child :=
    (spares.slots parent high s child).imp_left fun high => Nat.le_trans le high

/-- What was loose before a step stays so. -/
theorem Loose.spares (loose : st.Loose id) (spares : Spares st.arena.size st next) :
    next.Loose id where
  known := Nat.lt_of_lt_of_le loose.known spares.within.size_le
  unkept key found := by
    obtain before | high := spares.recent found
    · exact loose.unkept key before
    · exact Nat.not_le_of_lt loose.known high
  unused parent s child same := by
    by_cases old : parent < st.arena.size
    · rw [spares.within.children_eq old] at child
      exact loose.unused parent s child same
    · obtain high | kept := spares.slots parent (Nat.le_of_not_lt old) s child
      · exact Nat.not_le_of_lt loose.known (same ▸ high)
      · obtain before | high := spares.recent kept
        · exact loose.unkept s.key (same ▸ before)
        · exact Nat.not_le_of_lt loose.known (same ▸ high)

theorem Held.known {s : Slot} (owned : st.Owned) (held : st.Held base s) :
    s.id < st.arena.size := by
  obtain kept | ⟨-, loose⟩ := held
  · exact (owned.closed kept).1
  · exact loose.known

theorem Held.spares {s : Slot} (held : st.Held base s) (spares : Spares st.arena.size st next) :
    next.Held base s := by
  obtain kept | ⟨le, loose⟩ := held
  · exact .inl (spares.kept kept)
  · exact .inr ⟨le, loose.spares spares⟩

/-- A slot in hand whose plan is kept is one for the key that it is kept for. -/
theorem Held.keepsSlot {s t : Slot} (held : st.Held base s) (kept : st.KeepsSlot t)
    (same : s.id = t.id) : st.KeepsSlot s := by
  obtain own | ⟨-, loose⟩ := held
  · exact own
  · exact absurd (same ▸ kept) (loose.unkept t.key)

theorem heldAll_nil (base : Nat) (st : PlannerState) : HeldAll base st [] :=
  ⟨List.forall_mem_nil _, .nil⟩

theorem heldAll_singleton {s : Slot} : HeldAll base st [s] ↔ st.Held base s := by
  constructor
  · intro held
    exact held.each s (List.mem_singleton_self s)
  · intro held
    exact ⟨List.forall_mem_singleton.mpr held, List.pairwise_singleton _ _⟩

theorem HeldAll.spares (held : HeldAll base st slots) (spares : Spares st.arena.size st next) :
    HeldAll base next slots :=
  ⟨fun s mem => (held.each s mem).spares spares, held.apart.imp fun kept same =>
    ⟨spares.kept (kept same).1, spares.kept (kept same).2⟩⟩

theorem HeldAll.sublist (held : HeldAll base st slots) (among : more.Sublist slots) :
    HeldAll base st more :=
  ⟨fun s mem => held.each s (among.subset mem), held.apart.sublist among⟩

theorem HeldAll.perm (held : HeldAll base st slots) (perm : slots.Perm more) :
    HeldAll base st more := by
  refine ⟨fun s mem => held.each s (perm.mem_iff.mpr mem), ?_⟩
  refine perm.pairwise held.apart ?_
  intro s t kept same
  exact (kept same.symm).symm

/-- Slots that were in hand before, and slots for what is new or kept. -/
theorem HeldAll.append {bound : Nat} (held : HeldAll base st slots)
    (new : HeldAll bound st more) (le : base ≤ bound) (below : ∀ s ∈ slots, s.id < bound) :
    HeldAll base st (slots ++ more) := by
  refine ⟨?_, List.pairwise_append.mpr ⟨held.apart, new.apart, ?_⟩⟩
  · intro s mem
    obtain mem | mem := List.mem_append.mp mem
    · exact held.each s mem
    · exact (new.each s mem).imp_right fun ⟨high, loose⟩ => ⟨Nat.le_trans le high, loose⟩
  · intro s mem t mem' same
    obtain kept | ⟨high, -⟩ := new.each t mem'
    · exact ⟨(held.each s mem).keepsSlot kept same, kept⟩
    · have low : s.id < bound := below s mem
      exact absurd (same ▸ high) (Nat.not_le_of_lt low)

/-! ## Adding and keeping plans -/

theorem Owned.empty (log : Log) : Owned { log } where
  before parent s child := by
    rw [Arena.children_of_size_le (Nat.zero_le parent)] at child
    cases child
  closed found := by cases found
  single found := by cases found
  named parent s child := by
    rw [Arena.children_of_size_le (Nat.zero_le parent)] at child
    cases child
  shared {parent} _ _ _ _ _ here := by
    rw [Arena.children_of_size_le (Nat.zero_le parent)] at here
    cases here

theorem children_add_of_lt {p : Plan} {parent : PlanId} (known : parent < st.arena.size) :
    (st.add p).arena.children parent = st.arena.children parent :=
  (Arena.Within.alloc st.arena p).children_eq known

theorem children_add_self (st : PlannerState) (p : Plan) :
    (st.add p).arena.children st.arena.size = p.children :=
  Arena.children_of_plan? (Arena.plan?_alloc_self st.arena p)

/-- The slots of the arena with a plan more are those that there were and those of the plan. -/
theorem children_add_cases {p : Plan} {parent : PlanId} {s : Slot}
    (child : s ∈ (st.add p).arena.children parent) :
    (parent < st.arena.size ∧ s ∈ st.arena.children parent) ∨
      parent = st.arena.size ∧ s ∈ p.children := by
  obtain old | rfl | beyond := Nat.lt_trichotomy parent st.arena.size
  · exact .inl ⟨old, children_add_of_lt (p := p) old ▸ child⟩
  · exact .inr ⟨rfl, children_add_self st p ▸ child⟩
  · have none : (st.add p).arena.children parent = [] :=
      Arena.children_of_size_le (by rw [add, Arena.size_alloc]; omega)
    rw [none] at child
    cases child

theorem Owned.add {p : Plan} (owned : st.Owned) (held : HeldAll base st p.children) :
    (st.add p).Owned where
  before parent s child := by
    obtain ⟨-, child⟩ | ⟨rfl, mem⟩ := children_add_cases child
    · exact owned.before parent s child
    · exact (held.each s mem).known owned
  closed found := by
    obtain ⟨known, closed⟩ := owned.closed found
    have within : st.arena.Within (st.add p).arena := .alloc st.arena p
    exact ⟨Nat.lt_of_lt_of_le known within.size_le, (within.isClosed_eq known).trans closed⟩
  single := owned.single
  named parent s child key found := by
    obtain ⟨-, child⟩ | ⟨-, mem⟩ := children_add_cases child
    · exact owned.named parent s child key found
    · obtain kept | ⟨-, loose⟩ := held.each s mem
      · exact owned.single kept found
      · exact absurd found (loose.unkept key)
  shared {parent other m n s t} here there ne same := by
    have old {q : PlanId} {k : Nat} {u : Slot} (at_ : ((st.add p).arena.children q)[k]? = some u) :
        (st.arena.children q)[k]? = some u ∨ q = st.arena.size ∧ p.children[k]? = some u := by
      obtain ⟨known, -⟩ | ⟨rfl, -⟩ := children_add_cases (List.mem_of_getElem? at_)
      · exact .inl (children_add_of_lt (p := p) known ▸ at_)
      · exact .inr ⟨rfl, children_add_self st p ▸ at_⟩
    -- a slot of the new plan points at what is kept, or at what no older slot points at
    obtain first | ⟨rfl, first⟩ := old here <;> obtain second | ⟨rfl, second⟩ := old there
    · exact owned.shared first second ne same
    · obtain kept | ⟨-, loose⟩ := held.each t (List.mem_of_getElem? second)
      · have name := owned.named parent s (List.mem_of_getElem? first) t.key (same ▸ kept)
        rw [KeepsSlot, name, same]
        exact kept
      · exact absurd same (loose.unused parent s (List.mem_of_getElem? first))
    · obtain kept | ⟨-, loose⟩ := held.each s (List.mem_of_getElem? first)
      · exact kept
      · exact absurd same.symm (loose.unused other t (List.mem_of_getElem? second))
    · have ordered := List.pairwise_iff_getElem.mp held.apart
      obtain ⟨low, rfl⟩ := List.getElem?_eq_some_iff.mp first
      obtain ⟨low', rfl⟩ := List.getElem?_eq_some_iff.mp second
      obtain less | rfl | more := Nat.lt_trichotomy m n
      · exact (ordered m n low low' less same).1
      · exact absurd rfl ne
      · exact (ordered n m low' low more same.symm).2

theorem Spares.add {p : Plan} (held : HeldAll base st p.children) : Spares base st (st.add p) where
  within := .alloc st.arena p
  kept found := found
  recent found := .inl found
  slots parent high s child := by
    obtain ⟨known, -⟩ | ⟨-, mem⟩ := children_add_cases child
    · exact absurd known (Nat.not_lt_of_le high)
    · exact (held.each s mem).symm.imp_left And.left

/-- The new plan is loose. -/
theorem Loose.add {p : Plan} (owned : st.Owned) (held : HeldAll base st p.children) :
    (st.add p).Loose st.arena.size where
  known := by simp [PlannerState.add]
  unkept key found := absurd (owned.closed found).1 (Nat.lt_irrefl _)
  unused parent s child := by
    have less := (owned.add held).before parent s child
    obtain ⟨known, -⟩ | ⟨rfl, -⟩ := children_add_cases child
    · exact Nat.ne_of_lt (less.trans known)
    · exact Nat.ne_of_lt less

/-- The state in which the plan `id` is kept for `key`. -/
def keep (st : PlannerState) (key : Key) (id : PlanId) : PlannerState :=
  { st with cache := st.cache.insertNew key id }

theorem keep_of_kept {old : PlanId} (found : st.cache.get? key = some old) (id : PlanId) :
    st.keep key id = st := by
  have present : st.cache.contains key = true := by
    rw [Table.contains, found]
    rfl
  rw [keep, Table.insertNew, if_pos present]

theorem get?_keep (absent : st.cache.get? key = none) {other : Key} {found : PlanId} :
    (st.keep key id).cache.get? other = some found ↔
      st.cache.get? other = some found ∨ key = other ∧ id = found := by
  simp only [keep, Table.get?_insertNew]
  by_cases same : key = other
  · subst same
    simp [absent]
  · simp [same]

theorem Owned.keep (owned : st.Owned) (loose : st.Loose id) (closed : st.arena.isClosed id = true)
    (absent : st.cache.get? key = none) : (st.keep key id).Owned where
  before := owned.before
  closed found := by
    obtain found | ⟨-, rfl⟩ := (get?_keep absent).mp found
    · exact owned.closed found
    · exact ⟨loose.known, closed⟩
  single found found' := by
    obtain found | ⟨rfl, rfl⟩ := (get?_keep absent).mp found <;>
      obtain found' | ⟨rfl, same⟩ := (get?_keep absent).mp found'
    · exact owned.single found found'
    · exact absurd (same ▸ found) (loose.unkept _)
    · exact absurd found' (loose.unkept _)
    · rfl
  named parent s child other found := by
    obtain found | ⟨-, same⟩ := (get?_keep absent).mp found
    · exact owned.named parent s child other found
    · exact absurd same.symm (loose.unused parent s child)
  shared here there ne same := (get?_keep absent).mpr (.inl (owned.shared here there ne same))

theorem Spares.keep (high : base ≤ id) (absent : st.cache.get? key = none) :
    Spares base st (st.keep key id) where
  within := .refl _
  kept found := (get?_keep absent).mpr (.inl found)
  recent found := ((get?_keep absent).mp found).imp_right fun ⟨_, same⟩ => same ▸ high
  slots parent beyond s child := by
    rw [show (st.keep key id).arena = st.arena from rfl, Arena.children_of_size_le beyond] at child
    cases child

end PlannerState

/-- Plans are owned, and those below `base` are used only if they are kept. -/
def holding (base : Nat) : Discipline where
  inv st := st.Owned ∧ base ≤ st.arena.size
  le := Spares base
  refl := Spares.refl base
  trans := Spares.trans

/-- What else is in the state makes no difference. -/
theorem holding_of_same (arena : next.arena = st.arena) (cache : next.cache = st.cache) :
    ((holding base).inv st → (holding base).inv next) ∧ (holding base).le st next := by
  obtain ⟨log, stack, a, c, names⟩ := next
  obtain rfl : a = st.arena := arena
  obtain rfl : c = st.cache := cache
  constructor
  · rintro ⟨owned, le⟩
    exact ⟨⟨owned.before, owned.closed, owned.single, owned.named, owned.shared⟩, le⟩
  · exact ⟨.refl st.arena, id, .inl, (Spares.refl base st).slots⟩

theorem holding_stackless : (holding base).Stackless where
  inv _ := (holding_of_same (by rfl) (by rfl)).1
  le _ _ := (holding_of_same (by rfl) (by rfl)).2

/-- A step leaves the slots that were in hand before, and what it hands out comes with them. -/
theorem Keeps.frame {α : Type} {act : PlanM α} {post : α → PlannerState → Prop}
    (given : α → List Slot) (held : HeldAll base st slots)
    (step : Keeps (holding st.arena.size) st act post)
    (gives : ∀ a next, post a next → HeldAll st.arena.size next (given a)) :
    Keeps (holding base) st act fun a next =>
      post a next ∧ HeldAll base next (slots ++ given a) := by
  rintro ⟨owned, le⟩
  obtain ⟨⟨owned', le'⟩, spares, holds⟩ := step ⟨owned, Nat.le_refl _⟩
  refine ⟨⟨owned', Nat.le_trans le le'⟩, spares.mono le, fun a done => ⟨holds a done, ?_⟩⟩
  exact (held.spares spares).append (gives a _ (holds a done)) le
    fun s mem => (held.each s mem).known owned

end Injector
