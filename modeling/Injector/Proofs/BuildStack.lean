/-
# Injector.Proofs.BuildStack -- the stack under any sequence of operations

Frames are bare heights, and a height may be gone back to late, twice or out of
order; cycles that wait outlive the frames in which they were met.  What the stack
answers does not depend on its operations being nested: in whatever order they
come, an element is on the stack once at most, and a key waits once at most
(`Tidy`).

So the answer to an element that is on the stack is the one that the entries above
it give, and a key that waits keeps its name until it is claimed: each answer in
between is that name, the claim hands it out, and no claim after that does, unless
the key is met again.
-/
import Injector.Proofs.Planner.Run

namespace Injector

set_option autoImplicit false

namespace BuildStack

/-- An operation on the stack.  Any height may be gone back to. -/
inductive Op where
  | enter (key : Key) (element : Element)
  | defer
  | popTo (height : Nat)
  | claim (key : Key)
  /-- Forget everything. -/
  | reset

/-- The stack after one operation. -/
def Op.run (s : BuildStack) : Op → BuildStack
  | .enter key element => (s.enter key element).2
  | .defer => s.defer.2
  | .popTo height => s.popTo height
  | .claim key => (s.claim key).2
  | .reset => empty

/-- The operation does not touch what waits for `key`. -/
def Op.Leaves (key : Key) : Op → Prop
  | .claim other => other ≠ key
  | .reset => False
  | _ => True

/-- The stack after operations. -/
def after (s : BuildStack) (ops : List Op) : BuildStack := ops.foldl Op.run s

/-- None of the operations is answered with a variable for `key`. -/
def NoneCloses (key : Key) : BuildStack → List Op → Prop
  | _, [] => True
  | s, op :: ops =>
    (∀ element, op = .enter key element → ∀ name, (s.enter key element).1 ≠ .closes name) ∧
      NoneCloses key (op.run s) ops

/-- The element is under construction, and nothing above it is built later. -/
def NeedsNow (s : BuildStack) (element : Element) : Prop :=
  ∃ above below, s.entries = above ++ .building element :: below ∧ .deferred ∉ above

/-- The element is under construction, and something above it is built later. -/
def NeedsLater (s : BuildStack) (element : Element) : Prop :=
  ∃ above below, s.entries = above ++ .building element :: below ∧ .deferred ∈ above

/-- No element is under construction twice, and no key waits twice. -/
structure Tidy (s : BuildStack) : Prop where
  elements : s.elements.Nodup
  pending : (s.pending.map (·.key)).Nodup

variable {s t : BuildStack} {key other : Key} {element : Element} {name : String}
  {above below : List BuildEntry} {q : PendingCycle}

/-! ## Every operation keeps the stack tidy -/

theorem mem_elements : element ∈ s.elements ↔ .building element ∈ s.entries := by
  unfold elements
  rw [List.mem_filterMap]
  constructor
  · rintro ⟨entry, mem, same⟩
    cases entry with
    | deferred => cases same
    | building e =>
        cases same
        exact mem
  · intro mem
    exact ⟨_, mem, rfl⟩

theorem tidy_empty : empty.Tidy := ⟨List.nodup_nil, List.nodup_nil⟩

/-- The ways in which the stack answers, and what it is then. -/
inductive Enters (s : BuildStack) (key : Key) (element : Element) : Entrance × BuildStack → Prop where
  | new (absent : above? element s.entries = none) :
    Enters s key element (.entered s.height, s.push (.building element))
  | endless {above : List BuildEntry} (found : above? element s.entries = some above)
    (unmarked : .deferred ∉ above) : Enters s key element (.endless, s)
  | again {above : List BuildEntry} {q : PendingCycle}
    (found : above? element s.entries = some above) (marked : .deferred ∈ above)
    (waits : s.pendingFor key = some q) : Enters s key element (.closes q.name, s)
  | met {above : List BuildEntry} (found : above? element s.entries = some above)
    (marked : .deferred ∈ above) (first : s.pendingFor key = none) :
    Enters s key element
      (.closes key.ty.suggestedName, s.await key (element :: s.elements))

theorem enters (s : BuildStack) (key : Key) (element : Element) :
    Enters s key element (s.enter key element) := by
  unfold enter
  cases found : above? element s.entries with
  | none => exact .new found
  | some above =>
      by_cases marked : BuildEntry.deferred ∈ above
      · simp only [List.contains_iff_mem.mpr marked, if_true]
        cases waits : s.pendingFor key with
        | some q => exact .again found marked waits
        | none => exact .met found marked waits
      · simp only [Bool.eq_false_iff.mpr (mt List.contains_iff_mem.mp marked)]
        exact .endless found marked

theorem claim_of_pendingFor (waits : s.pendingFor key = some q) :
    s.claim key = (some q.name, s.settle key) := by
  unfold claim
  rw [waits]
  rfl

theorem claim_of_not_pendingFor (absent : s.pendingFor key = none) : s.claim key = (none, s) := by
  unfold claim
  rw [absent]

theorem Tidy.enter (tidy : s.Tidy) (key : Key) (element : Element) :
    (s.enter key element).2.Tidy := by
  have enters := s.enters key element
  generalize s.enter key element = outcome at enters
  cases enters with
  | new absent =>
      have fresh : element ∉ s.elements := by
        rw [mem_elements]
        exact not_building_of_above? absent
      exact ⟨List.nodup_cons.mpr ⟨fresh, tidy.elements⟩, tidy.pending⟩
  | endless | again => exact tidy
  | met _ _ first =>
      refine ⟨tidy.elements, ?_⟩
      unfold await
      rw [List.map_append, List.nodup_append]
      refine ⟨tidy.pending, by simp, ?_⟩
      intro waiting mem new single
      obtain ⟨q, inside, rfl⟩ := List.mem_map.mp mem
      obtain rfl := List.mem_singleton.mp single
      exact ne_of_pendingFor first q inside

theorem Tidy.popTo (tidy : s.Tidy) (height : Nat) : (s.popTo height).Tidy :=
  ⟨tidy.elements.sublist ((List.drop_sublist _ _).filterMap _), tidy.pending⟩

theorem Tidy.claim (tidy : s.Tidy) (key : Key) : (s.claim key).2.Tidy := by
  cases waits : s.pendingFor key with
  | none => rwa [claim_of_not_pendingFor waits]
  | some q =>
      rw [claim_of_pendingFor waits]
      exact ⟨tidy.elements, tidy.pending.sublist (List.eraseP_sublist.map _)⟩

theorem Tidy.run (tidy : s.Tidy) (op : Op) : (op.run s).Tidy := by
  cases op with
  | enter key element => exact tidy.enter key element
  | defer => exact ⟨tidy.elements, tidy.pending⟩
  | popTo height => exact tidy.popTo height
  | claim key => exact tidy.claim key
  | reset => exact tidy_empty

theorem Tidy.after (tidy : s.Tidy) (ops : List Op) : (s.after ops).Tidy := by
  induction ops generalizing s with
  | nil => exact tidy
  | cons op ops ih => exact ih (tidy.run op)

/-! ## The answer for an element on the stack -/

/-- What is above an element that is there once does not depend on where it is looked for. -/
theorem Tidy.above? (tidy : s.Tidy) (there : s.entries = above ++ .building element :: below) :
    above? element s.entries = some above := by
  have absent : .building element ∉ above := by
    intro again
    have nodup := tidy.elements
    unfold BuildStack.elements at nodup
    rw [there, List.filterMap_append, List.nodup_append] at nodup
    exact nodup.2.2 element (List.mem_filterMap.mpr ⟨_, again, rfl⟩) element (by simp) rfl
  rw [there]
  clear tidy there
  induction above with
  | nil => simp [BuildStack.above?]
  | cons entry rest ih =>
      rw [List.mem_cons, not_or] at absent
      simp only [List.cons_append, BuildStack.above?]
      rw [if_neg (Ne.symm absent.1), ih absent.2]
      rfl

theorem entries_of_above? (found : BuildStack.above? element s.entries = some above) :
    ∃ below, s.entries = above ++ .building element :: below := by
  generalize s.entries = entries at found
  induction entries generalizing above with
  | nil => cases found
  | cons entry rest ih =>
      simp only [BuildStack.above?] at found
      split at found
      · rename_i same
        cases found
        exact ⟨rest, by rw [same]; rfl⟩
      · obtain ⟨more, inner, rfl⟩ := Option.map_eq_some_iff.mp found
        obtain ⟨below, there⟩ := ih inner
        exact ⟨below, by rw [there]; rfl⟩

theorem Tidy.endless_iff (tidy : s.Tidy) :
    (s.enter key element).1 = .endless ↔ s.NeedsNow element := by
  have enters := s.enters key element
  generalize s.enter key element = outcome at enters
  constructor
  · intro answer
    cases enters with
    | new | again | met => cases answer
    | endless found unmarked =>
        obtain ⟨below, there⟩ := entries_of_above? found
        exact ⟨_, below, there, unmarked⟩
  · rintro ⟨above, below, there, unmarked⟩
    have found := tidy.above? there
    cases enters with
    | new absent => cases found.symm.trans absent
    | endless => rfl
    | again found' marked | met found' marked =>
        cases found.symm.trans found'
        exact absurd marked unmarked

theorem Tidy.closes_iff (tidy : s.Tidy) :
    (∃ name, (s.enter key element).1 = .closes name) ↔ s.NeedsLater element := by
  have enters := s.enters key element
  generalize s.enter key element = outcome at enters
  constructor
  · rintro ⟨name, answer⟩
    cases enters with
    | new | endless => cases answer
    | again found marked | met found marked =>
        obtain ⟨below, there⟩ := entries_of_above? found
        exact ⟨_, below, there, marked⟩
  · rintro ⟨above, below, there, marked⟩
    have found := tidy.above? there
    cases enters with
    | new absent => cases found.symm.trans absent
    | endless found' unmarked =>
        cases found.symm.trans found'
        exact absurd marked unmarked
    | again | met => exact ⟨_, rfl⟩

/-! ## The name of a key that waits -/

theorem pendingFor_await {path : List Element} :
    (s.await other path).pendingFor key =
      (s.pendingFor key).or
        (if other = key then some ⟨other, other.ty.suggestedName, path⟩ else none) := by
  unfold pendingFor await
  rw [List.find?_append]
  by_cases same : other = key <;> simp [same]

theorem pendingFor_settle_of_ne (apart : other ≠ key) :
    (s.settle other).pendingFor key = s.pendingFor key := by
  unfold pendingFor settle
  dsimp only
  induction s.pending with
  | nil => rfl
  | cons p rest ih =>
      by_cases here : p.key = other
      · simp [here, apart]
      · by_cases same : p.key = key
        · simp [same, Ne.symm apart]
        · simp [here, same, ih]

theorem Tidy.pendingFor_settle (tidy : s.Tidy) : (s.settle key).pendingFor key = none := by
  have nodup := tidy.pending
  unfold pendingFor settle
  dsimp only
  generalize s.pending = waiting at nodup
  induction waiting with
  | nil => rfl
  | cons p rest ih =>
      rw [List.map_cons, List.nodup_cons] at nodup
      by_cases here : p.key = key
      · subst here
        simpa using nodup.1
      · simp [here, ih nodup.2]

/-- The variable handed out for a key is the one that waits for it from then on, and the one
that did if there was one. -/
theorem pendingFor_enter (answer : (s.enter key element).1 = .closes name) :
    ∃ q, (s.enter key element).2.pendingFor key = some q ∧ q.name = name ∧
      ∀ p, s.pendingFor key = some p → p = q := by
  have enters := s.enters key element
  generalize s.enter key element = outcome at enters answer
  cases enters with
  | new | endless => cases answer
  | again _ _ waits =>
      cases answer
      refine ⟨_, waits, rfl, ?_⟩
      intro p same
      exact Option.some.inj (same.symm.trans waits)
  | met _ _ first =>
      cases answer
      refine ⟨_, by rw [pendingFor_await, first, if_pos rfl]; rfl, rfl, ?_⟩
      intro p same
      cases same.symm.trans first

/-- What waits for a key is left by every operation but the claim of the key. -/
theorem pendingFor_run {op : Op} (leaves : op.Leaves key) (waits : s.pendingFor key = some q) :
    (op.run s).pendingFor key = some q := by
  cases op with
  | enter k e =>
      show (s.enter k e).2.pendingFor key = some q
      have enters := s.enters k e
      generalize s.enter k e = outcome at enters
      cases enters with
      | new | endless | again => exact waits
      | met =>
          rw [pendingFor_await, waits]
          rfl
  | defer | popTo => exact waits
  | claim k =>
      show (s.claim k).2.pendingFor key = some q
      cases waits' : s.pendingFor k with
      | none => rwa [claim_of_not_pendingFor waits']
      | some p =>
          rw [claim_of_pendingFor waits']
          exact (pendingFor_settle_of_ne leaves).trans waits
  | reset => exact leaves.elim

theorem pendingFor_after {ops : List Op} (leave : ∀ op ∈ ops, op.Leaves key)
    (waits : s.pendingFor key = some q) : (s.after ops).pendingFor key = some q := by
  induction ops generalizing s with
  | nil => exact waits
  | cons op ops ih =>
      rw [List.forall_mem_cons] at leave
      exact ih leave.2 (pendingFor_run leave.1 waits)

/-- A key does not wait before a variable is handed out for it. -/
theorem not_pendingFor_run {op : Op} (absent : s.pendingFor key = none)
    (quiet : ∀ element, op = .enter key element → ∀ name, (s.enter key element).1 ≠ .closes name) :
    (op.run s).pendingFor key = none := by
  cases op with
  | enter k e =>
      have enters := s.enters k e
      have answer (same : k = key) (name : String) : (s.enter k e).1 ≠ .closes name := by
        subst same
        exact quiet e rfl name
      show (s.enter k e).2.pendingFor key = none
      generalize s.enter k e = outcome at enters answer
      cases enters with
      | new | endless | again => exact absent
      | met =>
          have apart : k ≠ key := fun same => answer same _ rfl
          rw [pendingFor_await, absent, if_neg apart]
          rfl
  | defer | popTo => exact absent
  | claim k =>
      show (s.claim k).2.pendingFor key = none
      cases waits : s.pendingFor k with
      | none => rwa [claim_of_not_pendingFor waits]
      | some q =>
          rw [claim_of_pendingFor waits]
          have apart : k ≠ key := by
            rintro rfl
            cases absent.symm.trans waits
          exact (pendingFor_settle_of_ne apart).trans absent
  | reset => rfl

theorem not_pendingFor_after {ops : List Op} (absent : s.pendingFor key = none)
    (quiet : NoneCloses key s ops) : (s.after ops).pendingFor key = none := by
  induction ops generalizing s with
  | nil => exact absent
  | cons op ops ih => exact ih (not_pendingFor_run absent quiet.1) quiet.2

/-! ## Every history of operations -/

/-- After any operations: what is on the stack and what waits is there once; an element is
answered by what is above it; and the variable handed out for a key is the one handed out
again and claimed, once, however the operations go on without a claim of the key. -/
theorem answers_after (ops : List Op) :
    let s := empty.after ops
    s.elements.Nodup ∧ (s.pending.map (·.key)).Nodup ∧
      (∀ key element, (s.enter key element).1 = .endless ↔ s.NeedsNow element) ∧
      (∀ key element, (∃ name, (s.enter key element).1 = .closes name) ↔ s.NeedsLater element) ∧
      ∀ key element name, (s.enter key element).1 = .closes name →
        ∀ later, (∀ op ∈ later, op.Leaves key) →
          let t := (s.enter key element).2.after later
          (∀ other again, (t.enter key other).1 = .closes again → again = name) ∧
            (t.claim key).1 = some name ∧
            ∀ more, NoneCloses key (t.claim key).2 more →
              (((t.claim key).2.after more).claim key).1 = none := by
  intro s
  have tidy : s.Tidy := tidy_empty.after ops
  refine ⟨tidy.elements, tidy.pending, fun _ _ => tidy.endless_iff, fun _ _ => tidy.closes_iff, ?_⟩
  intro key element name answer later leave t
  obtain ⟨q, waits, rfl, -⟩ := pendingFor_enter answer
  have waits' : t.pendingFor key = some q := pendingFor_after leave waits
  have tidy' : t.Tidy := (tidy.enter key element).after later
  rw [claim_of_pendingFor waits']
  refine ⟨?_, rfl, ?_⟩
  · intro other again answer'
    obtain ⟨p, -, named, kept⟩ := pendingFor_enter answer'
    rw [kept q waits', named]
  · intro more quiet
    have gone := not_pendingFor_after tidy'.pendingFor_settle quiet
    rw [claim_of_not_pendingFor gone]

/-- `B` is built for `A` and needs both later, through a third class. -/
def crossing : List Op :=
  [.enter (.of { name := "A" }) (.ctor ⟨0⟩ 0), .defer,
    .enter (.of { name := "B" }) (.ctor ⟨1⟩ 0), .defer,
    .enter (.of { name := "C" }) (.ctor ⟨2⟩ 0),
    .enter (.of { name := "B" }) (.ctor ⟨1⟩ 0)]

/-- The frames are left out of order and `B` is claimed first; `A` is claimed once. -/
theorem crossing_claimed :
    let a : Key := .of { name := "A" }
    let answer := (empty.after crossing).enter a (.ctor ⟨0⟩ 0)
    let t := answer.2.after [.popTo 1, .popTo 3, .claim (.of { name := "B" })]
    answer.1 = .closes "a" ∧ (t.claim a).1 = some "a" ∧
      (((t.claim a).2.after [.defer]).claim a).1 = none := by
  intro a answer t
  have closes : answer.1 = .closes "a" := by decide +kernel
  have claimed := (answers_after crossing).2.2.2.2 a (.ctor ⟨0⟩ 0) "a" closes
    [.popTo 1, .popTo 3, .claim (.of { name := "B" })]
    (by simp [Op.Leaves, a, Key.of, Ty.unqualified])
  refine ⟨closes, claimed.2.1, claimed.2.2 [.defer] ⟨?_, trivial⟩⟩
  intro element defers
  cases defers

end BuildStack

end Injector
