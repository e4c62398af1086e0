/-
# Injector.Proofs.Planner.Recurrence -- calls that meet themselves

A key recurs when planning one of some accessors can come to a call for it while the
element of the call is under construction.  A key is calm when none of the calls that
follow from it is for a key that recurs.  Such a key takes nothing from the stack: no
element of its calls is found there (`Calm.notMem`), and nothing on it waits for their
keys.  Nor is it just being built for its scope where it is asked for by a call or from
inside a lambda (`Calm.asked_fresh`, `Calm.inner_fresh`), as it would be asked for within
itself then.
-/
import Injector.Proofs.Planner.Chains
import Injector.Proofs.Planner.Run

namespace Injector

set_option autoImplicit false

open BuildStack (above?)
open Relation (ReflTransGen)

namespace Source

variable (src : Source) (catalog : Catalog) (ms : List MemberId)

/-- One of the accessors can come to the key. -/
def Comes (key : Key) : Prop :=
  ∃ m ∈ ms, ReflTransGen (src.Next catalog) (src.accessorKey catalog m) key

/-- Planning one of the accessors can come to a call for the key within the element of the
call. -/
def Recurs (key : Key) : Prop :=
  ∃ m ∈ ms, ∃ s u asked c, src.Reached catalog m s u asked ∧
    c ∈ src.calls catalog asked ∧ .building c.element ∈ s ∧ c.key = key

/-- None of the calls that follow from the key is for a key that recurs. -/
def Calm (key : Key) : Prop :=
  ∀ later c, ReflTransGen (src.Next catalog) key later → c ∈ src.calls catalog later →
    ¬src.Recurs catalog ms c.key

variable {src catalog ms} {ns : List MemberId} {m : MemberId} {s : List BuildEntry}
  {u : Option Key} {key next : Key}
  {c : Call}

theorem Calm.of_chain (calm : src.Calm catalog ms key)
    (chain : ReflTransGen (src.Next catalog) key next) : src.Calm catalog ms next :=
  fun later c more mem => calm later c (chain.trans more) mem

theorem Calm.asked (calm : src.Calm catalog ms key) (mem : c ∈ src.calls catalog key)
    (asks : next ∈ src.asks c) : src.Calm catalog ms next :=
  calm.of_chain (.single (.inl ⟨c, mem, asks⟩))

theorem Calm.inner (calm : src.Calm catalog ms key) (unbound : src.Unbound catalog key)
    (found : src.innerKey? key = some next) : src.Calm catalog ms next :=
  calm.of_chain (.single (.inr ⟨unbound, found⟩))

/-- The element of a call for a calm key is not under construction. -/
theorem Calm.notMem (calm : src.Calm catalog ms key) (accessor : m ∈ ms)
    (reached : src.Reached catalog m s u key) (mem : c ∈ src.calls catalog key) :
    .building c.element ∉ s :=
  fun met => calm key c .refl mem ⟨m, accessor, s, u, key, c, reached, mem, met, rfl⟩

theorem Recurs.of_subset (recurs : src.Recurs catalog ms key) (among : ms ⊆ ns) :
    src.Recurs catalog ns key :=
  let ⟨m, accessor, here⟩ := recurs
  ⟨m, among accessor, here⟩

theorem Calm.of_subset (calm : src.Calm catalog ns key) (among : ms ⊆ ns) :
    src.Calm catalog ms key :=
  fun later c chain mem recurs => calm later c chain mem (recurs.of_subset among)

/-- Where a lambda or a lazy value asks for what is inside, no call is made. -/
theorem calls_of_innerKey? (unbound : src.Unbound catalog key)
    (found : src.innerKey? key = some next) : src.calls catalog key = [] := by
  rw [calls_of_unbound unbound, unboundCalls]
  simp only [innerKey?] at found
  split at found
  · rename_i function
    split at found
    · cases found
    · simp [function]
  · rename_i plain
    split at found
    · rename_i strict
      simp [plain, strict]
    · cases found

/-- A key asked for within an element follows from a call of the element, or from the accessor
if that is the element. -/
theorem Reached.within {e : Element} (reached : src.Reached catalog m s u key)
    (met : .building e ∈ s) : e = .member m ∨
      ∃ c, src.Needs catalog m c ∧ c.element = e ∧
        ∃ first ∈ src.asks c, ReflTransGen (src.Next catalog) first key := by
  induction reached with
  | accessor =>
      cases List.mem_singleton.mp met
      exact .inl rfl
  | unwrap _ _ _ ih => exact ih met
  | @asked s u key asked c reached mem _ _ asks ih
  | @lambda s u key asked c reached mem _ _ asks ih =>
      have step : src.Next catalog key asked := .inl ⟨c, mem, asks⟩
      by_cases same : c.element = e
      · exact .inr ⟨c, ⟨key, reached.chain, mem⟩, same, asked, asks, .refl⟩
      · have outer : .building e ∈ s := by
          simpa [Ne.symm same] using met
        refine (ih outer).imp_right ?_
        rintro ⟨d, needs, same, first, asks, chain⟩
        exact ⟨d, needs, same, first, asks, chain.tail step⟩
  | inner _ unbound found ih =>
      have outer := (List.mem_cons.mp met).resolve_left (by simp)
      refine (ih outer).imp_right ?_
      rintro ⟨d, needs, same, first, asks, chain⟩
      exact ⟨d, needs, same, first, asks, chain.tail (.inr ⟨unbound, found⟩)⟩

/-- What recurs follows from a call of the element that builds it, or its element is an
accessor. -/
theorem Recurs.leadsBack (recurs : src.Recurs catalog ms key) : ∃ m ∈ ms, ∃ d,
    src.Needs catalog m d ∧ d.key = key ∧ (d.element = .member m ∨
      ∃ c, src.Needs catalog m c ∧ c.element = d.element ∧ ∃ first ∈ src.asks c, ∃ asked,
        ReflTransGen (src.Next catalog) first asked ∧ d ∈ src.calls catalog asked) := by
  obtain ⟨m, accessor, s, u, asked, d, reached, mem, met, rfl⟩ := recurs
  refine ⟨m, accessor, d, ⟨asked, reached.chain, mem⟩, rfl, (reached.within met).imp_right ?_⟩
  rintro ⟨c, needs, same, first, asks, chain⟩
  exact ⟨c, needs, same, first, asks, asked, chain, mem⟩

/-- A key that is just being built for its scope is asked for right there, or a call for it
is under construction. -/
theorem Reached.unwrapping {k : Key} (reached : src.Reached catalog m s u key) (bare : u = some k) :
    src.calls catalog k ≠ [] ∧
      (key = k ∨ ∃ c ∈ src.calls catalog k, .building c.element ∈ s) := by
  induction reached with
  | accessor => cases bare
  | unwrap _ _ built _ =>
      cases bare
      exact ⟨built, .inl rfl⟩
  | asked _ mem _ _ _ ih | lambda _ mem _ _ _ ih =>
      obtain ⟨built, here⟩ := ih bare
      refine ⟨built, .inr ?_⟩
      rcases here with rfl | ⟨c, mem, met⟩
      · exact ⟨_, mem, List.mem_cons_self⟩
      · exact ⟨c, mem, by simp [met]⟩
  | inner _ unbound found ih =>
      obtain ⟨built, here⟩ := ih bare
      refine ⟨built, .inr ?_⟩
      rcases here with rfl | ⟨c, mem, met⟩
      · exact absurd (calls_of_innerKey? unbound found) built
      · exact ⟨c, mem, List.mem_cons_of_mem _ met⟩

theorem Calm.asked_fresh (calm : src.Calm catalog ms next) (accessor : m ∈ ms)
    (reached : src.Reached catalog m s u key) (mem : c ∈ src.calls catalog key)
    (new : BuildStack.above? c.element s = none) (asks : next ∈ src.asks c) : u ≠ some next := by
  intro bare
  have met : ∃ d ∈ src.calls catalog next, .building d.element ∈ .building c.element :: s := by
    rcases (reached.unwrapping bare).2 with rfl | ⟨d, mem', met⟩
    · exact ⟨c, mem, List.mem_cons_self⟩
    · exact ⟨d, mem', List.mem_cons_of_mem _ met⟩
  obtain ⟨d, mem', met⟩ := met
  by_cases lambda : c.inLambda = true
  · exact calm.notMem accessor (reached.lambda mem lambda new asks) mem' (by simp_all)
  · rw [Bool.not_eq_true] at lambda
    exact calm.notMem accessor (reached.asked mem lambda new asks) mem' met

theorem Calm.inner_fresh (calm : src.Calm catalog ms next) (accessor : m ∈ ms)
    (reached : src.Reached catalog m s u key) (unbound : src.Unbound catalog key)
    (found : src.innerKey? key = some next) : u ≠ some next := by
  intro bare
  obtain ⟨built, rfl | ⟨d, mem, met⟩⟩ := reached.unwrapping bare
  · exact built (calls_of_innerKey? unbound found)
  · exact calm.notMem accessor (reached.inner unbound found) mem (List.mem_cons_of_mem _ met)

theorem Recurs.constructed (recurs : src.Recurs catalog ms key)
    (own : ms ⊆ catalog.own.accessors) : src.Constructed catalog key := by
  obtain ⟨m, accessor, d, needs, rfl, -⟩ := recurs.leadsBack
  exact (needs.built (own accessor)).constructed

/-! ## Few keys -/

variable (src catalog) in
/-- What follows from the keys is among them. -/
def Closed (keys : List Key) : Prop :=
  ∀ key ∈ keys, (∀ c ∈ src.calls catalog key, ∀ asked ∈ src.asks c, asked ∈ keys) ∧
    (src.Unbound catalog key → ∀ inner ∈ (src.innerKey? key).toList, inner ∈ keys)

instance (keys : List Key) : Decidable (src.Closed catalog keys) :=
  inferInstanceAs (Decidable (∀ _ ∈ _, _))

theorem Closed.mem {keys : List Key} {next : Key} (closed : src.Closed catalog keys)
    (start : key ∈ keys) (chain : ReflTransGen (src.Next catalog) key next) : next ∈ keys := by
  induction chain with
  | refl => exact start
  | tail _ step ih =>
      rcases step with ⟨c, mem, asks⟩ | ⟨unbound, found⟩
      · exact (closed _ ih).1 c mem _ asks
      · exact (closed _ ih).2 unbound _ (Option.mem_toList.mpr found)

end Source

end Injector
