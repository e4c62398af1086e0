/-
# Injector.Proofs.Planner.Chains -- chains of requests

A request for a key leads to further requests: the call that serves it asks for its
receiver and its parameters, and inside a lambda or a lazy value something else is
asked for, though only later.  `Next` is one such step and `Now` one at once.  A key
is bottomless when a chain of requests from it goes on forever, from some point on at
once: then no value of the key can ever be built.

`Reached` says with what on the stack a key is asked for while an accessor is planned.
When its stack has an element with nothing deferred above it, the chain has come from
a call of that element at once (`Reached.building`).  If every call of the element
leads back to it, the chain can be continued forever (`bottomless_of_leadsBack`).
-/
import Injector.Proofs.Planner.Constructions
import Mathlib.Logic.Relation
import Mathlib.Tactic.Choose

namespace Injector

set_option autoImplicit false

open BuildStack (above?)
open Relation (ReflTransGen)

/-! ## Endless chains -/

/-- Where each step that keeps something can be followed by another one, there is an
endless chain. -/
theorem exists_chain {α : Type} {r : α → α → Prop} {keeps : α → Prop}
    (serial : ∀ a, keeps a → ∃ b, r a b ∧ keeps b) {a : α} (start : keeps a) :
    ∃ f : Nat → α, f 0 = a ∧ ∀ n, r (f n) (f (n + 1)) := by
  choose next step kept using serial
  let walk : Nat → { a // keeps a } :=
    Nat.rec ⟨a, start⟩ fun _ here => ⟨next here.1 here.2, kept here.1 here.2⟩
  exact ⟨fun n => (walk n).1, rfl, fun n => step (walk n).1 (walk n).2⟩

namespace Source

variable (src : Source) (catalog : Catalog)

/-- Building a value of `key` takes one of `next` at once. -/
def Now (key next : Key) : Prop :=
  ∃ c ∈ src.calls catalog key, c.inLambda = false ∧ next ∈ src.asks c

/-- Building a value of `key` takes one of `next`, at once or later. -/
def Next (key next : Key) : Prop :=
  (∃ c ∈ src.calls catalog key, next ∈ src.asks c) ∨
    src.Unbound catalog key ∧ src.innerKey? key = some next

/-- Some chain of requests from `key` is infinite, and from some point on each request
takes the next one at once. -/
def Bottomless (key : Key) : Prop :=
  ∃ f : Nat → Key, f 0 = key ∧ (∀ n, src.Next catalog (f n) (f (n + 1))) ∧
    ∃ late, ∀ n, late ≤ n → src.Now catalog (f n) (f (n + 1))

/-- One of the arguments of the call takes, at once, another call of its element. -/
def LeadsBack (c : Call) : Prop :=
  ∃ asked ∈ src.asks c, ∃ key, ReflTransGen (src.Now catalog) asked key ∧
    ∃ d ∈ src.calls catalog key, d.inLambda = false ∧ d.element = c.element

/-- The accessor `m` may come to make the call. -/
def Needs (m : MemberId) (c : Call) : Prop :=
  ∃ key, ReflTransGen (src.Next catalog) (src.accessorKey catalog m) key ∧
    c ∈ src.calls catalog key

/-- While the accessor `m` is planned, the key is asked for with these entries on the
stack, at a site that builds the given key for its scope. -/
inductive Reached (m : MemberId) : List BuildEntry → Option Key → Key → Prop where
  | accessor : Reached m [.building (.member m)] none (src.accessorKey catalog m)
  | unwrap {s : List BuildEntry} {u : Option Key} {key : Key} : Reached m s u key →
      u ≠ some key → src.calls catalog key ≠ [] → Reached m s (some key) key
  | asked {s : List BuildEntry} {u : Option Key} {key asked : Key} {c : Call} :
      Reached m s u key → c ∈ src.calls catalog key → c.inLambda = false →
      above? c.element s = none → asked ∈ src.asks c →
      Reached m (.building c.element :: s) u asked
  | lambda {s : List BuildEntry} {u : Option Key} {key asked : Key} {c : Call} :
      Reached m s u key → c ∈ src.calls catalog key → c.inLambda = true →
      above? c.element s = none → asked ∈ src.asks c →
      Reached m (.building c.element :: .deferred :: s) u asked
  | inner {s : List BuildEntry} {u : Option Key} {key inner : Key} : Reached m s u key →
      src.Unbound catalog key → src.innerKey? key = some inner →
      Reached m (.deferred :: s) u inner

variable {src catalog} {m : MemberId} {s : List BuildEntry} {u : Option Key} {key next : Key}
  {e : Element}

theorem Now.toNext (now : src.Now catalog key next) : src.Next catalog key next := by
  obtain ⟨c, mem, -, asked⟩ := now
  exact .inl ⟨c, mem, asked⟩

/-- What is asked for is at the end of a chain from the accessor. -/
theorem Reached.chain (reached : src.Reached catalog m s u key) :
    ReflTransGen (src.Next catalog) (src.accessorKey catalog m) key := by
  induction reached with
  | accessor => exact .refl
  | unwrap _ _ _ ih => exact ih
  | asked _ mem _ _ asked ih => exact ih.tail (.inl ⟨_, mem, asked⟩)
  | lambda _ mem _ _ asked ih => exact ih.tail (.inl ⟨_, mem, asked⟩)
  | inner _ unbound found ih => exact ih.tail (.inr ⟨unbound, found⟩)

theorem Requested.step (requested : src.Requested catalog key)
    (step : src.Next catalog key next) : src.Requested catalog next := by
  rcases step with ⟨c, mem, asked⟩ | ⟨unbound, found⟩
  · exact .asked requested mem asked
  · exact .inner requested unbound found

/-- What a chain from a requested key comes to can be requested. -/
theorem Requested.chain (requested : src.Requested catalog key)
    (chain : ReflTransGen (src.Next catalog) key next) : src.Requested catalog next := by
  induction chain with
  | refl => exact requested
  | tail _ step ih => exact ih.step step

/-- What a chain from an accessor comes to can be requested. -/
theorem requested_of_chain (accessor : m ∈ catalog.own.accessors)
    (chain : ReflTransGen (src.Next catalog) (src.accessorKey catalog m) key) :
    src.Requested catalog key :=
  (Requested.accessor accessor).chain chain

theorem Needs.built {c : Call} (accessor : m ∈ catalog.own.accessors)
    (needs : src.Needs catalog m c) : src.Built catalog c := by
  obtain ⟨key, chain, mem⟩ := needs
  exact ⟨key, requested_of_chain accessor chain, mem⟩

/-- A key asked for within an element, with nothing deferred in between, is taken at
once by a call of the element, or by the accessor if that is the element. -/
theorem Reached.building (reached : src.Reached catalog m s u key) {above : List BuildEntry}
    (within : above? e s = some above) (now : .deferred ∉ above) :
    (e = .member m ∧ ReflTransGen (src.Now catalog) (src.accessorKey catalog m) key) ∨
      ∃ c, src.Needs catalog m c ∧ c.element = e ∧
        ∃ asked ∈ src.asks c, ReflTransGen (src.Now catalog) asked key := by
  induction reached generalizing above with
  | accessor =>
      left
      simp only [above?] at within
      split at within
      · rename_i same
        cases same
        exact ⟨rfl, .refl⟩
      · cases within
  | unwrap _ _ _ ih => exact ih within now
  | @asked s u key asked c reached mem notLambda new asks ih =>
      simp only [above?] at within
      split at within
      · rename_i same
        cases same
        exact .inr ⟨c, ⟨key, reached.chain, mem⟩, rfl, asked, asks, .refl⟩
      · obtain ⟨rest, found, rfl⟩ := Option.map_eq_some_iff.mp within
        have step : src.Now catalog key asked := ⟨c, mem, notLambda, asks⟩
        refine (ih found fun mem => now (List.mem_cons_of_mem _ mem)).imp ?_ ?_
        · rintro ⟨same, chain⟩
          exact ⟨same, chain.tail step⟩
        · rintro ⟨d, needs, same, first, asks', chain⟩
          exact ⟨d, needs, same, first, asks', chain.tail step⟩
  | @lambda s u key asked c reached mem inLambda new asks ih =>
      simp only [above?] at within
      split at within
      · rename_i same
        cases same
        exact .inr ⟨c, ⟨key, reached.chain, mem⟩, rfl, asked, asks, .refl⟩
      · obtain ⟨rest, found, rfl⟩ := Option.map_eq_some_iff.mp within
        rw [if_neg (by simp)] at found
        obtain ⟨rest, found, rfl⟩ := Option.map_eq_some_iff.mp found
        exact absurd (by simp) now
  | inner reached unbound found ih =>
      rw [above?, if_neg (by simp)] at within
      obtain ⟨rest, found, rfl⟩ := Option.map_eq_some_iff.mp within
      exact absurd (by simp) now

/-- What comes before a bottomless key is bottomless. -/
theorem Bottomless.of_chain (bottomless : src.Bottomless catalog next)
    (chain : ReflTransGen (src.Next catalog) key next) : src.Bottomless catalog key := by
  induction chain using ReflTransGen.head_induction_on with
  | refl => exact bottomless
  | @head key mid step _ ih =>
      obtain ⟨f, start, steps, late, now⟩ := ih
      refine ⟨fun n => Nat.casesOn n key f, rfl, ?_, late + 1, ?_⟩
      · intro n
        cases n with
        | zero =>
            show src.Next catalog key (f 0)
            rw [start]
            exact step
        | succ n => exact steps n
      · intro n after
        cases n with
        | zero => omega
        | succ n => exact now n (by omega)

/-- If one call of an element leads back to it, and each further call does, then the
chain goes on forever. -/
theorem bottomless_of_leadsBack {c : Call} (needs : src.Needs catalog m c)
    (back : src.LeadsBack catalog c)
    (uniform : ∀ d, src.Needs catalog m d → d.element = c.element → src.LeadsBack catalog d) :
    src.Bottomless catalog (src.accessorKey catalog m) := by
  -- What is kept along the chain: it has come from the accessor, and a call of the
  -- element is yet to come.
  let kept (key : Key) : Prop :=
    ReflTransGen (src.Next catalog) (src.accessorKey catalog m) key ∧
      ∃ other, ReflTransGen (src.Now catalog) key other ∧
        ∃ d ∈ src.calls catalog other, d.inLambda = false ∧ d.element = c.element
  have serial : ∀ key, kept key → ∃ next, src.Now catalog key next ∧ kept next := by
    rintro key ⟨come, other, ahead, d, mem, notLambda, same⟩
    rcases ahead.cases_head with rfl | ⟨next, step, ahead⟩
    · obtain ⟨asked, asks, other, ahead, d', mem', notLambda', same'⟩ :=
        uniform d ⟨key, come, mem⟩ same
      have step : src.Now catalog key asked := ⟨d, mem, notLambda, asks⟩
      exact ⟨asked, step, come.tail step.toNext, other, ahead, d', mem', notLambda',
        same'.trans same⟩
    · exact ⟨next, step, come.tail step.toNext, other, ahead, d, mem, notLambda, same⟩
  obtain ⟨key, come, mem⟩ := needs
  obtain ⟨asked, asks, ahead⟩ := back
  have first : src.Next catalog key asked := .inl ⟨c, mem, asks⟩
  obtain ⟨f, start, steps⟩ := exists_chain serial (a := asked) ⟨come.tail first, ahead⟩
  have bottomless : src.Bottomless catalog asked :=
    ⟨f, start, fun n => (steps n).toNext, 0, fun n _ => steps n⟩
  exact bottomless.of_chain (come.tail first)

/-- Calls that ask for the same keys lead back together. -/
theorem LeadsBack.of_asks {c d : Call} (back : src.LeadsBack catalog c)
    (asks : src.asks d = src.asks c) (same : d.element = c.element) :
    src.LeadsBack catalog d := by
  rw [LeadsBack, asks, same]
  exact back

end Source

end Injector
