/-
# Injector.Proofs.Planner.Deferral -- variables are read after they are set

A late variable is declared around the construction that closes its cycle, and
the cycle was met below a mark on the stack, so a lambda or a lazy value lies in
between -- if that construction is the one on the stack below the mark.  Another
construction of the same key may close the cycle from above the mark, and then
the variable is read while its own value is being built.

`planned_guarded_iff`: variables are guarded exactly where no late variable reads
itself (`ReadsNow`), whoever made the plans.  If calls for types that suggest one
name call the same declaration, this is so for all that is planned: then what is
read now always belongs to a call below a mark (`BelowMark`), and the call that
closes the cycle is on top.

The rest shows a component in which a contribution closes the cycle too early.
-/
import Injector.Proofs.Planner.Planning

namespace Injector

set_option autoImplicit false

open BuildStack (above?)
open Arena (ReadsNow)

namespace Source

variable (src : Source) (catalog : Catalog)

/-- The name is suggested for a call that is on the stack with a mark above it, or
that a lambda makes. -/
def BelowMark (s : BuildStack) (name : String) : Prop :=
  ∃ c, src.Built catalog c ∧ c.key.ty.suggestedName = name ∧
    (c.inLambda = true ∨ ∃ above, above? c.element s.entries = some above ∧ .deferred ∈ above)

/-- Whatever the plan reads now stands for a call below a mark. -/
def ReadsBelowMark (a : Arena) (s : BuildStack) (id : PlanId) : Prop :=
  ∀ name, ReadsNow a name id → src.BelowMark catalog s name

variable {src catalog} {s t : BuildStack} {c : Call} {a b : Arena} {id : PlanId} {p : Plan}
  {name : String}

theorem BelowMark.of_entries (same : t.entries = s.entries) (below : src.BelowMark catalog s name) :
    src.BelowMark catalog t name := by
  obtain ⟨c, built, named, place⟩ := below
  exact ⟨c, built, named, same ▸ place⟩

/-- The call on top of the stack is not below a mark. -/
theorem BelowMark.of_push (below : src.BelowMark catalog (s.push (.building c.element)) name) :
    ∃ d, src.Built catalog d ∧ d.key.ty.suggestedName = name ∧
      (d.inLambda = true ∨ d.element ≠ c.element ∧
        ∃ above, above? d.element s.entries = some above ∧ .deferred ∈ above) := by
  obtain ⟨d, built, named, lambda | ⟨above, found, marked⟩⟩ := below
  · exact ⟨d, built, named, .inl lambda⟩
  · simp only [BuildStack.push, above?] at found
    split at found
    · obtain rfl := Option.some.inj found
      cases marked
    · rename_i other
      obtain ⟨more, inside, rfl⟩ := Option.map_eq_some_iff.mp found
      refine ⟨d, built, named, .inr ⟨fun same => other (by rw [same]), more, inside, ?_⟩⟩
      simpa using marked

theorem BelowMark.leave (below : src.BelowMark catalog (s.push (.building c.element)) name) :
    src.BelowMark catalog s name := by
  obtain ⟨d, built, named, place⟩ := below.of_push
  exact ⟨d, built, named, place.imp_right And.right⟩

/-- The name of a call that is made now is not below a mark inside it. -/
theorem not_belowMark_of_push (tells : src.NamesTellElements catalog) (built : src.Built catalog c)
    (now : c.inLambda = false) :
    ¬ src.BelowMark catalog (s.push (.building c.element)) c.key.ty.suggestedName := by
  intro below
  obtain ⟨d, built', named, place⟩ := below.of_push
  obtain ⟨same, alike⟩ := tells d c built' built named
  rcases place with lambda | ⟨other, -⟩
  · cases (alike.trans now).symm.trans lambda
  · exact other same

/-! ## What is read now -/

theorem not_readsNow_of_arg {other : String} (found : a.plan? id = some (.arg other)) :
    ¬ ReadsNow a name id := by
  intro reads
  cases reads with
  | reads there => cases found.symm.trans there
  | needs there _ _ child =>
      cases found.symm.trans there
      cases child

theorem ReadsBelowMark.mono (sound : a.Sound) (within : a.Within b) (known : id < a.size)
    (same : t.entries = s.entries) (served : src.ReadsBelowMark catalog a s id) :
    src.ReadsBelowMark catalog b t id := fun name reads =>
  (served name (reads.of_within sound within known)).of_entries same

theorem ReadsBelowMark.of_isClosed (sound : a.Sound) (closed : a.isClosed id = true) :
    src.ReadsBelowMark catalog a s id := by
  intro name reads
  simp only [Arena.isClosed, List.isEmpty_iff] at closed
  have free := reads.mem_freeNames sound
  simp [closed] at free

theorem ReadsBelowMark.localVar (built : src.Built catalog c)
    (found : a.plan? id = some (.localVar c.key.ty.suggestedName))
    (place : c.inLambda = true ∨
      ∃ above, above? c.element s.entries = some above ∧ .deferred ∈ above) :
    src.ReadsBelowMark catalog a s id := by
  intro name reads
  cases reads with
  | reads there =>
      cases found.symm.trans there
      exact ⟨c, built, rfl, place⟩
  | needs there _ _ child =>
      cases found.symm.trans there
      cases child

theorem ReadsBelowMark.node (found : a.plan? id = some p) (composite : p.reference? = none)
    (served : ∀ child ∈ p.children, src.ReadsBelowMark catalog a s child.id) :
    src.ReadsBelowMark catalog a s id := by
  intro name reads
  obtain ⟨-, -, child, mem, reads⟩ := reads.child found composite
  exact served child mem name reads

theorem ReadsBelowMark.of_isDeferred (found : a.plan? id = some p) (later : p.isDeferred = true) :
    src.ReadsBelowMark catalog a s id :=
  fun _ reads => absurd reads (Arena.not_readsNow_of_isDeferred found later)

/-! ## Late variables -/

/-- No late variable reads itself while its value is built. -/
def NoneReadsItself (a : Arena) : Prop :=
  ∀ id name result, a.plan? id = some (.lateInit name result) → ¬ ReadsNow a name result.id

theorem NoneReadsItself.add (sound : a.Sound) (none : NoneReadsItself a)
    (known : ∀ child ∈ p.children, child.id < a.size)
    (unread : ∀ name result, p = .lateInit name result → ¬ ReadsNow a name result.id) :
    NoneReadsItself (a.alloc p).2 := by
  intro id name result found reads
  have within := Arena.Within.alloc a p
  rcases Arena.plan?_alloc_cases found with old | ⟨-, rfl⟩
  · have before := sound.before old result (by simp [Plan.children])
    have lt := Nat.lt_trans before (Arena.lt_size_of_plan? old)
    exact none id name result old (reads.of_within sound within lt)
  · have lt := known result (by simp [Plan.children])
    exact unread name result rfl (reads.of_within sound within lt)

theorem NoneReadsItself.lateInit {key : Key} (sound : a.Sound) (none : NoneReadsItself a)
    (known : id < a.size) (unread : ¬ ReadsNow a name id) :
    NoneReadsItself (a.alloc (.lateInit name ⟨key, id⟩)).2 := by
  refine none.add sound (fun child mem => ?_) fun other result same => ?_
  · obtain rfl := List.mem_singleton.mp mem
    exact known
  · cases same
    exact unread

/-- An accessor that closes a cycle does not read its own variable. -/
theorem not_readsNow_of_accessor {m : MemberId} {q : PendingCycle} {waiting : List PendingCycle}
    (tells : src.NamesTellElements catalog) (constructed : src.Constructed catalog q.key)
    (named : q.name = q.key.ty.suggestedName) (shaped : src.Shaped catalog a q.key id)
    (found : a.plan? id = some p) (active : p.isPassive = false)
    (served : src.ReadsBelowMark catalog a ⟨[.building (.member m)], waiting⟩ id) :
    ¬ ReadsNow a q.name id := by
  intro reads
  obtain ⟨c, built, suggested, lambda | ⟨above, place, marked⟩⟩ := served q.name reads
  · obtain ⟨d, built', same⟩ := constructed
    obtain ⟨-, alike⟩ := tells c d built built' (suggested.trans (named.trans (same ▸ rfl)))
    obtain ⟨unbound, function⟩ := built'.unbound (alike ▸ lambda)
    rw [same] at unbound function
    rcases shaped unbound function p found with later | refers
    · cases active.symm.trans (Regime.isPassive_of_isDeferred later)
    · obtain ⟨other, refers⟩ := Option.isSome_iff_exists.mp refers
      rcases Plan.reference?_eq_some.mp refers with rfl | rfl
      · cases active
      · exact not_readsNow_of_arg found reads
  · simp only [above?] at place
    split at place
    · obtain rfl := Option.some.inj place
      cases marked
    · cases place

/-- Where names tell declarations apart, what is read now is below a mark. -/
def deferral (tells : src.NamesTellElements catalog) : Regime src catalog where
  inv := NoneReadsItself
  le _ _ := True
  served _ := src.ReadsBelowMark catalog
  done _ _ := True
  le_refl _ := trivial
  le_trans _ _ _ := trivial
  le_of_push _ := trivial
  le_await _ _ _ := trivial
  le_settle _ _ _ _ := trivial
  inv_empty := by
    intro id name result found
    simp [Arena.plan?] at found
  inv_add sound none plain known := none.add sound known fun name result same => by
    subst same
    cases plain
  served_mono sound within known same _ served := served.mono sound within known same
  served_closed sound closed := .of_isClosed sound closed
  served_arg _ found _ := fun _ reads => absurd reads (not_readsNow_of_arg found)
  served_variable _ built found _ place := .localVar built found place
  served_now _ found composite _ _ served := .node found composite served
  served_later _ found later _ := .of_isDeferred found later
  served_lambda _ _ _ found later _ := .of_isDeferred found later
  served_leave _ _ _ _ served := fun name reads => (served name reads).leave
  served_claim := by
    rintro L a b s id c sound - none known built now - - served rfl
    have unread : ¬ ReadsNow a c.key.ty.suggestedName id := fun reads =>
      not_belowMark_of_push tells built now (served _ reads)
    refine ⟨none.lateInit sound known unread, ?_⟩
    have found := Arena.plan?_alloc_self a (.lateInit c.key.ty.suggestedName ⟨c.key, id⟩)
    refine .node found rfl fun child mem => ?_
    obtain rfl := List.mem_singleton.mp mem
    have outside : src.ReadsBelowMark catalog a s id := fun name reads => (served name reads).leave
    exact outside.mono sound (.alloc a _) known rfl
  done_mono _ _ _ _ := trivial
  done_leave _ _ := trivial
  done_claim := by
    rintro a b id m p q waiting sound - none known - constructed named shaped found active
      served rfl
    have unread := not_readsNow_of_accessor tells constructed named shaped found active served
    exact ⟨none.lateInit sound known unread, fun _ => trivial⟩

end Source

open Source Arena

/-! ## What succeeds -/

/-- Variables are guarded in just those plans in which none reads itself now.  That is so
in every arena (`guarded_iff`) and only restated for the accessors.  What planning does is
in the second part: variables are guarded in all that it makes if calls for types that
suggest one name call the same declaration. -/
theorem planned_guarded_iff (src : Source) (className : String) (catalog : Catalog) (log : Log) :
    (∀ e ∈ (src.planned className catalog log).entries,
      Guarded (src.planned className catalog log).arena e.result ↔
        ∀ above t name result, Path (src.planned className catalog log).arena e.result above t →
          (src.planned className catalog log).arena.plan? t.id = some (.lateInit name result) →
            ¬ ReadsNow (src.planned className catalog log).arena name result.id) ∧
      (src.NamesTellElements catalog → ∀ e ∈ (src.planned className catalog log).entries,
        Guarded (src.planned className catalog log).arena e.result) := by
  constructor
  · intro e _
    exact guarded_iff
  · intro tells e mem
    obtain ⟨-, none, -⟩ := planned_keeps (deferral tells) className log
    rw [guarded_iff]
    intro above t name result _ found
    exact none t.id name result found

theorem deferredPair_guarded :
    ∃ e ∈ (deferredPair.plannedAlone (.ofNat 2)).entries,
      Guarded (deferredPair.plannedAlone (.ofNat 2)).arena e.result := by
  have tells := deferredPair_covers.namesTellElements (by decide +kernel)
  obtain ⟨e, mem⟩ := deferredPair_planned
  exact ⟨e, mem, (planned_guarded_iff deferredPair _ _ _).2 tells e mem⟩

/-- `Foo` needs the set of all `Foo` later; the one contributed is made from a `Bar`,
which needs a `Foo`. -/
def wrappedSet : Source where
  program :=
    { classes := [
        .injectable "Foo" [("all", .function [] (.setOf { name := "Foo" }))],
        .abstractComponent [.ofNat 0, .ofNat 1],
        .injectable "Bar" [("foo", { name := "Foo" })]]
      members := [.accessor (.ofNat 1) "foo" { name := "Foo" },
        .contribution (.ofNat 1) "wrap" [("foo", { name := "Bar" })] { name := "Foo" }] }
  options := {}

/-- The contribution is put into the variable that its own value is made from. -/
theorem wrappedSet_guarded_refuted :
    ∃ e ∈ (wrappedSet.plannedAlone (.ofNat 1)).entries,
      ¬ Guarded (wrappedSet.plannedAlone (.ofNat 1)).arena e.result := by
  have exposed : ∃ e ∈ (wrappedSet.plannedAlone (.ofNat 1)).entries,
      (wrappedSet.plannedAlone (.ofNat 1)).arena.readsItselfAt e.result
        [0, 0, 0] [0, 0] = true := by
    decide +kernel
  obtain ⟨e, mem, reads⟩ := exposed
  exact ⟨e, mem, not_guarded_of_readsItselfAt reads⟩

end Injector
