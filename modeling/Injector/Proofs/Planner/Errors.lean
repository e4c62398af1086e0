/-
# Injector.Proofs.Planner.Errors -- what planning fails with

Planning asks for nothing but what `Reached` says, with the stack as it says, and with
depth enough for what the request still needs (`Due`).  So it never fails for want of
depth, and when it fails because the construction of an element needs itself, a call
of the element is met with the element on the stack and nothing deferred above it
(`Explained`).
-/
import Injector.Proofs.Planner.Tallying
import Injector.Proofs.Planner.Depth
import Injector.Proofs.Planner.Planning

namespace Injector

set_option autoImplicit false

open BuildStack (above?)

namespace Source

variable (src : Source) (catalog : Catalog) (m : MemberId)

/-- What an error says about the chain of requests that led to it. -/
def Explained : PlanError → Prop
  | .endless e _ => ∃ s u key c above, src.Reached catalog m s u key ∧
      c ∈ src.calls catalog key ∧ c.inLambda = false ∧ c.element = e ∧
      above? e s = some above ∧ .deferred ∉ above
  | .tooDeep => False
  | _ => True

/-- The key may be asked for with these entries on the stack, and needs less than the
depth. -/
def Due (depth : Nat) (s : List BuildEntry) (u : Option Key) (key : Key) : Prop :=
  src.Reached catalog m s u key ∧ src.need s u key < depth

variable {src catalog m} {depth : Nat} {site : Site} {key : Key} {st : PlannerState}
  {s : List BuildEntry} {u : Option Key} {c : Call}

/-! ## Steps -/

theorem Due.unwrap (due : src.Due catalog m (depth + 1) s u key) (wrapped : u ≠ some key)
    (built : src.calls catalog key ≠ []) : src.Due catalog m depth s (some key) key := by
  refine ⟨due.1.unwrap wrapped built, ?_⟩
  have less : src.need s (some key) key < src.need s u key := need_unwrap wrapped
  have := due.2
  omega

theorem Due.asked (due : src.Due catalog m (depth + 1) s u key) (mem : c ∈ src.calls catalog key)
    (now : c.inLambda = false) (new : above? c.element s = none) :
    ∀ asked ∈ src.asks c, src.Due catalog m depth (.building c.element :: s) u asked := by
  intro asked asks
  refine ⟨due.1.asked mem now new asks, ?_⟩
  have less := need_asked (u := u) mem asks new
  have := due.2
  omega

theorem Due.lambda (due : src.Due catalog m (depth + 1) s u key) (mem : c ∈ src.calls catalog key)
    (later : c.inLambda = true) (new : above? c.element s = none) :
    ∀ asked ∈ src.asks c,
      src.Due catalog m depth (.building c.element :: .deferred :: s) u asked := by
  intro asked asks
  refine ⟨due.1.lambda mem later new asks, ?_⟩
  have new' : above? c.element (.deferred :: s) = none := by
    rw [above?, if_neg (by simp), new, Option.map_none]
  have less := need_asked (u := u) mem asks new'
  rw [need_defer s u key] at less
  have := due.2
  omega

theorem Due.inner (due : src.Due catalog m (depth + 1) s u key)
    (unbound : src.Unbound catalog key) {inner : Key} (found : src.innerKey? key = some inner) :
    src.Due catalog m depth (.deferred :: s) u inner := by
  refine ⟨due.1.inner unbound found, ?_⟩
  have less : src.need (.deferred :: s) u inner < src.need s u key := need_inner found
  have := due.2
  omega

/-- Requests that are due go deeper by one step at a time. -/
theorem descends_due (depth : Nat) :
    src.Descends catalog (src.Explained catalog m) (src.Due catalog m (depth + 1))
      (src.Due catalog m depth) where
  raises _ raised := by cases raised <;> trivial
  missing _ _ := trivial
  unwrap due wrapped built := due.unwrap wrapped built
  asked due mem now new := due.asked mem now new
  lambda due mem later new := due.lambda mem later new
  inner due unbound found := due.inner unbound found
  endless due mem now met none := ⟨_, _, _, _, _, due.1, mem, now, rfl, met, none⟩
  unclosed _ _ _ _ := trivial

/-- Requests that are due fail with an explanation only. -/
theorem agree_due (depth : Nat) :
    Agree catalog (src.Explained catalog m) (src.Due catalog m depth) (src.requestTo depth)
      (src.requestTo depth) := by
  induction depth with
  | zero => exact fun _ _ _ _ due => absurd due.2 (Nat.not_lt_zero _)
  | succ depth ih => exact agree_requestWith (descends_due depth) ih

/-- An accessor fails with an explanation only. -/
theorem explained_implement (own : site.catalog = catalog) (outside : site.unwrapping = none)
    {e : PlanError} (failed : ((src.implement site m).runFrom st).1 = .error e) :
    src.Explained catalog m e := by
  subst own
  have first : src.Reached site.catalog m [.building (.member m)] site.unwrapping
      (src.accessorKey site.catalog m) := by
    rw [outside]
    exact .accessor
  have agree : Agree site.catalog (src.Explained site.catalog m) (src.Reached site.catalog m)
      src.request src.request := fun site' key st own here =>
    agree_due (src.requestDepth key) site' key st own ⟨here, need_lt_requestDepth _ _ _⟩
  exact fail_of_implement agree (fun _ _ => trivial) first failed

end Source

end Injector
