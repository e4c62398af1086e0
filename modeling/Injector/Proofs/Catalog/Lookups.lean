/-
# Injector.Proofs.Catalog.Lookups -- what a component asks of its hierarchy

What a component declares is listed with the help of supertypes: of the component itself, for
the types of the members that it inherits, and of a class in its hierarchy, for members of that
class that may override one further up.  There need be no end of these types, and then nothing
is listed at all.  `Listable` follows the scan and the filing of the members and says that each list
of supertypes that is asked for on the way has an end.

In a hierarchy of which that is so everywhere, such as one without cycles, it is so for every
component (`listable_of_ends`).
-/
import Injector.Proofs.Program.Closure

namespace Injector

set_option autoImplicit false

namespace Program

variable (p : Program)

/-- A member of `owner` can be seen from `enclosing`.  From another class it is seen by way of a
supertype of that class. -/
def Views (enclosing owner : ClassId) : Prop :=
  enclosing ≠ owner → p.Ends (p.classAt enclosing).ty

/-- The return type of the member can be told as seen from `enclosing`. -/
def ViewsType (m : MemberId) (enclosing : ClassId) : Prop :=
  ∀ owner, (p.memberAt m).owner = some owner → p.Views enclosing owner

/-- It can be told whether `m` overrides `other`.  Only parameters of members that may do so for
their names, kinds and classes are compared. -/
def Compares (m other : MemberId) : Prop :=
  ∀ a b, (p.memberAt m).owner = some a → (p.memberAt other).owner = some b →
    (p.memberAt m).name = (p.memberAt other).name →
    (p.memberAt m).kind = (p.memberAt other).kind → b ∈ p.chain a → p.Views a b

end Program

/-- Each step of a fold `can` be done. -/
def Folds {σ α : Type} (can : σ → α → Prop) (step : σ → α → σ) : σ → List α → Prop
  | _, [] => True
  | s, a :: rest => can s a ∧ Folds can step (step s a) rest

namespace Source

variable (src : Source)

/-- The first of the members that overrides `id` can be found. -/
def Searches (id : MemberId) : List MemberId → Prop
  | [] => True
  | other :: rest => src.program.Compares other id ∧
      (src.program.overrides other id = false → Searches id rest)

/-- The members of the class `id` can be picked, those of the classes before being picked. -/
def Picks (isComponent : Bool) (s : Scan) (id : ClassId) : Prop :=
  Folds (fun s m => src.Searches m s.seen) (src.scanMember isComponent) (src.scanScope s id)
    (src.program.classAt id).members

/-- What the component declares can be listed: the members of the hierarchy can be picked, and
those that are picked can be filed under their types. -/
structure Listable (id : ClassId) : Prop where
  picks :
    let isComponent := AnnotationUse.markComponent (src.program.classAt id).annotations
    Folds (src.Picks isComponent) (src.scanClass isComponent) {} (src.program.chain id)
  provides : ∀ m ∈ (src.scan id).provides, src.program.ViewsType m id
  accessors : ∀ m ∈ (src.scan id).accessors, src.program.ViewsType m id

variable {src}

theorem folds_of_forall {σ α : Type} {can : σ → α → Prop} {step : σ → α → σ}
    (each : ∀ s a, can s a) (s : σ) (as : List α) : Folds can step s as := by
  induction as generalizing s with
  | nil => trivial
  | cons a rest ih => exact ⟨each s a, ih _⟩

theorem searches_of_forall {id : MemberId} (each : ∀ other, src.program.Compares other id)
    (others : List MemberId) : src.Searches id others := by
  induction others with
  | nil => trivial
  | cons other rest ih => exact ⟨each other, fun _ => ih⟩

/-- There is an end of what is above the classes of the program. -/
theorem listable_of_ends (ends : ∀ c, src.program.Ends (src.program.classAt c).ty) (id : ClassId) :
    src.Listable id := by
  have views (enclosing owner : ClassId) : src.program.Views enclosing owner :=
    fun _ => ends enclosing
  have compares (m other : MemberId) : src.program.Compares m other :=
    fun a b _ _ _ _ _ => views a b
  have picks (isComponent : Bool) (s : Scan) (c : ClassId) : src.Picks isComponent s c :=
    folds_of_forall (fun (s : Scan) m => searches_of_forall (compares · m) s.seen) _ _
  exact {
    picks := folds_of_forall (picks _) _ _
    provides := fun _ _ owner _ => views id owner
    accessors := fun _ _ owner _ => views id owner }

end Source

end Injector
