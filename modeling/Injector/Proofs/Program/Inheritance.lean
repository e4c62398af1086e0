/-
# Injector.Proofs.Program.Inheritance -- inherited types by way of a class between

A class sees the return type of an inherited member at the arguments of the type of the member's
class that is above it.  Where a third class is between the two, the type can be taken to that
class first, and from there to the lower one, with the same result (`returnTypeIn_through`).

A way up from the class in between, at its own type variables, is a way up from its type above the
lower class, with the arguments of that type put in (`reaches_subst`).  That is so as long as all
that is extended on the way has its arguments (`FullyApplied`), and no class on the way mentions a
type variable of the class in between that it does not have (`Fenced`): seen from there, it would
be taken for the one of that class (`strayVariable_taken`).  In a hierarchy without cycles no
class extends one of its own type variables, so the steps of the way are uses of the same classes
whatever is put in (`notMem_of_mem_heads`).
-/
import Injector.Proofs.Program.Closure
import Injector.Proofs.Ty.Composition

namespace Injector

set_option autoImplicit false

open Relation (TransGen ReflTransGen)

namespace Program

variable (p : Program)

/-- What a class extends has an argument for each type variable of its own class. -/
def FullyApplied : Prop :=
  ∀ decl ∈ p.classes, ∀ super ∈ decl.supers, ∀ d ∈ p.classOf super,
    super.dealias.args.length = (p.classAt d).typeVars.length

/-- One of the types above the class is a type of the other class, and no more than one. -/
def OnceAbove (c d : ClassId) : Prop :=
  (p.supertypes (p.classAt c).ty).countP (fun t => p.classOf t == some d) = 1

/-- A class between the two mentions a type variable of the lower one, in what it extends, only
if it has one of that name. -/
def Fenced (lower upper : ClassId) : Prop :=
  ∀ d, TransGen p.Above lower d → TransGen p.Above d upper →
    ∀ super ∈ (p.classAt d).supers, ∀ v ∈ super.vars,
      v ∈ (p.classAt lower).typeVars.map (·.name) → v ∈ (p.classAt d).typeVars.map (·.name)

instance : Decidable p.FullyApplied :=
  inferInstanceAs (Decidable (∀ decl ∈ p.classes, ∀ super ∈ decl.supers, ∀ d ∈ p.classOf super,
    _ = _))

instance (c d : ClassId) : Decidable (p.OnceAbove c d) := inferInstanceAs (Decidable (_ = _))

variable {p} {a b c d : ClassId} {t t' u super : Ty} {s : Subst} {v : String}

theorem mem_classes_of_mem_supers (declared : super ∈ (p.classAt c).supers) :
    p.classAt c ∈ p.classes := by
  rw [classAt] at declared ⊢
  cases found : p.classes[c.toNat]? with
  | none =>
      rw [found] at declared
      cases declared
  | some decl => exact List.mem_of_getElem? found

/-- Where classes mention no type variables but their own, nothing is taken for another one. -/
theorem fenced_of_own (own : ∀ decl ∈ p.classes, ∀ super ∈ decl.supers, ∀ v ∈ super.vars,
    v ∈ decl.typeVars.map (·.name)) : p.Fenced b a :=
  fun _ _ _ super declared v mem _ =>
    own _ (mem_classes_of_mem_supers declared) super declared v mem

/-! ## One step up -/

/-- In a hierarchy without cycles no class extends one of its own type variables. -/
theorem notMem_of_mem_heads (acyclic : p.Acyclic) (known : p.classOf t = some c)
    (declared : super ∈ (p.classAt c).supers) (head : v ∈ super.heads) :
    v ∉ (p.classAt c).typeVars.map (·.name) := by
  intro own
  -- With a type of the class for each of its type variables, it would extend a type of itself.
  let u : Ty := { t.dealias with args := (p.classAt c).typeVars.map fun _ => t }
  have real : u.dealias = u := Ty.dealias_of_not_alias (Ty.aliasOf_dealias t)
  have known' : p.classOf u = some c := by
    rw [classOf, real]
    exact known
  have uses (name : String) (value : Ty)
      (found : ((p.classAt c).substFor u).get? name = some value) :
      value.dealias.decl = t.dealias.decl := by
    rw [ClassDecl.substFor, real] at found
    have arg := (List.of_mem_zip (Subst.mem_zip_of_get?_ofArgs found)).2
    obtain ⟨-, -, rfl⟩ := List.mem_map.mp arg
    rfl
  have bound : ∃ value, ((p.classAt c).substFor u).get? v = some value := by
    rw [ClassDecl.substFor, real]
    exact Subst.exists_get?_ofArgs (by simp [u]) own
  refine acyclic c (.single ⟨u, super.subst ((p.classAt c).substFor u), known',
    mem_directSupertypes.mpr ⟨c, known', super, declared, rfl⟩, ?_⟩)
  rw [classOf, Ty.decl_dealias_subst_of_head uses bound super head]
  exact known

theorem unbound_of_mem_heads (acyclic : p.Acyclic) (known : p.classOf t = some c)
    (declared : super ∈ (p.classAt c).supers) :
    ∀ v ∈ super.heads, ((p.classAt c).substFor t).get? v = none :=
  fun _ head => Subst.get?_ofArgs_of_notMem (notMem_of_mem_heads acyclic known declared head)

theorem classOf_subst (heads : ∀ v ∈ t.heads, s.get? v = none) :
    p.classOf (t.subst s) = p.classOf t := by
  rw [classOf, classOf, Ty.dealias_subst t heads]
  rfl

/-- What a type declares has an argument for each type variable of its class. -/
theorem Declares.length_args (declares : p.Declares t u) (acyclic : p.Acyclic)
    (full : p.FullyApplied) (known : p.classOf u = some d) :
    u.dealias.args.length = (p.classAt d).typeVars.length := by
  obtain ⟨c, known', super, declared, rfl⟩ := declares
  rw [classOf_subst (unbound_of_mem_heads acyclic known' declared)] at known
  rw [Ty.dealias_subst super (unbound_of_mem_heads acyclic known' declared), List.length_map]
  exact full _ (mem_classes_of_mem_supers declared) super declared d known

/-- A step up from a type of a class is one from another type of it, with a substitution put in
after the arguments of the first if the arguments of the other come to that. -/
theorem declares_subst (acyclic : p.Acyclic) (known : p.classOf t = some d)
    (known' : p.classOf t' = some d) (declared : super ∈ (p.classAt d).supers)
    (others : ∀ v ∈ super.vars, v ∉ (p.classAt d).typeVars.map (·.name) → s.get? v = none)
    (composes : Ty.Composes ((p.classAt d).substFor t) s ((p.classAt d).substFor t') super.vars) :
    p.Declares t' ((super.subst ((p.classAt d).substFor t)).subst s) ∧
      ∀ v ∈ (super.subst ((p.classAt d).substFor t)).heads, s.get? v = none := by
  refine ⟨⟨d, known', super, declared, Ty.subst_subst super composes⟩, fun v head => ?_⟩
  rw [Ty.heads_subst super (unbound_of_mem_heads acyclic known declared)] at head
  exact others v (super.heads_subset_vars head) (notMem_of_mem_heads acyclic known declared head)

/-- Substituting in a type puts the same into what the type variables of its class stand for. -/
theorem composes_substFor (length : t.dealias.args.length = (p.classAt d).typeVars.length)
    (heads : ∀ v ∈ t.heads, s.get? v = none) {vars : List String}
    (others : ∀ v ∈ vars, v ∉ (p.classAt d).typeVars.map (·.name) → s.get? v = none) :
    Ty.Composes ((p.classAt d).substFor t) s ((p.classAt d).substFor (t.subst s)) vars := by
  rw [ClassDecl.substFor, ClassDecl.substFor, Ty.dealias_subst t heads]
  exact Subst.composes_ofArgs_map (by simpa using length) others

/-! ## The way up -/

/-- What is above a type is of a class above its class. -/
theorem above_of_declares (above : TransGen p.Declares t u) (known : p.classOf t = some c)
    (known' : p.classOf u = some d) : TransGen p.Above c d := by
  induction above generalizing d with
  | single declares => exact .single ⟨t, _, known, mem_directSupertypes.mpr declares, known'⟩
  | @tail w u _ declares ih =>
      have ⟨e, between, _⟩ := declares
      exact .tail (ih between) ⟨w, u, between, mem_directSupertypes.mpr declares, known'⟩

/-- A way up from a class at its own type variables, towards a class above it, is a way up from
each of its types, with the arguments of that type put in. -/
theorem reaches_subst (acyclic : p.Acyclic) (full : p.FullyApplied) (fenced : p.Fenced b a)
    (self : p.classOf (p.classAt b).ty = some b) (known : p.classOf t = some b)
    (length : t.dealias.args.length = (p.classAt b).typeVars.length)
    (above : TransGen p.Declares (p.classAt b).ty u) {top : Ty}
    (rest : ReflTransGen p.Declares u top) (towards : p.classOf top = some a) :
    TransGen p.Declares t (u.subst ((p.classAt b).substFor t)) ∧
      ∀ v ∈ u.heads, ((p.classAt b).substFor t).get? v = none := by
  have others {v : String} (other : v ∉ (p.classAt b).typeVars.map (·.name)) :
      ((p.classAt b).substFor t).get? v = none := Subst.get?_ofArgs_of_notMem other
  induction above with
  | single declares =>
      obtain ⟨c, same, super, declared, rfl⟩ := declares
      obtain rfl : b = c := Option.some.inj (self.symm.trans same)
      have composes : Ty.Composes ((p.classAt b).substFor (p.classAt b).ty)
          ((p.classAt b).substFor t) ((p.classAt b).substFor t) super.vars := by
        have own : (p.classAt b).ty.dealias.args =
            ((p.classAt b).typeVars.map (·.name)).map Ty.typeVar := by
          simp [ClassDecl.ty, Ty.dealias]
        rw [ClassDecl.substFor, own]
        exact Subst.composes_ofArgs_self (by simpa using length)
      obtain ⟨first, heads⟩ :=
        declares_subst acyclic self known declared (fun _ _ => others) composes
      exact ⟨.single first, heads⟩
  | @tail w u before declares ih =>
      obtain ⟨reaches, heads⟩ := ih (rest.head declares)
      have further : TransGen p.Declares w top := TransGen.head' declares rest
      obtain ⟨d, between, super, declared, rfl⟩ := declares
      -- The class is between the two, so it mentions type variables of the lower one as its own.
      have outside (v : String) (mem : v ∈ super.vars)
          (other : v ∉ (p.classAt d).typeVars.map (·.name)) :
          ((p.classAt b).substFor t).get? v = none :=
        others fun stray => other (fenced d (above_of_declares before self between)
          (above_of_declares further between towards) super declared v mem stray)
      have between' := (classOf_subst heads).trans between
      obtain ⟨_, _, last⟩ := TransGen.tail'_iff.mp before
      have composes := composes_substFor (last.length_args acyclic full between) heads outside
      obtain ⟨step, heads'⟩ := declares_subst acyclic between between' declared outside composes
      exact ⟨reaches.tail step, heads'⟩

/-! ## Inherited types -/

theorem OnceAbove.exists (once : p.OnceAbove c d) :
    ∃ t ∈ p.supertypes (p.classAt c).ty, p.classOf t = some d := by
  have found : 0 < (p.supertypes (p.classAt c).ty).countP fun t => p.classOf t == some d := by
    rw [once]
    exact Nat.one_pos
  simpa using List.countP_pos_iff.mp found

theorem OnceAbove.unique (once : p.OnceAbove c d) (mem : t ∈ p.supertypes (p.classAt c).ty)
    (mem' : t' ∈ p.supertypes (p.classAt c).ty) (known : p.classOf t = some d)
    (known' : p.classOf t' = some d) : t = t' := by
  rw [OnceAbove, List.countP_eq_length_filter, List.length_eq_one_iff] at once
  obtain ⟨only, all⟩ := once
  have among {u : Ty} (mem : u ∈ p.supertypes (p.classAt c).ty) (known : p.classOf u = some d) :
      u = only :=
    List.mem_singleton.mp (all ▸ List.mem_filter.mpr ⟨mem, by simp [known]⟩)
  exact (among mem known).trans (among mem' known').symm

/-- The type variables of a class stand for the arguments of the one type of it above. -/
theorem OnceAbove.memberSubst_eq (once : p.OnceAbove c d) (different : c ≠ d)
    (mem : t ∈ p.supertypes (p.classAt c).ty) (known : p.classOf t = some d) :
    p.memberSubst c d = (p.classAt d).substFor t := by
  rw [memberSubst, if_neg different]
  cases found : (p.supertypes (p.classAt c).ty).find? fun t => p.classOf t == some d with
  | none =>
      have missing := List.find?_eq_none.mp found t mem
      simp [known] at missing
  | some t' =>
      have known' : p.classOf t' = some d := by simpa using List.find?_some found
      rw [once.unique mem (List.mem_of_find?_eq_some found) known known']

/-- A class sees an inherited type as a class between it and the owner sees it, at the arguments
of that class. -/
theorem returnTypeIn_through (acyclic : p.Acyclic) (few : p.classes.length ≤ lastIdentity + 1)
    (full : p.FullyApplied) (fenced : p.Fenced b a) (different : c ≠ b ∧ c ≠ a ∧ b ≠ a)
    (lower : p.OnceAbove c b) (upper : p.OnceAbove b a) (whole : p.OnceAbove c a) (m : MemberId)
    (owner : (p.memberAt m).owner = some a)
    (own : ∀ v ∈ (p.memberAt m).returnType.vars, v ∈ (p.classAt a).typeVars.map (·.name)) :
    p.returnTypeIn m c = (p.returnTypeIn m b).subst (p.memberSubst c b) := by
  obtain ⟨t, mem, known⟩ := lower.exists
  obtain ⟨u, mem', known'⟩ := upper.exists
  rw [lower.memberSubst_eq different.1 mem known]
  have self : p.classOf (p.classAt b).ty = some b := by
    have decl : (p.classAt b).decl = t.dealias.decl :=
      @Source.decl_of_classNamed ⟨p, {}⟩ _ _ few known
    rw [← known, classOf, classOf, ← decl]
    rfl
  have above := (mem_supertypes_iff acyclic).mp mem
  have above' := (mem_supertypes_iff acyclic).mp mem'
  obtain ⟨_, _, last⟩ := TransGen.tail'_iff.mp above
  obtain ⟨_, _, last'⟩ := TransGen.tail'_iff.mp above'
  have itself : (p.classAt b).ty.dealias = (p.classAt b).ty := Ty.dealias_of_not_alias rfl
  rw [itself] at above'
  have length := last.length_args acyclic full known
  obtain ⟨reaches, heads⟩ := reaches_subst acyclic full fenced self known length above' .refl known'
  -- The type that is reached is above the lower class, so it is the one of its class there.
  have mem'' := (mem_supertypes_iff acyclic).mpr (above.trans reaches)
  have known'' := (classOf_subst heads).trans known'
  have composes : Ty.Composes ((p.classAt a).substFor u) ((p.classAt b).substFor t)
      ((p.classAt a).substFor (u.subst ((p.classAt b).substFor t)))
      (p.memberAt m).returnType.vars :=
    composes_substFor (last'.length_args acyclic full known') heads fun v mem other =>
      absurd (own v mem) other
  simp only [returnTypeIn, owner, whole.memberSubst_eq different.2.1 mem'' known'',
    upper.memberSubst_eq different.2.2 mem' known', Ty.subst_subst _ composes]

end Program

/-- `Bottom` has the member of `Top<T>` by way of `Middle<A, B>`, which extends
`Top<Pair<B, A?>>`. -/
def threeLevels : Program where
  classes := [{ name := "Foo" }, { name := "Bar" },
    { name := "Top", kind := .interface, typeVars := [{ name := "T" }], members := [⟨0⟩] },
    { name := "Middle", kind := .interface, typeVars := [{ name := "A" }, { name := "B" }],
      supers := [{ name := "Top", args := [.pairOf (.typeVar "B")
        { kind := .typeVar, name := "A", nullable := true }] }] },
    { name := "Bottom",
      supers := [{ name := "Middle", args := [{ name := "Foo" }, { name := "Bar" }] }] }]
  members := [{
    owner := some ⟨2⟩
    name := "top"
    returnType := .mapOf (.typeVar "T")
      (.alias "" "Shelf" { kind := .typeVar, name := "T", nullable := true }) }]

theorem threeLevels_through :
    let foo : Ty := { name := "Foo", nullable := true }
    let pair : Ty := .pairOf { name := "Bar" } foo
    threeLevels.returnTypeIn ⟨0⟩ ⟨4⟩ =
        .mapOf pair (.alias "" "Shelf" { pair with nullable := true }) ∧
      threeLevels.returnTypeIn ⟨0⟩ ⟨4⟩ =
        (threeLevels.returnTypeIn ⟨0⟩ ⟨3⟩).subst (threeLevels.memberSubst ⟨4⟩ ⟨3⟩) := by
  intro foo pair
  have acyclic : threeLevels.Acyclic :=
    Program.acyclic_of_declared ClassId.toNat (by decide) (by decide)
  have fenced : threeLevels.Fenced ⟨3⟩ ⟨2⟩ := Program.fenced_of_own (by decide)
  have full : threeLevels.FullyApplied := by decide
  refine ⟨by decide +kernel, ?_⟩
  exact Program.returnTypeIn_through acyclic (by decide) full fenced (by decide)
    (by decide +kernel) (by decide +kernel) (by decide +kernel) ⟨0⟩ rfl (by decide)

/-- `Middle<T>` extends `Odd<T>`, and `Odd<X>` extends `Top<T>` with a variable that it does not
have. -/
def strayVariable : Program where
  classes := [{ name := "Foo" },
    { name := "Top", kind := .interface, typeVars := [{ name := "Y" }], members := [⟨0⟩] },
    { name := "Odd", kind := .interface, typeVars := [{ name := "X" }],
      supers := [{ name := "Top", args := [.typeVar "T"] }] },
    { name := "Middle", kind := .interface, typeVars := [{ name := "T" }],
      supers := [{ name := "Odd", args := [.typeVar "T"] }] },
    { name := "Bottom", supers := [{ name := "Middle", args := [{ name := "Foo" }] }] }]
  members := [{ owner := some ⟨1⟩, name := "top", returnType := .typeVar "Y" }]

/-- Seen from `Middle` the variable is that of `Middle`, so it stands for `Foo` in `Bottom`; seen
from `Bottom` at once it stands for nothing. -/
theorem strayVariable_taken :
    strayVariable.Acyclic ∧ strayVariable.classes.length ≤ lastIdentity + 1 ∧
      strayVariable.FullyApplied ∧
      strayVariable.OnceAbove ⟨4⟩ ⟨3⟩ ∧ strayVariable.OnceAbove ⟨3⟩ ⟨1⟩ ∧
      strayVariable.OnceAbove ⟨4⟩ ⟨1⟩ ∧
      (strayVariable.memberAt ⟨0⟩).owner = some ⟨1⟩ ∧
      (∀ v ∈ (strayVariable.memberAt ⟨0⟩).returnType.vars,
        v ∈ (strayVariable.classAt ⟨1⟩).typeVars.map (·.name)) ∧
      strayVariable.returnTypeIn ⟨0⟩ ⟨4⟩ = .typeVar "T" ∧
      (strayVariable.returnTypeIn ⟨0⟩ ⟨3⟩).subst (strayVariable.memberSubst ⟨4⟩ ⟨3⟩) =
        { name := "Foo" } ∧
      strayVariable.returnTypeIn ⟨0⟩ ⟨4⟩ ≠
        (strayVariable.returnTypeIn ⟨0⟩ ⟨3⟩).subst (strayVariable.memberSubst ⟨4⟩ ⟨3⟩) := by
  refine ⟨Program.acyclic_of_declared ClassId.toNat (by decide) (by decide), by decide, by decide,
    by decide +kernel, by decide +kernel, by decide +kernel, rfl, by decide, by decide +kernel,
    by decide +kernel, by decide +kernel⟩

end Injector
