/-
# Injector.Proofs.Planner.Constructions -- what a component can come to build

Which call serves a key, and which keys that call asks for, depends on the
program and the catalog alone.  `calls` lists the calls for one key; `Requested`
is the closure of the keys of the accessors under what the calls ask for and
under what is inside lambdas and lazy values; a call for a requested key is
`Built`.  This is more than what one planning gets to: a lambda parameter, a
cached plan or an error may come before a call.

Cycles are kept apart by keys, elements and suggested names.  The ways in which
these can tell the calls of a component apart are properties of what is built.
-/
import Injector.Planner.Accessors

namespace Injector

set_option autoImplicit false

/-- A call of a constructor or a member that serves a key. -/
structure Call where
  key : Key
  element : Element
  receiver : Option Ty := none
  params : List ParamDecl := []
  /-- What stands for the type variables of the declaration. -/
  subst : Subst := {}
  /-- The call is made by a lambda. -/
  inLambda : Bool := false
  deriving DecidableEq, Inhabited

namespace Source

variable (src : Source)

/-- The key of the argument for a parameter. -/
def paramKey (s : Subst) (param : ParamDecl) : Key :=
  .of (param.ty.subst s) (src.qualifier param.annotations (param.ty.subst s)).1

/-- The key of the receiver. -/
def receiverKey (s : Subst) (ty : Ty) : Key := .of (ty.subst s)

/-- The keys that a call asks for, the receiver first. -/
def asks (c : Call) : List Key :=
  (c.receiver.map (receiverKey c.subst)).toList ++ c.params.map (src.paramKey c.subst)

/-- The call of the constructor of `cls` at `index`, for a value of type `ty`. -/
def ctorCall (key : Key) (cls : ClassId) (index : Nat) (ty : Ty) : Call where
  key := key
  element := .ctor cls (UInt64.ofNat index)
  params := (((src.program.classAt cls).ctors[index]?).map (·.params)).getD []
  subst := (src.program.classAt cls).substFor ty

/-- The call of the member `m`. -/
def memberCall (key : Key) (m : MemberId) (s : Subst) (inLambda : Bool) : Call where
  key := key
  element := .member m
  receiver := (src.program.memberAt m).receiver
  params := (src.program.memberAt m).params
  subst := s
  inLambda := inLambda

/-- The key that a contribution is filed under. -/
def contributionKey (b : MemberBinding) : Key := .of (src.program.memberAt b.member).returnType

/-- The calls that follow a binding. -/
def bindingCalls (key : Key) : Binding → List Call
  | .ctor cls index ty _ _ => [src.ctorCall key cls index ty]
  | .member b => [src.memberCall key b.member .empty false]
  | .container _ contributors =>
    contributors.map fun b => src.memberCall (src.contributionKey b) b.member .empty false
  | .object _ => []

/-- Nothing binds the key, so a lambda or a lazy value may be made for it. -/
def Unbound (catalog : Catalog) (key : Key) : Prop := (src.choose catalog key).1 = .nothing

instance (catalog : Catalog) (key : Key) : Decidable (src.Unbound catalog key) :=
  inferInstanceAs (Decidable (_ = _))

/-- The calls of a key that nothing binds. -/
def unboundCalls (catalog : Catalog) (key : Key) : List Call :=
  if key.ty.isFunction then
    match src.aliasedFunction key.ty with
    | some f => [src.memberCall key f .empty true]
    | none => []
  else if key.ty.isLazy then []
  else
    match src.fitting key catalog.generics [] with
    | [(b, s)] => [src.memberCall key b.member s false]
    | _ => []

/-- The calls that serve `key`. -/
def calls (catalog : Catalog) (key : Key) : List Call :=
  match (src.choose catalog key).1 with
  | .nothing => src.unboundCalls catalog key
  | .binding b => src.bindingCalls key b
  | .ownerless _ _ => []

/-- The key of the value inside a lambda or a lazy value. -/
def innerKey? (key : Key) : Option Key :=
  if key.ty.isFunction then
    match src.aliasedFunction key.ty with
    | some _ => none
    | none => (key.ty.dealias.args.getLast?).map fun ty => .of ty key.qualifier
  else if key.ty.isLazy then (key.ty.dealias.args.head?).map fun ty => .of ty key.qualifier
  else none

/-- The key of the value of an accessor. -/
def accessorKey (catalog : Catalog) (m : MemberId) : Key :=
  let ty := src.program.returnTypeIn m catalog.own.cls
  .of ty (src.qualifier (src.program.memberAt m).annotations ty).1

/-- The keys that planning the accessors can come to. -/
inductive Requested (catalog : Catalog) : Key → Prop where
  | accessor {m : MemberId} : m ∈ catalog.own.accessors →
      Requested catalog (src.accessorKey catalog m)
  | asked {key asked : Key} {c : Call} : Requested catalog key → c ∈ src.calls catalog key →
      asked ∈ src.asks c → Requested catalog asked
  | inner {key inner : Key} : Requested catalog key → src.Unbound catalog key →
      src.innerKey? key = some inner → Requested catalog inner

/-- The call serves a requested key. -/
def Built (catalog : Catalog) (c : Call) : Prop :=
  ∃ key, src.Requested catalog key ∧ c ∈ src.calls catalog key

/-- A call is built for the key. -/
def Constructed (catalog : Catalog) (key : Key) : Prop := ∃ c, src.Built catalog c ∧ c.key = key

variable {src} {catalog : Catalog} {key : Key} {c : Call}

theorem Built.asked {asked : Key} (built : src.Built catalog c) (mem : asked ∈ src.asks c) :
    src.Requested catalog asked := by
  obtain ⟨key, requested, mem'⟩ := built
  exact .asked requested mem' mem

theorem Built.receiver_requested (built : src.Built catalog c) :
    ∀ ty ∈ c.receiver, src.Requested catalog (receiverKey c.subst ty) := by
  intro ty mem
  exact built.asked (List.mem_append_left _ (by simp [Option.mem_def.mp mem]))

theorem Built.param_requested (built : src.Built catalog c) :
    ∀ param ∈ c.params, src.Requested catalog (src.paramKey c.subst param) :=
  fun _ mem => built.asked (List.mem_append_right _ (List.mem_map_of_mem mem))

theorem Built.constructed (built : src.Built catalog c) : src.Constructed catalog c.key :=
  ⟨c, built, rfl⟩

theorem calls_of_binding {b : Binding} (chosen : (src.choose catalog key).1 = .binding b) :
    src.calls catalog key = src.bindingCalls key b := by
  simp only [calls, chosen]

theorem calls_of_unbound (unbound : src.Unbound catalog key) :
    src.calls catalog key = src.unboundCalls catalog key := by
  simp only [Unbound] at unbound
  simp only [calls, unbound]

/-- Only a lambda for a function type that nothing binds makes a call of its own. -/
theorem unbound_of_inLambda (mem : c ∈ src.calls catalog key) (lambda : c.inLambda = true) :
    c.key = key ∧ src.Unbound catalog key ∧ key.ty.isFunction = true := by
  simp only [calls] at mem
  split at mem
  case h_1 unbound =>
      simp only [unboundCalls] at mem
      split at mem
      case isTrue function =>
          split at mem
          · obtain rfl := List.mem_singleton.mp mem
            exact ⟨rfl, unbound, function⟩
          · cases mem
      case isFalse =>
          split at mem
          · cases mem
          · split at mem
            · obtain rfl := List.mem_singleton.mp mem
              cases lambda
            · cases mem
  case h_2 b _ =>
      cases b with
      | ctor | member =>
          obtain rfl := List.mem_singleton.mp mem
          cases lambda
      | container kind contributors =>
          obtain ⟨b, -, rfl⟩ := List.mem_map.mp mem
          cases lambda
      | object => cases mem
  case h_3 => cases mem

theorem Built.unbound (built : src.Built catalog c) (lambda : c.inLambda = true) :
    src.Unbound catalog c.key ∧ c.key.ty.isFunction = true := by
  obtain ⟨key, -, mem⟩ := built
  obtain ⟨rfl, unbound, function⟩ := unbound_of_inLambda mem lambda
  exact ⟨unbound, function⟩

end Source

/-! ## Telling calls apart -/

/-- A name that the planner may give to a lambda parameter. -/
def IsParamName (name : String) : Prop :=
  ∃ n k : Nat, name = NameSupply.pad (NameSupply.identifier (Source.paramStem ++ toString n)) k

/-- Parameter names begin with their stem. -/
theorem stem_of_isParamName {name : String} (param : IsParamName name) :
    Source.paramStem.toList <+: name.toList := by
  obtain ⟨n, k, rfl⟩ := param
  have ascii : (['a', 'r', 'g'].map fun c => if Text.isAlphanumeric c || c = '_' then c else '_') =
      ['a', 'r', 'g'] := by decide
  have stem : Source.paramStem.toList = ['a', 'r', 'g'] := by decide
  simp only [NameSupply.pad, NameSupply.identifier, String.toList_append, stem, List.map_append,
    ascii]
  simp

namespace Source

variable (src : Source) (catalog : Catalog)

/-- Keys and elements of what is built correspond one to one. -/
structure OneToOne : Prop where
  ofKey : ∀ {c d : Call}, src.Built catalog c → src.Built catalog d → c.key = d.key → c = d
  ofElement : ∀ {c d : Call}, src.Built catalog c → src.Built catalog d →
    c.element = d.element → c = d

/-- Calls for types that suggest one name call the same declaration. -/
def NamesTellElements : Prop :=
  ∀ c d : Call, src.Built catalog c → src.Built catalog d →
    c.key.ty.suggestedName = d.key.ty.suggestedName →
      c.element = d.element ∧ c.inLambda = d.inLambda

/-- Types of different keys suggest different names. -/
def NamesTellKeys : Prop :=
  ∀ key other : Key, src.Constructed catalog key → src.Constructed catalog other →
    key.ty.suggestedName = other.ty.suggestedName → key = other

/-- No type suggests a name that a lambda parameter may have. -/
def NamesAvoidParams : Prop :=
  ∀ key : Key, src.Constructed catalog key → ¬ IsParamName key.ty.suggestedName

variable {src catalog}

/-! ## Components with few keys -/

variable (src catalog) in
/-- What the accessors ask for, and what is asked for from there, is among the keys. -/
def Covers (keys : List Key) : Prop :=
  (∀ m ∈ catalog.own.accessors, src.accessorKey catalog m ∈ keys) ∧
    ∀ key ∈ keys, (∀ c ∈ src.calls catalog key, ∀ asked ∈ src.asks c, asked ∈ keys) ∧
      (src.Unbound catalog key → ∀ inner ∈ (src.innerKey? key).toList, inner ∈ keys)

instance (keys : List Key) : Decidable (src.Covers catalog keys) :=
  inferInstanceAs (Decidable (_ ∧ _))

theorem Covers.requested {keys : List Key} {key : Key} (covers : src.Covers catalog keys)
    (requested : src.Requested catalog key) : key ∈ keys := by
  induction requested with
  | accessor mem => exact covers.1 _ mem
  | asked _ call mem ih => exact (covers.2 _ ih).1 _ call _ mem
  | inner _ unbound found ih => exact (covers.2 _ ih).2 unbound _ (Option.mem_toList.mpr found)

theorem Covers.built {keys : List Key} {c : Call} (covers : src.Covers catalog keys)
    (built : src.Built catalog c) : c ∈ keys.flatMap (src.calls catalog) := by
  obtain ⟨key, requested, mem⟩ := built
  exact List.mem_flatMap.mpr ⟨key, covers.requested requested, mem⟩

theorem Covers.oneToOne {keys : List Key} (covers : src.Covers catalog keys)
    (apart : ∀ c ∈ keys.flatMap (src.calls catalog), ∀ d ∈ keys.flatMap (src.calls catalog),
      c.key = d.key ∨ c.element = d.element → c = d) : src.OneToOne catalog where
  ofKey built built' same := apart _ (covers.built built) _ (covers.built built') (.inl same)
  ofElement built built' same := apart _ (covers.built built) _ (covers.built built') (.inr same)

theorem Covers.namesTellElements {keys : List Key} (covers : src.Covers catalog keys)
    (apart : ∀ c ∈ keys.flatMap (src.calls catalog), ∀ d ∈ keys.flatMap (src.calls catalog),
      c.key.ty.suggestedName = d.key.ty.suggestedName →
        c.element = d.element ∧ c.inLambda = d.inLambda) : src.NamesTellElements catalog :=
  fun c d built built' => apart c (covers.built built) d (covers.built built')

theorem Covers.namesTellKeys {keys : List Key} (covers : src.Covers catalog keys)
    (apart : ∀ c ∈ keys.flatMap (src.calls catalog), ∀ d ∈ keys.flatMap (src.calls catalog),
      c.key.ty.suggestedName = d.key.ty.suggestedName → c.key = d.key) :
    src.NamesTellKeys catalog := by
  rintro _ _ ⟨c, built, rfl⟩ ⟨d, built', rfl⟩
  exact apart c (covers.built built) d (covers.built built')

theorem Covers.namesAvoidParams {keys : List Key} (covers : src.Covers catalog keys)
    (apart : ∀ c ∈ keys.flatMap (src.calls catalog),
      ¬ paramStem.toList <+: c.key.ty.suggestedName.toList) : src.NamesAvoidParams catalog := by
  rintro _ ⟨c, built, rfl⟩ param
  exact apart c (covers.built built) (stem_of_isParamName param)

end Source

end Injector
