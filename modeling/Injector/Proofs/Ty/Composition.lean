/-
# Injector.Proofs.Ty.Composition -- one substitution after the other

Substituting twice is substituting once, by what the first substitution stands for with the second
one put into it, and by the second one where the first stands for nothing (`subst_subst`).  Only
the variables that a type mentions (`vars`) count.  The arguments of a type stand for the variables
of its declaration; putting a substitution into the arguments is putting it into what they stand
for (`composes_ofArgs_map`).

A type that stands for a variable takes the place of the type with all its arguments where the
variable is met on the way from alias to alias (`heads`).  Where nothing is put for those,
substituting leaves the end of the aliases what it is and reaches its arguments only
(`dealias_subst`).
-/
import Injector.Ty.Subst
import Mathlib.Data.List.Basic

namespace Injector

set_option autoImplicit false

namespace Ty

/-! ## Type variables -/

mutual

/-- The type variables in a type, in its arguments, and in what it is an alias of. -/
def vars : Ty → List String
  | ⟨k, _, n, as, _, _, o⟩ =>
    (if k = .typeVar then [n] else []) ++ varsAll as ++ varsTarget o

def varsAll : List Ty → List String
  | [] => []
  | t :: rest => vars t ++ varsAll rest

def varsTarget : Option Ty → List String
  | none => []
  | some t => vars t

end

mutual

/-- A substitution that stands for none of its variables leaves a type as it is. -/
theorem subst_eq_self {s : Subst} :
    ∀ t : Ty, (∀ v ∈ t.vars, s.get? v = none) → t.subst s = t
  | ⟨k, p, n, as, u, q, o⟩, unbound => by
    simp only [vars, List.forall_mem_append] at unbound
    obtain ⟨⟨here, inside⟩, target⟩ := unbound
    simp only [subst, substAll_eq_self as inside, substTarget_eq_self o target]
    split
    · rename_i variable_
      rw [if_pos variable_] at here
      rw [here n (List.mem_singleton_self n)]
    · rfl

theorem substAll_eq_self {s : Subst} :
    ∀ ts : List Ty, (∀ v ∈ varsAll ts, s.get? v = none) → substAll s ts = ts
  | [], _ => rfl
  | t :: rest, unbound => by
    obtain ⟨first, others⟩ := List.forall_mem_append.mp unbound
    rw [substAll, subst_eq_self t first, substAll_eq_self rest others]

theorem substTarget_eq_self {s : Subst} :
    ∀ o : Option Ty, (∀ v ∈ varsTarget o, s.get? v = none) → substTarget s o = o
  | none, _ => rfl
  | some t, unbound => by rw [substTarget, subst_eq_self t unbound]

end

/-! ## Composition -/

theorem fill_none (value : Ty) : fill false none value = value := by
  obtain ⟨k, p, n, as, u, q, o⟩ := value
  cases q <;> simp [fill]

theorem fill_fill (nullable nullable' : Bool) (qualifier qualifier' : Option AnnotationUse)
    (value : Ty) : fill nullable qualifier (fill nullable' qualifier' value) =
      fill (nullable' || nullable) (qualifier'.orElse fun _ => qualifier) value := by
  obtain ⟨k, p, n, as, u, q, o⟩ := value
  cases q <;> simp [fill, Bool.or_assoc]

/-- What stands for an occurrence is substituted as if it stood alone. -/
theorem subst_fill (r : Subst) (nullable : Bool) (qualifier : Option AnnotationUse) (value : Ty) :
    (fill nullable qualifier value).subst r = fill nullable qualifier (value.subst r) := by
  obtain ⟨k, p, n, as, u, q, o⟩ := value
  simp only [fill, subst]
  split
  · cases r.get? n with
    | none => rfl
    | some inner => exact (fill_fill nullable u qualifier q inner).symm
  · rfl

/-- The third substitution is the first one followed by the second, at these variables. -/
def Composes (s r c : Subst) (names : List String) : Prop :=
  ∀ name ∈ names, c.get? name = ((s.get? name).map (subst r)).or (r.get? name)

mutual

/-- Substituting twice is substituting once. -/
theorem subst_subst {s r c : Subst} :
    ∀ t : Ty, Composes s r c t.vars → (t.subst s).subst r = t.subst c
  | ⟨k, p, n, as, u, q, o⟩, composes => by
    simp only [Composes, vars, List.forall_mem_append] at composes
    obtain ⟨⟨here, inside⟩, target⟩ := composes
    have args := substAll_substAll as inside
    have aliased := substTarget_substTarget o target
    simp only [subst]
    split
    · rename_i occurs
      rw [if_pos occurs] at here
      have here := here n (List.mem_singleton_self n)
      cases first : s.get? n with
      | some value => simp only [here, first, Option.map_some, Option.some_or, subst_fill]
      | none =>
          simp only [here, first, Option.map_none, Option.none_or, subst, if_pos occurs, args,
            aliased]
    · rename_i other
      simp only [subst, if_neg other, args, aliased]

theorem substAll_substAll {s r c : Subst} : ∀ ts : List Ty, Composes s r c (varsAll ts) →
    substAll r (substAll s ts) = substAll c ts
  | [], _ => rfl
  | t :: rest, composes => by
    obtain ⟨first, others⟩ := List.forall_mem_append.mp composes
    rw [substAll, substAll, substAll, subst_subst t first, substAll_substAll rest others]

theorem substTarget_substTarget {s r c : Subst} : ∀ o : Option Ty, Composes s r c (varsTarget o) →
    substTarget r (substTarget s o) = substTarget c o
  | none, _ => rfl
  | some t, composes => by rw [substTarget, substTarget, substTarget, subst_subst t composes]

end

/-! ## The end of the aliases -/

/-- The type variables among the type and what it is an alias of. -/
def heads : Ty → List String
  | ⟨k, _, n, _, _, _, none⟩ => if k = .typeVar then [n] else []
  | ⟨k, _, n, _, _, _, some target⟩ => (if k = .typeVar then [n] else []) ++ heads target

theorem heads_subset_vars : ∀ t : Ty, t.heads ⊆ t.vars
  | ⟨k, p, n, as, u, q, none⟩ => by simp [heads, vars]
  | ⟨k, p, n, as, u, q, some target⟩ => by
    rw [heads, vars, varsTarget]
    exact List.append_subset.mpr
      ⟨fun _ mem => by simp [mem], fun _ mem => by simp [heads_subset_vars target mem]⟩

@[simp] theorem dealias_fill_decl (nullable : Bool) (qualifier : Option AnnotationUse)
    (value : Ty) : (fill nullable qualifier value).dealias.decl = value.dealias.decl := by
  obtain ⟨k, p, n, as, u, q, o⟩ := value
  cases o <;> simp [fill, dealias, decl]

/-- Where nothing is put for the heads, only the arguments change. -/
theorem dealias_subst {s : Subst} : ∀ t : Ty, (∀ v ∈ t.heads, s.get? v = none) →
    (t.subst s).dealias = { t.dealias with args := t.dealias.args.map (subst s) }
  | ⟨k, p, n, as, u, q, none⟩, unbound => by
    by_cases occurs : k = .typeVar
    · have here := unbound n (by simp [heads, occurs])
      simp [subst, occurs, here, dealias, substTarget, substAll_eq_map]
    · simp [subst, occurs, dealias, substTarget, substAll_eq_map]
  | ⟨k, p, n, as, u, q, some target⟩, unbound => by
    rw [heads, List.forall_mem_append] at unbound
    have below := dealias_subst target unbound.2
    by_cases occurs : k = .typeVar
    · have here := unbound.1 n (by simp [occurs])
      simpa [subst, occurs, here, dealias, substTarget] using below
    · simpa [subst, occurs, dealias, substTarget] using below

/-- Then they stay the same. -/
theorem heads_subst {s : Subst} : ∀ t : Ty, (∀ v ∈ t.heads, s.get? v = none) →
    (t.subst s).heads = t.heads
  | ⟨k, p, n, as, u, q, none⟩, unbound => by
    by_cases occurs : k = .typeVar
    · have here := unbound n (by simp [heads, occurs])
      simp [subst, occurs, here, heads, substTarget]
    · simp [subst, occurs, heads, substTarget]
  | ⟨k, p, n, as, u, q, some target⟩, unbound => by
    rw [heads, List.forall_mem_append] at unbound
    have below := heads_subst target unbound.2
    by_cases occurs : k = .typeVar
    · have here := unbound.1 n (by simp [occurs])
      simp [subst, occurs, here, heads, substTarget, below]
    · simp [subst, occurs, heads, substTarget, below]

/-- Where uses of one declaration are put for all variables, a type with a head becomes such a
use. -/
theorem decl_dealias_subst_of_head {s : Subst} {d : DeclName} {v : String}
    (uses : ∀ name value, s.get? name = some value → value.dealias.decl = d)
    (bound : ∃ value, s.get? v = some value) :
    ∀ t : Ty, v ∈ t.heads → (t.subst s).dealias.decl = d
  | ⟨k, p, n, as, u, q, none⟩, head => by
    obtain ⟨value, found⟩ := bound
    obtain ⟨occurs, rfl⟩ : k = .typeVar ∧ v = n := by simpa [heads] using head
    simp [subst, occurs, found, uses v value found]
  | ⟨k, p, n, as, u, q, some target⟩, head => by
    rw [heads, List.mem_append] at head
    by_cases occurs : k = .typeVar
    · cases found : s.get? n with
      | some value => simp [subst, occurs, found, uses n value found]
      | none =>
          have further : v ∈ target.heads := head.resolve_left fun here => by
            obtain rfl : v = n := by simpa [occurs] using here
            obtain ⟨value, found'⟩ := bound
            cases found.symm.trans found'
          simpa [subst, occurs, found, dealias, substTarget] using
            decl_dealias_subst_of_head uses bound target further
    · have further : v ∈ target.heads := head.resolve_left (by simp [occurs])
      simpa [subst, occurs, dealias, substTarget] using
        decl_dealias_subst_of_head uses bound target further

end Ty

/-! ## Arguments for variables -/

/-- Of several rows with one key the last one counts. -/
theorem Table.get?_ofList {α β : Type} [DecidableEq α] (rows : List (α × β)) (key : α) :
    (ofList rows).get? key = find key rows.reverse := by
  have added (t : Table α β) : (rows.foldl (fun t row => t.insert row.1 row.2) t).get? key =
      (find key rows.reverse).or (t.get? key) := by
    induction rows generalizing t with
    | nil => rfl
    | cons row rest ih =>
        rw [List.foldl_cons, ih, get?_insert, List.reverse_cons, find_append, Option.or_assoc]
        simp only [find]
        split <;> rfl
  rw [ofList, added, get?_empty, Option.or_none]

theorem Table.find_map {α β γ : Type} [DecidableEq α] (f : β → γ) (key : α) (rows : List (α × β)) :
    find key (rows.map (Prod.map id f)) = (find key rows).map f := by
  induction rows with
  | nil => rfl
  | cons row rest ih =>
      obtain ⟨k, value⟩ := row
      simp only [List.map_cons, Prod.map, id, find, ih]
      split <;> rfl

namespace Subst

variable {names : List String} {args : List Ty} {name : String} {value : Ty} {s : Subst}

theorem mem_zip_of_get?_ofArgs (found : (ofArgs names args).get? name = some value) :
    (name, value) ∈ names.zip args := by
  rw [ofArgs, Table.get?_ofList] at found
  exact List.mem_reverse.mp (Table.mem_rows_of_get? (t := ⟨(names.zip args).reverse⟩) found)

theorem get?_ofArgs_of_notMem (other : name ∉ names) : (ofArgs names args).get? name = none :=
  Option.eq_none_iff_forall_ne_some.mpr fun _ found =>
    other (List.of_mem_zip (mem_zip_of_get?_ofArgs found)).1

/-- With an argument for each of them, all the variables stand for something. -/
theorem exists_get?_ofArgs (length : args.length = names.length) (mem : name ∈ names) :
    ∃ value, (ofArgs names args).get? name = some value := by
  rw [ofArgs, Table.get?_ofList]
  refine (Table.mem_keys_iff (t := ⟨(names.zip args).reverse⟩)).mp ?_
  rwa [Table.keys, List.map_reverse, List.mem_reverse, List.map_fst_zip (Nat.le_of_eq length.symm)]

/-- What is done to the arguments is done to what they stand for. -/
theorem get?_ofArgs_map (f : Ty → Ty) :
    (ofArgs names (args.map f)).get? name = ((ofArgs names args).get? name).map f := by
  rw [ofArgs, ofArgs, Table.get?_ofList, Table.get?_ofList, List.zip_map_right, ← List.map_reverse,
    Table.find_map]

/-- Substituting in the arguments comes to the same as substituting after them, unless other
variables stand for something too. -/
theorem composes_ofArgs_map {vars : List String} (length : args.length = names.length)
    (others : ∀ v ∈ vars, v ∉ names → s.get? v = none) :
    Ty.Composes (ofArgs names args) s (ofArgs names (args.map (Ty.subst s))) vars := by
  intro name mem
  rw [get?_ofArgs_map]
  by_cases own : name ∈ names
  · obtain ⟨value, found⟩ := exists_get?_ofArgs length own
    simp [found]
  · simp [get?_ofArgs_of_notMem own, others name mem own]

/-- The variables themselves, as arguments, leave it to the substitution after them. -/
theorem composes_ofArgs_self {vars : List String} (length : args.length = names.length) :
    Ty.Composes (ofArgs names (names.map .typeVar)) (ofArgs names args) (ofArgs names args)
      vars := by
  intro name _
  cases itself : (ofArgs names (names.map .typeVar)).get? name with
  | none => simp
  | some value =>
      have pair := mem_zip_of_get?_ofArgs itself
      obtain ⟨own, rfl⟩ : name ∈ names ∧ .typeVar name = value := by
        rw [← List.map_prod_left_eq_zip] at pair
        simpa using pair
      obtain ⟨arg, found⟩ := exists_get?_ofArgs length own
      simp [found, Ty.typeVar, Ty.subst, Ty.fill_none]

end Subst

end Injector
