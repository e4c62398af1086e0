/-
# Injector.Proofs.NameSupply -- a fresh name is free

The candidates for a name differ in their length, so of more candidates than there
are names taken one is free, and the search finds it (`fresh_not_mem_taken`).  What was
reserved is taken (`mem_taken_reserveAll`).

So after any calls of a supply the next fresh name is new (`fresh_after`).  Nothing else keeps it
apart from the others: different suggestions may make one identifier, or one may be another
with underscores behind it, and names are reserved as they are, identifiers or not.
-/
import Injector.NameSupply
import Mathlib.Data.List.Nodup
import Mathlib.Data.List.Perm.Subperm

namespace Injector

set_option autoImplicit false

namespace NameSupply

theorem length_pad (name : String) (n : Nat) :
    (pad name n).toList.length = name.toList.length + n := by
  simp [pad]

/-- Candidates of different length are different. -/
theorem pad_injective (name : String) : Function.Injective (pad name) := by
  intro m n same
  have lengths := congrArg (fun s : String => s.toList.length) same
  simp only [length_pad] at lengths
  omega

/-- The search finds a free candidate unless all of those it tries are taken. -/
theorem padding_free_or_taken (taken : List String) (name : String) (tries n : Nat) :
    pad name (padding taken name tries n) ∉ taken ∨
      ∀ k, n ≤ k → k < n + tries → pad name k ∈ taken := by
  induction tries generalizing n with
  | zero =>
      right
      intro k low high
      omega
  | succ tries ih =>
      by_cases free : pad name n ∈ taken
      · have next : padding taken name (tries + 1) n = padding taken name tries (n + 1) := by
          rw [padding, if_pos (by simpa using free)]
        rw [next]
        refine (ih (n + 1)).imp_right fun all k low high => ?_
        rcases Nat.eq_or_lt_of_le low with rfl | low
        · exact free
        · exact all k low (by omega)
      · left
        rw [padding, if_neg (by simpa using free)]
        exact free

/-- The candidates before the one that the search finds are taken. -/
theorem mem_taken_of_lt_padding {taken : List String} {name : String} {tries n k : Nat}
    (low : n ≤ k) (high : k < padding taken name tries n) : pad name k ∈ taken := by
  induction tries generalizing n with
  | zero =>
      unfold padding at high
      omega
  | succ tries ih =>
      by_cases free : pad name n ∈ taken
      · rw [padding, if_pos (by simpa using free)] at high
        by_cases same : k = n
        · exact same ▸ free
        · exact ih (by omega) high
      · rw [padding, if_neg (by simpa using free)] at high
        omega

/-- The name that the supply gives out was free. -/
theorem fresh_not_mem_taken (s : NameSupply) (suggestion : String) :
    (s.fresh suggestion).1 ∉ s.taken := by
  rcases padding_free_or_taken s.taken (identifier suggestion) (s.taken.length + 1) 0 with
    free | all
  · exact free
  · exfalso
    have distinct : ((List.range (s.taken.length + 1)).map (pad (identifier suggestion))).Nodup :=
      List.nodup_range.map (pad_injective _)
    have among : (List.range (s.taken.length + 1)).map (pad (identifier suggestion)) ⊆ s.taken := by
      intro name mem
      obtain ⟨k, below, rfl⟩ := List.mem_map.mp mem
      rw [List.mem_range] at below
      exact all k (Nat.zero_le k) (by omega)
    have few := (distinct.subperm among).length_le
    rw [List.length_map, List.length_range] at few
    omega

/-- Afterwards that name is taken, beside those that were. -/
theorem taken_fresh (s : NameSupply) (suggestion : String) :
    (s.fresh suggestion).2.taken = (s.fresh suggestion).1 :: s.taken := rfl

/-! ## Names that are taken -/

theorem mem_taken_reserve {s : NameSupply} {name other : String} :
    other ∈ (s.reserve name).taken ↔ other = name ∨ other ∈ s.taken := by
  rw [reserve]
  split
  · rename_i old
    rw [List.contains_iff_mem] at old
    exact ⟨.inr, fun known => known.elim (fun same => same ▸ old) id⟩
  · exact List.mem_cons

theorem mem_taken_reserveAll {names : List String} {s : NameSupply} {other : String} :
    other ∈ (names.foldl reserve s).taken ↔ other ∈ names ∨ other ∈ s.taken := by
  induction names generalizing s with
  | nil => simp
  | cons name rest ih =>
      rw [List.foldl_cons, ih, mem_taken_reserve, List.mem_cons, or_left_comm, or_assoc]

/-! ## What a name is made of -/

/-- Letters, digits and underscores, at least one, and no ASCII digit in front. -/
structure IsName (name : String) : Prop where
  ne_empty : name ≠ ""
  chars : ∀ c ∈ name.toList, Text.isAlphanumeric c = true ∨ c = '_'
  start : ∀ c, name.toList.head? = some c → c.isDigit = false

theorem isName_ofList {c : Char} {cs : List Char}
    (chars : ∀ d ∈ c :: cs, Text.isAlphanumeric d = true ∨ d = '_') (start : c.isDigit = false) :
    IsName (String.ofList (c :: cs)) := by
  refine ⟨fun none => ?_, ?_, ?_⟩
  · have := congrArg String.toList none
    simp at this
  · simpa only [String.toList_ofList] using chars
  · simp only [String.toList_ofList, List.head?_cons, Option.some.injEq]
    rintro _ rfl
    exact start

theorem isName_identifier (suggestion : String) : IsName (identifier suggestion) := by
  unfold identifier
  have chars : ∀ d ∈ suggestion.toList.map
      (fun c => if Text.isAlphanumeric c || c = '_' then c else '_'),
      Text.isAlphanumeric d = true ∨ d = '_' := by
    intro d mem
    obtain ⟨c, -, rfl⟩ := List.mem_map.mp mem
    by_cases fine : (Text.isAlphanumeric c || decide (c = '_')) = true
    · rw [if_pos fine]
      simpa using fine
    · rw [if_neg fine]
      exact .inr rfl
  generalize suggestion.toList.map _ = cs at chars
  cases cs with
  | nil => exact isName_ofList (by simp) (by decide)
  | cons c rest =>
      by_cases digit : c.isDigit = true
      · simp only [digit, if_true]
        exact isName_ofList (List.forall_mem_cons.mpr ⟨.inr rfl, chars⟩) (by decide)
      · simp only [digit]
        exact isName_ofList chars (by simpa using digit)

/-- Underscores behind a name make no other kind of name. -/
theorem IsName.pad {name : String} (fine : IsName name) (n : Nat) :
    IsName (NameSupply.pad name n) := by
  have letters : (NameSupply.pad name n).toList = name.toList ++ List.replicate n '_' := by
    simp [NameSupply.pad]
  have some_ : name.toList ≠ [] := by
    simpa using fine.ne_empty
  refine ⟨fun none => ?_, fun c mem => ?_, fun c first => ?_⟩
  · rw [none] at letters
    simp [some_] at letters
  · rw [letters] at mem
    rcases List.mem_append.mp mem with mem | mem
    · exact fine.chars c mem
    · exact .inr (List.eq_of_mem_replicate mem)
  · rw [letters, List.head?_append_of_ne_nil _ some_] at first
    exact fine.start c first

/-! ## The search without a limit -/

/-- As long as the name is taken, an underscore is put behind it. -/
inductive Pads (taken : List String) : String → String → Prop where
  | free {name : String} : name ∉ taken → Pads taken name name
  | push {name found : String} :
      name ∈ taken → Pads taken (name.push '_') found → Pads taken name found

@[simp] theorem pad_zero (name : String) : pad name 0 = name := by
  simp [pad]

theorem push_pad (name : String) (n : Nat) : (pad name n).push '_' = pad name (n + 1) := by
  apply String.toList_injective
  simp [pad, List.replicate_succ']

theorem Pads.unique {taken : List String} {name found found' : String}
    (pads : Pads taken name found) (pads' : Pads taken name found') : found = found' := by
  induction pads with
  | free free =>
      cases pads' with
      | free => rfl
      | push mem => exact absurd mem free
  | push mem _ ih =>
      cases pads' with
      | free free => exact absurd mem free
      | push _ rest => exact ih rest

/-- The search comes to the first candidate that is free. -/
theorem pads_pad {taken : List String} {name : String} {n : Nat} (free : pad name n ∉ taken)
    (first : ∀ k < n, pad name k ∈ taken) : Pads taken name (pad name n) := by
  have from_ : ∀ m ≤ n, Pads taken (pad name (n - m)) (pad name n) := by
    intro m
    induction m with
    | zero => exact fun _ => .free free
    | succ m ih =>
        intro le
        refine .push (first _ (by omega)) ?_
        have next : n - (m + 1) + 1 = n - m := by omega
        rw [push_pad, next]
        exact ih (by omega)
  simpa using from_ n (Nat.le_refl n)

/-! ## Any number of calls -/

/-- A call of the supply. -/
inductive Call where
  | reserve (name : String)
  | fresh (suggestion : String)

/-- The name that the call reserves, or that it is answered with. -/
def Call.name (s : NameSupply) : Call → String
  | .reserve name => name
  | .fresh suggestion => (s.fresh suggestion).1

/-- The supply after a call. -/
def Call.run (s : NameSupply) : Call → NameSupply
  | .reserve name => s.reserve name
  | .fresh suggestion => (s.fresh suggestion).2

/-- The supply after calls. -/
def after (s : NameSupply) (calls : List Call) : NameSupply := calls.foldl Call.run s

/-- The names that calls reserve or are answered with, in order. -/
def namesOf (s : NameSupply) : List Call → List String
  | [] => []
  | call :: rest => call.name s :: namesOf (call.run s) rest

theorem mem_taken_run {s : NameSupply} {call : Call} {other : String} :
    other ∈ (call.run s).taken ↔ other = call.name s ∨ other ∈ s.taken := by
  cases call with
  | reserve name => exact mem_taken_reserve
  | fresh suggestion => exact List.mem_cons

/-- Just the names that were reserved or given out are taken. -/
theorem mem_taken_after {s : NameSupply} {calls : List Call} {other : String} :
    other ∈ (s.after calls).taken ↔ other ∈ s.namesOf calls ∨ other ∈ s.taken := by
  induction calls generalizing s with
  | nil => simp [after, namesOf]
  | cons call rest ih =>
      show other ∈ ((call.run s).after rest).taken ↔ _
      rw [ih, mem_taken_run, namesOf, List.mem_cons, or_left_comm, or_assoc]

/-- After any calls a fresh name is found.  It is none of the names that were reserved or given
out, and it is a name, made of the suggestion and no more underscores than needed. -/
theorem fresh_after (calls : List Call) (suggestion : String) :
    let before := empty.namesOf calls
    let name := ((empty.after calls).fresh suggestion).1
    (∀ found, Pads before (identifier suggestion) found ↔ found = name) ∧
      name ∉ before ∧ IsName name ∧
      ∃ n, name = pad (identifier suggestion) n ∧
        ∀ k < n, pad (identifier suggestion) k ∈ before := by
  intro before name
  have taken {other : String} : other ∈ (empty.after calls).taken ↔ other ∈ before := by
    rw [mem_taken_after]
    exact or_iff_left List.not_mem_nil
  have new : name ∉ before := fun mem => fresh_not_mem_taken _ _ (taken.mpr mem)
  obtain ⟨n, padded, first⟩ : ∃ n, name = pad (identifier suggestion) n ∧
      ∀ k < n, pad (identifier suggestion) k ∈ before :=
    ⟨_, rfl, fun k below => taken.mp (mem_taken_of_lt_padding (Nat.zero_le k) below)⟩
  have pads : Pads before (identifier suggestion) name := by
    rw [padded] at new ⊢
    exact pads_pad new first
  refine ⟨fun found => ⟨fun other => other.unique pads, ?_⟩, new, ?_, n, padded, first⟩
  · rintro rfl
    exact pads
  · rw [padded]
    exact (isName_identifier suggestion).pad n

/-- A suggestion of its own, one that makes the same identifier, and a reserved name. -/
example : empty.namesOf [.fresh "a b", .reserve "a_b_", .fresh "a-b", .fresh "a_b_"] =
    ["a_b", "a_b_", "a_b__", "a_b___"] := by decide

end NameSupply

end Injector
