/-
# Injector.Proofs.Ty.Legibility -- when a key can be read off its text

The text of a key leaves things out: the packages of the prelude and the root package, what
an alias stands for, the package of a qualifier, qualifiers inside the type; and the question
mark behind a function type is that of what the function returns.  Where none of this matters
the text determines the key (`Key.text_injective`).

A `Lettering` lists the declarations and the qualifiers in use; it is legible when their own
texts tell them apart and use none of the characters with which types are put together.  A
type is spelled in it when it is made of these declarations and of function types, without
aliases.

Texts are read from the left, with whatever comes behind a type as a parameter: `Reads` says
that the type in front of a stop can be told.
-/
import Injector.Key
import Injector.Proofs.Ty.Heights
import Mathlib.Data.List.Basic

namespace Injector

set_option autoImplicit false

/-- The declarations and the qualifiers that occur in keys. -/
structure Lettering where
  decls : List DeclName
  qualifiers : List AnnotationUse := []

/-- The characters that put types and qualifiers together. -/
def Lettering.marks : List Char := ['<', '>', ',', '?', '(', ')', ' ', '@']

/-- Some text without marks. -/
def Lettering.isWord (s : String) : Bool :=
  !s.isEmpty && s.toList.all fun c => !marks.contains c

/-- Different declarations and qualifiers have different texts, which can be read. -/
structure Lettering.Legible (l : Lettering) : Prop where
  word : ∀ d ∈ l.decls, isWord d.shortText = true
  apart : ∀ d ∈ l.decls, ∀ e ∈ l.decls, d.shortText = e.shortText → d = e
  name : ∀ q ∈ l.qualifiers, isWord q.name = true
  args : ∀ q ∈ l.qualifiers, ∀ arg ∈ q.args, ',' ∉ arg.toList ∧ ')' ∉ arg.toList
  package : ∀ q ∈ l.qualifiers, ∀ r ∈ l.qualifiers, q.name = r.name → q.package = r.package

/-- A word is not empty and has no marks in it. -/
theorem Lettering.plain_of_isWord {s : String} (word : Lettering.isWord s = true) :
    s.toList ≠ [] ∧ ∀ c ∈ s.toList, Lettering.marks.contains c = false := by
  simp only [Lettering.isWord, Bool.and_eq_true, Bool.not_eq_true', List.all_eq_true] at word
  refine ⟨fun none => ?_, word.2⟩
  have : s = "" := String.toList_injective none
  simp [this] at word

namespace Ty

variable (l : Lettering)

mutual

/-- The type is made of declarations in use and of function types that do not admit null,
without aliases and without qualifiers. -/
def isSpelled : Ty → Bool
  | ⟨k, p, n, as, u, q, o⟩ =>
    q.isNone && o.isNone && areSpelled as &&
      match k with
      | .declared => l.decls.contains ⟨p, n⟩
      | .function =>
        !u && p == DeclName.functionPackage && n == "Function" ++ toString (as.length - 1) &&
          !as.isEmpty
      | .typeVar | .unresolved => false

def areSpelled : List Ty → Bool
  | [] => true
  | t :: rest => isSpelled t && areSpelled rest

end

variable {l}

theorem areSpelled_iff {ts : List Ty} :
    areSpelled l ts = true ↔ ∀ t ∈ ts, t.isSpelled l = true := by
  induction ts with
  | nil => simp [areSpelled]
  | cons t rest ih => simp [areSpelled, ih]

/-- The use of a declaration. -/
def applied (d : DeclName) (args : List Ty) (nullable : Bool) : Ty :=
  { package := d.package, name := d.name, args, nullable }

/-- What is spelled is the use of a declaration or a function type. -/
theorem cases_of_isSpelled {t : Ty} (spelled : t.isSpelled l = true) :
    (∃ d ∈ l.decls, ∃ args nullable, t = applied d args nullable ∧
        ∀ arg ∈ args, arg.isSpelled l = true) ∨
      ∃ params result, t = function params result ∧
        (∀ param ∈ params, param.isSpelled l = true) ∧ result.isSpelled l = true := by
  obtain ⟨k, p, n, as, u, q, o⟩ := t
  simp only [isSpelled, Bool.and_eq_true, Option.isNone_iff_eq_none, areSpelled_iff] at spelled
  obtain ⟨⟨⟨rfl, rfl⟩, args⟩, head⟩ := spelled
  cases k with
  | declared => exact .inl ⟨⟨p, n⟩, by simpa using head, as, u, rfl, args⟩
  | function =>
      simp only [Bool.and_eq_true, Bool.not_eq_true', beq_iff_eq, List.isEmpty_eq_false_iff] at head
      obtain ⟨⟨⟨rfl, rfl⟩, rfl⟩, some_⟩ := head
      obtain ⟨params, result, rfl⟩ := as.eq_nil_or_concat.resolve_left some_
      refine .inr ⟨params, result, by simp [function], fun t mem => args t (by simp [mem]), ?_⟩
      exact args result (by simp)
  | typeVar | unresolved => cases head

/-! ## Parts of texts -/

/-- The texts of types with commas in between. -/
def joined (ts : List Ty) : List Char := [',', ' '].intercalate (ts.map fun t => t.text.toList)

theorem textAll_eq_map (ts : List Ty) : textAll ts = ts.map text := by
  induction ts with
  | nil => rfl
  | cons t rest ih => rw [textAll, ih, List.map_cons]

theorem text_applied (d : DeclName) (args : List Ty) (nullable : Bool) :
    (applied d args nullable).text.toList = d.shortText.toList ++
      ((if args = [] then [] else '<' :: joined args ++ ['>']) ++
        if nullable then ['?'] else []) := by
  have declared : (TyKind.declared == TyKind.function) = false := rfl
  cases nullable <;> cases args <;>
    simp [applied, text, textAll_eq_map, declared, appliedText, joined, String.toList_intercalate,
      Function.comp_def]

theorem text_function (params : List Ty) (result : Ty) :
    (function params result).text.toList =
      '(' :: (joined params ++ ')' :: ' ' :: '-' :: '>' :: ' ' :: result.text.toList) := by
  simp [function, text, textAll_eq_map, arrowText, joined, String.toList_intercalate,
    Function.comp_def]

/-- Where two texts go on with characters that stop them, the parts before are the same. -/
theorem eq_of_append_eq (stop : Char → Bool) {w w' r q : List Char}
    (plain : ∀ c ∈ w, stop c = false) (plain' : ∀ c ∈ w', stop c = false)
    (stops : ∀ c ∈ r.head?, stop c = true) (stops' : ∀ c ∈ q.head?, stop c = true)
    (same : w ++ r = w' ++ q) : w = w' ∧ r = q := by
  induction w generalizing w' with
  | nil =>
      cases w' with
      | nil => exact ⟨rfl, same⟩
      | cons c w' =>
          rw [List.nil_append] at same
          have := stops c (by simp [same])
          simp [plain' c List.mem_cons_self] at this
  | cons c w ih =>
      cases w' with
      | nil =>
          rw [List.nil_append] at same
          have := stops' c (by simp [← same])
          simp [plain c List.mem_cons_self] at this
      | cons d w' =>
          obtain ⟨rfl, tails⟩ := List.cons.inj same
          obtain ⟨rfl, rfl⟩ := ih (fun c mem => plain c (List.mem_cons_of_mem _ mem))
            (fun c mem => plain' c (List.mem_cons_of_mem _ mem)) tails
          exact ⟨rfl, rfl⟩

/-! ## Reading -/

/-- What may stand behind a type. -/
def IsStop (rest : List Char) : Prop := ∀ c ∈ rest.head?, c = ',' ∨ c = '>' ∨ c = ')'

theorem isStop_cons {c : Char} (rest : List Char) (stop : c = ',' ∨ c = '>' ∨ c = ')') :
    IsStop (c :: rest) := by
  intro d mem
  obtain rfl : c = d := by simpa using mem
  exact stop

variable (l) in
/-- In front of a stop the type can be told from its text. -/
def Reads (t : Ty) : Prop :=
  ∀ (t' : Ty) (r r' : List Char), t'.isSpelled l = true → IsStop r → IsStop r' →
    t.text.toList ++ r = t'.text.toList ++ r' → t = t' ∧ r = r'

section Legible

variable (legible : l.Legible)

include legible

/-- The text of a type begins with a round bracket or with a letter. -/
theorem head_text {t : Ty} (spelled : t.isSpelled l = true) :
    ∃ c rest, t.text.toList = c :: rest ∧ (c = '(' ∨ Lettering.marks.contains c = false) := by
  rcases cases_of_isSpelled spelled with ⟨d, mem, args, u, rfl, -⟩ | ⟨params, result, rfl, -, -⟩
  · obtain ⟨some_, plain⟩ := Lettering.plain_of_isWord (legible.word d mem)
    obtain ⟨c, rest, word⟩ := List.exists_cons_of_ne_nil some_
    rw [text_applied, word]
    exact ⟨c, _, rfl, .inr (plain c (by simp [word]))⟩
  · rw [text_function]
    exact ⟨_, _, rfl, .inl rfl⟩

/-- No type begins where a bracket closes. -/
theorem not_closing {t : Ty} (spelled : t.isSpelled l = true) {close : Char}
    (closes : close = '>' ∨ close = ')') (r r' : List Char) :
    close :: r ≠ t.text.toList ++ r' := by
  obtain ⟨c, rest, text, head⟩ := head_text legible spelled
  intro same
  rw [text] at same
  obtain ⟨rfl, -⟩ := List.cons.inj same
  rcases closes with rfl | rfl <;> rcases head with head | head <;> revert head <;> decide

/-- Types with commas in between, up to a bracket that closes. -/
theorem reads_joined {ts : List Ty} (reads : ∀ t ∈ ts, t.Reads l)
    (mine : ∀ t ∈ ts, t.isSpelled l = true) {ts' : List Ty}
    (theirs : ∀ t ∈ ts', t.isSpelled l = true) {close : Char} (closes : close = '>' ∨ close = ')')
    {r r' : List Char} (same : joined ts ++ close :: r = joined ts' ++ close :: r') :
    ts = ts' ∧ r = r' := by
  have closing (r : List Char) : IsStop (close :: r) := isStop_cons r (.inr closes)
  have going (r : List Char) : IsStop (',' :: r) := isStop_cons r (.inl rfl)
  have other : close ≠ ',' := by rcases closes with rfl | rfl <;> decide
  induction ts generalizing ts' with
  | nil =>
      cases ts' with
      | nil => exact ⟨rfl, (List.cons.inj same).2⟩
      | cons t' rest' =>
          have spelled := theirs t' List.mem_cons_self
          cases rest' <;>
            simp only [joined, List.map_cons, List.map_nil, List.intercalate_singleton,
              List.intercalate_nil, List.intercalate_cons_cons, List.append_assoc,
              List.nil_append] at same <;>
            exact absurd same (not_closing legible spelled closes _ _)
  | cons t rest ih =>
      have spelled := mine t List.mem_cons_self
      cases ts' with
      | nil =>
          cases rest <;>
            simp only [joined, List.map_cons, List.map_nil, List.intercalate_singleton,
              List.intercalate_nil, List.intercalate_cons_cons, List.append_assoc,
              List.nil_append] at same <;>
            exact absurd same.symm (not_closing legible spelled closes _ _)
      | cons t' rest' =>
          have first := fun r r' =>
            reads t List.mem_cons_self t' r r' (theirs t' List.mem_cons_self)
          cases rest <;> cases rest' <;>
            simp only [joined, List.map_cons, List.map_nil, List.intercalate_singleton,
              List.intercalate_cons_cons, List.append_assoc] at same
          · obtain ⟨rfl, tails⟩ := first _ _ (closing r) (closing r') same
            exact ⟨rfl, (List.cons.inj tails).2⟩
          · exact absurd (List.cons.inj (first _ _ (closing r) (going _) same).2).1 other
          · exact absurd (List.cons.inj (first _ _ (going _) (closing r') same).2).1 (Ne.symm other)
          · obtain ⟨rfl, tails⟩ := first _ _ (going _) (going _) same
            obtain ⟨others, ends⟩ := ih (fun t mem => reads t (List.mem_cons_of_mem _ mem))
              (fun t mem => mine t (List.mem_cons_of_mem _ mem))
              (fun t mem => theirs t (List.mem_cons_of_mem _ mem)) (by simpa [joined] using tails)
            exact ⟨by rw [others], ends⟩

/-- The use of a declaration is not taken for a function type. -/
theorem applied_ne_function {d : DeclName} (mem : d ∈ l.decls) (args : List Ty) (nullable : Bool)
    (params : List Ty) (result : Ty) (r r' : List Char) :
    (applied d args nullable).text.toList ++ r ≠ (function params result).text.toList ++ r' := by
  obtain ⟨some_, plain⟩ := Lettering.plain_of_isWord (legible.word d mem)
  obtain ⟨c, rest, word⟩ := List.exists_cons_of_ne_nil some_
  intro same
  rw [text_applied, text_function, word] at same
  obtain ⟨rfl, -⟩ := List.cons.inj same
  have := plain '(' (by simp [word])
  simp [Lettering.marks] at this

omit legible in
/-- The question mark behind a type is told from what may stand there. -/
theorem reads_nullable {u u' : Bool} {r r' : List Char} (stop : IsStop r) (stop' : IsStop r')
    (same : (if u then ['?'] else []) ++ r = (if u' then ['?'] else []) ++ r') :
    u = u' ∧ r = r' := by
  have mark (rest : List Char) : ¬IsStop ('?' :: rest) := fun stop => by simpa using stop '?' rfl
  cases u <;> cases u'
  · exact ⟨rfl, same⟩
  · obtain rfl : r = '?' :: r' := same
    exact absurd stop (mark r')
  · obtain rfl : '?' :: r = r' := same
    exact absurd stop' (mark r)
  · exact ⟨rfl, (List.cons.inj same).2⟩

theorem reads_applied {d : DeclName} (mem : d ∈ l.decls) {args : List Ty} {u : Bool}
    (reads : ∀ t ∈ args, t.Reads l) (spelled : ∀ t ∈ args, t.isSpelled l = true) :
    (applied d args u).Reads l := by
  intro t' r r' spelled' stop stop' same
  rcases cases_of_isSpelled spelled' with ⟨d', mem', args', u', rfl, theirs⟩ | ⟨_, _, rfl, -, -⟩
  · -- what stands behind the name of a declaration
    have behind (args : List Ty) (u : Bool) {r : List Char} (stop : IsStop r) :
        ∀ c ∈ ((if args = [] then [] else '<' :: joined args ++ ['>']) ++
            ((if u then ['?'] else []) ++ r)).head?, Lettering.marks.contains c = true := by
      intro c mem
      cases args with
      | cons t rest =>
          obtain rfl : '<' = c := by simpa using mem
          rfl
      | nil =>
          cases u with
          | true =>
              obtain rfl : '?' = c := by simpa using mem
              rfl
          | false => rcases stop c (by simpa using mem) with rfl | rfl | rfl <;> rfl
    simp only [text_applied, List.append_assoc] at same
    obtain ⟨names, tails⟩ := eq_of_append_eq Lettering.marks.contains
      (Lettering.plain_of_isWord (legible.word d mem)).2
      (Lettering.plain_of_isWord (legible.word d' mem')).2 (behind args u stop)
      (behind args' u' stop') same
    obtain rfl := legible.apart d mem d' mem' (String.toList_injective names)
    have begins (u : Bool) {r : List Char} (stop : IsStop r) (rest : List Char) :
        '<' :: rest ≠ (if u then ['?'] else []) ++ r := by
      intro same
      cases u with
      | true => exact absurd (List.cons.inj same).1 (by decide)
      | false =>
          obtain rfl : '<' :: rest = r := same
          simpa using stop '<' rfl
    cases args <;> cases args'
    · obtain ⟨rfl, rfl⟩ := reads_nullable stop stop' tails
      exact ⟨rfl, rfl⟩
    · exact absurd tails.symm (begins u stop _)
    · exact absurd tails (begins u' stop' _)
    · simp only [reduceCtorEq, if_false, List.cons_append, List.append_assoc,
        List.nil_append] at tails
      obtain ⟨arguments, ends⟩ := reads_joined legible reads spelled theirs (.inl rfl)
        (List.cons.inj tails).2
      obtain ⟨rfl, rfl⟩ := reads_nullable stop stop' ends
      exact ⟨by rw [arguments], rfl⟩
  · exact absurd same (applied_ne_function legible mem args u _ _ r r')

theorem reads_function {params : List Ty} {result : Ty} (reads : ∀ t ∈ params, t.Reads l)
    (spelled : ∀ t ∈ params, t.isSpelled l = true) (last : result.Reads l) :
    (function params result).Reads l := by
  intro t' r r' spelled' stop stop' same
  rcases cases_of_isSpelled spelled' with ⟨d, mem, _, _, rfl, -⟩ |
    ⟨params', result', rfl, theirs, ends⟩
  · exact absurd same.symm (applied_ne_function legible mem _ _ params result r' r)
  · simp only [text_function, List.cons_append, List.append_assoc, List.cons.injEq,
      true_and] at same
    obtain ⟨rfl, tails⟩ := reads_joined legible reads spelled theirs (.inr rfl) same
    simp only [List.cons.injEq, true_and] at tails
    obtain ⟨rfl, rfl⟩ := last result' r r' ends stop stop' tails
    exact ⟨rfl, rfl⟩

/-- Every type that is spelled can be told from its text. -/
theorem reads (t : Ty) (spelled : t.isSpelled l = true) : t.Reads l := by
  obtain ⟨n, bound⟩ : ∃ n, t.height ≤ n := ⟨_, Nat.le_refl _⟩
  induction n generalizing t with
  | zero => exact absurd (height_pos t) (by omega)
  | succ n ih =>
      have part {s : Ty} (mem : s ∈ t.args) (inner : s.isSpelled l = true) : s.Reads l := by
        have lower := height_lt_of_mem_args mem
        exact ih s inner (by omega)
      rcases cases_of_isSpelled spelled with ⟨d, mem, args, u, rfl, inner⟩ |
        ⟨params, result, rfl, inner, last⟩
      · exact reads_applied legible mem (fun s mem => part mem (inner s mem)) inner
      · refine reads_function legible (fun s mem => part ?_ (inner s mem)) inner (part ?_ last)
        · exact List.mem_append_left _ mem
        · exact List.mem_append_right _ (List.mem_singleton_self _)

/-- Different types have different texts. -/
theorem text_injective {t t' : Ty} (spelled : t.isSpelled l = true)
    (spelled' : t'.isSpelled l = true) (same : t.text = t'.text) : t = t' := by
  have empty : IsStop [] := by simp [IsStop]
  exact (reads legible t spelled t' [] [] spelled' empty empty (by rw [same])).1

end Legible

end Ty

/-! ## Keys -/

/-- The type is spelled and the qualifier is in use. -/
def Key.isSpelled (l : Lettering) (k : Key) : Bool :=
  k.ty.isSpelled l && k.qualifier.all fun q => l.qualifiers.contains q

/-- What stands behind the at sign and the name of a qualifier. -/
def AnnotationUse.bracket (a : AnnotationUse) : List Char :=
  if a.args = [] then []
  else '(' :: ([',', ' '].intercalate (a.args.map String.toList) ++ [')'])

theorem AnnotationUse.text_eq (a : AnnotationUse) :
    a.text.toList = '@' :: (a.name.toList ++ a.bracket) := by
  obtain ⟨package, name, args⟩ := a
  cases args <;> simp [text, bracket, String.toList_intercalate]

/-- Arguments without commas and brackets, up to the bracket that closes. -/
theorem AnnotationUse.eq_of_arguments {as as' : List String} (some_ : as ≠ []) (some_' : as' ≠ [])
    (plain : ∀ arg ∈ as, ',' ∉ arg.toList ∧ ')' ∉ arg.toList)
    (plain' : ∀ arg ∈ as', ',' ∉ arg.toList ∧ ')' ∉ arg.toList) {r r' : List Char}
    (same : [',', ' '].intercalate (as.map String.toList) ++ ')' :: r =
      [',', ' '].intercalate (as'.map String.toList) ++ ')' :: r') : as = as' ∧ r = r' := by
  have quiet (arg : String) (plain : ',' ∉ arg.toList ∧ ')' ∉ arg.toList) :
      ∀ c ∈ arg.toList, (c == ',' || c == ')') = false := by
    intro c mem
    by_contra stop
    rw [Bool.not_eq_false, Bool.or_eq_true, beq_iff_eq, beq_iff_eq] at stop
    rcases stop with rfl | rfl
    · exact plain.1 mem
    · exact plain.2 mem
  induction as generalizing as' with
  | nil => exact absurd rfl some_
  | cons arg rest ih =>
      obtain ⟨arg', rest', rfl⟩ := List.exists_cons_of_ne_nil some_'
      have first := fun r r' => Ty.eq_of_append_eq (fun c => c == ',' || c == ')')
        (r := r) (q := r') (quiet arg (plain arg List.mem_cons_self))
        (quiet arg' (plain' arg' List.mem_cons_self))
      cases rest <;> cases rest' <;>
        simp only [List.map_cons, List.map_nil, List.intercalate_singleton,
          List.intercalate_cons_cons, List.append_assoc, List.cons_append, List.nil_append] at same
      · obtain ⟨names, tails⟩ := first _ _ (by simp) (by simp) same
        exact ⟨by rw [String.toList_injective names], (List.cons.inj tails).2⟩
      · have tails := (first _ _ (by simp) (by simp) same).2
        exact absurd (List.cons.inj tails).1 (by decide)
      · have tails := (first _ _ (by simp) (by simp) same).2
        exact absurd (List.cons.inj tails).1 (by decide)
      · obtain ⟨names, tails⟩ := first _ _ (by simp) (by simp) same
        obtain ⟨others, ends⟩ := ih (by simp) (by simp)
          (fun a mem => plain a (List.mem_cons_of_mem _ mem))
          (fun a mem => plain' a (List.mem_cons_of_mem _ mem))
          (by simpa using tails)
        exact ⟨by rw [String.toList_injective names, others], ends⟩

section Legible

variable {l : Lettering} (legible : l.Legible)

include legible

/-- A qualifier in front of a space can be told. -/
theorem AnnotationUse.eq_of_text {q q' : AnnotationUse} (mem : q ∈ l.qualifiers)
    (mem' : q' ∈ l.qualifiers) {r r' : List Char}
    (same : q.text.toList ++ ' ' :: r = q'.text.toList ++ ' ' :: r') : q = q' ∧ r = r' := by
  have behind (q : AnnotationUse) (r : List Char) :
      ∀ c ∈ (q.bracket ++ ' ' :: r).head?, Lettering.marks.contains c = true := by
    intro c mem
    by_cases none : q.args = []
    · obtain rfl : ' ' = c := by simpa [bracket, none] using mem
      rfl
    · obtain rfl : '(' = c := by simpa [bracket, none] using mem
      rfl
  simp only [text_eq, List.cons_append, List.append_assoc, List.cons.injEq, true_and] at same
  obtain ⟨names, tails⟩ := Ty.eq_of_append_eq Lettering.marks.contains
    (Lettering.plain_of_isWord (legible.name q mem)).2
    (Lettering.plain_of_isWord (legible.name q' mem')).2 (behind q r) (behind q' r') same
  have name : q.name = q'.name := String.toList_injective names
  have package := legible.package q mem q' mem' name
  obtain ⟨args, ends⟩ : q.args = q'.args ∧ r = r' := by
    by_cases none : q.args = [] <;> by_cases none' : q'.args = []
    · simp only [bracket, none, none', if_true, List.nil_append, List.cons.injEq, true_and] at tails
      exact ⟨by rw [none, none'], tails⟩
    · simp [bracket, none, none'] at tails
    · simp [bracket, none, none'] at tails
    · simp only [bracket, none, none', if_false, List.cons_append, List.append_assoc,
        List.nil_append, List.cons.injEq, true_and] at tails
      obtain ⟨args, ends⟩ :=
        eq_of_arguments none none' (legible.args q mem) (legible.args q' mem') tails
      exact ⟨args, (List.cons.inj ends).2⟩
  obtain ⟨_, _, _⟩ := q
  obtain ⟨_, _, _⟩ := q'
  cases package
  cases name
  cases args
  exact ⟨rfl, ends⟩

/-- The text of a type is not taken for one under a qualifier. -/
theorem Ty.text_ne_qualified {t : Ty} (spelled : t.isSpelled l = true) (q : AnnotationUse)
    (r : List Char) : t.text.toList ≠ q.text.toList ++ r := by
  obtain ⟨c, rest, text, head⟩ := Ty.head_text legible spelled
  intro same
  rw [text, AnnotationUse.text_eq] at same
  obtain ⟨rfl, -⟩ := List.cons.inj same
  revert head
  decide

/-- Different keys have different texts. -/
theorem Key.text_injective {k k' : Key} (spelled : k.isSpelled l = true)
    (spelled' : k'.isSpelled l = true) (same : k.text = k'.text) : k = k' := by
  obtain ⟨t, q⟩ := k
  obtain ⟨t', q'⟩ := k'
  simp only [isSpelled, Bool.and_eq_true] at spelled spelled'
  have chars : (Key.mk t q).text.toList = (Key.mk t' q').text.toList := by rw [same]
  have qualified (q : AnnotationUse) (t : Ty) :
      (Key.mk t (some q)).text.toList = q.text.toList ++ ' ' :: t.text.toList := by
    simp [text]
  cases q with
  | none =>
      cases q' with
      | none => rw [Ty.text_injective legible spelled.1 spelled'.1 same]
      | some q' =>
          rw [qualified] at chars
          exact absurd chars (Ty.text_ne_qualified legible spelled.1 q' _)
  | some q =>
      cases q' with
      | none =>
          rw [qualified] at chars
          exact absurd chars.symm (Ty.text_ne_qualified legible spelled'.1 q _)
      | some q' =>
          rw [qualified, qualified] at chars
          obtain ⟨rfl, texts⟩ := AnnotationUse.eq_of_text legible (by simpa using spelled.2)
            (by simpa using spelled'.2) chars
          rw [Ty.text_injective legible spelled.1 spelled'.1 (String.toList_injective texts)]

end Legible

end Injector
