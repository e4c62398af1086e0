/-
# Injector.Proofs.Json.ReadingBack -- what is written is read back

Types and declarations cross to the host as JSON values and come back as such.
`ReadsBack` says that a decoder gives back whatever its encoder wrote.  It holds of
texts, flags and names, it is kept by lists and by what may be `null`, and so it
holds of one record after the other.

A type is nested in itself, and its decoder goes down to the depth of the value it is
given.  The induction is therefore on the type, for every depth that suffices.
-/
import Injector.Json.Declarations

namespace Injector

set_option autoImplicit false

namespace Json

/-- The decoder gives back what the encoder wrote. -/
def ReadsBack {α : Type} (encode : α → Json) (decode : Json → Option α) : Prop :=
  ∀ a, decode (encode a) = some a

/-! ## Values -/

theorem readsBack_str : ReadsBack str str? := fun _ => rfl

theorem readsBack_bool : ReadsBack bool bool? := fun _ => rfl

theorem natBelow?_nat {bound n : Nat} (below : n < bound) :
    natBelow? bound (nat n) = some n := by
  have fits : 0 ≤ (n : Int) ∧ (n : Int) < bound := ⟨by omega, by omega⟩
  simp only [natBelow?, nat, if_pos fits, Int.toNat_natCast]

theorem mapM_map_of_readsBack {α : Type} {encode : α → Json} {decode : Json → Option α}
    (back : ReadsBack encode decode) (items : List α) :
    (items.map encode).mapM decode = some items := by
  induction items with
  | nil => rfl
  | cons item rest ih => simp [back item, ih]

theorem ReadsBack.list {α : Type} {encode : α → Json} {decode : Json → Option α}
    (back : ReadsBack encode decode) : ReadsBack (Json.list encode) (list? decode) :=
  mapM_map_of_readsBack back

theorem nullable_of_ne_null {α : Type} (decode : Json → Option α) {j : Json} (ne : j ≠ null) :
    nullable decode j = (decode j).map some := by
  cases j with
  | null => exact absurd rfl ne
  | _ => rfl

/-- What is never written as `null` may be absent. -/
theorem ReadsBack.option {α : Type} {encode : α → Json} {decode : Json → Option α}
    (back : ReadsBack encode decode) (full : ∀ a, encode a ≠ null) :
    ReadsBack (Json.option encode) (nullable decode)
  | none => rfl
  | some a => by
    show nullable decode (encode a) = some (some a)
    rw [nullable_of_ne_null decode (full a), back a, Option.map_some]

theorem lookup_of_mem {α : Type} {names : List (String × α)}
    (distinct : (names.map Prod.fst).Nodup) {name : String} {a : α} (mem : (name, a) ∈ names) :
    names.lookup name = some a := by
  obtain ⟨before, after, rfl⟩ := List.append_of_mem mem
  rw [List.map_append, List.map_cons, List.nodup_append] at distinct
  refine List.lookup_eq_some_iff.mpr ⟨before, after, rfl, fun row earlier => ?_⟩
  have apart : row.1 ≠ name :=
    distinct.2.2 row.1 (List.mem_map_of_mem earlier) name List.mem_cons_self
  exact bne_iff_ne.mpr apart.symm

/-- Names that are all different, with every value among them, can be read back. -/
theorem readsBack_nameOf {α : Type} [DecidableEq α] {names : List (String × α)}
    (distinct : (names.map Prod.fst).Nodup) (named : ∀ a, ∃ name, (name, a) ∈ names) :
    ReadsBack (nameOf names) (oneOf? names) := by
  intro a
  obtain ⟨name, mem⟩ := named a
  rw [nameOf]
  split
  case h_1 written b found =>
    have met := List.find?_some found
    obtain rfl : b = a := of_decide_eq_true met
    exact lookup_of_mem distinct (List.mem_of_find?_eq_some found)
  case h_2 missing =>
    exact absurd (decide_eq_true rfl) (List.find?_eq_none.mp missing (name, a) mem)

/-! ## Fields

A decoder of records goes on with one field after the other. -/

section
variable {α β : Type} {encode : α → Json} {decode : Json → Option α}
variable {fields : List (String × Json)} {name : String}

theorem bind_field? {j : Json} {a : α} (written : lookup name fields = some j)
    (back : decode j = some a) : ((obj fields).field? name).bind decode = some a := by
  rw [field?, written, Option.bind_some, back]

theorem bind_record? (names : List String) (rest : List (String × Json) → Option β) :
    (record? names (obj fields) >>= rest) = rest fields := rfl

theorem bind_required {j : Json} {a : α} {rest : α → Option β}
    (written : lookup name fields = some j) (back : decode j = some a) :
    (required fields name decode >>= rest) = rest a := by
  rw [required, written, Option.bind_some, back, Option.bind_eq_bind, Option.bind_some]

theorem bind_absentOr {j : Json} {a : Option α} {rest : Option α → Option β}
    (written : lookup name fields = some j) (back : nullable decode j = some a) :
    (absentOr fields name decode >>= rest) = rest a := by
  simp only [absentOr, written]
  rw [back, Option.bind_eq_bind, Option.bind_some]

theorem ReadsBack.required (back : ReadsBack encode decode) {a : α} {rest : α → Option β}
    (written : lookup name fields = some (encode a)) :
    (required fields name decode >>= rest) = rest a :=
  bind_required written (back a)

theorem ReadsBack.absentOr (back : ReadsBack encode decode) (full : ∀ a, encode a ≠ null)
    {a : Option α} {rest : Option α → Option β}
    (written : lookup name fields = some (Json.option encode a)) :
    (absentOr fields name decode >>= rest) = rest a :=
  bind_absentOr written (back.option full a)

end

end Json

open Json (ReadsBack natBelow?)

/-! ## Kinds and identities -/

theorem TyKind.readsBack : ReadsBack TyKind.toJson TyKind.ofJson? :=
  Json.readsBack_nameOf (by decide) fun k => by cases k <;> simp [TyKind.names]

theorem Visibility.readsBack : ReadsBack Visibility.toJson Visibility.ofJson? :=
  Json.readsBack_nameOf (by decide) fun v => by cases v <;> simp [Visibility.names]

theorem ClassKind.readsBack : ReadsBack ClassKind.toJson ClassKind.ofJson? :=
  Json.readsBack_nameOf (by decide) fun k => by cases k <;> simp [ClassKind.names]

theorem MemberKind.readsBack : ReadsBack MemberKind.toJson MemberKind.ofJson? :=
  Json.readsBack_nameOf (by decide) fun k => by cases k <;> simp [MemberKind.names]

theorem ClassId.readsBack : ReadsBack ClassId.toJson ClassId.ofJson? := by
  rintro ⟨index⟩
  have below : index.toNat < UInt32.size := index.toNat_lt_size
  rw [ClassId.ofJson?, ClassId.toJson, ClassId.toNat, Json.natBelow?_nat below, Option.map_some,
    UInt32.ofNat_toNat]

theorem MemberId.readsBack : ReadsBack MemberId.toJson MemberId.ofJson? := by
  rintro ⟨index⟩
  have below : index.toNat < UInt32.size := index.toNat_lt_size
  rw [MemberId.ofJson?, MemberId.toJson, MemberId.toNat, Json.natBelow?_nat below,
    Option.map_some, UInt32.ofNat_toNat]

theorem ClassId.toJson_ne_null (id : ClassId) : id.toJson ≠ .null := nofun

theorem Element.readsBack : ReadsBack Element.toJson Element.ofJson?
  | .cls id => by simp [toJson, ofJson?, ClassId.readsBack id]
  | .member id => by simp [toJson, ofJson?, MemberId.readsBack id]
  | .ctor owner index => by
    have position : natBelow? UInt64.size (.nat index.toNat) = some index.toNat :=
      Json.natBelow?_nat index.toNat_lt
    rw [toJson, ofJson?, if_neg (by decide), if_neg (by decide), if_pos rfl,
      Json.bind_field? rfl (ClassId.readsBack owner), Json.bind_field? rfl position]
    exact congrArg (fun n => some (Element.ctor owner n)) UInt64.ofNat_toNat

/-! ## Annotations and types -/

theorem AnnotationUse.readsBack : ReadsBack AnnotationUse.toJson AnnotationUse.ofJson? := by
  intro a
  rw [toJson, ofJson?, Json.bind_record?, Json.readsBack_str.required rfl,
    Json.readsBack_str.required rfl, Json.readsBack_str.list.required rfl]
  rfl

theorem AnnotationUse.toJson_ne_null (a : AnnotationUse) : a.toJson ≠ .null := nofun

namespace Ty

theorem toJson_ne_null (t : Ty) : t.toJson ≠ .null := by
  obtain ⟨k, p, n, as, u, q, o⟩ := t
  nofun

mutual

theorem ofJsonTo_toJson : ∀ (t : Ty) (depth : Nat),
    t.toJson.height ≤ depth → ofJsonTo depth t.toJson = some t
  | ⟨k, p, n, as, u, q, o⟩, 0, enough => by
    simp [toJson, Json.height] at enough
  | ⟨k, p, n, as, u, q, o⟩, depth + 1, enough => by
    simp only [toJson, Json.height, Json.heightFields] at enough
    have args := mapM_toJsonAll as depth (by omega)
    have target := nullable_toJsonTarget o depth (by omega)
    rw [toJson, ofJsonTo, Json.bind_record?, TyKind.readsBack.required rfl,
      Json.readsBack_str.required rfl, Json.readsBack_str.required rfl,
      Json.bind_required rfl args, Json.readsBack_bool.required rfl,
      AnnotationUse.readsBack.absentOr AnnotationUse.toJson_ne_null rfl,
      Json.bind_absentOr rfl target]
    rfl

theorem mapM_toJsonAll : ∀ (ts : List Ty) (depth : Nat),
    Json.heightItems (toJsonAll ts) ≤ depth → (toJsonAll ts).mapM (ofJsonTo depth) = some ts
  | [], _, _ => rfl
  | t :: rest, depth, enough => by
    rw [toJsonAll, Json.heightItems] at enough
    have first := ofJsonTo_toJson t depth (by omega)
    have others := mapM_toJsonAll rest depth (by omega)
    simp [toJsonAll, first, others]

theorem nullable_toJsonTarget : ∀ (o : Option Ty) (depth : Nat),
    (toJsonTarget o).height ≤ depth → Json.nullable (ofJsonTo depth) (toJsonTarget o) = some o
  | none, _, _ => rfl
  | some t, depth, enough => by
    have back := ofJsonTo_toJson t depth enough
    rw [toJsonTarget, Json.nullable_of_ne_null _ t.toJson_ne_null, back, Option.map_some]

end

theorem readsBack : ReadsBack toJson ofJson? := fun t => ofJsonTo_toJson t _ (Nat.le_refl _)

end Ty

theorem Key.readsBack : ReadsBack Key.toJson Key.ofJson? := by
  intro k
  rw [toJson, ofJson?, Json.bind_record?, Ty.readsBack.required rfl,
    AnnotationUse.readsBack.absentOr AnnotationUse.toJson_ne_null rfl]
  rfl

theorem FieldPath.readsBack : ReadsBack FieldPath.toJson FieldPath.ofJson? := by
  intro p
  rw [ofJson?, toJson, Json.readsBack_str.list p.fields, Option.map_some]

/-! ## Declarations and options -/

theorem TypeVarDecl.readsBack : ReadsBack TypeVarDecl.toJson TypeVarDecl.ofJson? := by
  intro v
  rw [toJson, ofJson?, Json.bind_record?, Json.readsBack_str.required rfl,
    Ty.readsBack.list.required rfl]
  rfl

theorem ParamDecl.readsBack : ReadsBack ParamDecl.toJson ParamDecl.ofJson? := by
  intro p
  rw [toJson, ofJson?, Json.bind_record?, Json.readsBack_str.required rfl,
    Ty.readsBack.required rfl, AnnotationUse.readsBack.list.required rfl,
    Json.readsBack_bool.required rfl, Json.readsBack_bool.required rfl,
    Visibility.readsBack.required rfl]
  rfl

theorem CtorDecl.readsBack : ReadsBack CtorDecl.toJson CtorDecl.ofJson? := by
  intro c
  rw [toJson, ofJson?, Json.bind_record?, ParamDecl.readsBack.list.required rfl,
    AnnotationUse.readsBack.list.required rfl, Json.readsBack_bool.required rfl]
  rfl

theorem ClassDecl.readsBack : ReadsBack ClassDecl.toJson ClassDecl.ofJson? := by
  intro c
  rw [toJson, ofJson?, Json.bind_record?, Json.readsBack_str.required rfl,
    Json.readsBack_str.required rfl, ClassKind.readsBack.required rfl,
    Visibility.readsBack.required rfl, Json.readsBack_bool.required rfl,
    AnnotationUse.readsBack.list.required rfl, TypeVarDecl.readsBack.list.required rfl,
    Ty.readsBack.list.required rfl, CtorDecl.readsBack.list.required rfl,
    MemberId.readsBack.list.required rfl]
  rfl

theorem MemberDecl.readsBack : ReadsBack MemberDecl.toJson MemberDecl.ofJson? := by
  intro m
  rw [toJson, ofJson?, Json.bind_record?, ClassId.readsBack.absentOr ClassId.toJson_ne_null rfl,
    Json.readsBack_str.required rfl, Json.readsBack_str.required rfl,
    MemberKind.readsBack.required rfl, Visibility.readsBack.required rfl,
    Json.readsBack_bool.required rfl, Json.readsBack_bool.required rfl,
    AnnotationUse.readsBack.list.required rfl, Ty.readsBack.absentOr Ty.toJson_ne_null rfl,
    ParamDecl.readsBack.list.required rfl, Ty.readsBack.required rfl,
    TypeVarDecl.readsBack.list.required rfl]
  rfl

theorem Options.bind_flagOf? {α : Type} {fields : List (String × Json)} {name : String}
    {on : Bool} {rest : Bool → Option α} (written : Json.lookup name fields = some (.bool on)) :
    (flagOf? fields name >>= rest) = rest on := by
  simp only [flagOf?, written]
  rfl

theorem Options.readsBack : ReadsBack Options.toJson Options.ofJson? := by
  intro o
  simp only [toJson, ofJson?]
  rw [Option.bind_eq_bind, Option.bind_some, bind_flagOf? rfl, bind_flagOf? rfl]
  rfl

/-- Whatever of the program, of keys and paths, and of the options is written as JSON
reads back as it was. -/
theorem declarations_readsBack :
    ReadsBack Ty.toJson Ty.ofJson? ∧ ReadsBack Key.toJson Key.ofJson? ∧
      ReadsBack AnnotationUse.toJson AnnotationUse.ofJson? ∧
      ReadsBack TypeVarDecl.toJson TypeVarDecl.ofJson? ∧
      ReadsBack ParamDecl.toJson ParamDecl.ofJson? ∧ ReadsBack CtorDecl.toJson CtorDecl.ofJson? ∧
      ReadsBack ClassDecl.toJson ClassDecl.ofJson? ∧
      ReadsBack MemberDecl.toJson MemberDecl.ofJson? ∧
      ReadsBack Element.toJson Element.ofJson? ∧ ReadsBack FieldPath.toJson FieldPath.ofJson? ∧
      ReadsBack Options.toJson Options.ofJson? :=
  ⟨Ty.readsBack, Key.readsBack, AnnotationUse.readsBack, TypeVarDecl.readsBack,
    ParamDecl.readsBack, CtorDecl.readsBack, ClassDecl.readsBack, MemberDecl.readsBack,
    Element.readsBack, FieldPath.readsBack, Options.readsBack⟩

end Injector
