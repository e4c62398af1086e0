/-
# Injector.Proofs.Planner.Tokens -- which values share a cell

A value with a scope is kept in a cell, which is a place in a component and a token.  The
token is the text of the key that the value was asked for under, and texts leave out what
makes some keys different.  So the cells tell the keys apart exactly as far as the texts do
(`planned_cellsApart_iff`), in particular where keys can be read off their texts.

The last section shows two bindings of one component that share a cell.
-/
import Injector.Proofs.Planner.Deriving
import Injector.Proofs.Ty.Legibility

namespace Injector

set_option autoImplicit false

/-- Where a value is kept. -/
structure Cell where
  path : FieldPath
  token : String
  deriving DecidableEq

/-- The cell in which the plan keeps its value. -/
def Plan.cell? : Plan → Option Cell
  | .keep token path _ => some ⟨path, token⟩
  | _ => none

theorem Plan.eq_keep_of_cell? {p : Plan} {cell : Cell} (kept : p.cell? = some cell) :
    ∃ result, p = .keep cell.token cell.path result := by
  cases p with
  | keep token path result =>
      obtain rfl := Option.some.inj kept
      exact ⟨result, rfl⟩
  | _ => cases kept

namespace Forest

/-- The slot is below an entry, under the plans `above`. -/
def Below (f : Forest) (above : List Plan) (s : Slot) : Prop :=
  ∃ e ∈ f.entries, Arena.Path f.arena e.result above s

/-- The value for the slot is kept in the cell. -/
def Stores (f : Forest) (cell : Cell) (s : Slot) : Prop :=
  ∃ above p, f.Below above s ∧ f.arena.plan? s.id = some p ∧ p.cell? = some cell

/-- Values in one cell are values for one key. -/
def CellsApart (f : Forest) : Prop :=
  ∀ cell s t, f.Stores cell s → f.Stores cell t → s.key = t.key

end Forest

namespace Source

open Forest (Stores CellsApart)

variable {src : Source} {catalog : Catalog} {className : String} {log : Log} {cell : Cell}
  {s : Slot}

/-- What is planned is derived. -/
theorem planned_below {above : List Plan} {p : Plan}
    (below : (src.planned className catalog log).Below above s)
    (found : (src.planned className catalog log).arena.plan? s.id = some p)
    (plain : p.declared? = none) :
    ∃ site stack task,
      src.Derived catalog (src.planned className catalog log).arena site stack task s.id ∧
        task.key = s.key ∧ src.Placed catalog above task := by
  obtain ⟨e, mem, path⟩ := below
  exact (planned_rooted src catalog className log e mem).path path found plain

/-- A value is kept for a key that is requested and kept there, under the text of the key. -/
theorem Stores.requested (stores : (src.planned className catalog log).Stores cell s) :
    cell.token = s.key.text ∧ src.Requested catalog s.key ∧
      src.keeper? catalog s.key = some cell.path := by
  obtain ⟨above, p, below, found, kept⟩ := stores
  obtain ⟨result, rfl⟩ := Plan.eq_keep_of_cell? kept
  obtain ⟨site, stack, task, derived, same, -⟩ := planned_below below found rfl
  obtain ⟨key, token, keeper, _, _, _, posed, -, -⟩ := derived.kept found
  rw [← same, key]
  exact ⟨token, posed.requested, keeper⟩

/-- Cells tell keys apart if the texts of the keys do that are kept in one place. -/
theorem cellsApart_of_texts
    (apart : ∀ key other path, src.Requested catalog key → src.Requested catalog other →
      src.keeper? catalog key = some path → src.keeper? catalog other = some path →
      key.text = other.text → key = other) :
    (src.planned className catalog log).CellsApart := by
  intro cell s t first second
  obtain ⟨token, requested, keeper⟩ := Stores.requested first
  obtain ⟨token', requested', keeper'⟩ := Stores.requested second
  exact apart _ _ _ requested requested' keeper keeper' (token.symm.trans token')

end Source

open Source

/-- The values in each cell are values for one key exactly if no two keys with values in one
place have the same text; so they are if the keys that are kept can be read off their texts. -/
theorem planned_cellsApart_iff (src : Source) (className : String) (catalog : Catalog)
    (log : Log) :
    ((src.planned className catalog log).CellsApart ↔
      ∀ cell other s t, (src.planned className catalog log).Stores cell s →
        (src.planned className catalog log).Stores other t → cell.path = other.path →
        s.key.text = t.key.text → s.key = t.key) ∧
      ∀ l : Lettering, l.Legible →
        (∀ key, src.Requested catalog key → src.keeper? catalog key ≠ none →
          key.isSpelled l = true) →
        (src.planned className catalog log).CellsApart := by
  refine ⟨⟨fun apart cell other s t first second place text => ?_,
    fun apart cell s t first second => ?_⟩, fun l legible spelled => ?_⟩
  · have same : cell = other := by
      have tokens : cell.token = other.token := by
        rw [(Stores.requested first).1, (Stores.requested second).1, text]
      cases cell
      cases other
      cases place
      cases tokens
      rfl
    exact apart cell s t first (same ▸ second)
  · refine apart cell cell s t first second rfl ?_
    rw [← (Stores.requested first).1, ← (Stores.requested second).1]
  · refine cellsApart_of_texts fun key other path requested requested' keeper keeper' text => ?_
    exact Key.text_injective legible (spelled key requested (by simp [keeper]))
      (spelled other requested' (by simp [keeper'])) text

/-! ## Small components with a scope -/

/-- The scope of small components. -/
def smallScope : AnnotationUse := { package := "", name := "S" }

/-- The class of the scope of small components. -/
def ClassDecl.smallScope : ClassDecl := .annotationClass "" "S" .scope

/-- The class with the scope of small components. -/
def ClassDecl.withScope (c : ClassDecl) : ClassDecl :=
  { c with annotations := c.annotations ++ [Injector.smallScope] }

/-- A member of `owner` that binds its type, with a scope. -/
def MemberDecl.keeper (owner : ClassId) (name : String) (ty : Ty)
    (annotations : List AnnotationUse := []) : MemberDecl where
  owner := some owner
  name := name
  annotations := .ofDecl .provides :: smallScope :: annotations
  returnType := ty

/-- A `Foo` and a `Bar` are kept, and a `Bar` needs a `Foo`. -/
def keptPair : Source where
  program :=
    { classes := [.smallScope, (ClassDecl.injectable "Foo" []).withScope,
        (ClassDecl.injectable "Bar" [("foo", { name := "Foo" })]).withScope,
        (ClassDecl.abstractComponent [.ofNat 0, .ofNat 1]).withScope]
      members := [.accessor (.ofNat 3) "foo" { name := "Foo" },
        .accessor (.ofNat 3) "bar" { name := "Bar" }] }
  options := {}

/-- All that is asked for in `keptPair`. -/
def keptPairKeys : List Key := [.of { name := "Foo" }, .of { name := "Bar" }]

theorem keptPair_covers : keptPair.Covers (keptPair.collect (.ofNat 3) {}).1 keptPairKeys := by
  decide +kernel

theorem keptPair_stores : ∃ cell s, (keptPair.plannedAlone (.ofNat 3)).Stores cell s := by
  have stored : ∃ e ∈ (keptPair.plannedAlone (.ofNat 3)).entries,
      ((keptPair.plannedAlone (.ofNat 3)).arena.plan? e.result.id).bind Plan.cell? =
        some ⟨.here, "Foo"⟩ := by
    decide +kernel
  obtain ⟨e, mem, stored⟩ := stored
  obtain ⟨p, found, kept⟩ := Option.bind_eq_some_iff.mp stored
  exact ⟨_, _, [], p, ⟨e, mem, .here⟩, found, kept⟩

/-- The `Foo` and the `Bar` are in cells of their own. -/
theorem keptPair_cellsApart :
    (∃ cell s, (keptPair.plannedAlone (.ofNat 3)).Stores cell s) ∧
      (keptPair.plannedAlone (.ofNat 3)).CellsApart := by
  refine ⟨keptPair_stores, ?_⟩
  let l : Lettering := { decls := [⟨"", "Foo"⟩, ⟨"", "Bar"⟩] }
  have legible : l.Legible :=
    ⟨by decide +kernel, by decide +kernel, by simp [l], by simp [l], by simp [l]⟩
  have spelled : ∀ key ∈ keptPairKeys, key.isSpelled l = true := by decide +kernel
  exact (planned_cellsApart_iff keptPair _ _ _).2 l legible fun key requested _ =>
    spelled key (keptPair_covers.requested requested)

/-! ## A shared cell -/

/-- Qualifiers of the same name in two packages, and a `Foo` that is kept for each. -/
def twoQualifiers : Source where
  program :=
    { classes := [.smallScope, .annotationClass "a" "Q" .qualifier,
        .annotationClass "b" "Q" .qualifier, .injectable "Foo" [],
        (ClassDecl.abstractComponent [.ofNat 0, .ofNat 1, .ofNat 2, .ofNat 3]).withScope]
      members := [
        { MemberDecl.accessor (.ofNat 4) "first" { name := "Foo" } with
          annotations := [{ package := "a", name := "Q" }] },
        { MemberDecl.accessor (.ofNat 4) "second" { name := "Foo" } with
          annotations := [{ package := "b", name := "Q" }] },
        .keeper (.ofNat 4) "makeFirst" { name := "Foo" } [{ package := "a", name := "Q" }],
        .keeper (.ofNat 4) "makeSecond" { name := "Foo" } [{ package := "b", name := "Q" }]] }
  options := {}

/-- Both values are kept under the token `@Q Foo`. -/
theorem twoQualifiers_cellsApart_refuted :
    ¬(twoQualifiers.plannedAlone (.ofNat 4)).CellsApart := by
  have shared : ∃ e ∈ (twoQualifiers.plannedAlone (.ofNat 4)).entries,
      ∃ e' ∈ (twoQualifiers.plannedAlone (.ofNat 4)).entries,
        ((twoQualifiers.plannedAlone (.ofNat 4)).arena.plan? e.result.id).bind Plan.cell? =
          some ⟨.here, "@Q Foo"⟩ ∧
        ((twoQualifiers.plannedAlone (.ofNat 4)).arena.plan? e'.result.id).bind Plan.cell? =
          some ⟨.here, "@Q Foo"⟩ ∧ e.result.key ≠ e'.result.key := by
    decide +kernel
  obtain ⟨e, mem, e', mem', stored, stored', other⟩ := shared
  obtain ⟨p, found, kept⟩ := Option.bind_eq_some_iff.mp stored
  obtain ⟨p', found', kept'⟩ := Option.bind_eq_some_iff.mp stored'
  intro apart
  exact other (apart _ _ _ ⟨[], p, ⟨e, mem, .here⟩, found, kept⟩
    ⟨[], p', ⟨e', mem', .here⟩, found', kept'⟩)

end Injector
