/-
# Injector.Proofs.Catalog.ScopesApart -- one owner for each scope

A component keeps the values of its scope.  So no ancestor may have the same scope, or values
would be kept twice, and a member with a scope must have that of its component.

Both are checked where a component is collected: the scope against all ancestors of each
parent, and each member as it is filed.  Without faults the checks were made at every ancestor
too, so they hold along every route (`scopes_apart`).
-/
import Injector.Proofs.Catalog.Routes

namespace Injector

set_option autoImplicit false

/-- The component files the binding: under its key, among the contributions to a set or a map,
or as a pattern. -/
inductive Holdings.Files (own : Holdings) (b : MemberBinding) : Prop where
  | direct {key : Key} : own.direct.get? key = some b → Files own b
  | contribution {key : Key} : own.Gathers key b → Files own b
  | pattern {g : GenericMember} : g ∈ own.generics → g.binding = b → Files own b

namespace Source

variable (src : Source)

/-- The member has no scope, or just the given one. -/
def KeepsTo (scope : Option AnnotationUse) (m : MemberId) : Prop :=
  ∀ s ∈ src.scopes (src.program.memberAt m).annotations,
    src.scopes (src.program.memberAt m).annotations = [s] ∧ scope = some s

variable {src} {own : Holdings} {m : MemberId} {b : MemberBinding} {id : ClassId} {c d : Catalog}

/-! ## Members -/

/-- One scope is found in a list without a problem, and no scope is lost. -/
theorem scopes_eq_of_quiet {as : List AnnotationUse} (quiet : (src.scope as).2 = []) :
    src.scopes as = (src.scope as).1.toList := by
  simp only [scope] at quiet ⊢
  split at quiet
  · cases quiet
  · rename_i short
    match found : src.scopes as with
    | [] => rfl
    | [s] => rfl
    | _ :: _ :: _ =>
      rw [found] at short
      simp at short

/-- A member that is filed without a finding has the scope of its component, if any. -/
theorem keepsTo_of_quiet (quiet : (src.register own m).2 = []) : src.KeepsTo own.scope m := by
  have fine : (src.scope (src.program.memberAt m).annotations).2 = [] ∧
      scopeProblems own.scope (src.scope (src.program.memberAt m).annotations).1 = [] := by
    simp only [register] at quiet
    have first := (List.append_eq_nil_iff.mp quiet).1
    simp only [Finding.listAt, List.map_eq_nil_iff, List.append_eq_nil_iff] at first
    exact ⟨first.1.2, first.2⟩
  obtain ⟨several, matching⟩ := fine
  intro s mem
  rw [scopes_eq_of_quiet several, Option.mem_toList] at mem
  rw [scopes_eq_of_quiet several, mem]
  refine ⟨rfl, ?_⟩
  rw [mem] at matching
  cases owner : own.scope with
  | none =>
      rw [owner] at matching
      cases matching
  | some o =>
      simp only [owner, scopeProblems] at matching
      split at matching
      · rename_i same
        rw [same]
      · cases matching

theorem scope_register (own : Holdings) (m : MemberId) :
    (src.register own m).1.scope = own.scope := by
  have contributed (key : Key) (kind : ContainerKind) (b : MemberBinding) :
      (contribute own key kind b).1.scope = own.scope := by
    simp only [contribute]
    split
    · rfl
    · split <;> rfl
  simp only [Source.register]
  split
  · split
    · exact contributed _ _ _
    · rfl
  · split
    · exact contributed _ _ _
    · split
      · rfl
      · simp only [bindDirect]
        split <;> rfl

/-- Filing a member without a finding adds the binding of that member only. -/
theorem files_register (quiet : (src.register own m).2 = [])
    (files : (src.register own m).1.Files b) : own.Files b ∨ b.member = m := by
  rcases register_cases quiet with ⟨key, -, same, none⟩ | ⟨-, -, same⟩ | ⟨-, key, same, none⟩
  · obtain ⟨containers, joined, -, only, -⟩ := gathers_contribute none
    rw [same, joined] at files
    cases files with
    | direct bound => exact .inl (.direct bound)
    | contribution gathers =>
        rcases only _ b gathers with before | ⟨-, rfl⟩
        · exact .inl (.contribution before)
        · exact .inr rfl
    | pattern mem of => exact .inl (.pattern mem of)
  · rw [same] at files
    cases files with
    | direct bound => exact .inl (.direct bound)
    | contribution gathers => exact .inl (.contribution gathers)
    | pattern mem of =>
        rcases List.mem_append.mp mem with mem | last
        · exact .inl (.pattern mem of)
        · obtain rfl := List.mem_singleton.mp last
          exact .inr (of ▸ rfl)
  · rw [same] at files
    simp only [bindDirect] at files none
    split at files
    · cases files with
      | direct bound =>
          rw [Table.get?_insert] at bound
          split at bound
          · cases bound
            exact .inr rfl
          · exact .inl (.direct bound)
      | contribution gathers => exact .inl (.contribution gathers)
      | pattern mem of => exact .inl (.pattern mem of)
    · rename_i existing present
      rw [present] at none
      cases none

/-- Going through members without a finding files members of the scope only. -/
theorem keepsTo_fileAll {ms : List MemberId} (quiet : (fileAll src.register own ms).2 = [])
    (start : ∀ b, own.Files b → src.KeepsTo own.scope b.member) :
    (fileAll src.register own ms).1.scope = own.scope ∧
      ∀ b, (fileAll src.register own ms).1.Files b → src.KeepsTo own.scope b.member := by
  induction ms generalizing own with
  | nil => exact ⟨rfl, start⟩
  | cons m rest ih =>
      obtain ⟨first, others⟩ := List.append_eq_nil_iff.mp quiet
      have others : (fileAll src.register (src.register own m).1 rest).2 = [] := others
      have same : (src.register own m).1.scope = own.scope := scope_register own m
      have next : ∀ b, (src.register own m).1.Files b →
          src.KeepsTo (src.register own m).1.scope b.member := by
        intro b files
        rw [same]
        rcases files_register first files with before | rfl
        · exact start b before
        · exact keepsTo_of_quiet first
      have all := ih others next
      rwa [same] at all

/-- What a component without faults files has no scope but that of the component. -/
theorem Genuine.keepsTo (genuine : src.Genuine id c) (files : c.own.Files b) :
    src.KeepsTo c.own.scope b.member := by
  obtain ⟨quiet, -⟩ := genuine
  obtain ⟨picked, -⟩ := List.append_eq_nil_iff.mp quiet
  obtain ⟨-, filed⟩ := List.append_eq_nil_iff.mp picked
  let within (own : Holdings) : Prop := ∀ b, own.Files b → src.KeepsTo own.scope b.member
  have all : within (src.holdings id).1 := by
    simp only [holdings]
    refine fileAll_keeps within (fun m _ own before b files => ?_) ?_
    · refine before b ?_
      cases files with
      | direct bound => exact .direct bound
      | contribution gathers => exact .contribution gathers
      | pattern mem of => exact .pattern mem of
    · obtain ⟨same, filed⟩ := keepsTo_fileAll filed fun b files => by
        cases files with
        | direct bound => cases bound
        | contribution gathers =>
            obtain ⟨entry, present, -⟩ := gathers
            cases present
        | pattern mem _ => cases mem
      intro b files
      rw [same]
      exact filed b files
  exact all b files

/-! ## Components along a route -/

/-- A parent without faults, and what is above it, has another scope than its child. -/
theorem Genuine.scope_parent (genuine : src.Genuine id c) {n : Nat} {rest : List Nat}
    {path : FieldPath} (led : c.follow? (n :: rest) = some (path, d)) {s : AnnotationUse}
    (scope : c.own.scope = some s) : d.own.scope ≠ some s := by
  obtain ⟨field, parent, path', here, onward, -⟩ := Catalog.exists_parent_of_follow? led
  obtain ⟨-, parents⟩ := genuine
  obtain ⟨-, fine⟩ := parents.row (field, parent) (List.mem_of_getElem? here)
  have scope : (src.holdings id).1.scope = some s := scope
  have unowned : parent.scopeOwner s = none := by
    obtain ⟨scopes, -⟩ := List.append_eq_nil_iff.mp fine
    simp only [scope, Option.bind_some] at scopes
    cases owner : parent.scopeOwner s with
    | none => rfl
    | some found =>
        rw [owner] at scopes
        cases scopes
  simp only [Catalog.scopeOwner, Option.map_eq_none_iff, List.find?_eq_none] at unowned
  have there : (path', d) ∈ parent.walk := Catalog.mem_walk_iff.mpr ⟨rest, onward⟩
  simpa using unowned _ there

/-- Every route leads to a component without faults. -/
theorem Genuine.follow {route : List Nat} {path : FieldPath} (genuine : src.Genuine id c)
    (led : c.follow? route = some (path, d)) : ∃ id, src.Genuine id d :=
  (genuine.walk (path, d) (Catalog.mem_walk_iff.mpr ⟨route, led⟩)).1

end Source

/-- Without faults no scope is found twice along a route, and what a component on it files has
no scope but that of the component. -/
theorem scopes_apart (src : Source) (cls : ClassId) :
    let c := (src.collect cls {}).1
    c.faulty = false → ∀ route path d, c.follow? route = some (path, d) →
      (∀ more path' d' s, more ≠ [] → c.follow? (route ++ more) = some (path', d') →
        d.own.scope = some s → d'.own.scope ≠ some s) ∧
      ∀ b, d.own.Files b → src.KeepsTo d.own.scope b.member := by
  intro c sound route path d led
  have genuine : src.Genuine cls c := Source.genuine_of_collect Source.Clean.empty rfl rfl sound
  obtain ⟨id, genuine⟩ := genuine.follow led
  refine ⟨fun more path' d' s onward led' scope => ?_, fun b files => genuine.keepsTo files⟩
  cases more with
  | nil => exact absurd rfl onward
  | cons n rest =>
      rw [Catalog.follow?_append (n :: rest) led, Option.map_eq_some_iff] at led'
      obtain ⟨⟨path'', e⟩, led', same⟩ := led'
      cases same
      exact genuine.scope_parent led' scope

/-- A component of the scope, which keeps one binding. -/
def ClassDecl.keeping (name scope : String) (params : List ParamDecl) (m : MemberId) :
    ClassDecl where
  name := name
  isAbstract := true
  annotations := [.ofDecl .component, { package := "", name := scope }]
  ctors := [{ params }]
  members := [m]

/-- The binding of `owner` to the class, in the scope. -/
def MemberDecl.keptAs (owner : ClassId) (name scope : String) : MemberDecl where
  owner := some owner
  name := "make"
  annotations := [.ofDecl .provides, { package := "", name := scope }]
  returnType := { name }

/-- A component of scope `Inner`, and its parent of the given one. -/
def nestedScopes (outer : String) : Source where
  program :=
    { classes := [.keeping "P" outer [] (.ofNat 0), .keeping "C" "Inner" [.parentP] (.ofNat 1),
        { name := "Foo" }, { name := "Bar" }, .annotationClass "" "Inner" .scope,
        .annotationClass "" "Outer" .scope]
      members := [.keptAs (.ofNat 0) "Foo" outer, .keptAs (.ofNat 1) "Bar" "Inner"] }
  options := {}

/-- The binding of the parent is in the scope of the parent, and the child has another one. -/
theorem nestedScopes_apart :
    let src := nestedScopes "Outer"
    let c := (src.collect (.ofNat 1) {}).1
    c.faulty = false ∧ ∃ path d, c.follow? [0] = some (path, d) ∧
      d.own.scope = some { package := "", name := "Outer" } ∧
      c.own.scope = some { package := "", name := "Inner" } ∧ c.own.scope ≠ d.own.scope ∧
      d.own.direct.get? (.of { name := "Foo" }) = some (src.ownBinding (.ofNat 0) (.ofNat 0)) ∧
      src.KeepsTo d.own.scope (.ofNat 0) := by
  intro src c
  have sound : c.faulty = false := by decide +kernel
  have inner : c.own.scope = some { package := "", name := "Inner" } := by decide +kernel
  have facts : ∃ path d, c.follow? [0] = some (path, d) ∧
      d.own.scope = some { package := "", name := "Outer" } ∧
      d.own.direct.get? (.of { name := "Foo" }) =
        some (src.ownBinding (.ofNat 0) (.ofNat 0)) := ⟨_, _, rfl, by decide +kernel⟩
  obtain ⟨path, d, led, outer, files⟩ := facts
  obtain ⟨apart, -⟩ := scopes_apart src (.ofNat 1) sound [] .here c rfl
  obtain ⟨-, keeps⟩ := scopes_apart src (.ofNat 1) sound [0] path d led
  refine ⟨sound, path, d, led, outer, inner, ?_, files, keeps _ (.direct files)⟩
  exact fun same => apart [0] path d _ (by simp) led inner (same.symm.trans inner)

end Injector
