/-
# Injector.Proofs.Planner.Keeping -- values that are kept once

What carries a scope is built for a value that is kept, with one exception: a contribution
to a set or a map is called whether its member has a scope or not
(`planned_scopesHonoured_iff`).  And values of one declaration are kept in one cell as far
as they are asked for under keys of one text.  A declaration answers for several keys only
through aliases, qualifiers inside types, null, and types that are told apart by less than
their texts; keys without any of these are determined by the declaration and what its
variables stand for (`PlainlyKept`).

Both rest on the catalog being filed as the declarations say, which every catalog is that a
session collects.
-/
import Injector.Proofs.Planner.Tokens
import Injector.Proofs.Catalog.Filing
import Injector.Proofs.Ty.Fitting
import Injector.Proofs.Generation.Sessions

namespace Injector

set_option autoImplicit false

namespace Plan

def isContainer : Plan → Bool
  | .container .. => true
  | _ => false

/-- The slot under these plans is that of a kept value, or a variable is declared between. -/
def isKept (above : List Plan) : Bool := (around above).head?.any fun p => p.cell?.isSome

/-- The slot under these plans is that of a contribution, or a variable is declared between. -/
def isContributed (above : List Plan) : Bool := (around above).head?.any isContainer

theorem around_cases (above : List Plan) :
    around above = above ∨ ∃ name result rest, above = .lateInit name result :: rest := by
  cases above with
  | nil => exact .inl rfl
  | cons p rest =>
      cases p with
      | lateInit name result => exact .inr ⟨name, result, rest, rfl⟩
      | _ => exact .inl rfl

/-- What is asked for is no contribution, whether or not a variable is declared around it. -/
theorem isContributed_of_asksFor {above : List Plan}
    (outer : ∀ p ∈ (around above).head?, p.asksFor = true) :
    isContributed above = false ∧
      ∀ name result, isContributed (.lateInit name result :: above) = false := by
  have head {p : Option Plan} (outer : ∀ q ∈ p, q.asksFor = true) : p.any isContainer = false := by
    cases p with
    | none => rfl
    | some p =>
        have asks := outer p rfl
        cases p <;> first | rfl | cases asks
  refine ⟨head outer, fun name result => ?_⟩
  rcases around_cases above with same | ⟨name, result, rest, rfl⟩
  · exact head (same ▸ outer)
  · rfl

end Plan

namespace Source

variable (src : Source) (catalog : Catalog)

/-! ## Which call a plan makes -/

/-- The call is one of those that a requested set or map is made of. -/
def Contributes (c : Call) : Prop :=
  ∃ whole kind contributors, src.Requested catalog whole ∧
    (src.choose catalog whole).1 = .binding (.container kind contributors) ∧
    ∃ b ∈ contributors, c = src.memberCall (src.contributionKey b) b.member .empty false

/-- The plan at a slot for the key, under these plans, makes the call. -/
structure MadeFor (above : List Plan) (key : Key) (p : Plan) (c : Call) : Prop where
  now : p.isCall = true
  makes : ∃ site lambda, src.Makes site c lambda p
  same : c.key = key
  asked : Plan.isContributed above = false → src.Answers catalog key c
  contributed : Plan.isContributed above = true → src.Contributes catalog c

/-- What calls a constructor or a member makes a call that may stand there. -/
def CallsMade (f : Forest) : Prop :=
  ∀ above s p, f.Below above s → f.arena.plan? s.id = some p → p.isCall = true →
    ∃ c, src.MadeFor catalog above s.key p c

/-- What calls a declaration with a scope is built for a kept value. -/
def ScopesHonoured (f : Forest) : Prop :=
  ∀ above s p c, f.Below above s → f.arena.plan? s.id = some p →
    src.MadeFor catalog above s.key p c → src.scopeOf c.element ≠ none →
    Plan.isKept above = true

/-- What calls a declaration with a scope is no contribution. -/
def ContributesUnscoped (f : Forest) : Prop :=
  ∀ above s p c, f.Below above s → f.arena.plan? s.id = some p →
    src.MadeFor catalog above s.key p c → src.scopeOf c.element ≠ none →
    Plan.isContributed above = false

/-- A call answers for each kept value, and values of one declaration with the same types for
its variables that are kept in one place have one token. -/
def TokensAgree (f : Forest) : Prop :=
  (∀ cell s, f.Stores cell s → ∃ c, src.Answers catalog s.key c) ∧
    ∀ cell other s t c d, f.Stores cell s → f.Stores other t → cell.path = other.path →
      src.Answers catalog s.key c → src.Answers catalog t.key d → c.element = d.element →
      c.subst = d.subst → cell.token = other.token

variable {src catalog} {key : Key} {c d : Call} {above : List Plan} {p : Plan}

theorem inLambda_of_isCall {site : Site} {lambda : List LambdaParam}
    (makes : src.Makes site c lambda p) (now : p.isCall = true) : c.inLambda = false := by
  cases makes with
  | ctor | member => rfl
  | lambda => cases now

variable (src catalog) in
/-- The call answers for its key, and is made for a kept value if its value has a keeper, or
it is a contribution. -/
def Situated (above : List Plan) (c : Call) : Prop :=
  (Plan.isContributed above = false ∧ src.Answers catalog c.key c ∧
      (src.keeper? catalog c.key = none ∨ Plan.isKept above = true)) ∨
    Plan.isContributed above = true ∧ Plan.isKept above = false ∧ src.Contributes catalog c

theorem situated_of_call (placed : src.Placed catalog above (.call c)) :
    src.Situated catalog above c ∧
      ∀ name result, src.Situated catalog (.lateInit name result :: above) c := by
  cases placed with
  | called placed answers unkept =>
      obtain rfl := answers.same
      cases placed with
      | asked outer =>
          obtain ⟨here, around⟩ := Plan.isContributed_of_asksFor outer
          have none := unkept.resolve_right (by simp)
          exact ⟨.inl ⟨here, answers, .inl none⟩,
            fun name result => .inl ⟨around name result, answers, .inl none⟩⟩
      | kept => exact ⟨.inl ⟨rfl, answers, .inr rfl⟩, fun _ _ => .inl ⟨rfl, answers, .inr rfl⟩⟩
  | contributed requested chosen mem =>
      have found : src.Contributes catalog _ := ⟨_, _, _, requested, chosen, _, mem, rfl⟩
      exact ⟨.inr ⟨rfl, rfl, found⟩, fun _ _ => .inr ⟨rfl, rfl, found⟩⟩

theorem situated_of_step (placed : src.Placed catalog above (.step c)) :
    src.Situated catalog above c := by
  cases placed with
  | made placed => exact (situated_of_call placed).1
  | around placed => exact (situated_of_call placed).2 _ _

/-! ## Scopes in filed catalogs -/

/-- What has no keeper has no scope. -/
theorem Origin.scopeOf_of_unkept (filed : catalog.Everywhere src.Filed)
    (origin : src.Origin catalog key c) (unkept : src.keeper? catalog key = none) :
    src.scopeOf c.element = none := by
  cases origin with
  | cls _ _ _ call scope =>
      rw [call]
      exact scope unkept
  | @direct place b there found call kept =>
      rw [call]
      obtain ⟨own, -, -⟩ := (filed.walk place there).direct key b found
      rw [kept, Option.map_eq_none_iff] at unkept
      exact scopeOf_ownBinding (own ▸ unkept)
  | @passthrough place b there found call _ =>
      obtain ⟨-, accessor⟩ := (filed.walk place there).passthroughs key b found
      simp [call, memberCall, scopeOf, accessor]
  | @generic place g s there mem _ _ call kept =>
      rw [call]
      obtain ⟨own, -, -, -⟩ := (filed.walk place there).generics g mem
      rw [kept, Option.map_eq_none_iff] at unkept
      exact scopeOf_ownBinding (own ▸ unkept)

/-- The plan of a call with a scope is that of a contribution or is built for a kept value. -/
theorem MadeFor.isKept_eq (filed : catalog.Everywhere src.Filed)
    (made : src.MadeFor catalog above key p c) (carries : src.scopeOf c.element ≠ none)
    (same : d.key = key) (situated : src.Situated catalog above d) :
    Plan.isKept above = !Plan.isContributed above := by
  rcases situated with ⟨asked, answers, unkept⟩ | ⟨contributed, unkept, -⟩
  · rw [same] at answers unkept
    have own := made.asked asked
    obtain ⟨site, lambda, makes⟩ := made.makes
    have origin := own.origin (inLambda_of_isCall makes made.now)
    rw [asked]
    exact unkept.resolve_left fun none => carries (origin.scopeOf_of_unkept filed none)
  · rw [contributed, unkept]
    rfl

section Planned

variable {className : String} {log : Log} {s : Slot}

/-- Each plan that calls something makes a call that may stand there. -/
theorem exists_situated (below : (src.planned className catalog log).Below above s)
    (found : (src.planned className catalog log).arena.plan? s.id = some p)
    (now : p.isCall = true) :
    ∃ c, c.key = s.key ∧ src.Situated catalog above c ∧ src.MadeFor catalog above s.key p c := by
  obtain ⟨site, stack, task, derived, same, placed⟩ :=
    planned_below below found (by cases p <;> first | rfl | cases now)
  obtain ⟨site, c, lambda, makes, -, key, placed⟩ := derived.called placed found now
  have situated := situated_of_step placed
  have here : c.key = s.key := key.trans same
  refine ⟨c, here, situated, now, ⟨site, lambda, makes⟩, here, fun asked => ?_, fun among => ?_⟩
  · rcases situated with ⟨-, answers, -⟩ | ⟨among, -, -⟩
    · exact here ▸ answers
    · cases asked.symm.trans among
  · rcases situated with ⟨asked, -, -⟩ | ⟨-, -, whole⟩
    · cases asked.symm.trans among
    · exact whole

/-- What calls a declaration with a scope is built for a kept value or is a contribution. -/
theorem isKept_eq (filed : catalog.Everywhere src.Filed)
    (below : (src.planned className catalog log).Below above s)
    (found : (src.planned className catalog log).arena.plan? s.id = some p)
    (made : src.MadeFor catalog above s.key p c) (carries : src.scopeOf c.element ≠ none) :
    Plan.isKept above = !Plan.isContributed above := by
  obtain ⟨d, same, situated, -⟩ := exists_situated below found made.now
  exact made.isKept_eq filed carries same situated

end Planned

/-! ## Keys of one declaration -/

variable (src catalog) in
/-- The kept keys are spelled without aliases and inner qualifiers, no class is asked for as
a type that admits null, and places, classes and type variables have different names. -/
structure PlainlyKept (l : Lettering) : Prop where
  spelled : ∀ key, src.Requested catalog key → src.keeper? catalog key ≠ none →
    key.isSpelled l = true
  classes : ∀ key, src.Requested catalog key → src.keeper? catalog key ≠ none →
    ∀ c ∈ src.calls catalog key, ∀ id index, c.element = .ctor id index →
      key.ty.isFunction = false ∧ key.ty.nullable = false ∧
        ((src.program.classAt id).typeVars.map (·.name)).Nodup
  places : (catalog.walk.map Prod.fst).Nodup
  few : src.program.classes.length ≤ lastIdentity + 1

variable (src catalog) in
/-- The declaration that keeps the value of the key at the end of the path. -/
inductive KeptFrom (path : FieldPath) (key : Key) (c : Call) : Prop where
  | cls {id : ClassId} {index : UInt64} : key.qualifier = none →
      src.program.classOf key.ty = some id →
      key.ty.args.length = (src.program.classAt id).typeVars.length → c.element = .ctor id index →
      c.subst = (src.program.classAt id).substFor key.ty → KeptFrom path key c
  | member {place : FieldPath × Catalog} {m : MemberId} : place ∈ catalog.walk → place.1 = path →
      c.element = .member m →
      (src.isGeneric place.2.own.cls m = false ∧
          key = .of (src.program.returnTypeIn m place.2.own.cls)
            (src.ownQualifier place.2.own.cls m) ∨
        src.isGeneric place.2.own.cls m = true ∧
          key.qualifier = src.ownQualifier place.2.own.cls m ∧
          (src.program.returnTypeIn m place.2.own.cls).fit key.ty .empty = (true, c.subst)) →
      KeptFrom path key c

/-- A component keeps the values of its own members itself. -/
theorem path_of_ownBinding {place path : FieldPath} {cls : ClassId} {b : MemberBinding}
    (own : b = src.ownBinding cls b.member)
    (kept : (b.scopedIn.map fun _ => place ++ b.path) = some path) : place = path := by
  obtain ⟨owner, -, same⟩ := Option.map_eq_some_iff.mp kept
  rw [← same, show b.path = .here from congrArg MemberBinding.path own]
  show place = ⟨place.fields ++ []⟩
  rw [List.append_nil]

theorem Origin.keptFrom {path : FieldPath} (filed : catalog.Everywhere src.Filed)
    (origin : src.Origin catalog key c) (kept : src.keeper? catalog key = some path) :
    src.KeptFrom catalog path key c := by
  cases origin with
  | cls plain named arity call _ =>
      rw [call]
      exact .cls plain named arity rfl rfl
  | @direct place b there found call keeper =>
      obtain ⟨own, same, plain⟩ := (filed.walk place there).direct key b found
      rw [call]
      exact .member there (path_of_ownBinding own (keeper.symm.trans kept)) rfl (.inl ⟨plain, same⟩)
  | @passthrough place b there found call keeper =>
      obtain ⟨way, -⟩ := (filed.walk place there).passthroughs key b found
      rw [keeper, show b.scopedIn = none from congrArg MemberBinding.scopedIn way] at kept
      cases kept
  | @generic place g s there mem qualifier fits call keeper =>
      obtain ⟨own, pattern, filedUnder, generic⟩ := (filed.walk place there).generics g mem
      rw [call]
      refine .member there (path_of_ownBinding own (keeper.symm.trans kept)) rfl
        (.inr ⟨generic, qualifier.symm.trans filedUnder, ?_⟩)
      rw [← pattern]
      exact fits

variable {l : Lettering}

/-- A class with the same types for its variables is asked for as one type. -/
theorem PlainlyKept.class_unique {other : Key} {id : ClassId}
    (distinct : ((src.program.classAt id).typeVars.map (·.name)).Nodup)
    (few : src.program.classes.length ≤ lastIdentity + 1)
    (plain : key.ty.isFunction = false ∧ key.ty.nullable = false)
    (plain' : other.ty.isFunction = false ∧ other.ty.nullable = false)
    (spelled : key.ty.isSpelled l = true) (spelled' : other.ty.isSpelled l = true)
    (named : src.program.classOf key.ty = some id) (named' : src.program.classOf other.ty = some id)
    (arity : key.ty.args.length = (src.program.classAt id).typeVars.length)
    (arity' : other.ty.args.length = (src.program.classAt id).typeVars.length)
    (same : (src.program.classAt id).substFor key.ty = (src.program.classAt id).substFor other.ty) :
    key.ty = other.ty := by
  have shape {ty : Ty} (spelled : ty.isSpelled l = true)
      (plain : ty.isFunction = false ∧ ty.nullable = false) :
      ty = .applied ty.decl ty.args false := by
    rcases Ty.cases_of_isSpelled spelled with ⟨d, -, args, u, rfl, -⟩ | ⟨params, result, rfl, -, -⟩
    · obtain rfl : u = false := plain.2
      rfl
    · simp [Ty.isFunction, Ty.function, Ty.dealias] at plain
  have decl {ty : Ty} (spelled : ty.isSpelled l = true)
      (named : src.program.classOf ty = some id) : (src.program.classAt id).decl = ty.decl := by
    rw [Program.classOf, Ty.dealias_of_isSpelled spelled] at named
    exact decl_of_classNamed few named
  have args : key.ty.args = other.ty.args := by
    simp only [ClassDecl.substFor, Ty.dealias_of_isSpelled spelled,
      Ty.dealias_of_isSpelled spelled'] at same
    exact Subst.ofArgs_injective distinct (by simpa using arity) (by simpa using arity') same
  rw [shape spelled plain, shape spelled' plain', ← decl spelled named, ← decl spelled' named',
    args]

/-- Keys with values in one place from one declaration, with the same types for its variables,
are the same. -/
theorem PlainlyKept.key_unique {other : Key} {path : FieldPath}
    (plainly : src.PlainlyKept catalog l) (filed : catalog.Everywhere src.Filed)
    (requested : src.Requested catalog key) (requested' : src.Requested catalog other)
    (kept : src.keeper? catalog key = some path) (kept' : src.keeper? catalog other = some path)
    (answers : src.Answers catalog key c) (answers' : src.Answers catalog other d)
    (element : c.element = d.element) (subst : c.subst = d.subst) : key = other := by
  have now {key : Key} {c : Call} (kept : src.keeper? catalog key = some path)
      (answers : src.Answers catalog key c) : c.inLambda = false := by
    refine Bool.eq_false_iff.mpr fun later => ?_
    cases kept.symm.trans (answers.keeper?_of_inLambda later)
  have spelled := plainly.spelled key requested (by simp [kept])
  have spelled' := plainly.spelled other requested' (by simp [kept'])
  simp only [Key.isSpelled, Bool.and_eq_true] at spelled spelled'
  have same {q : Option AnnotationUse} (ty : key.ty = other.ty) (left : key.qualifier = q)
      (right : other.qualifier = q) : key = other := by
    cases key
    cases other
    cases ty
    cases left
    cases right
    rfl
  rcases (answers.origin (now kept answers)).keptFrom filed kept with
    ⟨plain, named, arity, made, takes⟩ | @⟨place, m, there, here, made, how⟩ <;>
  rcases (answers'.origin (now kept' answers')).keptFrom filed kept' with
    ⟨plain', named', arity', made', takes'⟩ | @⟨place', m', there', here', made', how'⟩ <;>
  rw [made, made'] at element
  · cases element
    obtain ⟨arrow, strict, distinct⟩ :=
      plainly.classes key requested (by simp [kept]) c answers.mem _ _ made
    obtain ⟨arrow', strict', -⟩ :=
      plainly.classes other requested' (by simp [kept']) d answers'.mem _ _ made'
    refine same ?_ plain plain'
    exact class_unique distinct plainly.few ⟨arrow, strict⟩ ⟨arrow', strict'⟩ spelled.1 spelled'.1
      named named' arity arity' (takes.symm.trans (subst.trans takes'))
  · cases element
  · cases element
  · cases element
    obtain rfl : place = place' :=
      List.inj_on_of_nodup_map plainly.places there there' (here.trans here'.symm)
    rcases how with ⟨single, filedAs⟩ | ⟨generic, qualifier, fits⟩ <;>
    rcases how' with ⟨single', filedAs'⟩ | ⟨generic', qualifier', fits'⟩
    · rw [filedAs, filedAs']
    · cases single.symm.trans generic'
    · cases generic.symm.trans single'
    · exact same (Ty.fit_unique fits (subst ▸ fits') spelled.1 spelled'.1) qualifier qualifier'

/-- Under plain keys values of one declaration have one token. -/
theorem PlainlyKept.tokensAgree {className : String} {log : Log}
    (plainly : src.PlainlyKept catalog l) (filed : catalog.Everywhere src.Filed) :
    src.TokensAgree catalog (src.planned className catalog log) := by
  refine ⟨fun cell s stores => exists_answers_of_keeper? (Stores.requested stores).2.2, ?_⟩
  intro cell other s t c d first second place answers answers' element subst
  obtain ⟨token, requested, kept⟩ := Stores.requested first
  obtain ⟨token', requested', kept'⟩ := Stores.requested second
  rw [token, token', plainly.key_unique filed requested requested' kept (place ▸ kept') answers
    answers' element subst]

/-! ## Sessions -/

/-- What holds of all that components declare holds everywhere in what a session keeps. -/
theorem sessionAfter_everywhere {holds : Holdings → Prop} (own : ∀ id, holds (src.holdings id).1)
    (none : ∀ id, holds { cls := id }) (history : List ClassId) :
    (src.sessionAfter history).store.Everywhere holds := by
  apply sessionAfter_induction (fun session => session.store.Everywhere holds) nofun
  intro session cls _ kept
  rcases src.generate_session session cls with same | same
  · rw [same]
    exact kept
  · rw [same]
    exact (everywhere_collectTo own none _ cls { store := session.store } kept).2

variable (src) in
/-- The catalog of a component that comes up after others were generated. -/
def catalogAfter (history : List ClassId) (cls : ClassId) : Catalog :=
  (src.collect cls { store := (src.sessionAfter history).store }).1

theorem catalogAfter_everywhere {holds : Holdings → Prop} (own : ∀ id, holds (src.holdings id).1)
    (none : ∀ id, holds { cls := id }) (history : List ClassId) (cls : ClassId) :
    (src.catalogAfter history cls).Everywhere holds :=
  (everywhere_collectTo own none _ cls _ (sessionAfter_everywhere own none history)).1

variable (src) in
theorem catalogAfter_filed (history : List ClassId) (cls : ClassId) :
    (src.catalogAfter history cls).Everywhere src.Filed :=
  catalogAfter_everywhere filed_holdings src.filed_empty history cls

end Source

open Source

/-- Each plan that calls a constructor or a member makes a call that answers for its key or
contributes to a set or a map.  All calls of declarations with a scope are made for kept
values exactly if none of them is a contribution, so they are if no requested set or map has
a contribution with a scope.  And if keys are plain, values of one declaration are kept under
one token. -/
theorem planned_scopesHonoured_iff (src : Source) (history : List ClassId) (cls : ClassId)
    (className : String) (log : Log) :
    let catalog := src.catalogAfter history cls
    let f := src.planned className catalog log
    src.CallsMade catalog f ∧
      (src.ScopesHonoured catalog f ↔ src.ContributesUnscoped catalog f) ∧
      ((∀ key kind contributors, src.Requested catalog key →
          (src.choose catalog key).1 = .binding (.container kind contributors) →
          ∀ b ∈ contributors, src.scopeOf (.member b.member) = none) →
        src.ScopesHonoured catalog f) ∧
      ∀ l : Lettering, src.PlainlyKept catalog l → src.TokensAgree catalog f := by
  intro catalog f
  have filed : catalog.Everywhere src.Filed := src.catalogAfter_filed history cls
  have honoured_iff : src.ScopesHonoured catalog f ↔ src.ContributesUnscoped catalog f := by
    refine ⟨fun honoured above s p c below found made carries => ?_,
      fun apart above s p c below found made carries => ?_⟩
    · have kept := honoured above s p c below found made carries
      rw [isKept_eq filed below found made carries] at kept
      simpa using kept
    · rw [isKept_eq filed below found made carries, apart above s p c below found made carries]
      rfl
  refine ⟨fun above s p below found now => ?_, honoured_iff, fun unscoped => ?_,
    fun l plainly => plainly.tokensAgree filed⟩
  · obtain ⟨c, -, -, made⟩ := exists_situated below found now
    exact ⟨c, made⟩
  · refine honoured_iff.mpr fun above s p c below found made carries => ?_
    refine Bool.eq_false_iff.mpr fun among => ?_
    obtain ⟨whole, kind, contributors, requested, chosen, b, mem, rfl⟩ := made.contributed among
    exact carries (unscoped whole kind contributors requested chosen b mem)

/-- The `Foo` and the `Bar` are built for kept values, each under one token. -/
theorem keptPair_scopesHonoured :
    (∃ cell s, (keptPair.plannedAlone (.ofNat 3)).Stores cell s) ∧
      keptPair.ScopesHonoured (keptPair.catalogAfter [] (.ofNat 3))
        (keptPair.plannedAlone (.ofNat 3)) ∧
      keptPair.TokensAgree (keptPair.catalogAfter [] (.ofNat 3))
        (keptPair.plannedAlone (.ofNat 3)) := by
  have covers : keptPair.Covers (keptPair.catalogAfter [] (.ofNat 3)) keptPairKeys :=
    keptPair_covers
  obtain ⟨-, -, honoured, agree⟩ :=
    planned_scopesHonoured_iff keptPair [] (.ofNat 3) (implementationName "C") {}
  refine ⟨keptPair_stores, honoured fun key kind contributors requested chosen => ?_,
    agree { decls := [⟨"", "Foo"⟩, ⟨"", "Bar"⟩] } ⟨fun key requested _ => ?_,
      fun key requested _ c mem id index made => ?_, by decide +kernel, by decide +kernel⟩⟩
  · have single : ∀ key ∈ keptPairKeys,
        (match (keptPair.choose (keptPair.catalogAfter [] (.ofNat 3)) key).1 with
          | .binding (.container ..) => false
          | _ => true) = true := by
      decide +kernel
    have other := single key (covers.requested requested)
    rw [chosen] at other
    cases other
  · have spelled : ∀ key ∈ keptPairKeys,
        key.isSpelled { decls := [⟨"", "Foo"⟩, ⟨"", "Bar"⟩] } = true := by
      decide +kernel
    exact spelled key (covers.requested requested)
  · have plain : ∀ key ∈ keptPairKeys, key.ty.isFunction = false ∧ key.ty.nullable = false := by
      decide +kernel
    have distinct : ∀ c ∈ keptPair.program.classes, (c.typeVars.map (·.name)).Nodup := by
      decide +kernel
    have here : ((keptPair.program.classAt id).typeVars.map (·.name)).Nodup := by
      rw [Program.classAt]
      cases at_ : keptPair.program.classes[id.toNat]? with
      | none => exact List.nodup_nil
      | some c => exact distinct c (List.mem_of_getElem? at_)
    obtain ⟨arrow, strict⟩ := plain key (covers.requested requested)
    exact ⟨arrow, strict, here⟩

/-! ## A contribution with a scope -/

/-- A contribution of a `Foo` to a set, with a scope. -/
def keptContribution : Source where
  program :=
    { classes := [.smallScope, { name := "Foo" },
        (ClassDecl.abstractComponent [.ofNat 0, .ofNat 1]).withScope]
      members := [.accessor (.ofNat 2) "foos" (.setOf { name := "Foo" }),
        .keeper (.ofNat 2) "make" { name := "Foo" } [.ofDecl .intoSet]] }
  options := {}

/-- The member is called whenever the set is asked for. -/
theorem keptContribution_scopesHonoured_refuted :
    ¬keptContribution.ScopesHonoured (keptContribution.catalogAfter [] (.ofNat 2))
      (keptContribution.plannedAlone (.ofNat 2)) := by
  let catalog := keptContribution.catalogAfter [] (.ofNat 2)
  let call : Call := keptContribution.memberCall (.of { name := "Foo" }) (.ofNat 1) .empty false
  have shape : ∃ e ∈ (keptContribution.plannedAlone (.ofNat 2)).entries,
      ∃ found ∈ ((keptContribution.plannedAlone (.ofNat 2)).arena.follow [] e.result [0]).toList,
        (keptContribution.plannedAlone (.ofNat 2)).arena.plan? found.2.id =
            some (.provide "InjectC" "make" .here none false {}) ∧
          found.2.key = .of { name := "Foo" } ∧ Plan.isKept found.1 = false ∧
          Plan.isContributed found.1 = true := by
    decide +kernel
  obtain ⟨e, mem, ⟨above, s⟩, led, found, key, unkept, among⟩ := shape
  have path := Arena.path_of_follow .here (Option.mem_toList.mp led)
  have chosen : (keptContribution.choose catalog (.of (.setOf { name := "Foo" }))).1 =
      .binding (.container .set [keptContribution.ownBinding (.ofNat 2) (.ofNat 1)]) := by
    decide +kernel
  have made : keptContribution.MadeFor catalog above s.key
      (.provide "InjectC" "make" .here none false {}) call := by
    refine ⟨rfl, ⟨{ className := "InjectC", catalog := catalog }, [], .member⟩, key.symm,
      fun asked => ?_, fun _ =>
        ⟨_, _, _, .accessor (m := .ofNat 0) ?_, chosen, _, List.mem_singleton_self _, rfl⟩⟩
    · cases asked.symm.trans among
    · decide +kernel
  intro honoured
  cases unkept.symm.trans (honoured above s _ call ⟨e, mem, path⟩ found made (by decide +kernel))

end Injector
