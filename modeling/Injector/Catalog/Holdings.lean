/-
# Injector.Catalog.Holdings -- what one component declares itself

Two passes over the members that a component has or inherits.  The first one
(`scan`) goes up the hierarchy once and picks the scope, the bindings and the
accessors; a member that one seen before overrides is left out, and hands its
role as a binding to the member that overrides it.  The second one (`register`)
files each binding by its key, as a contribution, or as a pattern.

Both answer with what is wrong as findings, in the order in which it is met.
-/
import Injector.Catalog.Basic
import Injector.Source

namespace Injector

set_option autoImplicit false

/-- Findings at one element. -/
def Finding.listAt (element : Element) (problems : List Problem) : List Finding :=
  problems.map fun problem => ⟨problem, some element⟩

/-! ## Picking members -/

/-- What a scan has met. -/
structure Scan where
  /-- The scope and the class it is on. -/
  scope : Option (AnnotationUse × ClassId) := none
  /-- Members that nothing seen overrides. -/
  seen : List MemberId := []
  provides : List MemberId := []
  accessors : List MemberId := []
  findings : List Finding := []
  deriving Inhabited

namespace Source

/-- Why `m` cannot be a binding. -/
def providesProblem? (isComponent : Bool) (m : MemberDecl) : Option Problem :=
  if m.visibility = .withinOwner then some .providesPrivate
  else if m.returnType.isUnit then some .providesNothing
  else if isComponent && m.isAbstract then some .providesAbstract
  else none

/-- Take the member `id` as a binding if it can be one. -/
def scanProvides (src : Source) (isComponent : Bool) (id : MemberId) (s : Scan) : Scan :=
  match providesProblem? isComponent (src.program.memberAt id) with
  | some problem => { s with findings := s.findings ++ [⟨problem, some (.member id)⟩] }
  | none => { s with provides := s.provides ++ [id] }

/-- The next member: new, or overridden by one seen before. -/
def scanMember (src : Source) (isComponent : Bool) (s : Scan) (id : MemberId) : Scan :=
  let m := src.program.memberAt id
  match s.seen.find? fun other => src.program.overrides other id with
  | some overriding =>
    if m.isBinding && !(src.program.memberAt overriding).isBinding &&
        !s.provides.contains overriding then
      src.scanProvides isComponent overriding s
    else s
  | none =>
    let s := { s with seen := s.seen ++ [id] }
    if m.isBinding then src.scanProvides isComponent id s
    else if m.isAccessor then { s with accessors := s.accessors ++ [id] }
    else s

/-- The scope of the next class: the first one counts, a different one is refused. -/
def scanScope (src : Source) (s : Scan) (id : ClassId) : Scan :=
  let (found, problems) := src.scope (src.program.classAt id).annotations
  let s := { s with findings := s.findings ++ Finding.listAt (.cls id) problems }
  match found, s.scope with
  | none, _ => s
  | some scope, none => { s with scope := some (scope, id) }
  | some scope, some (existing, owner) =>
    if existing = scope then s
    else
      { s with findings := s.findings ++
          [⟨.scopeRefused scope, some (.cls id)⟩, ⟨.scopeTaken existing, some (.cls owner)⟩] }

/-- The next class of the hierarchy. -/
def scanClass (src : Source) (isComponent : Bool) (s : Scan) (id : ClassId) : Scan :=
  (src.program.classAt id).members.foldl (src.scanMember isComponent) (src.scanScope s id)

/-- The hierarchy of `id`, from the class upward. -/
def scan (src : Source) (id : ClassId) : Scan :=
  let isComponent := AnnotationUse.markComponent (src.program.classAt id).annotations
  (src.program.chain id).foldl (src.scanClass isComponent) {}

/-! ## Filing bindings -/

/-- What is wrong with the scope of a member in a component of scope `owner`. -/
def scopeProblems (owner scope : Option AnnotationUse) : List Problem :=
  match scope, owner with
  | none, _ => []
  | some s, none => [.scopeInUnscoped s]
  | some s, some o => if o = s then [] else [.scopeMismatch s o]

/-- Two members that provide the same key. -/
def duplicateFindings (key : Key) (second first : MemberId) : List Finding :=
  [⟨.keyRefused key, some (.member second)⟩, ⟨.keyTaken, some (.member first)⟩]

/-- Add a contribution to `key`. -/
def contribute (own : Holdings) (key : Key) (kind : ContainerKind) (b : MemberBinding) :
    Holdings × List Finding :=
  match own.containers.get? key with
  | none => ({ own with containers := own.containers.insert key ⟨kind, b.member, [b]⟩ }, [])
  | some entry =>
    if entry.kind = kind then
      let entry := { entry with contributors := entry.contributors ++ [b] }
      ({ own with containers := own.containers.insert key entry }, [])
    else (own, duplicateFindings key b.member entry.first)

/-- Bind `key` to a member, unless it is bound already. -/
def bindDirect (own : Holdings) (key : Key) (b : MemberBinding) : Holdings × List Finding :=
  match own.direct.get? key with
  | none => ({ own with direct := own.direct.insert key b }, [])
  | some existing =>
    let duplicated :=
      if own.duplicated.contains key then own.duplicated else own.duplicated ++ [key]
    ({ own with duplicated }, duplicateFindings key b.member existing.member)

/-- The type of a map to which a member of type `pair` contributes. -/
def mapOfPair (pair : Ty) : Ty :=
  .mapOf (pair.dealias.args.getD 0 default) (pair.dealias.args.getD 1 default)

/-- File the binding `id`. -/
def register (src : Source) (own : Holdings) (id : MemberId) : Holdings × List Finding :=
  let m := src.program.memberAt id
  let returnType := src.program.returnTypeIn id own.cls
  let (qualifier, qualifierProblems) := src.qualifier m.annotations returnType
  let (scope, severalScopes) := src.scope m.annotations
  let findings :=
    Finding.listAt (.member id)
      (qualifierProblems ++ severalScopes ++ scopeProblems own.scope scope)
  let b : MemberBinding := { member := id, scopedIn := scope.map fun _ => own.cls }
  let (own, more) :=
    if m.contributesToMap then
      if returnType.isPair then contribute own (.of (mapOfPair returnType) qualifier) .map b
      else (own, [⟨.contributesNoPair, some (.member id)⟩])
    else if m.contributesToSet then
      contribute own (.of (.setOf returnType.unqualified) qualifier) .set b
    else if !m.typeVars.isEmpty || returnType.mentionsVariable then
      ({ own with generics := own.generics ++ [⟨b, returnType, qualifier⟩] }, [])
    else bindDirect own (.of returnType qualifier) b
  (own, findings ++ more)

/-- File an accessor as a way in; the first one of a key counts. -/
def registerAccessor (src : Source) (own : Holdings) (id : MemberId) : Holdings × List Finding :=
  let m := src.program.memberAt id
  let returnType := src.program.returnTypeIn id own.cls
  let (qualifier, problems) := src.qualifier m.annotations returnType
  ({ own with
      passthroughs := own.passthroughs.insertNew (.of returnType qualifier) { member := id } },
    Finding.listAt (.member id) problems)

/-- Go through `items`, keeping the findings of every step. -/
def fileAll {α : Type} (file : Holdings → α → Holdings × List Finding) :
    Holdings → List α → Holdings × List Finding
  | own, [] => (own, [])
  | own, item :: rest =>
    let (own, first) := file own item
    let (own, more) := fileAll file own rest
    (own, first ++ more)

/-- What the component `id` declares itself. -/
def holdings (src : Source) (id : ClassId) : Holdings × List Finding :=
  let s := src.scan id
  let own : Holdings :=
    { cls := id, scope := s.scope.map (·.1), accessors := s.accessors }
  let (own, first) := fileAll src.register own s.provides
  let (own, more) := fileAll src.registerAccessor own s.accessors
  (own, s.findings ++ first ++ more)

end Source

end Injector
