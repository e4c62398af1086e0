/-
# Injector.Proofs.Planner.Traces -- what the trace of an error says

Below its headline the message of an error shows the declarations that were under construction,
innermost first.  Read from its end, a trace is a way through the program (`Trail`): it begins
with the accessor, and each further declaration is called for a key that the one before it asks
for.  A lambda or a lazy value in between leaves no line (`AskedBy`), nor does the scope that
keeps a value, and each contribution to a container follows whatever asks for the container.

While an accessor is planned the stack always shows such a way, to something that asks for the
key of the request (`Led`).  So do the errors that a request fails with, and what is wrong is at
the end of the way (`Concerns`).  A cycle that waits is no different: its path was taken from the
stack when it was met, with the declaration that it came back to on top, and it is reported when
nothing of that is on the stack any more.
-/
import Injector.Proofs.BuildStack
import Injector.Proofs.Planner.Endless

namespace Injector

set_option autoImplicit false

open BuildStack (above? elementsOf building_of_above? mem_elements)
open Relation (ReflTransGen)

namespace PlanError

/-- The error shows how it came to what was asked for. -/
def isTraced : PlanError → Bool
  | notFound .. | endless .. | unclosed .. | ambiguous .. | noScopeOwner .. => true
  | unresolved .. | noConstructor .. | tooDeep => false

/-- The lines of the message above the trace: the headline, and the candidates for an
ambiguous key. -/
def opening (p : Program) : PlanError → List String
  | ambiguous key candidates _ =>
    ("Ambiguous bindings for: " ++ key.text ++ ", candidates:") ::
      candidates.map fun m => p.traceLine (.member m)
  | e => [e.headline p]

end PlanError

namespace Source

variable (src : Source) (catalog : Catalog)

/-- The second key is that of the value inside the lambda or the lazy value that is made for
the first one. -/
def Inside (key inner : Key) : Prop := src.Unbound catalog key ∧ src.innerKey? key = some inner

/-- The key is one of those, or inside one of them. -/
def AskedBy (keys : List Key) (key : Key) : Prop :=
  ∃ asked ∈ keys, ReflTransGen (src.Inside catalog) asked key

/-- A way through the program from the accessor `m`, with the keys that its last element asks
for. -/
inductive Trail (m : MemberId) : List Element → List Key → Prop where
  | accessor : Trail m [.member m] [src.accessorKey catalog m]
  | next {path : List Element} {keys : List Key} {key : Key} {c : Call} : Trail m path keys →
      src.AskedBy catalog keys key → c ∈ src.calls catalog key →
      Trail m (path ++ [c.element]) (src.asks c)

/-- What is wrong at the end of the way. -/
def Concerns (path : List Element) (keys : List Key) : PlanError → Prop
  | .notFound key _ | .unresolved key => src.AskedBy catalog keys key
  | .ambiguous key candidates _ => src.AskedBy catalog keys key ∧ 2 ≤ candidates.length ∧
      candidates = (src.fitting key catalog.generics []).map fun (b, _) => b.member
  | .noScopeOwner scope cls _ => ∃ key, src.AskedBy catalog keys key ∧
      (src.choose catalog key).1 = .ownerless scope cls
  | .endless element _ => element ∈ path ∧ ∃ key, src.AskedBy catalog keys key ∧
      ∃ c ∈ src.calls catalog key, c.element = element
  | .unclosed _ _ => ∃ before element, path = before ++ [element] ∧ element ∈ before
  | .noConstructor _ | .tooDeep => True

/-- The entries on the stack show a way to something that asks for the key. -/
def Led (m : MemberId) (s : List BuildEntry) (_ : Option Key) (key : Key) : Prop :=
  ∃ path keys, src.Trail catalog m path keys ∧ elementsOf s = path.reverse ∧
    src.AskedBy catalog keys key

/-- The trace shows a way to what is wrong. -/
def Traced (m : MemberId) (e : PlanError) : Prop :=
  e.isTraced = true → ∃ path keys, src.Trail catalog m path keys ∧ e.trace = path.reverse ∧
    src.Concerns catalog path keys e

variable {src catalog} {m : MemberId} {site : Site} {st : PlannerState} {s : List BuildEntry}
  {u v : Option Key} {key : Key} {c : Call} {path : List Element} {keys : List Key}

/-! ## The way on the stack -/

theorem Trail.head (trail : src.Trail catalog m path keys) : path.head? = some (.member m) := by
  induction trail with
  | accessor => rfl
  | next _ _ _ ih => rw [List.head?_append, ih, Option.some_or]

theorem Trail.mem (trail : src.Trail catalog m path keys) : .member m ∈ path :=
  List.mem_of_mem_head? trail.head

theorem askedBy_self (mem : key ∈ keys) : src.AskedBy catalog keys key := ⟨key, mem, .refl⟩

/-- With a call for the key on it, the stack shows a way to the keys that the call asks for. -/
theorem Led.asked (led : src.Led catalog m s u key) (mem : c ∈ src.calls catalog key)
    {next : List BuildEntry} (entered : elementsOf next = c.element :: elementsOf s) :
    ∀ asked ∈ src.asks c, src.Led catalog m next v asked := by
  intro asked among
  obtain ⟨path, keys, trail, same, here⟩ := led
  refine ⟨path ++ [c.element], src.asks c, trail.next here mem, ?_, askedBy_self among⟩
  rw [entered, same, List.reverse_append, List.reverse_singleton, List.singleton_append]

theorem Led.inner (led : src.Led catalog m s u key) (unbound : src.Unbound catalog key)
    {inner : Key} (found : src.innerKey? key = some inner) :
    src.Led catalog m (.deferred :: s) v inner := by
  obtain ⟨path, keys, trail, same, asked, among, inside⟩ := led
  exact ⟨path, keys, trail, same, asked, among, inside.tail ⟨unbound, found⟩⟩

/-- What is wrong at a request is at the end of the way on the stack. -/
theorem Led.raises (led : src.Led catalog m s u key) {e : PlanError}
    (raised : src.Raises catalog s key e) : src.Traced catalog m e := by
  obtain ⟨path, keys, trail, same, here⟩ := led
  cases raised with
  | notFound => exact fun _ => ⟨path, keys, trail, same, here⟩
  | ambiguous fits several =>
      refine fun _ => ⟨path, keys, trail, same, here, ?_, ?_⟩
      · rwa [List.length_map]
      · rw [fits]
  | noScopeOwner chosen => exact fun _ => ⟨path, keys, trail, same, key, here, chosen⟩
  | unresolved => exact nofun
  | noConstructor => exact nofun

theorem Led.mem_path (same : elementsOf s = path.reverse) {element : Element}
    (there : .building element ∈ s) : element ∈ path := by
  have mem : element ∈ elementsOf s := mem_elements.mpr there
  rwa [same, List.mem_reverse] at mem

/-- An element that needs itself is on the way, and called for at its end. -/
theorem Led.endless (led : src.Led catalog m s u key) (mem : c ∈ src.calls catalog key)
    {above : List BuildEntry} (met : above? c.element s = some above) :
    src.Traced catalog m (.endless c.element (elementsOf s)) := by
  obtain ⟨path, keys, trail, same, here⟩ := led
  have on : c.element ∈ path := mem_path same (building_of_above? met)
  exact fun _ => ⟨path, keys, trail, same, on, key, here, c, mem, rfl⟩

/-- A cycle that waits ends with the declaration that it came back to. -/
theorem Led.unclosed (led : src.Led catalog m s u key) (mem : c ∈ src.calls catalog key)
    (there : .building c.element ∈ s) (accessor : MemberId) :
    src.Traced catalog m (.unclosed accessor (c.element :: elementsOf s)) := by
  obtain ⟨path, keys, trail, same, here⟩ := led
  refine fun _ => ⟨path ++ [c.element], src.asks c, trail.next here mem, ?_, path, c.element, rfl,
    mem_path same there⟩
  rw [List.reverse_append, List.reverse_singleton, List.singleton_append, ← same]
  rfl

/-! ## Every request -/

theorem descends_led :
    src.Descends catalog (src.Traced catalog m) (src.Led catalog m) (src.Led catalog m) where
  raises led raised := led.raises raised
  missing _ led := led.raises .notFound
  unwrap led _ _ := led
  asked led mem _ _ := led.asked mem rfl
  lambda led mem _ _ := led.asked mem rfl
  inner led unbound found := led.inner unbound found
  endless led mem _ met _ := led.endless mem met
  unclosed led mem there accessor := led.unclosed mem there accessor

/-- Requests fail with errors that are traced, however deep they go. -/
theorem agree_led (depth : Nat) :
    Agree catalog (src.Traced catalog m) (src.Led catalog m) (src.requestTo depth)
      (src.requestTo depth) := by
  induction depth with
  | zero => exact fun _ _ _ _ _ => .throw nofun
  | succ depth ih => exact agree_requestWith descends_led ih

/-- An accessor fails with an error that is traced. -/
theorem traced_implement {e : PlanError}
    (failed : ((src.implement site m).runFrom st).1 = .error e) :
    src.Traced site.catalog m e := by
  have first : src.Led site.catalog m [.building (.member m)] site.unwrapping
      (src.accessorKey site.catalog m) :=
    ⟨_, _, .accessor, rfl, askedBy_self (List.mem_singleton_self _)⟩
  have agree : Agree site.catalog (src.Traced site.catalog m) (src.Led site.catalog m)
      src.request src.request := fun site' key => agree_led (src.requestDepth key) site' key
  exact fail_of_implement agree descends_led.missing first failed

end Source

/-! ## The message -/

theorem intercalate_ne_empty {s t : String} {lines : List String} (mem : t ∈ lines)
    (told : t ≠ "") : String.intercalate s lines ≠ "" := by
  induction lines with
  | nil => cases mem
  | cons line rest ih =>
      by_cases last : rest = []
      · subst last
        rw [String.intercalate_singleton]
        rwa [← List.mem_singleton.mp mem]
      · rw [String.intercalate_cons_of_ne_nil last]
        intro empty
        simp only [String.append_eq_empty_iff] at empty
        rcases List.mem_cons.mp mem with rfl | later
        · exact told empty.1.1
        · exact ih later empty.2

/-- The line of a member is not empty: it tells a type. -/
theorem Program.traceLine_member_ne_empty (p : Program) (m : MemberId) :
    p.traceLine (.member m) ≠ "" := by
  have signature (decl : MemberDecl) : decl.signature ≠ "" := by
    unfold MemberDecl.signature
    cases decl.kind <;> simp
  simp only [traceLine]
  split
  · simp
  · exact signature _

theorem PlanError.opening_ne_nil {p : Program} {e : PlanError} : e.opening p ≠ [] := by
  cases e <;> exact List.cons_ne_nil _ _

namespace Source

variable {src : Source} {catalog : Catalog} {m : MemberId} {e : PlanError}
  {path : List Element} {keys : List Key}

/-- The headline is what stands above the trace. -/
theorem Concerns.intercalate_opening (concerns : src.Concerns catalog path keys e) (p : Program) :
    String.intercalate "\n" (e.opening p) = e.headline p := by
  cases e with
  | ambiguous key candidates trace =>
      have several : candidates.map (fun m => p.traceLine (.member m)) ≠ [] := by
        rw [Ne, List.map_eq_nil_iff]
        rintro rfl
        exact absurd concerns.2.1 (Nat.not_succ_le_zero 1)
      have head : PlanError.headline p (.ambiguous key candidates trace) =
          "Ambiguous bindings for: " ++ key.text ++ ", candidates:\n" ++
            p.traceText (candidates.map .member) := rfl
      have joint : ", candidates:\n" = ", candidates:" ++ "\n" := by decide
      rw [PlanError.opening, String.intercalate_cons_of_ne_nil several, head, Program.traceText,
        List.map_map, joint]
      simp only [String.append_assoc, Function.comp_def]
  | notFound | endless | unclosed | noScopeOwner | unresolved | noConstructor | tooDeep =>
      simp only [PlanError.opening, String.intercalate_singleton]

/-- A message with a trace is its lines. -/
theorem Concerns.message_eq (concerns : src.Concerns catalog path keys e) (p : Program)
    (traced : .member m ∈ e.trace) :
    e.message p = String.intercalate "\n" (e.opening p ++ e.trace.map p.traceLine) := by
  have line : p.traceLine (.member m) ∈ e.trace.map p.traceLine := List.mem_map_of_mem traced
  have shown : (p.traceText e.trace).isEmpty = false := by
    simpa [Program.traceText] using intercalate_ne_empty line (p.traceLine_member_ne_empty m)
  rw [String.intercalate_append_of_ne_nil PlanError.opening_ne_nil (List.ne_nil_of_mem line),
    concerns.intercalate_opening, PlanError.message]
  simp only [shown]
  rfl

/-- When an accessor fails, the lines of the message below its headline, and below the
candidates for an ambiguous key, are in reverse a way through the program from the accessor, to
what is wrong at its end. -/
theorem failure_message {site : Site} {st : PlannerState}
    (failed : (m, e) ∈ ((src.implementAll site).run st).1.failures) (traced : e.isTraced = true) :
    ∃ path keys, path.head? = some (.member m) ∧ src.Trail site.catalog m path keys ∧
      src.Concerns site.catalog path keys e ∧
      e.message src.program = String.intercalate "\n"
        (e.opening src.program ++ path.reverse.map src.program.traceLine) := by
  obtain ⟨-, before, failed⟩ := failed_of_mem failed
  obtain ⟨path, keys, trail, shows, concerns⟩ := traced_implement failed traced
  have mem : .member m ∈ e.trace := by
    rw [shows, List.mem_reverse]
    exact trail.mem
  refine ⟨path, keys, trail.head, trail, concerns, ?_⟩
  rw [concerns.message_eq src.program mem, shows]

end Source

/-- A `Foo` needs a `Bar` later on, which needs a `Baz`; that cannot be built. -/
def missingBaz : Source where
  program :=
    { classes := [.injectable "Foo" [("bar", .lazyOf { name := "Bar" })],
        .injectable "Bar" [("baz", { name := "Baz" })],
        .abstractComponent [.ofNat 0]]
      members := [.accessor (.ofNat 2) "foo" { name := "Foo" }] }
  options := {}

/-- Where the accessor of `missingBaz` is planned. -/
def missingBazSite : Site where
  className := "C"
  catalog := (missingBaz.collect (.ofNat 2) {}).1

/-- What planning `foo` fails with. -/
def missingBazError : PlanError :=
  .notFound (.of { name := "Baz" }) [.ctor (.ofNat 1) 0, .ctor (.ofNat 0) 0, .member (.ofNat 0)]

theorem missingBaz_message :
    (.ofNat 0, missingBazError) ∈ ((missingBaz.implementAll missingBazSite).run {}).1.failures ∧
      ∃ path keys, path.head? = some (.member (.ofNat 0)) ∧
        missingBaz.Trail missingBazSite.catalog (.ofNat 0) path keys ∧
        missingBaz.AskedBy missingBazSite.catalog keys (.of { name := "Baz" }) ∧
        missingBazError.message missingBaz.program = String.intercalate "\n"
          (missingBazError.opening missingBaz.program ++
            path.reverse.map missingBaz.program.traceLine) := by
  have failed : (.ofNat 0, missingBazError) ∈
      ((missingBaz.implementAll missingBazSite).run {}).1.failures := by
    decide +kernel
  obtain ⟨path, keys, first, trail, asked, message⟩ := Source.failure_message failed rfl
  exact ⟨failed, path, keys, first, trail, asked, message⟩

example : missingBazError.message missingBaz.program = String.intercalate "\n"
    ["Cannot find an @Inject constructor or provider for: Baz", "Bar(baz: Baz)",
      "Foo(bar: Lazy<Bar>)", "C.foo: Foo"] := by
  decide +kernel

end Injector
