/-
# Injector.Proofs.Planner.Transcription -- calm keys are built as their blueprints say

While an accessor is planned, every plan for a calm key is a copy of the key's blueprint,
whatever is under construction and whatever was planned before.  A request for such a key
fails only where the blueprint does, leaves pending cycles alone, and keeps plans for calm
keys only.

A request is `Sought` when planning can come to it, with depth enough; `quiet` says that
its key is calm.  There is one lemma for each function of the planner, in the order of
their definitions; `transcribes_requestTo` closes the circle by induction on the depth.
-/
import Injector.Proofs.Planner.Copying

namespace Injector

set_option autoImplicit false

open PlanM
open BuildStack (above?)
open LambdaParam (names types names_inside types_inside)

namespace Source

variable {src : Source} {catalog : Catalog} {className : String} {ms : List MemberId}
  {quiet : Prop} {st next : PlannerState} {site : Site} {key : Key} {around : List LambdaParam}
  {bp : List Ty → Option PlanTree}

/-! ## Requests that planning can come to -/

/-- Planning `m` may ask for the key with these entries on the stack, for which the depth is
enough; if `quiet`, the key is calm and `bare` says whether it is just being built for its
scope. -/
structure Sought (src : Source) (catalog : Catalog) (ms : List MemberId) (m : MemberId)
    (quiet : Prop) (depth : Nat) (bare : Bool) (site : Site) (s : List BuildEntry) (key : Key) :
    Prop where
  due : src.Due catalog m depth s site.unwrapping key
  calm : quiet → src.Calm catalog ms key
  bare_eq : quiet → site.isUnwrapping key = bare

variable {m : MemberId} {depth : Nat} {bare : Bool} {s : List BuildEntry} {c : Call}

theorem isUnwrapping_eq_false (fresh : site.unwrapping ≠ some key) :
    site.isUnwrapping key = false := by
  simpa [Site.isUnwrapping] using fresh

section Sought

variable (accessor : m ∈ ms)
  (sought : src.Sought catalog ms m quiet (depth + 1) bare site s key)

include sought

theorem Sought.unwrap (wrapped : site.isUnwrapping key = false)
    (built : src.calls catalog key ≠ []) :
    src.Sought catalog ms m quiet depth true (site.unwrap key) s key where
  due := sought.due.unwrap (by simpa [Site.isUnwrapping] using wrapped) built
  calm := sought.calm
  bare_eq _ := by simp [Site.isUnwrapping, Site.unwrap]

include accessor

/-- Where a call of a key is met within itself, its key recurs. -/
theorem Sought.recurs (mem : c ∈ src.calls catalog key) (met : .building c.element ∈ s) :
    src.Recurs catalog ms c.key :=
  ⟨m, accessor, s, site.unwrapping, key, c, sought.due.1, mem, met, rfl⟩

omit accessor in
theorem Sought.notRecurs (mem : c ∈ src.calls catalog key) : quiet → ¬src.Recurs catalog ms c.key :=
  fun q => sought.calm q key c .refl mem

theorem Sought.asked (mem : c ∈ src.calls catalog key) (now : c.inLambda = false)
    (new : above? c.element s = none) :
    ∀ asked ∈ src.asks c,
      src.Sought catalog ms m quiet depth false site (.building c.element :: s) asked := by
  intro asked asks
  have calm := fun q => (sought.calm q).asked mem asks
  exact ⟨sought.due.asked mem now new asked asks, calm, fun q =>
    isUnwrapping_eq_false ((calm q).asked_fresh accessor sought.due.1 mem new asks)⟩

theorem Sought.lambda (mem : c ∈ src.calls catalog key) (later : c.inLambda = true)
    (new : above? c.element s = none) (params : List LambdaParam) :
    ∀ asked ∈ src.asks c, src.Sought catalog ms m quiet depth false (site.inside params)
      (.building c.element :: .deferred :: s) asked := by
  intro asked asks
  have calm := fun q => (sought.calm q).asked mem asks
  have fresh := fun q => isUnwrapping_eq_false
    ((calm q).asked_fresh accessor sought.due.1 mem new asks)
  exact ⟨sought.due.lambda mem later new asked asks, calm, fresh⟩

theorem Sought.inner {inner : Key} (unbound : src.Unbound catalog key)
    (found : src.innerKey? key = some inner) (params : List LambdaParam) :
    src.Sought catalog ms m quiet depth false (site.inside params) (.deferred :: s) inner := by
  have calm := fun q => (sought.calm q).inner unbound found
  have fresh := fun q => isUnwrapping_eq_false
    ((calm q).inner_fresh accessor sought.due.1 unbound found)
  exact ⟨sought.due.inner unbound found, calm, fresh⟩

end Sought

/-- Requests that are sought are answered by copies of these blueprints. -/
def Transcribes (src : Source) (catalog : Catalog) (className : String) (ms : List MemberId)
    (m : MemberId) (depth : Nat) (blueprints : Blueprints) (requests : Requests) : Prop :=
  ∀ (quiet : Prop) (bare : Bool) site key st, site.Stands catalog className st →
    src.Sought catalog ms m quiet depth bare site st.stack.entries key →
    Meets (src.copying catalog className ms quiet) st (requests site key)
      (fun answer next => (∀ slot ∈ answer, slot.key = key) ∧
        Told quiet site.around Reading.value.option
          (fun scope => blueprints bare scope key) next.arena answer)
      fun _ => quiet → blueprints bare (types site.around) key = none

/-! ## Calls -/

section Copies

variable {requests : Requests} {blueprints : Blueprints} (tidy : src.Tidy catalog ms)
  (accessor : m ∈ ms) (replies : src.Transcribes catalog className ms m depth blueprints requests)

include replies

theorem mirrors_demand (stands : site.Stands catalog className st)
    (sought : src.Sought catalog ms m quiet depth bare site st.stack.entries key) :
    src.Mirrors catalog className ms quiet site.around st .slot (demand requests site key)
      fun scope => blueprints.demand bare scope key := by
  have failing (scope : List Ty)
      (none : blueprints bare scope key = none ∨ blueprints bare scope key = some none) :
      blueprints.demand bare scope key = .none := by
    rw [Blueprints.demand]
    rcases none with none | none <;> rw [none]
  refine (replies quiet bare site key st stands sought).andThen
    (fun e none q => failing _ (.inl (none q))) ?_
  rintro answer next - - ⟨same, told⟩
  cases answer with
  | none => exact .failTraced fun q => failing _ (.inr (told.copies q _ clear_around))
  | some slot =>
      refine .pure ⟨told.serves, fun q inner clear => ?_⟩
      have copy := told.copies q inner clear
      rw [Blueprints.demand, copy, ← same slot rfl]
      rfl

theorem mirrors_arguments {subst : Subst} (element : Element) {params : List ParamDecl}
    (out : Table String Slot) (stands : site.Stands catalog className st)
    (distinct : (out.keys ++ params.map (·.name)).Nodup)
    (sought : ∀ param ∈ params, src.Sought catalog ms m quiet depth false site st.stack.entries
      (src.paramKey subst param)) :
    Meets (src.copying catalog className ms quiet) st
      (src.arguments requests site subst element params out)
      (fun args next => ∃ rows, args.rows = out.rows ++ rows ∧
        Told quiet site.around Reading.slot.row.list
          (fun scope => blueprints.arguments src scope subst params) next.arena rows)
      fun _ => quiet →
        blueprints.arguments src (types site.around) subst params = none := by
  induction params generalizing out st with
  | nil =>
      exact .pure ⟨[], by simp, List.forall_mem_nil _, fun _ _ _ => rfl⟩
  | cons param rest ih =>
      simp only [arguments]
      refine (copies_report _ _).bind fun _ mid _ le _ => ?_
      have first : src.Sought catalog ms m quiet depth false site mid.stack.entries
          (src.paramKey subst param) := le.entries ▸ sought param List.mem_cons_self
      refine (replies quiet false site _ mid (stands.mono le.taken) first).andThen
        (fun e none q => ?_) ?_
      · rw [Blueprints.arguments, none q]
      rintro answer next settled le' ⟨same, told⟩
      have stands' := stands.mono fun name mem => le'.taken name (le.taken name mem)
      have others : ∀ p ∈ rest, src.Sought catalog ms m quiet depth false site next.stack.entries
          (src.paramKey subst p) := by
        intro p mem
        rw [le'.entries, le.entries]
        exact sought p (List.mem_cons_of_mem param mem)
      cases answer with
      | none =>
          have skips (q : quiet) {inner : List LambdaParam}
              (clear : Clear site.around next.arena [] inner) :
              blueprints.arguments src (types inner) subst (param :: rest) =
                if param.hasDefault then
                  blueprints.arguments src (types inner) subst rest else none := by
            rw [Blueprints.arguments, told.copies q inner clear]
            rfl
          dsimp only
          split
          · rename_i default
            refine (ih _ stands' (distinct.sublist (by simp)) others).mono ?_ fun e none q => ?_
            · rintro args last - le'' ⟨rows, split, told'⟩
              refine ⟨rows, split, told'.serves, fun q inner clear => ?_⟩
              have outer : Clear site.around next.arena [] inner :=
                (clear.subset (List.forall_mem_nil _)).of_within le''.within (List.forall_mem_nil _)
              rw [skips q outer, if_pos default]
              exact told'.copies q inner clear
            · rw [skips q clear_around, if_pos default]
              exact none q
          · rename_i required
            refine .failTraced fun q => ?_
            rw [skips q clear_around, if_neg required]
      | some slot =>
          have new : param.name ∉ out.keys := by
            intro mem
            exact (List.nodup_append.mp distinct).2.2 _ mem _ List.mem_cons_self rfl
          have behind : (out.insert param.name slot).rows = out.rows ++ [(param.name, slot)] :=
            Table.rows_insert_of_notMem new slot
          have distinct' : ((out.insert param.name slot).keys ++ rest.map (·.name)).Nodup := by
            rw [Table.keys, behind]
            simpa [Table.keys] using distinct
          have takes (q : quiet) {inner : List LambdaParam}
              (clear : Clear site.around next.arena [slot.id] inner) :
              blueprints.arguments src (types inner) subst (param :: rest) =
                (blueprints.arguments src (types inner) subst rest).map
                  (Reading.slot.row.read next.arena (names inner) (param.name, slot) :: ·) := by
            rw [Blueprints.arguments, told.copies q inner clear, ← same slot rfl]
            rfl
          refine (ih _ stands' distinct' others).mono ?_ fun e none q => ?_
          · rintro args last - le'' ⟨rows, split, told'⟩
            have known : slot.id < next.arena.size :=
              (told.serves slot.id (List.mem_singleton_self _)).known
            refine ⟨(param.name, slot) :: rows, by rw [split, behind]; simp, ?_, ?_⟩
            · intro id mem
              rcases List.mem_append.mp mem with mem | mem
              · exact (told.serves id mem).mono le''.within
              · exact told'.serves id mem
            · intro q inner clear
              have here : Clear site.around next.arena [slot.id] inner :=
                (clear.subset fun id mem => List.mem_append_left _ mem).of_within le''.within
                  fun id mem => by
                    obtain rfl := List.mem_singleton.mp mem
                    exact known
              have there := told'.copies q inner
                (clear.subset fun id mem => List.mem_append_right _ mem)
              have stable : Reading.slot.row.read last.arena (names inner) (param.name, slot) =
                  Reading.slot.row.read next.arena (names inner) (param.name, slot) :=
                Reading.slot.row.stable settled.sound le''.within fun id mem =>
                  (told.serves id mem).known
              rw [takes q here, there, ← stable]
              rfl
          · rw [takes q clear_around, none q]
            rfl

/-- All arguments of a call. -/
theorem mirrors_passed {subst : Subst} (element : Element) {params : List ParamDecl}
    (stands : site.Stands catalog className st) (distinct : (params.map (·.name)).Nodup)
    (sought : ∀ param ∈ params, src.Sought catalog ms m quiet depth false site st.stack.entries
      (src.paramKey subst param)) :
    Meets (src.copying catalog className ms quiet) st
      (src.arguments requests site subst element params {})
      (fun args next => Told quiet site.around Reading.slot.row.list
        (fun scope => blueprints.arguments src scope subst params) next.arena args.rows)
      fun _ => quiet → blueprints.arguments src (types site.around) subst params = none := by
  refine (mirrors_arguments replies element {} stands distinct sought).mono ?_ fun _ none => none
  rintro args next - - ⟨rows, whole, told⟩
  rw [whole]
  exact told

theorem mirrors_receiverFor {subst : Subst} {receiver : Option Ty}
    (stands : site.Stands catalog className st)
    (sought : ∀ ty ∈ receiver,
      src.Sought catalog ms m quiet depth false site st.stack.entries (receiverKey subst ty)) :
    src.Mirrors catalog className ms quiet site.around st Reading.slot.option
      (receiverFor requests site subst receiver)
      fun scope => blueprints.receiver scope subst receiver := by
  cases receiver with
  | none => exact .pure ⟨List.forall_mem_nil _, fun _ _ _ => rfl⟩
  | some ty =>
      have demanded := mirrors_demand replies stands (sought ty rfl)
      refine Meets.andThen demanded (fun e none q => ?_)
        fun slot next _ _ told => .pure ⟨told.serves, fun q inner clear => ?_⟩
      · exact congrArg (Option.map some) (none q)
      · exact congrArg (Option.map some) (told.copies q inner clear)

/-- The receiver, the arguments and then the call itself, outside the parameters of the
lambda that makes it, if there is one. -/
theorem mirrors_call (c : Call) {lambda : List LambdaParam}
    {step blank : Option Slot → Table String Slot → Plan}
    (split : site.around = lambda.reverse ++ around)
    (stands : site.Stands catalog className st)
    (new : ∀ name ∈ names lambda, name ∉ names around ∧ IsParamName name)
    (distinct : (c.params.map (·.name)).Nodup)
    (sought : ∀ asked ∈ src.asks c,
      src.Sought catalog ms m quiet depth false site st.stack.entries asked)
    (calls : ∀ receiver args, (step receiver args).Calls lambda receiver args blank) :
    src.Mirrors catalog className ms quiet around st .plan (do
      let receiver ← receiverFor requests site c.subst c.receiver
      let args ← src.arguments requests site c.subst c.element c.params {}
      alloc (step receiver args)) fun scope =>
        blueprints.passed src ((types lambda).reverse ++ scope) c.subst c.receiver c.params
          blank := by
  have below : types site.around = (types lambda).reverse ++ types around := by
    rw [split, types_inside]
  have receiver : ∀ ty ∈ c.receiver, src.Sought catalog ms m quiet depth false site
      st.stack.entries (receiverKey c.subst ty) :=
    fun ty mem => sought _ (List.mem_append_left _ (by simp [Option.mem_def.mp mem]))
  have received := mirrors_receiverFor replies stands receiver
  refine Meets.andThen received (fun e none q => ?_) fun answer mid settled le told => ?_
  · simp only [Blueprints.passed, ← below, none q, Option.bind_none]
  have params : ∀ param ∈ c.params, src.Sought catalog ms m quiet depth false site
      mid.stack.entries (src.paramKey c.subst param) := by
    intro param mem
    rw [le.entries]
    exact sought _ (List.mem_append_right _ (List.mem_map_of_mem mem))
  have passed := mirrors_passed replies c.element (stands.mono le.taken) distinct params
  refine Meets.andThen passed (fun e none q => ?_) fun args next _ le' told' => ?_
  · simp only [Blueprints.passed, ← below, none q, Option.map_none, Option.bind_fun_none]
  have told := told.mono settled.sound le'.within
  rw [split] at told told'
  exact mirrors_alloc_call (calls answer args) new told told'

include tidy accessor

theorem mirrors_planCtor {cls : ClassId} {index : Nat} {ty : Ty} (k : Key)
    (stands : site.Stands catalog className st)
    (sought : src.Sought catalog ms m quiet (depth + 1) bare site st.stack.entries key)
    (mem : src.ctorCall k cls index ty ∈ src.calls catalog key) :
    src.Mirrors catalog className ms quiet site.around st .plan
      (src.planCtor requests site k cls index ty)
      fun scope => blueprints.ctor src scope cls index ty := by
  refine mirrors_constructing tidy (sought.recurs accessor mem) (sought.notRecurs mem) fun new => ?_
  dsimp only
  have asks := sought.asked accessor mem rfl new
  cases found : (src.program.classAt cls).ctors[index]? with
  | none =>
      refine .throw fun _ => ?_
      simp only [Blueprints.ctor, found]
  | some ctor =>
      simp only [Blueprints.ctor, found]
      have params : ∀ param ∈ ctor.params, src.Sought catalog ms m quiet depth false site
          (st.push (.building (src.ctorCall k cls index ty).element)).stack.entries
          (src.paramKey ((src.program.classAt cls).substFor ty) param) := by
        intro param among
        refine asks _ (List.mem_append_right _ (List.mem_map.mpr ⟨param, ?_, rfl⟩))
        simpa only [ctorCall, found, Option.map_some, Option.getD_some] using among
      have stands : site.Stands catalog className
          (st.push (.building (src.ctorCall k cls index ty).element)) :=
        stands.mono fun _ mem => mem
      have passed := mirrors_passed replies (.ctor cls (UInt64.ofNat index)) stands
        (tidy.distinct.ctor found) params
      refine Meets.andThen passed (fun e none q => ?_) fun args next _ _ told => ?_
      · simp only [none q, Option.map_none]
      · have received : Told quiet site.around Reading.slot.option (fun _ => some none)
          next.arena none := ⟨List.forall_mem_nil _, fun _ _ _ => rfl⟩
        have calls : (Plan.construct ty args ctor.namedArguments).Calls [] none args
            fun _ args => .construct ty args ctor.namedArguments := ⟨rfl, rfl, rfl, rfl, rfl⟩
        exact mirrors_alloc_call calls (List.forall_mem_nil _) received told

theorem mirrors_planCall {b : MemberBinding} {subst : Subst} (k : Key)
    (stands : site.Stands catalog className st)
    (sought : src.Sought catalog ms m quiet (depth + 1) bare site st.stack.entries key)
    (mem : src.memberCall k b.member subst false ∈ src.calls catalog key) :
    src.Mirrors catalog className ms quiet site.around st .plan
      (src.planCall requests site k b subst)
      fun scope => blueprints.call src className scope b subst := by
  refine mirrors_constructing tidy (sought.recurs accessor mem) (sought.notRecurs mem) fun new => ?_
  have asks := sought.asked accessor mem rfl new
  have stands' : site.Stands catalog className (st.push (.building (.member b.member))) :=
    stands.mono fun _ mem => mem
  let step (receiver : Option Slot) (args : Table String Slot) : Plan :=
    .provide className (src.program.memberAt b.member).name b.path receiver
      ((src.program.memberAt b.member).kind == .property) args
  have calls (receiver : Option Slot) (args : Table String Slot) :
      (step receiver args).Calls [] receiver args step := ⟨rfl, rfl, rfl, rfl, rfl⟩
  have called := mirrors_call replies (src.memberCall k b.member subst false) rfl stands'
    (List.forall_mem_nil _) (tidy.distinct.member b.member) asks calls
  rw [stands.className_eq]
  exact called

omit tidy accessor in
theorem mirrors_planKept {path : FieldPath} (stands : site.Stands catalog className st)
    (sought : src.Sought catalog ms m quiet (depth + 1) bare site st.stack.entries key)
    (wrapped : site.isUnwrapping key = false) (built : src.calls catalog key ≠ []) :
    src.Mirrors catalog className ms quiet site.around st .plan (planKept requests site key path)
      fun scope => blueprints.kept scope key path := by
  have demanded := mirrors_demand replies (stands.unwrap key) (sought.unwrap wrapped built)
  refine Meets.andThen demanded (fun e none q => ?_) fun slot next _ _ told => ?_
  · exact congrArg (Option.map _) (none q)
  · have surrounds : (Plan.keep key.text path slot).Surrounds [] slot (.keep key.text path) :=
      ⟨rfl, rfl, rfl, rfl, rfl⟩
    exact mirrors_alloc_around surrounds (List.forall_mem_nil _) told

theorem mirrors_planMember {b : MemberBinding} {subst : Subst}
    (stands : site.Stands catalog className st)
    (sought : src.Sought catalog ms m quiet (depth + 1) bare site st.stack.entries key)
    (mem : src.memberCall key b.member subst false ∈ src.calls catalog key) :
    src.Mirrors catalog className ms quiet site.around st .plan
      (src.planMember requests site key b subst)
      fun scope => blueprints.member src className bare scope key b subst := by
  have unfolds (q : quiet) (scope : List Ty) :
      blueprints.member src className bare scope key b subst =
        if b.scopedIn.isSome && !site.isUnwrapping key then
          blueprints.kept scope key b.path
        else blueprints.call src className scope b subst := by
    rw [Blueprints.member, sought.bare_eq q]
  simp only [planMember]
  split
  · rename_i wrap
    have wrapped : site.isUnwrapping key = false := by simp_all
    refine (mirrors_planKept replies stands sought wrapped
      (List.ne_nil_of_mem mem)).congr fun q _ _ _ => ?_
    rw [unfolds q, if_pos wrap]
  · rename_i direct
    refine (mirrors_planCall tidy accessor replies key stands sought mem).congr fun q _ _ _ => ?_
    rw [unfolds q, if_neg direct]

theorem mirrors_contributorSlots {contributors : List MemberBinding}
    (stands : site.Stands catalog className st)
    (sought : src.Sought catalog ms m quiet (depth + 1) bare site st.stack.entries key)
    (mem : ∀ b ∈ contributors, src.memberCall (src.contributionKey b) b.member .empty false ∈
      src.calls catalog key) :
    src.Mirrors catalog className ms quiet site.around st Reading.slot.list
      (src.contributorSlots requests site contributors)
      fun scope => blueprints.contributors src className scope contributors := by
  induction contributors generalizing st with
  | nil => exact .pure ⟨List.forall_mem_nil _, fun _ _ _ => rfl⟩
  | cons b rest ih =>
      simp only [contributorSlots, Blueprints.contributors]
      have called := mirrors_planCall tidy accessor replies (src.contributionKey b) stands sought
        (mem b List.mem_cons_self)
      refine Meets.andThen called (fun e none q => ?_) fun id mid settled le told => ?_
      · simp only [none q, Option.bind_none]
      have others := ih (stands.mono le.taken) (le.entries ▸ sought)
        fun b among => mem b (List.mem_cons_of_mem _ among)
      refine Meets.andThen others (fun e none q => ?_)
        fun slots next _ le' told' => .pure ⟨fun other mem => ?_, fun q inner clear => ?_⟩
      · simp only [none q, Option.map_none, Option.bind_fun_none]
      · rcases List.mem_append.mp mem with mem | mem
        · exact (told.serves other mem).mono le'.within
        · exact told'.serves other mem
      · have told := told.mono settled.sound le'.within
        have first := told.copies q inner (clear.subset fun id mem => List.mem_append_left _ mem)
        have second := told'.copies q inner (clear.subset fun id mem => List.mem_append_right _ mem)
        simp only [first, second, Option.bind_some, Option.map_some]
        rfl

theorem mirrors_planBinding {b : Binding} (stands : site.Stands catalog className st)
    (sought : src.Sought catalog ms m quiet (depth + 1) bare site st.stack.entries key)
    (chosen : (src.choose catalog key).1 = .binding b) :
    src.Mirrors catalog className ms quiet site.around st .plan
      (src.planBinding requests site key b)
      fun scope => blueprints.binding src className bare scope key b := by
  have calls := calls_of_binding chosen
  cases b with
  | ctor cls index ty path scopedIn =>
      have mem : src.ctorCall key cls index ty ∈ src.calls catalog key := by
        rw [calls]
        exact List.mem_singleton_self _
      have unfolds (q : quiet) (scope : List Ty) :
          blueprints.binding src className bare scope key
              (.ctor cls index ty path scopedIn) =
            if scopedIn.isSome && !site.isUnwrapping key then
              blueprints.kept scope key path
            else blueprints.ctor src scope cls index ty := by
        rw [Blueprints.binding, sought.bare_eq q]
      simp only [planBinding]
      split
      · rename_i wrap
        have wrapped : site.isUnwrapping key = false := by simp_all
        refine (mirrors_planKept replies stands sought wrapped
          (List.ne_nil_of_mem mem)).congr fun q _ _ _ => ?_
        rw [unfolds q, if_pos wrap]
      · rename_i direct
        refine (mirrors_planCtor tidy accessor replies key stands sought mem).congr
          fun q _ _ _ => ?_
        rw [unfolds q, if_neg direct]
  | member b =>
      have mem : src.memberCall key b.member .empty false ∈ src.calls catalog key := by
        rw [calls]
        exact List.mem_singleton_self _
      exact mirrors_planMember tidy accessor replies stands sought mem
  | container kind contributors =>
      have mem : ∀ b ∈ contributors,
          src.memberCall (src.contributionKey b) b.member .empty false ∈ src.calls catalog key := by
        rw [calls]
        exact fun b among => List.mem_map_of_mem among
      have contributed := mirrors_contributorSlots tidy accessor replies stands sought mem
      refine Meets.andThen contributed (fun e none q => ?_) fun slots next _ _ told => ?_
      · exact congrArg (Option.map _) (none q)
      · have composes : (Plan.container kind slots).Composes [] slots
            (.container kind (slots.map fun s => { s with id := 0 })) := ⟨rfl, rfl, rfl, rfl, rfl⟩
        refine mirrors_alloc composes (List.forall_mem_nil _) (fun c child => ?_)
          fun q inner clear => ?_
        · refine told.serves c.id ?_
          rw [Reading.ids_slots]
          exact List.mem_map_of_mem child
        · have copy := told.copies q inner (by rwa [Reading.ids_slots])
          simp only [Blueprints.binding, copy, Option.map_some, Reading.list, List.map_map]
          rfl
  | object cls =>
      have composes : (Plan.object (src.program.classAt cls).ty).Composes [] []
          (.object (src.program.classAt cls).ty) := ⟨rfl, rfl, rfl, rfl, rfl⟩
      exact mirrors_alloc composes (List.forall_mem_nil _) (List.forall_mem_nil _)
        fun _ _ _ => rfl

/-! ## Values built later -/

theorem mirrors_planFunctionCall {f : MemberId} {tys : List Ty}
    (stands : site.Stands catalog className st)
    (sought : src.Sought catalog ms m quiet (depth + 1) bare site st.stack.entries key)
    (mem : src.memberCall key f .empty true ∈ src.calls catalog key) :
    src.Mirrors catalog className ms quiet site.around st .plan
      (src.planFunctionCall requests site key f tys)
      fun scope => blueprints.functionCall src scope f tys := by
  refine copies_deferred (fun x mid last arena _ told => arena ▸ told) ?_
  refine mirrors_constructing tidy (fun met => sought.recurs accessor mem ?_)
    (sought.notRecurs mem) fun new => ?_
  · exact (List.mem_cons.mp met).resolve_left (by simp)
  have new : above? (.member f) st.stack.entries = none := by
    have new : above? (.member f) (.deferred :: st.stack.entries) = none := new
    rwa [above?, if_neg (by simp), Option.map_eq_none_iff] at new
  refine Meets.bind (copies_nameParams _) ?_
  rintro lambda start - le ⟨same, distinct, fresh⟩
  have asks : ∀ asked ∈ src.asks (src.memberCall key f .empty true), src.Sought catalog ms m quiet
      depth false (site.inside lambda) start.stack.entries asked := by
    rw [le.entries]
    exact sought.lambda accessor mem rfl new lambda
  have outside : ∀ name ∈ names lambda, name ∉ names site.around ∧ IsParamName name :=
    fun name mem => ⟨fun around => (fresh name mem).1 (stands.taken name around).1,
      (fresh name mem).2.2⟩
  have inside : (site.inside lambda).Stands catalog className start :=
    (stands.mono le.taken).inside distinct fun name mem =>
      ⟨(outside name mem).1, (fresh name mem).2⟩
  let step (receiver : Option Slot) (args : Table String Slot) : Plan :=
    .namedFunction (src.program.memberAt f).package (src.program.memberAt f).name (names lambda)
      receiver args
  let blank (receiver : Option Slot) (args : Table String Slot) : Plan :=
    .namedFunction (src.program.memberAt f).package (src.program.memberAt f).name
      (tys.map fun _ => "") receiver args
  have calls (receiver : Option Slot) (args : Table String Slot) :
      (step receiver args).Calls lambda receiver args blank := by
    refine ⟨rfl, rfl, rfl, rfl, ?_⟩
    simp only [step, blank, ← same, types, names, Plan.shape, Plan.mapSlots, Plan.nameless,
      List.map_map]
    rfl
  have called := mirrors_call replies (src.memberCall key f .empty true) (site.around_inside lambda)
    inside outside (tidy.distinct.member f) asks calls
  rw [same] at called
  exact called

theorem mirrors_planFunction (stands : site.Stands catalog className st)
    (sought : src.Sought catalog ms m quiet (depth + 1) bare site st.stack.entries key)
    (unbound : src.Unbound catalog key) (function : key.ty.isFunction = true) :
    src.Mirrors catalog className ms quiet site.around st .plan (src.planFunction requests site key)
      fun scope => blueprints.function src scope key := by
  simp only [planFunction]
  split
  · rename_i none
    refine .failTraced fun _ => ?_
    simp only [Blueprints.function, none]
  · rename_i result last
    split
    · rename_i f aliased
      have mem : src.memberCall key f .empty true ∈ src.calls catalog key := by
        rw [calls_of_unbound unbound]
        simp [unboundCalls, function, aliased]
      simp only [Blueprints.function, last, aliased]
      exact mirrors_planFunctionCall tidy accessor replies stands sought mem
    · rename_i aliased
      simp only [Blueprints.function, last, aliased]
      have inner : src.innerKey? key = some (.of result key.qualifier) := by
        simp [innerKey?, function, aliased, last]
      -- What is told inside the lambda, of its parameters and of the slot.
      let told (x : List LambdaParam × Slot) (next : PlannerState) : Prop :=
        types x.1 = key.ty.dealias.args.dropLast ∧
          (∀ name ∈ names x.1, name ∉ names site.around ∧ IsParamName name) ∧
          Told quiet (x.1.reverse ++ site.around) Reading.slot (fun scope =>
            blueprints.demand false scope (.of result key.qualifier))
            next.arena x.2
      refine Meets.bind (copies_deferred ?_ ?_ : Meets _ st _ told _) ?_
      · rintro x mid last arena - ⟨same, outside, told⟩
        exact ⟨same, outside, arena ▸ told⟩
      · refine Meets.bind (copies_nameParams _) ?_
        rintro lambda mid - le ⟨same, distinct, fresh⟩
        have outside : ∀ name ∈ names lambda, name ∉ names site.around ∧ IsParamName name :=
          fun name mem => ⟨fun around => (fresh name mem).1 (stands.taken name around).1,
            (fresh name mem).2.2⟩
        have inside : (site.inside lambda).Stands catalog className mid :=
          (stands.mono le.taken).inside distinct fun name mem =>
            ⟨(outside name mem).1, (fresh name mem).2⟩
        have asked : src.Sought catalog ms m quiet depth false (site.inside lambda)
            mid.stack.entries (.of result key.qualifier) := by
          rw [le.entries]
          exact sought.inner accessor unbound inner lambda
        have demanded := mirrors_demand replies inside asked
        rw [Site.around_inside] at demanded
        refine Meets.andThen demanded (fun e none q => ?_)
          fun slot next _ _ told => .pure ⟨same, outside, told⟩
        rw [types_inside, same] at none
        exact congrArg (Option.map _) (none q)
      · rintro ⟨lambda, slot⟩ next - - ⟨same, outside, told⟩
        have same : types lambda = key.ty.dealias.args.dropLast := same
        have surrounds : (Plan.function (names lambda) slot).Surrounds lambda slot
            (.function ((types lambda).map fun _ => "")) := by
          refine ⟨rfl, rfl, rfl, rfl, ?_⟩
          simp only [types, names, Plan.shape, Plan.mapSlots, Plan.nameless, List.map_map]
          rfl
        rw [← same]
        exact mirrors_alloc_around surrounds outside told

omit tidy in
theorem mirrors_planLazy (stands : site.Stands catalog className st)
    (sought : src.Sought catalog ms m quiet (depth + 1) bare site st.stack.entries key)
    (unbound : src.Unbound catalog key) (plain : key.ty.isFunction = false)
    (strict : key.ty.isLazy = true) :
    src.Mirrors catalog className ms quiet site.around st .plan (planLazy requests site key)
      fun scope => blueprints.lazy scope key := by
  simp only [planLazy]
  split
  · rename_i none
    refine .failTraced fun _ => ?_
    simp only [Blueprints.lazy, none]
  · rename_i inner first
    simp only [Blueprints.lazy, first]
    have inner : src.innerKey? key = some (.of inner key.qualifier) := by
      simp [innerKey?, plain, strict, first]
    have asked := sought.inner accessor unbound inner []
    rw [show site.inside [] = site by simp [Site.inside]] at asked
    have stands' : site.Stands catalog className (st.push .deferred) := stands.mono fun _ mem => mem
    have demanded := mirrors_demand replies stands' asked
    refine (copies_deferred (fun x mid last arena _ told => arena ▸ told) demanded).andThen
      (fun e none q => ?_) fun slot next _ _ told => ?_
    · exact congrArg (Option.map _) (none q)
    · have surrounds : (Plan.lazy slot).Surrounds [] slot .lazy := ⟨rfl, rfl, rfl, rfl, rfl⟩
      exact mirrors_alloc_around surrounds (List.forall_mem_nil _) told

/-! ## Requests -/

theorem mirrors_planGeneric (stands : site.Stands catalog className st)
    (sought : src.Sought catalog ms m quiet (depth + 1) bare site st.stack.entries key)
    (unbound : src.Unbound catalog key) (plain : key.ty.isFunction = false)
    (strict : key.ty.isLazy = false) :
    src.Mirrors catalog className ms quiet site.around st Reading.plan.option
      (src.planGeneric requests site key)
      fun scope => blueprints.generic src catalog className bare scope key := by
  simp only [planGeneric]
  rw [stands.catalog_eq]
  split
  · rename_i none
    refine .pure ⟨List.forall_mem_nil _, fun _ _ _ => ?_⟩
    simp only [Blueprints.generic, none, Reading.option, Option.map_none]
  · rename_i b subst fits
    have mem : src.memberCall key b.member subst false ∈ src.calls catalog key := by
      rw [calls_of_unbound unbound]
      simp [unboundCalls, plain, strict, fits]
    simp only [Blueprints.generic, fits]
    exact (mirrors_planMember tidy accessor replies stands sought mem).map_some
  · rename_i none one
    refine .failTraced fun _ => ?_
    simp only [Blueprints.generic]

omit tidy accessor replies in
theorem copies_bindingFor (own : site.catalog = catalog) (fail : PlanError → Prop)
    (ownerless : ∀ scope cls, (src.choose catalog key).1 = .ownerless scope cls → ∀ e, fail e) :
    Meets (src.copying catalog className ms quiet) st (src.bindingFor site key) (fun answer _ =>
      match answer with
      | some b => (src.choose catalog key).1 = .binding b
      | none => src.Unbound catalog key) fail := by
  subst own
  simp only [bindingFor]
  refine (copies_report _ _).bind fun _ next _ _ _ => ?_
  split
  · rename_i chosen
    exact .pure chosen
  · rename_i b chosen
    exact .pure chosen
  · rename_i scope cls chosen
    exact .failTraced (ownerless scope cls chosen _)

omit tidy accessor replies in
/-- The position of the lambda parameter that stands for a key, unless it is an outer one. -/
theorem paramIndex?_of_findParam {param : LambdaParam} {inner outer : List LambdaParam}
    (stands : site.Stands catalog className st)
    (found : site.findParam src.program key = some param) (split : site.around = inner ++ outer)
    (near : param.name ∉ names outer) :
    ∃ n, src.paramIndex? (types inner) key = some n ∧ (names inner).idxOf? param.name = some n := by
  simp only [Site.findParam] at found
  split at found
  · cases found
  rename_i unqualified
  have found : site.around.find? (fun param => src.program.isAssignable key.ty param.ty) =
      some param := found
  rw [split, List.find?_append] at found
  have found : inner.find? (fun param => src.program.isAssignable key.ty param.ty) =
      some param := by
    refine (Option.or_eq_some_iff.mp found).elim id fun far => absurd ?_ near
    exact List.mem_map_of_mem (List.mem_of_find?_eq_some far.2)
  obtain ⟨fits, n, lt, here, first⟩ := List.find?_eq_some_iff_getElem.mp found
  have distinct : (names inner).Nodup := by
    have all := stands.distinct
    rw [split, names, List.map_append] at all
    exact (List.nodup_append.mp all).1
  refine ⟨n, ?_, ?_⟩
  · rw [paramIndex?, if_neg unqualified, types, List.findIdx?_map]
    refine List.findIdx?_eq_some_iff_getElem.mpr ⟨lt, by simpa [here] using fits, fun j less => ?_⟩
    simpa using first j less
  · refine List.idxOf?_eq_some_iff.mpr ⟨by simpa [names] using lt, by simp [names, here], ?_⟩
    intro j less same
    have lt' : n < (names inner).length := by simpa [names] using lt
    have equal : (names inner)[j] = (names inner)[n] := same.trans (by simp [names, here])
    have := (List.Nodup.getElem_inj_iff distinct).mp equal
    omega

omit tidy accessor replies in
theorem paramIndex?_eq_none {inner outer : List LambdaParam}
    (none : site.findParam src.program key = none) (split : site.around = inner ++ outer) :
    src.paramIndex? (types inner) key = .none := by
  simp only [Site.findParam] at none
  rw [paramIndex?]
  split at none
  · rename_i qualified
    rw [if_pos qualified]
  · rename_i unqualified
    have none : site.around.find? (fun param => src.program.isAssignable key.ty param.ty) = .none :=
      none
    rw [split, List.find?_append, Option.or_eq_none_iff] at none
    rw [if_neg unqualified, types, List.findIdx?_map]
    refine List.findIdx?_eq_none_iff.mpr fun param mem => ?_
    simpa using List.find?_eq_none.mp none.1 param mem

omit tidy accessor replies in
/-- A reference to the lambda parameter that stands for the key. -/
theorem mirrors_alloc_arg {param : LambdaParam} (stands : site.Stands catalog className st)
    (known : key.ty.isUnresolved = false)
    (found : site.findParam src.program key = some param) :
    src.Mirrors catalog className ms quiet site.around st Reading.plan.option
      (do return some (← alloc (.arg param.name)))
      fun scope => blueprints.next src catalog className bare scope key := by
  have around : param.name ∈ names site.around := by
    simp only [Site.findParam] at found
    split at found
    · cases found
    · exact List.mem_map_of_mem (List.mem_of_find?_eq_some found)
  have kind : IsParamName param.name := (stands.taken _ around).2
  have arg : ∀ name, Plan.arg param.name = .arg name → IsParamName name := by
    rintro name ⟨⟩
    exact kind
  have added : Meets (src.copying catalog className ms quiet) st (alloc (.arg param.name))
      (fun id next => Told quiet site.around Reading.plan.option
        (fun scope => blueprints.next src catalog className bare scope key) next.arena (some id))
      fun _ => quiet →
        blueprints.next src catalog className bare (types site.around) key = none := by
    have leaf : ∀ c ∈ (Plan.arg param.name).children, c.id < st.arena.size :=
      List.forall_mem_nil _
    have unnamed : ∀ name, Plan.arg param.name = .localVar name ∨
        (Plan.arg param.name).declared? = some name → ¬IsParamName name := by simp [Plan.declared?]
    refine .of_ok (runFrom_alloc _ st) fun settled =>
      ⟨settled.add leaf (List.forall_mem_nil _) arg unnamed, .add _,
        fun id mem => ?_, fun q inner clear => ?_⟩
    · obtain rfl := List.mem_singleton.mp mem
      refine serves_alloc settled.sound leaf (fun name refers _ => ?_) (List.forall_mem_nil _)
      obtain rfl := Option.some.inj refers
      exact around
    · have sound := settled.sound.alloc leaf
      have there := Arena.plan?_alloc_self st.arena (.arg param.name)
      obtain ⟨outer, split, far⟩ := clear
      have near : param.name ∉ names outer := fun mem => by
        refine far st.arena.size (List.mem_singleton_self _) _ mem ?_
        exact (sound.free there ▸ Arena.mem_freeIn.mpr ⟨.inl rfl, List.not_mem_nil⟩ :)
      obtain ⟨n, index, position⟩ := paramIndex?_of_findParam stands found split near
      have tree : (st.arena.alloc (.arg param.name)).2.nameless (names inner) st.arena.size = _ :=
        Arena.nameless_alloc settled.sound leaf
      simp only [Blueprints.next, known, index]
      refine congrArg (some ∘ some) (Eq.trans ?_ tree.symm)
      simp only [Plan.shape, Plan.mapSlots, Plan.nameless, Plan.position, position]
      rfl
  exact added.bind fun id next _ _ told => .pure told

theorem mirrors_planFor (stands : site.Stands catalog className st)
    (sought : src.Sought catalog ms m quiet (depth + 1) bare site st.stack.entries key) :
    src.Mirrors catalog className ms quiet site.around st Reading.plan.option
      (src.planFor requests site key)
      fun scope => blueprints.next src catalog className bare scope key := by
  simp only [planFor]
  split
  · rename_i unresolved
    refine .throw fun _ => ?_
    simp only [Blueprints.next, if_pos unresolved]
  · rename_i known
    rw [Bool.not_eq_true] at known
    split
    · rename_i param found
      exact mirrors_alloc_arg stands known found
    · rename_i none
      have unfolds (inner outer : List LambdaParam) (split : site.around = inner ++ outer) :
          blueprints.next src catalog className bare (types inner) key = _ :=
        Blueprints.next_of_paramIndex?_none _ bare known (paramIndex?_eq_none none split)
      refine Meets.bind (copies_bindingFor stands.catalog_eq _ fun scope cls chosen _ q => ?_)
        fun answer next _ le chosen => ?_
      · simp only [unfolds site.around [] (List.append_nil _).symm, chosen]
      have stands := stands.mono le.taken
      have sought := le.entries ▸ sought
      cases answer with
      | some b =>
          refine (mirrors_planBinding tidy accessor replies stands sought chosen).map_some.congr
            fun _ inner outer split => ?_
          rw [unfolds inner outer split, chosen]
      | none =>
          have unfolds (inner outer : List LambdaParam) (split : site.around = inner ++ outer) :
              blueprints.next src catalog className bare (types inner) key = _ :=
            (unfolds inner outer split).trans (by rw [show _ = _ from chosen])
          dsimp only
          split
          · rename_i function
            refine (mirrors_planFunction tidy accessor replies stands sought chosen
              function).map_some.congr fun _ inner outer split => ?_
            rw [unfolds inner outer split, if_pos function]
          · rename_i plain
            split
            · rename_i strict
              refine (mirrors_planLazy accessor replies stands sought chosen
                (by simpa using plain) strict).map_some.congr fun _ inner outer split => ?_
              rw [unfolds inner outer split, if_neg plain, if_pos strict]
            · rename_i strict
              refine (mirrors_planGeneric tidy accessor replies stands sought chosen
                (by simpa using plain) (by simpa using strict)).congr
                fun _ inner outer split => ?_
              rw [unfolds inner outer split, if_neg plain, if_neg strict]
end Copies

/-- A plan that is kept for the key is a copy of its blueprint. -/
theorem copies_kept? (sought : src.Sought catalog ms m quiet depth bare site st.stack.entries key)
    (fail : PlanError → Prop) :
    Meets (src.copying catalog className ms quiet) st (kept? site key) (fun answer next =>
      answer.isSome = true → Told quiet site.around Reading.plan.option
        (fun scope => src.blueprint catalog className bare scope key) next.arena answer) fail := by
  simp only [kept?]
  split
  · rename_i outside
    rw [Bool.and_eq_true, List.isEmpty_iff, Bool.not_eq_true'] at outside
    have run : (do return (← get).cache.get? key : PlanM (Option PlanId)).runFrom st =
        (.ok (st.cache.get? key), st) := by
      simp only [runFrom_bind, runFrom_get, runFrom_pure]
    refine .of_ok run fun settled =>
      ⟨settled, (src.copying catalog className ms quiet).refl st, fun some' => ?_⟩
    cases found : st.cache.get? key with
    | none =>
        rw [found] at some'
        cases some'
    | some id =>
        have kept := settled.kept found
        refine ⟨fun other mem => ?_, fun q inner clear => ?_⟩
        · obtain rfl := List.mem_singleton.mp mem
          exact serves_of_isClosed kept.known kept.closed
        · obtain ⟨outer, split, -⟩ := clear
          have empty : inner = [] := by
            rw [Site.around, outside.1, List.reverse_nil] at split
            exact (List.append_eq_nil_iff.mp split.symm).1
          have bare_eq := (sought.bare_eq q).symm.trans outside.2
          rw [empty, bare_eq]
          exact kept.copies (sought.calm q)
  · exact .pure fun some' => absurd some' Bool.false_ne_true

/-- What is done quietly is done at all. -/
theorem relax {quiet' : Prop} {α : Type} {act : PlanM α} {post : α → PlannerState → Prop}
    {fail : PlanError → Prop} (quieter : quiet → quiet')
    (meets : Meets (src.copying catalog className ms quiet') st act post fail) :
    Meets (src.copying catalog className ms quiet) st act post fail := by
  refine ⟨fun settled => ?_, meets.2⟩
  obtain ⟨inv, le, told⟩ := meets.1 settled
  exact ⟨inv, { le with
    pending := fun q => le.pending (quieter q)
    kept := fun q => le.kept (quieter q) }, told⟩

/-- One more step of depth. -/
theorem transcribes_requestWith {requests : Requests} (tidy : src.Tidy catalog ms)
    (accessor : m ∈ ms)
    (replies : src.Transcribes catalog className ms m depth (src.blueprint catalog className)
      requests) :
    src.Transcribes catalog className ms m (depth + 1) (src.blueprint catalog className)
      (src.requestWith requests) := by
  intro quiet bare site key st stands asked
  -- The plan is kept for the key whenever that is calm, so it has to be a copy then.
  have sought : src.Sought catalog ms m (src.Calm catalog ms key) (depth + 1)
      (site.isUnwrapping key) site st.stack.entries key := ⟨asked.due, id, fun _ => rfl⟩
  -- A plan in a slot for the key is told as it was without the slot.
  have slotted {next : PlannerState} {answer : Option PlanId}
      (told : Told (src.Calm catalog ms key) site.around Reading.plan.option
        (fun scope => src.blueprint catalog className (site.isUnwrapping key) scope key)
          next.arena answer) :
      (∀ slot ∈ answer.map (Slot.mk key), slot.key = key) ∧
        Told quiet site.around Reading.value.option
          (fun scope => src.blueprint catalog className bare scope key) next.arena
          (answer.map (Slot.mk key)) := by
    have copies : quiet → ∀ inner,
        Clear site.around next.arena (Reading.plan.option.ids answer) inner →
        src.blueprint catalog className bare (types inner) key =
          some (Reading.plan.option.read next.arena (names inner) answer) := by
      intro q inner clear
      rw [← asked.bare_eq q]
      exact told.copies (asked.calm q) inner clear
    cases answer with
    | none => exact ⟨fun slot none => absurd none (by simp), told.serves, copies⟩
    | some id =>
        refine ⟨?_, told.serves, copies⟩
        rintro _ ⟨⟩
        rfl
  refine relax asked.calm ?_
  simp only [requestWith]
  refine Meets.bind (copies_kept? sought _) fun answer mid _ le kept => ?_
  cases answer with
  | some id => exact .pure (slotted (kept rfl))
  | none =>
      have planned := mirrors_planFor tidy accessor replies (stands.mono le.taken)
        (le.entries ▸ sought)
      rw [next_blueprint] at planned
      refine Meets.andThen planned (fun e none q => ?_) fun answer next settled le' told => ?_
      · rw [← asked.bare_eq q]
        exact none (asked.calm q)
      cases answer with
      | none => exact .pure (slotted told)
      | some id =>
          dsimp only
          split
          · exact .pure (slotted told)
          · rename_i wrapped
            rw [Bool.not_eq_true] at wrapped
            have known : id < next.arena.size :=
              (told.serves id (List.mem_singleton_self _)).known
            have kept (closed : next.arena.isClosed id = true) :
                src.Stored catalog className ms next.arena key id :=
              { comes := ⟨m, accessor, sought.due.1.chain⟩
                known := known
                closed := closed
                copies := fun calm => by
                  rw [← wrapped]
                  exact told.copies calm [] (clear_of_isClosed closed) }
            refine (copies_remember (fun calm => calm) kept _).bind
              fun _ last _ le'' same => .pure ?_
            exact slotted (told.mono settled.sound le''.within)

theorem transcribes_requestTo (tidy : src.Tidy catalog ms) (accessor : m ∈ ms)
    (depth : Nat) : src.Transcribes catalog className ms m depth (src.blueprint catalog className)
      (src.requestTo depth) := by
  induction depth with
  | zero => exact fun _ _ _ _ _ _ sought => absurd sought.due.2 (Nat.not_lt_zero _)
  | succ depth ih => exact transcribes_requestWith tidy accessor ih

end Source

end Injector
