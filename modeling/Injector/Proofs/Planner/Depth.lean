/-
# Injector.Proofs.Planner.Depth -- how deep requests can go

Requests are closed up to a depth (`requestDepth`), which has to be enough.  What a
request still needs (`need`) counts the declarations that are not under construction,
and the heights to which the type asked for can still grow.  Each further request
needs less: a call takes a declaration away, which pays for the height that its
parameters add; a lambda or a lazy value asks for a lower type; and a key is built for
its scope once before it is built.  So a request that starts with its own depth never
runs out of it (`need_lt_requestDepth`).
-/
import Injector.Proofs.Planner.Chains
import Injector.Proofs.Planner.Origins
import Injector.Proofs.Planner.Run
import Injector.Proofs.Ty.Heights

namespace Injector

set_option autoImplicit false

open BuildStack (above?)

theorem le_foldl_max (l : List Nat) (start : Nat) : start ≤ l.foldl max start := by
  induction l generalizing start with
  | nil => exact Nat.le_refl start
  | cons x rest ih => exact Nat.le_trans (Nat.le_max_left start x) (ih (max start x))

theorem le_foldl_max_of_mem {α : Type} (f : α → Nat) {l : List α} {x : α} (mem : x ∈ l)
    (start : Nat) : f x ≤ (l.map f).foldl max start := by
  induction l generalizing start with
  | nil => cases mem
  | cons y rest ih =>
      rw [List.map_cons, List.foldl_cons]
      rcases List.mem_cons.mp mem with rfl | mem
      · exact Nat.le_trans (Nat.le_max_right start (f x)) (le_foldl_max _ _)
      · exact ih mem _

namespace Source

/-! ## Declarations to construct -/

/-- All members and constructors of the program. -/
def elements (p : Program) : List Element :=
  (List.range p.members.length).map (fun n => .member (.ofNat n)) ++
    p.classes.zipIdx.flatMap fun (c, n) =>
      (List.range c.ctors.length).map fun index => .ctor (.ofNat n) (UInt64.ofNat index)

theorem length_elements (p : Program) : (elements p).length = elementCount p := by
  have ctors (classes : List ClassDecl) (n start : Nat) :
      start + ((classes.zipIdx n).flatMap fun (c, n) => (List.range c.ctors.length).map fun index =>
          Element.ctor (.ofNat n) (UInt64.ofNat index)).length =
        classes.foldl (fun n c => n + c.ctors.length) start := by
    induction classes generalizing n start with
    | nil => rfl
    | cons c rest ih =>
        rw [List.foldl_cons, ← ih (n + 1), List.zipIdx_cons, List.flatMap_cons, List.length_append,
          List.length_map, List.length_range, Nat.add_assoc]
  rw [elements, elementCount, List.length_append, List.length_map, List.length_range]
  exact ctors p.classes 0 p.members.length

theorem mem_elements_of_ctor {p : Program} {cls : ClassId} {index : Nat}
    (inside : index < (p.classAt cls).ctors.length) :
    Element.ctor cls (UInt64.ofNat index) ∈ elements p := by
  have known : ∃ c, p.classes[cls.toNat]? = some c := by
    cases found : p.classes[cls.toNat]? with
    | some c => exact ⟨c, rfl⟩
    | none =>
        rw [Program.classAt, found] at inside
        exact absurd inside (Nat.not_lt_zero index)
  obtain ⟨c, found⟩ := known
  rw [Program.classAt, found, Option.getD_some] at inside
  have id : ClassId.ofNat cls.toNat = cls := by
    have low : cls.toNat ≤ lastIdentity := Nat.le_of_lt_succ cls.index.toNat_lt
    obtain ⟨i⟩ := cls
    simp only [ClassId.ofNat, Nat.min_eq_left low]
    simp [ClassId.toNat]
  refine List.mem_append_right _ (List.mem_flatMap.mpr ⟨(c, cls.toNat), ?_, ?_⟩)
  · exact List.mem_zipIdx_iff_getElem?.mpr found
  · exact List.mem_map.mpr ⟨index, List.mem_range.mpr inside, by rw [id]⟩

theorem mem_elements_of_member {p : Program} {m : MemberId}
    (inside : m.toNat < p.members.length) : Element.member m ∈ elements p := by
  have id : MemberId.ofNat m.toNat = m := by
    have low : m.toNat ≤ lastIdentity := Nat.le_of_lt_succ m.index.toNat_lt
    obtain ⟨i⟩ := m
    simp only [MemberId.ofNat, Nat.min_eq_left low]
    simp [MemberId.toNat]
  refine List.mem_append_left _ (List.mem_map.mpr ⟨m.toNat, List.mem_range.mpr inside, ?_⟩)
  rw [id]

/-- The declarations that are not under construction. -/
def idle (p : Program) (s : List BuildEntry) : List Element :=
  (elements p).filter fun e => decide (.building e ∉ s)

theorem idle_defer (p : Program) (s : List BuildEntry) : idle p (.deferred :: s) = idle p s := by
  simp [idle]

theorem length_idle_push {p : Program} {s : List BuildEntry} {e : Element}
    (mem : e ∈ elements p) (new : .building e ∉ s) :
    (idle p (.building e :: s)).length < (idle p s).length := by
  have fewer : idle p (.building e :: s) = (idle p s).filter fun d => decide (d ≠ e) := by
    rw [idle, idle, List.filter_filter]
    congr 1
    funext d
    simp
  rw [fewer]
  refine List.length_filter_lt_length_iff_exists.mpr ⟨e, ?_, by simp⟩
  exact List.mem_filter.mpr ⟨mem, by simpa using new⟩

theorem length_idle_le (p : Program) (s : List BuildEntry) :
    (idle p s).length ≤ elementCount p := by
  rw [← length_elements]
  exact List.length_filter_le _ _

/-! ## Heights of what calls ask for -/

variable {src : Source} {catalog : Catalog} {key asked : Key} {c : Call}

theorem height_ctor_param_le {cls : ClassId} {index : Nat} {ctor : CtorDecl} {param : ParamDecl}
    (found : (src.program.classAt cls).ctors[index]? = some ctor) (mem : param ∈ ctor.params) :
    param.ty.height ≤ declaredHeight src.program := by
  obtain ⟨c, known, here⟩ : ∃ c, c ∈ src.program.classes ∧ c.ctors[index]? = some ctor := by
    cases known : src.program.classes[cls.toNat]? with
    | some c =>
        rw [Program.classAt, known, Option.getD_some] at found
        exact ⟨c, List.mem_of_getElem? known, found⟩
    | none =>
        rw [Program.classAt, known, Option.getD_none] at found
        cases found
  let ofCtor (ctor : CtorDecl) : Nat := Ty.heightAll (ctor.params.map (·.ty))
  let ofClass (c : ClassDecl) : Nat := (c.ctors.map ofCtor).foldl max 0
  have inCtor : param.ty.height ≤ ofCtor ctor := Ty.height_le_heightAll (List.mem_map_of_mem mem)
  have inClass : ofCtor ctor ≤ ofClass c := le_foldl_max_of_mem ofCtor (List.mem_of_getElem? here) 0
  have inProgram := le_foldl_max_of_mem ofClass known 0
  exact Nat.le_trans (Nat.le_trans inCtor (Nat.le_trans inClass inProgram)) (Nat.le_max_right _ _)

theorem height_member_le {m : MemberDecl} (known : m ∈ src.program.members) :
    max (Ty.heightAll (m.params.map (·.ty))) (Ty.heightTarget m.receiver) ≤
      declaredHeight src.program := by
  let ofMember (m : MemberDecl) : Nat :=
    max (Ty.heightAll (m.params.map (·.ty))) (Ty.heightTarget m.receiver)
  exact Nat.le_trans (le_foldl_max_of_mem ofMember known 0) (Nat.le_max_left _ _)

theorem height_of (ty : Ty) (qualifier : Option AnnotationUse) :
    (Key.of ty qualifier).ty.height = ty.height :=
  Ty.height_unqualified ty

/-- A call is that of a constructor of the type asked for, or of a member. -/
theorem calls_cases (mem : c ∈ src.calls catalog key) :
    (∃ k cls index, c = src.ctorCall k cls index key.ty) ∨
      ∃ k m s inLambda, c = src.memberCall k m s inLambda ∧ s.AtMost key.ty.height := by
  have plain := Subst.atMost_empty key.ty.height
  simp only [calls] at mem
  split at mem
  case h_1 =>
      right
      simp only [unboundCalls] at mem
      split at mem
      · split at mem
        · rw [List.mem_singleton.mp mem]
          exact ⟨_, _, _, _, rfl, plain⟩
        · cases mem
      · split at mem
        · cases mem
        · split at mem
          · rename_i b s fits
            have here : (b, s) ∈ src.fitting key catalog.generics [] := by
              rw [fits]
              exact List.mem_singleton_self _
            obtain ⟨g, -, -, -, fits⟩ := (mem_fitting here).resolve_left List.not_mem_nil
            have atMost := Ty.atMost_fit g.pattern key.ty (Subst.atMost_empty key.ty.height)
              (Nat.le_refl _)
            rw [fits] at atMost
            rw [List.mem_singleton.mp mem]
            exact ⟨_, _, _, _, rfl, atMost⟩
          · cases mem
  case h_2 b chosen =>
      cases b with
      | ctor cls index ty path scopedIn =>
          left
          rw [List.mem_singleton.mp mem, (class_of_chosen chosen).1]
          exact ⟨_, _, _, rfl⟩
      | member b =>
          right
          rw [List.mem_singleton.mp mem]
          exact ⟨_, _, _, _, rfl, plain⟩
      | container kind contributors =>
          right
          obtain ⟨b, -, rfl⟩ := List.mem_map.mp mem
          exact ⟨_, _, _, _, rfl, plain⟩
      | object cls => cases mem
  case h_3 => cases mem

/-- What a call asks for is higher than the type that it builds by the height of a
declared type at most, and only declarations of the program ask for anything. -/
theorem asks_bounded (mem : c ∈ src.calls catalog key) (asks : asked ∈ src.asks c) :
    asked.ty.height ≤ declaredHeight src.program + key.ty.height ∧
      c.element ∈ elements src.program := by
  have lower {s : Subst} (atMost : s.AtMost key.ty.height) {ty : Ty}
      (declared : ty.height ≤ declaredHeight src.program) (qualifier : Option AnnotationUse) :
      (Key.of (ty.subst s) qualifier).ty.height ≤ declaredHeight src.program + key.ty.height := by
    have := Ty.height_subst_le atMost ty
    rw [height_of]
    omega
  rcases calls_cases mem with ⟨k, cls, index, rfl⟩ | ⟨k, m, s, inLambda, rfl, atMost⟩
  · have atMost : (src.ctorCall k cls index key.ty).subst.AtMost key.ty.height :=
      Subst.atMost_ofArgs fun arg mem => Nat.le_of_lt (Ty.height_lt_of_mem_dealias_args mem)
    simp only [Source.asks, ctorCall, Option.map_none, Option.toList_none, List.nil_append,
      List.mem_map] at asks
    obtain ⟨param, mem, rfl⟩ := asks
    cases found : (src.program.classAt cls).ctors[index]? with
    | none =>
        rw [found] at mem
        cases mem
    | some ctor =>
        rw [found] at mem
        exact ⟨lower atMost (height_ctor_param_le found mem) _,
          mem_elements_of_ctor (List.getElem?_eq_some_iff.mp found).1⟩
  · cases found : src.program.members[m.toNat]? with
    | none =>
        have absent : src.program.memberAt m = default := by
          rw [Program.memberAt, found, Option.getD_none]
        simp only [Source.asks, memberCall, absent] at asks
        cases asks
    | some decl =>
        have here : src.program.memberAt m = decl := by
          rw [Program.memberAt, found, Option.getD_some]
        have low := height_member_le (List.mem_of_getElem? found)
        refine ⟨?_, mem_elements_of_member (List.getElem?_eq_some_iff.mp found).1⟩
        simp only [Source.asks, memberCall, here, List.mem_append, List.mem_map,
          Option.mem_toList, Option.map_eq_some_iff] at asks
        rcases asks with ⟨ty, receiver, rfl⟩ | ⟨param, mem, rfl⟩
        · rw [receiver, Ty.heightTarget] at low
          exact lower atMost (Nat.le_trans (Nat.le_max_right _ _) low) _
        · have inParams : param.ty.height ≤ Ty.heightAll (decl.params.map (·.ty)) :=
            Ty.height_le_heightAll (List.mem_map_of_mem mem)
          exact lower atMost (Nat.le_trans (Nat.le_trans inParams (Nat.le_max_left _ _)) low) _

/-! ## What a request still needs -/

variable (src) in
/-- A bound on how many requests can be open one within the other. -/
def need (s : List BuildEntry) (u : Option Key) (key : Key) : Nat :=
  2 * ((idle src.program s).length + (key.ty.height - 1) +
      (idle src.program s).length * declaredHeight src.program) +
    if u = some key then 0 else 1

variable {s : List BuildEntry} {u : Option Key} {inner : Key}

theorem need_unwrap (wrapped : u ≠ some key) : src.need s (some key) key < src.need s u key := by
  simp [need, wrapped]

theorem need_asked (mem : c ∈ src.calls catalog key) (asks : asked ∈ src.asks c)
    (new : above? c.element s = none) :
    src.need (.building c.element :: s) u asked < src.need s u key := by
  obtain ⟨low, known⟩ := asks_bounded mem asks
  have fewer := length_idle_push known (BuildStack.not_building_of_above? new)
  have high := Ty.height_pos key.ty
  have product : (idle src.program (.building c.element :: s)).length * declaredHeight src.program +
      declaredHeight src.program ≤ (idle src.program s).length * declaredHeight src.program := by
    rw [← Nat.succ_mul]
    exact Nat.mul_le_mul_right _ fewer
  rw [need, need]
  split <;> split <;> omega

theorem need_defer (s : List BuildEntry) (u : Option Key) (key : Key) :
    src.need (.deferred :: s) u key = src.need s u key := by
  rw [need, need, idle_defer]

theorem height_innerKey? (found : src.innerKey? key = some inner) :
    inner.ty.height < key.ty.height := by
  simp only [innerKey?] at found
  split at found
  · split at found
    · cases found
    · obtain ⟨ty, last, rfl⟩ := Option.map_eq_some_iff.mp found
      rw [height_of]
      exact Ty.height_lt_of_mem_dealias_args (List.mem_of_getLast? last)
  · split at found
    · obtain ⟨ty, first, rfl⟩ := Option.map_eq_some_iff.mp found
      rw [height_of]
      exact Ty.height_lt_of_mem_dealias_args (List.mem_of_mem_head? first)
    · cases found

theorem need_inner (found : src.innerKey? key = some inner) :
    src.need (.deferred :: s) u inner < src.need s u key := by
  have lower := height_innerKey? found
  have high := Ty.height_pos inner.ty
  rw [need_defer, need, need]
  split <;> split <;> omega

/-- The depth of a request is all that it needs. -/
theorem need_lt_requestDepth (s : List BuildEntry) (u : Option Key) (key : Key) :
    src.need s u key < src.requestDepth key := by
  have few := length_idle_le src.program s
  have high := Ty.height_pos key.ty
  rw [need, requestDepth]
  generalize (idle src.program s).length = n at few
  generalize elementCount src.program = count at few
  generalize key.ty.height = height at high
  generalize declaredHeight src.program = declared
  have product : n * declared ≤ count * declared := Nat.mul_le_mul_right declared few
  have enough : count + (height + count * declared) ≤
      (count + 1) * (height + count * declared) := by
    rw [Nat.succ_mul]
    have : count * 1 ≤ count * (height + count * declared) := Nat.mul_le_mul_left count (by omega)
    omega
  rw [Nat.mul_assoc]
  split <;> omega

end Source

end Injector
