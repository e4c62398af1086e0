/-
# Injector.Proofs.Plan.Paths -- what is below a slot, and under which plans

A path leads from a slot down to another one through the values that plans need.
`Path a root above s` keeps the plans on the way, the nearest one first; a plan
that is needed twice is reached by two paths.

The planner only ever adds plans to an arena, each after the values it needs.
Such an arena is `Sound`: children come first, and the free names kept with a
plan are those its children give rise to.  In a sound arena the free names of a
plan are exactly the names of the references that a path without a binder leads
to (`mem_freeNames_iff`), so a plan is closed just when each reference below it
is bound on every path (`isClosed_iff`).  Adding plans changes nothing below the
plans that are there (`Within`).
-/
import Injector.Plan.Arena

namespace Injector

set_option autoImplicit false

namespace Arena

/-- The slot `s` is below `root`, under the plans `above`. -/
inductive Path (a : Arena) (root : Slot) : List Plan → Slot → Prop where
  | here : Path a root [] root
  | down {above : List Plan} {s c : Slot} {p : Plan} :
      Path a root above s → a.plan? s.id = some p → c ∈ p.children → Path a root (p :: above) c

/-- Children come before their parents, and the free names are kept right. -/
structure Sound (a : Arena) : Prop where
  before : ∀ {id : PlanId} {p : Plan}, a.plan? id = some p → ∀ c ∈ p.children, c.id < id
  free : ∀ {id : PlanId} {p : Plan}, a.plan? id = some p → a.freeNames id = a.freeIn p

/-- The plans were added one after the other, each after the values it needs. -/
inductive Built : Arena → Prop where
  | empty : Built {}
  | alloc {a : Arena} {p : Plan} : Built a → (∀ c ∈ p.children, c.id < a.size) → Built (a.alloc p).2

/-- The plans of `a` are the first plans of `b`. -/
def Within (a b : Arena) : Prop := ∀ id : PlanId, id < a.size → b.nodes[id]? = a.nodes[id]?

/-! ## Numbers of plans -/

section Numbers

variable {a : Arena} {id : PlanId}

theorem lt_size_of_plan? {p : Plan} (h : a.plan? id = some p) : id < a.size := by
  simp only [plan?, Option.map_eq_some_iff] at h
  obtain ⟨node, found, -⟩ := h
  exact (Array.getElem?_eq_some_iff.mp found).1

theorem exists_plan? (h : id < a.size) : ∃ p, a.plan? id = some p := by
  simp only [size] at h
  exact ⟨_, by simp [plan?, h]; rfl⟩

theorem freeNames_of_size_le (h : a.size ≤ id) : a.freeNames id = [] := by
  simp only [size] at h
  simp [freeNames, h]

end Numbers

/-! ## More plans -/

namespace Within

variable {a b c : Arena} {id : PlanId}

theorem refl (a : Arena) : a.Within a := fun _ _ => rfl

theorem plan?_eq (h : a.Within b) (lt : id < a.size) : b.plan? id = a.plan? id := by
  simp only [plan?, h id lt]

theorem freeNames_eq (h : a.Within b) (lt : id < a.size) : b.freeNames id = a.freeNames id := by
  simp only [freeNames, h id lt]

theorem isClosed_eq (h : a.Within b) (lt : id < a.size) : b.isClosed id = a.isClosed id := by
  simp only [isClosed, h.freeNames_eq lt]

theorem plan?_of_some (h : a.Within b) {p : Plan} (found : a.plan? id = some p) :
    b.plan? id = some p := by
  rw [h.plan?_eq (lt_size_of_plan? found), found]

theorem size_le (h : a.Within b) : a.size ≤ b.size := by
  refine Nat.le_of_not_lt fun more => ?_
  have last := h b.size more
  rw [show b.nodes[b.size]? = none by simp [size]] at last
  have := Array.getElem?_eq_none_iff.mp last.symm
  simp only [size] at more this
  omega

theorem trans (hab : a.Within b) (hbc : b.Within c) : a.Within c := fun id lt =>
  (hbc id (Nat.lt_of_lt_of_le lt hab.size_le)).trans (hab id lt)

theorem alloc (a : Arena) (p : Plan) : a.Within (a.alloc p).2 := by
  intro id lt
  simp only [size] at lt
  simp [Arena.alloc, Array.getElem?_push, Nat.ne_of_lt lt]

end Within

/-- Every plan of the longer arena is one of the shorter or the one added. -/
theorem plan?_alloc_cases {a : Arena} {p q : Plan} {id : PlanId}
    (h : (a.alloc p).2.plan? id = some q) : a.plan? id = some q ∨ id = a.size ∧ q = p := by
  have lt := lt_size_of_plan? h
  rw [size_alloc] at lt
  rcases Nat.lt_succ_iff_lt_or_eq.mp lt with old | rfl
  · exact .inl (by rwa [plan?_alloc_of_lt p old] at h)
  · have new := plan?_alloc_self a p
    exact .inr ⟨rfl, (Option.some.inj (new.symm.trans h)).symm⟩

theorem freeNames_alloc_self (a : Arena) (p : Plan) :
    (a.alloc p).2.freeNames a.size = a.freeIn p := by
  simp [alloc, freeNames, size]

/-! ## Free names -/

theorem mem_union {names more : List String} {name : String} :
    name ∈ union names more ↔ name ∈ names ∨ name ∈ more := by
  induction more generalizing names with
  | nil => simp [union]
  | cons first rest ih =>
      have step : union names (first :: rest) =
          union (if names.contains first then names else names ++ [first]) rest := rfl
      rw [step, ih]
      by_cases present : names.contains first = true
      · have : first ∈ names := by simpa using present
        simp only [present, if_true, List.mem_cons]
        constructor
        · rintro (h | h)
          · exact .inl h
          · exact .inr (.inr h)
        · rintro (h | rfl | h)
          · exact .inl h
          · exact .inl this
          · exact .inr h
      · simp only [present]
        simp [or_assoc]

theorem mem_foldl_union {free : Slot → List String} {slots : List Slot} {names : List String}
    {name : String} :
    name ∈ slots.foldl (fun names slot => union names (free slot)) names ↔
      name ∈ names ∨ ∃ s ∈ slots, name ∈ free s := by
  induction slots generalizing names with
  | nil => simp
  | cons s rest ih => simp [ih, mem_union, or_assoc]

/-- What is free in a plan: its own reference and what is free in its values, unless bound. -/
theorem mem_freeIn {a : Arena} {p : Plan} {name : String} :
    name ∈ a.freeIn p ↔
      (p.reference? = some name ∨ ∃ c ∈ p.children, name ∈ a.freeNames c.id) ∧
        name ∉ p.binders := by
  simp only [freeIn, List.mem_filter, mem_foldl_union, Bool.not_eq_true', List.contains_eq_mem,
    decide_eq_false_iff_not, Option.mem_toList]

theorem freeIn_eq_of_within {a b : Arena} (h : a.Within b) {p : Plan}
    (known : ∀ c ∈ p.children, c.id < a.size) : b.freeIn p = a.freeIn p := by
  have fold : ∀ (slots : List Slot) (names : List String), (∀ c ∈ slots, c.id < a.size) →
      slots.foldl (fun names slot => union names (b.freeNames slot.id)) names =
        slots.foldl (fun names slot => union names (a.freeNames slot.id)) names := by
    intro slots
    induction slots with
    | nil => intro names _; rfl
    | cons s rest ih =>
        intro names lt
        simp only [List.foldl_cons]
        rw [h.freeNames_eq (lt s List.mem_cons_self),
          ih _ fun c mem => lt c (List.mem_cons_of_mem _ mem)]
  simp only [freeIn, fold p.children _ known]

theorem sound_empty : Sound {} where
  before h := by simp [plan?] at h
  free h := by simp [plan?] at h

theorem Sound.alloc {a : Arena} (sound : a.Sound) {p : Plan}
    (known : ∀ c ∈ p.children, c.id < a.size) : (a.alloc p).2.Sound where
  before := by
    intro id q found c mem
    rcases plan?_alloc_cases found with old | ⟨rfl, rfl⟩
    · exact sound.before old c mem
    · exact known c mem
  free := by
    intro id q found
    have within := Within.alloc a p
    rcases plan?_alloc_cases found with old | ⟨rfl, rfl⟩
    · have lt := lt_size_of_plan? old
      rw [within.freeNames_eq lt, sound.free old]
      exact (freeIn_eq_of_within within fun c mem =>
        Nat.lt_trans (sound.before old c mem) lt).symm
    · rw [freeNames_alloc_self]
      exact (freeIn_eq_of_within within known).symm

theorem Built.sound {a : Arena} (built : a.Built) : a.Sound := by
  induction built with
  | empty => exact sound_empty
  | alloc _ known ih => exact ih.alloc known

/-! ## Paths, read from the top -/

section Paths

variable {a b : Arena} {root s : Slot} {above : List Plan}

/-- A path to a slot and one from a value of the plan there make one path. -/
theorem Path.join {farther nearer : List Plan} {p : Plan} {t c : Slot}
    (path : Path a root farther t) (found : a.plan? t.id = some p) (child : c ∈ p.children)
    (below : Path a c nearer s) : Path a root (nearer ++ p :: farther) s := by
  induction below with
  | here => exact .down path found child
  | down _ there grandchild ih => exact .down ih there grandchild

/-- Each plan above the end of a path parts it in two. -/
theorem Path.split {farther nearer : List Plan} {p : Plan}
    (path : Path a root (nearer ++ p :: farther) s) :
    ∃ t c, Path a root farther t ∧ a.plan? t.id = some p ∧ c ∈ p.children ∧ Path a c nearer s := by
  induction nearer generalizing s with
  | nil =>
      cases path with
      | down path found child => exact ⟨_, _, path, found, child, .here⟩
  | cons q nearer ih =>
      cases path with
      | down path there grandchild =>
          obtain ⟨t, c, path, found, child, below⟩ := ih path
          exact ⟨t, c, path, found, child, .down below there grandchild⟩

/-- A path ends where it starts, or its first step is to a value of the plan there. -/
theorem Path.uncons (path : Path a root above s) :
    above = [] ∧ s = root ∨
      ∃ p c rest, a.plan? root.id = some p ∧ c ∈ p.children ∧ Path a c rest s ∧
        above = rest ++ [p] := by
  induction path with
  | here => exact .inl ⟨rfl, rfl⟩
  | @down above t c p _ here below ih =>
      rcases ih with ⟨rfl, rfl⟩ | ⟨q, d, rest, found, child, path, rfl⟩
      · exact .inr ⟨p, c, [], here, below, .here, rfl⟩
      · exact .inr ⟨q, d, p :: rest, found, child, .down path here below, rfl⟩

/-- Every plan above an end of a path is in the arena. -/
theorem Path.plan?_of_mem (path : Path a root above s) {q : Plan} (mem : q ∈ above) :
    ∃ id, a.plan? id = some q := by
  induction path with
  | here => simp at mem
  | down _ here _ ih =>
      rcases List.mem_cons.mp mem with rfl | mem
      · exact ⟨_, here⟩
      · exact ih mem

/-- The end of a path is where it starts, or a value that the nearest plan above needs. -/
theorem Path.child_of_cons {p : Plan} (path : Path a root (p :: above) s) :
    s ∈ p.children := by
  cases path with
  | down _ _ child => exact child

/-- The slot to which positions among the values needed lead, and the plans above it. -/
def follow (a : Arena) : List Plan → Slot → List Nat → Option (List Plan × Slot)
  | above, s, [] => some (above, s)
  | above, s, n :: rest =>
    match a.plan? s.id with
    | none => none
    | some p =>
      match p.children[n]? with
      | none => none
      | some c => a.follow (p :: above) c rest

theorem path_of_follow {positions : List Nat} {t : Slot} {whole : List Plan}
    (path : Path a root above s) (led : a.follow above s positions = some (whole, t)) :
    Path a root whole t := by
  induction positions generalizing above s with
  | nil =>
      cases led
      exact path
  | cons n rest ih =>
      simp only [follow] at led
      split at led
      · cases led
      · rename_i p found
        split at led
        · cases led
        · rename_i c child
          exact ih (.down path found (List.mem_of_getElem? child)) led

/-- Where a reference is free, a path leads to it on which no plan binds its name. -/
theorem mem_freeNames_iff (sound : a.Sound) {name : String} (root : Slot) :
    name ∈ a.freeNames root.id ↔
      ∃ above s p, Path a root above s ∧ a.plan? s.id = some p ∧ p.reference? = some name ∧
        ∀ q ∈ p :: above, name ∉ q.binders := by
  obtain ⟨id, same⟩ : ∃ id, id = root.id := ⟨_, rfl⟩
  induction id using Nat.strongRecOn generalizing root with
  | _ id ih =>
      subst same
      constructor
      · intro free
        have known : root.id < a.size := by
          refine Nat.lt_of_not_le fun beyond => ?_
          rw [freeNames_of_size_le beyond] at free
          cases free
        obtain ⟨p, found⟩ := exists_plan? known
        rw [sound.free found, mem_freeIn] at free
        obtain ⟨refers | ⟨c, child, free⟩, unbound⟩ := free
        · exact ⟨[], root, p, .here, found, refers, by simpa using unbound⟩
        · obtain ⟨above, s, q, path, there, refers, unboundBelow⟩ :=
            (ih c.id (sound.before found c child) c rfl).mp free
          refine ⟨above ++ [p], s, q, Path.join .here found child path, there, refers, ?_⟩
          intro r mem
          rcases List.mem_append.mp (by simpa using mem : r ∈ (q :: above) ++ [p]) with mem | mem
          · exact unboundBelow r mem
          · rwa [List.mem_singleton.mp mem]
      · rintro ⟨above, s, p, path, there, refers, unbound⟩
        rcases path.uncons with ⟨rfl, rfl⟩ | ⟨q, c, rest, found, child, below, rfl⟩
        · rw [sound.free there, mem_freeIn]
          exact ⟨.inl refers, unbound p List.mem_cons_self⟩
        · rw [sound.free found, mem_freeIn]
          refine ⟨.inr ⟨c, child, ?_⟩, unbound q (by simp)⟩
          refine (ih c.id (sound.before found c child) c rfl).mpr
            ⟨rest, s, p, below, there, refers, fun r mem => unbound r ?_⟩
          rcases List.mem_cons.mp mem with rfl | mem
          · exact List.mem_cons_self
          · simp [mem]

theorem binders_of_reference? {p : Plan} {name : String} (h : p.reference? = some name) :
    p.binders = [] := by
  cases p <;> simp_all [Plan.reference?, Plan.binders]

/-- A plan is closed when each reference below it is bound on every path to it. -/
theorem isClosed_iff (sound : a.Sound) (root : Slot) :
    a.isClosed root.id = true ↔
      ∀ above s p name, Path a root above s → a.plan? s.id = some p → p.reference? = some name →
        ∃ q ∈ above, name ∈ q.binders := by
  simp only [isClosed, List.isEmpty_iff, List.eq_nil_iff_forall_not_mem, mem_freeNames_iff sound]
  constructor
  · intro closed above s p name path there refers
    refine Decidable.byContradiction fun open' => closed name ⟨above, s, p, path, there, refers, ?_⟩
    intro q mem binds
    rcases List.mem_cons.mp mem with rfl | mem
    · simp [binders_of_reference? refers] at binds
    · exact open' ⟨q, mem, binds⟩
  · rintro bound name ⟨above, s, p, path, there, refers, unbound⟩
    obtain ⟨q, mem, binds⟩ := bound above s p name path there refers
    exact unbound q (List.mem_cons_of_mem _ mem) binds

end Paths

end Arena

end Injector
