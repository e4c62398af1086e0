/-
# Injector.Proofs.Catalog.Genuine -- catalogs without faults

A component is genuine when neither it nor any of its ancestors has anything
wrong with its declarations; its catalog is determined by the program then
(`Genuine.unique`).  Two facts tie this to collecting:

* from a store without wrong catalogs for genuine components (`Truthful`) a
  genuine component gets its catalog and nothing is reported
  (`collectTo_genuine`), whatever is in progress around it;
* what is collected without an error is genuine (`collectTo_clean`), if what the
  store holds without faults is (`Clean`).

Neither says anything of faulty components: whether their faults are noticed
again depends on what was reported before.
-/
import Injector.Catalog.Collect

namespace Injector

set_option autoImplicit false

namespace Source

variable (src : Source)

mutual

/-- The catalog of a component in whose ancestry nothing is wrong. -/
inductive Genuine : ClassId → Catalog → Prop where
  | mk {id : ClassId} {parents : List (String × Catalog)} : (src.holdings id).2 = [] →
      GenuineParents (src.holdings id).1 (src.parentParams id) parents →
      Genuine id ⟨(src.holdings id).1, parents, false⟩

/-- The catalogs of the parents, with which nothing is wrong. -/
inductive GenuineParents : Holdings → List ParamDecl → List (String × Catalog) → Prop where
  | nil {own : Holdings} : GenuineParents own [] []
  | cons {own : Holdings} {param : ParamDecl} {rest : List ParamDecl} {id : ClassId}
      {parent : Catalog} {more : List (String × Catalog)} :
      src.program.classOf param.ty = some id → Genuine id parent →
      src.parentFindings own parent = [] → GenuineParents own rest more →
      GenuineParents own (param :: rest) ((param.name, parent) :: more)

end

variable {src}

mutual

theorem Genuine.unique : ∀ {id : ClassId} {c d : Catalog},
    src.Genuine id c → src.Genuine id d → c = d
  | _, _, _, .mk _ parents, .mk _ parents' => by rw [parents.unique parents']

theorem GenuineParents.unique : ∀ {own : Holdings} {params : List ParamDecl}
    {parents others : List (String × Catalog)}, src.GenuineParents own params parents →
      src.GenuineParents own params others → parents = others
  | _, _, _, _, .nil, .nil => rfl
  | _, _, _, _, .cons named parent _ more, .cons named' parent' _ more' => by
      obtain rfl := Option.some.inj (named.symm.trans named')
      rw [parent.unique parent', more.unique more']

end

theorem Genuine.not_faulty {id : ClassId} {c : Catalog} (genuine : src.Genuine id c) :
    c.faulty = false := by
  cases genuine
  rfl

theorem GenuineParents.not_faulty {own : Holdings} {params : List ParamDecl}
    {parents : List (String × Catalog)} (genuine : src.GenuineParents own params parents) :
    (parents.any fun (_, parent) => parent.faulty) = false := by
  induction params generalizing parents with
  | nil =>
      cases genuine
      rfl
  | cons param rest ih =>
      cases genuine with
      | cons _ parent _ more => simp [parent.not_faulty, ih more]

/-- Each parent among the parameters has a catalog among the parents. -/
theorem GenuineParents.exists_parent {own : Holdings} {params : List ParamDecl}
    {parents : List (String × Catalog)} {param : ParamDecl} {id : ClassId}
    (genuine : src.GenuineParents own params parents) (mem : param ∈ params)
    (named : src.program.classOf param.ty = some id) :
    ∃ parent, src.Genuine id parent ∧ (param.name, parent) ∈ parents := by
  induction params generalizing parents with
  | nil => cases mem
  | cons first rest ih =>
      cases genuine with
      | cons named' parent _ more =>
          rcases List.mem_cons.mp mem with rfl | mem
          · obtain rfl := Option.some.inj (named.symm.trans named')
            exact ⟨_, parent, List.mem_cons_self⟩
          · obtain ⟨found, genuine, mem⟩ := ih more mem
            exact ⟨found, genuine, List.mem_cons_of_mem _ mem⟩

theorem height_lt_of_mem {own : Holdings} {parents : List (String × Catalog)} {faulty : Bool}
    {field : String} {parent : Catalog} (mem : (field, parent) ∈ parents) :
    parent.height < Catalog.height ⟨own, parents, faulty⟩ := by
  simp only [Catalog.height]
  induction parents with
  | nil => cases mem
  | cons row rest ih =>
      obtain ⟨name, first⟩ := row
      simp only [Catalog.heightAll]
      rcases List.mem_cons.mp mem with same | mem
      · cases same
        omega
      · have := ih mem
        omega

/-! ## Depth

A component in progress is not entered again, so the declared classes that are not
in progress bound how deep collecting still goes. -/

variable (src) in
/-- The class is one of the program's. -/
def Declared (id : ClassId) : Prop := ∃ n, n < src.program.classes.length ∧ id = .ofNat n

variable (src) in
/-- How many of the program's classes are not in progress. -/
def remaining (inProgress : List ClassId) : Nat :=
  ((List.range src.program.classes.length).filter fun n =>
    !inProgress.contains (ClassId.ofNat n)).length

variable (src) in
/-- The depth is enough to collect `id`. -/
def Deep (depth : Nat) (id : ClassId) (inProgress : List ClassId) : Prop :=
  src.remaining inProgress < depth ∧
    (src.Declared id ∨ src.remaining inProgress + 1 < depth)

theorem lastNamed_lt {package name : String} {classes : List ClassDecl} {n found : Nat}
    (h : Program.lastNamed package name classes n = some found) : found < n + classes.length := by
  induction classes generalizing n with
  | nil => cases h
  | cons c rest ih =>
      simp only [Program.lastNamed] at h
      split at h
      · rename_i inside
        cases h
        have := ih inside
        simp only [List.length_cons]
        omega
      · split at h
        · cases h
          simp
        · cases h

theorem named_of_lastNamed {package name : String} {classes : List ClassDecl} {n found : Nat}
    (here : Program.lastNamed package name classes n = some found) :
    ∃ c, classes[found - n]? = some c ∧ c.decl = ⟨package, name⟩ ∧ n ≤ found := by
  induction classes generalizing n with
  | nil => cases here
  | cons c rest ih =>
      simp only [Program.lastNamed] at here
      split at here
      · cases here
        rename_i later
        obtain ⟨d, at_, named, le⟩ := ih later
        refine ⟨d, ?_, named, by omega⟩
        obtain ⟨k, rfl⟩ : ∃ k, found = n + 1 + k := ⟨found - (n + 1), by omega⟩
        rw [show n + 1 + k - n = k + 1 by omega, List.getElem?_cons_succ]
        rwa [show n + 1 + k - (n + 1) = k by omega] at at_
      · split at here
        · rename_i same
          cases here
          exact ⟨c, by simp, by simp [ClassDecl.decl, same.1, same.2], Nat.le_refl _⟩
        · cases here

/-- A class is found under its own name. -/
theorem decl_of_classNamed {d : DeclName} {id : ClassId}
    (few : src.program.classes.length ≤ lastIdentity + 1)
    (named : src.program.classNamed d = some id) : (src.program.classAt id).decl = d := by
  simp only [Program.classNamed, Option.map_eq_some_iff] at named
  obtain ⟨n, found, rfl⟩ := named
  obtain ⟨c, at_, named, -⟩ := named_of_lastNamed found
  have lt : n < 0 + src.program.classes.length := lastNamed_lt found
  rw [Program.classAt, ClassId.toNat_ofNat (by omega), show n = n - 0 from rfl, at_]
  exact named

theorem declared_of_classOf {ty : Ty} {id : ClassId} (named : src.program.classOf ty = some id) :
    src.Declared id := by
  simp only [Program.classOf, Program.classNamed, Option.map_eq_some_iff] at named
  obtain ⟨n, found, rfl⟩ := named
  exact ⟨n, by simpa using lastNamed_lt found, rfl⟩

theorem remaining_cons (id : ClassId) (inProgress : List ClassId) :
    src.remaining (id :: inProgress) =
      (((List.range src.program.classes.length).filter fun n =>
        !inProgress.contains (ClassId.ofNat n)).filter fun n =>
          decide (ClassId.ofNat n ≠ id)).length := by
  simp only [remaining, List.filter_filter]
  congr 2
  funext n
  by_cases same : ClassId.ofNat n = id <;> simp [same]

theorem remaining_cons_le (id : ClassId) (inProgress : List ClassId) :
    src.remaining (id :: inProgress) ≤ src.remaining inProgress := by
  rw [remaining_cons]
  exact List.length_filter_le _ _

theorem remaining_cons_lt {id : ClassId} {inProgress : List ClassId} (declared : src.Declared id)
    (new : id ∉ inProgress) : src.remaining (id :: inProgress) < src.remaining inProgress := by
  obtain ⟨n, lt, rfl⟩ := declared
  rw [remaining_cons]
  refine List.length_filter_lt_length_iff_exists.mpr ⟨n, ?_, by simp⟩
  exact List.mem_filter.mpr ⟨List.mem_range.mpr lt, by simpa using new⟩

theorem Deep.parent {depth : Nat} {id parent : ClassId} {inProgress : List ClassId}
    (deep : src.Deep (depth + 1) id inProgress) (new : id ∉ inProgress)
    (declared : src.Declared parent) : src.Deep depth parent (id :: inProgress) := by
  refine ⟨?_, .inl declared⟩
  rcases deep.2 with known | deep
  · have := remaining_cons_lt known new
    have := deep.1
    omega
  · have : src.remaining (id :: inProgress) ≤ src.remaining inProgress :=
      remaining_cons_le id inProgress
    omega

theorem deep_start (id : ClassId) : src.Deep (src.program.classes.length + 2) id [] := by
  have all : src.remaining [] ≤ src.program.classes.length := by
    have le := List.length_filter_le (fun n => !([] : List ClassId).contains (ClassId.ofNat n))
      (List.range src.program.classes.length)
    rwa [List.length_range] at le
  exact ⟨by omega, .inr (by omega)⟩

/-! ## Genuine components -/

variable (src) in
/-- Each catalog kept has the holdings of its component, and is the right one if the
component is genuine. -/
structure Truthful (store : CatalogStore) : Prop where
  own : ∀ {id : ClassId} {c : Catalog}, store.catalogs.get? id = some c →
    c.own = (src.holdings id).1
  genuine : ∀ {id : ClassId} {c d : Catalog}, store.catalogs.get? id = some c →
    src.Genuine id d → c = d

variable (src) in
/-- Below a genuine component in progress there are only genuine ones. -/
def Below (id : ClassId) (inProgress : List ClassId) : Prop :=
  ∀ x ∈ inProgress, ∀ d, src.Genuine x d → ∃ c, src.Genuine id c ∧ c.height < d.height

variable (src) in
/-- Collecting `id` keeps the store truthful, and finds nothing if `id` is genuine. -/
def Collects (collect : ClassId → Collecting → Catalog × Collecting) (id : ClassId)
    (inProgress : List ClassId) : Prop :=
  ∀ st : Collecting, src.Truthful st.store → st.store.inProgress = inProgress →
    src.Truthful (collect id st).2.store ∧ (collect id st).2.store.inProgress = inProgress ∧
      ∀ c, src.Genuine id c → (collect id st).1 = c ∧ (collect id st).2.log = st.log

variable {collect : ClassId → Collecting → Catalog × Collecting} {id : ClassId}
  {inProgress : List ClassId} {st : Collecting}

theorem Below.parent {param : ParamDecl} {parent : ClassId} (below : src.Below id inProgress)
    (mem : param ∈ src.parentParams id) (named : src.program.classOf param.ty = some parent) :
    src.Below parent (id :: inProgress) := by
  have step : ∀ d, src.Genuine id d → ∃ c, src.Genuine parent c ∧ c.height < d.height := by
    rintro d ⟨-, parents⟩
    obtain ⟨c, genuine, among⟩ := parents.exists_parent mem named
    exact ⟨c, genuine, height_lt_of_mem among⟩
  intro x among d genuine
  rcases List.mem_cons.mp among with rfl | among
  · exact step d genuine
  · obtain ⟨c, genuine, lt⟩ := below x among d genuine
    obtain ⟨e, genuine, lt'⟩ := step c genuine
    exact ⟨e, genuine, Nat.lt_trans lt' lt⟩

theorem Below.not_mem {c : Catalog} (below : src.Below id inProgress) (genuine : src.Genuine id c) :
    id ∉ inProgress := by
  intro mem
  obtain ⟨d, genuine', lt⟩ := below id mem c genuine
  rw [genuine'.unique genuine] at lt
  exact Nat.lt_irrefl _ lt

theorem parentCatalogs_cons_some (own : Holdings) {param : ParamDecl} (rest : List ParamDecl)
    {parent : ClassId} {found : Catalog} {mid : Collecting}
    (named : src.program.classOf param.ty = some parent)
    (first : collect parent st = (found, mid)) :
    src.parentCatalogs collect own (param :: rest) st =
      ((param.name, found) ::
          (src.parentCatalogs collect own rest (mid.errors (src.parentFindings own found))).1,
        (src.parentCatalogs collect own rest (mid.errors (src.parentFindings own found))).2) := by
  simp only [parentCatalogs, named, first]

theorem parentCatalogs_cons_none (own : Holdings) {param : ParamDecl} (rest : List ParamDecl)
    (unknown : src.program.classOf param.ty = none) :
    src.parentCatalogs collect own (param :: rest) st =
      src.parentCatalogs collect own rest
        (st.error (.noSuchComponent param.ty) (.ctor own.cls 0)) := by
  simp only [parentCatalogs, unknown]

variable (src) in
/-- What the parents of `id` are collected from. -/
def entered (id : ClassId) (st : Collecting) : Collecting :=
  { store := st.store.enter id, log := st.log.errors (src.holdings id).2 }

variable (src) in
/-- The catalog of `id` over its parents. -/
def assembled (id : ClassId) (parents : List (String × Catalog)) (st last : Collecting) :
    Catalog where
  own := (src.holdings id).1
  parents := parents
  faulty := decide (last.log.errorCount > st.log.errorCount) ||
    parents.any fun (_, parent) => parent.faulty

theorem build_eq {parents : List (String × Catalog)} {last : Collecting}
    (found : src.parentCatalogs collect (src.holdings id).1 (src.parentParams id)
      (src.entered id st) = (parents, last)) :
    src.build collect id st = (src.assembled id parents st last,
      { last with store := last.store.finish id (src.assembled id parents st last) }) := by
  simp only [entered] at found
  simp only [build, found, assembled]

/-- The parents keep the store truthful, and nothing is found if they are genuine. -/
theorem parentCatalogs_collects (own : Holdings) {params : List ParamDecl}
    (each : ∀ param ∈ params, ∀ parent, src.program.classOf param.ty = some parent →
      src.Collects collect parent inProgress)
    (truthful : src.Truthful st.store) (progress : st.store.inProgress = inProgress) :
    src.Truthful (src.parentCatalogs collect own params st).2.store ∧
      (src.parentCatalogs collect own params st).2.store.inProgress = inProgress ∧
      ∀ parents, src.GenuineParents own params parents →
        (src.parentCatalogs collect own params st).1 = parents ∧
          (src.parentCatalogs collect own params st).2.log = st.log := by
  induction params generalizing st with
  | nil =>
      refine ⟨truthful, progress, ?_⟩
      rintro _ ⟨⟩
      exact ⟨rfl, rfl⟩
  | cons param rest ih =>
      have others := fun p mem => each p (List.mem_cons_of_mem param mem)
      cases named : src.program.classOf param.ty with
      | none =>
          rw [parentCatalogs_cons_none own rest named]
          have kept : src.Truthful (st.error (.noSuchComponent param.ty) (.ctor own.cls 0)).store :=
            truthful
          obtain ⟨truthful', progress', -⟩ := ih others kept progress
          refine ⟨truthful', progress', fun parents genuine => ?_⟩
          cases genuine with
          | cons named' => cases named.symm.trans named'
      | some parent =>
          cases first : collect parent st with
          | mk found mid =>
              rw [parentCatalogs_cons_some own rest named first]
              have collected := each param List.mem_cons_self parent named st truthful progress
              rw [first] at collected
              obtain ⟨truthful, progress, right⟩ := collected
              have kept : src.Truthful (mid.errors (src.parentFindings own found)).store := truthful
              obtain ⟨truthful', progress', more⟩ := ih others kept progress
              refine ⟨truthful', progress', fun parents genuine => ?_⟩
              cases genuine with
              | cons named' genuine fine genuine' =>
                  obtain rfl := Option.some.inj (named.symm.trans named')
                  obtain ⟨rfl, quiet⟩ := right _ genuine
                  obtain ⟨others, quiet'⟩ := more _ genuine'
                  refine ⟨by rw [others], quiet'.trans ?_⟩
                  rw [fine]
                  exact quiet

theorem Truthful.finish {store : CatalogStore} {c : Catalog} (truthful : src.Truthful store)
    (own : c.own = (src.holdings id).1) (genuine : ∀ d, src.Genuine id d → c = d) :
    src.Truthful (store.finish id c) where
  own := by
    intro other d found
    simp only [CatalogStore.finish, Table.get?_insert] at found
    split at found
    · subst other
      obtain rfl := Option.some.inj found
      exact own
    · exact truthful.own found
  genuine := by
    intro other d e found right
    simp only [CatalogStore.finish, Table.get?_insert] at found
    split at found
    · subst other
      obtain rfl := Option.some.inj found
      exact genuine e right
    · exact truthful.genuine found right

theorem build_collects
    (each : ∀ param ∈ src.parentParams id, ∀ parent, src.program.classOf param.ty = some parent →
      src.Collects collect parent (id :: inProgress)) :
    src.Collects (src.build collect) id inProgress := by
  intro st truthful progress
  have start : src.Truthful (src.entered id st).store := ⟨truthful.own, truthful.genuine⟩
  have collected := parentCatalogs_collects (src.holdings id).1 each start
    (by rw [← progress]; rfl)
  cases found : src.parentCatalogs collect (src.holdings id).1 (src.parentParams id)
      (src.entered id st) with
  | mk parents last =>
      rw [found] at collected
      obtain ⟨truthful', progress', right⟩ := collected
      rw [build_eq found]
      have genuine : ∀ c, src.Genuine id c →
          src.assembled id parents st last = c ∧ last.log = st.log := by
        rintro c ⟨fine, genuine⟩
        obtain ⟨rfl, quiet⟩ := right _ genuine
        have silent : (src.entered id st).log = st.log := by
          simp only [entered, fine]
          rfl
        have same : last.log = st.log := quiet.trans silent
        exact ⟨by simp [assembled, same, genuine.not_faulty], same⟩
      refine ⟨truthful'.finish rfl fun d right => (genuine d right).1, ?_, genuine⟩
      simp only at progress'
      simp only [CatalogStore.finish, progress', List.erase_cons_head]

/-- A genuine component gets its catalog from any truthful store, without a report. -/
theorem collectTo_genuine {depth : Nat} (deep : src.Deep depth id inProgress)
    (below : src.Below id inProgress) : src.Collects (src.collectTo depth) id inProgress := by
  induction depth generalizing id inProgress with
  | zero => exact absurd deep.1 (Nat.not_lt_zero _)
  | succ depth ih =>
      intro st truthful progress
      simp only [collectTo]
      split
      · rename_i c kept
        exact ⟨truthful, progress, fun d right => ⟨truthful.genuine kept right, rfl⟩⟩
      · rw [progress]
        split
        · rename_i again
          refine ⟨truthful, progress, fun d right => absurd ?_ (below.not_mem right)⟩
          simpa using again
        · rename_i new
          have new : id ∉ inProgress := by simpa using new
          refine build_collects (fun param mem parent named => ?_) st truthful progress
          exact ih (deep.parent new (declared_of_classOf named)) (below.parent mem named)

/-! ## Collecting without errors -/

variable (src) in
/-- The catalogs kept without faults are genuine. -/
def Clean (store : CatalogStore) : Prop :=
  ∀ id c, store.catalogs.get? id = some c → c.faulty = false → src.Genuine id c

variable (src) in
/-- Collecting takes no error back, and keeps a clean store clean if it reports none. -/
structure CollectsCleanly (collect : ClassId → Collecting → Catalog × Collecting) : Prop where
  mono : ∀ id st, st.log.errorCount ≤ (collect id st).2.log.errorCount
  clean : ∀ id st, src.Clean st.store → (collect id st).2.log.errorCount = 0 →
    src.Clean (collect id st).2.store ∧
      ((collect id st).1.faulty = false → src.Genuine id (collect id st).1)

theorem parentCatalogs_errorCount_le (own : Holdings) (params : List ParamDecl) (st : Collecting)
    (each : src.CollectsCleanly collect) :
    st.log.errorCount ≤ (src.parentCatalogs collect own params st).2.log.errorCount := by
  induction params generalizing st with
  | nil => exact Nat.le_refl _
  | cons param rest ih =>
      cases named : src.program.classOf param.ty with
      | none =>
          rw [parentCatalogs_cons_none own rest named]
          exact Nat.le_trans (Log.errorCount_le_record st.log _)
            (ih (st.error (.noSuchComponent param.ty) (.ctor own.cls 0)))
      | some parent =>
          cases first : collect parent st with
          | mk found mid =>
              rw [parentCatalogs_cons_some own rest named first]
              have collected := each.mono parent st
              rw [first] at collected
              exact Nat.le_trans collected (Nat.le_trans
                (Log.errorCount_le_errors mid.log _) (ih (mid.errors _)))

/-- Parents collected without an error are genuine, unless one is faulty. -/
theorem parentCatalogs_clean (own : Holdings) (params : List ParamDecl)
    (each : src.CollectsCleanly collect) (clean : src.Clean st.store)
    (quiet : (src.parentCatalogs collect own params st).2.log.errorCount = 0) :
    src.Clean (src.parentCatalogs collect own params st).2.store ∧
      (((src.parentCatalogs collect own params st).1.any fun (_, parent) => parent.faulty) = false →
        src.GenuineParents own params (src.parentCatalogs collect own params st).1) := by
  induction params generalizing st with
  | nil => exact ⟨clean, fun _ => .nil⟩
  | cons param rest ih =>
      cases named : src.program.classOf param.ty with
      | none =>
          rw [parentCatalogs_cons_none own rest named] at quiet
          have reported :
              0 < (st.error (.noSuchComponent param.ty) (.ctor own.cls 0)).log.errorCount :=
            Log.errorCount_error_pos _ _ _
          have := parentCatalogs_errorCount_le own rest
            (st.error (.noSuchComponent param.ty) (.ctor own.cls 0)) each
          omega
      | some parent =>
          cases first : collect parent st with
          | mk found mid =>
              rw [parentCatalogs_cons_some own rest named first] at quiet ⊢
              have later := parentCatalogs_errorCount_le own rest
                (mid.errors (src.parentFindings own found)) each
              have silent : (mid.log.errors (src.parentFindings own found)).errorCount = 0 :=
                Nat.le_zero.mp (quiet ▸ later)
              have fine := Log.errorCount_errors_eq_zero silent
              have zero : mid.log.errorCount = 0 := by
                have := Log.errorCount_le_errors mid.log (src.parentFindings own found)
                omega
              have collected := each.clean parent st clean
              rw [first] at collected
              obtain ⟨clean', genuine⟩ := collected zero
              have kept : src.Clean (mid.errors (src.parentFindings own found)).store := clean'
              obtain ⟨clean'', more⟩ := ih kept quiet
              refine ⟨clean'', fun sound => ?_⟩
              simp only [List.any_cons, Bool.or_eq_false_iff] at sound
              exact .cons named (genuine sound.1) fine (more sound.2)

theorem Clean.finish {store : CatalogStore} {c : Catalog} (clean : src.Clean store)
    (genuine : c.faulty = false → src.Genuine id c) : src.Clean (store.finish id c) := by
  intro other d found sound
  simp only [CatalogStore.finish, Table.get?_insert] at found
  split at found
  · subst other
    obtain rfl := Option.some.inj found
    exact genuine sound
  · exact clean other d found sound

theorem build_cleanly (each : src.CollectsCleanly collect) :
    src.CollectsCleanly (src.build collect) := by
  refine ⟨fun id st => ?_, fun id st clean quiet => ?_⟩
  case refine_1 =>
      have le := parentCatalogs_errorCount_le (src.holdings id).1 (src.parentParams id)
        (src.entered id st) each
      cases found : src.parentCatalogs collect (src.holdings id).1 (src.parentParams id)
          (src.entered id st) with
      | mk parents last =>
          rw [found] at le
          rw [build_eq found]
          exact Nat.le_trans (Log.errorCount_le_errors st.log (src.holdings id).2) le
  case refine_2 =>
      have le := parentCatalogs_errorCount_le (src.holdings id).1 (src.parentParams id)
        (src.entered id st) each
      have start : src.Clean (src.entered id st).store := clean
      have collected := parentCatalogs_clean (src.holdings id).1 (src.parentParams id) each start
      cases found : src.parentCatalogs collect (src.holdings id).1 (src.parentParams id)
          (src.entered id st) with
      | mk parents last =>
          rw [found] at le collected
          rw [build_eq found] at quiet ⊢
          have zero : last.log.errorCount = 0 := quiet
          obtain ⟨clean', genuine⟩ := collected zero
          have fine : (src.holdings id).2 = [] :=
            Log.errorCount_errors_eq_zero (Nat.le_zero.mp (Nat.le_trans le (Nat.le_of_eq zero)))
          have sound : (src.assembled id parents st last).faulty = false →
              src.Genuine id (src.assembled id parents st last) := by
            intro unfaulty
            have assembled : src.assembled id parents st last =
                ⟨(src.holdings id).1, parents, false⟩ := by
              rw [← unfaulty]
              rfl
            rw [assembled]
            exact .mk fine (genuine (Bool.or_eq_false_iff.mp unfaulty).2)
          exact ⟨clean'.finish sound, sound⟩

/-- What is collected without an error from a clean store is genuine, or faulty. -/
theorem collectTo_cleanly (depth : Nat) : src.CollectsCleanly (src.collectTo depth) := by
  induction depth with
  | zero => exact ⟨fun _ _ => Nat.le_refl _, fun _ _ clean _ => ⟨clean, nofun⟩⟩
  | succ depth ih =>
      refine ⟨fun id st => ?_, fun id st clean quiet => ?_⟩
      · simp only [collectTo]
        split
        · exact Nat.le_refl _
        · split
          · exact Log.errorCount_le_record _ _
          · exact (build_cleanly ih).mono id st
      · simp only [collectTo] at quiet ⊢
        split at quiet
        · rename_i c kept
          exact ⟨clean, clean id c kept⟩
        · split at quiet
          · exact absurd quiet (Nat.ne_of_gt (Log.errorCount_error_pos _ _ _))
          · rename_i new
            rw [if_neg new]
            exact (build_cleanly ih).clean id st clean quiet

/-! ## Collecting with nothing in progress -/

theorem Truthful.empty : src.Truthful {} := ⟨nofun, nofun⟩

theorem Clean.empty : src.Clean {} := nofun

theorem below_nil (id : ClassId) : src.Below id [] := nofun

theorem collect_collects (id : ClassId) : src.Collects src.collect id [] :=
  collectTo_genuine (deep_start id) (below_nil id)

theorem collect_cleanly : src.CollectsCleanly src.collect := collectTo_cleanly _

/-- Kept or built, a catalog has the holdings of its component. -/
theorem collect_own (truthful : src.Truthful st.store) (idle : st.store.inProgress = []) :
    (src.collect id st).1.own = (src.holdings id).1 := by
  simp only [collect, collectTo]
  split
  · rename_i c kept
    exact truthful.own kept
  · rw [idle]
    rfl

theorem genuine_of_collectTo {depth : Nat} (clean : src.Clean st.store)
    (idle : st.store.inProgress = []) (none : st.log.errorCount = 0)
    (sound : (src.collectTo (depth + 1) id st).1.faulty = false) :
    src.Genuine id (src.collectTo (depth + 1) id st).1 := by
  simp only [collectTo] at sound ⊢
  split at sound
  · rename_i c kept
    exact clean id c kept sound
  · rw [idle] at sound ⊢
    rw [if_neg (by simp)] at sound ⊢
    refine ((build_cleanly (collectTo_cleanly depth)).clean id st clean ?_).2 sound
    cases found : src.parentCatalogs (src.collectTo depth) (src.holdings id).1
        (src.parentParams id) (src.entered id st) with
    | mk parents last =>
        rw [build_eq found] at sound ⊢
        have same : ¬ last.log.errorCount > st.log.errorCount :=
          of_decide_eq_false (Bool.or_eq_false_iff.mp sound).1
        exact Nat.eq_zero_of_not_pos (none ▸ same)

/-- With a clean store and no errors before, a catalog without faults is genuine. -/
theorem genuine_of_collect (clean : src.Clean st.store) (idle : st.store.inProgress = [])
    (none : st.log.errorCount = 0) (sound : (src.collect id st).1.faulty = false) :
    src.Genuine id (src.collect id st).1 := genuine_of_collectTo clean idle none sound

end Source

end Injector
