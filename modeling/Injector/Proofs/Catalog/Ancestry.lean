/-
# Injector.Proofs.Catalog.Ancestry -- parents that lead back

The parents of a component are collected while it is in progress, and meeting a component in
progress again ends that branch with a report.  `Completes` says so without any limit on the
depth; the limit of `collectTo` is never reached (`completes_collectTo`), so there is no
ancestry that collecting does not come to the end of, if it comes to the end of each component.
What a component declares is listed before its parents are, and that takes a hierarchy in which
the supertypes that are asked for have an end (`Listable`).

What a run leaves behind is read off its steps:

* nothing that was kept is lost, and only ancestors are added (`Completes.extends`);
* the parents of what is kept are kept too, or in progress (`Completes.covers`);
* a component below a cycle of parents is faulty, and the cycle is reported
  (`Completes.flags`);
* a component that is reported as its own parent is on a cycle (`Completes.blames`).

From an empty store that is exactly the ancestry, with a report just where it has a cycle
(`collect_ancestry`).  Where something in the ancestry cannot be listed, there is no run
(`Completes.listed_of_above`).
-/
import Injector.Proofs.Catalog.Findings
import Injector.Proofs.Catalog.Genuine
import Injector.Proofs.Catalog.Lookups
import Mathlib.Logic.Relation

namespace Injector

set_option autoImplicit false

open Relation (ReflTransGen TransGen)

namespace CatalogStore

/-- From `s` to `t` nothing is lost, and catalogs of `new` components are added. -/
structure Extends (new : ClassId → Prop) (s t : CatalogStore) : Prop where
  progress : t.inProgress = s.inProgress
  kept : ∀ {x : ClassId} {c : Catalog}, s.catalogs.get? x = some c → t.catalogs.get? x = some c
  added : ∀ {x : ClassId} {c : Catalog}, t.catalogs.get? x = some c →
    s.catalogs.get? x = some c ∨ new x
  distinct : s.catalogs.keys.Nodup → t.catalogs.keys.Nodup

/-- The component has a catalog, or is in progress. -/
def Met (s : CatalogStore) (x : ClassId) : Prop :=
  x ∈ s.inProgress ∨ ∃ c, s.catalogs.get? x = some c

variable {new more : ClassId → Prop} {s t u : CatalogStore} {id x : ClassId} {c : Catalog}

theorem Extends.refl : Extends new s s := ⟨rfl, fun kept => kept, .inl, fun distinct => distinct⟩

theorem Extends.mono (extended : Extends new s t) (wider : ∀ x, new x → more x) :
    Extends more s t :=
  { extended with added := fun found => (extended.added found).imp_right (wider _) }

theorem Extends.trans (first : Extends new s t) (second : Extends new t u) : Extends new s u where
  progress := second.progress.trans first.progress
  kept found := second.kept (first.kept found)
  added found := (second.added found).elim first.added .inr
  distinct before := second.distinct (first.distinct before)

/-- What is kept after finishing `id` is its catalog, or was kept before. -/
theorem of_get?_finish {d : Catalog} (found : (t.finish id c).catalogs.get? x = some d) :
    id = x ∧ c = d ∨ t.catalogs.get? x = some d := by
  simp only [finish, Table.get?_insert] at found
  split at found
  · rename_i same
    exact .inl ⟨same, Option.some.inj found⟩
  · exact .inr found

theorem inProgress_finish {rest : List ClassId} (progress : t.inProgress = id :: rest) :
    (t.finish id c).inProgress = rest := by
  simp only [finish, progress, List.erase_cons_head]

/-- A component that had no catalog gets one. -/
theorem Extends.finish (extended : Extends new (s.enter id) t) (fresh : s.catalogs.get? id = none)
    (itself : new id) : Extends new s (t.finish id c) where
  progress := inProgress_finish extended.progress
  kept {x d} found := by
    have apart : id ≠ x := by
      rintro rfl
      cases fresh.symm.trans found
    simp only [CatalogStore.finish, Table.get?_insert, if_neg apart]
    exact extended.kept found
  added {x d} found := by
    rcases of_get?_finish found with ⟨rfl, -⟩ | found
    · exact .inr itself
    · exact extended.added found
  distinct before := Table.nodup_keys_insert (extended.distinct before) id c

theorem Met.of_extends (met : s.Met x) (extended : Extends new s t) : t.Met x :=
  met.imp (fun mem => extended.progress ▸ mem) fun ⟨c, found⟩ => ⟨c, extended.kept found⟩

theorem met_finish : (t.finish id c).Met id :=
  .inr ⟨c, by simp [finish, Table.get?_insert]⟩

theorem Met.finish {rest : List ClassId} (met : t.Met x) (progress : t.inProgress = id :: rest) :
    (t.finish id c).Met x := by
  by_cases same : id = x
  · exact same ▸ met_finish
  · rcases met with mem | ⟨d, found⟩
    · rw [progress] at mem
      refine .inl ?_
      rw [inProgress_finish progress]
      exact (List.mem_cons.mp mem).resolve_left (Ne.symm same)
    · exact .inr ⟨d, by simpa [CatalogStore.finish, Table.get?_insert, same] using found⟩

end CatalogStore

namespace Source

variable (src : Source)

/-! ## Parents -/

/-- One of the parameters is of that class. -/
def Names (params : List ParamDecl) (parent : ClassId) : Prop :=
  ∃ param ∈ params, src.program.classOf param.ty = some parent

/-- A component in the parameters of the primary constructor. -/
def IsParent (id parent : ClassId) : Prop := src.Names (src.parentParams id) parent

/-- The component itself, or one above it, is its own ancestor. -/
def Circular (id : ClassId) : Prop :=
  ∃ x, ReflTransGen src.IsParent id x ∧ TransGen src.IsParent x x

variable {src} {own : Holdings} {params rest : List ParamDecl} {param : ParamDecl}
  {id x : ClassId} {c : Catalog} {parents : List (String × Catalog)} {st last : Collecting}

theorem not_names_nil : ¬src.Names [] x := by
  simp [Names]

theorem names_cons : src.Names (param :: rest) x ↔
    src.program.classOf param.ty = some x ∨ src.Names rest x := by
  simp [Names]

theorem names_head (known : src.program.classOf param.ty = some x) :
    src.Names (param :: rest) x := names_cons.mpr (.inl known)

theorem Names.cons (named : src.Names rest x) : src.Names (param :: rest) x :=
  names_cons.mpr (.inr named)

theorem names_cons_none (missing : src.program.classOf param.ty = none) :
    src.Names (param :: rest) x ↔ src.Names rest x := by
  simp [names_cons, missing]

theorem names_cons_some (known : src.program.classOf param.ty = some id) :
    src.Names (param :: rest) x ↔ id = x ∨ src.Names rest x := by
  simp [names_cons, known]

/-- On the way to a cycle, or around it, the next component is a parent. -/
theorem Circular.exists_parent (circular : src.Circular id) :
    ∃ parent, src.IsParent id parent ∧ src.Circular parent := by
  obtain ⟨x, up, loop⟩ := circular
  rcases ReflTransGen.cases_head up with rfl | ⟨parent, step, up⟩
  · obtain ⟨parent, step, back⟩ := TransGen.head'_iff.mp loop
    exact ⟨parent, step, id, back, loop⟩
  · exact ⟨parent, step, x, up, loop⟩

/-! ## Runs -/

variable (src) (listed : ClassId → Prop)

mutual

/-- Collecting a component comes to an end, with its catalog: one that is kept, the empty one
if the component is in progress, or one over the catalogs of its parents.  For that last one
what the component itself declares has to be `listed`. -/
inductive Completes : ClassId → Collecting → Catalog → Collecting → Prop where
  | kept {id : ClassId} {st : Collecting} {c : Catalog} :
      st.store.catalogs.get? id = some c → Completes id st c st
  | again {id : ClassId} {st : Collecting} :
      st.store.catalogs.get? id = none → id ∈ st.store.inProgress →
      Completes id st (.ownParent id)
        (st.error (.ownParent (src.program.classAt id).decl) (.cls id))
  | built {id : ClassId} {st last : Collecting} {parents : List (String × Catalog)} :
      st.store.catalogs.get? id = none → id ∉ st.store.inProgress → listed id →
      CompletesParents (src.holdings id).1 (src.parentParams id) (src.entered id st) parents last →
      Completes id st (src.assembled id parents st last)
        { last with store := last.store.finish id (src.assembled id parents st last) }

/-- Collecting the parents among the parameters, one by one, comes to an end. -/
inductive CompletesParents :
    Holdings → List ParamDecl → Collecting → List (String × Catalog) → Collecting → Prop where
  | nil {own : Holdings} {st : Collecting} : CompletesParents own [] st [] st
  | unknown {own : Holdings} {param : ParamDecl} {rest : List ParamDecl} {st last : Collecting}
      {parents : List (String × Catalog)} : src.program.classOf param.ty = none →
      CompletesParents own rest (st.error (.noSuchComponent param.ty) (.ctor own.cls 0)) parents
        last →
      CompletesParents own (param :: rest) st parents last
  | parent {own : Holdings} {param : ParamDecl} {rest : List ParamDecl} {id : ClassId}
      {st mid last : Collecting} {parent : Catalog} {more : List (String × Catalog)} :
      src.program.classOf param.ty = some id → Completes id st parent mid →
      CompletesParents own rest (mid.errors (src.parentFindings own parent)) more last →
      CompletesParents own (param :: rest) st ((param.name, parent) :: more) last

end

variable {src} {listed : ClassId → Prop}

mutual

/-- What was kept stays, nothing else stays in progress, and only ancestors are added, which are
listed. -/
theorem Completes.extends : ∀ {id : ClassId} {st last : Collecting} {c : Catalog},
    src.Completes listed id st c last →
      st.store.Extends (fun x => ReflTransGen src.IsParent id x ∧ listed x) last.store
  | _, _, _, _, .kept _ => .refl
  | _, _, _, _, .again _ _ => .refl
  | _, _, _, _, .built fresh _ here parents =>
      (parents.extends.mono fun _ ⟨⟨_, named, up⟩, ok⟩ => ⟨.head named up, ok⟩).finish fresh
        ⟨.refl, here⟩

theorem CompletesParents.extends : ∀ {own : Holdings} {params : List ParamDecl}
    {st last : Collecting} {parents : List (String × Catalog)},
    src.CompletesParents listed own params st parents last →
      st.store.Extends
        (fun x => (∃ y, src.Names params y ∧ ReflTransGen src.IsParent y x) ∧ listed x) last.store
  | _, _, _, _, _, .nil => .refl
  | _, _, _, _, _, .unknown _ others =>
      others.extends.mono fun _ ⟨⟨y, named, up⟩, ok⟩ => ⟨⟨y, named.cons, up⟩, ok⟩
  | _, _, _, _, _, .parent named first others =>
      (first.extends.mono fun _ ⟨up, ok⟩ => ⟨⟨_, names_head named, up⟩, ok⟩).trans
        (others.extends.mono fun _ ⟨⟨y, named, up⟩, ok⟩ => ⟨⟨y, named.cons, up⟩, ok⟩)

end

/-! ## The limit of the depth -/

theorem completesParents_parentCatalogs (own : Holdings)
    {collect : ClassId → Collecting → Catalog × Collecting} {inProgress : List ClassId}
    (each : ∀ parent, src.Names params parent → ∀ st : Collecting,
      st.store.inProgress = inProgress →
        src.Completes listed parent st (collect parent st).1 (collect parent st).2)
    (progress : st.store.inProgress = inProgress) :
    src.CompletesParents listed own params st (src.parentCatalogs collect own params st).1
      (src.parentCatalogs collect own params st).2 := by
  induction params generalizing st with
  | nil => exact .nil
  | cons param rest ih =>
      have others := fun parent (named : src.Names rest parent) => each parent named.cons
      cases named : src.program.classOf param.ty with
      | none =>
          rw [parentCatalogs_cons_none own rest named]
          exact .unknown named (ih others progress)
      | some parent =>
          cases collected : collect parent st with
          | mk found mid =>
              have first := each parent (names_head named) st progress
              rw [collected] at first
              rw [parentCatalogs_cons_some own rest named collected]
              exact .parent named first (ih others (first.extends.progress.trans progress))

/-- A component in progress is not entered again, so the depth is enough for every run. -/
theorem completes_collectTo {depth : Nat} (all : ∀ x, ReflTransGen src.IsParent id x → listed x)
    (deep : src.Deep depth id st.store.inProgress) :
    src.Completes listed id st (src.collectTo depth id st).1 (src.collectTo depth id st).2 := by
  induction depth generalizing id st with
  | zero => exact absurd deep.1 (Nat.not_lt_zero _)
  | succ depth ih =>
      simp only [collectTo]
      split
      · rename_i c found
        exact .kept found
      · rename_i fresh
        split
        · rename_i again
          exact .again fresh (by simpa using again)
        · rename_i new
          have new : id ∉ st.store.inProgress := by simpa using new
          have each : ∀ parent, src.IsParent id parent → ∀ mid : Collecting,
              mid.store.inProgress = (src.entered id st).store.inProgress →
                src.Completes listed parent mid (src.collectTo depth parent mid).1
                  (src.collectTo depth parent mid).2 := by
            rintro parent ⟨param, mem, named⟩ mid progress
            exact ih (fun x up => all x (.head ⟨param, mem, named⟩ up))
              (progress ▸ deep.parent new (declared_of_classOf named))
          have parents := completesParents_parentCatalogs (src.holdings id).1 each rfl
          cases found : src.parentCatalogs (src.collectTo depth) (src.holdings id).1
              (src.parentParams id) (src.entered id st) with
          | mk catalogs last =>
              rw [found] at parents
              rw [build_eq found]
              exact .built fresh new (all id .refl) parents

theorem completes_collect (all : ∀ x, ReflTransGen src.IsParent id x → listed x)
    (idle : st.store.inProgress = []) :
    src.Completes listed id st (src.collect id st).1 (src.collect id st).2 :=
  completes_collectTo all (idle ▸ deep_start id)

/-! ## What is kept -/

variable (src) in
/-- The parents of what is kept were met. -/
def Covered (store : CatalogStore) : Prop :=
  ∀ x c, store.catalogs.get? x = some c → ∀ parent, src.IsParent x parent → store.Met parent

theorem Covered.entered (covered : src.Covered st.store) :
    src.Covered (src.entered id st).store := fun x c found parent step =>
  (covered x c found parent step).imp_left (List.mem_cons_of_mem id)

theorem Covered.finish {inProgress : List ClassId} {store : CatalogStore}
    (covered : src.Covered store) (progress : store.inProgress = id :: inProgress)
    (met : ∀ parent, src.IsParent id parent → store.Met parent) :
    src.Covered (store.finish id c) := by
  intro x d found parent step
  refine CatalogStore.Met.finish ?_ progress
  rcases CatalogStore.of_get?_finish found with ⟨rfl, -⟩ | found
  · exact met parent step
  · exact covered x d found parent step

mutual

/-- The component is met, and the parents of what is kept still are. -/
theorem Completes.covers : ∀ {id : ClassId} {st last : Collecting} {c : Catalog},
    src.Completes listed id st c last → src.Covered st.store →
      src.Covered last.store ∧ last.store.Met id
  | _, _, _, _, .kept found, covered => ⟨covered, .inr ⟨_, found⟩⟩
  | _, _, _, _, .again _ mem, covered => ⟨covered, .inl mem⟩
  | _, _, _, _, .built _ _ _ parents, covered =>
      have ⟨covered', met⟩ := parents.covers covered.entered
      ⟨covered'.finish parents.extends.progress met, CatalogStore.met_finish⟩

theorem CompletesParents.covers : ∀ {own : Holdings} {params : List ParamDecl}
    {st last : Collecting} {parents : List (String × Catalog)},
    src.CompletesParents listed own params st parents last → src.Covered st.store →
      src.Covered last.store ∧ ∀ parent, src.Names params parent → last.store.Met parent
  | _, _, _, _, _, .nil, covered => ⟨covered, fun _ named => absurd named not_names_nil⟩
  | _, _, _, _, _, .unknown missing others, covered => by
      obtain ⟨covered, met⟩ := others.covers covered
      exact ⟨covered, fun parent named => met parent ((names_cons_none missing).mp named)⟩
  | _, _, _, _, _, .parent known first others, covered => by
      obtain ⟨covered, here⟩ := first.covers covered
      obtain ⟨covered, met⟩ := others.covers covered
      refine ⟨covered, fun parent named => ?_⟩
      rcases (names_cons_some known).mp named with rfl | named
      · exact here.of_extends others.extends
      · exact met parent named

end

/-! ## Cycles -/

mutual

/-- No report is taken back. -/
theorem Completes.subset_log : ∀ {id : ClassId} {st last : Collecting} {c : Catalog},
    src.Completes listed id st c last → st.log.diagnostics ⊆ last.log.diagnostics
  | _, _, _, _, .kept _ => List.Subset.refl _
  | _, _, _, _, .again _ _ => Log.subset_record _ _
  | _, _, _, _, .built _ _ _ parents =>
      List.Subset.trans (Log.subset_errors _ _) parents.subset_log

theorem CompletesParents.subset_log : ∀ {own : Holdings} {params : List ParamDecl}
    {st last : Collecting} {parents : List (String × Catalog)},
    src.CompletesParents listed own params st parents last →
      st.log.diagnostics ⊆ last.log.diagnostics
  | _, _, _, _, _, .nil => List.Subset.refl _
  | _, _, _, _, _, .unknown _ others =>
      List.Subset.trans (Log.subset_record _ _) others.subset_log
  | _, _, _, _, _, .parent _ first others =>
      List.Subset.trans first.subset_log
        (List.Subset.trans (Log.subset_errors _ _) others.subset_log)

end

variable (src) in
/-- What is kept of components below a cycle is faulty, and a cycle was reported. -/
def Flagged (st : Collecting) : Prop :=
  ∀ x c, st.store.catalogs.get? x = some c → src.Circular x →
    c.faulty = true ∧ st.log.ReportsOwnParent

theorem Flagged.of_subset {mid : Collecting} (flagged : src.Flagged st)
    (same : mid.store.catalogs = st.store.catalogs)
    (more : st.log.diagnostics ⊆ mid.log.diagnostics) : src.Flagged mid := by
  intro x c found circular
  obtain ⟨faulty, d, mem, tells⟩ := flagged x c (same ▸ found) circular
  exact ⟨faulty, d, more mem, tells⟩

theorem Flagged.finish (flagged : src.Flagged last)
    (itself : src.Circular id → c.faulty = true ∧ last.log.ReportsOwnParent) :
    src.Flagged { last with store := last.store.finish id c } := by
  intro x d found circular
  rcases CatalogStore.of_get?_finish found with ⟨rfl, rfl⟩ | found
  · exact itself circular
  · exact flagged x d found circular

/-- The cycle is above one of the parents, which is faulty then. -/
theorem faulty_assembled (st : Collecting)
    (above : ∀ parent, src.IsParent id parent → src.Circular parent →
      (parents.any fun (_, parent) => parent.faulty) = true ∧ last.log.ReportsOwnParent)
    (circular : src.Circular id) :
    (src.assembled id parents st last).faulty = true ∧ last.log.ReportsOwnParent := by
  obtain ⟨parent, step, circular⟩ := circular.exists_parent
  obtain ⟨faulty, reports⟩ := above parent step circular
  exact ⟨Bool.or_eq_true_iff.mpr (.inr faulty), reports⟩

mutual

/-- A component below a cycle is faulty, and the cycle is reported: at the latest where the
component itself is met again. -/
theorem Completes.flags : ∀ {id : ClassId} {st last : Collecting} {c : Catalog},
    src.Completes listed id st c last → src.Flagged st →
      src.Flagged last ∧ (src.Circular id → c.faulty = true ∧ last.log.ReportsOwnParent)
  | _, _, _, _, .kept found, flagged => ⟨flagged, flagged _ _ found⟩
  | _, st, _, _, .again _ _, flagged =>
      ⟨flagged.of_subset rfl (Log.subset_record _ _),
        fun _ => ⟨rfl, Log.reportsOwnParent_error st.log _ _⟩⟩
  | id, st, _, _, .built _ _ _ parents, flagged => by
      have start : src.Flagged (src.entered id st) :=
        flagged.of_subset rfl (Log.subset_errors _ _)
      obtain ⟨flagged, above⟩ := parents.flags start
      have itself := faulty_assembled st above
      exact ⟨flagged.finish itself, itself⟩

theorem CompletesParents.flags : ∀ {own : Holdings} {params : List ParamDecl}
    {st last : Collecting} {parents : List (String × Catalog)},
    src.CompletesParents listed own params st parents last → src.Flagged st →
      src.Flagged last ∧ ∀ parent, src.Names params parent → src.Circular parent →
        (parents.any fun (_, parent) => parent.faulty) = true ∧ last.log.ReportsOwnParent
  | _, _, _, _, _, .nil, flagged => ⟨flagged, fun _ named => absurd named not_names_nil⟩
  | _, _, _, _, _, .unknown missing others, flagged => by
      obtain ⟨flagged, above⟩ := others.flags (flagged.of_subset rfl (Log.subset_record _ _))
      exact ⟨flagged, fun parent named => above parent ((names_cons_none missing).mp named)⟩
  | _, _, _, _, _, .parent known first others, flagged => by
      obtain ⟨flagged, here⟩ := first.flags flagged
      obtain ⟨flagged, above⟩ := others.flags (flagged.of_subset rfl (Log.subset_errors _ _))
      refine ⟨flagged, fun parent named circular => ?_⟩
      rcases (names_cons_some known).mp named with rfl | named
      · obtain ⟨faulty, d, mem, tells⟩ := here circular
        refine ⟨by simp [faulty], d, ?_, tells⟩
        exact others.subset_log (Log.subset_errors _ _ mem)
      · obtain ⟨faulty, reports⟩ := above parent named circular
        exact ⟨by simp [faulty], reports⟩

end

variable (src) in
/-- The report that a component is its own parent. -/
def ownParentReport (x : ClassId) : Diagnostic where
  severity := .error
  problem := .ownParent (src.program.classAt x).decl
  element := some (.cls x)

variable (src) in
/-- Of what is reported from `st` to `last`, only components `among` that are above themselves
are reported as their own parents. -/
def Blames (among : ClassId → Prop) (st last : Collecting) : Prop :=
  ∀ d ∈ last.log.diagnostics, d.problem.SaysOwnParent →
    d ∈ st.log.diagnostics ∨
      ∃ x, d = src.ownParentReport x ∧ among x ∧ TransGen src.IsParent x x

mutual

/-- If all that is in progress is below the component, one that is met again is above itself. -/
theorem Completes.blames : ∀ {id : ClassId} {st last : Collecting} {c : Catalog},
    src.Completes listed id st c last →
      (∀ y ∈ st.store.inProgress, TransGen src.IsParent y id) →
      src.Blames (ReflTransGen src.IsParent id) st last
  | _, _, _, _, .kept _, _ => fun _ mem _ => .inl mem
  | id, _, _, _, .again _ inside, below => fun d mem _ =>
      (Log.mem_record mem).imp_right fun here => ⟨id, here, .refl, below id inside⟩
  | id, st, _, _, .built _ _ _ parents, below => by
      intro d mem tells
      have start : ∀ y ∈ (src.entered id st).store.inProgress, ∀ parent, src.IsParent id parent →
          TransGen src.IsParent y parent := by
        intro y inside parent step
        rcases List.mem_cons.mp inside with rfl | inside
        · exact .single step
        · exact (below y inside).tail step
      -- what the component itself has wrong is reported before its parents
      rcases parents.blames start d mem tells with old | ⟨x, same, ⟨parent, step, up⟩, loop⟩
      · exact .inl (Log.mem_of_plain (plain_holdings id) old tells)
      · exact .inr ⟨x, same, .head step up, loop⟩

theorem CompletesParents.blames : ∀ {own : Holdings} {params : List ParamDecl}
    {st last : Collecting} {parents : List (String × Catalog)},
    src.CompletesParents listed own params st parents last →
      (∀ y ∈ st.store.inProgress, ∀ parent, src.Names params parent →
        TransGen src.IsParent y parent) →
      src.Blames (fun x => ∃ y, src.Names params y ∧ ReflTransGen src.IsParent y x) st last
  | _, _, _, _, _, .nil, _ => fun _ mem _ => .inl mem
  | own, param :: _, st, _, _, .unknown _ others, below => by
      intro d mem tells
      have plain : Finding.AllPlain [⟨.noSuchComponent param.ty, some (.ctor own.cls 0)⟩] := by
        simp [Problem.isPlain]
      rcases others.blames (fun y inside parent named => below y inside parent
        named.cons) d mem tells with old | ⟨x, same, ⟨y, named, up⟩, loop⟩
      · exact .inl (Log.mem_of_plain plain old tells)
      · exact .inr ⟨x, same, ⟨y, named.cons, up⟩, loop⟩
  | own, _, st, _, _, .parent known first others, below => by
      intro d mem tells
      have here := fun y (inside : y ∈ st.store.inProgress) => below y inside _ (names_head known)
      have same := first.extends.progress
      rcases others.blames (fun y inside parent named => below y (same ▸ inside) parent
        named.cons) d mem tells with old | ⟨x, report, ⟨y, named, up⟩, loop⟩
      · have mid := Log.mem_of_plain (plain_parentFindings own _) old tells
        rcases first.blames here d mid tells with old | ⟨x, report, up, loop⟩
        · exact .inl old
        · exact .inr ⟨x, report, ⟨_, names_head known, up⟩, loop⟩
      · exact .inr ⟨x, report, ⟨y, named.cons, up⟩, loop⟩

end

/-! ## From an empty store -/

/-- With nothing in progress, what is collected is kept. -/
theorem Completes.kept_of_idle (completes : src.Completes listed id st c last)
    (idle : st.store.inProgress = []) : last.store.catalogs.get? id = some c := by
  cases completes with
  | kept found => exact found
  | again _ inside =>
      rw [idle] at inside
      cases inside
  | built => simp [CatalogStore.finish, Table.get?_insert]

/-- What is kept with nothing in progress are the component and all of its ancestors. -/
theorem Completes.mem_keys_iff (completes : src.Completes listed id {} c last) :
    x ∈ last.store.catalogs.keys ↔ ReflTransGen src.IsParent id x := by
  obtain ⟨covered, -⟩ := completes.covers nofun
  rw [Table.mem_keys_iff]
  constructor
  · rintro ⟨d, found⟩
    exact ((completes.extends.added found).resolve_left nofun).1
  · intro up
    induction up with
    | refl => exact ⟨c, completes.kept_of_idle rfl⟩
    | tail _ step ih =>
        obtain ⟨d, found⟩ := ih
        refine (covered _ d found _ step).resolve_left ?_
        rw [completes.extends.progress]
        exact List.not_mem_nil

/-- Collecting does not end unless all of the ancestry can be listed. -/
theorem Completes.listed_of_above (completes : src.Completes listed id {} c last)
    (up : ReflTransGen src.IsParent id x) : listed x := by
  obtain ⟨d, found⟩ := Table.mem_keys_iff.mp (completes.mem_keys_iff.mpr up)
  exact ((completes.extends.added found).resolve_left nofun).2

end Source

/-- Collecting a component comes to an end if what each component of the ancestry declares can be
listed: nothing is in progress then, and there is a catalog for each component of the ancestry,
no more.  A component is reported as its own parent just if the ancestry has a cycle, and only if
it is on one; and all components below a cycle are faulty. -/
theorem collect_ancestry (src : Source) (cls : ClassId)
    (lists : ∀ x, ReflTransGen src.IsParent cls x → src.Listable x) :
    let c := (src.collect cls {}).1
    let last := (src.collect cls {}).2
    src.Completes src.Listable cls {} c last ∧ last.store.inProgress = [] ∧
      last.store.catalogs.get? cls = some c ∧ last.store.catalogs.keys.Nodup ∧
      (∀ x, x ∈ last.store.catalogs.keys ↔ ReflTransGen src.IsParent cls x) ∧
      (∀ x d, last.store.catalogs.get? x = some d →
        d.own = (src.holdings x).1 ∧ (src.Circular x → d.faulty = true)) ∧
      (last.log.ReportsOwnParent ↔ src.Circular cls) ∧
      ∀ d ∈ last.log.diagnostics, d.problem.SaysOwnParent → ∃ x, d = src.ownParentReport x ∧
        ReflTransGen src.IsParent cls x ∧ TransGen src.IsParent x x := by
  intro c last
  have completes : src.Completes src.Listable cls {} c last := Source.completes_collect lists rfl
  obtain ⟨flagged, below⟩ := completes.flags nofun
  have collected : src.Collects src.collect cls [] := Source.collect_collects cls
  obtain ⟨truthful, -⟩ := collected {} .empty rfl
  have blames : ∀ d ∈ last.log.diagnostics, d.problem.SaysOwnParent → ∃ x,
      d = src.ownParentReport x ∧ ReflTransGen src.IsParent cls x ∧ TransGen src.IsParent x x :=
    fun d mem tells => (completes.blames nofun d mem tells).resolve_left nofun
  refine ⟨completes, completes.extends.progress, completes.kept_of_idle rfl,
    completes.extends.distinct List.nodup_nil, fun _ => completes.mem_keys_iff,
    fun x d found => ⟨truthful.own found, fun circular => (flagged x d found circular).1⟩,
    ⟨?_, fun circular => (below circular).2⟩, blames⟩
  rintro ⟨d, mem, tells⟩
  obtain ⟨x, -, up, loop⟩ := blames d mem tells
  exact ⟨x, up, loop⟩

/-- The parameter that makes the component of that name a parent. -/
def ParamDecl.asParent (name : String) : ParamDecl where
  name := "parent"
  ty := { name }
  annotations := [.ofDecl .component]
  isField := true

/-- A component on top of `Base<Foo>`. -/
def ClassDecl.overBaseOfFoo (name : String) (params : List ParamDecl) : ClassDecl where
  name := name
  isAbstract := true
  annotations := [.ofDecl .component]
  supers := [{ name := "Base", args := [{ name := "Foo" }] }]
  ctors := [{ params }]

/-- Two components that have an accessor of a `Foo` from `Base<Foo>`, where `Base<T>` extends the
given types.  `C` has the given parameters, and `P` has `C` for its parent. -/
def inheriting (supers : List Ty) (params : List ParamDecl) : Source where
  program :=
    { classes := [
        { name := "Base", kind := .interface, typeVars := [{ name := "T" }], supers,
          members := [.ofNat 0] },
        .overBaseOfFoo "C" params, .overBaseOfFoo "P" [.asParent "C"],
        { name := "Top", kind := .interface, typeVars := [{ name := "T" }] }]
      members := [{ owner := some (.ofNat 0), name := "item", kind := .property,
                    isAbstract := true, returnType := .typeVar "T" }] }
  options := {}

/-- `C` and `P` are above each other, so both are faulty. -/
theorem mutualParents_ancestry :
    let src := inheriting [{ name := "Top", args := [.typeVar "T"] }] [.asParent "P"]
    let last := (src.collect (.ofNat 1) {}).2
    (∀ x, src.Listable x) ∧
      src.Completes src.Listable (.ofNat 1) {} (src.collect (.ofNat 1) {}).1 last ∧
      last.store.inProgress = [] ∧ .ofNat 2 ∈ last.store.catalogs.keys ∧
      last.log.ReportsOwnParent ∧
      ∀ d, last.store.catalogs.get? (.ofNat 2) = some d → d.faulty = true := by
  intro src last
  have acyclic : src.program.Acyclic :=
    Program.acyclic_of_declared (fun c => [1, 2, 2, 0].getD c.toNat 0) (by decide) (by decide)
  have lists : ∀ x, src.Listable x :=
    Source.listable_of_ends fun c => Program.ends_of_acyclic acyclic (src.program.classAt c).ty
  have up : src.IsParent (.ofNat 1) (.ofNat 2) := ⟨.asParent "P", by decide, by decide⟩
  have back : src.IsParent (.ofNat 2) (.ofNat 1) := ⟨.asParent "C", by decide, by decide⟩
  have loop : TransGen src.IsParent (.ofNat 1) (.ofNat 1) := .tail (.single up) back
  obtain ⟨completes, idle, -, -, keys, kept, reports, -⟩ :=
    collect_ancestry src (.ofNat 1) fun x _ => lists x
  refine ⟨lists, completes, idle, (keys _).mpr (.single up), reports.mpr ⟨_, .refl, loop⟩, ?_⟩
  exact fun d found => (kept _ d found).2 ⟨_, .single back, loop⟩

/-- A list of lists of `Foo`, of that many levels. -/
def fooLists : Nat → Ty
  | 0 => { name := "Foo" }
  | n + 1 => { name := "List", args := [fooLists n] }

theorem fooLists_injective : Function.Injective fooLists := by
  intro m
  induction m with
  | zero => rintro (_ | n) same <;> simp [fooLists] at same ⊢
  | succ m ih =>
      rintro (_ | n) same
      · simp [fooLists] at same
      · simp only [fooLists, Ty.mk.injEq, List.cons.injEq, and_true, true_and] at same
        exact congrArg Nat.succ (ih same)

/-- What comes above `Base<Foo>` where `Base<T>` extends `Base<List<T>>`, itself included. -/
def baseOfLists (n : Nat) : Ty where
  name := "Base"
  args := [fooLists n]

theorem baseOfLists_injective : Function.Injective baseOfLists := by
  intro m n same
  simp only [baseOfLists, Ty.mk.injEq, List.cons.injEq, and_true, true_and] at same
  exact fooLists_injective same

/-- Each step up from `Base<Foo>` makes another type. -/
theorem growingBase_endless :
    let lists : Ty := { name := "List", args := [.typeVar "T"] }
    ¬(inheriting [{ name := "Base", args := [lists] }] []).program.Ends { name := "C" } := by
  intro lists ends
  let p := (inheriting [{ name := "Base", args := [lists] }] []).program
  have first : p.Declares { name := "C" } (baseOfLists 0) :=
    ⟨.ofNat 1, rfl, _, List.mem_singleton_self _, rfl⟩
  have next (n : Nat) : p.Declares (baseOfLists n) (baseOfLists (n + 1)) :=
    ⟨.ofNat 0, rfl, _, List.mem_singleton_self _, by cases n <;> rfl⟩
  have above (n : Nat) : TransGen p.Declares { name := "C" } (baseOfLists n) := by
    induction n with
    | zero => exact .single first
    | succ n ih => exact ih.tail (next n)
  have infinite := Set.infinite_of_injective_forall_mem baseOfLists_injective above
  exact infinite (Program.ends_iff.mp ends)

/-- Where `Base<T>` extends `Base<List<T>>` there is no end of the types above `C`, which are
looked through for its accessor. -/
theorem growingBase_ancestry_refuted :
    let lists : Ty := { name := "List", args := [.typeVar "T"] }
    let src := inheriting [{ name := "Base", args := [lists] }] []
    .ofNat 0 ∈ (src.scan (.ofNat 1)).accessors ∧
      (∀ out, ¬src.program.Walks [{ name := "C" }] [] out) ∧
      ¬∃ c last, src.Completes src.Listable (.ofNat 1) {} c last := by
  intro _ src
  have asked : .ofNat 0 ∈ (src.scan (.ofNat 1)).accessors := by decide +kernel
  have endless : ¬src.program.Ends { name := "C" } := growingBase_endless
  refine ⟨asked, fun out walks => endless ⟨out, walks⟩, ?_⟩
  rintro ⟨c, last, completes⟩
  have lists : src.Listable (.ofNat 1) := completes.listed_of_above .refl
  exact endless (lists.accessors _ asked (.ofNat 0) rfl (by decide))

end Injector
