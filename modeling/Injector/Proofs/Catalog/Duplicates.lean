/-
# Injector.Proofs.Catalog.Duplicates -- keys that are bound once

A component binds a key just when one of the members that were picked asks for it
(`Tabled.bound?_eq`).  The first of several stays in the table, and the key is masked: a
request for it ends at the component, whatever its parents have.

Each member after the first is reported together with the first (`duplicate_findings`), in
the log of the collection that builds the catalog (`Completes.tells`).  A log may have had
the same report before, and a catalog may have been built by an earlier collection; in one
of the logs the reports are (`directly_bound_once`).
-/
import Injector.Proofs.Catalog.Access
import Injector.Proofs.Catalog.Ancestry
import Injector.Proofs.Catalog.Routes
import Injector.Proofs.Catalog.Tables

namespace Injector

set_option autoImplicit false

/-- What the component itself binds to `key`: nothing if there is more than one member. -/
def Holdings.bound? (own : Holdings) (key : Key) : Option MemberBinding :=
  if own.duplicated.contains key then none else own.direct.get? key

/-! ## Reports -/

namespace Log

/-- Some error reads like the finding. -/
def Tells (log : Log) (f : Finding) : Prop :=
  ∃ d ∈ log.diagnostics, d.readsLike ⟨.error, f.problem, f.element⟩ = true

variable {log more : Log} {f : Finding} {findings : List Finding}

theorem Tells.of_subset (tells : log.Tells f) (among : log.diagnostics ⊆ more.diagnostics) :
    more.Tells f :=
  let ⟨d, mem, same⟩ := tells
  ⟨d, among mem, same⟩

/-- Be it new or not, after the report there is one that reads like it. -/
theorem tells_error (log : Log) (f : Finding) : (log.error f.problem f.element).Tells f := by
  simp only [error, record]
  split
  · rename_i old
    exact List.any_eq_true.mp old
  · exact ⟨_, List.mem_append_right _ List.mem_cons_self, by simp [Diagnostic.readsLike]⟩

theorem tells_errors (mem : f ∈ findings) : (log.errors findings).Tells f := by
  induction findings generalizing log with
  | nil => cases mem
  | cons first rest ih =>
      rcases List.mem_cons.mp mem with rfl | mem
      · exact (tells_error log f).of_subset (subset_errors _ rest)
      · exact ih mem

end Log

/-! ## Requests at the component itself -/

namespace Catalog

variable {c : Catalog} {key : Key} {b : MemberBinding}

theorem walk_eq_cons (c : Catalog) : c.walk = (.here, c) :: c.walk.tail := rfl

/-- What the component itself binds is found. -/
theorem lookup_of_bound? (bound : c.own.bound? key = some b) (here : b.path = .here) :
    c.lookup key = some ⟨.member b, c.own.cls⟩ := by
  simp only [Holdings.bound?] at bound
  split at bound
  · cases bound
  · rename_i single
    have offered : c.offers key (!FieldPath.here.isHere) = some b := bound
    have same : b.under .here = b := by
      rw [under_eq here, ← here]
    rw [lookup, walk_eq_cons]
    simp only [lookupIn, offered, if_neg single, same]

/-- Nothing is found for a masked key. -/
theorem lookup_of_duplicated (masked : key ∈ c.own.duplicated)
    (direct : c.own.direct.get? key = some b) : c.lookup key = none := by
  have offered : c.offers key (!FieldPath.here.isHere) = some b := direct
  rw [lookup, walk_eq_cons]
  simp only [lookupIn, offered, List.contains_iff_mem, if_pos masked]

/-- A key that the component itself does not bind is looked for in its ancestors. -/
theorem lookup_of_direct_none (direct : c.own.direct.get? key = none) :
    c.lookup key = lookupIn key c.walk.tail := by
  have offered : c.offers key (!FieldPath.here.isHere) = none := direct
  rw [lookup, walk_eq_cons]
  simp only [lookupIn, offered, List.tail_cons]

end Catalog

namespace Source

variable {src : Source} {own : Holdings} {cls x : ClassId} {m first : MemberId} {key : Key}
  {met rest : List MemberId} {b : MemberBinding} {listed : ClassId → Prop}

/-! ## What is bound -/

/-- A key is bound when one member asks for it. -/
theorem Tabled.bound?_eq (tabled : src.Tabled cls met own) (key : Key) :
    own.bound? key = some b ↔
      ∃ m, src.directMembers cls key met = [m] ∧ b = src.ownBinding cls m := by
  have masked : own.duplicated.contains key = true ↔
      2 ≤ (src.directMembers cls key met).length := by
    rw [List.contains_iff_mem, tabled.duplicated]
  simp only [Holdings.bound?, masked, tabled.direct]
  rcases src.directMembers cls key met with _ | ⟨m, _ | ⟨n, rest⟩⟩
  · simp
  · simp [eq_comm]
  · simp

/-! ## Findings -/

theorem fileAll_append {α : Type} {file : Holdings → α → Holdings × List Finding}
    (own : Holdings) (items more : List α) :
    fileAll file own (items ++ more) =
      ((fileAll file (fileAll file own items).1 more).1,
        (fileAll file own items).2 ++ (fileAll file (fileAll file own items).1 more).2) := by
  induction items generalizing own with
  | nil => rfl
  | cons item rest ih => simp only [List.cons_append, fileAll, ih, List.append_assoc]

/-- What is found at one item is found with all of them. -/
theorem mem_fileAll {α : Type} {file : Holdings → α → Holdings × List Finding} {own : Holdings}
    {before after : List α} {item : α} {f : Finding}
    (found : f ∈ (file (fileAll file own before).1 item).2) :
    f ∈ (fileAll file own (before ++ item :: after)).2 := by
  rw [fileAll_append]
  exact List.mem_append_right _ (List.mem_append_left _ found)

theorem bindDirect_subset_register (direct : src.bindsDirectly own.cls m = true) :
    (bindDirect own (src.directKey own.cls m) (src.ownBinding own.cls m)).2 ⊆
      (src.register own m).2 := by
  obtain ⟨single, plain⟩ : src.contributes m = false ∧ src.isGeneric own.cls m = false := by
    simpa [bindsDirectly] using direct
  obtain ⟨noMap, noSet⟩ := Bool.or_eq_false_iff.mp single
  simp only [isGeneric] at plain
  simp only [register, noMap, noSet, plain, Bool.false_eq_true, if_false]
  exact List.subset_append_right _ _

/-- A member that asks for a key after another one is reported, and so is the first. -/
theorem duplicate_findings
    (asking : src.directMembers cls key (src.scan cls).provides = first :: rest)
    (mem : m ∈ rest) : ∀ f ∈ duplicateFindings key m first, f ∈ (src.holdings cls).2 := by
  obtain ⟨before, others, picked, silent, asksFirst, rfl⟩ := List.filter_eq_cons_iff.mp asking
  obtain ⟨mem, asks⟩ := List.mem_filter.mp mem
  obtain ⟨between, after, rfl⟩ := List.append_of_mem mem
  have tabled := src.tabled_fileAll cls (before ++ first :: between)
  have owner := tabled.owner
  obtain ⟨direct, rfl⟩ : src.bindsDirectly cls m = true ∧ src.directKey cls m = key := by
    simpa using asks
  have earliest : (src.directMembers cls (src.directKey cls m)
      (before ++ first :: between)).head? = some first := by
    rw [directMembers, List.filter_append, List.filter_eq_nil_iff.mpr silent, List.nil_append,
      List.filter_cons, if_pos asksFirst, List.head?_cons]
  intro f found
  have here : f ∈ (src.register (fileAll src.register (src.blank cls)
      (before ++ first :: between)).1 m).2 := by
    refine bindDirect_subset_register (owner.symm ▸ direct) ?_
    rw [owner]
    simp only [bindDirect, tabled.direct, earliest, Option.map_some]
    exact found
  have split : (src.scan cls).provides = (before ++ first :: between) ++ m :: after := by
    rw [picked, List.append_assoc, List.cons_append]
  refine List.mem_append_left _ (List.mem_append_right _ ?_)
  rw [split]
  exact mem_fileAll here

/-! ## Logs -/

mutual

/-- Whatever is wrong with a component is told by the log of the run that builds its catalog. -/
theorem Completes.tells : ∀ {id : ClassId} {st last : Collecting} {c : Catalog},
    src.Completes listed id st c last → ∀ x d, last.store.catalogs.get? x = some d →
      (∃ e, st.store.catalogs.get? x = some e) ∨ ∀ f ∈ (src.holdings x).2, last.log.Tells f
  | _, _, _, _, .kept _ => fun _ d found => .inl ⟨d, found⟩
  | _, _, _, _, .again _ _ => fun _ d found => .inl ⟨d, found⟩
  | id, st, _, _, .built _ _ _ parents => fun x d found => by
      rcases CatalogStore.of_get?_finish found with ⟨rfl, -⟩ | found
      · have start : ∀ f ∈ (src.holdings id).2, (src.entered id st).log.Tells f :=
          fun f mem => Log.tells_errors mem
        exact .inr fun f mem => (start f mem).of_subset parents.subset_log
      · exact parents.tells x d found

theorem CompletesParents.tells : ∀ {own : Holdings} {params : List ParamDecl}
    {st last : Collecting} {parents : List (String × Catalog)},
    src.CompletesParents listed own params st parents last →
      ∀ x d, last.store.catalogs.get? x = some d →
        (∃ e, st.store.catalogs.get? x = some e) ∨ ∀ f ∈ (src.holdings x).2, last.log.Tells f
  | _, _, _, _, _, .nil => fun _ d found => .inl ⟨d, found⟩
  | _, _, _, _, _, .unknown _ others => others.tells
  | _, _, _, _, _, .parent _ first others => fun x d found => by
      rcases others.tells x d found with ⟨e, before⟩ | tells
      · refine (first.tells x e before).imp_right fun tells f mem => ?_
        exact (tells f mem).of_subset
          (List.Subset.trans (Log.subset_errors _ _) others.subset_log)
      · exact .inr tells

end

variable (src) in
/-- The logs that each of the collections leaves, the first one from the given store. -/
def logsFrom : CatalogStore → List (ClassId × Log) → List Log
  | _, [] => []
  | store, (cls, log) :: rest =>
    let last := (src.collect cls { store, log }).2
    last.log :: logsFrom last.store rest

/-- Each catalog that is kept in the end was there at first, or one of the logs tells what is
wrong with its component. -/
theorem tells_of_kept {history : List (ClassId × Log)} {store : CatalogStore} {d : Catalog}
    (idle : store.inProgress = [])
    (kept : (history.foldl (fun store (cls, log) => (src.collect cls { store, log }).2.store)
      store).catalogs.get? x = some d) :
    (∃ e, store.catalogs.get? x = some e) ∨
      ∃ log ∈ src.logsFrom store history, ∀ f ∈ (src.holdings x).2, log.Tells f := by
  induction history generalizing store with
  | nil => exact .inl ⟨d, kept⟩
  | cons row rest ih =>
      obtain ⟨cls, log⟩ := row
      have completes : src.Completes (fun _ => True) cls { store, log }
          (src.collect cls { store, log }).1 (src.collect cls { store, log }).2 :=
        completes_collect (fun _ _ => trivial) idle
      rcases ih (completes.extends.progress.trans idle) kept with ⟨e, before⟩ | ⟨told, mem, tells⟩
      · refine (completes.tells x e before).imp_right fun tells => ?_
        exact ⟨_, List.mem_cons_self, tells⟩
      · exact .inr ⟨told, List.mem_cons_of_mem _ mem, tells⟩

variable (src) in
/-- Collecting one by one, nothing stays in progress, and all that is kept is truthful. -/
theorem storeAfter_kept (history : List (ClassId × Log)) :
    src.Truthful (src.storeAfter history) ∧ (src.storeAfter history).inProgress = [] := by
  let kept (store : CatalogStore) : Prop := src.Truthful store ∧ store.inProgress = []
  refine List.foldlRecOn (motive := kept) _ _ ⟨.empty, rfl⟩ fun store kept row _ => ?_
  have collected : src.Collects src.collect row.1 [] := collect_collects row.1
  obtain ⟨truthful, idle, -⟩ := collected { store, log := row.2 } kept.1 kept.2
  exact ⟨truthful, idle⟩

variable (src) in
theorem own_collect_storeAfter (history : List (ClassId × Log)) (cls : ClassId) (log : Log) :
    (src.collect cls { store := src.storeAfter history, log }).1.own = (src.holdings cls).1 := by
  obtain ⟨truthful, idle⟩ := src.storeAfter_kept history
  exact collect_own truthful idle

variable (src) in
/-- Whatever was collected before, a catalog has the tables of its component. -/
theorem tabled_collect (history : List (ClassId × Log)) (cls : ClassId) (log : Log) :
    src.Tabled cls (src.scan cls).provides
      (src.collect cls { store := src.storeAfter history, log }).1.own := by
  rw [own_collect_storeAfter]
  exact src.tabled_holdings cls

variable (src) in
/-- What is wrong with a component is told when its catalog is built, now or before. -/
theorem findings_told (history : List (ClassId × Log)) (cls : ClassId) (log : Log) :
    ((src.storeAfter history).catalogs.get? cls = none → ∀ f ∈ (src.holdings cls).2,
      (src.collect cls { store := src.storeAfter history, log }).2.log.Tells f) ∧
      ∃ told ∈ src.logsFrom {} (history ++ [(cls, log)]),
        ∀ f ∈ (src.holdings cls).2, told.Tells f := by
  obtain ⟨-, idle⟩ := src.storeAfter_kept history
  have completes : src.Completes (fun _ => True) cls { store := src.storeAfter history, log }
      (src.collect cls { store := src.storeAfter history, log }).1
      (src.collect cls { store := src.storeAfter history, log }).2 :=
    completes_collect (fun _ _ => trivial) idle
  have kept := completes.kept_of_idle idle
  constructor
  · intro unbuilt
    refine (completes.tells cls _ kept).resolve_left ?_
    rintro ⟨e, before⟩
    cases unbuilt.symm.trans before
  · have all : (src.storeAfter (history ++ [(cls, log)])).catalogs.get? cls =
        some (src.collect cls { store := src.storeAfter history, log }).1 := by
      rw [storeAfter, List.foldl_append]
      exact kept
    rcases tells_of_kept rfl all with ⟨e, before⟩ | told
    · cases before
    · exact told

end Source

/-- A component binds a key by itself if one of the members that were picked asks for it, and
that is what a request is answered with.  If several do there is no answer, whatever the
parents have, and each of them after the first is reported together with the first. -/
theorem directly_bound_once (src : Source) (history : List (ClassId × Log)) (cls : ClassId)
    (log : Log) (key : Key) :
    let store := src.storeAfter history
    let c := (src.collect cls { store, log }).1
    let last := (src.collect cls { store, log }).2
    let asking := src.directMembers cls key (src.scan cls).provides
    (∀ b, c.own.bound? key = some b ↔ ∃ m, asking = [m] ∧ b = src.ownBinding cls m) ∧
    (∀ m, asking = [m] → c.lookup key = some ⟨.member (src.ownBinding cls m), cls⟩) ∧
    (asking = [] → c.lookup key = Catalog.lookupIn key c.walk.tail) ∧
    (2 ≤ asking.length → c.lookup key = none) ∧
    ∀ first rest, asking = first :: rest → ∀ m ∈ rest,
      (store.catalogs.get? cls = none →
        last.log.Tells ⟨.keyRefused key, some (.member m)⟩ ∧
          last.log.Tells ⟨.keyTaken, some (.member first)⟩) ∧
      ∃ told ∈ src.logsFrom {} (history ++ [(cls, log)]),
        told.Tells ⟨.keyRefused key, some (.member m)⟩ ∧
          told.Tells ⟨.keyTaken, some (.member first)⟩ := by
  intro store c last asking
  have tabled : src.Tabled cls (src.scan cls).provides c.own := src.tabled_collect history cls log
  obtain ⟨unbuilt, told, among, tells⟩ := src.findings_told history cls log
  refine ⟨fun b => tabled.bound?_eq key, fun m one => ?_, fun none => ?_, fun several => ?_, ?_⟩
  · have bound : c.own.bound? key = some (src.ownBinding cls m) :=
      (tabled.bound?_eq key).mpr ⟨m, one, rfl⟩
    rw [Catalog.lookup_of_bound? bound rfl, tabled.owner]
  · have unbound := tabled.direct key
    rw [show src.directMembers cls key (src.scan cls).provides = [] from none] at unbound
    exact Catalog.lookup_of_direct_none unbound
  · obtain ⟨first, mem⟩ := List.exists_mem_of_length_pos (Nat.lt_of_lt_of_le Nat.two_pos several)
    obtain ⟨earliest, rest, split⟩ := List.exists_cons_of_ne_nil (List.ne_nil_of_mem mem)
    have direct := tabled.direct key
    rw [show src.directMembers cls key (src.scan cls).provides = earliest :: rest from split]
      at direct
    exact Catalog.lookup_of_duplicated ((tabled.duplicated key).mpr several) direct
  · intro first rest split m mem
    have found := Source.duplicate_findings split mem
    have refused : ⟨.keyRefused key, some (.member m)⟩ ∈ (src.holdings cls).2 :=
      found _ (by simp [Source.duplicateFindings])
    have taken : ⟨.keyTaken, some (.member first)⟩ ∈ (src.holdings cls).2 :=
      found _ (by simp [Source.duplicateFindings])
    refine ⟨fun fresh => ?_, told, among, tells _ refused, tells _ taken⟩
    exact ⟨unbuilt fresh _ refused, unbuilt fresh _ taken⟩

/-- Two bindings of one key hide the one that the parent has. -/
theorem twoFoos_unbound :
    let src := familyOf [.makeFoo] [{ MemberDecl.makeFoo with name := "first" },
      { MemberDecl.makeFoo with name := "second" }]
    let last := (src.collect (.ofNat 1) {}).2
    ((src.collect (.ofNat 0) {}).1.lookup (.of { name := "Foo" })).isSome ∧
      (src.collect (.ofNat 1) {}).1.lookup (.of { name := "Foo" }) = none ∧
      last.log.Tells ⟨.keyRefused (.of { name := "Foo" }), some (.member (.ofNat 2))⟩ ∧
      last.log.Tells ⟨.keyTaken, some (.member (.ofNat 1))⟩ := by
  intro src last
  obtain ⟨-, -, -, unanswered, reported⟩ :=
    directly_bound_once src [] (.ofNat 1) {} (.of { name := "Foo" })
  have asking : src.directMembers (.ofNat 1) (.of { name := "Foo" })
      (src.scan (.ofNat 1)).provides = [.ofNat 1, .ofNat 2] := by
    decide +kernel
  obtain ⟨refused, taken⟩ := (reported _ _ asking (.ofNat 2) (by simp)).1 rfl
  exact ⟨by decide +kernel, unanswered (by rw [asking]; decide), refused, taken⟩

end Injector
