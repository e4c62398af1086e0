/-
# Injector.Proofs.Catalog.Findings -- what collecting can find

Only a component that is its own parent is reported as one.  What else is found wrong, with
a component, with a member of it or with a parent, has another message (`plain_holdings`,
`plain_parentFindings`), and two messages of which just one is about a parent never read the
same (`not_saysOwnParent`).  So the log of a collection tells whether a component was met
again while it was being collected, although a report that reads like an earlier one is
dropped.
-/
import Injector.Catalog.Collect

namespace Injector

set_option autoImplicit false

namespace Problem

/-- The message says of some component that it is its own parent. -/
def SaysOwnParent (p : Problem) : Prop := ∃ component, p.message = (ownParent component).message

/-- Neither about a component that is its own parent, nor worded elsewhere. -/
def isPlain : Problem → Bool
  | ownParent _ | note _ => false
  | _ => true

/-- The message of every plain problem differs within its first eight letters. -/
theorem not_saysOwnParent {p : Problem} (plain : p.isPlain = true) : ¬p.SaysOwnParent := by
  unfold SaysOwnParent message
  rintro ⟨component, same⟩
  have letters := congrArg (fun text => text.toList.take 8) same
  cases p with
  | ownParent | note => cases plain
  | _ => simp at letters

end Problem

/-- Each of the problems is a plain one. -/
def Finding.AllPlain (findings : List Finding) : Prop :=
  ∀ f ∈ findings, f.problem.isPlain = true

namespace Finding

variable {first second : List Finding}

@[simp]
theorem allPlain_nil : AllPlain [] := nofun

@[simp]
theorem allPlain_append : AllPlain (first ++ second) ↔ AllPlain first ∧ AllPlain second :=
  List.forall_mem_append

@[simp]
theorem allPlain_cons {f : Finding} :
    AllPlain (f :: first) ↔ f.problem.isPlain = true ∧ AllPlain first :=
  List.forall_mem_cons

@[simp]
theorem allPlain_listAt {element : Element} {problems : List Problem} :
    AllPlain (listAt element problems) ↔ ∀ p ∈ problems, p.isPlain = true := by
  simp [AllPlain, listAt]

end Finding

/-! ## Logs -/

namespace Log

variable {log : Log} {d : Diagnostic} {findings : List Finding}

/-- Some component is reported as its own parent. -/
def ReportsOwnParent (log : Log) : Prop := ∃ d ∈ log.diagnostics, d.problem.SaysOwnParent

theorem mem_record {e : Diagnostic} (mem : e ∈ (log.record d).diagnostics) :
    e ∈ log.diagnostics ∨ e = d := by
  simp only [record] at mem
  split at mem
  · exact .inl mem
  · simpa using mem

theorem subset_record (log : Log) (d : Diagnostic) :
    log.diagnostics ⊆ (log.record d).diagnostics := by
  simp only [record]
  split
  · exact List.Subset.refl _
  · exact List.subset_append_left _ _

theorem subset_errors (log : Log) (findings : List Finding) :
    log.diagnostics ⊆ (log.errors findings).diagnostics := by
  induction findings generalizing log with
  | nil => exact List.Subset.refl _
  | cons f rest ih => exact List.Subset.trans (subset_record log _) (ih _)

theorem ReportsOwnParent.errors (reports : log.ReportsOwnParent) (findings : List Finding) :
    (log.errors findings).ReportsOwnParent :=
  let ⟨d, mem, tells⟩ := reports
  ⟨d, subset_errors log findings mem, tells⟩

/-- Be it dropped or not, after the report there is one that tells so. -/
theorem reportsOwnParent_error (log : Log) (component : DeclName) (element : Option Element) :
    (log.error (.ownParent component) element).ReportsOwnParent := by
  simp only [error, record]
  split
  · rename_i old
    obtain ⟨d, mem, same⟩ := List.any_eq_true.mp old
    simp only [Diagnostic.readsLike, Bool.and_eq_true, beq_iff_eq] at same
    exact ⟨d, mem, component, same.1.2⟩
  · exact ⟨_, List.mem_append_right _ List.mem_cons_self, component, rfl⟩

/-- What plain findings add says of no component that it is its own parent. -/
theorem mem_of_plain (plain : Finding.AllPlain findings)
    (mem : d ∈ (log.errors findings).diagnostics) (tells : d.problem.SaysOwnParent) :
    d ∈ log.diagnostics := by
  induction findings generalizing log with
  | nil => exact mem
  | cons f rest ih =>
      obtain ⟨first, others⟩ := Finding.allPlain_cons.mp plain
      rcases mem_record (ih others mem) with old | rfl
      · exact old
      · exact absurd tells (Problem.not_saysOwnParent first)

end Log

namespace Source

open Finding (AllPlain)

variable {src : Source} {s : Scan}

/-! ## Annotations -/

theorem plain_scope (src : Source) (as : List AnnotationUse) :
    ∀ p ∈ (src.scope as).2, p.isPlain = true := by
  simp only [scope]
  split <;> simp [Problem.isPlain]

theorem plain_qualifier (as : List AnnotationUse) (ty : Ty) :
    ∀ p ∈ (src.qualifier as ty).2, p.isPlain = true := by
  simp only [qualifier, List.forall_mem_append, List.forall_mem_map]
  refine ⟨?_, fun _ _ => rfl⟩
  split <;> split <;> simp [Problem.isPlain]

/-! ## Picking members -/

theorem plain_providesProblem? {isComponent : Bool} {m : MemberDecl} {problem : Problem}
    (found : providesProblem? isComponent m = some problem) : problem.isPlain = true := by
  simp only [providesProblem?] at found
  repeat' split at found
  all_goals cases found
  all_goals rfl

theorem plain_scanProvides (plain : AllPlain s.findings) (isComponent : Bool) (m : MemberId) :
    AllPlain (src.scanProvides isComponent m s).findings := by
  simp only [scanProvides]
  split
  · rename_i problem found
    simp [plain, plain_providesProblem? found]
  · exact plain

theorem plain_scanMember (plain : AllPlain s.findings) (isComponent : Bool) (m : MemberId) :
    AllPlain (src.scanMember isComponent s m).findings := by
  simp only [scanMember]
  split
  · split
    · exact plain_scanProvides plain _ _
    · exact plain
  · have taken : AllPlain { s with seen := s.seen ++ [m] }.findings := plain
    split
    · exact plain_scanProvides taken _ _
    · split <;> exact plain

theorem plain_scanScope (plain : AllPlain s.findings) (id : ClassId) :
    AllPlain (src.scanScope s id).findings := by
  have own := plain_scope src (src.program.classAt id).annotations
  simp only [scanScope]
  split
  · simpa [plain] using own
  · simpa [plain] using own
  · split
    · simpa [plain] using own
    · simpa [plain, Problem.isPlain] using own

theorem plain_scan (id : ClassId) : AllPlain (src.scan id).findings := by
  let plain (s : Scan) : Prop := AllPlain s.findings
  refine List.foldlRecOn (motive := plain) _ _ Finding.allPlain_nil fun s found cls _ => ?_
  refine List.foldlRecOn (motive := plain) _ _ (plain_scanScope found cls) fun s found m _ => ?_
  exact plain_scanMember found _ m

/-! ## Filing members -/

theorem plain_duplicateFindings (key : Key) (first second : MemberId) :
    AllPlain (duplicateFindings key second first) := by
  simp [duplicateFindings, Problem.isPlain]

theorem plain_contribute (own : Holdings) (key : Key) (kind : ContainerKind) (b : MemberBinding) :
    AllPlain (contribute own key kind b).2 := by
  simp only [contribute]
  split
  · simp
  · split
    · simp
    · exact plain_duplicateFindings _ _ _

theorem plain_bindDirect (own : Holdings) (key : Key) (b : MemberBinding) :
    AllPlain (bindDirect own key b).2 := by
  simp only [bindDirect]
  split
  · simp
  · exact plain_duplicateFindings _ _ _

theorem plain_scopeProblems (owner scope : Option AnnotationUse) :
    ∀ p ∈ scopeProblems owner scope, p.isPlain = true := by
  simp only [scopeProblems]
  split
  · simp
  · simp [Problem.isPlain]
  · split <;> simp [Problem.isPlain]

theorem plain_register (own : Holdings) (m : MemberId) : AllPlain (src.register own m).2 := by
  simp only [register, Finding.allPlain_append, Finding.allPlain_listAt, List.forall_mem_append]
  refine ⟨⟨⟨plain_qualifier _ _, plain_scope _ _⟩, plain_scopeProblems _ _⟩, ?_⟩
  split
  · split
    · exact plain_contribute _ _ _ _
    · simp [Problem.isPlain]
  · split
    · exact plain_contribute _ _ _ _
    · split
      · simp
      · exact plain_bindDirect _ _ _

theorem plain_registerAccessor (own : Holdings) (m : MemberId) :
    AllPlain (src.registerAccessor own m).2 :=
  Finding.allPlain_listAt.mpr (plain_qualifier _ _)

theorem plain_fileAll {α : Type} {file : Holdings → α → Holdings × List Finding}
    (each : ∀ own item, AllPlain (file own item).2) (own : Holdings) (items : List α) :
    AllPlain (fileAll file own items).2 := by
  induction items generalizing own with
  | nil => simp [fileAll]
  | cons item rest ih => exact Finding.allPlain_append.mpr ⟨each own item, ih _⟩

/-- Whatever is wrong with a component itself does not make it its own parent. -/
theorem plain_holdings (id : ClassId) : AllPlain (src.holdings id).2 := by
  simp only [holdings, Finding.allPlain_append]
  exact ⟨⟨plain_scan id, plain_fileAll plain_register _ _⟩,
    plain_fileAll plain_registerAccessor _ _⟩

/-! ## Parents -/

/-- Nor does what is wrong between a component and a parent. -/
theorem plain_parentFindings (own : Holdings) (parent : Catalog) :
    AllPlain (src.parentFindings own parent) := by
  simp only [parentFindings, Finding.allPlain_append]
  constructor
  · split <;> simp [Problem.isPlain]
  · intro f mem
    obtain ⟨row, -, found⟩ := List.mem_filterMap.mp mem
    split at found
    · cases found
      rfl
    · cases found

end Source

end Injector
