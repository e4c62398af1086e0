/-
# Injector.Log -- diagnostics in the order of their first report

A log records every diagnostic once: a report that would read the same as an
earlier one -- equal severity, wording and element -- changes nothing.  So the
number of errors in a log never falls while it is written to, and it stays the
same when everything reported was reported before.
-/
import Injector.Problem
import Injector.Element

namespace Injector

set_option autoImplicit false

inductive Severity where
  /-- Does not keep a component from being generated. -/
  | warning
  | error
  deriving DecidableEq, Inhabited, Repr

/-- The severity as text. -/
def Severity.text : Severity → String
  | warning => "warning"
  | error => "error"

/-- A problem at an element, where there is one to point at. -/
structure Finding where
  problem : Problem
  element : Option Element := none
  deriving DecidableEq, Inhabited

/-- A finding that was reported. -/
structure Diagnostic where
  severity : Severity
  problem : Problem
  element : Option Element
  deriving DecidableEq, Inhabited

namespace Diagnostic

def message (d : Diagnostic) : String := d.problem.message

/-- Whether two diagnostics read the same. -/
def readsLike (d e : Diagnostic) : Bool :=
  d.severity == e.severity && d.message == e.message && d.element == e.element

def isError (d : Diagnostic) : Bool := d.severity == .error

end Diagnostic

/-- What was reported so far, first report first. -/
structure Log where
  diagnostics : List Diagnostic := []
  deriving DecidableEq, Inhabited

namespace Log

def empty : Log := {}

/-- Record `d` unless something that reads the same is recorded. -/
def record (log : Log) (d : Diagnostic) : Log :=
  if log.diagnostics.any (·.readsLike d) then log else ⟨log.diagnostics ++ [d]⟩

def error (log : Log) (problem : Problem) (element : Option Element) : Log :=
  log.record ⟨.error, problem, element⟩

def warn (log : Log) (problem : Problem) (element : Option Element) : Log :=
  log.record ⟨.warning, problem, element⟩

/-- Report every finding as an error, in order. -/
def errors (log : Log) (findings : List Finding) : Log :=
  findings.foldl (fun log f => log.error f.problem f.element) log

def errorCount (log : Log) : Nat := (log.diagnostics.filter Diagnostic.isError).length

def hasErrors (log : Log) : Bool := log.errorCount > 0

theorem errorCount_le_record (log : Log) (d : Diagnostic) :
    log.errorCount ≤ (log.record d).errorCount := by
  simp only [record, errorCount]
  split <;> simp [List.filter_append]

/-- After an error is reported there is one, be it a new one or an old one. -/
theorem errorCount_error_pos (log : Log) (problem : Problem) (element : Option Element) :
    0 < (log.error problem element).errorCount := by
  simp only [error, record, errorCount]
  split
  · rename_i old
    obtain ⟨e, mem, same⟩ := List.any_eq_true.mp old
    refine List.length_pos_of_mem (List.mem_filter.mpr ⟨mem, ?_⟩)
    simp only [Diagnostic.readsLike, Bool.and_eq_true, beq_iff_eq] at same
    simp [Diagnostic.isError, same.1.1]
  · simp [List.filter_append, Diagnostic.isError]

theorem errorCount_le_errors (log : Log) (findings : List Finding) :
    log.errorCount ≤ (log.errors findings).errorCount := by
  induction findings generalizing log with
  | nil => exact Nat.le_refl _
  | cons f rest ih => exact Nat.le_trans (errorCount_le_record log _) (ih _)

/-- Without errors there were no findings. -/
theorem errorCount_errors_eq_zero {log : Log} {findings : List Finding}
    (h : (log.errors findings).errorCount = 0) : findings = [] := by
  cases findings with
  | nil => rfl
  | cons f rest =>
    have first := errorCount_error_pos log f.problem f.element
    have later : (log.error f.problem f.element).errorCount ≤ (log.errors (f :: rest)).errorCount :=
      errorCount_le_errors _ rest
    omega

theorem any_isError (log : Log) : log.diagnostics.any Diagnostic.isError = log.hasErrors := by
  rw [Bool.eq_iff_iff, List.any_eq_true, hasErrors, decide_eq_true_eq]
  show _ ↔ 0 < (log.diagnostics.filter Diagnostic.isError).length
  simp only [List.length_pos_iff_exists_mem, List.mem_filter]

/-- Warnings are no errors. -/
theorem errorCount_warn (log : Log) (problem : Problem) (element : Option Element) :
    (log.warn problem element).errorCount = log.errorCount := by
  simp only [warn, record, errorCount]
  split
  · rfl
  · rw [List.filter_append, List.length_append, Nat.add_eq_left, List.length_eq_zero_iff]
    rfl

end Log

end Injector
