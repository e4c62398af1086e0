/-
# Injector.Text.Blank -- white space of every script, and trimming it

White space is the Unicode property `White_Space`.  `trim` takes it off both
ends and nothing else: the text inside keeps its blanks.
-/
import Injector.Text.CodePoints

namespace Injector.Text

set_option autoImplicit false

/-- Code points with the property `White_Space`. -/
def blankEdges : List Nat := [
  0x9, 0xe, 0x20, 0x21, 0x85, 0x86, 0xa0, 0xa1, 0x1680, 0x1681, 0x2000, 0x200b, 0x2028, 0x202a,
  0x202f, 0x2030, 0x205f, 0x2060, 0x3000, 0x3001]

/-- A white-space character. -/
def isBlank (c : Char) : Bool := inEdges blankEdges c.toNat

/-- `cs` without the blanks at its end. -/
def trimEnd (cs : List Char) : List Char := (cs.reverse.dropWhile isBlank).reverse

/-- `cs` without the blanks at either end. -/
def trim (cs : List Char) : List Char := trimEnd (cs.dropWhile isBlank)

/-- The blanks of the core library are blanks here too. -/
theorem isBlank_of_isWhitespace {c : Char} (h : c.isWhitespace = true) : isBlank c = true := by
  simp only [Char.isWhitespace, Bool.or_eq_true, decide_eq_true_eq] at h
  rcases h with ((rfl | rfl) | rfl) | rfl <;> decide

end Injector.Text
