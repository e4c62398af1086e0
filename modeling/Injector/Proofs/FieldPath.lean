/-
# Injector.Proofs.FieldPath -- paths as dotted text

Reading cuts text at its dots and leaves empty parts out; writing puts one dot between neighbours
and escapes nothing.  What ties the two together is that text with a dot in the middle is read as
one path behind another, wherever the dot stands (`parse_append`): the text of a path is its
fields with dots in the middle, so it is read field by field.

So a path is read back from its text if dots can tell its fields apart, and only then; these are
also the paths that reading gives at all (`parse_text_iff`).
-/
import Injector.FieldPath

namespace Injector

set_option autoImplicit false

namespace Text

variable {sep : Char} {cs part : List Char}

/-- The parts are those that `List.splitOn` gives. -/
theorem pieces_eq_splitOn (sep : Char) (cs : List Char) : pieces sep cs = cs.splitOn sep := by
  induction cs with
  | nil => simp [pieces]
  | cons c rest ih =>
      rw [pieces, List.splitOn_cons_eq_if_modifyHead, ← ih]
      obtain ⟨first, others, parts⟩ := List.exists_cons_of_ne_nil (pieces_ne_nil sep rest)
      simp [parts, consFirst]

/-- The separator is in no part. -/
theorem notMem_of_mem_pieces (mem : part ∈ pieces sep cs) : sep ∉ part := by
  induction cs generalizing part with
  | nil =>
      obtain rfl : part = [] := by simpa [pieces] using mem
      exact List.not_mem_nil
  | cons c rest ih =>
      obtain ⟨first, others, parts⟩ := List.exists_cons_of_ne_nil (pieces_ne_nil sep rest)
      rw [pieces] at mem
      split at mem
      · rcases List.mem_cons.mp mem with rfl | mem
        · exact List.not_mem_nil
        · exact ih mem
      · rename_i other
        rw [parts] at ih mem
        rcases List.mem_cons.mp mem with rfl | mem
        · rw [List.mem_cons, not_or]
          exact ⟨Ne.symm other, ih List.mem_cons_self⟩
        · exact ih (List.mem_cons_of_mem first mem)

end Text

namespace FieldPath

open Text

/-- Dots tell the fields apart: none is empty, and none has a dot itself. -/
def Dotted (p : FieldPath) : Prop := ∀ field ∈ p.fields, field ≠ "" ∧ '.' ∉ field.toList

variable {p : FieldPath} {field : String}

/-- Text with a dot in the middle is read as one path behind another. -/
theorem parse_append (s t : String) : parse (s ++ "." ++ t) = parse s ++ parse t := by
  have chars : (s ++ "." ++ t).toList = s.toList ++ '.' :: t.toList := by simp
  have parts : splitAt '.' (s ++ "." ++ t) = splitAt '.' s ++ splitAt '.' t := by
    simp only [splitAt, chars, pieces_eq_splitOn, List.splitOn_append_cons_self, List.map_append]
  show FieldPath.mk _ = FieldPath.mk _
  rw [parts, List.filter_append]
  rfl

/-- A field alone is read as the path of this field. -/
theorem parse_field (ne : field ≠ "") (whole : '.' ∉ field.toList) : parse field = ⟨[field]⟩ := by
  rw [parse, splitAt, pieces_eq_splitOn, List.splitOn_eq_singleton whole]
  simp [ne]

/-- Reading gives fields that dots tell apart. -/
theorem dotted_parse (s : String) : (parse s).Dotted := by
  intro field mem
  obtain ⟨part, ne⟩ := List.mem_filter.mp mem
  obtain ⟨cs, cut, rfl⟩ := List.mem_map.mp part
  refine ⟨by simpa using ne, ?_⟩
  rw [String.toList_ofList]
  exact notMem_of_mem_pieces cut

/-- Fields that dots tell apart are read back. -/
theorem parse_text (dotted : p.Dotted) : parse p.text = p := by
  obtain ⟨fields⟩ := p
  induction fields with
  | nil => rfl
  | cons field rest ih =>
      obtain ⟨⟨ne, whole⟩, dotted⟩ := List.forall_mem_cons.mp dotted
      have first := parse_field ne whole
      cases rest with
      | nil => simpa [text] using first
      | cons next more =>
          have behind : parse (text ⟨next :: more⟩) = ⟨next :: more⟩ := ih dotted
          calc parse (text ⟨field :: next :: more⟩)
              = parse (field ++ "." ++ text ⟨next :: more⟩) := by
                  rw [text, String.intercalate_cons_cons, text]
            _ = parse field ++ parse (text ⟨next :: more⟩) := parse_append _ _
            _ = ⟨field :: next :: more⟩ := by rw [first, behind]; rfl

/-- A path that was read is read back from its text.  The paths that are read back are those whose
fields dots tell apart, and these are the paths that reading gives.  Text with a dot in the middle
is read as one path behind another. -/
theorem parse_text_iff :
    (∀ s, parse (parse s).text = parse s) ∧
      (∀ p : FieldPath, parse p.text = p ↔ p.Dotted) ∧
      (∀ p : FieldPath, (∃ s, parse s = p) ↔ p.Dotted) ∧
      ∀ s t, parse (s ++ "." ++ t) = parse s ++ parse t := by
  refine ⟨fun s => parse_text (dotted_parse s), fun p => ⟨fun back => ?_, parse_text⟩,
    fun p => ⟨?_, fun dotted => ⟨p.text, parse_text dotted⟩⟩, parse_append⟩
  · rw [← back]
    exact dotted_parse p.text
  · rintro ⟨s, rfl⟩
    exact dotted_parse s

/-- Dots at the ends and next to one another leave no trace. -/
example : (parse ".parent..grand.").text = "parent.grand" ∧ parse "." = here := by cbv

end FieldPath

end Injector
