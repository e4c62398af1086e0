/-
# Injector.Text.Pieces -- cutting text at a separator

`pieces sep cs` are the parts of `cs` between the occurrences of `sep`; there is
always one more part than there are separators, and parts may be empty.  Putting
the separator back between the parts gives the text again (`rejoin_pieces`).
-/
namespace Injector.Text

set_option autoImplicit false

/-- Put `c` in front of the first part. -/
def consFirst (c : Char) : List (List Char) → List (List Char)
  | [] => [[c]]
  | part :: rest => (c :: part) :: rest

/-- The parts of a text between the occurrences of `sep`. -/
def pieces (sep : Char) : List Char → List (List Char)
  | [] => [[]]
  | c :: cs => if c = sep then [] :: pieces sep cs else consFirst c (pieces sep cs)

/-- The parts with `sep` between neighbours. -/
def rejoin (sep : Char) : List (List Char) → List Char
  | [] => []
  | [part] => part
  | part :: rest => part ++ sep :: rejoin sep rest

theorem pieces_ne_nil (sep : Char) (cs : List Char) : pieces sep cs ≠ [] := by
  cases cs with
  | nil => simp [pieces]
  | cons c cs =>
    simp only [pieces]
    split
    · simp
    · cases pieces sep cs <;> simp [consFirst]

theorem rejoin_pieces (sep : Char) (cs : List Char) : rejoin sep (pieces sep cs) = cs := by
  induction cs with
  | nil => rfl
  | cons c cs ih =>
    obtain ⟨part, rest, h⟩ := List.exists_cons_of_ne_nil (pieces_ne_nil sep cs)
    rw [h] at ih
    simp only [pieces, h]
    split
    · subst c; simp [rejoin, ih]
    · cases rest <;> simp_all [consFirst, rejoin]

/-- The parts of a string. -/
def splitAt (sep : Char) (s : String) : List String := (pieces sep s.toList).map String.ofList

/-- The part of `s` after the last `sep`; all of it when there is none. -/
def afterLast (sep : Char) (s : String) : String :=
  String.ofList ((pieces sep s.toList).getLastD [])

end Injector.Text
