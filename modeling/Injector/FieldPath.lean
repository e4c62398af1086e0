/-
# Injector.FieldPath -- paths of fields from a component to its ancestors

A path is a list of field names; the empty path is the component itself.  As text
the fields are separated by dots.  Reading skips empty parts, so it undoes
writing only for fields that are not empty and hold no dot.
-/
import Injector.Text.Pieces

namespace Injector

set_option autoImplicit false

structure FieldPath where
  fields : List String := []
  deriving DecidableEq, Inhabited, Repr

namespace FieldPath

/-- The component itself. -/
def here : FieldPath := {}

/-- The path written as dotted text. -/
def parse (s : String) : FieldPath := ⟨(Text.splitAt '.' s).filter (· ≠ "")⟩

/-- The fields with dots between them. -/
def text (p : FieldPath) : String := String.intercalate "." p.fields

def isHere (p : FieldPath) : Bool := p.fields.isEmpty

/-- One field further. -/
def push (p : FieldPath) (field : String) : FieldPath := ⟨p.fields ++ [field]⟩

/-- First `p`, then `q`. -/
def append (p q : FieldPath) : FieldPath := ⟨p.fields ++ q.fields⟩

instance : Append FieldPath := ⟨append⟩

/-- Where `q` leads when seen from the end of `p`: a path that goes on from `p`
loses the part they share, any other path stays as it is. -/
def relativeTo (p q : FieldPath) : FieldPath :=
  if p.fields.length < q.fields.length && p.fields.isPrefixOf q.fields then
    ⟨q.fields.drop p.fields.length⟩
  else q

@[simp] theorem fields_append (p q : FieldPath) : (p ++ q).fields = p.fields ++ q.fields := rfl

@[simp] theorem here_append (p : FieldPath) : here ++ p = p := rfl

theorem append_assoc (p q r : FieldPath) : p ++ q ++ r = p ++ (q ++ r) := by
  show FieldPath.mk _ = FieldPath.mk _
  simp

theorem relativeTo_append (p q : FieldPath) (h : q ≠ here) : p.relativeTo (p ++ q) = q := by
  obtain ⟨fs⟩ := q
  have : 0 < fs.length := List.length_pos_iff.2 fun e => h (by subst e; rfl)
  simp [relativeTo, this]

end FieldPath

end Injector
