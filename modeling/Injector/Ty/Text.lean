/-
# Injector.Ty.Text -- types in messages, and names suggested by types

A type is written like a declaration with its arguments between angle brackets; a
function type is written with an arrow, unless it goes by an alias.  A question
mark tells that null is admitted.  Qualifiers are not written.

`suggestedName` makes a variable name of a type: the parts of its name begin in
lower case and are joined by underscores, and the simple names of its arguments
follow.
-/
import Injector.Ty.Basic
import Injector.Text.Pieces
import Injector.Text.Lowercase

namespace Injector.Ty

set_option autoImplicit false

/-- A function type, given its arguments: the last one is what it returns. -/
def arrowText (args : List String) : String :=
  "(" ++ String.intercalate ", " args.dropLast ++ ") -> " ++ args.getLast?.getD "Unit"

/-- A name with its arguments. -/
def appliedText (name : String) (args : List String) : String :=
  if args.isEmpty then name else name ++ "<" ++ String.intercalate ", " args ++ ">"

mutual

/-- The type in messages. -/
def text : Ty → String
  | ⟨k, p, n, as, u, _, o⟩ =>
    let args := textAll as
    let body :=
      if k == .function && o.isNone then arrowText args
      else appliedText (DeclName.shortText ⟨p, n⟩) args
    if u then body ++ "?" else body

def textAll : List Ty → List String
  | [] => []
  | t :: rest => text t :: textAll rest

end

/-- The name with its first character in lower case. -/
def decapitalize : List Char → List Char
  | [] => []
  | c :: rest => Text.lowercase c ++ rest

/-- A variable name for a value of the type. -/
def suggestedName (t : Ty) : String :=
  String.ofList (Text.rejoin '_' ((Text.pieces '.' t.name.toList).map decapitalize)) ++
    String.join (t.args.map fun arg => Text.afterLast '.' arg.name)

example : suggestedName { name := "Outer.Inner", args := [{ name := "a.B" }] } =
    "outer_innerB" := by decide

end Injector.Ty
