/-
# Injector.Json.Basic -- JSON values

A value as JSON has it, with two refinements.  A number written as an integer is
kept apart from one written with a fraction or an exponent, because only the
first can stand for an identity or a position.  An object keeps its fields in
the order in which they are written.
-/
namespace Injector

set_option autoImplicit false

inductive Json where
  | null
  | bool (value : Bool)
  | int (value : Int)
  /-- A number with a fraction or an exponent, as it is written. -/
  | decimal (token : String)
  | str (text : String)
  | arr (items : List Json)
  | obj (fields : List (String × Json))
  deriving Inhabited

namespace Json

instance : Coe String Json := ⟨str⟩
instance : Coe Bool Json := ⟨bool⟩

/-- A natural number. -/
def nat (n : Nat) : Json := int n

/-- `null` when there is nothing. -/
def option {α : Type} (encode : α → Json) : Option α → Json
  | none => null
  | some a => encode a

/-- An array of encoded items. -/
def list {α : Type} (encode : α → Json) (items : List α) : Json := arr (items.map encode)

/-- The first value at `name` among `fields`. -/
def lookup (name : String) : List (String × Json) → Option Json
  | [] => none
  | (n, v) :: rest => if n = name then some v else lookup name rest

/-- The field `name` of an object. -/
def field? (name : String) : Json → Option Json
  | obj fields => lookup name fields
  | _ => none

end Json

end Injector
