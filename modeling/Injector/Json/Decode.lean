/-
# Injector.Json.Decode -- reading data out of JSON values

A record is written as an object, where fields it does not have are passed over,
or as an array of all its fields in order.  A missing field that may be absent is
absent; every other missing field is an error, and so is `null` for anything but
a field that may be absent.  One of several names is written as a string, or as
an object with that name over `null`.  Nothing is converted: a number is not read
from a string, an integer not from a number with a fraction.
-/
import Injector.Json.Basic

namespace Injector.Json

set_option autoImplicit false

def bool? : Json → Option Bool
  | bool b => some b
  | _ => none

def str? : Json → Option String
  | str s => some s
  | _ => none

/-- An integer from zero up to `bound`, which is left out. -/
def natBelow? (bound : Nat) : Json → Option Nat
  | int n => if 0 ≤ n ∧ n < bound then some n.toNat else none
  | _ => none

/-- An array whose items all decode. -/
def list? {α : Type} (decode : Json → Option α) : Json → Option (List α)
  | arr items => items.mapM decode
  | _ => none

/-- One of several names. -/
def oneOf? {α : Type} (names : List (String × α)) : Json → Option α
  | str s => names.lookup s
  | obj [(s, null)] => names.lookup s
  | _ => none

/-- The fields of a record with the given names. -/
def record? (names : List String) : Json → Option (List (String × Json))
  | obj fields => some fields
  | arr items => if items.length = names.length then some (names.zip items) else none
  | _ => none

/-- A field that must be there. -/
def required {α : Type} (fields : List (String × Json)) (name : String)
    (decode : Json → Option α) : Option α :=
  (lookup name fields).bind decode

/-- `null`, or something that decodes. -/
def nullable {α : Type} (decode : Json → Option α) : Json → Option (Option α)
  | null => some none
  | j => (decode j).map some

/-- A field that may be absent. -/
def absentOr {α : Type} (fields : List (String × Json)) (name : String)
    (decode : Json → Option α) : Option (Option α) :=
  match lookup name fields with
  | none => some none
  | some j => nullable decode j

mutual

/-- How deep the value is nested. -/
def height : Json → Nat
  | arr items => heightItems items + 1
  | obj fields => heightFields fields + 1
  | _ => 1

def heightItems : List Json → Nat
  | [] => 0
  | item :: rest => max (height item) (heightItems rest)

def heightFields : List (String × Json) → Nat
  | [] => 0
  | (_, value) :: rest => max (height value) (heightFields rest)

end

end Injector.Json
