/-
# Injector.NameSupply -- fresh names

A supply knows the names that are taken.  `fresh` makes an identifier of a
suggestion -- letters, digits and underscores, no ASCII digit in front -- and
appends the least number of underscores that makes it free.  Among the first
`n + 1` candidates one is free when `n` names are taken, so the search ends.
-/
import Injector.Text.Alphanumeric

namespace Injector

set_option autoImplicit false

structure NameSupply where
  taken : List String := []
  deriving DecidableEq, Inhabited, Repr

namespace NameSupply

def empty : NameSupply := {}

/-- Take `name` out of the supply. -/
def reserve (s : NameSupply) (name : String) : NameSupply :=
  if s.taken.contains name then s else ⟨name :: s.taken⟩

/-- The suggestion with an underscore for every character that may not stand in a
name, and one in front where it would not start one. -/
def identifier (suggestion : String) : String :=
  let cs := suggestion.toList.map fun c => if Text.isAlphanumeric c || c = '_' then c else '_'
  String.ofList <| match cs with
    | [] => ['_']
    | c :: rest => if c.isDigit then '_' :: c :: rest else c :: rest

/-- `name` with `n` underscores behind it. -/
def pad (name : String) (n : Nat) : String := name ++ String.ofList (List.replicate n '_')

/-- The least number of underscores, from `n` up, that makes `name` free; at most
`tries` numbers are tried. -/
def padding (taken : List String) (name : String) : Nat → Nat → Nat
  | 0, n => n
  | tries + 1, n =>
    if taken.contains (pad name n) then padding taken name tries (n + 1) else n

/-- A free name for `suggestion`, and the supply without it. -/
def fresh (s : NameSupply) (suggestion : String) : String × NameSupply :=
  let base := identifier suggestion
  let name := pad base (padding s.taken base (s.taken.length + 1) 0)
  (name, ⟨name :: s.taken⟩)

example : (((empty.reserve "a").reserve "a_").fresh "a").1 = "a__" := by decide
example : (empty.fresh "1 x").1 = "_1_x" := by decide

end NameSupply

end Injector
