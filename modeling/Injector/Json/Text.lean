/-
# Injector.Json.Text -- JSON values as text

Two printers.  `compact` writes no blanks at all; `pretty` gives every item of an
array and every field of an object its own line, indented by two spaces a level,
with empty arrays and objects on one line.  Both escape a string the same way:
quotation mark, backslash and controls, everything else as it is.
-/
import Injector.Json.Basic

namespace Injector.Json

set_option autoImplicit false

/-- How one character stands in a JSON string. -/
def escape (c : Char) : List Char :=
  if c = '\x22' then ['\\', c]
  else if c = '\\' then ['\\', c]
  else if c = '\x08' then ['\\', 'b']
  else if c = '\x0c' then ['\\', 'f']
  else if c = '\n' then ['\\', 'n']
  else if c = '\r' then ['\\', 'r']
  else if c = '\t' then ['\\', 't']
  else if c.toNat < 0x20 then
    ['\\', 'u', '0', '0', Nat.digitChar (c.toNat / 16), Nat.digitChar (c.toNat % 16)]
  else [c]

/-- A JSON string. -/
def quote (text : String) : String :=
  String.ofList ('\x22' :: text.toList.flatMap escape ++ ['\x22'])

def brackets (inner : String) : String := "[" ++ inner ++ "]"

def braces (inner : String) : String := "\x7b" ++ inner ++ "\x7d"

mutual

/-- The text without blanks. -/
def compact : Json → String
  | null => "null"
  | bool b => if b then "true" else "false"
  | int n => toString n
  | decimal token => token
  | str text => quote text
  | arr items => brackets (String.intercalate "," (compactItems items))
  | obj fields => braces (String.intercalate "," (compactFields fields))

def compactItems : List Json → List String
  | [] => []
  | item :: rest => compact item :: compactItems rest

def compactFields : List (String × Json) → List String
  | [] => []
  | (name, value) :: rest => (quote name ++ ":" ++ compact value) :: compactFields rest

end

/-- A line break followed by the indentation of `level`. -/
def newline (level : Nat) : String := String.ofList ('\n' :: List.replicate (2 * level) ' ')

/-- `lines` between their brackets, one level deeper than `level`. -/
def block (enclose : String → String) (level : Nat) (lines : List String) : String :=
  if lines.isEmpty then enclose ""
  else
    let inner := newline (level + 1)
    enclose (inner ++ String.intercalate ("," ++ inner) lines ++ newline level)

mutual

/-- The text at `level` with one line for each item and field. -/
def prettyAt (level : Nat) : Json → String
  | null => "null"
  | bool b => if b then "true" else "false"
  | int n => toString n
  | decimal token => token
  | str text => quote text
  | arr items => block brackets level (prettyItems (level + 1) items)
  | obj fields => block braces level (prettyFields (level + 1) fields)

def prettyItems (level : Nat) : List Json → List String
  | [] => []
  | item :: rest => prettyAt level item :: prettyItems level rest

def prettyFields (level : Nat) : List (String × Json) → List String
  | [] => []
  | (name, value) :: rest => (quote name ++ ": " ++ prettyAt level value) :: prettyFields level rest

end

/-- The text over several lines. -/
def pretty (j : Json) : String := prettyAt 0 j

end Injector.Json
