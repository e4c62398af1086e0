/-
# Injector.Json.Reader -- reading JSON text

`Json.parse?` reads one JSON value and nothing after it but blanks.  A number
token without fraction and exponent is an integer, except the token `-0`, which
no integer writes.  A name that occurs twice in one object takes the later
value.  At most two steps of the reader pass without consuming a character, so
twice the length of the text bounds the number of steps.
-/
import Injector.Json.Basic
import Injector.Table

namespace Injector.Json

set_option autoImplicit false

namespace Reader

def isSpace (c : Char) : Bool := c = ' ' || c = '\t' || c = '\n' || c = '\r'

def skip (cs : List Char) : List Char := cs.dropWhile isSpace

/-- What follows `word` when the text starts with it. -/
def after? : List Char → List Char → Option (List Char)
  | [], cs => some cs
  | _ :: _, [] => none
  | w :: ws, c :: cs => if w = c then after? ws cs else none

def hexDigit? (c : Char) : Option Nat :=
  if '0' ≤ c && c ≤ '9' then some (c.toNat - '0'.toNat)
  else if 'a' ≤ c && c ≤ 'f' then some (c.toNat - 'a'.toNat + 10)
  else if 'A' ≤ c && c ≤ 'F' then some (c.toNat - 'A'.toNat + 10)
  else none

/-- Four hexadecimal digits. -/
def unit? : List Char → Option (Nat × List Char)
  | a :: b :: c :: d :: rest => do
    let a ← hexDigit? a
    let b ← hexDigit? b
    let c ← hexDigit? c
    let d ← hexDigit? d
    some (((a * 16 + b) * 16 + c) * 16 + d, rest)
  | _ => none

/-- The character of an escape by number, which may take two units. -/
def numbered? (cs : List Char) : Option (Char × List Char) := do
  let (high, rest) ← unit? cs
  if 0xd800 ≤ high && high < 0xdc00 then
    let rest ← after? ['\\', 'u'] rest
    let (low, rest) ← unit? rest
    if 0xdc00 ≤ low && low < 0xe000 then
      some (Char.ofNat (0x10000 + (high - 0xd800) * 0x400 + (low - 0xdc00)), rest)
    else none
  else if 0xdc00 ≤ high && high < 0xe000 then none
  else some (Char.ofNat high, rest)

/-- The character of an escape by letter. -/
def lettered? (c : Char) : Option Char :=
  if c = '\x22' || c = '\\' || c = '/' then some c
  else if c = 'b' then some '\x08'
  else if c = 'f' then some '\x0c'
  else if c = 'n' then some '\n'
  else if c = 'r' then some '\r'
  else if c = 't' then some '\t'
  else none

/-- The rest of a string after its opening quotation mark; `seen` is what was
read so far, last character first. -/
def string? : Nat → List Char → List Char → Option (String × List Char)
  | 0, _, _ => none
  | fuel + 1, seen, cs =>
    match cs with
    | [] => none
    | '\x22' :: rest => some (String.ofList seen.reverse, rest)
    | '\\' :: 'u' :: rest => do
      let (c, rest) ← numbered? rest
      string? fuel (c :: seen) rest
    | '\\' :: c :: rest => do
      let c ← lettered? c
      string? fuel (c :: seen) rest
    | c :: rest => if c.toNat < 0x20 then none else string? fuel (c :: seen) rest

/-- At least one digit. -/
def digits? (cs : List Char) : Option (List Char × List Char) :=
  match cs.takeWhile Char.isDigit with
  | [] => none
  | ds => some (ds, cs.dropWhile Char.isDigit)

/-- An integer part: no zero stands before another digit. -/
def whole? (cs : List Char) : Option (List Char × List Char) := do
  let (ds, rest) ← digits? cs
  if ds.head? = some '0' && ds.length > 1 then none else some (ds, rest)

/-- The fraction, if there is one. -/
def fraction? : List Char → Option (List Char × List Char)
  | '.' :: rest => do
    let (ds, rest) ← digits? rest
    some ('.' :: ds, rest)
  | cs => some ([], cs)

/-- The exponent, if there is one. -/
def exponent? : List Char → Option (List Char × List Char)
  | [] => some ([], [])
  | c :: rest =>
    if c = 'e' || c = 'E' then
      match rest with
      | s :: rest' =>
        if s = '+' || s = '-' then do
          let (ds, rest) ← digits? rest'
          some (c :: s :: ds, rest)
        else do
          let (ds, rest) ← digits? rest
          some (c :: ds, rest)
      | [] => none
    else some ([], c :: rest)

def natOfDigits (ds : List Char) : Nat := ds.foldl (fun n d => 10 * n + (d.toNat - '0'.toNat)) 0

def number? (cs : List Char) : Option (Json × List Char) := do
  let negative := cs.head? = some '-'
  let (ds, rest) ← whole? (if negative then cs.drop 1 else cs)
  let (frac, rest) ← fraction? rest
  let (exp, rest) ← exponent? rest
  let token := (if negative then ['-'] else []) ++ ds ++ frac ++ exp
  if frac.isEmpty && exp.isEmpty && token ≠ ['-', '0'] then
    some (int (if negative then -(natOfDigits ds : Int) else natOfDigits ds), rest)
  else some (decimal (String.ofList token), rest)

mutual

/-- One value, after any blanks. -/
def value? : Nat → List Char → Option (Json × List Char)
  | 0, _ => none
  | fuel + 1, cs =>
    match skip cs with
    | '\x22' :: rest => do
      let (text, rest) ← string? fuel [] rest
      some (str text, rest)
    | '[' :: rest =>
      match skip rest with
      | ']' :: rest => some (arr [], rest)
      | rest => do
        let (items, rest) ← items? fuel rest
        some (arr items, rest)
    | '\x7b' :: rest =>
      match skip rest with
      | '\x7d' :: rest => some (obj [], rest)
      | rest => do
        let (fields, rest) ← fields? fuel Table.empty rest
        some (obj fields.rows, rest)
    | cs =>
      match after? ['n', 'u', 'l', 'l'] cs with
      | some rest => some (null, rest)
      | none =>
        match after? ['t', 'r', 'u', 'e'] cs with
        | some rest => some (bool true, rest)
        | none =>
          match after? ['f', 'a', 'l', 's', 'e'] cs with
          | some rest => some (bool false, rest)
          | none => number? cs

/-- The items of an array up to its closing bracket; there is at least one. -/
def items? : Nat → List Char → Option (List Json × List Char)
  | 0, _ => none
  | fuel + 1, cs => do
    let (item, rest) ← value? fuel cs
    match skip rest with
    | ',' :: rest => do
      let (items, rest) ← items? fuel rest
      some (item :: items, rest)
    | ']' :: rest => some ([item], rest)
    | _ => none

/-- The fields of an object up to its closing brace; there is at least one. -/
def fields? : Nat → Table String Json → List Char → Option (Table String Json × List Char)
  | 0, _, _ => none
  | fuel + 1, seen, cs =>
    match skip cs with
    | '\x22' :: rest => do
      let (name, rest) ← string? fuel [] rest
      let rest ← after? [':'] (skip rest)
      let (value, rest) ← value? fuel rest
      let seen := seen.insert name value
      match skip rest with
      | ',' :: rest => fields? fuel seen rest
      | '\x7d' :: rest => some (seen, rest)
      | _ => none
    | _ => none

end

end Reader

/-- The value that `text` writes. -/
def parse? (text : String) : Option Json := do
  let cs := text.toList
  let (value, rest) ← Reader.value? (2 * cs.length + 2) cs
  if (Reader.skip rest).isEmpty then some value else none

end Injector.Json
