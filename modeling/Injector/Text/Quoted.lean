/-
# Injector.Text.Quoted -- text in quotation marks, with what cannot be seen escaped

`quote` puts a text between double quotation marks so that the result can be read
in a message: a quotation mark and a backslash are escaped by a backslash, the
usual controls have their letters, and every other character that is not
printable, or that would attach itself to its neighbour, is written by its
number in hexadecimal.
-/
import Injector.Text.Printable

namespace Injector.Text

set_option autoImplicit false

/-- The number of `c` in hexadecimal, in braces after a backslash and a `u`. -/
def escapeByNumber (c : Char) : List Char :=
  ['\\', 'u', '\x7b'] ++ Nat.toDigits 16 c.toNat ++ ['\x7d']

/-- How one character stands between quotation marks. -/
def escape (c : Char) : List Char :=
  if c = '\x00' then ['\\', '0']
  else if c = '\t' then ['\\', 't']
  else if c = '\r' then ['\\', 'r']
  else if c = '\n' then ['\\', 'n']
  else if c = '\x22' then ['\\', c]
  else if c = '\\' then ['\\', c]
  else if isExtender c || !isPrintable c then escapeByNumber c
  else [c]

/-- `text` between quotation marks. -/
def quote (text : String) : String :=
  String.ofList ('\x22' :: text.toList.flatMap escape ++ ['\x22'])

example : quote "a\"b\\\n" = "\"a\\\"b\\\\\\n\"" := by decide

end Injector.Text
