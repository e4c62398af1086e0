/-
# Injector.Options -- options of a generation run

A host hands options over as a map of text.  Two keys are known; a missing one is
off.  A flag reads `true` or `false` in any letter case, with blanks around it
allowed and no text at all for `false`; anything else is an error that shows the
text it found.  The keys are read in a fixed order, so of two bad flags the first
is reported.
-/
import Injector.Table
import Injector.Text.Blank
import Injector.Text.Quoted

namespace Injector

set_option autoImplicit false

structure Options where
  /-- Also honour the `javax.inject` annotations. -/
  enableJavaxAnnotations : Bool := false
  /-- Report the outline of every plan as a warning. -/
  dumpGraph : Bool := false
  deriving DecidableEq, Inhabited, Repr

namespace Options

def javaxKey : String := "wirebind.enableJavaxAnnotations"

def dumpKey : String := "wirebind.dumpGraph"

/-- A flag whose text is neither true nor false. -/
structure BadFlag where
  key : String
  /-- The text without surrounding blanks, in lower case. -/
  found : String
  deriving DecidableEq, Repr

def BadFlag.message (e : BadFlag) : String :=
  "invalid option " ++ e.key ++ ": expected true or false, got " ++ Text.quote e.found

/-- The text that a flag is recognised by. -/
def normalize (value : String) : String :=
  String.ofList ((Text.trim value.toList).map Char.toLower)

/-- The flag at `key`. -/
def flag (map : Table String String) (key : String) : Except BadFlag Bool :=
  match map.get? key with
  | none => .ok false
  | some value =>
    let found := normalize value
    if found = "true" then .ok true
    else if found = "false" ∨ found = "" then .ok false
    else .error ⟨key, found⟩

/-- The options in a host's map. -/
def ofMap (map : Table String String) : Except BadFlag Options := do
  let enableJavaxAnnotations ← flag map javaxKey
  let dumpGraph ← flag map dumpKey
  return { enableJavaxAnnotations, dumpGraph }

def flagText (b : Bool) : String := if b then "true" else "false"

/-- The options as a host's map. -/
def toMap (o : Options) : Table String String :=
  ⟨[(javaxKey, flagText o.enableJavaxAnnotations), (dumpKey, flagText o.dumpGraph)]⟩

/-- Writing options and reading them gives the same options. -/
theorem ofMap_toMap (o : Options) : ofMap o.toMap = .ok o := by
  obtain ⟨j, d⟩ := o
  cases j <;> cases d <;> rfl

end Options

end Injector
