/-
# Injector.Program.Trace -- declarations in messages

A trace line shows how a declaration is called: a constructor with its
parameters, a member with its class, receiver, parameters and type.  A trace is
its lines, innermost declaration first.
-/
import Injector.Program.Basic
import Injector.Ty.Text

namespace Injector

set_option autoImplicit false

def ParamDecl.text (p : ParamDecl) : String := p.name ++ ": " ++ p.ty.text

/-- Parameters with commas between them. -/
def ParamDecl.listText (params : List ParamDecl) : String :=
  String.intercalate ", " (params.map text)

/-- The member as its own class sees it. -/
def MemberDecl.signature (m : MemberDecl) : String :=
  let receiver := (m.receiver.map fun r => r.text ++ ".").getD ""
  match m.kind with
  | .property => receiver ++ m.name ++ ": " ++ m.returnType.text
  | .function =>
    receiver ++ m.name ++ "(" ++ ParamDecl.listText m.params ++ "): " ++ m.returnType.text

def ClassDecl.text (c : ClassDecl) : String := c.decl.shortText

namespace Program

/-- One line of a trace. -/
def traceLine (p : Program) : Element → String
  | .cls id => (p.classAt id).text
  | .ctor owner index =>
    let c := p.classAt owner
    let params := ((c.ctors[index.toNat]?).map (·.params)).getD []
    c.text ++ "(" ++ ParamDecl.listText params ++ ")"
  | .member id =>
    let m := p.memberAt id
    match m.owner with
    | some owner => (p.classAt owner).text ++ "." ++ m.signature
    | none => m.signature

/-- The lines of several elements. -/
def traceText (p : Program) (elements : List Element) : String :=
  String.intercalate "\n" (elements.map p.traceLine)

end Program

end Injector
