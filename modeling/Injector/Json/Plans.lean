/-
# Injector.Json.Plans -- forests as JSON

A forest is written with every type in full.  A plan is an object that starts
with its kind; arguments form an object in the order of the parameters.
-/
import Injector.Json.Declarations
import Injector.Json.Text
import Injector.Plan.Forest

namespace Injector

set_option autoImplicit false

def ContainerKind.names : List (String × ContainerKind) := [("Set", .set), ("Map", .map)]

def ContainerKind.toJson (k : ContainerKind) : Json := Json.nameOf ContainerKind.names k

/-- The function that builds such a container. -/
def ContainerKind.text : ContainerKind → String
  | .set => "setOf"
  | .map => "mapOf"

def Slot.toJson (s : Slot) : Json := .obj [("key", s.key.toJson), ("id", .nat s.id)]

/-- The fields of a plan after its kind, with the given encodings of types, of slots
and of arguments. -/
def Plan.fieldsToJson (ty : Ty → Json) (slot : Slot → Json) (args : Table String Slot → Json) :
    Plan → List (String × Json)
  | .construct t params named =>
    [("ty", ty t), ("parameters", args params), ("supports_named_arguments", named)]
  | .provide className memberName path receiver isProperty params =>
    [("class_name", className), ("method_name", memberName), ("accessor", path.toJson),
      ("receiver", .option slot receiver), ("is_property", isProperty),
      ("parameters", args params)]
  | .keep token path result =>
    [("key", token), ("accessor", path.toJson), ("result", slot result)]
  | .container kind contributors =>
    [("container", kind.toJson), ("args", .list slot contributors)]
  | .function params result => [("args", .list .str params), ("result", slot result)]
  | .namedFunction package name lambdaParams receiver params =>
    [("package", package), ("name", name), ("args", .list .str lambdaParams),
      ("receiver", .option slot receiver), ("parameters", args params)]
  | .object t => [("ty", ty t)]
  | .arg name | .localVar name => [("name", name)]
  | .lazy result => [("result", slot result)]
  | .lateInit name result => [("name", name), ("result", slot result)]

/-- The arguments as an object. -/
def Slot.tableToJson (params : Table String Slot) : Json :=
  .obj (params.mapValues Slot.toJson).rows

def Plan.toJson (p : Plan) : Json :=
  .obj (("kind", .str p.stepName) :: p.fieldsToJson Ty.toJson Slot.toJson Slot.tableToJson)

def Entry.toJson (e : Entry) : Json :=
  .obj [("name", e.name), ("return_type", e.returnType.toJson), ("is_property", e.isProperty),
    ("is_private", e.isPrivate), ("is_override", e.isOverride), ("is_suspend", e.isSuspend),
    ("result", e.result.toJson)]

namespace Forest

def toJson (f : Forest) : Json :=
  .obj [("arena", .obj [("nodes", .list Plan.toJson f.arena.plans)]),
    ("entries", .list Entry.toJson f.entries)]

/-- The forest as text over several lines. -/
def jsonText (f : Forest) : String := f.toJson.pretty

end Forest

end Injector
