import Stencil.Json.Basic
import Stencil.Tree.Basic

/-!
# Trees as JSON

Elements are objects with their type, their properties, a flag for each property and their children;
texts are strings; expressions are objects of their own shape, told apart from elements by the names
of their members. A property is an object with a single member, so that no name of a property can
hide a member of the element.

Main result: `Node.toJsonList_eq_map`, the items for several nodes are those of each.
-/

namespace Stencil

def Attribute.toJson (attr : Attribute) : Json :=
  .obj [(attr.name, .str attr.value.text)]

def Expression.toJson (e : Expression) : Json :=
  .obj [("expression", .str e.text), ("dynamic", .bool e.dynamic)]

/-- An element, given its parts. -/
def elementJson (type : String) (props : List Attribute) (children : List Json) : Json :=
  .obj [("type", .str type), ("props", .arr (props.map Attribute.toJson)),
    ("dynamicProps", .arr (props.map fun attr => .bool attr.isDynamic)),
    ("children", .arr children)]

namespace Node

mutual

def toJson : Node → Json
  | .element tag props children => elementJson tag props (toJsonList children)
  | .text raw => .str raw
  | .binding e => e.toJson

def toJsonList : List Node → List Json
  | [] => []
  | node :: nodes => toJson node :: toJsonList nodes

end

theorem toJsonList_eq_map (nodes : List Node) : toJsonList nodes = nodes.map toJson := by
  induction nodes with
  | nil => rfl
  | cons node nodes ih => rw [toJsonList, ih, List.map_cons]

end Node

/-- A whole tree, as an element of the root's type without properties. -/
def Root.toJson (root : Root) : Json :=
  elementJson Root.typeName [] (Node.toJsonList root.children)

end Stencil
