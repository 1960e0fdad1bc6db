import Stencil.Proofs.JsonText
import Stencil.Tree.Json

/-!
# Trees are read back from JSON

A tree can be read back from its JSON form, up to one thing that the form does not show: of a value
only the text is written and, beside it, whether the value is dynamic, so that an expression which
is not dynamic looks like a literal. `Root.plain` takes the two for the same.

Elements and bindings are both objects, and the names of the members tell them apart. The name of a
property is a member's name too, but in an object of its own.

Main results:

* `Node.ofJson?_toJson`: reading a node's JSON form gives the node, made plain;
* `Root.toJson_eq_iff`: two trees have one JSON form exactly if they are equal when made plain;
* `Root.text_reads_back`: the same for the compact and the pretty text.
-/

namespace Stencil

-- ---------------------------------------------------------------------------
-- What the JSON form does not show
-- ---------------------------------------------------------------------------

/-- An expression that is not dynamic as a literal of its text. -/
def AttrValue.plain : AttrValue → AttrValue
  | .expression ⟨text, false⟩ => .literal text
  | value => value

def Attribute.plain (attr : Attribute) : Attribute :=
  { attr with value := attr.value.plain }

namespace Node

mutual

/-- A node with every value of an attribute made plain. -/
def plain : Node → Node
  | .element tag props children => .element tag (props.map Attribute.plain) (plainList children)
  | .text raw => .text raw
  | .binding e => .binding e

def plainList : List Node → List Node
  | [] => []
  | node :: nodes => plain node :: plainList nodes

end

theorem plainList_eq_map (nodes : List Node) : plainList nodes = nodes.map plain := by
  induction nodes with
  | nil => rfl
  | cons node nodes ih => rw [plainList, ih, List.map_cons]

end Node

def Root.plain (root : Root) : Root where
  children := Node.plainList root.children

-- ---------------------------------------------------------------------------
-- Reading a tree
-- ---------------------------------------------------------------------------

/-- An attribute, from its property and the flag that goes with it. -/
def Attribute.ofJson? : (prop flag : Json) → Option Attribute
  | .obj [(name, .str text)], .bool false => some ⟨name, .literal text⟩
  | .obj [(name, .str text)], .bool true => some ⟨name, .expression ⟨text, true⟩⟩
  | _, _ => none

/-- The attributes of an element, from its properties and its flags. -/
def attributesOfJson? : (props flags : List Json) → Option (List Attribute)
  | [], [] => some []
  | prop :: props, flag :: flags => do
    let attr ← Attribute.ofJson? prop flag
    let attrs ← attributesOfJson? props flags
    return attr :: attrs
  | _, _ => none

namespace Node

mutual

def ofJson? : Json → Option Node
  | .str raw => some (.text raw)
  | .obj [("expression", .str source), ("dynamic", .bool dynamic)] =>
    some (.binding ⟨source, dynamic⟩)
  | .obj [("type", .str tag), ("props", .arr props), ("dynamicProps", .arr flags),
      ("children", .arr children)] => do
    let props ← attributesOfJson? props flags
    let children ← ofJsonList? children
    return .element tag props children
  | _ => none

def ofJsonList? : List Json → Option (List Node)
  | [] => some []
  | item :: items => do
    let node ← ofJson? item
    let nodes ← ofJsonList? items
    return node :: nodes

end

end Node

/-- A tree is an element of the root's type without properties. -/
def Root.ofJson? (json : Json) : Option Root :=
  match Node.ofJson? json with
  | some (.element tag [] children) => if tag = Root.typeName then some ⟨children⟩ else none
  | _ => none

-- ---------------------------------------------------------------------------
-- Reading back
-- ---------------------------------------------------------------------------

theorem Attribute.ofJson?_toJson (attr : Attribute) :
    Attribute.ofJson? attr.toJson (.bool attr.isDynamic) = some attr.plain := by
  rcases attr with ⟨name, text | ⟨text, dynamic⟩⟩
  · rfl
  · cases dynamic <;> rfl

theorem attributesOfJson?_map (props : List Attribute) :
    attributesOfJson? (props.map Attribute.toJson) (props.map fun attr => .bool attr.isDynamic) =
      some (props.map Attribute.plain) := by
  induction props with
  | nil => rfl
  | cons attr props ih =>
    simp only [List.map_cons, attributesOfJson?, Attribute.ofJson?_toJson, ih]
    rfl

namespace Node

theorem ofJsonList?_map {nodes : List Node}
    (hread : ∀ node ∈ nodes, ofJson? node.toJson = some node.plain) :
    ofJsonList? (nodes.map toJson) = some (nodes.map plain) := by
  induction nodes with
  | nil => rfl
  | cons node nodes ih =>
    have hnode := hread node List.mem_cons_self
    have hnodes := ih fun other hother => hread other (List.mem_cons_of_mem node hother)
    simp only [List.map_cons, ofJsonList?, hnode, hnodes]
    rfl

/-- **A node is read back from its JSON form**, made plain. -/
theorem ofJson?_toJson (node : Node) : ofJson? node.toJson = some node.plain := by
  induction node using rec_mem with
  | element tag props children ih =>
    rw [toJson, elementJson, ofJson?, attributesOfJson?_map, toJsonList_eq_map,
      ofJsonList?_map ih, plain, plainList_eq_map]
    rfl
  | text raw => rw [toJson, ofJson?, plain]
  | binding e => rw [toJson, Expression.toJson, ofJson?, plain]

end Node

namespace Root

/-- A tree as an element, whose JSON form it has. -/
def toNode (root : Root) : Node :=
  .element typeName [] root.children

theorem toJson_toNode (root : Root) : root.toNode.toJson = root.toJson := by
  rw [toNode, Node.toJson, toJson]

theorem toNode_plain (root : Root) : root.plain.toNode = root.toNode.plain := by
  rw [toNode, toNode, Node.plain, plain, List.map_nil]

/-- **A tree is read back from its JSON form**, made plain. -/
theorem ofJson?_toJson (root : Root) : ofJson? root.toJson = some root.plain := by
  rw [ofJson?, ← toJson_toNode, Node.ofJson?_toJson, ← toNode_plain, toNode]
  simp

-- only the value of an attribute is taken for a literal, a binding stays what it is
example :
    let e : Expression := ⟨"1", false⟩
    ofJson? (toJson ⟨[.element "a" [⟨"x", .expression e⟩] [.binding e]]⟩) =
      some ⟨[.element "a" [⟨"x", .literal "1"⟩] [.binding e]]⟩ := by
  rfl

end Root

-- ---------------------------------------------------------------------------
-- Making plain changes nothing that is written
-- ---------------------------------------------------------------------------

theorem Attribute.toJson_plain (attr : Attribute) : attr.plain.toJson = attr.toJson := by
  rcases attr with ⟨name, text | ⟨text, dynamic⟩⟩
  · rfl
  · cases dynamic <;> rfl

theorem Attribute.isDynamic_plain (attr : Attribute) : attr.plain.isDynamic = attr.isDynamic := by
  rcases attr with ⟨name, text | ⟨text, dynamic⟩⟩
  · rfl
  · cases dynamic <;> rfl

theorem Node.toJson_plain (node : Node) : node.plain.toJson = node.toJson := by
  induction node using rec_mem with
  | element tag props children ih =>
    have hchildren : (children.map plain).map toJson = children.map toJson := by
      rw [List.map_map]
      exact List.map_congr_left ih
    have hprops : (props.map Attribute.plain).map Attribute.toJson = props.map Attribute.toJson := by
      rw [List.map_map]
      exact List.map_congr_left fun attr _ => attr.toJson_plain
    have hflags : ((props.map Attribute.plain).map fun attr => Json.bool attr.isDynamic) =
        props.map fun attr => Json.bool attr.isDynamic := by
      rw [List.map_map]
      exact List.map_congr_left fun attr _ => congrArg Json.bool attr.isDynamic_plain
    rw [plain, toJson, toJson, elementJson, elementJson, plainList_eq_map, toJsonList_eq_map,
      toJsonList_eq_map, hchildren, hprops, hflags]
  | text raw => rw [plain]
  | binding e => rw [plain]

theorem Root.toJson_plain (root : Root) : root.plain.toJson = root.toJson := by
  rw [← toJson_toNode, toNode_plain, Node.toJson_plain, toJson_toNode]

/-- **Two trees have one JSON form exactly if they are equal when made plain.** -/
theorem Root.toJson_eq_iff (a b : Root) : a.toJson = b.toJson ↔ a.plain = b.plain := by
  constructor
  · intro h
    have hread := a.ofJson?_toJson
    rw [h, b.ofJson?_toJson] at hread
    exact (Option.some.inj hread).symm
  · intro h
    rw [← a.toJson_plain, h, b.toJson_plain]

-- ---------------------------------------------------------------------------
-- The texts
-- ---------------------------------------------------------------------------

theorem elementJson_numberless (type : String) (props : List Attribute) {children : List Json}
    (hchildren : ∀ child ∈ children, child.Numberless) :
    (elementJson type props children).Numberless := by
  have hprops : ∀ prop ∈ props.map Attribute.toJson, prop.Numberless := by
    intro prop hprop
    obtain ⟨attr, -, rfl⟩ := List.mem_map.1 hprop
    exact .obj fun member hmember => List.mem_singleton.1 hmember ▸ .str _
  have hflags : ∀ flag ∈ props.map fun attr => Json.bool attr.isDynamic, flag.Numberless := by
    intro flag hflag
    obtain ⟨attr, -, rfl⟩ := List.mem_map.1 hflag
    exact .bool _
  refine .obj fun member hmember => ?_
  simp only [List.mem_cons, List.not_mem_nil, or_false] at hmember
  rcases hmember with rfl | rfl | rfl | rfl
  · exact .str type
  · exact .arr hprops
  · exact .arr hflags
  · exact .arr hchildren

theorem Node.toJson_numberless (node : Node) : node.toJson.Numberless := by
  induction node using rec_mem with
  | element tag props children ih =>
    rw [toJson, toJsonList_eq_map]
    refine elementJson_numberless tag props fun child hchild => ?_
    obtain ⟨node, hnode, rfl⟩ := List.mem_map.1 hchild
    exact ih node hnode
  | text raw => exact .str raw
  | binding e =>
    refine .obj fun member hmember => ?_
    simp only [List.mem_cons, List.not_mem_nil, or_false] at hmember
    rcases hmember with rfl | rfl
    · exact .str e.text
    · exact .bool e.dynamic

theorem Root.toJson_numberless (root : Root) : root.toJson.Numberless := by
  rw [← toJson_toNode]
  exact Node.toJson_numberless root.toNode

/-- **A tree is read back from its text.** Both texts of a tree are JSON texts of its JSON form, and
from that form the tree is read back, made plain. Hence two trees have one compact text, or one
pretty text, exactly if they differ at most in expressions that are not dynamic standing for
literals. -/
theorem Root.text_reads_back (a b : Root) :
    Json.read? a.toJson.compact = some a.toJson ∧
      Json.read? a.toJson.pretty = some a.toJson ∧
      Root.ofJson? a.toJson = some a.plain ∧
      (a.toJson.compact = b.toJson.compact ↔ a.plain = b.plain) ∧
      (a.toJson.pretty = b.toJson.pretty ↔ a.plain = b.plain) := by
  have hcompact : a.toJson.compact = b.toJson.compact ↔ a.toJson = b.toJson :=
    Json.write_inj Json.Layout.blank_compact a.toJson_numberless b.toJson_numberless
  have hpretty : a.toJson.pretty = b.toJson.pretty ↔ a.toJson = b.toJson :=
    Json.write_inj Json.Layout.blank_pretty a.toJson_numberless b.toJson_numberless
  refine ⟨?_, ?_, a.ofJson?_toJson, ?_, ?_⟩
  · exact Json.read?_write Json.Layout.blank_compact a.toJson_numberless
  · exact Json.read?_write Json.Layout.blank_pretty a.toJson_numberless
  · exact hcompact.trans (Root.toJson_eq_iff a b)
  · exact hpretty.trans (Root.toJson_eq_iff a b)

end Stencil
