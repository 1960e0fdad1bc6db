import Stencil.Expression.Basic
import Stencil.Text.LetterCase

/-!
# Template trees

A compiled template is plain data: elements with attributes and children, texts ready to stand in a
string literal, and bound expressions. Equality of trees is decidable, and a value given literally
differs from an expression of the same text.

An attribute with a capitalised name designates a component: `Attribute.isComponent`.

`Root.attributes` has every attribute in preorder, an element's own before those of its children.

Main result: `Node.rec_mem`, induction over nodes with a hypothesis for every child.
-/

namespace Stencil

/-! ## Attributes -/

/-- The value of an attribute. -/
inductive AttrValue where
  | literal (text : String)
  | expression (expression : Expression)
deriving DecidableEq, Repr, Inhabited

def AttrValue.text : AttrValue → String
  | literal text => text
  | expression e => e.text

structure Attribute where
  name : String
  value : AttrValue
deriving DecidableEq, Repr, Inhabited

/-- Whether the value depends on what is in scope. -/
def Attribute.isDynamic (attr : Attribute) : Bool :=
  match attr.value with
  | .literal _ => false
  | .expression e => e.dynamic

/-- A name that designates a component: its first letter is a capital. -/
def isComponentName (name : String) : Bool :=
  name.toList.head?.any Text.isCapital

/-- Whether an attribute designates a component rather than a property of its element. -/
def Attribute.isComponent (attr : Attribute) : Bool :=
  isComponentName attr.name

/-! ## Nodes -/

/-- A node of a template tree. -/
inductive Node where
  | element (tag : String) (props : List Attribute) (children : List Node)
  /-- A text, escaped for a string literal. -/
  | text (raw : String)
  | binding (expression : Expression)
deriving Repr, Inhabited

structure Root where
  children : List Node
deriving Repr, Inhabited

/-- The type name of the node at the base of every tree. -/
def Root.typeName : String := "Root"

namespace Node

/-- Induction over nodes: a property that an element has once all its children have it, and that
texts and bindings have, holds of every node. -/
theorem rec_mem {motive : Node → Prop}
    (element : ∀ tag props children, (∀ child ∈ children, motive child) →
      motive (.element tag props children))
    (text : ∀ raw, motive (.text raw)) (binding : ∀ e, motive (.binding e)) (node : Node) :
    motive node :=
  @Node.rec motive (fun nodes => ∀ child ∈ nodes, motive child) element text binding (by simp)
    (fun _ _ hhead htail => by simpa using ⟨hhead, htail⟩) node

mutual

def decEq : (a b : Node) → Decidable (a = b)
  | .element tag props children, .element tag' props' children' =>
    if hhead : tag = tag' ∧ props = props' then
      match decEqList children children' with
      | isTrue h => isTrue (by rw [hhead.1, hhead.2, h])
      | isFalse h => isFalse fun heq => h (Node.element.inj heq).2.2
    else isFalse fun heq => hhead ⟨(Node.element.inj heq).1, (Node.element.inj heq).2.1⟩
  | .text raw, .text raw' =>
    if h : raw = raw' then isTrue (by rw [h]) else isFalse fun heq => h (Node.text.inj heq)
  | .binding e, .binding e' =>
    if h : e = e' then isTrue (by rw [h]) else isFalse fun heq => h (Node.binding.inj heq)
  | .element .., .text _ | .element .., .binding _ | .text _, .element .. | .text _, .binding _
  | .binding _, .element .. | .binding _, .text _ => isFalse nofun

def decEqList : (as bs : List Node) → Decidable (as = bs)
  | [], [] => isTrue rfl
  | [], _ :: _ | _ :: _, [] => isFalse nofun
  | a :: as, b :: bs =>
    match decEq a b with
    | isFalse h => isFalse fun heq => h (List.cons.inj heq).1
    | isTrue h =>
      match decEqList as bs with
      | isTrue hs => isTrue (by rw [h, hs])
      | isFalse hs => isFalse fun heq => hs (List.cons.inj heq).2

end

instance : DecidableEq Node := decEq

mutual

/-- The attributes of a node and of the nodes below it, an element's own first. -/
def attributes : Node → List Attribute
  | .element _ props children => props ++ attributesList children
  | .text _ | .binding _ => []

def attributesList : List Node → List Attribute
  | [] => []
  | node :: nodes => attributes node ++ attributesList nodes

end

end Node

deriving instance DecidableEq for Root

def Root.attributes (root : Root) : List Attribute :=
  Node.attributesList root.children

end Stencil
