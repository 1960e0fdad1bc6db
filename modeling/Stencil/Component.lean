import Stencil.Tree.Basic

/-!
# Components

An attribute that designates a component stands for an element around the one it was written on. So
the component attributes of an element are taken out of its properties, and each becomes a wrapper:
an element of the same name, with that attribute alone, around what there was before. The last one
in the source ends up outermost.

`elementName` gives the name under which a component is registered as an element.

Main result: `elementName_cons`, the first letter is made small and every later ASCII capital starts
a new word.
-/

namespace Stencil

namespace Node

/-- The element that stands for a component around a node. -/
def wrapper (inner : Node) (attr : Attribute) : Node :=
  .element attr.name [attr] [inner]

/-- Nests a node inside one wrapper per component, the first innermost. -/
def wrap (inner : Node) (components : List Attribute) : Node :=
  components.foldl wrapper inner

/-- The element a tag describes: its plain attributes are its properties, and it stands inside the
wrappers of its components. -/
def ofTag (tag : String) (attrs : List Attribute) (children : List Node) : Node :=
  (Node.element tag (attrs.filter fun attr => !attr.isComponent) children).wrap
    (attrs.filter Attribute.isComponent)

end Node

/-! ## Element names -/

/-- How a character after the first is written in an element name. -/
def hyphenated (c : Char) : List Char :=
  if c.isUpper then ['-', c.toLower] else [c]

/-- The element name of a component: small letters with a hyphen before every word but the first. -/
def elementName (component : String) : String :=
  match component.toList with
  | [] => ""
  | c :: cs => String.ofList (Text.lowercase c ++ cs.flatMap hyphenated)

/-- The first letter is made small and every later ASCII capital starts a new word. -/
theorem elementName_cons (c : Char) (cs : List Char) :
    (elementName (String.ofList (c :: cs))).toList = Text.lowercase c ++ cs.flatMap hyphenated := by
  simp [elementName]

end Stencil
