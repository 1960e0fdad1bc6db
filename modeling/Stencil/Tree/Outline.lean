import Stencil.Options.Basic
import Stencil.Tree.Basic

/-!
# Outlines

A tree printed for people: one node on each line, indented by its depth. Elements look like tags and
take a closing line if they have children, texts stand between quotes, and expressions between
braces, a static one behind an equals sign.

Main results:

* `Node.linesList_eq_flatMap`: the lines of several nodes are those of each, one after another;
* `Root.outline_toList`: an outline is its lines, each ended by a line feed.
-/

namespace Stencil

/-- An expression between braces. A static one has an equals sign in front. -/
def Expression.outline (e : Expression) : List Char :=
  if e.dynamic then '{' :: e.text.toList ++ ['}'] else '{' :: '=' :: e.text.toList ++ ['}']

/-- An attribute as it stands in a tag. The empty literal is left out. -/
def Attribute.outline (attr : Attribute) : List Char :=
  match attr.value with
  | .literal text =>
    if text.isEmpty then attr.name.toList
    else attr.name.toList ++ '=' :: '"' :: text.toList ++ ['"']
  | .expression e => attr.name.toList ++ '=' :: e.outline

/-- The tag of an element without its end mark. -/
def tagOutline (tag : String) (props : List Attribute) : List Char :=
  '<' :: tag.toList ++ props.flatMap fun attr => ' ' :: attr.outline

/-- A line of an outline before it is indented. -/
structure OutlineLine where
  level : Nat
  text : List Char
deriving DecidableEq, Repr, Inhabited

namespace Node

mutual

def lines (level : Nat) : Node → List OutlineLine
  | .element tag props children =>
    match children with
    | [] => [⟨level, tagOutline tag props ++ [' ', '/', '>']⟩]
    | child :: others =>
      ⟨level, tagOutline tag props ++ ['>']⟩ ::
        (lines (level + 1) child ++ linesList (level + 1) others) ++
        [⟨level, '<' :: '/' :: tag.toList ++ ['>']⟩]
  | .text raw => [⟨level, '"' :: raw.toList ++ ['"']⟩]
  | .binding e => [⟨level, e.outline⟩]

def linesList (level : Nat) : List Node → List OutlineLine
  | [] => []
  | node :: nodes => lines level node ++ linesList level nodes

end

theorem linesList_eq_flatMap (level : Nat) (nodes : List Node) :
    linesList level nodes = nodes.flatMap (lines level) := by
  induction nodes with
  | nil => rfl
  | cons node nodes ih => rw [linesList, ih, List.flatMap_cons]

end Node

/-- The blanks in front of a line: tabs, one for each level, or spaces by the indentation width. -/
def PrintOptions.indent (options : PrintOptions) (level : Nat) : List Char :=
  if options.useTabs then List.replicate level '\t'
  else List.replicate (level * options.indentWidth.toNat) ' '

/-- A line with its indentation and its end. -/
def OutlineLine.render (options : PrintOptions) (line : OutlineLine) : List Char :=
  options.indent line.level ++ line.text ++ ['\n']

def Root.outline (options : PrintOptions) (root : Root) : String :=
  String.ofList ((Node.linesList 0 root.children).flatMap (OutlineLine.render options))

/-- An outline is its lines, each with its indentation and ended by a line feed. -/
theorem Root.outline_toList (options : PrintOptions) (root : Root) :
    (root.outline options).toList =
      (root.children.flatMap (Node.lines 0)).flatMap (OutlineLine.render options) := by
  simp [Root.outline, Node.linesList_eq_flatMap]

end Stencil
