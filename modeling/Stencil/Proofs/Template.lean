import Mathlib.Data.List.Infix
import Stencil.Proofs.Forest

/-!
# Templates and how they are written

The well-formed templates as abstract forests, with the conditions on names, texts and expressions as
fields, and the ways in which a forest can be written as source. Several ways are open for one forest:
an attribute value between quotes of either kind, or none where the value is empty; an element without
children as one tag or as two. `Renders` holds of every choice.

Conditions on neighbours are not fields of a node, so they are a predicate on forests, `Separated`: two
texts in a row, or a binding behind a text, would be read as one text.

Main results:

* `exists_renders`: every forest can be written;
* `decidableBracesBalanced`: whether the braces of a text balance can be decided.
-/

namespace Stencil

-- ---------------------------------------------------------------------------
-- Forests
-- ---------------------------------------------------------------------------

/-- No front part of a text closes more braces than it opens, and the whole text opens as many as it
closes. -/
def BracesBalanced (cs : List Char) : Prop :=
  (∀ front, front <+: cs → front.count '}' ≤ front.count '{') ∧ cs.count '}' = cs.count '{'

instance decidableBracesBalanced (cs : List Char) : Decidable (BracesBalanced cs) :=
  decidable_of_iff
    ((∀ front ∈ cs.inits, front.count '}' ≤ front.count '{') ∧ cs.count '}' = cs.count '{')
    (by simp only [BracesBalanced, List.mem_inits])

namespace Template

structure TagName where
  chars : List Char
  ne_nil : chars ≠ [] := by decide
  isNameChar : ∀ c ∈ chars, Source.isNameChar c = true := by
    simp [Source.isNameChar, Text.isBlank]
  /-- Behind a `<` it does not begin a comment. -/
  not_comment : ¬['!', '-', '-'] <+: chars := by decide

/-- The name of an attribute, which may be empty. -/
structure AttrName where
  chars : List Char
  isNameChar : ∀ c ∈ chars, Source.isNameChar c = true := by
    simp [Source.isNameChar, Text.isBlank]

/-- The value of an attribute as it is meant. -/
inductive Value where
  /-- A literal that can be put between quotes of one kind at least. -/
  | literal (chars : List Char) (quotable : '"' ∉ chars ∨ '\'' ∉ chars)
  | expression (source : List Char) (balanced : BracesBalanced source)

structure Attr where
  name : AttrName
  value : Value

/-- A text that shows: it is not blank, holds no tag and does not begin like a binding. -/
structure TextRun where
  chars : List Char
  not_blank : chars.all Text.isBlank = false := by decide
  no_tag : '<' ∉ chars := by decide
  not_binding : chars.head? ≠ some '{' := by decide

end Template

open Template

inductive Template where
  | element (tag : TagName) (attrs : List Attr) (children : List Template)
  | text (run : TextRun)
  | binding (source : List Char) (balanced : BracesBalanced source)

/-- At every level, a text is the last node or an element follows it. -/
inductive Separated : List Template → Prop where
  | nil : Separated []
  | element {tag : TagName} {attrs : List Attr} {children rest : List Template}
      (hchildren : Separated children) (hrest : Separated rest) :
      Separated (.element tag attrs children :: rest)
  | binding {source : List Char} {balanced} {rest : List Template} (hrest : Separated rest) :
      Separated (.binding source balanced :: rest)
  | lastText {run : TextRun} : Separated [.text run]
  | textBefore {run : TextRun} {tag : TagName} {attrs : List Attr} {children rest : List Template}
      (hrest : Separated (.element tag attrs children :: rest)) :
      Separated (.text run :: .element tag attrs children :: rest)

-- ---------------------------------------------------------------------------
-- What a forest means
-- ---------------------------------------------------------------------------

/-- The attribute that is meant: expressions with their names resolved. -/
def Template.Attr.attribute (attr : Attr) : Attribute where
  name := String.ofList attr.name.chars
  value :=
    match attr.value with
    | .literal chars _ => .literal (String.ofList chars)
    | .expression source _ => .expression (Expression.ofChars source)

namespace Template

mutual

/-- The node that is meant: elements inside the wrappers of their components, texts escaped and
expressions with their names resolved. -/
def node : Template → Node
  | .element tag attrs children =>
    .tagged (String.ofList tag.chars) (attrs.map Attr.attribute) (nodes children)
  | .text run => .text (String.ofList (Text.escaped run.chars))
  | .binding source _ => .binding (Expression.ofChars source)

def nodes : List Template → List Node
  | [] => []
  | template :: rest => node template :: nodes rest

end

-- ---------------------------------------------------------------------------
-- How a forest is written
-- ---------------------------------------------------------------------------

/-- The ways to write an attribute, each with a space in front. -/
inductive RendersAttr : Attr → List Char → Prop where
  | bare {name : AttrName} {quotable} (hname : name.chars ≠ []) :
      RendersAttr ⟨name, .literal [] quotable⟩ (' ' :: name.chars)
  | double {name : AttrName} {chars : List Char} {quotable} (hchars : '"' ∉ chars) :
      RendersAttr ⟨name, .literal chars quotable⟩
        (' ' :: name.chars ++ '=' :: '"' :: chars ++ ['"'])
  | single {name : AttrName} {chars : List Char} {quotable} (hchars : '\'' ∉ chars) :
      RendersAttr ⟨name, .literal chars quotable⟩
        (' ' :: name.chars ++ '=' :: '\'' :: chars ++ ['\''])
  | braces {name : AttrName} {source : List Char} {balanced} :
      RendersAttr ⟨name, .expression source balanced⟩
        (' ' :: name.chars ++ '=' :: '{' :: source ++ ['}'])

inductive RendersAttrs : List Attr → List Char → Prop where
  | nil : RendersAttrs [] []
  | cons {attr : Attr} {attrs : List Attr} {first others : List Char}
      (hfirst : RendersAttr attr first) (hothers : RendersAttrs attrs others) :
      RendersAttrs (attr :: attrs) (first ++ others)

/-- The ways to write a forest. -/
inductive Renders : List Template → List Char → Prop where
  | nil : Renders [] []
  | text {run : TextRun} {rest : List Template} {out : List Char} (hrest : Renders rest out) :
      Renders (.text run :: rest) (run.chars ++ out)
  | binding {source : List Char} {balanced} {rest : List Template} {out : List Char}
      (hrest : Renders rest out) :
      Renders (.binding source balanced :: rest) ('{' :: source ++ '}' :: out)
  | leaf {tag : TagName} {attrs : List Attr} {rest : List Template} {written out : List Char}
      (hattrs : RendersAttrs attrs written) (hrest : Renders rest out) :
      Renders (.element tag attrs [] :: rest) ('<' :: tag.chars ++ written ++ '/' :: '>' :: out)
  | element {tag : TagName} {attrs : List Attr} {children rest : List Template}
      {written inner out : List Char} (hattrs : RendersAttrs attrs written)
      (hchildren : Renders children inner) (hrest : Renders rest out) :
      Renders (.element tag attrs children :: rest)
        ('<' :: tag.chars ++ written ++ '>' :: inner ++ '<' :: '/' :: tag.chars ++ '>' :: out)

theorem exists_rendersAttr (attr : Attr) : ∃ written, RendersAttr attr written := by
  obtain ⟨name, value⟩ := attr
  cases value with
  | literal chars quotable =>
    rcases quotable with hchars | hchars
    · exact ⟨_, .double hchars⟩
    · exact ⟨_, .single hchars⟩
  | expression source balanced => exact ⟨_, .braces⟩

theorem exists_rendersAttrs (attrs : List Attr) : ∃ written, RendersAttrs attrs written := by
  induction attrs with
  | nil => exact ⟨[], .nil⟩
  | cons attr attrs ih =>
    obtain ⟨first, hfirst⟩ := exists_rendersAttr attr
    obtain ⟨others, hothers⟩ := ih
    exact ⟨first ++ others, .cons hfirst hothers⟩

theorem exists_renders : ∀ forest : List Template, ∃ out, Renders forest out
  | [] => ⟨[], .nil⟩
  | .text run :: rest => by
    obtain ⟨out, hrest⟩ := exists_renders rest
    exact ⟨_, .text hrest⟩
  | .binding source balanced :: rest => by
    obtain ⟨out, hrest⟩ := exists_renders rest
    exact ⟨_, .binding hrest⟩
  | .element tag attrs children :: rest => by
    obtain ⟨written, hattrs⟩ := exists_rendersAttrs attrs
    obtain ⟨inner, hchildren⟩ := exists_renders children
    obtain ⟨out, hrest⟩ := exists_renders rest
    exact ⟨_, .element hattrs hchildren hrest⟩

end Template

end Stencil
