import Stencil.Proofs.Lexemes

/-!
# The tree as a reading of the items

The builder keeps the open elements on a stack and attaches a node only once its element is closed.
This module says what comes out of that without any stack. An opening tag has as its children what is
read from the items up to its own closing tag: the next one that no opening tag in between takes,
whatever its name, or the end of the items. A closing tag that is nobody's own is passed over.
`forest` is that reading, by recursion on the row of items.

The two agree for every row, however many closing tags are stray, wrong or missing. What carries the
induction over the row is `resume`: the tree that the elements on the stack and the items still to
come make together. A step of the builder moves an item from the one side to the other and leaves
`resume` as it was.

Main results:

* `top_finish_run`: building from a row of lexemes, whatever is open already, gives what `resume`
  says;
* `flatMap_parts_forest`: every element, text and binding that the items call for stands in the
  forest once, and in the order of the items;
* `compile_children_eq_forest`: the tree of a source is the forest of its items.
-/

namespace Stencil

-- ---------------------------------------------------------------------------
-- Wrappers, read from left to right
-- ---------------------------------------------------------------------------

namespace Node

/-- Walks along the attributes of a tag: each one that designates a component puts an element of its
name, with that attribute alone, around what there is. -/
def within (node : Node) : List Attribute → Node
  | [] => node
  | attr :: attrs =>
    within (if attr.isComponent then .element attr.name [attr] [node] else node) attrs

/-- The element of a tag inside its wrappers, with the other attributes as its properties. -/
def tagged (tag : String) (attrs : List Attribute) (children : List Node) : Node :=
  within (.element tag (attrs.filter fun attr => !attr.isComponent) children) attrs

theorem wrap_filter (node : Node) (attrs : List Attribute) :
    node.wrap (attrs.filter Attribute.isComponent) = node.within attrs := by
  induction attrs generalizing node with
  | nil => rfl
  | cons attr attrs ih =>
    rw [within, List.filter_cons]
    by_cases hc : attr.isComponent = true
    · rw [if_pos hc, if_pos hc, ← ih]
      rfl
    · rw [if_neg hc, if_neg hc, ih]

/-- Taking the components out first and nesting them afterwards gives the same element. -/
theorem ofTag_eq_tagged (tag : String) (attrs : List Attribute) (children : List Node) :
    ofTag tag attrs children = tagged tag attrs children :=
  wrap_filter _ attrs

end Node

namespace Source

-- ---------------------------------------------------------------------------
-- The reading
-- ---------------------------------------------------------------------------

/-- The items in front of the closing tag that belongs to the outermost of `depth + 1` open elements,
and the items behind that tag. Without such a tag all items belong inside. -/
def enclosed : (depth : Nat) → List Item → List Item × List Item
  | _, [] => ([], [])
  | depth, .opening tag attrs :: items =>
    let inner := enclosed (depth + 1) items
    (.opening tag attrs :: inner.1, inner.2)
  | 0, .closing _ :: items => ([], items)
  | depth + 1, .closing name :: items =>
    let inner := enclosed depth items
    (.closing name :: inner.1, inner.2)
  | depth, item :: items =>
    let inner := enclosed depth items
    (item :: inner.1, inner.2)

theorem length_enclosed_le (depth : Nat) (items : List Item) :
    (enclosed depth items).1.length ≤ items.length ∧
      (enclosed depth items).2.length ≤ items.length := by
  induction items generalizing depth with
  | nil => simp [enclosed]
  | cons item items ih =>
    cases item with
    | opening tag attrs =>
      have := ih (depth + 1)
      simp only [enclosed, List.length_cons]
      omega
    | closing name =>
      cases depth with
      | zero => simp [enclosed]
      | succ depth =>
        have := ih depth
        simp only [enclosed, List.length_cons]
        omega
    | leaf _ _ | text _ | binding _ | blank | comment =>
      have := ih depth
      simp only [enclosed, List.length_cons]
      omega

/-- The forest that a row of items describes. -/
def forest : List Item → List Node
  | [] => []
  | .opening tag attrs :: items =>
    .tagged tag attrs (forest (enclosed 0 items).1) :: forest (enclosed 0 items).2
  | .leaf tag attrs :: items => .tagged tag attrs [] :: forest items
  | .text raw :: items => .text raw :: forest items
  | .binding e :: items => .binding e :: forest items
  -- a closing tag that is met here closes nothing
  | .closing _ :: items | .blank :: items | .comment :: items => forest items
termination_by items => items.length
decreasing_by
  · have := (length_enclosed_le 0 items).1
    simp only [List.length_cons]
    omega
  · have := (length_enclosed_le 0 items).2
    simp only [List.length_cons]
    omega
  all_goals simp

/-- Splitting off an outer element first and an inner one from its inside is the same as splitting
off the inner one first and the outer one from what follows. -/
theorem enclosed_enclosed (depth outer : Nat) (items : List Item) :
    enclosed depth (enclosed (depth + outer + 1) items).1 =
        ((enclosed depth items).1, (enclosed outer (enclosed depth items).2).1) ∧
      (enclosed (depth + outer + 1) items).2 = (enclosed outer (enclosed depth items).2).2 := by
  induction items generalizing depth with
  | nil => simp [enclosed]
  | cons item items ih =>
    cases item with
    | opening tag attrs =>
      obtain ⟨hin, hout⟩ := ih (depth + 1)
      rw [show depth + 1 + outer + 1 = depth + outer + 1 + 1 by omega] at hin hout
      simp only [enclosed, hin, hout, and_self]
    | closing name =>
      cases depth with
      | zero => simp [enclosed]
      | succ depth =>
        obtain ⟨hin, hout⟩ := ih depth
        rw [show depth + 1 + outer + 1 = depth + outer + 1 + 1 by omega]
        simp only [enclosed, hin, hout, and_self]
    | leaf _ _ | text _ | binding _ | blank | comment =>
      obtain ⟨hin, hout⟩ := ih depth
      simp only [enclosed, hin, hout, and_self]

end Source

-- ---------------------------------------------------------------------------
-- The builder
-- ---------------------------------------------------------------------------

open Source (Item Lexeme items enclosed forest enclosed_enclosed)

namespace Build

@[simp]
theorem report_top (build : Build) (development : Bool) (d : Diagnostic) :
    (build.report development d).top = build.top := rfl

@[simp]
theorem report_stack (build : Build) (development : Bool) (d : Diagnostic) :
    (build.report development d).stack = build.stack := rfl

/-- The top level that a stack of open elements and a row of items make together. The innermost
element has the children it got so far, then the nodes `last`, then what is read up to its closing
tag; the element it becomes is the last child so far of the next one. -/
def resume (top last : List Node) : List OpenElement → List Item → List Node
  | [], items => top ++ last ++ forest items
  | inner :: outer, items =>
    resume top
      [{ inner with children := inner.children ++ last ++ forest (enclosed 0 items).1 }.node]
      outer (enclosed 0 items).2

/-- When no item is left the open elements are closed one after another. -/
theorem top_finishWith (development : Bool) (top last : List Node) (stack : List OpenElement)
    (journal : Journal) :
    (finishWith development top last stack journal).top = resume top last stack [] := by
  induction stack generalizing last journal with
  | nil => simp [finishWith, resume, forest]
  | cons inner outer ih =>
    rw [finishWith, ih, resume]
    simp [enclosed, forest]

/-- A node that is inserted is the last one so far at the place that is being filled. -/
theorem resume_insert (build : Build) (node : Node) (items : List Item) :
    resume (build.insert node).top [] (build.insert node).stack items =
      resume build.top [node] build.stack items := by
  obtain ⟨top, stack, journal⟩ := build
  cases stack with
  | nil => simp [insert, resume]
  | cons inner outer => simp [insert, resume, OpenElement.push]

/-- An item that stands for a node gives that node first, at whatever depth it is met. -/
theorem resume_cons {item : Item} {items : List Item} (node : Node) (rest : List Item)
    (top : List Node) (stack : List OpenElement)
    (hforest : forest (item :: items) = node :: forest rest)
    (hinside : forest (enclosed 0 (item :: items)).1 = node :: forest (enclosed 0 rest).1)
    (hbehind : (enclosed 0 (item :: items)).2 = (enclosed 0 rest).2) :
    resume top [] stack (item :: items) = resume top [node] stack rest := by
  cases stack with
  | nil => simp [resume, hforest]
  | cons inner outer => simp [resume, hinside, hbehind]

/-- Taking a lexeme changes nothing about what comes out in the end. -/
theorem resume_step (development : Bool) (build : Build) (lexeme : Lexeme) (items : List Item) :
    resume (build.step development lexeme).top [] (build.step development lexeme).stack items =
      resume build.top [] build.stack (lexeme.item :: items) := by
  obtain ⟨start, source, item⟩ := lexeme
  cases item with
  | opening tag attrs =>
    obtain ⟨hinside, hbehind⟩ := enclosed_enclosed 0 0 items
    simp only [Nat.zero_add] at hinside hbehind
    rw [resume_cons (.tagged tag attrs (forest (enclosed 0 items).1)) (enclosed 0 items).2]
    · simp [step, resume, OpenElement.node, Node.ofTag_eq_tagged]
    · rw [forest]
    · rw [enclosed, forest, hinside]
    · rw [enclosed, hbehind]
  | leaf tag attrs =>
    rw [step, resume_insert, resume_cons (.tagged tag attrs []) items, Node.ofTag_eq_tagged]
    all_goals simp [enclosed, forest]
  | closing name =>
    obtain ⟨top, stack, journal⟩ := build
    cases stack with
    | nil => simp [step, close, resume, forest]
    | cons inner outer =>
      simp only [step, close]
      rw [resume_insert]
      split <;> simp [resume, enclosed, forest]
  | text raw =>
    rw [step, resume_insert, resume_cons (.text raw) items]
    all_goals simp [enclosed, forest]
  | binding e =>
    rw [step, resume_insert, resume_cons (.binding e) items]
    all_goals simp [enclosed, forest]
  | blank =>
    cases hstack : build.stack <;> simp [step, resume, enclosed, forest, hstack]
  | comment =>
    cases hstack : build.stack <;> simp [step, resume, enclosed, forest, hstack]

/-- Building from a row of lexemes, with whatever was built before, gives the tree that the open
elements and the items of the row make together. -/
theorem top_finish_run (development : Bool) (build : Build) (lexemes : List Lexeme) :
    ((build.run development lexemes).finish development).top =
      resume build.top [] build.stack (lexemes.map Lexeme.item) := by
  induction lexemes generalizing build with
  | nil => exact top_finishWith development build.top [] build.stack build.journal
  | cons lexeme lexemes ih =>
    have hstep := resume_step development build lexeme (lexemes.map Lexeme.item)
    rw [List.map_cons, ← hstep, ← ih]
    rfl

theorem top_ofText (development : Bool) (text : List Char) :
    (ofText development text).top = forest (items text) := by
  rw [ofText, top_finish_run]
  simp [resume, items]

end Build

-- ---------------------------------------------------------------------------
-- Nothing is lost, repeated or moved
-- ---------------------------------------------------------------------------

/-- A node without what is below it. -/
inductive Part where
  /-- The start of an element, with its properties in order. -/
  | element (tag : String) (props : List Attribute)
  | text (raw : String)
  | binding (expression : Expression)
deriving DecidableEq, Repr

namespace Node

mutual

/-- The parts of a node in preorder: an element's own start, then the parts of its children. -/
def parts : Node → List Part
  | .element tag props children => .element tag props :: partsList children
  | .text raw => [.text raw]
  | .binding e => [.binding e]

def partsList : List Node → List Part
  | [] => []
  | node :: nodes => parts node ++ partsList nodes

end

theorem partsList_eq_flatMap (nodes : List Node) : partsList nodes = nodes.flatMap parts := by
  induction nodes with
  | nil => rfl
  | cons node nodes ih => rw [partsList, ih, List.flatMap_cons]

end Node

/-- The parts that a tag calls for: its wrappers, the one of the last component first, and right
below them the element with its other attributes in order. -/
def Part.ofTag (tag : String) (attrs : List Attribute) : List Part :=
  ((attrs.filter Attribute.isComponent).reverse.map fun attr => .element attr.name [attr]) ++
    [.element tag (attrs.filter fun attr => !attr.isComponent)]

def Source.Item.parts : Item → List Part
  | .opening tag attrs | .leaf tag attrs => Part.ofTag tag attrs
  | .text raw => [.text raw]
  | .binding e => [.binding e]
  | .closing _ | .blank | .comment => []

/-- Wrappers stand above the node, the last one on top. -/
theorem Node.parts_within (node : Node) (attrs : List Attribute) :
    (node.within attrs).parts =
      ((attrs.filter Attribute.isComponent).reverse.map fun attr =>
        Part.element attr.name [attr]) ++ node.parts := by
  induction attrs generalizing node with
  | nil => rfl
  | cons attr attrs ih =>
    rw [within, ih, List.filter_cons]
    by_cases hc : attr.isComponent = true
    · rw [if_pos hc, if_pos hc]
      simp [parts, partsList]
    · rw [if_neg hc, if_neg hc]

theorem Node.parts_tagged (tag : String) (attrs : List Attribute) (children : List Node) :
    (tagged tag attrs children).parts = Part.ofTag tag attrs ++ children.flatMap parts := by
  rw [tagged, parts_within, parts, partsList_eq_flatMap, Part.ofTag, List.append_assoc]
  rfl

theorem Source.flatMap_parts_enclosed (depth : Nat) (items : List Item) :
    (enclosed depth items).1.flatMap Item.parts ++ (enclosed depth items).2.flatMap Item.parts =
      items.flatMap Item.parts := by
  induction items generalizing depth with
  | nil => simp [enclosed]
  | cons item items ih =>
    cases item with
    | opening tag attrs => simp [enclosed, ih]
    | closing name =>
      cases depth with
      | zero => simp [enclosed, Item.parts]
      | succ depth => simp [enclosed, ih]
    | leaf _ _ | text _ | binding _ | blank | comment => simp [enclosed, ih]

/-- Every part that the items call for stands in the forest once, in the order of the items. -/
theorem Source.flatMap_parts_forest (items : List Item) :
    (forest items).flatMap Node.parts = items.flatMap Item.parts := by
  fun_induction forest items with
  | case1 => rfl
  | case2 tag attrs items ihinside ihbehind =>
    rw [List.flatMap_cons, Node.parts_tagged, ihinside, ihbehind, List.append_assoc,
      flatMap_parts_enclosed, List.flatMap_cons]
    rfl
  | case3 tag attrs items ih =>
    rw [List.flatMap_cons, Node.parts_tagged, ih, List.flatMap_cons]
    simp [Item.parts]
  | case4 raw items ih => simp [Node.parts, Item.parts, ih]
  | case5 e items ih => simp [Node.parts, Item.parts, ih]
  | case6 name items ih => simp [Item.parts, ih]
  | case7 items ih => simp [Item.parts, ih]
  | case8 items ih => simp [Item.parts, ih]

-- ---------------------------------------------------------------------------
-- Compilation
-- ---------------------------------------------------------------------------

/-- Every part of a compiled tree is called for by an item of the source. -/
theorem exists_item_of_mem_parts {options : CompileOptions} {source : String} {part : Part}
    (h : part ∈ (compile options source).root.children.flatMap Node.parts) :
    ∃ item ∈ items (options.prepare source.toList), part ∈ item.parts := by
  have hroot : (compile options source).root.children =
      forest (items (options.prepare source.toList)) := Build.top_ofText _ _
  rw [hroot, Source.flatMap_parts_forest] at h
  exact List.mem_flatMap.1 h

/-- **The tree of a source is the forest of its items.** So every element with its attributes, every
text and every binding of the source stands in the tree once and in the order of the source, with
wrappers right above their element, whatever is wrong with the closing tags. -/
theorem compile_children_eq_forest (options : CompileOptions) (source : String) :
    (compile options source).root.children = forest (items (options.prepare source.toList)) ∧
      (compile options source).root.children.flatMap Node.parts =
        (items (options.prepare source.toList)).flatMap Item.parts := by
  have hroot : (compile options source).root.children =
      forest (items (options.prepare source.toList)) := by
    rw [compile_root_eq]
    exact Build.top_ofText options.development (options.prepare source.toList)
  exact ⟨hroot, by rw [hroot, Source.flatMap_parts_forest]⟩

end Stencil
