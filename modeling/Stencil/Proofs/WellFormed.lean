import Stencil.Proofs.Lexemes

/-!
# Well-formed trees

What every tree looks like that a compilation can make, however malformed the source. An element is
either one that was written, with no component among its properties, or a wrapper that stands for a
component: named like it, with that property alone and one element inside. Names hold nothing that
would end a name, and a text is never empty and never looks like a binding.

Nodes come into a tree when an element is closed by a tag, by the end of the source, or on the spot,
so the invariant speaks of the open elements too (`Build.WellFormed`): what waits on the stack has a
name, attributes and children from which closing it makes a well-formed node.

Main results:

* `Source.Item.wellFormed_read`: what is read from any text is well formed;
* `Node.wellFormed_ofTag`: so is the element that a tag describes, inside its wrappers;
* `Build.wellFormed_step`, `Build.wellFormed_run`, `Build.wellFormed_finish`: the invariant of the
  builder;
* `compile_wellFormed`: the tree of a source is well formed.
-/

namespace Stencil

-- ---------------------------------------------------------------------------
-- Names and texts
-- ---------------------------------------------------------------------------

/-- A name without a character that would end it. It may be empty. -/
structure IsName (name : String) : Prop where
  no_blank : ∀ c ∈ name.toList, Text.isBlank c = false
  no_equals : '=' ∉ name.toList
  no_slash : '/' ∉ name.toList
  no_end : '>' ∉ name.toList

/-- The name of an element: behind a `<` it does not begin a comment. -/
structure IsTagName (name : String) : Prop extends IsName name where
  not_comment : ¬['!', '-', '-'] <+: name.toList

/-- A text as it stands in a tree: there is something of it, and it does not begin like a binding. -/
structure IsTextRun (raw : String) : Prop where
  ne_empty : raw ≠ ""
  not_binding : raw.toList.head? ≠ some '{'

theorem IsName.of_isNameChar {name : String}
    (h : ∀ c ∈ name.toList, Source.isNameChar c = true) : IsName name := by
  have hchar : ∀ c ∈ name.toList, Text.isBlank c = false ∧ c ≠ '=' ∧ c ≠ '/' ∧ c ≠ '>' := by
    intro c hc
    have := h c hc
    simpa [Source.isNameChar, and_assoc] using this
  exact ⟨fun c hc => (hchar c hc).1, fun hc => (hchar _ hc).2.1 rfl,
    fun hc => (hchar _ hc).2.2.1 rfl, fun hc => (hchar _ hc).2.2.2 rfl⟩

theorem IsName.isNameChar {name : String} (h : IsName name) :
    ∀ c ∈ name.toList, Source.isNameChar c = true := by
  intro c hc
  have hequals : c ≠ '=' := by rintro rfl; exact h.no_equals hc
  have hslash : c ≠ '/' := by rintro rfl; exact h.no_slash hc
  have hend : c ≠ '>' := by rintro rfl; exact h.no_end hc
  simp [Source.isNameChar, h.no_blank c hc, hequals, hslash, hend]

theorem isName_takeWhile (cs : List Char) :
    IsName (String.ofList (cs.takeWhile Source.isNameChar)) := by
  refine IsName.of_isNameChar fun c hc => ?_
  rw [String.toList_ofList] at hc
  exact List.all_eq_true.1 List.all_takeWhile c hc

/-- The name of a component begins with a letter, so it may be the name of an element. -/
theorem Attribute.isTagName_of_isComponent {attr : Attribute} (hname : IsName attr.name)
    (hcomponent : attr.isComponent = true) : IsTagName attr.name := by
  refine ⟨hname, ?_⟩
  rintro ⟨rest, hrest⟩
  have hletter : Text.isCapital '!' = false := by decide
  simp [isComponent, isComponentName, ← hrest, hletter] at hcomponent

-- ---------------------------------------------------------------------------
-- Trees
-- ---------------------------------------------------------------------------

/-- The nodes that can stand in a compiled tree, with all that is below them. -/
inductive Node.WellFormed : Node → Prop where
  /-- An element that was written: none of its properties is a component. -/
  | plain {tag : String} {props : List Attribute} {children : List Node} (htag : IsTagName tag)
      (hnames : ∀ attr ∈ props, IsName attr.name)
      (hplain : ∀ attr ∈ props, attr.isComponent = false)
      (hchildren : ∀ child ∈ children, WellFormed child) :
      WellFormed (.element tag props children)
  /-- An element that stands for a component: it is around one element and has the component as its
  only property and as its name. -/
  | wrapper {attr : Attribute} {tag : String} {props : List Attribute} {children : List Node}
      (hname : IsTagName attr.name) (hcomponent : attr.isComponent = true)
      (hinner : WellFormed (.element tag props children)) :
      WellFormed (.element attr.name [attr] [.element tag props children])
  | text {raw : String} (hraw : IsTextRun raw) : WellFormed (.text raw)
  | binding {e : Expression} : WellFormed (.binding e)

def Root.WellFormed (root : Root) : Prop :=
  ∀ node ∈ root.children, node.WellFormed

namespace Node

theorem wellFormed_wrap {components : List Attribute}
    (hnames : ∀ attr ∈ components, IsName attr.name)
    (hcomponents : ∀ attr ∈ components, attr.isComponent = true) {tag : String}
    {props : List Attribute} {children : List Node}
    (h : (element tag props children).WellFormed) :
    ((element tag props children).wrap components).WellFormed := by
  induction components generalizing tag props children with
  | nil => exact h
  | cons attr components ih =>
    have hcomponent := hcomponents attr List.mem_cons_self
    have hname := hnames attr List.mem_cons_self
    -- the wrapper is an element again, so the next one may go around it
    exact ih (fun a ha => hnames a (List.mem_cons_of_mem attr ha))
      (fun a ha => hcomponents a (List.mem_cons_of_mem attr ha))
      (.wrapper (attr.isTagName_of_isComponent hname hcomponent) hcomponent h)

theorem wellFormed_ofTag {tag : String} {attrs : List Attribute} {children : List Node}
    (htag : IsTagName tag) (hattrs : ∀ attr ∈ attrs, IsName attr.name)
    (hchildren : ∀ child ∈ children, child.WellFormed) :
    (ofTag tag attrs children).WellFormed := by
  refine wellFormed_wrap ?_ ?_ (.plain htag ?_ ?_ hchildren)
  · intro attr hattr
    exact hattrs attr (List.mem_filter.1 hattr).1
  · intro attr hattr
    exact (List.mem_filter.1 hattr).2
  · intro attr hattr
    exact hattrs attr (List.mem_filter.1 hattr).1
  · intro attr hattr
    simpa using (List.mem_filter.1 hattr).2

end Node

-- ---------------------------------------------------------------------------
-- Items
-- ---------------------------------------------------------------------------

namespace Source

theorem isName_readAttribute (cs : List Char) : IsName (readAttribute cs).1.name := by
  rw [readAttribute]
  split <;> exact isName_takeWhile cs

theorem isName_of_mem_readAttributes {cs : List Char} {attr : Attribute}
    (h : attr ∈ (readAttributes cs).1) : IsName attr.name := by
  fun_induction readAttributes cs with
  | case1 => simp at h
  | case2 => simp at h
  | case3 c cs _ _ ih => exact ih h
  | case4 c cs _ _ first others ih =>
    rcases List.mem_cons.1 h with rfl | h
    · exact isName_readAttribute (c :: cs)
    · exact ih h

/-- The items that can be read from a text. -/
def Item.WellFormed : Item → Prop
  | .opening tag attrs | .leaf tag attrs => IsTagName tag ∧ ∀ attr ∈ attrs, IsName attr.name
  | .text raw => IsTextRun raw
  | .closing _ | .binding _ | .blank | .comment => True

/-- A tag that is read where no comment begins has the name of an element. -/
theorem Item.wellFormed_readTag {cs : List Char} (h : ¬['!', '-', '-'] <+: cs) :
    (readTag cs).1.WellFormed := by
  have htag : IsTagName (String.ofList (cs.takeWhile isNameChar)) := by
    refine ⟨isName_takeWhile cs, fun hcomment => h ?_⟩
    rw [String.toList_ofList] at hcomment
    exact hcomment.trans (List.takeWhile_prefix isNameChar)
  have hattrs : ∀ attr ∈ (readAttributes (cs.dropWhile isNameChar)).1, IsName attr.name :=
    fun attr => isName_of_mem_readAttributes
  rw [readTag]
  split <;> exact ⟨htag, hattrs⟩

end Source

-- ---------------------------------------------------------------------------
-- Texts behind their escapes
-- ---------------------------------------------------------------------------

namespace Text

/-- No reference stands for a brace. -/
theorem ne_brace_of_reference? {cs rest : List Char} {c : Char}
    (h : reference? cs = some (c, rest)) : c ≠ '{' := by
  rw [reference?.eq_def] at h
  split at h <;> simp only [Option.some.injEq, Prod.mk.injEq, reduceCtorEq] at h
  all_goals
    obtain ⟨rfl, -⟩ := h
    decide

theorem escapeChar_eq_cons {c : Char} (hc : c ≠ '{') :
    ∃ d rest, escapeChar c = d :: rest ∧ d ≠ '{' := by
  unfold escapeChar
  split
  · exact ⟨'\\', ['"'], rfl, by decide⟩
  · split
    · exact ⟨'\\', ['\\'], rfl, by decide⟩
    · split
      · exact ⟨'\\', ['n'], rfl, by decide⟩
      · exact ⟨c, [], rfl, hc⟩

/-- An escaped text begins with the escape of a character, and with a brace only if the text does. -/
theorem escaped_eq_cons {c : Char} (hc : c ≠ '{') (cs : List Char) :
    ∃ d rest, escaped (c :: cs) = d :: rest ∧ d ≠ '{' := by
  cases href : reference? (c :: cs) with
  | none =>
    obtain ⟨d, rest, hescape, hd⟩ := escapeChar_eq_cons hc
    exact ⟨d, rest ++ escaped cs, by rw [escaped_of_none href, hescape]; rfl, hd⟩
  | some found =>
    obtain ⟨e, behind⟩ := found
    obtain ⟨d, rest, hescape, hd⟩ := escapeChar_eq_cons (ne_brace_of_reference? href)
    exact ⟨d, rest ++ escaped behind, by rw [escaped_of_reference? href, hescape]; rfl, hd⟩

end Text

theorem isTextRun_escaped {c : Char} (hc : c ≠ '{') (cs : List Char) :
    IsTextRun (String.ofList (Text.escaped (c :: cs))) := by
  obtain ⟨d, rest, hescaped, hd⟩ := Text.escaped_eq_cons hc cs
  rw [hescaped]
  constructor
  · simp
  · simpa using hd

namespace Source

theorem Item.wellFormed_readText {c : Char} (htag : c ≠ '<') (hbrace : c ≠ '{') (cs : List Char) :
    (readText (c :: cs)).1.WellFormed := by
  have hrun : (c :: cs).takeWhile (· != '<') = c :: cs.takeWhile (· != '<') := by
    simp [htag]
  rw [readText, hrun]
  dsimp only
  split
  · trivial
  · exact isTextRun_escaped hbrace _

/-- Whatever a text holds, the item at its front is well formed. -/
theorem Item.wellFormed_read (c : Char) (cs : List Char) : (read c cs).1.WellFormed := by
  rw [read.eq_def]
  split
  · split
    · trivial
    · trivial
    · next hcomment _ =>
      refine wellFormed_readTag ?_
      rintro ⟨rest, rfl⟩
      exact hcomment rest rfl
  · next htag =>
    split
    · trivial
    · next hbrace => exact wellFormed_readText htag hbrace cs

theorem wellFormed_of_mem_items {text : List Char} {item : Item} (h : item ∈ items text) :
    item.WellFormed := by
  obtain ⟨lexeme, hlexeme, rfl⟩ := List.mem_map.1 h
  obtain ⟨before, after, hrow⟩ := List.append_of_mem hlexeme
  obtain ⟨c, cs, -, -, hitem, -⟩ := lexemesFrom_split hrow
  rw [hitem]
  exact Item.wellFormed_read c cs

end Source

-- ---------------------------------------------------------------------------
-- The builder
-- ---------------------------------------------------------------------------

open Source (Lexeme)

structure OpenElement.WellFormed (element : OpenElement) : Prop where
  tag : IsTagName element.tag
  attrs : ∀ attr ∈ element.attrs, IsName attr.name
  children : ∀ child ∈ element.children, child.WellFormed

/-- Closing an element, in whichever way, makes a well-formed node. -/
theorem OpenElement.WellFormed.node {element : OpenElement} (h : element.WellFormed) :
    element.node.WellFormed :=
  Node.wellFormed_ofTag h.tag h.attrs h.children

theorem OpenElement.WellFormed.push {element : OpenElement} {node : Node} (h : element.WellFormed)
    (hnode : node.WellFormed) : (element.push node).WellFormed := by
  refine ⟨h.tag, h.attrs, fun child hchild => ?_⟩
  rcases List.mem_append.1 hchild with hold | hnew
  · exact h.children child hold
  · rw [List.mem_singleton.1 hnew]
    exact hnode

/-- What is there of a tree is well formed, and so is what still waits to be closed. -/
structure Build.WellFormed (build : Build) : Prop where
  top : ∀ node ∈ build.top, node.WellFormed
  stack : ∀ element ∈ build.stack, element.WellFormed

namespace Build

theorem wellFormed_empty : ({} : Build).WellFormed :=
  ⟨by simp, by simp⟩

theorem WellFormed.insert {build : Build} {node : Node} (h : build.WellFormed)
    (hnode : node.WellFormed) : (build.insert node).WellFormed := by
  obtain ⟨top, stack, journal⟩ := build
  cases stack with
  | nil =>
    refine ⟨fun other hother => ?_, h.stack⟩
    rcases List.mem_append.1 hother with hold | hnew
    · exact h.top other hold
    · rw [List.mem_singleton.1 hnew]
      exact hnode
  | cons inner outer =>
    obtain ⟨hinner, houter⟩ := List.forall_mem_cons.1 h.stack
    exact ⟨h.top, List.forall_mem_cons.2 ⟨hinner.push hnode, houter⟩⟩

theorem WellFormed.close {build : Build} (h : build.WellFormed) (development : Bool)
    (name : String) (start : Nat) : (build.close development name start).WellFormed := by
  obtain ⟨top, stack, journal⟩ := build
  cases stack with
  | nil => exact ⟨h.top, h.stack⟩
  | cons inner outer =>
    obtain ⟨hinner, houter⟩ := List.forall_mem_cons.1 h.stack
    refine WellFormed.insert ⟨?_, houter⟩ hinner.node
    dsimp only
    split
    · exact h.top
    · exact h.top

theorem wellFormed_step (development : Bool) {build : Build} {lexeme : Lexeme}
    (h : build.WellFormed) (hitem : lexeme.item.WellFormed) :
    (build.step development lexeme).WellFormed := by
  obtain ⟨start, source, item⟩ := lexeme
  cases item with
  | opening tag attrs =>
    have hopen : OpenElement.WellFormed ⟨tag, attrs, [], start⟩ :=
      ⟨hitem.1, hitem.2, by simp⟩
    exact ⟨h.top, List.forall_mem_cons.2 ⟨hopen, h.stack⟩⟩
  | leaf tag attrs => exact h.insert (Node.wellFormed_ofTag hitem.1 hitem.2 (by simp))
  | closing name => exact h.close development name start
  | text raw => exact h.insert (.text hitem)
  | binding e => exact h.insert .binding
  | blank => exact h
  | comment => exact h

theorem wellFormed_run (development : Bool) {build : Build} {row : List Lexeme}
    (h : build.WellFormed) (hrow : ∀ lexeme ∈ row, lexeme.item.WellFormed) :
    (build.run development row).WellFormed := by
  induction row generalizing build with
  | nil => exact h
  | cons lexeme row ih =>
    obtain ⟨hlexeme, hrow⟩ := List.forall_mem_cons.1 hrow
    exact ih (wellFormed_step development h hlexeme) hrow

theorem wellFormed_finishWith (development : Bool) {top last : List Node}
    {stack : List OpenElement} (journal : Journal) (htop : ∀ node ∈ top, node.WellFormed)
    (hlast : ∀ node ∈ last, node.WellFormed) (hstack : ∀ element ∈ stack, element.WellFormed) :
    (finishWith development top last stack journal).WellFormed := by
  induction stack generalizing last journal with
  | nil =>
    refine ⟨fun node hnode => ?_, by simp [finishWith]⟩
    rcases List.mem_append.1 hnode with hnode | hnode
    · exact htop node hnode
    · exact hlast node hnode
  | cons inner outer ih =>
    obtain ⟨hinner, houter⟩ := List.forall_mem_cons.1 hstack
    have hclosed : OpenElement.WellFormed { inner with children := inner.children ++ last } := by
      refine ⟨hinner.tag, hinner.attrs, fun child hchild => ?_⟩
      rcases List.mem_append.1 hchild with hchild | hchild
      · exact hinner.children child hchild
      · exact hlast child hchild
    rw [finishWith]
    refine ih _ (fun node hnode => ?_) houter
    rw [List.mem_singleton.1 hnode]
    exact hclosed.node

theorem wellFormed_finish (development : Bool) {build : Build} (h : build.WellFormed) :
    (build.finish development).WellFormed :=
  wellFormed_finishWith development build.journal h.top (by simp) h.stack

/-- On the way through a text, what is built is always well formed. -/
theorem wellFormed_run_lexemes (development : Bool) {text : List Char} {before after : List Lexeme}
    (h : Source.lexemes text = before ++ after) :
    (({} : Build).run development before).WellFormed := by
  refine wellFormed_run development wellFormed_empty fun lexeme hlexeme => ?_
  have hmem : lexeme ∈ Source.lexemes text := by
    rw [h]
    exact List.mem_append_left after hlexeme
  have hitem : lexeme.item ∈ Source.items text := List.mem_map.2 ⟨lexeme, hmem, rfl⟩
  exact Source.wellFormed_of_mem_items hitem

end Build

-- ---------------------------------------------------------------------------
-- Compilation
-- ---------------------------------------------------------------------------

/-- **Every tree is well formed.** Whatever the source and the options, at every level of the tree
there are only elements without components, wrappers around one element, texts and bindings, and
their names and texts are as they should be. -/
theorem compile_wellFormed (options : CompileOptions) (source : String) :
    (compile options source).root.WellFormed := by
  have hrow : Source.lexemes (options.prepare source.toList) =
      Source.lexemes (options.prepare source.toList) ++ [] := (List.append_nil _).symm
  have hrun := Build.wellFormed_run_lexemes options.development hrow
  exact (Build.wellFormed_finish options.development hrun).top

end Stencil
