import Stencil.Proofs.LiteralBody
import Stencil.Proofs.WellFormed
import Stencil.Tree.Outline

/-!
# What an outline shows

An outline does not show a tree without loss: two attributes may look like one whose value holds a
quote. But it shows the tree's skeleton, that is which elements, texts and bindings there are, where
they stand, the names of the elements and what the texts say. Indentation is not needed for that.
The lines of an outline can be told apart by their first and last characters, whatever stands in the
attributes of a tag: attributes end with a name, a quote or a brace, so the end mark of a tag that
opens an element never looks like that of an empty one. So an outline is read line by line as a row
of items (`lineItem`), and such a row describes a forest, as the items of a source do.

Line feeds are what an outline cannot bear. The names and texts of a compiled tree have none
(`Part.Tidy`), and for attribute values and expressions it has to be asked for (`Part.FitsLine`).

Main results:

* `Source.forest_shown`: the items that the lines of a tree show describe its skeleton;
* `Node.lines_shown`: the lines of a node can be told apart and show just these items;
* `Root.nodesOfOutline_outline`: an outline is read back as the skeleton, however it is indented;
* `outline_determines_skeleton`: two compiled trees with one outline have one skeleton.
-/

namespace Stencil

open Source (Item isNameChar enclosed forest)

-- ---------------------------------------------------------------------------
-- Skeletons
-- ---------------------------------------------------------------------------

namespace Node

mutual

/-- A node without its attributes and without what its expressions say. -/
def skeleton : Node → Node
  | .element tag _ children => .element tag [] (skeletonList children)
  | .text raw => .text raw
  | .binding _ => .binding ⟨"", false⟩

def skeletonList : List Node → List Node
  | [] => []
  | node :: nodes => skeleton node :: skeletonList nodes

end

theorem skeletonList_eq_map (nodes : List Node) : skeletonList nodes = nodes.map skeleton := by
  induction nodes with
  | nil => rfl
  | cons node nodes ih => rw [skeletonList, ih, List.map_cons]

end Node

def Root.skeleton (root : Root) : Root where
  children := Node.skeletonList root.children

-- ---------------------------------------------------------------------------
-- Reading an outline
-- ---------------------------------------------------------------------------

/-- The characters that lines are indented with. -/
def isIndent (c : Char) : Bool :=
  c == ' ' || c == '\t'

/-- The item that a line shows, behind its indentation. -/
def lineItem : List Char → Item
  | '<' :: '/' :: cs => .closing (String.ofList cs.dropLast)
  | '<' :: cs =>
    let tag := String.ofList (cs.takeWhile isNameChar)
    if ['/', '>'] <:+ cs then .leaf tag [] else .opening tag []
  | '"' :: cs => .text (String.ofList cs.dropLast)
  | _ => .binding ⟨"", false⟩

/-- The nodes that an outline shows, however its lines are indented. -/
def nodesOfOutline (outline : List Char) : List Node :=
  -- behind the last line feed there is no line
  forest ((outline.splitOn '\n').dropLast.map fun line => lineItem (line.dropWhile isIndent))

-- ---------------------------------------------------------------------------
-- The items of a tree
-- ---------------------------------------------------------------------------

namespace Node

mutual

/-- The items that the lines of a node show. -/
def shown : Node → List Item
  | .element tag _ children =>
    match children with
    | [] => [.leaf tag []]
    | child :: others => .opening tag [] :: (shown child ++ shownList others ++ [.closing tag])
  | .text raw => [.text raw]
  | .binding _ => [.binding ⟨"", false⟩]

def shownList : List Node → List Item
  | [] => []
  | node :: nodes => shown node ++ shownList nodes

end

theorem shownList_eq_flatMap (nodes : List Node) : shownList nodes = nodes.flatMap shown := by
  induction nodes with
  | nil => rfl
  | cons node nodes ih => rw [shownList, ih, List.flatMap_cons]

theorem shown_element_cons (tag : String) (props : List Attribute) (child : Node)
    (others : List Node) :
    (element tag props (child :: others)).shown =
      .opening tag [] :: ((child :: others).flatMap shown ++ [.closing tag]) := by
  rw [shown, shownList_eq_flatMap, List.flatMap_cons]

end Node

namespace Source

theorem enclosed_flatMap_shown {nodes : List Node}
    (h : ∀ node ∈ nodes, ∀ depth more,
      enclosed depth (node.shown ++ more) =
        (node.shown ++ (enclosed depth more).1, (enclosed depth more).2))
    (depth : Nat) (more : List Item) :
    enclosed depth (nodes.flatMap Node.shown ++ more) =
      (nodes.flatMap Node.shown ++ (enclosed depth more).1, (enclosed depth more).2) := by
  induction nodes with
  | nil => rfl
  | cons node nodes ih =>
    obtain ⟨hnode, hnodes⟩ := List.forall_mem_cons.1 h
    rw [List.flatMap_cons, List.append_assoc, hnode, ih hnodes, List.append_assoc]

/-- Every element that a node opens it closes, so its items are never cut by the closing tag of an
element around it. -/
theorem enclosed_shown (node : Node) (depth : Nat) (more : List Item) :
    enclosed depth (node.shown ++ more) =
      (node.shown ++ (enclosed depth more).1, (enclosed depth more).2) := by
  induction node using Node.rec_mem generalizing depth more with
  | element tag props children ih =>
    cases children with
    | nil => simp [Node.shown, enclosed]
    | cons child others =>
      have hinner := enclosed_flatMap_shown ih (depth + 1) (.closing tag :: more)
      rw [Node.shown_element_cons, List.cons_append, List.append_assoc, List.singleton_append,
        enclosed, hinner]
      simp [enclosed]
  | text raw => simp [Node.shown, enclosed]
  | binding e => simp [Node.shown, enclosed]

theorem forest_flatMap_shown {nodes : List Node}
    (h : ∀ node ∈ nodes, ∀ more, forest (node.shown ++ more) = node.skeleton :: forest more)
    (more : List Item) :
    forest (nodes.flatMap Node.shown ++ more) = nodes.map Node.skeleton ++ forest more := by
  induction nodes with
  | nil => rfl
  | cons node nodes ih =>
    obtain ⟨hnode, hnodes⟩ := List.forall_mem_cons.1 h
    rw [List.flatMap_cons, List.append_assoc, hnode, ih hnodes, List.map_cons, List.cons_append]

/-- The items that the lines of a node show describe its skeleton, in front of what follows. -/
theorem forest_shown (node : Node) (more : List Item) :
    forest (node.shown ++ more) = node.skeleton :: forest more := by
  induction node using Node.rec_mem generalizing more with
  | element tag props children ih =>
    have htagged : ∀ nodes, Node.tagged tag [] nodes = .element tag [] nodes := fun nodes => rfl
    cases children with
    | nil =>
      rw [Node.shown, List.singleton_append, forest, htagged, Node.skeleton, Node.skeletonList]
    | cons child others =>
      have hsplit : enclosed 0 ((child :: others).flatMap Node.shown ++ .closing tag :: more) =
          ((child :: others).flatMap Node.shown, more) := by
        rw [enclosed_flatMap_shown fun node _ => enclosed_shown node]
        simp [enclosed]
      have hinside := forest_flatMap_shown ih []
      rw [List.append_nil, forest, List.append_nil] at hinside
      rw [Node.shown_element_cons, List.cons_append, List.append_assoc, List.singleton_append,
        forest, hsplit, htagged, hinside, Node.skeleton, Node.skeletonList_eq_map]
  | text raw => rw [Node.shown, List.singleton_append, forest, Node.skeleton]
  | binding e => rw [Node.shown, List.singleton_append, forest, Node.skeleton]

end Source

-- ---------------------------------------------------------------------------
-- Parts that fit into lines
-- ---------------------------------------------------------------------------

/-- What every part of a compiled tree is: names are names, and a text has no line feed. -/
def Part.Tidy : Part → Prop
  | .element tag props => IsName tag ∧ ∀ attr ∈ props, IsName attr.name
  | .text raw => '\n' ∉ raw.toList
  | .binding _ => True

/-- No value of an attribute and no expression has a line feed. -/
def Part.FitsLine : Part → Prop
  | .element _ props => ∀ attr ∈ props, '\n' ∉ attr.value.text.toList
  | .text _ => True
  | .binding e => '\n' ∉ e.text.toList

instance : DecidablePred Part.FitsLine
  | .element _ props => inferInstanceAs (Decidable (∀ attr ∈ props, '\n' ∉ attr.value.text.toList))
  | .text _ => inferInstanceAs (Decidable True)
  | .binding e => inferInstanceAs (Decidable ('\n' ∉ e.text.toList))

/-- A tree in which no value of an attribute and no expression has a line feed. -/
def Root.FitsLines (root : Root) : Prop :=
  ∀ part ∈ root.children.flatMap Node.parts, part.FitsLine

instance : DecidablePred Root.FitsLines := fun root =>
  inferInstanceAs (Decidable (∀ part ∈ root.children.flatMap Node.parts, part.FitsLine))

theorem Text.IsLiteralBody.no_newline {cs : List Char} (h : IsLiteralBody cs) : '\n' ∉ cs := by
  induction h with
  | nil => simp
  | plain _ _ hline _ ih => simp [ih, Ne.symm hline]
  | escape hc _ ih => rcases hc with rfl | rfl | rfl <;> simpa using ih

theorem Part.tidy_of_mem_ofTag {tag : String} {attrs : List Attribute} {part : Part}
    (htag : IsName tag) (hattrs : ∀ attr ∈ attrs, IsName attr.name) (h : part ∈ ofTag tag attrs) :
    part.Tidy := by
  rcases List.mem_append.1 h with hwrapper | helement
  · obtain ⟨attr, hattr, rfl⟩ := List.mem_map.1 hwrapper
    have hname := hattrs attr (List.mem_of_mem_filter (List.mem_reverse.1 hattr))
    exact ⟨hname, by simpa using hname⟩
  · rw [List.mem_singleton.1 helement]
    exact ⟨htag, fun attr hattr => hattrs attr (List.mem_of_mem_filter hattr)⟩

/-- The parts of a compiled tree come from items, whose names were read as names and whose texts
were escaped. -/
theorem tidy_of_mem_parts {options : CompileOptions} {source : String} {part : Part}
    (h : part ∈ (compile options source).root.children.flatMap Node.parts) : part.Tidy := by
  obtain ⟨item, hitem, hpart⟩ := exists_item_of_mem_parts h
  have hwell := Source.wellFormed_of_mem_items hitem
  cases item with
  | opening tag attrs => exact Part.tidy_of_mem_ofTag hwell.1.toIsName hwell.2 hpart
  | leaf tag attrs => exact Part.tidy_of_mem_ofTag hwell.1.toIsName hwell.2 hpart
  | text raw =>
    obtain rfl := List.mem_singleton.1 hpart
    obtain ⟨run, rfl⟩ := exists_run_of_mem_parts h
    show '\n' ∉ (String.ofList (Text.escaped run)).toList
    rw [String.toList_ofList]
    exact (Text.isLiteralBody_escaped run).no_newline
  | binding e =>
    rw [List.mem_singleton.1 hpart]
    trivial
  | closing _ | blank | comment => cases hpart

-- ---------------------------------------------------------------------------
-- Lines
-- ---------------------------------------------------------------------------

/-- A text that can be a line: it does not go on behind a line feed, and does not look indented. -/
structure IsLine (text : List Char) : Prop where
  no_newline : '\n' ∉ text
  not_indented : ∀ c, text.head? = some c → isIndent c = false

/-- A line begins with one of three marks, and none of them indents. -/
theorem isLine_of_cons {c : Char} {cs : List Char} (hc : c = '<' ∨ c = '"' ∨ c = '{')
    (hcs : '\n' ∉ cs) : IsLine (c :: cs) := by
  constructor
  · rw [List.mem_cons, not_or]
    refine ⟨?_, hcs⟩
    rcases hc with rfl | rfl | rfl <;> decide
  · intro d hd
    obtain rfl := Option.some.inj hd
    rcases hc with rfl | rfl | rfl <;> decide

theorem lineItem_of_ne_slash {cs : List Char} (h : cs.head? ≠ some '/') :
    lineItem ('<' :: cs) =
      if ['/', '>'] <:+ cs then .leaf (String.ofList (cs.takeWhile isNameChar)) []
      else .opening (String.ofList (cs.takeWhile isNameChar)) [] := by
  rw [lineItem]
  rintro rest rfl
  exact h rfl

theorem IsName.no_newline {name : String} (h : IsName name) : '\n' ∉ name.toList := by
  intro hc
  exact absurd (h.no_blank _ hc) (by decide)

theorem Expression.newline_not_mem_outline {e : Expression} (h : '\n' ∉ e.text.toList) :
    '\n' ∉ e.outline := by
  rw [outline]
  split <;> simp [h]

theorem Attribute.newline_not_mem_outline {attr : Attribute} (hname : IsName attr.name)
    (hvalue : '\n' ∉ attr.value.text.toList) : '\n' ∉ attr.outline := by
  have hchars := hname.no_newline
  rw [outline]
  split
  · next text htext =>
    rw [htext] at hvalue
    have htextChars : '\n' ∉ text.toList := hvalue
    split <;> simp [hchars, htextChars]
  · next e he =>
    rw [he] at hvalue
    simp [hchars, Expression.newline_not_mem_outline hvalue]

theorem getLast?_append_ne {as bs : List Char} {c : Char} (has : as.getLast? ≠ some c)
    (hbs : bs.getLast? ≠ some c) : (as ++ bs).getLast? ≠ some c := by
  rw [List.getLast?_append]
  cases hlast : bs.getLast? with
  | none => simpa using has
  | some d => rwa [hlast] at hbs

/-- An attribute ends with its name, a quote or a brace, and not with a slash. -/
theorem Attribute.getLast?_outline {attr : Attribute} (hname : IsName attr.name) :
    attr.outline.getLast? ≠ some '/' := by
  rw [outline]
  split
  · split
    · exact fun hlast => hname.no_slash (List.mem_of_getLast? hlast)
    · rw [List.getLast?_concat]
      decide
  · next e _ =>
    have hend : e.outline.getLast? = some '}' := by
      rw [Expression.outline]
      split <;> exact List.getLast?_concat
    refine getLast?_append_ne (fun hlast => hname.no_slash (List.mem_of_getLast? hlast)) ?_
    rw [List.getLast?_cons, hend]
    decide

section

variable {tag : String} {props : List Attribute}

/-- The attributes of a tag as they stand in its line. -/
def propsOutline (props : List Attribute) : List Char :=
  props.flatMap fun attr => ' ' :: attr.outline

theorem tagOutline_append (tag : String) (props : List Attribute) (ending : List Char) :
    tagOutline tag props ++ ending = '<' :: (tag.toList ++ (propsOutline props ++ ending)) := by
  rw [tagOutline, propsOutline, List.append_assoc, List.cons_append]

theorem head?_propsOutline {ending : List Char} {c : Char}
    (h : (propsOutline props ++ ending).head? = some c) : c = ' ' ∨ ending.head? = some c := by
  cases props with
  | nil => exact Or.inr h
  | cons attr props => exact Or.inl (Option.some.inj h).symm

theorem newline_not_mem_propsOutline (htidy : (Part.element tag props).Tidy)
    (hfits : (Part.element tag props).FitsLine) : '\n' ∉ propsOutline props := by
  intro hmem
  obtain ⟨attr, hattr, hc⟩ := List.mem_flatMap.1 hmem
  rcases List.mem_cons.1 hc with hspace | hc
  · cases hspace
  · exact Attribute.newline_not_mem_outline (htidy.2 attr hattr) (hfits attr hattr) hc

theorem getLast?_propsOutline (hprops : ∀ attr ∈ props, IsName attr.name) :
    (propsOutline props).getLast? ≠ some '/' := by
  induction props with
  | nil => simp [propsOutline]
  | cons attr props ih =>
    obtain ⟨hattr, hprops⟩ := List.forall_mem_cons.1 hprops
    have hspace : [' '].getLast? ≠ some '/' := by decide
    have hfirst := getLast?_append_ne hspace (Attribute.getLast?_outline hattr)
    exact getLast?_append_ne hfirst (ih hprops)

theorem isLine_tag (htidy : (Part.element tag props).Tidy)
    (hfits : (Part.element tag props).FitsLine) {ending : List Char} (hending : '\n' ∉ ending) :
    IsLine (tagOutline tag props ++ ending) := by
  rw [tagOutline_append]
  refine isLine_of_cons (Or.inl rfl) ?_
  simp [htidy.1.no_newline, newline_not_mem_propsOutline htidy hfits, hending]

/-- The line of a tag shows its name, and whether the element is empty by what it ends with. -/
theorem lineItem_tag (htag : IsName tag) {ending : List Char}
    (hending : ∀ c, ending.head? = some c → c = ' ' ∨ c = '>') :
    lineItem (tagOutline tag props ++ ending) =
      if ['/', '>'] <:+ tag.toList ++ (propsOutline props ++ ending) then .leaf tag []
      else .opening tag [] := by
  have hbehind : ∀ c, (propsOutline props ++ ending).head? = some c → c = ' ' ∨ c = '>' := by
    intro c hc
    rcases head?_propsOutline hc with hspace | hc
    · exact Or.inl hspace
    · exact hending c hc
  have hspan := (Source.span_append htag.isNameChar (propsOutline props ++ ending) fun c hc => by
    rcases hbehind c hc with rfl | rfl <;> decide).1
  -- a name has no slash, so this is not the line of a closing tag
  have hslash : (tag.toList ++ (propsOutline props ++ ending)).head? ≠ some '/' := by
    intro hc
    cases hname : tag.toList with
    | nil =>
      rw [hname] at hc
      rcases hbehind '/' hc with h | h <;> cases h
    | cons d ds =>
      rw [hname] at hc
      exact htag.no_slash (by simp [hname, Option.some.inj hc])
  rw [tagOutline_append, lineItem_of_ne_slash hslash, hspan, String.ofList_toList]

theorem lineItem_leaf (htag : IsName tag) :
    lineItem (tagOutline tag props ++ [' ', '/', '>']) = .leaf tag [] := by
  rw [lineItem_tag htag (by simp), if_pos]
  exact ⟨tag.toList ++ (propsOutline props ++ [' ']), by simp⟩

theorem lineItem_opening (htidy : (Part.element tag props).Tidy) :
    lineItem (tagOutline tag props ++ ['>']) = .opening tag [] := by
  rw [lineItem_tag htidy.1 (by simp), if_neg]
  rintro ⟨front, hfront⟩
  -- what stands in front of the end mark would end with a slash
  have hslash : front ++ ['/'] = tag.toList ++ propsOutline props :=
    (List.append_left_inj ['>']).1 (by simpa using hfront)
  have hlast := congrArg List.getLast? hslash
  rw [List.getLast?_concat] at hlast
  exact getLast?_append_ne (fun h => htidy.1.no_slash (List.mem_of_getLast? h))
    (getLast?_propsOutline htidy.2) hlast.symm

end

theorem lineItem_closing (tag : String) :
    lineItem ('<' :: '/' :: tag.toList ++ ['>']) = .closing tag := by
  rw [List.cons_append, List.cons_append, lineItem, List.dropLast_concat, String.ofList_toList]

theorem lineItem_text (raw : String) : lineItem ('"' :: raw.toList ++ ['"']) = .text raw := by
  rw [List.cons_append, lineItem, List.dropLast_concat, String.ofList_toList]

theorem lineItem_binding (e : Expression) : lineItem e.outline = .binding ⟨"", false⟩ := by
  rw [Expression.outline]
  split <;> rfl

/-- Lines that can be told apart from each other and from their indentation, and the items that
they show. -/
structure Shows (lines : List OutlineLine) (items : List Item) : Prop where
  isLine : ∀ line ∈ lines, IsLine line.text
  items : lines.map (fun line => lineItem line.text) = items

namespace Shows

theorem single {level : Nat} {text : List Char} {item : Item} (hline : IsLine text)
    (hitem : lineItem text = item) : Shows [⟨level, text⟩] [item] := by
  refine ⟨fun line hmem => ?_, ?_⟩
  · rw [List.mem_singleton.1 hmem]
    exact hline
  · rw [List.map_singleton, hitem]

theorem append {front back : List OutlineLine} {items others : List Item}
    (hfront : Shows front items) (hback : Shows back others) :
    Shows (front ++ back) (items ++ others) := by
  refine ⟨fun line hmem => ?_, ?_⟩
  · rcases List.mem_append.1 hmem with hmem | hmem
    · exact hfront.isLine line hmem
    · exact hback.isLine line hmem
  · rw [List.map_append, hfront.items, hback.items]

theorem flatMap {nodes : List Node} {level : Nat}
    (h : ∀ node ∈ nodes, Shows (node.lines level) node.shown) :
    Shows (nodes.flatMap (Node.lines level)) (nodes.flatMap Node.shown) := by
  induction nodes with
  | nil => exact ⟨by simp, rfl⟩
  | cons node nodes ih =>
    obtain ⟨hnode, hnodes⟩ := List.forall_mem_cons.1 h
    rw [List.flatMap_cons, List.flatMap_cons]
    exact hnode.append (ih hnodes)

end Shows

namespace Node

theorem lines_element_cons (level : Nat) (tag : String) (props : List Attribute) (child : Node)
    (others : List Node) :
    (element tag props (child :: others)).lines level =
      [⟨level, tagOutline tag props ++ ['>']⟩] ++
        ((child :: others).flatMap (lines (level + 1)) ++
          [⟨level, '<' :: '/' :: tag.toList ++ ['>']⟩]) := by
  rw [lines, linesList_eq_flatMap, List.flatMap_cons]
  rfl

/-- The lines of a node show the items of its skeleton. -/
theorem lines_shown {node : Node} (h : ∀ part ∈ node.parts, part.Tidy ∧ part.FitsLine)
    (level : Nat) : Shows (node.lines level) node.shown := by
  induction node using Node.rec_mem generalizing level with
  | element tag props children ih =>
    rw [parts, partsList_eq_flatMap] at h
    obtain ⟨⟨htag, hfits⟩, hchildren⟩ := List.forall_mem_cons.1 h
    cases children with
    | nil =>
      rw [lines, shown]
      exact .single (isLine_tag htag hfits (by simp)) (lineItem_leaf htag.1)
    | cons child others =>
      have hinside : Shows ((child :: others).flatMap (lines (level + 1)))
          ((child :: others).flatMap shown) :=
        .flatMap fun node hnode => ih node hnode
          (fun part hpart => hchildren part (List.mem_flatMap.2 ⟨node, hnode, hpart⟩)) (level + 1)
      have hopening : Shows [⟨level, tagOutline tag props ++ ['>']⟩] [.opening tag []] :=
        .single (isLine_tag htag hfits (by simp)) (lineItem_opening htag)
      have hclosing : Shows [⟨level, '<' :: '/' :: tag.toList ++ ['>']⟩] [.closing tag] :=
        .single (isLine_of_cons (Or.inl rfl) (by simp [htag.1.no_newline])) (lineItem_closing tag)
      rw [lines_element_cons, shown_element_cons]
      exact hopening.append (hinside.append hclosing)
  | text raw =>
    have hraw : '\n' ∉ raw.toList := (h (.text raw) (by simp [parts])).1
    rw [lines, shown]
    exact .single (isLine_of_cons (Or.inr (Or.inl rfl)) (by simp [hraw])) (lineItem_text raw)
  | binding e =>
    have he : '\n' ∉ e.text.toList := (h (.binding e) (by simp [parts])).2
    have hline : IsLine e.outline := by
      obtain ⟨cs, hcs⟩ : ∃ cs, e.outline = '{' :: cs := by
        rw [Expression.outline]
        split <;> exact ⟨_, rfl⟩
      have hnone := Expression.newline_not_mem_outline he
      rw [hcs] at hnone ⊢
      exact isLine_of_cons (Or.inr (Or.inr rfl)) fun hmem => hnone (List.mem_cons_of_mem _ hmem)
    rw [lines, shown]
    exact .single hline (lineItem_binding e)

end Node

-- ---------------------------------------------------------------------------
-- Outlines
-- ---------------------------------------------------------------------------

theorem isIndent_of_mem_indent {options : PrintOptions} {level : Nat} {c : Char}
    (h : c ∈ options.indent level) : isIndent c = true := by
  rw [PrintOptions.indent] at h
  split at h <;> rw [List.eq_of_mem_replicate h] <;> decide

/-- Behind its indentation, a printed line is the line. -/
theorem IsLine.dropWhile_indent {text : List Char} (h : IsLine text) (options : PrintOptions)
    (level : Nat) : (options.indent level ++ text).dropWhile isIndent = text :=
  (Source.span_append (fun _ => isIndent_of_mem_indent) text h.not_indented).2

/-- Lines that were printed one after another are found again at the line feeds. -/
theorem splitOn_render {options : PrintOptions} {lines : List OutlineLine}
    (h : ∀ line ∈ lines, IsLine line.text) :
    (lines.flatMap (OutlineLine.render options)).splitOn '\n' =
      lines.map (fun line => options.indent line.level ++ line.text) ++ [[]] := by
  induction lines with
  | nil => rfl
  | cons line lines ih =>
    obtain ⟨hline, hlines⟩ := List.forall_mem_cons.1 h
    have hindent : '\n' ∉ options.indent line.level := by
      intro hmem
      exact absurd (isIndent_of_mem_indent hmem) (by decide)
    have hnone : '\n' ∉ options.indent line.level ++ line.text := by
      simp [hindent, hline.no_newline]
    rw [List.flatMap_cons, OutlineLine.render, List.append_assoc, List.singleton_append,
      List.splitOn_append_cons_self_of_not_mem hnone, ih hlines, List.map_cons, List.cons_append]

/-- **An outline is read back as the skeleton of its tree**, whatever it is indented with. -/
theorem Root.nodesOfOutline_outline {root : Root}
    (htidy : ∀ part ∈ root.children.flatMap Node.parts, part.Tidy) (hfits : root.FitsLines)
    (options : PrintOptions) :
    nodesOfOutline (root.outline options).toList = root.skeleton.children := by
  have hshows : Shows (root.children.flatMap (Node.lines 0)) (root.children.flatMap Node.shown) :=
    .flatMap fun node hnode => Node.lines_shown (fun part hpart =>
      have hmem := List.mem_flatMap.2 ⟨node, hnode, hpart⟩
      ⟨htidy part hmem, hfits part hmem⟩) 0
  have hread : (root.children.flatMap (Node.lines 0)).map
        (fun line => lineItem ((options.indent line.level ++ line.text).dropWhile isIndent)) =
      root.children.flatMap Node.shown := by
    rw [← hshows.items]
    exact List.map_congr_left fun line hline => by rw [(hshows.isLine line hline).dropWhile_indent]
  have hforest : forest (root.children.flatMap Node.shown ++ []) =
      root.children.map Node.skeleton ++ forest [] :=
    Source.forest_flatMap_shown (fun node _ => Source.forest_shown node) []
  rw [List.append_nil, forest, List.append_nil] at hforest
  rw [nodesOfOutline, outline_toList, splitOn_render hshows.isLine, List.dropLast_concat,
    List.map_map]
  show forest (List.map _ _) = _
  rw [Root.skeleton, Node.skeletonList_eq_map, ← hforest, ← hread]
  rfl

/-- **An outline determines the skeleton.** Of two sources, compiled in any way, let the trees have
no line feed in a value of an attribute or in an expression. If they are printed alike, with tabs or
with spaces, be they none at all, then the trees have the same elements, texts and bindings at the
same places, the elements have the same names and the texts say the same. -/
theorem outline_determines_skeleton (options : PrintOptions) {first second : CompileOptions}
    {a b : String} (ha : (compile first a).root.FitsLines) (hb : (compile second b).root.FitsLines)
    (h : (compile first a).root.outline options = (compile second b).root.outline options) :
    (compile first a).root.skeleton = (compile second b).root.skeleton := by
  have hshown := Root.nodesOfOutline_outline (fun _ => tidy_of_mem_parts) ha options
  rw [h, Root.nodesOfOutline_outline (fun _ => tidy_of_mem_parts) hb options] at hshown
  exact congrArg Root.mk hshown.symm

/-- An attribute whose value holds a quote is printed like two, on lines that are not indented. -/
theorem outline_determines_skeleton_quotes :
    let options : PrintOptions := { indentWidth := 0 }
    let a := "<p k='x\" l=\"y'>\x7bq\x7dt&quot;<i T/></p>"
    let b := "<p k=\"x\" l=\"y\">\x7bq\x7dt&quot;<i T/></p>"
    (compile {} a).root.FitsLines ∧ (compile {} b).root.FitsLines ∧
      (compile {} a).root.outline options = (compile {} b).root.outline options ∧
      (compile {} a).root ≠ (compile {} b).root ∧
      (compile {} a).root.skeleton = (compile {} b).root.skeleton := by
  intro options a b
  have ha : (compile {} a).root.FitsLines := by decide +kernel
  have hb : (compile {} b).root.FitsLines := by decide +kernel
  have hsame : (compile {} a).root.outline options = (compile {} b).root.outline options := by
    decide +kernel
  exact ⟨ha, hb, hsame, by decide +kernel, outline_determines_skeleton options ha hb hsame⟩

end Stencil
