import Stencil.Proofs.Nesting
import Stencil.Proofs.Reading

/-!
# Compiling undoes writing

A template that is well formed compiles to what it means, in whichever way it was written, and nothing
is reported. The way leads over the row of items: `Spells` says which rows stand for a forest. What
was written is read as such a row (`exists_spells`); such a row makes the forest, whatever items
follow it (`forest_spells`); and its tags nest (`nested_spells`).

Main result: `compile_renders`.
-/

namespace Stencil

open Source (Item Mark items enclosed forest)

namespace Template

/-- The rows of items that stand for a forest. An element without children may be one tag or two. -/
inductive Spells : List Template → List Item → Prop where
  | nil : Spells [] []
  | text {run : TextRun} {rest : List Template} {row : List Item} (hrest : Spells rest row) :
      Spells (.text run :: rest) (.text (String.ofList (Text.escaped run.chars)) :: row)
  | binding {source : List Char} {balanced} {rest : List Template} {row : List Item}
      (hrest : Spells rest row) :
      Spells (.binding source balanced :: rest) (.binding (Expression.ofChars source) :: row)
  | leaf {tag : TagName} {attrs : List Attr} {rest : List Template} {row : List Item}
      (hrest : Spells rest row) :
      Spells (.element tag attrs [] :: rest)
        (.leaf (String.ofList tag.chars) (attrs.map Attr.attribute) :: row)
  | element {tag : TagName} {attrs : List Attr} {children rest : List Template}
      {inner row : List Item} (hchildren : Spells children inner) (hrest : Spells rest row) :
      Spells (.element tag attrs children :: rest)
        (.opening (String.ofList tag.chars) (attrs.map Attr.attribute) :: inner ++
          .closing (String.ofList tag.chars) :: row)

-- ---------------------------------------------------------------------------
-- What is read from a written forest
-- ---------------------------------------------------------------------------

/-- Behind a text a tag follows, or what follows the forest. -/
theorem head?_renders_of_text {run : TextRun} {rest : List Template} {out more : List Char}
    (hseparated : Separated (.text run :: rest)) (h : Renders rest out)
    (hmore : ∀ c, more.head? = some c → c = '<') :
    ∀ c, (out ++ more).head? = some c → c = '<' := by
  intro c hc
  cases hseparated with
  | lastText =>
    cases h
    exact hmore c hc
  | textBefore _ =>
    cases h with
    | leaf _ _ => exact (Option.some.inj hc).symm
    | element _ _ _ => exact (Option.some.inj hc).symm

theorem separated_tail {template : Template} {rest : List Template}
    (h : Separated (template :: rest)) : Separated rest := by
  cases h with
  | element _ hrest => exact hrest
  | binding hrest => exact hrest
  | lastText => exact .nil
  | textBefore hrest => exact hrest

/-- A written forest is read as a row that stands for it, and what follows is read behind it. -/
theorem exists_spells {templates : List Template} {out : List Char} (h : Renders templates out)
    (hseparated : Separated templates) :
    ∃ row, Spells templates row ∧ ∀ more, (∀ c, more.head? = some c → c = '<') →
      items (out ++ more) = row ++ items more := by
  induction h with
  | nil => exact ⟨[], .nil, fun more _ => rfl⟩
  | @text run rest out hrest ih =>
    obtain ⟨row, hrow, hitems⟩ := ih (separated_tail hseparated)
    refine ⟨_, .text hrow, fun more hmore => ?_⟩
    rw [List.append_assoc,
      Source.items_text run (head?_renders_of_text hseparated hrest hmore), hitems more hmore]
    rfl
  | @binding source balanced rest out hrest ih =>
    obtain ⟨row, hrow, hitems⟩ := ih (separated_tail hseparated)
    refine ⟨_, .binding hrow, fun more hmore => ?_⟩
    rw [List.append_assoc, List.cons_append, List.cons_append,
      Source.items_binding balanced, hitems more hmore]
    rfl
  | @leaf tag attrs rest written out hattrs hrest ih =>
    obtain ⟨row, hrow, hitems⟩ := ih (separated_tail hseparated)
    refine ⟨_, .leaf hrow, fun more hmore => ?_⟩
    have hshape : '<' :: tag.chars ++ written ++ '/' :: '>' :: out ++ more =
        '<' :: (tag.chars ++ (written ++ '/' :: '>' :: (out ++ more))) := by simp
    rw [hshape, Source.items_leaf tag hattrs, hitems more hmore]
    rfl
  | @element tag attrs children rest written inner out hattrs hchildren hrest ihchildren ihrest =>
    cases hseparated with
    | element hwithin hbehind =>
    obtain ⟨inside, hinside, hitemsInside⟩ := ihchildren hwithin
    obtain ⟨row, hrow, hitems⟩ := ihrest hbehind
    refine ⟨_, .element hinside hrow, fun more hmore => ?_⟩
    have hshape : '<' :: tag.chars ++ written ++ '>' :: inner ++
          '<' :: '/' :: tag.chars ++ '>' :: out ++ more =
        '<' :: (tag.chars ++ (written ++ '>' :: (inner ++
          '<' :: '/' :: (tag.chars ++ '>' :: (out ++ more))))) := by simp
    -- the children end at the closing tag, so they may end with a text
    rw [hshape, Source.items_opening tag hattrs, hitemsInside _ (by simp),
      Source.items_closing tag.isNameChar, hitems more hmore]
    simp

-- ---------------------------------------------------------------------------
-- What such a row stands for
-- ---------------------------------------------------------------------------

/-- A row that stands for a forest has a closing tag for every opening one, so it is never cut by the
closing tag of an element around it. -/
theorem enclosed_spells {templates : List Template} {row : List Item} (h : Spells templates row)
    (depth : Nat) (more : List Item) :
    enclosed depth (row ++ more) = (row ++ (enclosed depth more).1, (enclosed depth more).2) := by
  induction h generalizing depth more with
  | nil => rfl
  | text _ ih => simp [enclosed, ih]
  | binding _ ih => simp [enclosed, ih]
  | leaf _ ih => simp [enclosed, ih]
  | element _ _ ihchildren ihrest => simp [enclosed, ihchildren, ihrest]

/-- A row that stands for a forest makes that forest, in front of what follows. -/
theorem forest_spells {templates : List Template} {row : List Item} (h : Spells templates row)
    (more : List Item) : forest (row ++ more) = nodes templates ++ forest more := by
  induction h generalizing more with
  | nil => rfl
  | text _ ih => simp [forest, nodes, node, ih]
  | binding _ ih => simp [forest, nodes, node, ih]
  | leaf _ ih => simp [forest, nodes, node, ih]
  | @element tag attrs children rest inner row hchildren _ ihchildren ihrest =>
    have hinner : forest inner = nodes children := by
      have hnil := ihchildren []
      rw [List.append_nil, forest, List.append_nil] at hnil
      exact hnil
    have hshape : .opening (String.ofList tag.chars) (attrs.map Attr.attribute) :: inner ++
          .closing (String.ofList tag.chars) :: row ++ more =
        .opening (String.ofList tag.chars) (attrs.map Attr.attribute) ::
          (inner ++ .closing (String.ofList tag.chars) :: (row ++ more)) := by simp
    rw [hshape, forest, enclosed_spells hchildren]
    simp [enclosed, hinner, nodes, node, ihrest]

theorem nested_spells {templates : List Template} {row : List Item} (h : Spells templates row) :
    Nested (row.filterMap Item.mark?) := by
  induction h with
  | nil => exact .nil
  | text _ ih => exact ih
  | binding _ ih => exact ih
  | leaf _ ih => exact ih
  | element _ _ ihchildren ihrest =>
    rw [List.filterMap_append]
    exact .element ihchildren ihrest

end Template

/-- **Compiling undoes writing.** Every template whose texts are kept apart can be written, and
whenever the text that is read for a source is such a writing, the tree is what the template means and
nothing is reported. -/
theorem compile_renders {templates : List Template} (hseparated : Separated templates) :
    (∃ out, Template.Renders templates out) ∧
      ∀ (options : CompileOptions) (source : String),
        Template.Renders templates (options.prepare source.toList) →
          (compile options source).root.children = Template.nodes templates ∧
            (compile options source).diagnostics = [] := by
  refine ⟨Template.exists_renders templates, fun options source hrenders => ?_⟩
  obtain ⟨row, hrow, hitems⟩ := Template.exists_spells hrenders hseparated
  have hall : items (options.prepare source.toList) = row := by
    simpa using hitems [] (by simp)
  constructor
  · have hforest := Template.forest_spells hrow []
    rw [List.append_nil, forest, List.append_nil] at hforest
    rw [compile_root_eq, Build.top_ofText, hall, hforest]
  · show (Build.ofText options.development (options.prepare source.toList)).journal.diagnostics = []
    cases options.development with
    | false => rw [Build.journal_ofText_off]
    | true =>
      rw [diagnostics_ofText_eq_nil_iff, ← Source.filterMap_mark?_item, ← items, hall]
      exact Template.nested_spells hrow

/-- A text, and an element with a component, a literal that holds a quote, a binding and an empty
element inside. -/
def sampleTemplate : List Template :=
  [.text { chars := ['a', '&', 'l', 't', ';'] },
    .element { chars := ['p'] }
      [⟨{ chars := ['T'] }, .expression ['x'] (by decide)⟩,
        ⟨{ chars := ['k'] }, .literal ['"'] (by decide)⟩]
      [.binding ['{', '}'] (by decide),
        .element { chars := ['b'] } [⟨{ chars := ['h'] }, .literal [] (by decide)⟩] []]]

theorem compile_renders_sampleTemplate :
    let source := "a&lt;<p T=\x7bx\x7d k='\"'>\x7b\x7b\x7d\x7d<b h></b></p>"
    Separated sampleTemplate ∧
      Template.Renders sampleTemplate (CompileOptions.prepare ⟨true, false⟩ source.toList) ∧
      (compile ⟨true, false⟩ source).root.children =
        [.text "a<",
          .element "T" [⟨"T", .expression ⟨"instance.x", true⟩⟩]
            [.element "p" [⟨"k", .literal "\""⟩]
              [.binding ⟨"\x7b\x7d", false⟩, .element "b" [⟨"h", .literal ""⟩] []]]] ∧
      (compile ⟨true, false⟩ source).diagnostics = [] := by
  intro source
  have hseparated : Separated sampleTemplate :=
    .textBefore (.element (.binding (.element .nil .nil)) .nil)
  have hrenders :
      Template.Renders sampleTemplate (CompileOptions.prepare ⟨true, false⟩ source.toList) := by
    have htext : CompileOptions.prepare ⟨true, false⟩ source.toList =
        ['a', '&', 'l', 't', ';'] ++ ('<' :: ['p'] ++
          ((' ' :: ['T'] ++ '=' :: '{' :: ['x'] ++ ['}']) ++
            ((' ' :: ['k'] ++ '=' :: '\'' :: ['"'] ++ ['\'']) ++ [])) ++ '>' ::
          ('{' :: ['{', '}'] ++ '}' ::
            ('<' :: ['b'] ++ ((' ' :: ['h']) ++ []) ++ '>' :: [] ++ '<' :: '/' :: ['b'] ++
              '>' :: [])) ++
          '<' :: '/' :: ['p'] ++ '>' :: []) := by
      simp [source, CompileOptions.prepare]
    rw [htext]
    exact .text (.element (.cons .braces (.cons (.single (by decide)) .nil))
      (.binding (.element (.cons (.bare (by decide)) .nil) .nil .nil)) .nil)
  obtain ⟨hroot, hnone⟩ := (compile_renders hseparated).2 ⟨true, false⟩ source hrenders
  refine ⟨hseparated, hrenders, ?_, hnone⟩
  rw [hroot]
  decide +kernel

end Stencil
