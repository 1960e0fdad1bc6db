import Stencil.Proofs.Boundary
import Stencil.Proofs.Nesting
import Stencil.Proofs.WellFormed

/-!
# Closing what is open

The end of a source closes every open element, the innermost first. A source may also close them
itself, with a closing tag for each (`closingTags`). Both make the same tree, and only the first is
reported, once for each element. For this the source must not end inside a lexeme, where the closing
tags would be read as part of it (`EndsWhole`); a text run may stand at the end, for a tag ends it.

Any element can be closed in this way, odd as its name may be: the name comes out of a tag, so it has
no character that would end it in a closing tag or be trimmed there.

Main results:

* `lexemes_append_closingTags`: behind a source that ends whole, the closing tags are read as such;
* `Build.resume_closing`, `settles_closing`: closing tags with the right names do to the tree what the
  end of the source does, and nothing is found at them;
* `compile_append_closingTags`: a source and its continuation by the closing tags have the same tree,
  and the diagnostics differ by those that the end of the source gave rise to.
-/

namespace Stencil

open Source (Item Lexeme Mark lexemes lexemesFrom items enclosed)

/-- The closing tags of open elements, the innermost first. -/
def closingTags : List OpenElement → String
  | [] => ""
  | inner :: outer => "</" ++ inner.tag ++ ">" ++ closingTags outer

/-- The end of the text does not cut its last lexeme off. -/
def EndsWhole (text : List Char) : Prop :=
  ∀ last, (lexemes text).getLast? = some last → ¬Source.CutOff last.source

-- ---------------------------------------------------------------------------
-- Reading the closing tags
-- ---------------------------------------------------------------------------

theorem toList_closingTags (inner : OpenElement) (outer : List OpenElement) :
    (closingTags (inner :: outer)).toList =
      '<' :: '/' :: (inner.tag.toList ++ '>' :: (closingTags outer).toList) := by
  simp [closingTags]

/-- A name without a character that would end it is read back from its closing tag as it is. -/
theorem items_closingTags {stack : List OpenElement} (h : ∀ element ∈ stack, IsName element.tag) :
    items (closingTags stack).toList = stack.map fun element => .closing element.tag := by
  induction stack with
  | nil => exact Source.items_nil
  | cons inner outer ih =>
    obtain ⟨hinner, houter⟩ := List.forall_mem_cons.1 h
    rw [toList_closingTags, Source.items_closing hinner.isNameChar, ih houter, String.ofList_toList,
      List.map_cons]

theorem stopsBefore_closingTags (item : Item) (stack : List OpenElement) :
    item.StopsBefore (closingTags stack).toList := by
  cases stack with
  | nil => exact item.stopsBefore_nil
  | cons inner outer =>
    rw [toList_closingTags]
    exact item.stopsBefore_tag _

/-- Behind a source that ends whole its closing tags are read one after another. -/
theorem lexemes_append_closingTags {text : List Char} (hwhole : EndsWhole text)
    {stack : List OpenElement} (hnames : ∀ element ∈ stack, IsName element.tag) :
    ∃ closers, lexemes (text ++ (closingTags stack).toList) = lexemes text ++ closers ∧
      closers.map Lexeme.item = stack.map fun element => .closing element.tag := by
  have htext := Source.flatMap_source_lexemes text
  have hrow : lexemesFrom 0 ((lexemes text).flatMap Lexeme.source ++ []) = lexemes text ++ [] := by
    rw [htext, List.append_nil, List.append_nil]
    rfl
  have hreplace := Source.lexemesFrom_replace hrow fun last hlast =>
    ⟨stopsBefore_closingTags last.item stack, fun _ => hwhole last hlast⟩
  rw [htext] at hreplace
  refine ⟨_, hreplace, ?_⟩
  rw [Source.map_item_lexemesFrom, items_closingTags hnames]

-- ---------------------------------------------------------------------------
-- What closing tags do
-- ---------------------------------------------------------------------------

/-- A closing tag for each open element does what the end of the source does. -/
theorem Build.resume_closing (top last : List Node) (stack : List OpenElement) :
    resume top last stack (stack.map fun element => .closing element.tag) =
      resume top last stack [] := by
  induction stack generalizing last with
  | nil => rfl
  | cons inner outer ih => simp [resume, enclosed, ih]

theorem settles_closing (names : List String) : Settles names (names.map Mark.closing) := by
  induction names with
  | nil => rfl
  | cons name names ih => exact ⟨rfl, ih⟩

/-- Nothing is found at closing tags that have the names of the open elements, and nothing stays
open. -/
theorem findings_closing {stack : List OpenElement} {closers : List Lexeme}
    (h : closers.map Lexeme.item = stack.map fun element => .closing element.tag) :
    findings (stack.map OpenElement.openTag) closers = [] ∧
      openTags (stack.map OpenElement.openTag) closers = [] := by
  have hmarks : closers.filterMap Lexeme.mark? = (stack.map OpenElement.tag).map Mark.closing := by
    rw [← Source.filterMap_mark?_item, h, List.filterMap_map, List.map_map]
    exact congrFun (List.filterMap_eq_map' (f := Mark.closing ∘ OpenElement.tag)) stack
  have hnames : (stack.map OpenElement.openTag).map OpenTag.name = stack.map OpenElement.tag := by
    rw [List.map_map]
    rfl
  rw [findings_eq_nil_iff_settles, hmarks, hnames]
  exact settles_closing _

-- ---------------------------------------------------------------------------
-- Compilation
-- ---------------------------------------------------------------------------

/-- **The end of a source closes elements as closing tags do.** If the last lexeme of a source is not
cut off, the source with a closing tag for each element that is open at its end, innermost first, has
the same tree. In development mode it has the same diagnostics too, without the last ones, by which
those elements are reported as unclosed. -/
theorem compile_append_closingTags (development : Bool) {source : String}
    (hwhole : EndsWhole source.toList) :
    let options : CompileOptions := { development := development, stripBlockComments := false }
    let stack := (({} : Build).run development (lexemes source.toList)).stack
    let closed := compile options (source ++ closingTags stack)
    closed.root = (compile options source).root ∧
      (development = true → (compile options source).diagnostics =
        closed.diagnostics ++ stack.map fun element => element.unclosedAt element.start) := by
  intro options stack closed
  have hnames : ∀ element ∈ stack, IsName element.tag := by
    intro element helement
    have hall : lexemes source.toList = lexemes source.toList ++ [] := (List.append_nil _).symm
    have hrun := Build.wellFormed_run_lexemes development hall
    exact (hrun.stack element helement).tag.toIsName
  obtain ⟨closers, hrow, hitems⟩ := lexemes_append_closingTags hwhole hnames
  have htext : (source ++ closingTags stack).toList = source.toList ++ (closingTags stack).toList :=
    String.toList_append
  rw [← htext] at hrow
  constructor
  · have htop : (Build.ofText development (source ++ closingTags stack).toList).top =
        (Build.ofText development source.toList).top := by
      rw [Build.ofText, hrow, Build.run_append, Build.top_finish_run, hitems, Build.resume_closing,
        ← Build.top_finishWith development]
      rfl
    exact congrArg Root.mk htop
  · rintro rfl
    have hopen : openTags [] (lexemes source.toList) = stack.map OpenElement.openTag :=
      (Build.map_openTag_stack_run true (lexemes source.toList)).symm
    obtain ⟨hnone, hall⟩ := findings_closing hitems
    show (Build.ofText true source.toList).journal.diagnostics =
      (Build.ofText true (source ++ closingTags stack).toList).journal.diagnostics ++ _
    rw [Build.diagnostics_ofText, Build.diagnostics_ofText, hrow, findings_append, openTags_append,
      hopen, hnone, hall, List.append_nil, List.map_nil, List.append_nil, List.map_map]
    rfl

/-- Names that are empty or look like something else, a component, and a mistake further up. -/
theorem compile_append_closingTags_odd :
    let options : CompileOptions := { development := true, stripBlockComments := false }
    let source := "<b></c><a Card><><\x7b\"é> text"
    let closed := compile options (source ++ "</\x7b\"é></></a>")
    EndsWhole source.toList ∧ closed.root = (compile options source).root ∧
      closed.diagnostics = [⟨.unclosed "b", 3⟩] ∧
      (compile options source).diagnostics = closed.diagnostics ++
        [⟨.unclosed "\x7b\"é", 17⟩, ⟨.unclosed "", 15⟩, ⟨.unclosed "a", 7⟩] := by
  intro options source closed
  have hlast : (lexemes source.toList).getLast? = some ⟨23, " text".toList, .text " text"⟩ := by
    decide +kernel
  have hwhole : EndsWhole source.toList := by
    intro last hother
    obtain rfl := Option.some.inj (hlast.symm.trans hother)
    exact id
  obtain ⟨hroot, hdiagnostics⟩ := compile_append_closingTags true hwhole
  have hstack : closingTags (({} : Build).run true (lexemes source.toList)).stack =
      "</\x7b\"é></></a>" := by decide +kernel
  have hunclosed : ((({} : Build).run true (lexemes source.toList)).stack.map
      fun element => element.unclosedAt element.start) =
        [⟨.unclosed "\x7b\"é", 17⟩, ⟨.unclosed "", 15⟩, ⟨.unclosed "a", 7⟩] := by decide +kernel
  rw [hstack] at hroot hdiagnostics
  rw [hunclosed] at hdiagnostics
  exact ⟨hwhole, hroot, by decide +kernel, hdiagnostics rfl⟩

end Stencil
