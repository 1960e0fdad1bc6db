import Stencil.Proofs.Findings

/-!
# Nesting

When is nothing wrong with the tags of a template? Exactly when they nest: the opening tags that are
not closed on the spot and the closing tags form a word of the grammar

    D → empty | Open(n) D Close(n) D

with equal names in each pair. The compilation reports in three places: at a closing tag with nothing
to close, at one whose name is not that of the innermost open element, and at the end for whatever is
open still. A closing tag of a wrong name closes an element all the same, so one mistake may hide or
repeat another; but a row without any report cannot have had one.

`Settles` stands between the two: it follows the marks with the names of the open elements, as the
compilation does, and gives up at the first mistake.

Main results:

* `settles_nil_iff_nested`: from nothing open, what settles is what the grammar derives;
* `diagnostics_eq_nil_iff_nested`: in development mode the diagnostics are empty exactly for the
  sources whose marks nest.
-/

namespace Stencil

open Source (Lexeme Mark)

/-- The rows of marks in which every opening tag has a closing tag of its own name behind it, and
what stands between the two nests by itself. -/
inductive Nested : List Mark → Prop where
  | nil : Nested []
  | element {name : String} {inner rest : List Mark} (hinner : Nested inner) (hrest : Nested rest) :
      Nested (.opening name :: inner ++ .closing name :: rest)

/-- Every element of a row of marks, and every one that is open before it, is closed by a tag of its
name; `outer` are the names of the open elements, innermost first. -/
def Settles : (outer : List String) → List Mark → Prop
  | outer, [] => outer = []
  | outer, .opening name :: marks => Settles (name :: outer) marks
  | [], .closing _ :: _ => False
  | inner :: outer, .closing name :: marks => inner = name ∧ Settles outer marks

-- ---------------------------------------------------------------------------
-- The grammar
-- ---------------------------------------------------------------------------

theorem Nested.settles_append {marks : List Mark} (h : Nested marks) (outer : List String)
    (more : List Mark) : Settles outer (marks ++ more) ↔ Settles outer more := by
  induction h generalizing outer more with
  | nil => rfl
  | @element name inner rest _ _ ihinner ihrest =>
    rw [List.append_assoc, List.cons_append, Settles, ihinner, List.cons_append, Settles, ihrest]
    exact and_iff_right rfl

/-- Where the innermost element is settled, its closing tag ends a row that nests, and from there on
the other elements are settled. -/
theorem exists_nested_of_settles : ∀ (marks : List Mark) {name : String} {outer : List String},
    Settles (name :: outer) marks →
      ∃ inner rest, marks = inner ++ .closing name :: rest ∧ Nested inner ∧ Settles outer rest
  | [], name, outer, h => by simp [Settles] at h
  | .closing other :: marks, name, outer, h => by
    rw [Settles] at h
    obtain ⟨rfl, hrest⟩ := h
    exact ⟨[], marks, rfl, .nil, hrest⟩
  | .opening other :: marks, name, outer, h => by
    rw [Settles] at h
    -- first the closing tag of the element that opens here, then that of `name`
    obtain ⟨inner, behind, hmarks, hinner, hbehind⟩ := exists_nested_of_settles marks h
    have hshort : behind.length < marks.length := by
      rw [hmarks, List.length_append, List.length_cons]
      omega
    obtain ⟨between, rest, hsplit, hbetween, hrest⟩ := exists_nested_of_settles behind hbehind
    exact ⟨.opening other :: inner ++ .closing other :: between, rest, by simp [hmarks, hsplit],
      .element hinner hbetween, hrest⟩
termination_by marks => marks.length

theorem nested_of_settles : ∀ (marks : List Mark), Settles [] marks → Nested marks
  | [], _ => .nil
  | .closing _ :: _, h => by simp [Settles] at h
  | .opening name :: marks, h => by
    rw [Settles] at h
    obtain ⟨inner, rest, hmarks, hinner, hrest⟩ := exists_nested_of_settles marks h
    have hshort : rest.length < marks.length := by
      rw [hmarks, List.length_append, List.length_cons]
      omega
    rw [hmarks]
    exact .element hinner (nested_of_settles rest hrest)
termination_by marks => marks.length

theorem settles_nil_iff_nested (marks : List Mark) : Settles [] marks ↔ Nested marks := by
  constructor
  · exact nested_of_settles marks
  · intro h
    have hsettles := h.settles_append [] []
    rw [List.append_nil] at hsettles
    exact hsettles.mpr rfl

-- ---------------------------------------------------------------------------
-- Diagnostics
-- ---------------------------------------------------------------------------

/-- Nothing is found along a row and nothing is left open exactly if its marks settle. -/
theorem findings_eq_nil_iff_settles (outer : List OpenTag) (row : List Lexeme) :
    (findings outer row = [] ∧ openTags outer row = []) ↔
      Settles (outer.map OpenTag.name) (row.filterMap Lexeme.mark?) := by
  induction row generalizing outer with
  | nil => simp [findings, openTags, Settles]
  | cons lexeme row ih =>
    rw [findings, openTags, List.append_eq_nil_iff, and_assoc, ih]
    cases hmark : lexeme.mark? with
    | none => simp [Lexeme.findings, Lexeme.openTags, hmark]
    | some mark =>
      rw [List.filterMap_cons_some hmark]
      cases mark with
      | opening name => simp [Lexeme.findings, Lexeme.openTags, hmark, Settles]
      | closing name =>
        cases outer with
        | nil => simp [Lexeme.findings, hmark, Settles]
        | cons inner outer => simp [Lexeme.findings, Lexeme.openTags, hmark, Settles]

theorem diagnostics_ofText_eq_nil_iff (text : List Char) :
    (Build.ofText true text).journal.diagnostics = [] ↔
      Nested ((Source.lexemes text).filterMap Lexeme.mark?) := by
  rw [Build.diagnostics_ofText, List.append_eq_nil_iff, List.map_eq_nil_iff,
    findings_eq_nil_iff_settles, List.map_nil, settles_nil_iff_nested]

/-- **In development mode a source has no diagnostics exactly if its tags nest.** The tags are those
that end in their end mark and the closing tags, with the names that stand in the source, in the order
of the scan. -/
theorem diagnostics_eq_nil_iff_nested (strip : Bool) (source : String) :
    let options : CompileOptions := { development := true, stripBlockComments := strip }
    (compile options source).diagnostics = [] ↔
      Nested (Source.marks (Source.lexemes (options.prepare source.toList))) := by
  intro options
  rw [Source.lexemes, Source.marks_lexemesFrom]
  exact diagnostics_ofText_eq_nil_iff (options.prepare source.toList)

end Stencil
