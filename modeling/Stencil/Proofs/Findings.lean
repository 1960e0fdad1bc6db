import Stencil.Proofs.Lexemes

/-!
# The diagnostics of a row of lexemes

What a compilation reports depends on the tags that nest and on their places alone. The children that
the open elements have gathered play no part in it. So the diagnostics of a row can be told without
the tree: along the row one keeps the names and places of the open tags, innermost first, and every
closing tag is held against the innermost one.

Main results:

* `diagnostics_ofText`: the diagnostics of a text are the findings along its row, and then one for
  each tag that the row leaves open, innermost first;
* `journal_ofText_off`: outside development mode nothing is reported;
* `findings_append`, `findings_relocate`: a row that is continued, and one whose lexemes stand
  somewhere else;
* `mem_findings`: a finding is made at a closing tag of the row, by the tags that are open there;
* `findings_positions_sublist`, `openTags_starts_sublist`: both kinds of diagnostics stand in the
  order of the row, the first forwards and the second backwards.
-/

namespace Stencil

open Source (Item Lexeme Mark)

/-- An opening tag whose element is not closed yet. -/
structure OpenTag where
  name : String
  /-- The number of bytes in front of the tag. -/
  start : Nat
deriving DecidableEq, Repr

/-- The diagnostic for an element that only the end of the source closes. -/
def OpenTag.unclosed (tag : OpenTag) : Diagnostic :=
  ⟨.unclosed tag.name, tag.start⟩

def OpenElement.openTag (element : OpenElement) : OpenTag :=
  ⟨element.tag, element.start⟩

namespace Source.Lexeme

/-- The open tags after a lexeme, innermost first. A closing tag takes the innermost one away,
whatever its name. -/
def openTags (lexeme : Lexeme) (outer : List OpenTag) : List OpenTag :=
  match lexeme.mark? with
  | some (.opening name) => ⟨name, lexeme.start⟩ :: outer
  | some (.closing _) => outer.tail
  | none => outer

/-- What is found at a lexeme while the tags `outer` are open: a closing tag should bear the name of
the innermost one. -/
def findings (lexeme : Lexeme) (outer : List OpenTag) : List Diagnostic :=
  match lexeme.mark?, outer with
  | some (.closing name), [] => [⟨.stray name, lexeme.start⟩]
  | some (.closing name), inner :: _ =>
    if inner.name = name then [] else [⟨.unclosed inner.name, lexeme.start⟩]
  | _, _ => []

end Source.Lexeme

def openTags (outer : List OpenTag) : List Lexeme → List OpenTag
  | [] => outer
  | lexeme :: row => openTags (lexeme.openTags outer) row

def findings (outer : List OpenTag) : List Lexeme → List Diagnostic
  | [] => []
  | lexeme :: row => lexeme.findings outer ++ findings (lexeme.openTags outer) row

theorem openTags_append (outer : List OpenTag) (row more : List Lexeme) :
    openTags outer (row ++ more) = openTags (openTags outer row) more := by
  induction row generalizing outer with
  | nil => rfl
  | cons lexeme row ih => exact ih _

theorem findings_append (outer : List OpenTag) (row more : List Lexeme) :
    findings outer (row ++ more) = findings outer row ++ findings (openTags outer row) more := by
  induction row generalizing outer with
  | nil => rfl
  | cons lexeme row ih =>
    rw [List.cons_append, findings, ih, findings, openTags, List.append_assoc]

-- ---------------------------------------------------------------------------
-- Changed places
-- ---------------------------------------------------------------------------

def Source.Lexeme.relocate (place : Nat → Nat) (lexeme : Lexeme) : Lexeme :=
  { lexeme with start := place lexeme.start }

def OpenTag.relocate (place : Nat → Nat) (tag : OpenTag) : OpenTag :=
  { tag with start := place tag.start }

def Diagnostic.relocate (place : Nat → Nat) (d : Diagnostic) : Diagnostic :=
  { d with position := place d.position }

/-- The diagnostic with so many bytes more in front of its place. -/
def Diagnostic.shift (bytes : Nat) (d : Diagnostic) : Diagnostic :=
  { d with position := d.position + bytes }

def OpenTag.shift (bytes : Nat) (tag : OpenTag) : OpenTag :=
  { tag with start := tag.start + bytes }

theorem OpenTag.unclosed_relocate (place : Nat → Nat) (tags : List OpenTag) :
    (tags.map (OpenTag.relocate place)).map OpenTag.unclosed =
      (tags.map OpenTag.unclosed).map (Diagnostic.relocate place) := by
  rw [List.map_map, List.map_map]
  rfl

theorem OpenTag.unclosed_shift (bytes : Nat) (tags : List OpenTag) :
    (tags.map (OpenTag.shift bytes)).map OpenTag.unclosed =
      (tags.map OpenTag.unclosed).map (Diagnostic.shift bytes) :=
  unclosed_relocate (· + bytes) tags

theorem Source.Lexeme.openTags_relocate (place : Nat → Nat) (lexeme : Lexeme)
    (outer : List OpenTag) :
    (lexeme.relocate place).openTags (outer.map (OpenTag.relocate place)) =
      (lexeme.openTags outer).map (OpenTag.relocate place) := by
  have hmark : (lexeme.relocate place).mark? = lexeme.mark? := rfl
  rw [Lexeme.openTags, Lexeme.openTags, hmark]
  cases lexeme.mark? with
  | none => rfl
  | some mark =>
    cases mark with
    | opening name => rfl
    | closing name => exact List.map_tail.symm

theorem Source.Lexeme.findings_relocate (place : Nat → Nat) (lexeme : Lexeme)
    (outer : List OpenTag) :
    (lexeme.relocate place).findings (outer.map (OpenTag.relocate place)) =
      (lexeme.findings outer).map (Diagnostic.relocate place) := by
  have hmark : (lexeme.relocate place).mark? = lexeme.mark? := rfl
  unfold Lexeme.findings
  rw [hmark]
  cases lexeme.mark? with
  | none => rfl
  | some mark =>
    cases mark with
    | opening name => rfl
    | closing name =>
      cases outer with
      | nil => rfl
      | cons inner outer =>
        by_cases hname : inner.name = name
        · simp [OpenTag.relocate, hname]
        · simp [OpenTag.relocate, Diagnostic.relocate, Lexeme.relocate, hname]

theorem openTags_relocate (place : Nat → Nat) (outer : List OpenTag) (row : List Lexeme) :
    openTags (outer.map (OpenTag.relocate place)) (row.map (Lexeme.relocate place)) =
      (openTags outer row).map (OpenTag.relocate place) := by
  induction row generalizing outer with
  | nil => rfl
  | cons lexeme row ih =>
    rw [List.map_cons, openTags, lexeme.openTags_relocate, ih, openTags]

/-- The findings along a row move with the row, wherever its lexemes are put. -/
theorem findings_relocate (place : Nat → Nat) (outer : List OpenTag) (row : List Lexeme) :
    findings (outer.map (OpenTag.relocate place)) (row.map (Lexeme.relocate place)) =
      (findings outer row).map (Diagnostic.relocate place) := by
  induction row generalizing outer with
  | nil => rfl
  | cons lexeme row ih =>
    rw [List.map_cons, findings, lexeme.findings_relocate, lexeme.openTags_relocate, ih, findings,
      List.map_append]

theorem openTags_shift (bytes : Nat) (outer : List OpenTag) (row : List Lexeme) :
    openTags (outer.map (OpenTag.shift bytes)) (row.map (Lexeme.shift bytes)) =
      (openTags outer row).map (OpenTag.shift bytes) :=
  openTags_relocate (· + bytes) outer row

theorem findings_shift (bytes : Nat) (outer : List OpenTag) (row : List Lexeme) :
    findings (outer.map (OpenTag.shift bytes)) (row.map (Lexeme.shift bytes)) =
      (findings outer row).map (Diagnostic.shift bytes) :=
  findings_relocate (· + bytes) outer row

-- ---------------------------------------------------------------------------
-- Where the diagnostics come from
-- ---------------------------------------------------------------------------

/-- Something is found at a closing tag only: that nothing is open, or that the innermost open tag has
another name. -/
theorem Source.Lexeme.mem_findings {lexeme : Lexeme} {outer : List OpenTag} {d : Diagnostic}
    (h : d ∈ lexeme.findings outer) :
    d.position = lexeme.start ∧ ∃ name, lexeme.mark? = some (.closing name) ∧
      ((outer = [] ∧ d.finding = .stray name) ∨
        ∃ inner rest, outer = inner :: rest ∧ inner.name ≠ name ∧
          d.finding = .unclosed inner.name) := by
  unfold findings at h
  split at h
  · next name hmark =>
    rw [List.mem_singleton] at h
    subst h
    exact ⟨rfl, name, hmark, Or.inl ⟨rfl, rfl⟩⟩
  · next name inner rest hmark =>
    split at h
    · simp at h
    · next hname =>
      rw [List.mem_singleton] at h
      subst h
      exact ⟨rfl, name, hmark, Or.inr ⟨inner, rest, rfl, hname, rfl⟩⟩
  · simp at h

theorem mem_findings {outer : List OpenTag} {row : List Lexeme} {d : Diagnostic}
    (h : d ∈ findings outer row) :
    ∃ before lexeme after, row = before ++ lexeme :: after ∧
      d ∈ lexeme.findings (openTags outer before) := by
  induction row generalizing outer with
  | nil => simp [findings] at h
  | cons first row ih =>
    rw [findings, List.mem_append] at h
    rcases h with h | h
    · exact ⟨[], first, row, rfl, h⟩
    · obtain ⟨before, lexeme, after, hrow, hd⟩ := ih h
      exact ⟨first :: before, lexeme, after, by rw [hrow]; rfl, hd⟩

/-- A tag that is open was open before, or an opening tag of the row has its name and place. -/
theorem mem_openTags {outer : List OpenTag} {row : List Lexeme} {tag : OpenTag}
    (h : tag ∈ openTags outer row) :
    tag ∈ outer ∨
      ∃ lexeme ∈ row, lexeme.mark? = some (.opening tag.name) ∧ lexeme.start = tag.start := by
  induction row generalizing outer with
  | nil => exact Or.inl h
  | cons first row ih =>
    rcases ih h with hfirst | ⟨lexeme, hmem, hlexeme⟩
    · rw [Lexeme.openTags] at hfirst
      split at hfirst
      · next name hmark =>
        rcases List.mem_cons.1 hfirst with rfl | houter
        · exact Or.inr ⟨first, List.mem_cons_self, hmark, rfl⟩
        · exact Or.inl houter
      · exact Or.inl (List.mem_of_mem_tail hfirst)
      · exact Or.inl hfirst
    · exact Or.inr ⟨lexeme, List.mem_cons_of_mem first hmem, hlexeme⟩

/-- The findings along a row stand in the order of the row, at most one at each lexeme. -/
theorem findings_positions_sublist (outer : List OpenTag) (row : List Lexeme) :
    ((findings outer row).map Diagnostic.position).Sublist (row.map Lexeme.start) := by
  induction row generalizing outer with
  | nil => exact List.Sublist.refl []
  | cons lexeme row ih =>
    have hone : ((lexeme.findings outer).map Diagnostic.position).Sublist [lexeme.start] := by
      unfold Lexeme.findings
      split
      · exact List.Sublist.refl _
      · split
        · exact List.nil_sublist _
        · exact List.Sublist.refl _
      · exact List.nil_sublist _
    rw [findings, List.map_append]
    exact hone.append (ih _)

/-- From the outermost to the innermost the open tags stand in the order of the row. -/
theorem openTags_starts_sublist (outer : List OpenTag) (row : List Lexeme) :
    ((openTags outer row).map OpenTag.start).reverse.Sublist
      ((outer.map OpenTag.start).reverse ++ row.map Lexeme.start) := by
  induction row generalizing outer with
  | nil => simp [openTags]
  | cons lexeme row ih =>
    have hone : ((lexeme.openTags outer).map OpenTag.start).reverse.Sublist
        ((outer.map OpenTag.start).reverse ++ [lexeme.start]) := by
      rw [Lexeme.openTags]
      split
      · simp
      · refine List.Sublist.trans ?_ (List.sublist_append_left _ _)
        exact ((List.tail_sublist outer).map OpenTag.start).reverse
      · exact List.sublist_append_left _ _
    rw [openTags, List.map_cons, List.append_cons]
    exact (ih _).trans (hone.append_right _)

-- ---------------------------------------------------------------------------
-- The builder keeps to it
-- ---------------------------------------------------------------------------

namespace Build

def openTags (build : Build) : List OpenTag :=
  build.stack.map OpenElement.openTag

@[simp]
theorem insert_openTags (build : Build) (node : Node) :
    (build.insert node).openTags = build.openTags := by
  obtain ⟨top, stack, journal⟩ := build
  cases stack <;> rfl

@[simp]
theorem insert_journal (build : Build) (node : Node) :
    (build.insert node).journal = build.journal := by
  obtain ⟨top, stack, journal⟩ := build
  cases stack <;> rfl

theorem openTags_step (development : Bool) (build : Build) (lexeme : Lexeme) :
    (build.step development lexeme).openTags = lexeme.openTags build.openTags := by
  obtain ⟨start, source, item⟩ := lexeme
  cases item with
  | opening tag attrs => rfl
  | closing name =>
    obtain ⟨top, stack, journal⟩ := build
    cases stack with
    | nil => rfl
    | cons inner outer =>
      simp only [step, close, insert_openTags]
      rfl
  | leaf _ _ | text _ | binding _ | blank | comment =>
    simp [step, Lexeme.openTags, Lexeme.mark?, Item.mark?]

theorem diagnostics_step (build : Build) (lexeme : Lexeme) :
    (build.step true lexeme).journal.diagnostics =
      build.journal.diagnostics ++ lexeme.findings build.openTags := by
  obtain ⟨start, source, item⟩ := lexeme
  cases item with
  | opening tag attrs => simp [step, Lexeme.findings, Lexeme.mark?, Item.mark?]
  | closing name =>
    obtain ⟨top, stack, journal⟩ := build
    cases stack with
    | nil => rfl
    | cons inner outer =>
      simp only [step, close, insert_journal, Lexeme.findings, Lexeme.mark?, Item.mark?, openTags,
        List.map_cons]
      by_cases hname : inner.tag = name
      · simp [OpenElement.openTag, hname]
      · simp [OpenElement.openTag, hname, report, Journal.report, OpenElement.unclosedAt]
  | leaf _ _ | text _ | binding _ | blank | comment =>
    simp [step, Lexeme.findings, Lexeme.mark?, Item.mark?]

theorem openTags_run (development : Bool) (build : Build) (row : List Lexeme) :
    (build.run development row).openTags = Stencil.openTags build.openTags row := by
  induction row generalizing build with
  | nil => rfl
  | cons lexeme row ih =>
    rw [Stencil.openTags, ← openTags_step development, ← ih]
    rfl

/-- What is open in the end has its tags open along the row. -/
theorem map_openTag_stack_run (development : Bool) (row : List Lexeme) :
    (({} : Build).run development row).stack.map OpenElement.openTag = Stencil.openTags [] row :=
  openTags_run development {} row

theorem diagnostics_run (build : Build) (row : List Lexeme) :
    (build.run true row).journal.diagnostics =
      build.journal.diagnostics ++ findings build.openTags row := by
  induction row generalizing build with
  | nil => simp [run, findings]
  | cons lexeme row ih =>
    rw [findings, ← openTags_step true, ← List.append_assoc, ← diagnostics_step, ← ih]
    rfl

/-- At the end of the source every open tag is reported, innermost first. -/
theorem diagnostics_finishWith (top last : List Node) (stack : List OpenElement)
    (journal : Journal) :
    (finishWith true top last stack journal).journal.diagnostics =
      journal.diagnostics ++ (stack.map OpenElement.openTag).map OpenTag.unclosed := by
  induction stack generalizing last journal with
  | nil => simp [finishWith]
  | cons inner outer ih =>
    rw [finishWith, ih]
    simp [Journal.report, OpenElement.unclosedAt, OpenElement.openTag, OpenTag.unclosed]

/-- The diagnostics of a row are the findings along it, and then one for each tag that is open at its
end. -/
theorem diagnostics_finish_run (row : List Lexeme) :
    ((({} : Build).run true row).finish true).journal.diagnostics =
      findings [] row ++ (Stencil.openTags [] row).map OpenTag.unclosed := by
  rw [finish, diagnostics_finishWith, diagnostics_run, map_openTag_stack_run]
  rfl

theorem diagnostics_ofText (text : List Char) :
    (ofText true text).journal.diagnostics =
      findings [] (Source.lexemes text) ++
        (Stencil.openTags [] (Source.lexemes text)).map OpenTag.unclosed :=
  diagnostics_finish_run (Source.lexemes text)

theorem journal_step_off (build : Build) (lexeme : Lexeme) :
    (build.step false lexeme).journal = build.journal := by
  obtain ⟨start, source, item⟩ := lexeme
  cases item with
  | closing name =>
    obtain ⟨top, stack, journal⟩ := build
    cases stack with
    | nil => rfl
    | cons inner outer =>
      simp only [step, close, insert_journal]
      split <;> rfl
  | opening _ _ | leaf _ _ | text _ | binding _ | blank | comment => simp [step]

theorem journal_run_off (build : Build) (row : List Lexeme) :
    (build.run false row).journal = build.journal := by
  induction row generalizing build with
  | nil => rfl
  | cons lexeme row ih => exact (ih _).trans (journal_step_off build lexeme)

theorem journal_finishWith_off (top last : List Node) (stack : List OpenElement)
    (journal : Journal) :
    (finishWith false top last stack journal).journal = journal := by
  induction stack generalizing last journal with
  | nil => rfl
  | cons inner outer ih => rw [finishWith, Journal.report_off, ih]

/-- Outside development mode nothing is written into the journal. -/
theorem journal_ofText_off (text : List Char) : (ofText false text).journal = {} := by
  rw [ofText, finish, journal_finishWith_off, journal_run_off]

end Build

end Stencil
