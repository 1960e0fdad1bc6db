import Mathlib.Data.List.Nodup
import Stencil.Proofs.Findings

/-!
# Places of the diagnostics

A diagnostic names a place in the source as a number of bytes. Those of closing tags come first, in
the order of the source; those of elements that only the end closes come last and run backwards, from
the innermost element outwards. Between them no place occurs twice, and every place is one where a
character of the source starts.

Which element a closing tag is held against is said here without a stack: an element is the innermost
open one behind a row if it was opened in the row and everything from there on is balanced, that is,
each tag that opens an element has a closing tag, whatever its name (`Innermost`, `Balanced`).

Main results:

* `innermost_iff`: the innermost open element is the one on top of the builder's stack;
* `diagnostics_located`: what the diagnostics of a source are, and where they stand.
-/

namespace Stencil

open Source (Lexeme Mark)

-- ---------------------------------------------------------------------------
-- The innermost open element
-- ---------------------------------------------------------------------------

/-- The rows in which every tag that opens an element is followed by a closing tag of its own and no
closing tag is left over. Names play no part. -/
inductive Balanced : List Lexeme → Prop where
  | nil : Balanced []
  | skip {lexeme : Lexeme} {row : List Lexeme} (hmark : lexeme.mark? = none) (hrow : Balanced row) :
      Balanced (lexeme :: row)
  | element {first last : Lexeme} {name other : String} {inner rest : List Lexeme}
      (hfirst : first.mark? = some (.opening name)) (hinner : Balanced inner)
      (hlast : last.mark? = some (.closing other)) (hrest : Balanced rest) :
      Balanced (first :: inner ++ last :: rest)

/-- Behind the row, the element that a tag of the row opened under a name is open, and it is the
innermost one. -/
def Innermost (row : List Lexeme) (tag : Lexeme) (name : String) : Prop :=
  ∃ outer inner, row = outer ++ tag :: inner ∧ tag.mark? = some (.opening name) ∧ Balanced inner

theorem Balanced.append {row more : List Lexeme} (h : Balanced row) (hmore : Balanced more) :
    Balanced (row ++ more) := by
  induction h with
  | nil => exact hmore
  | skip hmark _ ih => exact .skip hmark ih
  | element hfirst hinner hlast _ _ ihrest =>
    rw [List.append_assoc]
    exact .element hfirst hinner hlast ihrest

theorem Balanced.openTags_eq {row : List Lexeme} (h : Balanced row) (outer : List OpenTag) :
    openTags outer row = outer := by
  induction h generalizing outer with
  | nil => rfl
  | skip hmark _ ih => rw [openTags, Lexeme.openTags, hmark, ih]
  | element hfirst _ hlast _ ihinner ihrest =>
    rw [openTags_append, openTags, ihrest, openTags, ihinner, Lexeme.openTags, hlast,
      Lexeme.openTags, hfirst]
    rfl

/-- The innermost open tag stands in the row, what follows it there is balanced, and the other open
tags are those of the row in front of it. -/
theorem exists_innermost {row : List Lexeme} {tag : OpenTag} {outer : List OpenTag}
    (h : openTags [] row = tag :: outer) :
    ∃ front lexeme inner, row = front ++ lexeme :: inner ∧
      lexeme.mark? = some (.opening tag.name) ∧ lexeme.start = tag.start ∧ Balanced inner ∧
      openTags [] front = outer := by
  -- induction on the length: a closing tag at the end of the row leads back to the row in front of
  -- the element that it closes
  induction hlength : row.length using Nat.strongRecOn generalizing row tag outer with
  | ind n ih =>
    rcases List.eq_nil_or_concat row with rfl | ⟨before, last, rfl⟩
    · simp [openTags] at h
    · rw [List.concat_eq_append, List.length_append, List.length_singleton] at hlength
      rw [List.concat_eq_append, openTags_append, openTags, openTags] at h
      rw [List.concat_eq_append]
      cases hmark : last.mark? with
      | none =>
        rw [Lexeme.openTags, hmark] at h
        obtain ⟨front, lexeme, inner, rfl, hname, hstart, hinner, hfront⟩ :=
          ih before.length (by omega) h rfl
        exact ⟨front, lexeme, inner ++ [last], by simp, hname, hstart,
          hinner.append (.skip hmark .nil), hfront⟩
      | some mark =>
        cases mark with
        | opening name =>
          rw [Lexeme.openTags, hmark] at h
          simp only [List.cons.injEq] at h
          obtain ⟨rfl, rfl⟩ := h
          exact ⟨before, last, [], rfl, hmark, rfl, .nil, rfl⟩
        | closing name =>
          rw [Lexeme.openTags, hmark] at h
          cases hopen : openTags [] before with
          | nil => simp [hopen] at h
          | cons closed others =>
            rw [hopen, List.tail_cons] at h
            subst h
            obtain ⟨middle, first, content, rfl, hfirst, -, hcontent, hmiddle⟩ :=
              ih before.length (by omega) hopen rfl
            have hshort : middle.length < n := by
              rw [List.length_append, List.length_cons] at hlength
              omega
            obtain ⟨front, lexeme, inner, rfl, hname, hstart, hinner, hfront⟩ :=
              ih middle.length hshort hmiddle rfl
            exact ⟨front, lexeme, inner ++ (first :: content ++ [last]), by simp, hname, hstart,
              hinner.append (.element hfirst hcontent hmark .nil), hfront⟩

theorem innermost_iff {row : List Lexeme} {name : String} :
    (∃ tag, Innermost row tag name) ↔
      ∃ tag outer, openTags [] row = tag :: outer ∧ tag.name = name := by
  constructor
  · rintro ⟨tag, front, inner, rfl, hmark, hinner⟩
    refine ⟨⟨name, tag.start⟩, openTags [] front, ?_, rfl⟩
    rw [openTags_append, openTags, hinner.openTags_eq, Lexeme.openTags, hmark]
  · rintro ⟨tag, outer, hopen, rfl⟩
    obtain ⟨front, lexeme, inner, hrow, hmark, -, hinner, -⟩ := exists_innermost hopen
    exact ⟨lexeme, front, inner, hrow, hmark, hinner⟩

-- ---------------------------------------------------------------------------
-- The two kinds of diagnostics
-- ---------------------------------------------------------------------------

/-- A diagnostic that stands at a closing tag of a text, at its `</`. Either no element is open there
and the diagnostic bears what the tag says, up to the end mark and trimmed; or it bears the name of
the innermost open element, which is another one. -/
def AtClosingTag (text : List Char) (d : Diagnostic) : Prop :=
  ∃ before lexeme after back,
    Source.lexemes text = before ++ lexeme :: after ∧
    text = before.flatMap Lexeme.source ++ '<' :: '/' :: back ∧
    d.position = Text.byteLength (before.flatMap Lexeme.source) ∧
    ∃ said, said = String.ofList (Text.trim (back.takeWhile (· != '>'))) ∧
      ((d.finding = .stray said ∧ ∀ tag name, ¬Innermost before tag name) ∨
        ∃ tag name, Innermost before tag name ∧ name ≠ said ∧ d.finding = .unclosed name)

/-- A diagnostic that stands at the `<` of an opening tag of a text and bears the name of the tag. -/
def AtOpeningTag (text : List Char) (d : Diagnostic) : Prop :=
  ∃ before lexeme after back name,
    Source.lexemes text = before ++ lexeme :: after ∧ lexeme.mark? = some (.opening name) ∧
    text = before.flatMap Lexeme.source ++ '<' :: back ∧
    d.position = Text.byteLength (before.flatMap Lexeme.source) ∧
    name = String.ofList (back.takeWhile Source.isNameChar) ∧ d.finding = .unclosed name

theorem atClosingTag_of_mem_findings {text : List Char} {d : Diagnostic}
    (h : d ∈ findings [] (Source.lexemes text)) : AtClosingTag text d := by
  obtain ⟨before, lexeme, after, hrow, hd⟩ := mem_findings h
  obtain ⟨hposition, said, hmark, hfinding⟩ := Lexeme.mem_findings hd
  obtain ⟨behind, -, htext, hstart, hbehind⟩ := Source.mark?_of_split hrow
  rw [hmark] at hbehind
  obtain ⟨back, rfl, hsaid⟩ := Source.markAt?_eq_closing hbehind.symm
  refine ⟨before, lexeme, after, back, hrow, htext, by rw [hposition, hstart], said, hsaid, ?_⟩
  rcases hfinding with ⟨hnone, hstray⟩ | ⟨inner, rest, hopen, hname, hunclosed⟩
  · refine Or.inl ⟨hstray, ?_⟩
    intro tag name hinnermost
    obtain ⟨inner, rest, hopen, -⟩ := innermost_iff.1 ⟨tag, hinnermost⟩
    rw [hnone] at hopen
    exact List.cons_ne_nil inner rest hopen.symm
  · obtain ⟨tag, hinnermost⟩ := innermost_iff.2 ⟨inner, rest, hopen, rfl⟩
    exact Or.inr ⟨tag, inner.name, hinnermost, hname, hunclosed⟩

theorem atOpeningTag_of_mem_openTags {text : List Char} {tag : OpenTag}
    (h : tag ∈ openTags [] (Source.lexemes text)) : AtOpeningTag text tag.unclosed := by
  rcases mem_openTags h with hnil | ⟨lexeme, hmem, hmark, hplace⟩
  · simp at hnil
  · obtain ⟨before, after, hrow⟩ := List.append_of_mem hmem
    obtain ⟨behind, -, htext, hstart, hbehind⟩ := Source.mark?_of_split hrow
    rw [hmark] at hbehind
    obtain ⟨back, rfl, hname⟩ := Source.markAt?_eq_opening hbehind.symm
    exact ⟨before, lexeme, after, back, tag.name, hrow, hmark, htext, by rw [← hstart, hplace]; rfl,
      hname, rfl⟩

-- ---------------------------------------------------------------------------
-- The order of the diagnostics
-- ---------------------------------------------------------------------------

theorem pairwise_start_lexemes (text : List Char) :
    ((Source.lexemes text).map Lexeme.start).Pairwise (· < ·) :=
  List.pairwise_map.2 (Source.pairwise_start_lexemesFrom 0 text)

/-- No place is reported both along the row and at the end: closing tags and opening tags are different
lexemes, and each has a place of its own. -/
theorem position_ne_start {text : List Char} {d : Diagnostic} {tag : OpenTag}
    (hd : d ∈ findings [] (Source.lexemes text))
    (htag : tag ∈ openTags [] (Source.lexemes text)) : d.position ≠ tag.start := by
  intro heq
  obtain ⟨before, closing, after, hrow, hfinding⟩ := mem_findings hd
  obtain ⟨hposition, said, hclosing, -⟩ := Lexeme.mem_findings hfinding
  rcases mem_openTags htag with hnil | ⟨opening, hopening, hmark, hstart⟩
  · simp at hnil
  · have hmem : closing ∈ Source.lexemes text := by
      rw [hrow]
      exact List.mem_append_right before List.mem_cons_self
    have hnodup : ((Source.lexemes text).map Lexeme.start).Nodup :=
      (pairwise_start_lexemes text).imp Nat.ne_of_lt
    have hsame : closing = opening :=
      List.inj_on_of_nodup_map hnodup hmem hopening (by rw [← hposition, heq, hstart])
    rw [hsame, hmark] at hclosing
    simp at hclosing

theorem position_map_unclosed (tags : List OpenTag) :
    (tags.map OpenTag.unclosed).map Diagnostic.position = tags.map OpenTag.start := by
  rw [List.map_map]
  rfl

theorem pairwise_position_findings (text : List Char) :
    ((findings [] (Source.lexemes text)).map Diagnostic.position).Pairwise (· < ·) :=
  (pairwise_start_lexemes text).sublist (findings_positions_sublist [] _)

theorem pairwise_start_openTags (text : List Char) :
    ((openTags [] (Source.lexemes text)).map OpenTag.start).Pairwise (· > ·) := by
  have hreverse := (pairwise_start_lexemes text).sublist
    (openTags_starts_sublist [] (Source.lexemes text))
  exact List.pairwise_reverse.1 hreverse

theorem nodup_position_diagnostics (text : List Char) :
    ((findings [] (Source.lexemes text) ++
      (openTags [] (Source.lexemes text)).map OpenTag.unclosed).map Diagnostic.position).Nodup := by
  rw [List.map_append, position_map_unclosed]
  refine List.nodup_append.2 ⟨(pairwise_position_findings text).imp Nat.ne_of_lt,
    (pairwise_start_openTags text).imp Nat.ne_of_gt, ?_⟩
  intro p hp q hq
  obtain ⟨d, hd, rfl⟩ := List.mem_map.1 hp
  obtain ⟨tag, htag, rfl⟩ := List.mem_map.1 hq
  exact position_ne_start hd htag

-- ---------------------------------------------------------------------------
-- Bytes and characters
-- ---------------------------------------------------------------------------

/-- Behind the bytes of a front part another character starts, and the source goes on. -/
theorem boundary_of_split {text front behind : List Char} (htext : text = front ++ behind)
    (hbehind : behind ≠ []) :
    (⟨Text.byteLength front⟩ : String.Pos.Raw).IsValid (String.ofList text) ∧
      Text.byteLength front < (String.ofList text).utf8ByteSize := by
  subst htext
  constructor
  · exact Text.isValid_byteLength front behind
  · have hpos := List.length_pos_iff.2 hbehind
    have hbytes := Text.length_le_byteLength behind
    rw [← Text.byteLength_eq_utf8ByteSize, Text.byteLength_append]
    omega

-- ---------------------------------------------------------------------------
-- Diagnostics of a source
-- ---------------------------------------------------------------------------

/-- **Where the diagnostics of a source stand.** In development mode they are those of closing tags, in
the order of the source, and then those of the elements that are open at the end, from the last tag
back to the first. All of them stand at places of their own, each at the start of a character. -/
theorem diagnostics_located (strip : Bool) (source : String) :
    let options : CompileOptions := { development := true, stripBlockComments := strip }
    let text := options.prepare source.toList
    ∃ atTags atEnd : List Diagnostic,
      (compile options source).diagnostics = atTags ++ atEnd ∧
      (∀ d ∈ atTags, AtClosingTag text d) ∧
      (atTags.map Diagnostic.position).Pairwise (· < ·) ∧
      (∀ d ∈ atEnd, AtOpeningTag text d) ∧
      (atEnd.map Diagnostic.position).Pairwise (· > ·) ∧
      ((atTags ++ atEnd).map Diagnostic.position).Nodup ∧
      ∀ d ∈ atTags ++ atEnd,
        (⟨d.position⟩ : String.Pos.Raw).IsValid (String.ofList text) ∧
          d.position < (String.ofList text).utf8ByteSize := by
  intro options text
  have hTags : ∀ d ∈ findings [] (Source.lexemes text), AtClosingTag text d := by
    intro d hd
    exact atClosingTag_of_mem_findings hd
  have hEnd : ∀ d ∈ (openTags [] (Source.lexemes text)).map OpenTag.unclosed,
      AtOpeningTag text d := by
    intro d hd
    obtain ⟨tag, htag, rfl⟩ := List.mem_map.1 hd
    exact atOpeningTag_of_mem_openTags htag
  refine ⟨findings [] (Source.lexemes text),
    (openTags [] (Source.lexemes text)).map OpenTag.unclosed, Build.diagnostics_ofText text, hTags,
    pairwise_position_findings text, hEnd, ?_, nodup_position_diagnostics text, ?_⟩
  · rw [position_map_unclosed]
    exact pairwise_start_openTags text
  · intro d hd
    -- at either kind of tag the source goes on, with a `<`
    rcases List.mem_append.1 hd with hd | hd
    · obtain ⟨before, lexeme, after, back, -, htext, hposition, -⟩ := hTags d hd
      rw [hposition]
      exact boundary_of_split htext (List.cons_ne_nil _ _)
    · obtain ⟨before, lexeme, after, back, name, -, -, htext, hposition, -⟩ := hEnd d hd
      rw [hposition]
      exact boundary_of_split htext (List.cons_ne_nil _ _)

end Stencil
