import Stencil.Proofs.Boundary

/-!
# What stands between tags

Blanks and comments in front of a tag leave no trace: the tree is the same without them, and so are
the diagnostics, except that those of the text behind them stand further on. There may be any number
of them in any order (`Spacing`), and a comment may hold others. Only behind a text run they make a
difference, for there the blanks belong to the text.

The row of lexemes does change. Blanks that are put behind other blanks make one run with them, so it
is not even true that the row gets new lexemes only. What stays the same is the row without its blank
runs and comments (`Source.significant`), and from that everything else is built.

Main results:

* `Source.significant_spacing`: in front of a tag, spacing adds nothing significant;
* `Source.not_isRun_of_isRun`: two text runs never stand side by side;
* `Build.ofText_significant`: what is built from a text hangs on its significant lexemes only;
* `compile_insert_spacing`: spacing put in front of a tag changes nothing but places.
-/

namespace Stencil

open Source (Item Lexeme lexemes lexemesFrom)

/-- The texts that may stand in front of a tag without a trace: blanks and whole comments, in any
order. A whole comment is an opening mark and what closes it and all comments inside it. -/
inductive Spacing : List Char → Prop where
  | nil : Spacing []
  | blank {c : Char} {cs : List Char} (hc : Text.isBlank c = true) (h : Spacing cs) :
      Spacing (c :: cs)
  | comment {body cs : List Char} (hbody : Source.ClosesComments 0 body) (h : Spacing cs) :
      Spacing ('<' :: '!' :: '-' :: '-' :: (body ++ cs))

theorem Spacing.append {cs more : List Char} (h : Spacing cs) (hmore : Spacing more) :
    Spacing (cs ++ more) := by
  induction h with
  | nil => exact hmore
  | blank hc _ ih => exact .blank hc ih
  | @comment body cs hbody _ ih =>
    have hcomment := Spacing.comment hbody ih
    rw [← List.append_assoc] at hcomment
    exact hcomment

theorem Spacing.of_blank {cs : List Char} (h : ∀ c ∈ cs, Text.isBlank c = true) : Spacing cs := by
  induction cs with
  | nil => exact .nil
  | cons c cs ih =>
    obtain ⟨hc, hcs⟩ := List.forall_mem_cons.1 h
    exact .blank hc (ih hcs)

namespace Source

-- ---------------------------------------------------------------------------
-- Significant lexemes
-- ---------------------------------------------------------------------------

/-- Whether an item is neither a part of the tree nor a tag. -/
def Item.isSpacing : Item → Bool
  | .blank | .comment => true
  | .opening .. | .leaf .. | .closing _ | .text _ | .binding _ => false

/-- The lexemes of a row that are more than spacing. -/
def significant (row : List Lexeme) : List Lexeme :=
  row.filter fun lexeme => !lexeme.item.isSpacing

theorem significant_append (row more : List Lexeme) :
    significant (row ++ more) = significant row ++ significant more :=
  List.filter_append row more

theorem significant_cons_of_isSpacing {lexeme : Lexeme} (h : lexeme.item.isSpacing = true)
    (row : List Lexeme) : significant (lexeme :: row) = significant row := by
  simp [significant, h]

/-- Behind a blank, a run of blanks is read to its end. -/
theorem read_blank {c : Char} {cs : List Char} (hc : Text.isBlank c = true)
    (hcs : (cs.takeWhile (· != '<')).all Text.isBlank = true) :
    Item.read c cs = (.blank, cs.dropWhile (· != '<')) := by
  have htag : c ≠ '<' := by
    rintro rfl
    exact absurd hc (by decide)
  have hbrace : c ≠ '{' := by
    rintro rfl
    exact absurd hc (by decide)
  rw [Item.read.eq_def, if_neg htag, if_neg hbrace]
  simp [Item.readText, htag, hc, hcs]

/-- One blank more in front of a run of blanks makes a longer run, and in front of anything else a run
of its own. -/
theorem significant_blank {start : Nat} {c : Char} {cs : List Char} (hc : Text.isBlank c = true)
    (hcs : (cs.takeWhile (· != '<')).all Text.isBlank = true) :
    significant (lexemesFrom start (c :: cs)) =
      significant (lexemesFrom (start + c.utf8Size) cs) := by
  have hsplit : cs.takeWhile (· != '<') ++ cs.dropWhile (· != '<') = cs :=
    List.takeWhile_append_dropWhile
  have hrow : significant (lexemesFrom start (c :: cs)) =
      significant (lexemesFrom (start + Text.byteLength (c :: cs.takeWhile (· != '<')))
        (cs.dropWhile (· != '<'))) := by
    rw [lexemesFrom_cons (read_blank hc hcs) (by rw [List.cons_append, hsplit]),
      significant_cons_of_isSpacing rfl]
  rw [hrow, Text.byteLength_cons, ← Nat.add_assoc]
  cases cs with
  | nil => rfl
  | cons d ds =>
    by_cases hd : d = '<'
    · subst hd
      rfl
    · have htake : (d :: ds).takeWhile (· != '<') = d :: ds.takeWhile (· != '<') := by simp [hd]
      have hdrop : (d :: ds).dropWhile (· != '<') = ds.dropWhile (· != '<') := by simp [hd]
      rw [htake, List.all_cons, Bool.and_eq_true] at hcs
      have hread := read_blank hcs.1 hcs.2
      rw [← hdrop] at hread
      rw [lexemesFrom_cons hread hsplit.symm, significant_cons_of_isSpacing rfl]

theorem significant_comment {start : Nat} {body : List Char} (hbody : ClosesComments 0 body)
    (rest : List Char) :
    significant (lexemesFrom start ('<' :: '!' :: '-' :: '-' :: (body ++ rest))) =
      significant (lexemesFrom
        (start + Text.byteLength ('<' :: '!' :: '-' :: '-' :: body)) rest) := by
  have hread : Item.read '<' ('!' :: '-' :: '-' :: (body ++ rest)) = (.comment, rest) :=
    Prod.ext rfl (pastComment_append hbody rest)
  have htext : '<' :: '!' :: '-' :: '-' :: (body ++ rest) =
      ('<' :: '!' :: '-' :: '-' :: body) ++ rest := rfl
  rw [lexemesFrom_cons hread htext, significant_cons_of_isSpacing rfl]

/-- A text run that starts in the spacing in front of a tag is blank. -/
theorem all_takeWhile_spacing {cs : List Char} (h : Spacing cs) (rest : List Char) :
    ((cs ++ '<' :: rest).takeWhile (· != '<')).all Text.isBlank = true := by
  induction h with
  | nil => rfl
  | @blank c cs hc h ih =>
    rw [List.cons_append, List.takeWhile_cons]
    split
    · rw [List.all_cons, hc, ih]
      rfl
    · rfl
  | comment hbody h ih => rfl

/-- **In front of a tag, spacing adds nothing significant** and moves what follows. -/
theorem significant_spacing {cs : List Char} (h : Spacing cs) (start : Nat) (rest : List Char) :
    significant (lexemesFrom start (cs ++ '<' :: rest)) =
      significant (lexemesFrom (start + Text.byteLength cs) ('<' :: rest)) := by
  induction h generalizing start with
  | nil => rfl
  | @blank c cs hc h ih =>
    rw [List.cons_append, significant_blank hc (all_takeWhile_spacing h rest), ih,
      Text.byteLength_cons, Nat.add_assoc]
  | @comment body cs hbody h ih =>
    have hfront : '<' :: '!' :: '-' :: '-' :: (body ++ cs) =
        '<' :: '!' :: '-' :: '-' :: body ++ cs := rfl
    rw [hfront, List.append_assoc]
    refine (significant_comment hbody (cs ++ '<' :: rest)).trans ?_
    rw [ih, Text.byteLength_append, Nat.add_assoc]

-- ---------------------------------------------------------------------------
-- Text runs
-- ---------------------------------------------------------------------------

/-- Whether an item is a text run, of blanks or not. -/
def Item.isRun : Item → Bool
  | .text _ | .blank => true
  | .opening .. | .leaf .. | .closing _ | .binding _ | .comment => false

/-- A text run starts with a character of its own, which starts neither a tag nor a binding. -/
theorem Item.read_of_isRun {c : Char} {cs : List Char} (h : (read c cs).1.isRun = true) :
    c ≠ '<' ∧ read c cs = readText (c :: cs) := by
  rw [read.eq_def] at h ⊢
  by_cases hc : c = '<'
  · subst hc
    rw [if_pos rfl] at h
    split at h
    · simp [isRun] at h
    · simp [readClosing, isRun] at h
    · rw [readTag] at h
      split at h <;> simp [isRun] at h
  · rw [if_neg hc] at h ⊢
    by_cases hbrace : c = '{'
    · rw [if_pos hbrace] at h
      simp [readBinding, isRun] at h
    · rw [if_neg hbrace]
      exact ⟨hc, rfl⟩

/-- The first lexeme of a row and the text that is left for the others. -/
theorem read_of_lexemesFrom {start : Nat} {text : List Char} {first : Lexeme} {others : List Lexeme}
    (h : lexemesFrom start text = first :: others) :
    ∃ c cs, text = c :: cs ∧ first.item = (Item.read c cs).1 ∧
      first.source = consumed text (Item.read c cs).2 ∧
      others.flatMap Lexeme.source = (Item.read c cs).2 := by
  cases text with
  | nil =>
    rw [lexemesFrom] at h
    simp at h
  | cons c cs =>
    rw [lexemesFrom] at h
    obtain ⟨rfl, rfl⟩ := List.cons.inj h
    exact ⟨c, cs, rfl, rfl, rfl, flatMap_source_lexemesFrom _ _⟩

/-- Two text runs never stand side by side: a run only ends where a tag starts. -/
theorem not_isRun_of_isRun {start : Nat} {text : List Char} {before after : List Lexeme}
    {first second : Lexeme} (h : lexemesFrom start text = before ++ first :: second :: after)
    (hsecond : second.item.isRun = true) : first.item.isRun = false := by
  obtain ⟨c, cs, -, hitem, -, hrest⟩ := read_of_lexemesFrom (lexemesFrom_after h)
  have hbehind : lexemesFrom start text = (before ++ [first]) ++ second :: after := by
    rw [h, List.append_assoc]
    rfl
  obtain ⟨d, ds, htext, hitem', -, -⟩ := read_of_lexemesFrom (lexemesFrom_after hbehind)
  rw [hitem'] at hsecond
  by_contra hfirst
  rw [hitem, Bool.not_eq_false] at hfirst
  have hleft : (c :: cs).dropWhile (· != '<') = d :: ds := by
    rw [← htext, hrest, (Item.read_of_isRun hfirst).2]
    rfl
  have hstop := List.head?_dropWhile_not (· != '<') (c :: cs)
  rw [hleft] at hstop
  exact (Item.read_of_isRun hsecond).1 (by simpa using hstop)

/-- The text of a blank run is blank. -/
theorem spacing_of_blank {start : Nat} {text : List Char} {before after : List Lexeme}
    {lexeme : Lexeme} (h : lexemesFrom start text = before ++ lexeme :: after)
    (hblank : lexeme.item = .blank) : Spacing lexeme.source := by
  obtain ⟨c, cs, htext, hitem, hsource, -⟩ := read_of_lexemesFrom (lexemesFrom_after h)
  rw [hblank] at hitem
  have hrun := (Item.read_of_isRun (show (Item.read c cs).1.isRun = true by rw [← hitem]; rfl)).2
  rw [hrun, Item.readText] at hitem hsource
  have hall : ((c :: cs).takeWhile (· != '<')).all Text.isBlank = true := by
    by_contra hnot
    rw [if_neg hnot] at hitem
    exact absurd hitem (by simp)
  have htake : lexeme.source = (c :: cs).takeWhile (· != '<') := by
    rw [hsource, htext]
    exact consumed_eq List.takeWhile_append_dropWhile.symm
  rw [htake]
  exact Spacing.of_blank (List.all_eq_true.1 hall)

-- ---------------------------------------------------------------------------
-- Spacing that is put in
-- ---------------------------------------------------------------------------

/-- No item but a text run goes on into the spacing in front of a tag. -/
theorem Item.stopsBefore_spacing {item : Item} (hitem : item.isRun = false) {cs : List Char}
    (h : Spacing cs) (rest : List Char) : item.StopsBefore (cs ++ '<' :: rest) := by
  have hhead : (cs ++ '<' :: rest).head? ≠ some '>' := by
    cases h with
    | nil => simp
    | @blank c cs hc h =>
      rw [List.cons_append, List.head?_cons]
      rintro ⟨⟩
      exact absurd hc (by decide)
    | comment hbody h => simp
  cases item with
  | text raw => simp [isRun] at hitem
  | blank => simp [isRun] at hitem
  | leaf tag attrs => exact hhead
  | opening _ _ | closing _ | binding _ | comment => trivial

section

variable {before after : List Lexeme} {rest : List Char}

/-- Behind a lexeme that is no text run, spacing is read by itself. -/
theorem significant_insert_of_not_isRun {more : List Char} (rest : List Char)
    (hrow : lexemes (before.flatMap Lexeme.source ++ more) = before ++ after) (hmore : more ≠ [])
    (hlast : ∀ last, before.getLast? = some last → last.item.isRun = false) {cs : List Char}
    (hcs : Spacing cs) :
    significant (lexemes (before.flatMap Lexeme.source ++ (cs ++ '<' :: rest))) =
      significant before ++ significant (lexemesFrom
        (Text.byteLength (before.flatMap Lexeme.source ++ cs)) ('<' :: rest)) := by
  have hreplace := lexemesFrom_replace hrow fun last h =>
    ⟨Item.stopsBefore_spacing (hlast last h) hcs rest, fun hnil => absurd hnil hmore⟩
  rw [lexemes, hreplace, significant_append, significant_spacing hcs, Nat.zero_add,
    Text.byteLength_append]

/-- **Spacing put in front of a tag adds nothing significant** and moves what follows, unless a text
run stands in front of it. Behind blanks it goes on with the run that they are. -/
theorem significant_insert
    (hrow : lexemes (before.flatMap Lexeme.source ++ '<' :: rest) = before ++ after)
    (hlast : ∀ last raw, before.getLast? = some last → last.item ≠ .text raw) {cs : List Char}
    (hcs : Spacing cs) :
    significant (lexemes (before.flatMap Lexeme.source ++ (cs ++ '<' :: rest))) =
      significant before ++ significant (lexemesFrom
        (Text.byteLength (before.flatMap Lexeme.source ++ cs)) ('<' :: rest)) := by
  by_cases hrun : ∃ last, before.getLast? = some last ∧ last.item.isRun = true
  · obtain ⟨last, hgetLast, hrun⟩ := hrun
    obtain ⟨front, rfl⟩ := List.getLast?_eq_some_iff.1 hgetLast
    have hblank : last.item = .blank := by
      cases hitem : last.item with
      | blank => rfl
      | text raw => exact absurd hitem (hlast last raw hgetLast)
      | opening _ _ | leaf _ _ | closing _ | binding _ | comment =>
        rw [hitem] at hrun
        simp [Item.isRun] at hrun
    have hfront : (front ++ [last]).flatMap Lexeme.source =
        front.flatMap Lexeme.source ++ last.source := by simp
    rw [List.append_assoc, List.singleton_append] at hrow
    have hbefore : ∀ first, front.getLast? = some first → first.item.isRun = false := by
      intro first hfirst
      obtain ⟨init, rfl⟩ := List.getLast?_eq_some_iff.1 hfirst
      have hpair : init ++ [first] ++ last :: after = init ++ first :: last :: after := by simp
      exact not_isRun_of_isRun (hrow.trans hpair) hrun
    have hspacing : Spacing last.source := spacing_of_blank hrow hblank
    have hsame : significant (front ++ [last]) = significant front := by
      rw [significant_append, significant_cons_of_isSpacing (by rw [hblank]; rfl)]
      exact List.append_nil _
    rw [hfront, List.append_assoc] at hrow
    have hinsert := significant_insert_of_not_isRun rest hrow (by simp) hbefore
      (hspacing.append hcs)
    rw [List.append_assoc last.source] at hinsert
    rw [hsame, hfront, List.append_assoc, List.append_assoc]
    exact hinsert
  · have hnone : ∀ last, before.getLast? = some last → last.item.isRun = false := by
      intro last hgetLast
      by_contra hnot
      exact hrun ⟨last, hgetLast, by simpa using hnot⟩
    exact significant_insert_of_not_isRun rest hrow (by simp) hnone hcs

end

end Source

-- ---------------------------------------------------------------------------
-- What is built
-- ---------------------------------------------------------------------------

open Source (significant significant_insert)

theorem Build.step_of_isSpacing (development : Bool) (build : Build) {lexeme : Lexeme}
    (h : lexeme.item.isSpacing = true) : build.step development lexeme = build := by
  obtain ⟨start, source, item⟩ := lexeme
  cases item with
  | blank | comment => rfl
  | opening _ _ | leaf _ _ | closing _ | text _ | binding _ => simp [Item.isSpacing] at h

theorem Build.run_significant (development : Bool) (build : Build) (row : List Lexeme) :
    build.run development (significant row) = build.run development row := by
  induction row generalizing build with
  | nil => rfl
  | cons lexeme row ih =>
    by_cases h : lexeme.item.isSpacing = true
    · rw [Source.significant_cons_of_isSpacing h, ih]
      exact congrArg (·.run development row) (build.step_of_isSpacing development h).symm
    · have hkeep : significant (lexeme :: row) = lexeme :: significant row := by
        simp [significant, h]
      rw [hkeep]
      exact ih _

/-- What is built from a text hangs on its significant lexemes only. -/
theorem Build.ofText_significant (development : Bool) (text : List Char) :
    ofText development text =
      (({} : Build).run development (significant (lexemes text))).finish development := by
  rw [run_significant, ofText]

/-- Where a place is to be found once so many bytes have been put in at `position`. -/
def placeAfterInsert (position bytes place : Nat) : Nat :=
  if position ≤ place then place + bytes else place

section

variable {before after : List Lexeme} {rest cs : List Char}

/-- Lexemes in front of a place stay where they are when something is put in there. -/
theorem map_relocate_before (hrow : lexemes (before.flatMap Lexeme.source ++ rest) = before ++ after)
    {position : Nat} (hposition : Text.byteLength (before.flatMap Lexeme.source) ≤ position)
    (bytes : Nat) : before.map (Lexeme.relocate (placeAfterInsert position bytes)) = before := by
  refine (List.map_congr_left fun lexeme hlexeme => ?_).trans (List.map_id _)
  have hlt := Source.start_lt_of_mem hrow hlexeme
  rw [Nat.zero_add] at hlt
  rw [Lexeme.relocate, placeAfterInsert, if_neg (Nat.not_le.2 (hlt.trans_le hposition))]
  rfl

/-- Lexemes behind a place move when something is put in there. -/
theorem map_relocate_after (position bytes : Nat) (text : List Char) :
    (lexemesFrom position text).map (Lexeme.relocate (placeAfterInsert position bytes)) =
      lexemesFrom (position + bytes) text := by
  rw [Source.lexemesFrom_shift]
  refine List.map_congr_left fun lexeme hlexeme => ?_
  rw [Lexeme.relocate, placeAfterInsert, if_pos (Source.le_start_of_mem hlexeme)]
  rfl

theorem significant_map_relocate (place : Nat → Nat) (row : List Lexeme) :
    significant (row.map (Lexeme.relocate place)) =
      (significant row).map (Lexeme.relocate place) :=
  List.filter_map

/-- Where the lexemes of a row are put, there its diagnostics are found. -/
theorem Build.diagnostics_map_relocate (place : Nat → Nat) (row : List Lexeme) :
    ((({} : Build).run true (row.map (Lexeme.relocate place))).finish true).journal.diagnostics =
      ((({} : Build).run true row).finish true).journal.diagnostics.map
        (Diagnostic.relocate place) := by
  rw [diagnostics_finish_run, diagnostics_finish_run, List.map_append, ← findings_relocate,
    ← OpenTag.unclosed_relocate, ← openTags_relocate]
  rfl

/-- The significant lexemes are the same as before, those behind the spacing further on. -/
theorem significant_insert_eq_map
    (hrow : lexemes (before.flatMap Lexeme.source ++ '<' :: rest) = before ++ after)
    (hlast : ∀ last raw, before.getLast? = some last → last.item ≠ .text raw)
    (hcs : Spacing cs) :
    significant (lexemes (before.flatMap Lexeme.source ++ (cs ++ '<' :: rest))) =
      (significant (lexemes (before.flatMap Lexeme.source ++ '<' :: rest))).map
        (Lexeme.relocate (placeAfterInsert (Text.byteLength (before.flatMap Lexeme.source))
          (Text.byteLength cs))) := by
  have hplain := significant_insert hrow hlast .nil
  rw [List.nil_append, List.append_nil] at hplain
  rw [significant_insert hrow hlast hcs, hplain, List.map_append, ← significant_map_relocate,
    ← significant_map_relocate, map_relocate_before hrow le_rfl, map_relocate_after,
    Text.byteLength_append]

theorem Build.top_insert_spacing (development : Bool)
    (hrow : lexemes (before.flatMap Lexeme.source ++ '<' :: rest) = before ++ after)
    (hlast : ∀ last raw, before.getLast? = some last → last.item ≠ .text raw)
    (hcs : Spacing cs) :
    (ofText development (before.flatMap Lexeme.source ++ (cs ++ '<' :: rest))).top =
      (ofText development (before.flatMap Lexeme.source ++ '<' :: rest)).top := by
  rw [ofText_significant, ofText_significant, significant_insert_eq_map hrow hlast hcs,
    top_finish_run, top_finish_run, List.map_map]
  rfl

theorem Build.diagnostics_insert_spacing
    (hrow : lexemes (before.flatMap Lexeme.source ++ '<' :: rest) = before ++ after)
    (hlast : ∀ last raw, before.getLast? = some last → last.item ≠ .text raw)
    (hcs : Spacing cs) :
    (ofText true (before.flatMap Lexeme.source ++ (cs ++ '<' :: rest))).journal.diagnostics =
      (ofText true (before.flatMap Lexeme.source ++ '<' :: rest)).journal.diagnostics.map
        (Diagnostic.relocate (placeAfterInsert (Text.byteLength (before.flatMap Lexeme.source))
          (Text.byteLength cs))) := by
  rw [ofText_significant, ofText_significant, significant_insert_eq_map hrow hlast hcs,
    diagnostics_map_relocate]

end

-- ---------------------------------------------------------------------------
-- Compilation
-- ---------------------------------------------------------------------------

/-- **Spacing in front of a tag is invisible.** Let the scan of a source come to a tag, behind the
lexemes `before`, the last of which is no text. With blanks and whole comments put in there the tree is
the same, and the diagnostics are the same with every place from there on moved by as many bytes. -/
theorem compile_insert_spacing (development : Bool) {front rest spacing : String}
    {before after : List Lexeme} (hrow : lexemes (front ++ rest).toList = before ++ after)
    (hplace : Text.byteLength (before.flatMap Lexeme.source) = front.utf8ByteSize)
    (htag : rest.toList.head? = some '<')
    (hlast : ∀ last raw, before.getLast? = some last → last.item ≠ .text raw)
    (hspacing : Spacing spacing.toList) :
    let options : CompileOptions := { development := development, stripBlockComments := false }
    let plain := compile options (front ++ rest)
    let spaced := compile options (front ++ spacing ++ rest)
    spaced.root = plain.root ∧
      spaced.diagnostics = plain.diagnostics.map
        (Diagnostic.relocate (placeAfterInsert front.utf8ByteSize spacing.utf8ByteSize)) := by
  intro options plain spaced
  obtain ⟨tail, htail⟩ := List.head?_eq_some_iff.1 htag
  have htext := Source.flatMap_source_lexemes (front ++ rest).toList
  rw [hrow, List.flatMap_append, String.toList_append] at htext
  rw [← Text.byteLength_toList] at hplace
  obtain ⟨hfront, -⟩ := Text.append_inj_of_byteLength htext hplace
  have hplain : (front ++ rest).toList = before.flatMap Lexeme.source ++ '<' :: tail := by
    rw [String.toList_append, hfront, htail]
  have hspaced : (front ++ spacing ++ rest).toList =
      before.flatMap Lexeme.source ++ (spacing.toList ++ '<' :: tail) := by
    rw [String.toList_append, String.toList_append, hfront, htail, List.append_assoc]
  rw [hplain] at hrow
  constructor
  · have htop := Build.top_insert_spacing development hrow hlast hspacing
    rw [← hplain, ← hspaced] at htop
    exact congrArg Root.mk htop
  · cases development with
    | true =>
      have hdiagnostics := Build.diagnostics_insert_spacing hrow hlast hspacing
      rw [← hplain, ← hspaced, hfront, Text.byteLength_toList, Text.byteLength_toList]
        at hdiagnostics
      exact hdiagnostics
    | false =>
      rw [diagnostics_compile_off rfl, diagnostics_compile_off rfl, List.map_nil]

/-- Behind blanks, a blank of two bytes and a comment that holds another one, with marks that share
their characters; an element is open there, and mistakes stand on both sides. -/
theorem compile_insert_spacing_nested :
    let options : CompileOptions := { development := true, stripBlockComments := false }
    let front := "é</x><b> "
    let rest := "<c></b>"
    let spacing := "\u00A0<!--><!-- --->-->"
    (∃ before after, lexemes (front ++ rest).toList = before ++ after ∧
        Text.byteLength (before.flatMap Lexeme.source) = front.utf8ByteSize ∧
        ∀ last raw, before.getLast? = some last → last.item ≠ .text raw) ∧
      rest.toList.head? = some '<' ∧ Spacing spacing.toList ∧
      (compile options (front ++ spacing ++ rest)).root =
        ⟨[.text "é", .element "b" [] [.element "c" [] []]]⟩ ∧
      (compile options (front ++ rest)).diagnostics =
        [⟨.stray "x", 2⟩, ⟨.unclosed "c", 13⟩, ⟨.unclosed "b", 6⟩] ∧
      (compile options (front ++ spacing ++ rest)).diagnostics =
        [⟨.stray "x", 2⟩, ⟨.unclosed "c", 32⟩, ⟨.unclosed "b", 6⟩] := by
  intro options front rest spacing
  let before : List Lexeme := [⟨0, ['é'], .text "é"⟩, ⟨2, "</x>".toList, .closing "x"⟩,
    ⟨6, "<b>".toList, .opening "b" []⟩, ⟨9, [' '], .blank⟩]
  have hrow : lexemes (front ++ rest).toList = before ++
      [⟨10, "<c>".toList, .opening "c" []⟩, ⟨13, "</b>".toList, .closing "b"⟩] := by
    decide +kernel
  have hplace : Text.byteLength (before.flatMap Lexeme.source) = front.utf8ByteSize := by
    decide +kernel
  have hlast : ∀ last raw, before.getLast? = some last → last.item ≠ .text raw := by
    rintro last raw ⟨⟩
    simp
  have hbody : Source.ClosesComments 0 "><!-- --->-->".toList :=
    .skip (by decide) (by decide) <| .opening <| .skip (by decide) (by decide) <|
      .skip (by decide) (by decide) <| .closing .last
  have hspacing : Spacing spacing.toList := by
    have hchars : spacing.toList =
        '\u00A0' :: '<' :: '!' :: '-' :: '-' :: ("><!-- --->-->".toList ++ []) := by
      decide +kernel
    rw [hchars]
    exact .blank (by decide) (.comment hbody .nil)
  have htag : rest.toList.head? = some '<' := by decide +kernel
  obtain ⟨hroot, hdiagnostics⟩ := compile_insert_spacing true hrow hplace htag hlast hspacing
  have hplain : (compile options (front ++ rest)).diagnostics =
      [⟨.stray "x", 2⟩, ⟨.unclosed "c", 13⟩, ⟨.unclosed "b", 6⟩] := by decide +kernel
  refine ⟨⟨before, _, hrow, hplace, hlast⟩, htag, hspacing, ?_, hplain, ?_⟩
  · rw [hroot]
    decide +kernel
  · rw [hdiagnostics, hplain]
    decide +kernel

end Stencil
