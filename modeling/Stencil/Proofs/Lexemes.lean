import Mathlib.Data.List.Basic
import Stencil.Compile

/-!
# Where lexemes stand

A row of lexemes carries two kinds of facts: what each lexeme contributes to the tree, which does not
depend on what stands in front of it, and where each lexeme stands, counted in bytes. This module
separates the two. `items` forgets the places, and a split of a row gives back the split of the text
behind it: the text in front of a lexeme, the text it was read from, and the row that follows.

Main results:

* `items_cons`: the items of a text are those that `Item.read` finds, one behind the other;
* `lexemesFrom_split`: a lexeme of a row stands behind as many bytes as its position says, and the
  rest of the row is the row of the rest of the text;
* `pairwise_start_lexemesFrom`: positions grow along a row;
* `mark?_read`, `marks_lexemesFrom`: which tags open or close an element, and under which name,
  can be read off the text at the place of the lexeme.
-/

namespace Stencil.Source

-- ---------------------------------------------------------------------------
-- Items, without their places
-- ---------------------------------------------------------------------------

def items (text : List Char) : List Item :=
  (lexemes text).map Lexeme.item

/-- The lexeme with so many bytes more in front of it. -/
def Lexeme.shift (bytes : Nat) (lexeme : Lexeme) : Lexeme :=
  { lexeme with start := lexeme.start + bytes }

/-- What stands in front of a text moves its lexemes and changes nothing else about them. -/
theorem lexemesFrom_shift (bytes start : Nat) (text : List Char) :
    lexemesFrom (start + bytes) text = (lexemesFrom start text).map (Lexeme.shift bytes) := by
  fun_induction lexemesFrom start text with
  | case1 => rw [lexemesFrom, List.map_nil]
  | case2 start c cs found source ih =>
    rw [lexemesFrom, List.map_cons, ← ih, Nat.add_right_comm]
    rfl

theorem lexemesFrom_eq_map_shift (start : Nat) (text : List Char) :
    lexemesFrom start text = (lexemes text).map (Lexeme.shift start) := by
  have hshift := lexemesFrom_shift start 0 text
  rw [Nat.zero_add] at hshift
  exact hshift

theorem map_item_shift (bytes : Nat) (row : List Lexeme) :
    (row.map (Lexeme.shift bytes)).map Lexeme.item = row.map Lexeme.item := by
  rw [List.map_map]
  rfl

theorem map_item_lexemesFrom (start : Nat) (text : List Char) :
    (lexemesFrom start text).map Lexeme.item = items text := by
  rw [lexemesFrom_eq_map_shift, map_item_shift, items]

@[simp]
theorem items_nil : items [] = [] := by
  rw [items, lexemes, lexemesFrom, List.map_nil]

/-- The first item is the one that is read at the front, and the others are those of the rest. -/
theorem items_cons (c : Char) (cs : List Char) :
    items (c :: cs) = (Item.read c cs).1 :: items (Item.read c cs).2 := by
  rw [items, lexemes, lexemesFrom, List.map_cons, map_item_lexemesFrom]

-- ---------------------------------------------------------------------------
-- Places
-- ---------------------------------------------------------------------------

/-- A lexeme of a row was read at the place that its position says, and what follows it in the row
are the lexemes of the text behind it. -/
theorem lexemesFrom_split {start : Nat} {text : List Char} {before after : List Lexeme}
    {lexeme : Lexeme} (h : lexemesFrom start text = before ++ lexeme :: after) :
    ∃ c cs, text = before.flatMap Lexeme.source ++ c :: cs ∧
      lexeme.start = start + Text.byteLength (before.flatMap Lexeme.source) ∧
      lexeme.item = (Item.read c cs).1 ∧ after.flatMap Lexeme.source = (Item.read c cs).2 := by
  induction before generalizing start text with
  | nil =>
    cases text with
    | nil =>
      rw [lexemesFrom] at h
      simp at h
    | cons c cs =>
      rw [lexemesFrom] at h
      simp only [List.nil_append, List.cons.injEq] at h
      obtain ⟨rfl, rfl⟩ := h
      exact ⟨c, cs, by simp, by simp, rfl, flatMap_source_lexemesFrom _ _⟩
  | cons first before ih =>
    cases text with
    | nil =>
      rw [lexemesFrom] at h
      simp at h
    | cons d ds =>
      rw [lexemesFrom] at h
      simp only [List.cons_append, List.cons.injEq] at h
      obtain ⟨rfl, hrest⟩ := h
      obtain ⟨c, cs, htext, hstart, hitem, hafter⟩ := ih hrest
      have hwhole : consumed (d :: ds) (Item.read d ds).2 ++ (Item.read d ds).2 = d :: ds :=
        consumed_append ((Item.read_suffix d ds).trans (List.suffix_cons d ds))
      refine ⟨c, cs, ?_, ?_, hitem, hafter⟩
      · rw [List.flatMap_cons, List.append_assoc, ← htext]
        exact hwhole.symm
      · rw [hstart, List.flatMap_cons, Text.byteLength_append, Nat.add_assoc]

/-- Behind each lexeme of a row the others are the lexemes of the text that is left. -/
theorem lexemesFrom_after {start : Nat} {text : List Char} {before after : List Lexeme}
    (h : lexemesFrom start text = before ++ after) :
    lexemesFrom (start + Text.byteLength (before.flatMap Lexeme.source))
      (after.flatMap Lexeme.source) = after := by
  induction before generalizing start text with
  | nil =>
    have htext := flatMap_source_lexemesFrom start text
    rw [h] at htext
    rw [List.nil_append] at h htext
    rw [List.flatMap_nil, Text.byteLength_nil, Nat.add_zero, htext, h]
  | cons first before ih =>
    cases text with
    | nil =>
      rw [lexemesFrom] at h
      simp at h
    | cons c cs =>
      rw [lexemesFrom] at h
      simp only [List.cons_append, List.cons.injEq] at h
      obtain ⟨rfl, hrest⟩ := h
      have hafter := ih hrest
      rw [List.flatMap_cons, Text.byteLength_append, ← Nat.add_assoc]
      exact hafter

theorem consumed_eq {text source rest : List Char} (h : text = source ++ rest) :
    consumed text rest = source := by
  rw [h]
  simp [consumed]

/-- The first lexeme of a text and the others, when it is known what is read at the front. -/
theorem lexemesFrom_cons {start : Nat} {c : Char} {cs source rest : List Char} {item : Item}
    (hread : Item.read c cs = (item, rest)) (htext : c :: cs = source ++ rest) :
    lexemesFrom start (c :: cs) =
      ⟨start, source, item⟩ :: lexemesFrom (start + Text.byteLength source) rest := by
  rw [lexemesFrom, hread, consumed_eq htext]

/-- Only an empty row has no text. -/
theorem eq_nil_of_flatMap_source {start : Nat} {text : List Char} {before after : List Lexeme}
    (h : lexemesFrom start text = before ++ after) (hnil : before.flatMap Lexeme.source = []) :
    before = [] := by
  cases before with
  | nil => rfl
  | cons first before =>
    have hmem : first ∈ lexemesFrom start text := by
      rw [h]
      exact List.mem_cons_self
    rw [List.flatMap_cons, List.append_eq_nil_iff] at hnil
    exact absurd hnil.1 (source_ne_nil_of_mem hmem)

theorem le_start_of_mem {start : Nat} {text : List Char} {lexeme : Lexeme}
    (h : lexeme ∈ lexemesFrom start text) : start ≤ lexeme.start := by
  obtain ⟨before, after, hrow⟩ := List.append_of_mem h
  obtain ⟨c, cs, -, hstart, -⟩ := lexemesFrom_split hrow
  omega

/-- The first lexemes of a row start in the text that they make up. -/
theorem start_lt_of_mem {start : Nat} {text : List Char} {before after : List Lexeme}
    (h : lexemesFrom start text = before ++ after) {lexeme : Lexeme} (hmem : lexeme ∈ before) :
    lexeme.start < start + Text.byteLength (before.flatMap Lexeme.source) := by
  have hlexeme : lexeme ∈ lexemesFrom start text := by
    rw [h]
    exact List.mem_append_left after hmem
  have hne : lexeme.source ≠ [] := source_ne_nil_of_mem hlexeme
  obtain ⟨front, behind, rfl⟩ := List.append_of_mem hmem
  rw [List.append_assoc] at h
  obtain ⟨c, cs, -, hstart, -⟩ := lexemesFrom_split h
  have hbytes := Text.length_le_byteLength lexeme.source
  have hpos := List.length_pos_iff.2 hne
  rw [List.flatMap_append, List.flatMap_cons, Text.byteLength_append, Text.byteLength_append]
  omega

theorem pairwise_start_lexemesFrom (start : Nat) (text : List Char) :
    (lexemesFrom start text).Pairwise fun a b => a.start < b.start := by
  fun_induction lexemesFrom start text with
  | case1 => exact List.Pairwise.nil
  | case2 start c cs found source ih =>
    refine List.Pairwise.cons ?_ ih
    intro later hlater
    have hle := le_start_of_mem hlater
    -- the first lexeme has a character, hence a byte
    have hne : source ≠ [] := by
      have hmem : (⟨start, source, found.1⟩ : Lexeme) ∈ lexemesFrom start (c :: cs) := by
        rw [lexemesFrom]
        exact List.mem_cons_self
      exact source_ne_nil_of_mem hmem
    have hpos := List.length_pos_iff.2 hne
    have hbytes := Text.length_le_byteLength source
    show start < later.start
    omega

-- ---------------------------------------------------------------------------
-- The tags that nest
-- ---------------------------------------------------------------------------

/-- A tag as far as the nesting of elements is concerned. -/
inductive Mark where
  | opening (name : String)
  /-- A tag that closes whatever is open, written with the name. -/
  | closing (name : String)
deriving DecidableEq, Repr

/-- The mark that an item leaves: only a tag that opens or closes an element leaves one. -/
def Item.mark? : Item → Option Mark
  | .opening tag _ => some (.opening tag)
  | .closing name => some (.closing name)
  | .leaf .. | .text _ | .binding _ | .blank | .comment => none

def Lexeme.mark? (lexeme : Lexeme) : Option Mark :=
  lexeme.item.mark?

theorem filterMap_mark?_item (row : List Lexeme) :
    (row.map Lexeme.item).filterMap Item.mark? = row.filterMap Lexeme.mark? := by
  rw [List.filterMap_map]
  rfl

/-- The mark at the front of a text, read off the text alone. A closing tag has the name up to the
next end mark, without the ASCII blanks around it. An opening tag counts if its attributes reach to
the end mark, and not to a slash or to the end of the source. -/
def markAt? : List Char → Option Mark
  | '<' :: '!' :: '-' :: '-' :: _ => none
  | '<' :: '/' :: cs => some (.closing (String.ofList (Text.trim (cs.takeWhile (· != '>')))))
  | '<' :: cs =>
    match (readAttributes (cs.dropWhile isNameChar)).2 with
    | '>' :: _ => some (.opening (String.ofList (cs.takeWhile isNameChar)))
    | _ => none
  | _ => none

/-- A tag that is neither a comment nor a closing tag leaves a mark if it ends at its end mark. -/
theorem mark?_readTag (cs : List Char) :
    (Item.readTag cs).1.mark? =
      match (readAttributes (cs.dropWhile isNameChar)).2 with
      | '>' :: _ => some (.opening (String.ofList (cs.takeWhile isNameChar)))
      | _ => none := by
  rw [Item.readTag]
  rcases readAttributes_stop (cs.dropWhile isNameChar) with h | ⟨rest, h | h⟩
  · rw [h]
    rfl
  · rw [h]
    cases rest with
    | nil => rfl
    | cons c rest =>
      by_cases hc : c = '>'
      · subst hc
        rfl
      · simp [hc, Item.mark?]
  · rw [h]
    rfl

/-- The mark of an item is the one that stands in the text where the item was read. -/
theorem mark?_read (c : Char) (cs : List Char) :
    (Item.read c cs).1.mark? = markAt? (c :: cs) := by
  rw [Item.read.eq_def]
  by_cases hc : c = '<'
  · subst hc
    rw [if_pos rfl]
    split
    · rfl
    · rfl
    · next hcomment hclosing =>
      rw [mark?_readTag, markAt?]
      · exact hcomment
      · exact hclosing
  · have hnone : markAt? (c :: cs) = none := by
      rw [markAt?]
      all_goals simp_all
    rw [hnone, if_neg hc]
    split
    · rfl
    · rw [Item.readText]
      split <;> rfl

theorem markAt?_eq_closing {text : List Char} {name : String}
    (h : markAt? text = some (.closing name)) :
    ∃ back, text = '<' :: '/' :: back ∧
      name = String.ofList (Text.trim (back.takeWhile (· != '>'))) := by
  rw [markAt?.eq_def] at h
  split at h
  · simp at h
  · next back =>
    simp only [Option.some.injEq, Mark.closing.injEq] at h
    exact ⟨back, rfl, h.symm⟩
  · split at h <;> simp at h
  · simp at h

theorem markAt?_eq_opening {text : List Char} {name : String}
    (h : markAt? text = some (.opening name)) :
    ∃ back, text = '<' :: back ∧ name = String.ofList (back.takeWhile isNameChar) := by
  rw [markAt?.eq_def] at h
  split at h
  · simp at h
  · simp at h
  · next back _ _ =>
    split at h
    · simp only [Option.some.injEq, Mark.opening.injEq] at h
      exact ⟨back, rfl, h.symm⟩
    · simp at h
  · simp at h

theorem mark?_of_split {text : List Char} {before after : List Lexeme} {lexeme : Lexeme}
    (h : lexemes text = before ++ lexeme :: after) :
    ∃ behind, behind ≠ [] ∧ text = before.flatMap Lexeme.source ++ behind ∧
      lexeme.start = Text.byteLength (before.flatMap Lexeme.source) ∧
      lexeme.mark? = markAt? behind := by
  obtain ⟨c, cs, htext, hstart, hitem, -⟩ := lexemesFrom_split h
  refine ⟨c :: cs, List.cons_ne_nil c cs, htext, by omega, ?_⟩
  rw [Lexeme.mark?, hitem, mark?_read]

/-- The marks of a row in the order of the row. Each is read off the text from its lexeme on, which is
what the lexemes from there on were read from. -/
def marks : List Lexeme → List Mark
  | [] => []
  | lexeme :: row =>
    (markAt? ((lexeme :: row).flatMap Lexeme.source)).toList ++ marks row

/-- The marks that stand in a text are those that its lexemes leave. -/
theorem marks_lexemesFrom (start : Nat) (text : List Char) :
    marks (lexemesFrom start text) = (lexemesFrom start text).filterMap Lexeme.mark? := by
  fun_induction lexemesFrom start text with
  | case1 => rfl
  | case2 start c cs found source ih =>
    have htext : ((⟨start, source, found.1⟩ : Lexeme) ::
        lexemesFrom (start + Text.byteLength source) found.2).flatMap Lexeme.source = c :: cs := by
      rw [List.flatMap_cons, flatMap_source_lexemesFrom]
      exact consumed_append ((Item.read_suffix c cs).trans (List.suffix_cons c cs))
    have hmark : (⟨start, source, found.1⟩ : Lexeme).mark? = markAt? (c :: cs) := mark?_read c cs
    rw [marks, htext, ih, ← hmark, List.filterMap_cons]
    split
    · next hnone => rw [hnone]; rfl
    · next mark hsome => rw [hsome]; rfl

end Stencil.Source
