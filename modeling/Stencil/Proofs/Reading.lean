import Stencil.Proofs.Stretches

/-!
# Reading what was written

Each reader, applied to a piece of a written template with anything behind it, stops right where the
piece ends. What may follow is told as narrowly as the reader needs it: a name needs a character that
belongs to no name, a text needs a tag or the end, and all the others need nothing.

Main results:

* `readAttributes_renders`: the attributes of a tag are read back, up to the end of the tag;
* `items_text`, `items_binding`, `items_closing`, `items_leaf`, `items_opening`: each piece of a
  written template is one item, and the next item is read behind it.
-/

namespace Stencil.Source

open Template

-- ---------------------------------------------------------------------------
-- Attributes
-- ---------------------------------------------------------------------------

theorem readAttribute_of_equals {cs rest : List Char} (h : cs.dropWhile isNameChar = '=' :: rest) :
    readAttribute cs =
      (⟨String.ofList (cs.takeWhile isNameChar), (readValue rest).1⟩, (readValue rest).2) := by
  rw [readAttribute, h]
  rfl

theorem readAttribute_of_none {cs : List Char}
    (h : (cs.dropWhile isNameChar).head? ≠ some '=') :
    readAttribute cs =
      (⟨String.ofList (cs.takeWhile isNameChar), .literal ""⟩, cs.dropWhile isNameChar) := by
  rw [readAttribute]
  split
  · next rest hrest =>
    rw [hrest] at h
    exact absurd rfl h
  · rfl

/-- An attribute takes the character it starts with, unless a blank or the end of the tag comes
first. -/
theorem readAttribute_suffix_tail {c : Char} {cs : List Char} (hstop : ¬(c = '/' ∨ c = '>'))
    (hblank : ¬Text.isBlank c = true) : (readAttribute (c :: cs)).2 <:+ cs := by
  have hlt : (readAttribute (c :: cs)).2.length < (c :: cs).length :=
    length_readAttribute hstop hblank
  have hsuffix : (readAttribute (c :: cs)).2 <:+ c :: cs :=
    (readAttribute_suffix (c :: cs)).trans (List.dropWhile_suffix isNameChar)
  rcases List.suffix_cons_iff.1 hsuffix with hall | htail
  · rw [hall] at hlt
    exact absurd hlt (Nat.lt_irrefl _)
  · exact htail

theorem readAttribute_value {name : List Char} (hname : ∀ c ∈ name, isNameChar c = true)
    (rest : List Char) :
    readAttribute (name ++ '=' :: rest) =
      (⟨String.ofList name, (readValue rest).1⟩, (readValue rest).2) := by
  obtain ⟨htake, hdrop⟩ := span_append hname ('=' :: rest) (by simp [isNameChar])
  rw [readAttribute_of_equals hdrop, htake]

theorem readAttribute_bare {name : List Char} (hname : ∀ c ∈ name, isNameChar c = true)
    {rest : List Char} (hrest : ∀ c, rest.head? = some c → isNameChar c = false ∧ c ≠ '=') :
    readAttribute (name ++ rest) = (⟨String.ofList name, .literal ""⟩, rest) := by
  obtain ⟨htake, hdrop⟩ := span_append hname rest fun c hc => (hrest c hc).1
  have hequals : rest.head? ≠ some '=' := fun h => (hrest '=' h).2 rfl
  rw [readAttribute_of_none (by rwa [hdrop]), htake, hdrop]

/-- Where an attribute starts, it is the first one, and the others are read behind it. -/
theorem readAttributes_cons {c : Char} {cs rest : List Char} {attr : Attribute}
    (hstart : isNameChar c = true ∨ c = '=') (h : readAttribute (c :: cs) = (attr, rest)) :
    readAttributes (' ' :: c :: cs) =
      (attr :: (readAttributes rest).1, (readAttributes rest).2) := by
  have hstop : ¬(c = '/' ∨ c = '>') := by
    rintro (rfl | rfl) <;> revert hstart <;> decide
  have hblank : ¬Text.isBlank c = true := by
    rcases hstart with hname | rfl
    · intro hblank
      simp [isNameChar, hblank] at hname
    · decide
  rw [readAttributes, dif_neg (by decide), dif_pos (by decide), readAttributes, dif_neg hstop,
    dif_neg hblank, h]

/-- Behind a written attribute a space or the end of the tag follows. -/
theorem head?_rendersAttrs {attrs : List Attr} {written rest : List Char}
    (h : RendersAttrs attrs written) (hrest : rest.head? = some '/' ∨ rest.head? = some '>') :
    ∀ c, (written ++ rest).head? = some c → c = ' ' ∨ c = '/' ∨ c = '>' := by
  intro c hc
  cases h with
  | nil =>
    rw [List.nil_append] at hc
    rcases hrest with hslash | hend
    · exact Or.inr (Or.inl (Option.some.inj (hc.symm.trans hslash)))
    · exact Or.inr (Or.inr (Option.some.inj (hc.symm.trans hend)))
  | cons hfirst _ =>
    cases hfirst <;> exact Or.inl (Option.some.inj hc.symm)

/-- A name and a value with an equals sign between them are one attribute. -/
theorem readAttributes_value (name : AttrName) {behind rest : List Char} {value : AttrValue}
    (hvalue : readValue behind = (value, rest)) :
    readAttributes (' ' :: name.chars ++ '=' :: behind) =
      (⟨String.ofList name.chars, value⟩ :: (readAttributes rest).1, (readAttributes rest).2) := by
  have hread := readAttribute_value name.isNameChar behind
  rw [hvalue] at hread
  cases hchars : name.chars with
  | nil =>
    -- an attribute may begin with the equals sign
    rw [hchars] at hread
    exact readAttributes_cons (Or.inr rfl) hread
  | cons c cs =>
    rw [hchars] at hread
    exact readAttributes_cons (Or.inl (name.isNameChar c (by simp [hchars]))) hread

theorem readValue_quoted {quote : Char} (hquote : quote = '"' ∨ quote = '\'') {chars : List Char}
    (hchars : quote ∉ chars) (rest : List Char) :
    readValue (quote :: (chars ++ quote :: rest)) = (.literal (String.ofList chars), rest) := by
  have hmark : (quote == '"' || quote == '\'') = true := by simpa using hquote
  rw [readValue, if_pos hmark, upTo_append hchars]

theorem readValue_braces {source : List Char} (h : BracesBalanced source) (rest : List Char) :
    readValue ('{' :: (source ++ '}' :: rest)) =
      (.expression (Expression.ofChars source), rest) := by
  rw [readValue, if_neg (by decide), if_pos (by decide), braced_append h]

/-- A written attribute is read as it is meant, whatever follows a value, and up to the next space or
the end of the tag where it has none. -/
theorem readAttributes_rendersAttr {attr : Attr} {written rest : List Char}
    (h : RendersAttr attr written)
    (hrest : ∀ c, rest.head? = some c → c = ' ' ∨ c = '/' ∨ c = '>') :
    readAttributes (written ++ rest) =
      (attr.attribute :: (readAttributes rest).1, (readAttributes rest).2) := by
  cases h with
  | @bare name quotable hname =>
    have hread : readAttribute (name.chars ++ rest) =
        (⟨String.ofList name.chars, .literal ""⟩, rest) :=
      readAttribute_bare name.isNameChar fun c hc => by
        rcases hrest c hc with rfl | rfl | rfl <;> decide
    obtain ⟨c, cs, hchars⟩ := List.exists_cons_of_ne_nil hname
    have hstart : isNameChar c = true := name.isNameChar c (by simp [hchars])
    have hattr : (⟨name, .literal [] quotable⟩ : Attr).attribute =
        ⟨String.ofList (c :: cs), .literal ""⟩ := by
      rw [Attr.attribute, hchars]
    rw [hchars] at hread
    rw [hattr, hchars]
    exact readAttributes_cons (Or.inl hstart) hread
  | @double name chars quotable hchars =>
    rw [List.append_assoc, List.append_assoc]
    exact readAttributes_value name (readValue_quoted (Or.inl rfl) hchars rest)
  | @single name chars quotable hchars =>
    rw [List.append_assoc, List.append_assoc]
    exact readAttributes_value name (readValue_quoted (Or.inr rfl) hchars rest)
  | @braces name source balanced =>
    rw [List.append_assoc, List.append_assoc]
    exact readAttributes_value name (readValue_braces balanced rest)

theorem readAttributes_renders {attrs : List Attr} {written rest : List Char}
    (h : RendersAttrs attrs written) (hrest : rest.head? = some '/' ∨ rest.head? = some '>') :
    readAttributes (written ++ rest) = (attrs.map Attr.attribute, rest) := by
  induction h with
  | nil =>
    obtain ⟨c, cs, hcs⟩ : ∃ c cs, rest = c :: cs := by
      cases rest with
      | nil => simp at hrest
      | cons c cs => exact ⟨c, cs, rfl⟩
    have hstop : c = '/' ∨ c = '>' := by simpa [hcs] using hrest
    rw [List.nil_append, hcs, readAttributes, dif_pos hstop]
    rfl
  | @cons attr attrs first others hfirst hothers ih =>
    rw [List.append_assoc,
      readAttributes_rendersAttr hfirst (head?_rendersAttrs hothers hrest), ih]
    rfl

-- ---------------------------------------------------------------------------
-- Items
-- ---------------------------------------------------------------------------

/-- A text with a tag or nothing behind it is one item. -/
theorem items_text (run : TextRun) {rest : List Char}
    (hrest : ∀ c, rest.head? = some c → c = '<') :
    items (run.chars ++ rest) =
      .text (String.ofList (Text.escaped run.chars)) :: items rest := by
  have hother : ∀ c ∈ run.chars, (c != '<') = true := by
    intro c hc
    rw [bne_iff_ne]
    rintro rfl
    exact run.no_tag hc
  obtain ⟨htake, hdrop⟩ := span_append hother rest fun c hc => by simp [hrest c hc]
  obtain ⟨c, cs, hchars⟩ : ∃ c cs, run.chars = c :: cs := by
    cases hchars : run.chars with
    | nil =>
      have := run.not_blank
      simp [hchars] at this
    | cons c cs => exact ⟨c, cs, rfl⟩
  have htag : c ≠ '<' := by
    have := hother c (by simp [hchars])
    simpa using this
  have hbrace : c ≠ '{' := by
    have := run.not_binding
    simpa [hchars] using this
  have hread : Item.read c (cs ++ rest) =
      (.text (String.ofList (Text.escaped run.chars)), rest) := by
    rw [Item.read.eq_def, if_neg htag, if_neg hbrace, ← List.cons_append, ← hchars, Item.readText,
      htake, hdrop, run.not_blank]
    rfl
  rw [hchars, List.cons_append, items_cons, hread, hchars]

theorem items_binding {source : List Char} (h : BracesBalanced source) (rest : List Char) :
    items ('{' :: (source ++ '}' :: rest)) =
      .binding (Expression.ofChars source) :: items rest := by
  rw [items_cons, Item.read.eq_def, if_neg (by decide), if_pos rfl, Item.readBinding,
    braced_append h]

/-- The name of a closing tag is read back as it is if no character in it would end it. -/
theorem read_closing {name : List Char} (hname : ∀ c ∈ name, isNameChar c = true)
    (rest : List Char) :
    Item.read '<' ('/' :: (name ++ '>' :: rest)) = (.closing (String.ofList name), rest) := by
  have hend : '>' ∉ name := by
    intro hmem
    have := hname '>' hmem
    simp [isNameChar] at this
  have htrim : Text.trim name = name := by
    refine Text.trim_of_none fun c hc => ?_
    by_contra hblank
    rw [Bool.not_eq_false] at hblank
    have := hname c hc
    simp [isNameChar, Text.isBlank_of_isAsciiBlank hblank] at this
  show Item.readClosing (name ++ '>' :: rest) = _
  rw [Item.readClosing, upTo_append hend, htrim]

theorem items_closing {name : List Char} (hname : ∀ c ∈ name, isNameChar c = true)
    (rest : List Char) :
    items ('<' :: '/' :: (name ++ '>' :: rest)) = .closing (String.ofList name) :: items rest := by
  rw [items_cons, read_closing hname]

/-- Behind the `<` of a tag with a name neither a comment nor a closing tag begins. -/
theorem read_tag (tag : TagName) {behind : List Char}
    (hbehind : ∀ c, behind.head? = some c → isNameChar c = false) :
    Item.read '<' (tag.chars ++ behind) = Item.readTag (tag.chars ++ behind) := by
  obtain ⟨htake, -⟩ := span_append tag.isNameChar behind hbehind
  rw [Item.read.eq_def, if_pos rfl]
  split
  · next rest heq =>
    -- the name would have to begin like a comment
    rw [heq] at htake
    refine absurd ?_ tag.not_comment
    rw [← htake]
    exact ⟨rest.takeWhile isNameChar, by simp [isNameChar, Text.isBlank]⟩
  · next rest heq =>
    rw [heq] at htake
    exact absurd (htake.symm.trans (by simp [isNameChar])) tag.ne_nil
  · rfl

/-- A tag is read up to the character that ends it, with its name and its attributes. -/
theorem read_tag_renders (tag : TagName) {attrs : List Attr} {written : List Char}
    (h : RendersAttrs attrs written) (rest : List Char)
    (hrest : rest.head? = some '/' ∨ rest.head? = some '>') :
    Item.read '<' (tag.chars ++ (written ++ rest)) = Item.readTag (tag.chars ++ (written ++ rest)) ∧
      (tag.chars ++ (written ++ rest)).takeWhile isNameChar = tag.chars ∧
      readAttributes ((tag.chars ++ (written ++ rest)).dropWhile isNameChar) =
        (attrs.map Attr.attribute, rest) := by
  have hbehind : ∀ c, (written ++ rest).head? = some c → isNameChar c = false := by
    intro c hc
    rcases head?_rendersAttrs h hrest c hc with rfl | rfl | rfl <;> decide
  obtain ⟨htake, hdrop⟩ := span_append tag.isNameChar (written ++ rest) hbehind
  refine ⟨read_tag tag hbehind, htake, ?_⟩
  rw [hdrop]
  exact readAttributes_renders h hrest

theorem items_leaf (tag : TagName) {attrs : List Attr} {written : List Char}
    (h : RendersAttrs attrs written) (rest : List Char) :
    items ('<' :: (tag.chars ++ (written ++ '/' :: '>' :: rest))) =
      .leaf (String.ofList tag.chars) (attrs.map Attr.attribute) :: items rest := by
  obtain ⟨hread, htake, hattrs⟩ := read_tag_renders tag h ('/' :: '>' :: rest) (Or.inl rfl)
  rw [items_cons, hread, Item.readTag, htake, hattrs]
  rfl

theorem items_opening (tag : TagName) {attrs : List Attr} {written : List Char}
    (h : RendersAttrs attrs written) (rest : List Char) :
    items ('<' :: (tag.chars ++ (written ++ '>' :: rest))) =
      .opening (String.ofList tag.chars) (attrs.map Attr.attribute) :: items rest := by
  obtain ⟨hread, htake, hattrs⟩ := read_tag_renders tag h ('>' :: rest) (Or.inr rfl)
  rw [items_cons, hread, Item.readTag, htake, hattrs]
  rfl

end Stencil.Source
