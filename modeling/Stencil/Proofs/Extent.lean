import Stencil.Proofs.Reading

/-!
# How far an item reaches

A reader is given all the text that is left and finds out for itself where to stop. What it reads
hangs on the characters that it takes and on little else: if it stops inside a front part of the text,
anything else may follow that part and the same is read. Each lemma exchanges what follows: from
`cs ++ more`, of which `rest ++ more` is left, to `cs ++ other`.

There are three provisos. A reader that has come to the end of the text must not have been cut off
there (`CutOff`). A text run goes on up to a tag, and a slash takes an end mark along that stands
right behind it (`Item.StopsBefore`). And a bare value stops in front of a slash only if the end mark
follows that, so inside a tag nothing may be exchanged between the two.

Main results:

* `readAttributes_replace`: attributes do not hang on what stands behind the end of their tag;
* `Item.read_replace`: no item hangs on what stands behind it.
-/

namespace Stencil.Source

-- ---------------------------------------------------------------------------
-- Where an item ends
-- ---------------------------------------------------------------------------

/-- The item at the front of a text is cut off by the end of the text: the mark that would end it does
not come any more. A tag is ended by a slash too. A text run is never cut off. -/
def CutOff : List Char → Prop
  | '<' :: '!' :: '-' :: '-' :: cs => ¬∃ body behind, cs = body ++ behind ∧ ClosesComments 0 body
  | '<' :: '/' :: cs => '>' ∉ cs
  | '<' :: cs => (readAttributes (cs.dropWhile isNameChar)).2 = []
  | '{' :: cs => ¬∃ body behind, cs = body ++ '}' :: behind ∧ BracesBalanced body
  | _ => False

/-- What an item may stand in front of without going on into it. -/
def Item.StopsBefore : Item → List Char → Prop
  | .text _, behind | .blank, behind => ∀ c, behind.head? = some c → c = '<'
  | .leaf .., behind => behind.head? ≠ some '>'
  | .opening .., _ | .closing _, _ | .binding _, _ | .comment, _ => True

theorem Item.stopsBefore_nil (item : Item) : item.StopsBefore [] := by
  cases item <;> simp [StopsBefore]

/-- A tag may stand behind anything. -/
theorem Item.stopsBefore_tag (item : Item) (cs : List Char) : item.StopsBefore ('<' :: cs) := by
  cases item <;> simp [StopsBefore]

/-- If a text ends with what is left of `cs ++ more`, and that is `more` at least, what is in front of
it stands in `cs`. -/
theorem exists_split_of_suffix (front : List Char) {cs more rest text : List Char}
    (h : cs ++ more = front ++ text) (hsuffix : rest ++ more <:+ text) :
    ∃ back, cs = front ++ back ∧ text = back ++ more := by
  obtain ⟨between, rfl⟩ := hsuffix
  refine ⟨between ++ rest, ?_, by simp⟩
  exact (List.append_left_inj more).1 (by simpa using h)

-- ---------------------------------------------------------------------------
-- Attributes
-- ---------------------------------------------------------------------------

section Attributes

variable {cs more rest : List Char}

/-- A reader that leaves something of a text has a text to read. -/
theorem ne_nil_of_suffix (hsuffix : rest ++ more <:+ cs ++ more) (hrest : rest ≠ []) : cs ≠ [] := by
  have hle := hsuffix.length_le
  have hpos := List.length_pos_iff.2 hrest
  rw [List.length_append, List.length_append] at hle
  exact List.length_pos_iff.1 (by omega)

/-- What follows a text that is not empty does not show at its front. -/
theorem head?_append_other {cs : List Char} (hcs : cs ≠ []) (more other : List Char) :
    (cs ++ other).head? = (cs ++ more).head? := by
  rw [List.head?_append_of_ne_nil cs hcs, List.head?_append_of_ne_nil cs hcs]

theorem readBare_replace {bare : List Char} (h : readBare (cs ++ more) = (bare, rest ++ more))
    (hrest : rest ≠ []) (hslash : rest = ['/'] → more.head? ≠ some '>') (other : List Char) :
    readBare (cs ++ other) = (bare, rest ++ other) := by
  induction cs generalizing bare with
  | nil =>
    have hsuffix := readBare_suffix ([] ++ more)
    rw [h] at hsuffix
    exact absurd rfl (ne_nil_of_suffix hsuffix hrest)
  | cons c cs ih =>
    rw [List.cons_append, readBare] at h ⊢
    split at h
    · next hstop =>
      obtain ⟨rfl, htext⟩ := Prod.mk.inj h
      obtain rfl : c :: cs = rest := (List.append_left_inj more).1 htext
      rw [if_pos]
      · rfl
      · by_cases hcs : cs = []
        · -- the mark that a slash needs behind it would not be in the front part
          subst hcs
          have hmark : ¬(c = '/' ∧ more.head? = some '>') := by
            rintro ⟨rfl, hmore⟩
            exact hslash rfl hmore
          simp only [List.nil_append, Bool.or_eq_true, Bool.and_eq_true, beq_iff_eq] at hstop ⊢
          exact Or.inl (hstop.resolve_right hmark)
        · rw [head?_append_other hcs more]
          exact hstop
    · next hstop =>
      obtain ⟨rfl, htext⟩ := Prod.mk.inj h
      have hsuffix := readBare_suffix (cs ++ more)
      rw [htext] at hsuffix
      have hcs : cs ≠ [] := ne_nil_of_suffix hsuffix hrest
      rw [head?_append_other hcs more, if_neg hstop, ih (Prod.ext rfl htext)]

/-- What a dropped blank leaves, with the blank put back. -/
theorem dropBlank_cases {text : List Char} (h : dropBlank text = rest ++ more) (hrest : rest ≠ []) :
    ∃ back, text = back ++ more ∧ back ≠ [] ∧ (back = ['/'] → rest = ['/']) ∧
      ∀ other, dropBlank (back ++ other) = rest ++ other := by
  obtain ⟨d, ds, rfl⟩ := List.exists_cons_of_ne_nil hrest
  cases text with
  | nil => simp [dropBlank] at h
  | cons c cs =>
    rw [dropBlank] at h
    split at h
    · next hblank =>
      refine ⟨c :: d :: ds, by rw [h]; rfl, by simp, by simp, fun other => ?_⟩
      rw [List.cons_append, dropBlank, if_pos hblank]
    · next hblank =>
      obtain ⟨rfl, rfl⟩ := List.cons.inj h
      refine ⟨c :: ds, rfl, by simp, id, fun other => ?_⟩
      rw [List.cons_append, dropBlank, if_neg hblank]

theorem readValue_replace {value : AttrValue} (h : readValue (cs ++ more) = (value, rest ++ more))
    (hrest : rest ≠ []) (hslash : rest = ['/'] → more.head? ≠ some '>') (other : List Char) :
    readValue (cs ++ other) = (value, rest ++ other) := by
  have hsuffix := readValue_suffix (cs ++ more)
  rw [h] at hsuffix
  obtain ⟨c, cs, rfl⟩ := List.exists_cons_of_ne_nil (ne_nil_of_suffix hsuffix hrest)
  have hleft : rest ++ more ≠ [] := by simp [hrest]
  rw [List.cons_append, readValue] at h ⊢
  split at h
  · next hquote =>
    obtain ⟨rfl, hbehind⟩ := Prod.mk.inj h
    rw [if_pos hquote, upTo_replace (Prod.ext rfl hbehind) (fun hnil => absurd hnil hleft) other]
  · next hquote =>
    rw [if_neg hquote]
    split at h
    · next hbrace =>
      obtain ⟨rfl, hbehind⟩ := Prod.mk.inj h
      rw [if_pos hbrace,
        braced_replace (Prod.ext rfl hbehind) (fun hnil => absurd hnil hleft) other]
    · next hbrace =>
      obtain ⟨rfl, hbehind⟩ := Prod.mk.inj h
      obtain ⟨back, hback, hne, hlone, hdrop⟩ := dropBlank_cases hbehind hrest
      have hread : readBare (c :: cs ++ more) = ((readBare (c :: cs ++ more)).1, back ++ more) :=
        Prod.ext rfl hback
      have hbare := readBare_replace hread hne (fun hb => hslash (hlone hb)) other
      rw [List.cons_append] at hbare
      rw [if_neg hbrace, hbare, ← hdrop other]
      rfl

theorem readAttribute_replace {attr : Attribute}
    (h : readAttribute (cs ++ more) = (attr, rest ++ more))
    (hrest : rest ≠ []) (hslash : rest = ['/'] → more.head? ≠ some '>') (other : List Char) :
    readAttribute (cs ++ other) = (attr, rest ++ other) := by
  -- the name ends inside the front part, since something of that is left
  have hsuffix := readAttribute_suffix (cs ++ more)
  rw [h] at hsuffix
  obtain ⟨between, hbetween⟩ := hsuffix
  rw [← List.append_assoc] at hbetween
  have hne : between ++ rest ≠ [] := by simp [hrest]
  obtain ⟨htake, hdrop⟩ :=
    span_replace hbetween.symm fun hnil => absurd hnil hne
  obtain ⟨d, behind, hbehind⟩ := List.exists_cons_of_ne_nil hne
  rw [hbehind, List.cons_append] at hbetween hdrop
  by_cases hd : d = '='
  · subst hd
    rw [readAttribute_of_equals hbetween.symm] at h
    obtain ⟨rfl, hvalue⟩ := Prod.mk.inj h
    rw [readAttribute_of_equals hdrop, htake,
      readValue_replace (Prod.ext rfl hvalue) hrest hslash other]
  · rw [readAttribute_of_none (by simpa [← hbetween] using hd), ← hbetween] at h
    obtain ⟨rfl, hrest⟩ := Prod.mk.inj h
    obtain rfl : d :: behind = rest := (List.append_left_inj more).1 hrest
    rw [readAttribute_of_none (by simpa [hdrop] using hd), htake, hdrop]
    rfl

/-- Attributes end inside their tag: what stands behind the tag plays no part in them. -/
theorem readAttributes_replace {attrs : List Attribute}
    (h : readAttributes (cs ++ more) = (attrs, rest ++ more))
    (hrest : rest ≠ []) (hslash : rest = ['/'] → more.head? ≠ some '>') (other : List Char) :
    readAttributes (cs ++ other) = (attrs, rest ++ other) := by
  generalize htext : cs ++ more = text at h
  fun_induction readAttributes text generalizing cs attrs with
  | case1 =>
    obtain ⟨-, hnil⟩ := Prod.mk.inj h
    exact absurd (List.append_eq_nil_iff.1 hnil.symm).1 hrest
  | case2 c tail hstop =>
    obtain ⟨rfl, htail⟩ := Prod.mk.inj h
    obtain rfl : cs = rest := (List.append_left_inj more).1 (htext.trans htail)
    obtain ⟨d, cs, rfl⟩ := List.exists_cons_of_ne_nil hrest
    obtain ⟨rfl, -⟩ := List.cons.inj htext
    rw [List.cons_append, readAttributes, dif_pos hstop]
  | case3 c tail hstop hblank ih =>
    have hsuffix := readAttributes_suffix tail
    rw [h] at hsuffix
    obtain ⟨back, rfl, rfl⟩ := exists_split_of_suffix [c] htext hsuffix
    rw [List.cons_append, List.nil_append, List.cons_append, readAttributes, dif_neg hstop,
      dif_pos hblank, ih rfl h]
  | case4 c tail hstop hblank first =>
    rename_i others ih
    obtain ⟨rfl, hothers⟩ := Prod.mk.inj h
    -- what the first attribute leaves ends with what all of them leave
    obtain ⟨front, hfront⟩ :=
      (readAttribute_suffix (c :: tail)).trans (List.dropWhile_suffix isNameChar)
    have hsuffix := readAttributes_suffix first.2
    rw [hothers] at hsuffix
    obtain ⟨between, hbetween⟩ := hsuffix
    have hback : first.2 = between ++ rest ++ more := by rw [← hbetween, List.append_assoc]
    have hne : between ++ rest ≠ [] := by simp [hrest]
    have hlone : between ++ rest = ['/'] → rest = ['/'] := by
      intro hback
      rcases List.append_eq_singleton_iff.1 hback with ⟨-, hrest'⟩ | ⟨-, hnil⟩
      · exact hrest'
      · exact absurd hnil hrest
    have hcs : cs = front ++ (between ++ rest) := by
      refine (List.append_left_inj more).1 ?_
      rw [htext, ← hfront, List.append_assoc, ← hback]
    have hfirst : readAttribute (cs ++ more) = (first.1, between ++ rest ++ more) := by
      rw [htext]
      exact Prod.ext rfl hback
    have hread := readAttribute_replace hfirst hne (fun hb => hslash (hlone hb)) other
    have hrow := ih hback.symm (Prod.ext rfl hothers)
    obtain ⟨d, ds, rfl⟩ := List.exists_cons_of_ne_nil (show cs ≠ [] by simp [hcs, hrest])
    obtain ⟨rfl, -⟩ := List.cons.inj htext
    rw [List.cons_append] at hread ⊢
    rw [readAttributes, dif_neg hstop, dif_neg hblank, hread]
    dsimp only
    rw [hrow]

end Attributes

-- ---------------------------------------------------------------------------
-- Items
-- ---------------------------------------------------------------------------

namespace Item

variable {cs more rest other : List Char} {item : Item}

theorem readClosing_replace (h : readClosing (cs ++ more) = (item, rest ++ more))
    (hclosed : rest ++ more = [] → '>' ∈ cs) (other : List Char) :
    readClosing (cs ++ other) = (item, rest ++ other) := by
  obtain ⟨rfl, hbehind⟩ := Prod.mk.inj h
  rw [readClosing, upTo_replace (Prod.ext rfl hbehind) hclosed other]

theorem readBinding_replace (h : readBinding (cs ++ more) = (item, rest ++ more))
    (hclosed : rest ++ more = [] →
      ∃ body behind, cs = body ++ '}' :: behind ∧ BracesBalanced body)
    (other : List Char) : readBinding (cs ++ other) = (item, rest ++ other) := by
  obtain ⟨rfl, hbehind⟩ := Prod.mk.inj h
  rw [readBinding, braced_replace (Prod.ext rfl hbehind) hclosed other]

theorem readText_replace (h : readText (cs ++ more) = (item, rest ++ more))
    (hother : rest = [] → item.StopsBefore other) :
    readText (cs ++ other) = (item, rest ++ other) := by
  obtain ⟨hitem, hdrop⟩ := Prod.mk.inj h
  have hstop : rest = [] → ∀ c, other.head? = some c → (c != '<') = false := by
    intro hrest c hc
    have hstops := hother hrest
    have htag : c = '<' := by
      rw [← hitem] at hstops
      split at hstops
      · exact hstops c hc
      · exact hstops c hc
    simp [htag]
  obtain ⟨htake, hdrop'⟩ := span_replace hdrop hstop
  rw [readText, htake, hdrop']
  exact Prod.ext hitem rfl

/-- A slash ends a tag, and by itself where no end mark follows. -/
theorem readTag_of_slash {cs rest : List Char}
    (h : (readAttributes (cs.dropWhile isNameChar)).2 = '/' :: rest)
    (hrest : rest.head? ≠ some '>') :
    readTag cs = (leaf (String.ofList (cs.takeWhile isNameChar))
      (readAttributes (cs.dropWhile isNameChar)).1, rest) := by
  rw [readTag, h]
  cases rest with
  | nil => rfl
  | cons c rest =>
    have hc : c ≠ '>' := by simpa using hrest
    simp [hc]

/-- The attributes of a tag end in front of the mark that ends the tag, or the tag is cut off. -/
theorem readTag_cases (h : readTag (cs ++ more) = (item, rest ++ more)) :
    (rest ++ more = [] ∧ (readAttributes ((cs ++ more).dropWhile isNameChar)).2 = []) ∨
      ∃ left, (readAttributes ((cs ++ more).dropWhile isNameChar)).2 = left ++ more ∧
        (left = '/' :: '>' :: rest ∨ left = '>' :: rest ∨
          (left = '/' :: rest ∧ (rest ++ more).head? ≠ some '>')) := by
  have hstop := readAttributes_stop ((cs ++ more).dropWhile isNameChar)
  rw [readTag] at h
  split at h
  · next hnil => exact Or.inl ⟨(Prod.mk.inj h).2.symm, hnil⟩
  · next behind hleft =>
    rw [(Prod.mk.inj h).2] at hleft
    exact Or.inr ⟨'/' :: '>' :: rest, hleft, Or.inl rfl⟩
  · next behind hnot hleft =>
    rw [(Prod.mk.inj h).2] at hleft hnot
    refine Or.inr ⟨'/' :: rest, hleft, Or.inr (Or.inr ⟨rfl, fun hend => ?_⟩)⟩
    obtain ⟨tail, htail⟩ := List.head?_eq_some_iff.1 hend
    exact hnot tail htail
  · next c behind _ hslash hleft =>
    rw [(Prod.mk.inj h).2] at hleft
    obtain rfl : c = '>' := by
      rcases hstop with hnil | ⟨tail, htail | htail⟩
      · rw [hnil] at hleft
        exact absurd hleft (by simp)
      · rw [hleft] at htail
        exact absurd (List.cons.inj htail).1 hslash
      · rw [hleft] at htail
        exact (List.cons.inj htail).1
    exact Or.inr ⟨'>' :: rest, hleft, Or.inr (Or.inl rfl)⟩

/-- The name and the attributes of a tag that is not cut off stand in front of its end. -/
theorem readAttributes_tag_replace {left : List Char}
    (h : (readAttributes ((cs ++ more).dropWhile isNameChar)).2 = left ++ more) (hleft : left ≠ [])
    (hslash : left = ['/'] → more.head? ≠ some '>') (other : List Char) :
    (cs ++ other).takeWhile isNameChar = (cs ++ more).takeWhile isNameChar ∧
      readAttributes ((cs ++ other).dropWhile isNameChar) =
        ((readAttributes ((cs ++ more).dropWhile isNameChar)).1, left ++ other) := by
  have hsuffix := readAttributes_suffix ((cs ++ more).dropWhile isNameChar)
  rw [h] at hsuffix
  obtain ⟨between, hbetween⟩ := hsuffix
  rw [← List.append_assoc] at hbetween
  have hne : between ++ left ≠ [] := by simp [hleft]
  obtain ⟨htake, hdrop⟩ :=
    span_replace hbetween.symm fun hnil => absurd hnil hne
  refine ⟨htake, ?_⟩
  rw [← hbetween] at h ⊢
  rw [hdrop]
  exact readAttributes_replace (Prod.ext rfl h) hleft hslash other

/-- A tag is read the same whatever follows it, its name included, and something of it stands in the
front part. -/
theorem readTag_replace (h : readTag (cs ++ more) = (item, rest ++ more))
    (hclosed : rest ++ more = [] → (readAttributes (cs.dropWhile isNameChar)).2 ≠ [])
    (hother : rest = [] → item.StopsBefore other) :
    readTag (cs ++ other) = (item, rest ++ other) ∧
      (cs ++ other).takeWhile isNameChar = (cs ++ more).takeWhile isNameChar ∧ cs ≠ [] := by
  rcases readTag_cases h with ⟨hnil, hcut⟩ | ⟨left, hleft, hend⟩
  · rw [(List.append_eq_nil_iff.1 hnil).2, List.append_nil] at hcut
    exact absurd hcut (hclosed hnil)
  · have hne : left ≠ [] := by
      rcases hend with rfl | rfl | ⟨rfl, -⟩ <;> simp
    have hslash : left = ['/'] → more.head? ≠ some '>' := by
      rintro rfl
      rcases hend with hend | hend | ⟨hend, hmore⟩
      · simp at hend
      · simp at hend
      · obtain rfl : rest = [] := by simpa using hend.symm
        exact hmore
    obtain ⟨htake, hattrs⟩ := readAttributes_tag_replace hleft hne hslash other
    have hsuffix := (readAttributes_suffix ((cs ++ more).dropWhile isNameChar)).trans
      (List.dropWhile_suffix isNameChar)
    rw [hleft] at hsuffix
    refine ⟨?_, htake, ne_nil_of_suffix hsuffix hne⟩
    rcases hend with rfl | rfl | ⟨rfl, hmore⟩
    · rw [readTag, hleft] at h
      rw [readTag, htake, hattrs]
      exact Prod.ext (Prod.mk.inj h).1 rfl
    · rw [readTag, hleft] at h
      rw [readTag, htake, hattrs]
      exact Prod.ext (Prod.mk.inj h).1 rfl
    · rw [readTag_of_slash hleft hmore] at h
      obtain ⟨rfl, -⟩ := Prod.mk.inj h
      have hfollows : (rest ++ other).head? ≠ some '>' := by
        by_cases hrest : rest = []
        · rw [hrest]
          exact hother hrest
        · rwa [head?_append_other hrest more other]
      rw [readTag_of_slash (by rw [hattrs]; rfl) hfollows, htake, hattrs]

/-- Where neither a comment nor a closing tag begins behind a `<`, another tag does. -/
theorem read_of_tag {cs : List Char} (hcomment : ¬['!', '-', '-'] <+: cs)
    (hclosing : cs.head? ≠ some '/') : read '<' cs = readTag cs := by
  rw [read.eq_def, if_pos rfl]
  split
  · next rest => exact absurd (List.prefix_append ['!', '-', '-'] rest) hcomment
  · exact absurd rfl hclosing
  · rfl

theorem cutOff_tag {cs : List Char} (hcomment : ¬['!', '-', '-'] <+: cs)
    (hclosing : cs.head? ≠ some '/') :
    CutOff ('<' :: cs) ↔ (readAttributes (cs.dropWhile isNameChar)).2 = [] := by
  rw [CutOff]
  · rintro rest rfl
    exact hcomment (List.prefix_append ['!', '-', '-'] rest)
  · rintro rest rfl
    exact hclosing rfl

/-- A comment begins inside the name of a tag if at all, so whether one begins shows at the name. -/
theorem comment_prefix_iff (cs : List Char) :
    ['!', '-', '-'] <+: cs ↔ ['!', '-', '-'] <+: cs.takeWhile isNameChar := by
  constructor
  · rintro ⟨rest, rfl⟩
    exact ⟨rest.takeWhile isNameChar, by simp [isNameChar, Text.isBlank]⟩
  · intro h
    exact h.trans (List.takeWhile_prefix isNameChar)

theorem read_tag_replace (hcomment : ¬['!', '-', '-'] <+: cs ++ more)
    (hclosing : (cs ++ more).head? ≠ some '/') (h : read '<' (cs ++ more) = (item, rest ++ more))
    (hclosed : rest ++ more = [] → ¬CutOff ('<' :: cs))
    (hother : rest = [] → item.StopsBefore other) :
    read '<' (cs ++ other) = (item, rest ++ other) := by
  rw [read_of_tag hcomment hclosing] at h
  have hwhole : rest ++ more = [] → (readAttributes (cs.dropWhile isNameChar)).2 ≠ [] := by
    intro hnil hcut
    obtain rfl := (List.append_eq_nil_iff.1 hnil).2
    rw [List.append_nil] at hcomment hclosing
    exact hclosed hnil ((cutOff_tag hcomment hclosing).2 hcut)
  obtain ⟨hread, htake, hcs⟩ := readTag_replace h hwhole hother
  -- with its name the tag keeps its kind
  rw [comment_prefix_iff, ← htake, ← comment_prefix_iff] at hcomment
  rw [head?_append_other hcs other more] at hclosing
  rw [read_of_tag hcomment hclosing, hread]

/-- **No item hangs on what stands behind it.** If reading stops inside a front part of a text, where
the item is not cut off, the same item is read with anything else behind that part, as long as the
item does not go on into it. -/
theorem read_replace {c : Char} (h : read c (cs ++ more) = (item, rest ++ more))
    (hclosed : rest ++ more = [] → ¬CutOff (c :: cs))
    (hother : rest = [] → item.StopsBefore other) :
    read c (cs ++ other) = (item, rest ++ other) := by
  by_cases htag : c = '<'
  · subst htag
    by_cases hcomment : ['!', '-', '-'] <+: cs ++ more
    · obtain ⟨text, htext⟩ := hcomment
      rw [← htext] at h
      obtain ⟨rfl, hpast⟩ := Prod.mk.inj h
      obtain ⟨back, rfl, rfl⟩ :=
        exists_split_of_suffix ['!', '-', '-'] htext.symm (hpast ▸ pastComment_suffix 0 text)
      have hbody := pastComment_replace hpast (fun hnil => not_not.1 (hclosed hnil)) other
      exact Prod.ext rfl hbody
    · by_cases hclosing : (cs ++ more).head? = some '/'
      · obtain ⟨text, htext⟩ := List.head?_eq_some_iff.1 hclosing
        rw [htext] at h
        have hread : readClosing text = (item, rest ++ more) := h
        have hsuffix := upTo_suffix '>' text
        rw [(Prod.mk.inj hread).2] at hsuffix
        obtain ⟨back, rfl, rfl⟩ := exists_split_of_suffix ['/'] htext hsuffix
        exact readClosing_replace hread (fun hnil => not_not.1 (hclosed hnil)) other
      · exact read_tag_replace hcomment hclosing h hclosed hother
  · by_cases hbrace : c = '{'
    · subst hbrace
      exact readBinding_replace h (fun hnil => not_not.1 (hclosed hnil)) other
    · have hread : ∀ text, read c text = readText (c :: text) := by
        intro text
        rw [read.eq_def, if_neg htag, if_neg hbrace]
      rw [hread, ← List.cons_append] at h ⊢
      exact readText_replace h hother

end Item

end Stencil.Source
