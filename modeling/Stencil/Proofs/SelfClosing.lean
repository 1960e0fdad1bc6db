import Stencil.Proofs.Spacing

/-!
# Tags that close themselves

`<h/>` is one lexeme and puts a finished node into the tree. `<h></n>`, with the name `n` of the tag,
is two: the first opens an element, and the second closes it and finds nothing to report. Both leave
the same node at the same place, whatever is open there, so that a source with the one and a source
with the other have the same tree, and the same diagnostics with those behind the tag further on.

That both tags have the same attributes takes an argument of its own. The slash is not always outside
the last attribute, for a bare value takes slashes along. But when the scan of a tag stops right
behind its head, what an attribute is can be told from the text that it took (`attributeOf`), and that
text is the same for both.

Main results:

* `Source.readAttributes_whole`: attributes that are all of a text do not hang on what ends them;
* `Source.IsTagHead.read_leaf`, `Source.IsTagHead.read_opening`: both forms of a tag have one name and
  the same attributes;
* `Build.step_opening_closing`: an element that is closed at once is the node of a tag that closes
  itself;
* `compile_selfClosing`: the two forms are the same but for places.
-/

namespace Stencil

open Source (Item Lexeme lexemes lexemesFrom isNameChar)

namespace Source

-- ---------------------------------------------------------------------------
-- Readings that take a whole text
-- ---------------------------------------------------------------------------

/-- The value that a text stands for, if the reader takes all of it and no more. -/
def valueOf : List Char → AttrValue
  | [] => .literal ""
  | c :: cs =>
    if c == '"' || c == '\'' then .literal (String.ofList cs.dropLast)
    else if c == '{' then .expression (Expression.ofChars cs.dropLast)
    else .literal (String.ofList ((c :: cs).takeWhile fun d => !Text.isBlank d))

/-- The attribute that a text stands for, if the reader takes all of it and no more. -/
def attributeOf (cs : List Char) : Attribute :=
  let name := String.ofList (cs.takeWhile isNameChar)
  match cs.dropWhile isNameChar with
  | '=' :: written => ⟨name, valueOf written⟩
  | _ => ⟨name, .literal ""⟩

theorem readBare_append (cs : List Char) : (readBare cs).1 ++ (readBare cs).2 = cs := by
  induction cs with
  | nil => rfl
  | cons c cs ih =>
    rw [readBare]
    split
    · rfl
    · exact congrArg (c :: ·) ih

theorem not_isBlank_of_mem_readBare {c : Char} {cs : List Char} (h : c ∈ (readBare cs).1) :
    Text.isBlank c = false := by
  induction cs with
  | nil => simp [readBare] at h
  | cons d ds ih =>
    rw [readBare] at h
    split at h
    · simp at h
    · next hstop =>
      rcases List.mem_cons.1 h with rfl | hmem
      · simp only [Bool.or_eq_true, not_or] at hstop
        exact Bool.not_eq_true _ ▸ hstop.1.1
      · exact ih hmem

section

variable {cs more other : List Char}

/-- A stretch up to a mark, with that mark at its end. -/
theorem eq_dropLast_of_append {inner rest : List Char} {stop : Char}
    (h : cs ++ more = inner ++ stop :: rest) (hrest : rest = more) : inner = cs.dropLast := by
  subst hrest
  have hcs : cs = inner ++ [stop] := (List.append_left_inj rest).1 (by simpa using h)
  rw [hcs, List.dropLast_concat]

theorem upTo_whole {stop : Char} (h : (upTo stop (cs ++ more)).2 = more) (hmore : more ≠ []) :
    (upTo stop (cs ++ more)).1 = cs.dropLast := by
  rcases upTo_cases stop (cs ++ more) with ⟨htext, -⟩ | ⟨-, hall⟩
  · exact eq_dropLast_of_append htext h
  · rw [hall] at h
    exact absurd h.symm hmore

theorem braced_whole (h : (braced 0 (cs ++ more)).2 = more) (hmore : more ≠ []) :
    (braced 0 (cs ++ more)).1 = cs.dropLast := by
  rcases braced_cases 0 (cs ++ more) with ⟨htext, -⟩ | hall
  · exact eq_dropLast_of_append htext h
  · rw [hall] at h
    exact absurd h.symm hmore

/-- A bare value is what stands in front of the blank that was taken along with it, if one was. -/
theorem readBare_whole (h : dropBlank (readBare (cs ++ more)).2 = more) :
    (readBare (cs ++ more)).1 = cs.takeWhile fun d => !Text.isBlank d := by
  have htext := readBare_append (cs ++ more)
  have hbare : ∀ d ∈ (readBare (cs ++ more)).1, (!Text.isBlank d) = true := by
    intro d hd
    rw [not_isBlank_of_mem_readBare hd]
    rfl
  generalize (readBare (cs ++ more)).1 = bare at htext hbare ⊢
  generalize (readBare (cs ++ more)).2 = left at htext h
  have hsplit : left = more ∨ ∃ b, Text.isBlank b = true ∧ left = b :: more := by
    cases left with
    | nil => exact Or.inl h
    | cons b left =>
      rw [dropBlank] at h
      split at h
      · next hblank => exact Or.inr ⟨b, hblank, by rw [h]⟩
      · exact Or.inl h
  rcases hsplit with rfl | ⟨b, hblank, rfl⟩
  · obtain rfl : bare = cs := (List.append_left_inj left).1 htext
    have hend := (span_append hbare [] (by simp)).1
    rw [List.append_nil] at hend
    exact hend.symm
  · obtain rfl : bare ++ [b] = cs := (List.append_left_inj more).1 (by simpa using htext)
    have hend := (span_append hbare [b] (by simp [hblank])).1
    exact hend.symm

theorem readValue_whole (h : (readValue (cs ++ more)).2 = more) (hmore : more ≠ []) :
    (readValue (cs ++ more)).1 = valueOf cs := by
  cases cs with
  | nil =>
    obtain ⟨c, behind, rfl⟩ := List.exists_cons_of_ne_nil hmore
    rw [List.nil_append, readValue] at h ⊢
    -- a value in quotes or braces would take at least the mark in front of it
    split at h
    · have hle := (upTo_suffix c behind).length_le
      rw [h, List.length_cons] at hle
      omega
    · next hquote =>
      split at h
      · have hle := (braced_suffix 0 behind).length_le
        rw [h, List.length_cons] at hle
        omega
      · next hbrace =>
        have hread : dropBlank (readBare ([] ++ c :: behind)).2 = c :: behind := h
        have hbare : (readBare (c :: behind)).1 = [] := readBare_whole hread
        rw [if_neg hquote, if_neg hbrace]
        dsimp only
        rw [hbare]
        rfl
  | cons c cs =>
    rw [List.cons_append, readValue] at h ⊢
    rw [valueOf]
    split at h
    · next hquote =>
      rw [if_pos hquote, if_pos hquote]
      dsimp only
      rw [upTo_whole h hmore]
    · next hquote =>
      split at h
      · next hbrace =>
        rw [if_neg hquote, if_neg hquote, if_pos hbrace, if_pos hbrace]
        dsimp only
        rw [braced_whole h hmore]
      · next hbrace =>
        have hread : dropBlank (readBare (c :: cs ++ more)).2 = more := h
        have hbare := readBare_whole hread
        rw [if_neg hquote, if_neg hquote, if_neg hbrace, if_neg hbrace, ← hbare]
        rfl

theorem readAttribute_whole (h : (readAttribute (cs ++ more)).2 = more) (hmore : more ≠ []) :
    (readAttribute (cs ++ more)).1 = attributeOf cs := by
  have hsuffix := readAttribute_suffix (cs ++ more)
  rw [h] at hsuffix
  obtain ⟨behind, hbehind⟩ := hsuffix
  have hspan : (cs ++ []).takeWhile isNameChar = (cs ++ more).takeWhile isNameChar ∧
      (cs ++ []).dropWhile isNameChar = behind ++ [] :=
    span_replace hbehind.symm (by simp)
  rw [List.append_nil, List.append_nil] at hspan
  obtain ⟨htake, hdrop⟩ := hspan
  rw [attributeOf, hdrop, htake]
  by_cases hequals : (behind ++ more).head? = some '='
  · obtain ⟨rest, hrest⟩ := List.head?_eq_some_iff.1 hequals
    rw [readAttribute_of_equals (hbehind.symm.trans hrest)] at h ⊢
    dsimp only at h
    cases behind with
    | nil =>
      -- the equals sign was taken, so it is not where the reader stopped
      have hle := (readValue_suffix rest).length_le
      rw [List.nil_append] at hrest
      rw [h, hrest, List.length_cons] at hle
      omega
    | cons d written =>
      obtain ⟨rfl, rfl⟩ := List.cons.inj hrest
      exact congrArg (Attribute.mk _) (readValue_whole h hmore)
  · rw [readAttribute_of_none (by rwa [← hbehind]), ← hbehind] at h ⊢
    obtain rfl : behind = [] := List.append_left_eq_self.1 h
    rfl

/-- Where an attribute ends does not hang on what stands behind the text that it is part of, and
neither does the attribute itself, as long as no slash alone is left of that text. -/
theorem readAttribute_eq_of_append {attr attr' : Attribute} {back back' : List Char}
    (h : readAttribute (cs ++ more) = (attr, back ++ more))
    (h' : readAttribute (cs ++ other) = (attr', back' ++ other))
    (hmore : more ≠ []) (hother : other ≠ []) (hslash : back ≠ ['/']) (hslash' : back' ≠ ['/']) :
    attr = attr' ∧ back = back' := by
  by_cases hback : back = []
  · by_cases hback' : back' = []
    · subst hback hback'
      have hattr : (readAttribute (cs ++ more)).1 = attributeOf cs :=
        readAttribute_whole (by rw [h]; rfl) hmore
      have hattr' : (readAttribute (cs ++ other)).1 = attributeOf cs :=
        readAttribute_whole (by rw [h']; rfl) hother
      rw [h] at hattr
      rw [h'] at hattr'
      exact ⟨hattr.trans hattr'.symm, rfl⟩
    · have hread := readAttribute_replace h' hback' (fun hlone => absurd hlone hslash') more
      rw [h] at hread
      obtain ⟨rfl, hleft⟩ := Prod.mk.inj hread
      exact ⟨rfl, (List.append_left_inj more).1 hleft⟩
  · have hread := readAttribute_replace h hback (fun hlone => absurd hlone hslash) other
    rw [h'] at hread
    obtain ⟨rfl, hleft⟩ := Prod.mk.inj hread
    exact ⟨rfl, ((List.append_left_inj other).1 hleft).symm⟩

theorem readAttributes_of_blank {c : Char} (hblank : Text.isBlank c = true) (cs : List Char) :
    readAttributes (c :: cs) = readAttributes cs := by
  have hstop : ¬(c = '/' ∨ c = '>') := by
    rintro (rfl | rfl) <;> exact absurd hblank (by decide)
  rw [readAttributes, dif_neg hstop, dif_pos hblank]

/-- Where no mark ends the tag, the attributes take at least a character. -/
theorem length_readAttributes {c : Char} (hstop : ¬(c = '/' ∨ c = '>')) (cs : List Char) :
    (readAttributes (c :: cs)).2.length < (c :: cs).length := by
  rw [readAttributes, dif_neg hstop]
  split
  · have hle := (readAttributes_suffix cs).length_le
    rw [List.length_cons]
    omega
  · next hblank =>
    have hlt : (readAttribute (c :: cs)).2.length < (c :: cs).length :=
      length_readAttribute hstop hblank
    have hle := (readAttributes_suffix (readAttribute (c :: cs)).2).length_le
    exact lt_of_le_of_lt hle hlt

/-- A reader that stops where it starts has found no attribute. -/
theorem readAttributes_fst_of_snd_eq (h : (readAttributes cs).2 = cs) :
    (readAttributes cs).1 = [] := by
  cases cs with
  | nil => rw [readAttributes]
  | cons c cs =>
    have hstop : c = '/' ∨ c = '>' := by
      by_contra hnot
      have hlt := length_readAttributes hnot cs
      rw [h] at hlt
      exact lt_irrefl _ hlt
    rw [readAttributes, dif_pos hstop]

/-- When the attributes are all of a text, the first of them leaves an end of it that the others are
read from, and that is not a slash alone. -/
theorem exists_back_of_readAttributes {c : Char} (hstop : ¬(c = '/' ∨ c = '>'))
    (hblank : ¬Text.isBlank c = true) (h : (readAttributes (c :: cs ++ more)).2 = more) :
    ∃ attr back, readAttribute (c :: cs ++ more) = (attr, back ++ more) ∧
      (readAttributes (c :: cs ++ more)).1 = attr :: (readAttributes (back ++ more)).1 ∧
      (readAttributes (back ++ more)).2 = more ∧ back ≠ ['/'] ∧ back.length < (c :: cs).length := by
  have hlt : (readAttribute (c :: cs ++ more)).2.length < (c :: cs ++ more).length :=
    length_readAttribute hstop hblank
  have hall : readAttributes (c :: cs ++ more) =
      ((readAttribute (c :: cs ++ more)).1 :: (readAttributes (readAttribute (c :: cs ++ more)).2).1,
        (readAttributes (readAttribute (c :: cs ++ more)).2).2) := by
    rw [List.cons_append, readAttributes, dif_neg hstop, dif_neg hblank]
  rw [hall] at h ⊢
  obtain ⟨back, hback⟩ := readAttributes_suffix (readAttribute (c :: cs ++ more)).2
  rw [h] at hback
  rw [← hback, List.length_append, List.length_append] at hlt
  refine ⟨_, back, Prod.ext rfl hback.symm, by rw [hback], by rw [hback]; exact h, ?_, by omega⟩
  rintro rfl
  -- the scan would stop at the slash
  rw [← hback, List.singleton_append, readAttributes, dif_pos (Or.inl rfl)] at h
  have hlength := congrArg List.length h
  rw [List.length_cons] at hlength
  omega

/-- **Attributes that are all of a text do not hang on what ends them.** -/
theorem readAttributes_whole (h : (readAttributes (cs ++ more)).2 = more)
    (h' : (readAttributes (cs ++ other)).2 = other) (hmore : more ≠ []) (hother : other ≠ []) :
    (readAttributes (cs ++ more)).1 = (readAttributes (cs ++ other)).1 := by
  induction hlength : cs.length using Nat.strong_induction_on generalizing cs with
  | _ n ih =>
    subst hlength
    cases cs with
    | nil => exact (readAttributes_fst_of_snd_eq h).trans (readAttributes_fst_of_snd_eq h').symm
    | cons c cs =>
      by_cases hstop : c = '/' ∨ c = '>'
      · rw [List.cons_append, readAttributes, dif_pos hstop] at h
        have hlength := congrArg List.length h
        rw [List.length_cons, List.length_append] at hlength
        omega
      · by_cases hblank : Text.isBlank c = true
        · rw [List.cons_append, readAttributes_of_blank hblank] at h h' ⊢
          rw [List.cons_append, readAttributes_of_blank hblank]
          exact ih cs.length (by simp) h h' rfl
        · obtain ⟨attr, back, hread, hattrs, hback, hslash, hshorter⟩ :=
            exists_back_of_readAttributes hstop hblank h
          obtain ⟨attr', back', hread', hattrs', hback', hslash', -⟩ :=
            exists_back_of_readAttributes hstop hblank h'
          obtain ⟨rfl, rfl⟩ :=
            readAttribute_eq_of_append hread hread' hmore hother hslash hslash'
          rw [hattrs, hattrs', ih back.length hshorter hback hback' rfl]

end

-- ---------------------------------------------------------------------------
-- Both forms of a tag
-- ---------------------------------------------------------------------------

/-- All that stands in a tag between the `<` and what ends the tag, be it an end mark or a slash in
front of one. The scan of its attributes reaches to its end, and not further, with either of them. -/
structure IsTagHead (head : List Char) : Prop where
  ne_nil : head ≠ []
  not_closing : head.head? ≠ some '/'
  not_comment : ¬['!', '-', '-'] <+: head
  before_slash : (readAttributes ((head ++ ['/', '>']).dropWhile isNameChar)).2 = ['/', '>']
  before_mark : (readAttributes ((head ++ ['>']).dropWhile isNameChar)).2 = ['>']

instance (head : List Char) : Decidable (IsTagHead head) :=
  decidable_of_iff (head ≠ [] ∧ head.head? ≠ some '/' ∧ ¬['!', '-', '-'] <+: head ∧
    (readAttributes ((head ++ ['/', '>']).dropWhile isNameChar)).2 = ['/', '>'] ∧
    (readAttributes ((head ++ ['>']).dropWhile isNameChar)).2 = ['>'])
    ⟨fun ⟨hne, hclosing, hcomment, hslash, hmark⟩ => ⟨hne, hclosing, hcomment, hslash, hmark⟩,
      fun h => ⟨h.ne_nil, h.not_closing, h.not_comment, h.before_slash, h.before_mark⟩⟩

/-- The name that a tag with this head has. -/
def headName (head : List Char) : String :=
  String.ofList (head.takeWhile isNameChar)

/-- The attributes that a tag with this head has. -/
def headAttributes (head : List Char) : List Attribute :=
  (readAttributes ((head ++ ['>']).dropWhile isNameChar)).1

theorem isNameChar_headName (head : List Char) :
    ∀ c ∈ (headName head).toList, isNameChar c = true := by
  intro c hc
  rw [headName, String.toList_ofList] at hc
  exact List.all_eq_true.1 List.all_takeWhile c hc

/-- What ends the attributes of a tag ends them with anything behind it. -/
theorem readAttributes_append_of_snd_eq {cs left : List Char}
    (h : (readAttributes ((cs ++ left).dropWhile isNameChar)).2 = left) (hleft : left ≠ [])
    (rest : List Char) :
    readAttributes ((cs ++ (left ++ rest)).dropWhile isNameChar) =
      ((readAttributes ((cs ++ left).dropWhile isNameChar)).1, left ++ rest) := by
  have hall : (readAttributes ((cs ++ left ++ []).dropWhile isNameChar)).2 = left ++ [] := by
    rw [List.append_nil, List.append_nil, h]
  obtain ⟨-, hattrs⟩ := Item.readAttributes_tag_replace hall hleft (by simp) rest
  rw [List.append_nil, List.append_assoc] at hattrs
  exact hattrs

namespace IsTagHead

variable {head : List Char}

/-- With anything behind it that ends its name, a head starts neither a comment nor a closing tag. -/
theorem read_eq_readTag (h : IsTagHead head) {stop : Char} (hstop : isNameChar stop = false)
    (rest : List Char) :
    Item.read '<' (head ++ stop :: rest) = Item.readTag (head ++ stop :: rest) := by
  have hcomment : ¬['!', '-', '-'] <+: head ++ stop :: rest := by
    rw [Item.comment_prefix_iff, (span_append_stop hstop head rest).1, ← Item.comment_prefix_iff]
    exact h.not_comment
  have hclosing : (head ++ stop :: rest).head? ≠ some '/' := by
    rw [List.head?_append_of_ne_nil head h.ne_nil]
    exact h.not_closing
  exact Item.read_of_tag hcomment hclosing

theorem read_opening (h : IsTagHead head) (rest : List Char) :
    Item.read '<' (head ++ '>' :: rest) = (.opening (headName head) (headAttributes head), rest) := by
  have hattrs : readAttributes ((head ++ '>' :: rest).dropWhile isNameChar) =
      (headAttributes head, '>' :: rest) :=
    readAttributes_append_of_snd_eq h.before_mark (by simp) rest
  rw [h.read_eq_readTag (by decide), Item.readTag, hattrs, (span_append_stop (by decide) head rest).1]
  rfl

theorem read_leaf (h : IsTagHead head) (rest : List Char) :
    Item.read '<' (head ++ '/' :: '>' :: rest) =
      (.leaf (headName head) (headAttributes head), rest) := by
  have hsame : (readAttributes ((head ++ ['/', '>']).dropWhile isNameChar)).1 =
      headAttributes head := by
    have hslash := h.before_slash
    have hmark := h.before_mark
    rw [headAttributes]
    rw [(span_append_stop (by decide) head ['>']).2] at hslash ⊢
    rw [(span_append_stop (by decide) head []).2] at hmark ⊢
    exact readAttributes_whole hslash hmark (by simp) (by simp)
  have hattrs : readAttributes ((head ++ '/' :: '>' :: rest).dropWhile isNameChar) =
      (headAttributes head, '/' :: '>' :: rest) := by
    rw [← hsame]
    exact readAttributes_append_of_snd_eq h.before_slash (by simp) rest
  rw [h.read_eq_readTag (by decide), Item.readTag, hattrs, (span_append_stop (by decide) head _).1]
  rfl

end IsTagHead

-- ---------------------------------------------------------------------------
-- Rows
-- ---------------------------------------------------------------------------

/-- A tag with this head that closes itself. -/
def selfClosed (head : List Char) : List Char :=
  '<' :: (head ++ ['/', '>'])

/-- A tag with this head and the closing tag for it. -/
def closedAtOnce (head : List Char) : List Char :=
  '<' :: (head ++ '>' :: '<' :: '/' :: ((headName head).toList ++ ['>']))

theorem byteLength_closedAtOnce (head : List Char) :
    Text.byteLength (closedAtOnce head) =
      Text.byteLength (selfClosed head) + ((headName head).utf8ByteSize + 2) := by
  have hopen : '<'.utf8Size = 1 := by decide
  have hend : '>'.utf8Size = 1 := by decide
  simp only [closedAtOnce, selfClosed, Text.byteLength_cons, Text.byteLength_append,
    Text.byteLength_nil, Text.byteLength_toList, hopen, hend]
  omega

section

variable {head : List Char}

theorem lexemesFrom_selfClosed (h : IsTagHead head) (start : Nat) (rest : List Char) :
    lexemesFrom start (selfClosed head ++ rest) =
      ⟨start, selfClosed head, .leaf (headName head) (headAttributes head)⟩ ::
        lexemesFrom (start + Text.byteLength (selfClosed head)) rest := by
  have htext : '<' :: (head ++ '/' :: '>' :: rest) = selfClosed head ++ rest := by
    simp [selfClosed]
  rw [← htext, lexemesFrom_cons (h.read_leaf rest) htext]

theorem lexemesFrom_closedAtOnce (h : IsTagHead head) (start : Nat) (rest : List Char) :
    ∃ opening closing : Lexeme, opening.item = .opening (headName head) (headAttributes head) ∧
      closing.item = .closing (headName head) ∧
      lexemesFrom start (closedAtOnce head ++ rest) = opening :: closing ::
        lexemesFrom (start + Text.byteLength (closedAtOnce head)) rest := by
  let first : List Char := '<' :: (head ++ ['>'])
  let second : List Char := '<' :: '/' :: ((headName head).toList ++ ['>'])
  have hparts : closedAtOnce head = first ++ second := by
    simp [closedAtOnce, first, second]
  have hsecond : '<' :: '/' :: ((headName head).toList ++ '>' :: rest) = second ++ rest := by
    simp [second]
  have hfirst : '<' :: (head ++ '>' :: (second ++ rest)) = closedAtOnce head ++ rest := by
    simp [hparts, first]
  have hread := read_closing (isNameChar_headName head) rest
  rw [String.ofList_toList] at hread
  refine ⟨⟨start, first, .opening (headName head) (headAttributes head)⟩,
    ⟨start + Text.byteLength first, second, .closing (headName head)⟩, rfl, rfl, ?_⟩
  have hall : '<' :: (head ++ '>' :: (second ++ rest)) = first ++ (second ++ rest) := by
    rw [hfirst, hparts, List.append_assoc]
  rw [← hfirst, lexemesFrom_cons (h.read_opening (second ++ rest)) hall, ← hsecond,
    lexemesFrom_cons hread hsecond, hparts, Text.byteLength_append, Nat.add_assoc]

end

end Source

-- ---------------------------------------------------------------------------
-- What is built
-- ---------------------------------------------------------------------------

open Source (IsTagHead headName headAttributes selfClosed closedAtOnce)

/-- An element that is closed at once, by a tag of its own name, is the node of a tag that closes
itself, and nothing is reported. -/
theorem Build.step_opening_closing (development : Bool) (build : Build)
    {leaf opening closing : Lexeme} {tag : String} {attrs : List Attribute}
    (hleaf : leaf.item = .leaf tag attrs) (hopening : opening.item = .opening tag attrs)
    (hclosing : closing.item = .closing tag) :
    (build.step development opening).step development closing = build.step development leaf := by
  unfold step
  rw [hleaf, hopening, hclosing]
  show ({ build with stack := _ } : Build).close development tag closing.start = _
  rw [close]
  simp [OpenElement.node]

/-- Lexemes at which nothing is found, and that leave the open tags as they were, do not show in the
diagnostics. -/
theorem Build.diagnostics_append_silent {middle : List Lexeme}
    (hsilent : ∀ outer, findings outer middle = [] ∧ Stencil.openTags outer middle = outer)
    (before behind : List Lexeme) :
    ((({} : Build).run true (before ++ (middle ++ behind))).finish true).journal.diagnostics =
      ((({} : Build).run true (before ++ behind)).finish true).journal.diagnostics := by
  obtain ⟨hfindings, hopen⟩ := hsilent (Stencil.openTags [] before)
  rw [diagnostics_finish_run, diagnostics_finish_run, findings_append, findings_append,
    findings_append, openTags_append, openTags_append, openTags_append, hfindings, hopen,
    List.nil_append]

theorem findings_leaf {leaf : Lexeme} {tag : String} {attrs : List Attribute}
    (h : leaf.item = .leaf tag attrs) (outer : List OpenTag) :
    findings outer [leaf] = [] ∧ openTags outer [leaf] = outer := by
  have hmark : leaf.mark? = none := by
    rw [Lexeme.mark?, h]
    rfl
  simp [findings, openTags, Lexeme.findings, Lexeme.openTags, hmark]

theorem findings_opening_closing {opening closing : Lexeme} {tag : String} {attrs : List Attribute}
    (hopening : opening.item = .opening tag attrs) (hclosing : closing.item = .closing tag)
    (outer : List OpenTag) :
    findings outer [opening, closing] = [] ∧ openTags outer [opening, closing] = outer := by
  have hmark : opening.mark? = some (.opening tag) := by
    rw [Lexeme.mark?, hopening]
    rfl
  have hmark' : closing.mark? = some (.closing tag) := by
    rw [Lexeme.mark?, hclosing]
    rfl
  simp [findings, openTags, Lexeme.findings, Lexeme.openTags, hmark, hmark']

section

variable {before after : List Lexeme} {head rest : List Char}

/-- With either form of a tag the row is the same but for the lexemes of the tag. -/
theorem lexemes_both_forms (hhead : IsTagHead head)
    (hrow : lexemes (before.flatMap Lexeme.source ++ (selfClosed head ++ rest)) = before ++ after) :
    let place := Text.byteLength (before.flatMap Lexeme.source)
    ∃ leaf opening closing : Lexeme,
      leaf.item = .leaf (headName head) (headAttributes head) ∧
      opening.item = .opening (headName head) (headAttributes head) ∧
      closing.item = .closing (headName head) ∧
      lexemes (before.flatMap Lexeme.source ++ (selfClosed head ++ rest)) =
        before ++ ([leaf] ++ lexemesFrom (place + Text.byteLength (selfClosed head)) rest) ∧
      lexemes (before.flatMap Lexeme.source ++ (closedAtOnce head ++ rest)) =
        before ++ ([opening, closing] ++
          lexemesFrom (place + Text.byteLength (closedAtOnce head)) rest) := by
  intro place
  have hreplace : ∀ behind, lexemes (before.flatMap Lexeme.source ++ '<' :: behind) =
      before ++ lexemesFrom place ('<' :: behind) := by
    intro behind
    have hother := Source.lexemesFrom_replace hrow fun last _ =>
      ⟨last.item.stopsBefore_tag behind, fun hnil => by simp [selfClosed] at hnil⟩
    rw [Nat.zero_add] at hother
    exact hother
  obtain ⟨opening, closing, hopening, hclosing, hclosed⟩ :=
    Source.lexemesFrom_closedAtOnce hhead place rest
  have hself := Source.lexemesFrom_selfClosed hhead place rest
  refine ⟨⟨place, selfClosed head, .leaf (headName head) (headAttributes head)⟩, opening, closing,
    rfl, hopening, hclosing, ?_, ?_⟩
  · exact (hreplace _).trans (congrArg (before ++ ·) hself)
  · exact (hreplace _).trans (congrArg (before ++ ·) hclosed)

theorem Build.top_both_forms (development : Bool) (hhead : IsTagHead head)
    (hrow : lexemes (before.flatMap Lexeme.source ++ (selfClosed head ++ rest)) = before ++ after) :
    (ofText development (before.flatMap Lexeme.source ++ (closedAtOnce head ++ rest))).top =
      (ofText development (before.flatMap Lexeme.source ++ (selfClosed head ++ rest))).top := by
  obtain ⟨leaf, opening, closing, hleaf, hopening, hclosing, hself, hclosed⟩ :=
    lexemes_both_forms hhead hrow
  have hstep := (({} : Build).run development before).step_opening_closing development hleaf
    hopening hclosing
  rw [ofText, ofText, hself, hclosed, run_append, run_append, run_append, run_append,
    top_finish_run, top_finish_run, Source.map_item_lexemesFrom, Source.map_item_lexemesFrom]
  have hrun : (({} : Build).run development before).run development [opening, closing] =
      (({} : Build).run development before).run development [leaf] := hstep
  rw [hrun]

theorem Build.diagnostics_both_forms (hhead : IsTagHead head)
    (hrow : lexemes (before.flatMap Lexeme.source ++ (selfClosed head ++ rest)) = before ++ after) :
    (ofText true (before.flatMap Lexeme.source ++ (closedAtOnce head ++ rest))).journal.diagnostics =
      (ofText true (before.flatMap Lexeme.source ++ (selfClosed head ++ rest))).journal.diagnostics.map
        (Diagnostic.relocate (placeAfterInsert
          (Text.byteLength (before.flatMap Lexeme.source ++ selfClosed head))
          ((headName head).utf8ByteSize + 2))) := by
  obtain ⟨leaf, opening, closing, hleaf, hopening, hclosing, hself, hclosed⟩ :=
    lexemes_both_forms hhead hrow
  -- in front of the tag nothing moves
  have hle : Text.byteLength (before.flatMap Lexeme.source) ≤
      Text.byteLength (before.flatMap Lexeme.source ++ selfClosed head) := by
    rw [Text.byteLength_append]
    exact Nat.le_add_right _ _
  have hbefore := map_relocate_before hrow hle ((headName head).utf8ByteSize + 2)
  rw [ofText, ofText, hself, hclosed, diagnostics_append_silent (findings_leaf hleaf),
    diagnostics_append_silent (findings_opening_closing hopening hclosing),
    ← diagnostics_map_relocate, List.map_append, hbefore, Source.byteLength_closedAtOnce,
    ← Nat.add_assoc, Text.byteLength_append, map_relocate_after]

end

-- ---------------------------------------------------------------------------
-- Compilation
-- ---------------------------------------------------------------------------

/-- **A tag that closes itself and one that is closed at once are the same.** Let the scan of a source
come to a tag that closes itself, with anything open by then and any mistakes made. With an element in
its place that is closed at once the tree is the same, and the diagnostics are the same with every
place behind the tag moved by the bytes that the source gains. -/
theorem compile_selfClosing (development : Bool) {front head rest : String} {build : Build}
    (hreach : Reaches development (front ++ ("<" ++ head ++ "/>") ++ rest).toList
      front.utf8ByteSize build)
    (hhead : IsTagHead head.toList) :
    let options : CompileOptions := { development := development, stripBlockComments := false }
    let name := headName head.toList
    let short := "<" ++ head ++ "/>"
    let long := "<" ++ head ++ "></" ++ name ++ ">"
    let gain := name.utf8ByteSize + 2
    long.utf8ByteSize = short.utf8ByteSize + gain ∧
      (compile options (front ++ long ++ rest)).root =
        (compile options (front ++ short ++ rest)).root ∧
      (compile options (front ++ long ++ rest)).diagnostics =
        (compile options (front ++ short ++ rest)).diagnostics.map
          (Diagnostic.relocate (placeAfterInsert (front ++ short).utf8ByteSize gain)) := by
  intro options name short long gain
  have hshort : short.toList = selfClosed head.toList := by
    simp [short, selfClosed]
  have hlong : long.toList = closedAtOnce head.toList := by
    simp [long, name, closedAtOnce]
  have hgain : long.utf8ByteSize = short.utf8ByteSize + gain := by
    rw [← Text.byteLength_toList, ← Text.byteLength_toList, hlong, hshort]
    exact Source.byteLength_closedAtOnce head.toList
  have hshortText : (front ++ short ++ rest).toList =
      front.toList ++ (selfClosed head.toList ++ rest.toList) := by
    rw [String.toList_append, String.toList_append, hshort, List.append_assoc]
  have hlongText : (front ++ long ++ rest).toList =
      front.toList ++ (closedAtOnce head.toList ++ rest.toList) := by
    rw [String.toList_append, String.toList_append, hlong, List.append_assoc]
  obtain ⟨before, after, hrow, hplace, -⟩ := hreach
  rw [hshortText] at hrow
  rw [← Text.byteLength_toList] at hplace
  obtain ⟨hfront, -⟩ := Source.flatMap_source_of_byteLength hrow hplace
  rw [← hfront] at hshortText hlongText hrow
  refine ⟨hgain, ?_, ?_⟩
  · have htop := Build.top_both_forms development hhead hrow
    rw [← hshortText, ← hlongText] at htop
    exact congrArg Root.mk htop
  · cases development with
    | true =>
      have hdiagnostics := Build.diagnostics_both_forms hhead hrow
      rw [← hshortText, ← hlongText, hfront, ← hshort, ← String.toList_append,
        Text.byteLength_toList] at hdiagnostics
      exact hdiagnostics
    | false =>
      rw [diagnostics_compile_off rfl, diagnostics_compile_off rfl, List.map_nil]

/-- A bare value that takes a slash along right in front of the end of the tag, an end mark in quotes,
and a component; mistakes stand on both sides, and the element around the tag is closed by a wrong
one. -/
theorem compile_selfClosing_slashes :
    let options : CompileOptions := { development := true, stripBlockComments := false }
    let front := "é</x><a>"
    let head := "é Card t='/>' v=a/b"
    let rest := "</q>ü<i>"
    (∃ build, Reaches true (front ++ ("<" ++ head ++ "/>") ++ rest).toList front.utf8ByteSize build) ∧
      IsTagHead head.toList ∧
      (compile options (front ++ ("<" ++ head ++ "></é>") ++ rest)).root =
        ⟨[.text "é",
          .element "a" [] [.element "Card" [⟨"Card", .literal ""⟩]
            [.element "é" [⟨"t", .literal "/>"⟩, ⟨"v", .literal "a/b"⟩] []]],
          .text "ü", .element "i" [] []]⟩ ∧
      (compile options (front ++ ("<" ++ head ++ "/>") ++ rest)).diagnostics =
        [⟨.stray "x", 2⟩, ⟨.unclosed "a", 32⟩, ⟨.unclosed "i", 38⟩] ∧
      (compile options (front ++ ("<" ++ head ++ "></é>") ++ rest)).diagnostics =
        [⟨.stray "x", 2⟩, ⟨.unclosed "a", 36⟩, ⟨.unclosed "i", 42⟩] := by
  intro options front head rest
  let text := (front ++ ("<" ++ head ++ "/>") ++ rest).toList
  let before : List Lexeme := [⟨0, ['é'], .text "é"⟩, ⟨2, "</x>".toList, .closing "x"⟩,
    ⟨6, "<a>".toList, .opening "a" []⟩]
  have hrow : lexemes text = before ++ (lexemes text).drop 3 := by decide +kernel
  have hreach : Reaches true text front.utf8ByteSize (({} : Build).run true before) :=
    ⟨before, _, hrow, by decide +kernel, rfl⟩
  have hhead : IsTagHead head.toList := by decide +kernel
  have hname : headName head.toList = "é" := by decide +kernel
  obtain ⟨-, hroot, hdiagnostics⟩ := compile_selfClosing true hreach hhead
  rw [hname] at hroot hdiagnostics
  have hshort : (compile options (front ++ ("<" ++ head ++ "/>") ++ rest)).diagnostics =
      [⟨.stray "x", 2⟩, ⟨.unclosed "a", 32⟩, ⟨.unclosed "i", 38⟩] := by decide +kernel
  refine ⟨⟨_, hreach⟩, hhead, ?_, hshort, ?_⟩
  · refine Eq.trans hroot ?_
    decide +kernel
  · refine Eq.trans hdiagnostics ?_
    rw [hshort]
    decide +kernel

end Stencil
