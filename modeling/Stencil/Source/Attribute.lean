import Stencil.Source.Delimited
import Stencil.Text.Blank
import Stencil.Tree.Basic

/-!
# Attributes in a source

Inside a tag, attributes stand between blanks up to a slash or the end of the tag. A value follows
its name behind an equals sign and comes in three forms: between two quotes of one kind, as an
expression between braces, or bare. An attribute without a value has the empty literal. Nothing is
refused: a name may be empty when an equals sign comes first, and a value that is cut off by the
end of the source is what there is of it.

Main results:

* `readAttributes_suffix`: what the reader leaves is the end of the text it was given;
* `readAttributes_stop`: it stops at a slash, at the end of the tag, or at the end of the source.
-/

namespace Stencil.Source

/-- The characters of a tag or attribute name: all but blanks and the marks that end a name. -/
def isNameChar (c : Char) : Bool :=
  !Text.isBlank c && c != '=' && c != '/' && c != '>'

/-- A value without quotes, which reaches to a blank, to the end of the tag, or to the slash right
in front of that end, and the text that follows. -/
def readBare : List Char → List Char × List Char
  | [] => ([], [])
  | c :: cs =>
    if Text.isBlank c || c == '>' || (c == '/' && cs.head? == some '>') then ([], c :: cs)
    else
      let tail := readBare cs
      (c :: tail.1, tail.2)

def dropBlank : List Char → List Char
  | [] => []
  | c :: cs => if Text.isBlank c then cs else c :: cs

/-- The value behind an equals sign, and the text that follows. A bare value takes one blank behind
it along. -/
def readValue : List Char → AttrValue × List Char
  | [] => (.literal "", [])
  | c :: cs =>
    if c == '"' || c == '\'' then
      let quoted := upTo c cs
      (.literal (String.ofList quoted.1), quoted.2)
    else if c == '{' then
      -- no blank is taken along here, nor behind a closing quote
      let inner := braced 0 cs
      (.expression (Expression.ofChars inner.1), inner.2)
    else
      let bare := readBare (c :: cs)
      (.literal (String.ofList bare.1), dropBlank bare.2)

/-- An attribute with its value, if it has one, and the text that follows. -/
def readAttribute (cs : List Char) : Attribute × List Char :=
  let name := String.ofList (cs.takeWhile isNameChar)
  match cs.dropWhile isNameChar with
  | '=' :: rest =>
    let given := readValue rest
    (⟨name, given.1⟩, given.2)
  | rest => (⟨name, .literal ""⟩, rest)

/-! ## What the readers leave -/

theorem readBare_suffix (cs : List Char) : (readBare cs).2 <:+ cs := by
  induction cs with
  | nil => exact List.suffix_rfl
  | cons c cs ih =>
    rw [readBare]
    split
    · exact List.suffix_rfl
    · exact ih.trans (List.suffix_cons c cs)

theorem dropBlank_suffix (cs : List Char) : dropBlank cs <:+ cs := by
  cases cs with
  | nil => exact List.suffix_rfl
  | cons c cs =>
    rw [dropBlank]
    split
    · exact List.suffix_cons c cs
    · exact List.suffix_rfl

theorem readValue_suffix (cs : List Char) : (readValue cs).2 <:+ cs := by
  cases cs with
  | nil => exact List.suffix_rfl
  | cons c cs =>
    rw [readValue]
    split
    · exact (upTo_suffix c cs).trans (List.suffix_cons c cs)
    · split
      · exact (braced_suffix 0 cs).trans (List.suffix_cons c cs)
      · exact (dropBlank_suffix _).trans (readBare_suffix (c :: cs))

theorem readAttribute_suffix (cs : List Char) :
    (readAttribute cs).2 <:+ cs.dropWhile isNameChar := by
  rw [readAttribute]
  split
  · next rest h =>
    rw [h]
    exact (readValue_suffix rest).trans (List.suffix_cons _ rest)
  · exact List.suffix_rfl

/-- An attribute takes a character at least, unless a blank or the end of the tag comes first. -/
theorem length_readAttribute {c : Char} {cs : List Char} (hstop : ¬(c = '/' ∨ c = '>'))
    (hblank : ¬Text.isBlank c = true) : (readAttribute (c :: cs)).2.length < (c :: cs).length := by
  by_cases hname : isNameChar c = true
  · have hle := (readAttribute_suffix (c :: cs)).length_le
    rw [List.dropWhile_cons_of_pos hname] at hle
    have := (List.dropWhile_suffix isNameChar (l := cs)).length_le
    simp only [List.length_cons]
    omega
  · have heq : c = '=' := by
      simp only [isNameChar, Bool.and_eq_true, bne_iff_ne, Bool.not_eq_true'] at hname
      simp only [not_or, Bool.not_eq_true] at hstop hblank
      grind
    subst heq
    rw [readAttribute, List.dropWhile_cons_of_neg hname]
    have := (readValue_suffix cs).length_le
    simp only [List.length_cons]
    omega

/-! ## All attributes of a tag -/

/-- The attributes up to the end of the tag, a slash or the end of the source, and the text that
follows them. -/
def readAttributes : List Char → List Attribute × List Char
  | [] => ([], [])
  | c :: cs =>
    if _hstop : c = '/' ∨ c = '>' then ([], c :: cs)
    else if _hblank : Text.isBlank c = true then readAttributes cs
    else
      let first := readAttribute (c :: cs)
      let others := readAttributes first.2
      (first.1 :: others.1, others.2)
termination_by cs => cs.length
decreasing_by
  · simp
  · exact length_readAttribute _hstop _hblank

theorem readAttributes_suffix (cs : List Char) : (readAttributes cs).2 <:+ cs := by
  fun_induction readAttributes cs with
  | case1 => exact List.suffix_rfl
  | case2 => exact List.suffix_rfl
  | case3 c cs _ _ ih => exact ih.trans (List.suffix_cons c cs)
  | case4 c cs _ _ first others ih =>
    exact ih.trans ((readAttribute_suffix (c :: cs)).trans (List.dropWhile_suffix isNameChar))

/-- After the attributes the source ends, or a slash or the end of the tag follows. -/
theorem readAttributes_stop (cs : List Char) :
    (readAttributes cs).2 = [] ∨ ∃ rest, (readAttributes cs).2 = '/' :: rest ∨
      (readAttributes cs).2 = '>' :: rest := by
  fun_induction readAttributes cs with
  | case1 => exact Or.inl rfl
  | case2 c cs h =>
    refine Or.inr ⟨cs, ?_⟩
    rcases h with rfl | rfl
    · exact Or.inl rfl
    · exact Or.inr rfl
  | case3 c cs _ _ ih => exact ih
  | case4 c cs _ _ first others ih => exact ih

end Stencil.Source
