import Stencil.Proofs.SelfClosing
import Stencil.Proofs.WellFormed

/-!
# Values without quotes

A value that needs no quotes may be written with or without them. The two ways are read by
different means: between quotes a value reaches to the closing one, which is taken along, while a
bare value is ended by what follows it, be it a blank, which is taken along too, the mark that ends
the tag, or the slash right in front of that mark. So what may follow has to be told (`EndsBare`). A
value that ends with a slash is the one that cannot be put right in front of the end mark, for the
two would be the slash and mark that end a bare value.

Main results:

* `readBare_append_of_endsBare`: a bare value is read up to its end;
* `readAttributes_dropBlank`: the blank taken along with a bare value is not missed;
* `bare_value_reads_as_quoted`: with and without quotes the attributes are the same and as much is
  left.
-/

namespace Stencil

open Source (isNameChar readBare readValue readAttributes dropBlank)

/-- The values that are read as literals without quotes, and that double quotes can hold. -/
structure IsBareValue (value : String) : Prop where
  no_blank : ∀ c ∈ value.toList, Text.isBlank c = false
  no_end : '>' ∉ value.toList
  no_quote : '"' ∉ value.toList
  not_single : value.toList.head? ≠ some '\''
  not_brace : value.toList.head? ≠ some '{'

/-- What may follow a bare value: the text ends, or something that ends the value. -/
inductive EndsBare (value : List Char) : List Char → Prop where
  | nothing : EndsBare value []
  | blank {c : Char} {rest : List Char} (hblank : Text.isBlank c = true) :
      EndsBare value (c :: rest)
  | mark {rest : List Char} (hslash : value.getLast? ≠ some '/') : EndsBare value ('>' :: rest)
  | slash {rest : List Char} : EndsBare value ('/' :: '>' :: rest)

-- ---------------------------------------------------------------------------
-- Where a bare value ends
-- ---------------------------------------------------------------------------

namespace EndsBare

variable {value rest : List Char}

theorem tail {c : Char} (h : EndsBare (c :: value) rest) : EndsBare value rest := by
  cases h with
  | nothing => exact .nothing
  | blank hblank => exact .blank hblank
  | mark hslash =>
    refine .mark fun hlast => hslash ?_
    rw [List.getLast?_cons, hlast]
    rfl
  | slash => exact .slash

/-- Where a value has come to its end, the reader stops. -/
theorem readBare_eq (h : EndsBare value rest) : readBare rest = ([], rest) := by
  cases h with
  | nothing => rfl
  | blank hblank => rw [readBare, if_pos (by simp [hblank])]
  | mark _ => rw [readBare, if_pos (by simp)]
  | slash => rw [readBare, if_pos (by simp)]

/-- A slash at the end of a value is not followed by an end mark. -/
theorem head?_ne_mark (h : EndsBare ['/'] rest) : rest.head? ≠ some '>' := by
  cases h with
  | nothing => simp
  | blank hblank =>
    intro hmark
    rw [Option.some.inj hmark] at hblank
    exact absurd hblank (by decide)
  | mark hslash => exact absurd rfl hslash
  | slash => simp

/-- Behind an equals sign, what ends a value is no quote and no brace. -/
theorem head?_ne_of_mark {c : Char} (h : EndsBare value rest) (hc : rest.head? = some c) :
    c ≠ '"' ∧ c ≠ '\'' ∧ c ≠ '{' := by
  cases h with
  | nothing => simp at hc
  | blank hblank =>
    obtain rfl := Option.some.inj hc
    refine ⟨?_, ?_, ?_⟩ <;> rintro rfl <;> exact absurd hblank (by decide)
  | mark _ =>
    obtain rfl := Option.some.inj hc
    decide
  | slash =>
    obtain rfl := Option.some.inj hc
    decide

end EndsBare

namespace Source

/-- A bare value is read up to its end, with the slashes inside it. -/
theorem readBare_append_of_endsBare {value rest : List Char}
    (hvalue : ∀ c ∈ value, Text.isBlank c = false ∧ c ≠ '>') (hrest : EndsBare value rest) :
    readBare (value ++ rest) = (value, rest) := by
  induction value with
  | nil => exact hrest.readBare_eq
  | cons c value ih =>
    obtain ⟨⟨hblank, hmark⟩, hbehind⟩ := List.forall_mem_cons.1 hvalue
    have hslash : ¬(c = '/' ∧ (value ++ rest).head? = some '>') := by
      rintro ⟨rfl, hhead⟩
      cases value with
      | nil => exact hrest.head?_ne_mark hhead
      | cons d value => exact (hbehind d List.mem_cons_self).2 (Option.some.inj hhead)
    have hgoes : ¬(Text.isBlank c || c == '>' ||
        (c == '/' && (value ++ rest).head? == some '>')) = true := by
      simp only [Bool.or_eq_true, Bool.and_eq_true, beq_iff_eq, hblank, hmark, or_self,
        Bool.false_eq_true, false_or]
      exact hslash
    rw [List.cons_append, readBare, if_neg hgoes, ih hbehind hrest.tail]

/-- A value without a quote or a brace in front is a bare one. -/
theorem readValue_of_unmarked {cs : List Char}
    (h : ∀ c, cs.head? = some c → c ≠ '"' ∧ c ≠ '\'' ∧ c ≠ '{') :
    readValue cs = (.literal (String.ofList (readBare cs).1), dropBlank (readBare cs).2) := by
  cases cs with
  | nil => rfl
  | cons c cs =>
    obtain ⟨hdouble, hsingle, hbrace⟩ := h c rfl
    have hquote : ¬(c == '"' || c == '\'') = true := by simp [hdouble, hsingle]
    rw [readValue, if_neg hquote, if_neg (by simpa using hbrace)]

/-- Attributes are read the same with and without a blank in front. -/
theorem readAttributes_dropBlank (cs : List Char) :
    readAttributes (dropBlank cs) = readAttributes cs := by
  cases cs with
  | nil => rfl
  | cons c cs =>
    rw [dropBlank]
    split
    · next hblank => rw [readAttributes_of_blank hblank]
    · rfl

/-- A name with a value behind it is the first attribute, and the others are read behind the
value. -/
theorem readAttributes_of_value {name : String} (hname : IsName name) {behind rest : List Char}
    {value : AttrValue} (hvalue : readValue behind = (value, rest)) :
    readAttributes (name.toList ++ '=' :: behind) =
      (⟨name, value⟩ :: (readAttributes rest).1, (readAttributes rest).2) := by
  have hread := readAttributes_value ⟨name.toList, hname.isNameChar⟩ hvalue
  rw [List.cons_append, readAttributes_of_blank (by decide), String.ofList_toList] at hread
  exact hread

end Source

-- ---------------------------------------------------------------------------
-- With and without quotes
-- ---------------------------------------------------------------------------

/-- **A value reads the same with and without quotes.** Whatever the name and whatever follows the
value, as long as it ends a bare one, both ways give an attribute with that value, and then the
attributes of what follows, and leave the same text. -/
theorem bare_value_reads_as_quoted {name value : String} {rest : List Char} (hname : IsName name)
    (hvalue : IsBareValue value) (hrest : EndsBare value.toList rest) :
    let bare := name.toList ++ '=' :: (value.toList ++ rest)
    let quoted := name.toList ++ '=' :: '"' :: (value.toList ++ '"' :: rest)
    readAttributes bare = readAttributes quoted ∧
      readAttributes bare =
        (⟨name, .literal value⟩ :: (readAttributes rest).1, (readAttributes rest).2) := by
  intro bare quoted
  have hquoted : readAttributes quoted =
      (⟨name, .literal value⟩ :: (readAttributes rest).1, (readAttributes rest).2) := by
    have hread := Source.readValue_quoted (Or.inl rfl) hvalue.no_quote rest
    rw [String.ofList_toList] at hread
    exact Source.readAttributes_of_value hname hread
  have hbare : readAttributes bare =
      (⟨name, .literal value⟩ :: (readAttributes rest).1, (readAttributes rest).2) := by
    have hchars : ∀ c ∈ value.toList, Text.isBlank c = false ∧ c ≠ '>' := by
      intro c hc
      refine ⟨hvalue.no_blank c hc, ?_⟩
      rintro rfl
      exact hvalue.no_end hc
    have hunmarked : ∀ c, (value.toList ++ rest).head? = some c → c ≠ '"' ∧ c ≠ '\'' ∧ c ≠ '{' := by
      intro c hc
      cases hfirst : value.toList with
      | nil =>
        rw [hfirst] at hc
        exact hrest.head?_ne_of_mark hc
      | cons d ds =>
        rw [hfirst] at hc
        obtain rfl : d = c := Option.some.inj hc
        refine ⟨?_, ?_, ?_⟩
        · rintro rfl
          exact hvalue.no_quote (by simp [hfirst])
        · rintro rfl
          exact hvalue.not_single (by simp [hfirst])
        · rintro rfl
          exact hvalue.not_brace (by simp [hfirst])
    have hread := Source.readValue_of_unmarked hunmarked
    rw [Source.readBare_append_of_endsBare hchars hrest, String.ofList_toList] at hread
    have hattrs := Source.readAttributes_of_value hname hread
    rw [Source.readAttributes_dropBlank] at hattrs
    exact hattrs
  exact ⟨hbare.trans hquoted.symm, hbare⟩

/-- A value with slashes at both ends, in front of the slash that ends the tag, and with marks
inside it that would mean something elsewhere. -/
theorem bare_value_reads_as_quoted_slashes :
    let name := ""
    let value := "/a='\x7b/"
    let rest := "/>b".toList
    IsName name ∧ IsBareValue value ∧ EndsBare value.toList rest ∧
      readAttributes "=/a='\x7b//>b".toList = ([⟨name, .literal value⟩], rest) ∧
      readAttributes "=\"/a='\x7b/\"/>b".toList = ([⟨name, .literal value⟩], rest) := by
  intro name value rest
  have hname : IsName name := ⟨by simp [name], by decide, by decide, by decide⟩
  have hvalue : IsBareValue value :=
    ⟨by simp [value, Text.isBlank], by decide, by decide, by decide, by decide⟩
  have hrest : EndsBare value.toList rest := .slash
  have hstop : readAttributes rest = ([], rest) := by decide +kernel
  have hbareText : "=/a='\x7b//>b".toList = name.toList ++ '=' :: (value.toList ++ rest) := by
    decide
  have hquotedText : "=\"/a='\x7b/\"/>b".toList =
      name.toList ++ '=' :: '"' :: (value.toList ++ '"' :: rest) := by decide
  obtain ⟨hsame, hbare⟩ := bare_value_reads_as_quoted hname hvalue hrest
  rw [hstop] at hbare
  refine ⟨hname, hvalue, hrest, ?_, ?_⟩
  · rw [hbareText]
    exact hbare
  · rw [hquotedText]
    exact hsame.symm.trans hbare

end Stencil
