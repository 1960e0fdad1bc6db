import Stencil.Proofs.TokenShapes

/-!
# Rows of tokens

A text is cut into the one row of tokens that spells it and in which every token has its shape and
ends before the next one (`IsRow`). So tokens can be exchanged one by one, and whether the exchange
was a sound one shows at the seams. For a seam little more counts than the character behind it.

Main results:

* `tokens_eq_iff`: the tokens of a text are the one row that spells it;
* `tokens_append`: a text is cut at a seam that continues no word and no string.
-/

namespace Stencil

-- ---------------------------------------------------------------------------
-- Rows
-- ---------------------------------------------------------------------------

/-- A row of tokens of which each has its shape and ends before the next one. -/
inductive IsRow : List Token → Prop where
  | nil : IsRow []
  | cons {t : Token} {ts : List Token} (hshape : t.Shaped)
      (hends : t.EndsBefore (ts.flatMap Token.text)) (hrow : IsRow ts) : IsRow (t :: ts)

theorem IsRow.right {ts us : List Token} (h : IsRow (ts ++ us)) : IsRow us := by
  induction ts with
  | nil => exact h
  | cons t ts ih =>
    cases h with
    | cons hshape hends hrow => exact ih hrow

theorem IsRow.shaped {ts : List Token} (h : IsRow ts) {t : Token} (ht : t ∈ ts) : t.Shaped := by
  obtain ⟨before, after, rfl⟩ := List.append_of_mem ht
  cases h.right with
  | cons hshape hends hrow => exact hshape

/-- **A token is cut off** where it is not carried on. -/
theorem tokens_text_append {t : Token} {rest : List Char} (hshape : t.Shaped)
    (hends : t.EndsBefore rest) : tokens (t.text ++ rest) = t :: tokens rest := by
  by_cases hother : ∃ c, t = .other c
  · obtain ⟨c, rfl⟩ := hother
    cases hshape with
    | other hc => exact tokens_of_none (Token.match?_eq_none_iff.2 ⟨hc, hends⟩)
  · exact tokens_of_match? (Token.match?_text_append hshape hends (not_exists.1 hother))

theorem isRow_tokens (cs : List Char) : IsRow (tokens cs) := by
  fun_induction tokens cs with
  | case1 => exact .nil
  | case2 c cs t rest hread ih =>
    obtain ⟨hshape, hends⟩ := Token.shaped_of_match? hread
    rw [← flatMap_text_tokens rest] at hends
    exact .cons hshape hends ih
  | case3 c cs hnone ih =>
    obtain ⟨hc, hends⟩ := Token.match?_eq_none_iff.1 hnone
    rw [← flatMap_text_tokens cs] at hends
    exact .cons (.other hc) hends ih

theorem tokens_text {t : Token} (hshape : t.Shaped) : tokens t.text = [t] := by
  have hcut := tokens_text_append hshape t.endsBefore_nil
  rwa [List.append_nil, tokens] at hcut

theorem IsRow.tokens_eq {ts : List Token} (h : IsRow ts) :
    tokens (ts.flatMap Token.text) = ts := by
  induction h with
  | nil => rw [List.flatMap_nil, tokens]
  | cons hshape hends hrow ih =>
    rw [List.flatMap_cons, tokens_text_append hshape hends, ih]

/-- **The tokens of a text are the one row that spells it.** -/
theorem tokens_eq_iff {cs : List Char} {ts : List Token} :
    tokens cs = ts ↔ IsRow ts ∧ ts.flatMap Token.text = cs := by
  constructor
  · rintro rfl
    exact ⟨isRow_tokens cs, flatMap_text_tokens cs⟩
  · rintro ⟨hrow, rfl⟩
    exact hrow.tokens_eq

-- ---------------------------------------------------------------------------
-- Seams
-- ---------------------------------------------------------------------------

/-- A quote that opens no string. -/
def Token.isOpenQuote : Token → Bool
  | other c => isQuote c
  | _ => false

/-- Nothing but an open quote is carried on by what stands behind a seam. -/
theorem Token.EndsBefore.append {t : Token} {rest more : List Char} (h : t.EndsBefore rest)
    (hopen : t.isOpenQuote = false) (hword : Stops isWordChar more)
    (hcolon : Stops (· == ':') more) : t.EndsBefore (rest ++ more) := by
  have hpart : Stops isNamePart more := hword.imp fun c => isWordChar_of_isNamePart
  have hstart : Stops isNameStart more := hword.imp fun c => isWordChar_of_isNameStart
  cases t with
  | quoted cs | key cs => trivial
  | glued cs | member cs => exact Stops.append h hpart
  | name cs => exact ⟨h.1.append hpart, h.2.append hcolon⟩
  | other c =>
    obtain ⟨hquote, hpoint, hdigit⟩ := h
    refine ⟨fun hc => absurd hc ?_, fun hc => (hpoint hc).append hstart, fun hc => ?_⟩
    · exact Bool.not_eq_true _ ▸ hopen
    · have hend : Stops Char.isDigit more := hword.imp fun d hd => by
        rw [isWordChar_eq, hd, Bool.true_or]
      rw [List.dropWhile_append]
      split
      · have hmore := (Source.span_append (List.forall_mem_nil _) more hend).2
        rw [List.nil_append] at hmore
        rwa [hmore]
      · exact (hdigit hc).append hstart

theorem IsRow.append {ts us : List Token} (hts : IsRow ts) (hus : IsRow us)
    (hopen : ∀ t ∈ ts, t.isOpenQuote = false)
    (hword : Stops Token.isWordChar (us.flatMap Token.text))
    (hcolon : Stops (· == ':') (us.flatMap Token.text)) : IsRow (ts ++ us) := by
  induction hts with
  | nil => exact hus
  | @cons t ts hshape hends hrow ih =>
    have hrest := ih fun u hu => hopen u (List.mem_cons_of_mem t hu)
    rw [List.cons_append]
    refine .cons hshape ?_ hrest
    rw [List.flatMap_append]
    exact hends.append (hopen t List.mem_cons_self) hword hcolon

/-- **A text is cut at a seam**: where no string is open and the text behind neither goes on with a
word nor makes the last word a key. -/
theorem tokens_append {front behind : List Char}
    (hopen : ∀ t ∈ tokens front, t.isOpenQuote = false)
    (hword : Stops Token.isWordChar behind) (hcolon : Stops (· == ':') behind) :
    tokens (front ++ behind) = tokens front ++ tokens behind := by
  rw [tokens_eq_iff, List.flatMap_append, flatMap_text_tokens, flatMap_text_tokens]
  refine ⟨(isRow_tokens front).append (isRow_tokens behind) hopen ?_ ?_, rfl⟩
  · rwa [flatMap_text_tokens]
  · rwa [flatMap_text_tokens]

end Stencil
