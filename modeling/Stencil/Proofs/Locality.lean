import Stencil.Proofs.Rewritten

/-!
# Rewriting is local

An expression can be rewritten piece by piece. What is written behind a separator, a character that is
in no word and makes neither a member nor a key nor a string (`Token.isSeparator`), is rewritten as if
it stood alone, and so is what is written in front of it. Neither part has to make sense: the words of
the front part end at the separator whatever comes next, and what follows may open a string and never
close it.

Only a string can reach across. The front part must not hold a quote that waits for another one of its
kind, for the rest of the expression may have it (`QuotesClosed`).

Main results:

* `tokens_separator`: a separator is a token, and on both sides of it stand the tokens of the parts;
* `rewriting_local`: the text and the flag of the whole, from those of the parts.
-/

namespace Stencil

open Token

-- ---------------------------------------------------------------------------
-- Separators
-- ---------------------------------------------------------------------------

/-- The characters that stand between tokens: they are in no word, and neither a quote nor the point
of a member nor the colon of a key. -/
def Token.isSeparator (c : Char) : Bool :=
  !isWordChar c && !isQuote c && c != '.' && c != ':'

theorem Token.isSeparator_iff {c : Char} : isSeparator c = true ↔
    isWordChar c = false ∧ isQuote c = false ∧ c ≠ '.' ∧ c ≠ ':' := by
  unfold isSeparator
  simp only [Bool.and_eq_true, Bool.not_eq_true', bne_iff_ne, and_assoc]

/-- A separator stands for itself, whatever is behind it. -/
theorem tokens_cons_separator {c : Char} (hc : isSeparator c = true) (behind : List Char) :
    tokens (c :: behind) = .other c :: tokens behind := by
  obtain ⟨hword, hquote, hpoint, -⟩ := isSeparator_iff.1 hc
  rw [isWordChar_eq, Bool.or_eq_false_iff] at hword
  obtain ⟨hdigit, hstart⟩ := hword
  have hends : (Token.other c).EndsBefore behind := by
    refine ⟨fun h => ?_, fun h => absurd h hpoint, fun h => ?_⟩
    · rw [hquote] at h
      cases h
    · rw [hdigit] at h
      cases h
  exact tokens_text_append (.other hstart) hends

-- ---------------------------------------------------------------------------
-- The front part
-- ---------------------------------------------------------------------------

/-- Every quote of a text is in a string of it that is closed. -/
def QuotesClosed (cs : List Char) : Prop :=
  ∀ t ∈ tokens cs, t.text.any isQuote = true → t.isQuoted = true

instance (cs : List Char) : Decidable (QuotesClosed cs) :=
  inferInstanceAs (Decidable (∀ t ∈ tokens cs, _ → _))

theorem QuotesClosed.not_isOpenQuote {cs : List Char} (h : QuotesClosed cs) :
    ∀ t ∈ tokens cs, t.isOpenQuote = false := by
  intro t ht
  rw [← Bool.not_eq_true]
  intro hopen
  cases t with
  | other c =>
    have hquote : (Token.other c).text.any isQuote = true := by
      show (isQuote c || false) = true
      rw [Bool.or_false]
      exact hopen
    have hquoted := h (.other c) ht hquote
    cases hquoted
  | quoted cs | glued cs | member cs | key cs | name cs => cases hopen

/-- **A separator cuts a text in two**, of which each part keeps its own tokens. -/
theorem tokens_separator {front : List Char} (hfront : QuotesClosed front) {c : Char}
    (hc : isSeparator c = true) (behind : List Char) :
    tokens (front ++ c :: behind) = tokens front ++ .other c :: tokens behind := by
  obtain ⟨hword, -, -, hcolon⟩ := isSeparator_iff.1 hc
  have hends : Stops (· == ':') (c :: behind) := stops_cons.2 (beq_false_of_ne hcolon)
  rw [tokens_append hfront.not_isOpenQuote (stops_cons.2 hword) hends,
    tokens_cons_separator hc]

-- ---------------------------------------------------------------------------
-- Both parts
-- ---------------------------------------------------------------------------

/-- **Rewriting is local.** Let every quote of `a` be in a string of it that is closed. Then with a
separator behind `a`, whatever follows, the rewritten text is that of `a`, the separator and the
rewritten text of what follows, and the whole is dynamic exactly if one of its parts is. -/
theorem rewriting_local {a b : String} {c : Char} (hquotes : QuotesClosed a.toList)
    (hc : isSeparator c = true) :
    Expression.ofSource (a ++ String.singleton c ++ b) =
      ⟨(Expression.ofSource a).text ++ String.singleton c ++ (Expression.ofSource b).text,
        (Expression.ofSource a).dynamic || (Expression.ofSource b).dynamic⟩ := by
  have hsource : (a ++ String.singleton c ++ b).toList = a.toList ++ c :: b.toList := by
    rw [String.toList_append, String.toList_append, String.toList_singleton, List.append_assoc]
    rfl
  have htokens : tokens (a ++ String.singleton c ++ b).toList =
      tokens a.toList ++ .other c :: tokens b.toList := by
    rw [hsource, tokens_separator hquotes hc]
  have htext : (Expression.ofSource (a ++ String.singleton c ++ b)).text =
      (Expression.ofSource a).text ++ String.singleton c ++ (Expression.ofSource b).text := by
    rw [← String.toList_inj, String.toList_append, String.toList_append, String.toList_singleton]
    rw [Expression.text_ofSource, Expression.text_ofSource, Expression.text_ofSource, htokens,
      List.flatMap_append, List.flatMap_cons, rewritten_other, List.append_assoc]
  have hdynamic : (Expression.ofSource (a ++ String.singleton c ++ b)).dynamic =
      ((Expression.ofSource a).dynamic || (Expression.ofSource b).dynamic) := by
    rw [Expression.dynamic_ofSource, Expression.dynamic_ofSource, Expression.dynamic_ofSource,
      htokens, List.any_append, List.any_cons, isScoped_other, Bool.false_or]
  rw [← htext, ← hdynamic]

/-- The front part ends in a word and has strings with the other quote inside; a string is opened
behind the separator and never closed. -/
theorem rewriting_local_unclosed :
    let a := "f(\"it's\", '\"') || $x"
    let b := "'y + z"
    QuotesClosed a.toList ∧ isSeparator ' ' = true ∧
      Expression.ofSource (a ++ " " ++ b) =
        ⟨"instance.f(\"it's\", '\"') || locals.x 'instance.y + instance.z", true⟩ := by
  intro a b
  have hquotes : QuotesClosed a.toList := by decide +kernel
  have hc : isSeparator ' ' = true := by decide
  have ha : Expression.ofSource a =
      ⟨"instance.f(\"it's\", '\"') || locals.x", true⟩ := by decide +kernel
  have hb : Expression.ofSource b = ⟨"'instance.y + instance.z", true⟩ := by decide +kernel
  have hspace : String.singleton ' ' = " " := by decide +kernel
  have hwhole := rewriting_local (b := b) hquotes hc
  rw [hspace, ha, hb] at hwhole
  exact ⟨hquotes, hc, hwhole.trans (by decide +kernel)⟩

-- a string that is open in front of the separator reaches across it
example : Expression.ofSource "'x 'y" = ⟨"'x 'instance.y", true⟩ ∧
    Expression.ofSource "'x" = ⟨"'instance.x", true⟩ := by
  decide +kernel

end Stencil
