import Mathlib.Data.List.Chain
import Stencil.Proofs.Resolution
import Stencil.Proofs.TokenRows

/-!
# Where names are resolved

A bare name is resolved where it stands, so the prefix that rewriting writes there lands behind
whatever stands in front of the name. A name takes in all characters of a word that follow it, and a
word that is part of a number, a member or a key is no bare name, so in front of a bare name there is
no such character. There is one exception. A dollar sign starts a name wherever it stands, and inside
a word it cuts the word in two (`DollarsApart` excludes this): of `a$b` the second half becomes
`locals.b`, joined to the first.

Main results:

* `name_placed`: what stands on both sides of a bare name;
* `scoped_name_placed`: a resolved name is a whole word, unless it starts with such a dollar sign.
-/

namespace Stencil

open Token

-- ---------------------------------------------------------------------------
-- Dollar signs that stand apart
-- ---------------------------------------------------------------------------

/-- No dollar sign stands right behind a character of a word. -/
def DollarsApart (cs : List Char) : Prop :=
  cs.IsChain fun c d => d = '$' → isWordChar c = false

instance (cs : List Char) : Decidable (DollarsApart cs) :=
  inferInstanceAs (Decidable (cs.IsChain _))

theorem DollarsApart.right {front rest : List Char} (h : DollarsApart (front ++ rest)) :
    DollarsApart rest :=
  List.IsChain.right_of_append h

/-- Behind a word that has come to its end there stands no dollar sign either. -/
theorem DollarsApart.stops {front word rest : List Char}
    (h : DollarsApart (front ++ word ++ rest)) (hword : IsIdentifier word)
    (hstops : Stops isNamePart rest) : Stops isWordChar rest := by
  obtain ⟨init, c, rfl⟩ := (List.eq_nil_or_concat' word).resolve_left hword.ne_nil
  have hc : isWordChar c = true := hword.all_isWordChar c (by simp)
  cases rest with
  | nil => exact stops_nil isWordChar
  | cons d rest =>
    have hchain : DollarsApart ((front ++ init) ++ c :: d :: rest) := by simpa using h
    have hdollar : d ≠ '$' := by
      intro hd
      rw [(List.isChain_append_cons_cons.1 hchain).2.1 hd] at hc
      cases hc
    rw [stops_cons] at hstops ⊢
    rw [isWordChar, hstops, Bool.false_or]
    exact beq_false_of_ne hdollar

-- ---------------------------------------------------------------------------
-- Where a name stands
-- ---------------------------------------------------------------------------

/-- Of the tokens that end right before a name none ends in a point, and one that ends in a word
leaves the name only its dollar sign to start with. -/
theorem last_before_name {t : Token} {word rest : List Char} {c : Char} (hshape : t.Shaped)
    (hends : t.EndsBefore (word ++ rest)) (hword : IsIdentifier word)
    (hc : t.text.getLast? = some c) :
    c ≠ '.' ∧ (isWordChar c = true → word.head? = some '$') := by
  obtain ⟨d, ds, rfl, hstart, hparts⟩ := hword
  -- a token that ends in a name of its own
  have hcut : ∀ front own, t.text = front ++ own → IsIdentifier own →
      Stops isNamePart (d :: ds ++ rest) →
      c ≠ '.' ∧ (isWordChar c = true → (d :: ds).head? = some '$') := by
    intro front own htext hown hstops
    rw [htext, List.getLast?_append_of_ne_nil front hown.ne_nil] at hc
    have hin := hown.all_isWordChar c (List.mem_of_getLast? hc)
    refine ⟨ne_point_of_isWordChar hin, fun _ => ?_⟩
    rw [eq_dollar_of_isNameStart hstart (stops_cons.1 hstops)]
    rfl
  cases hshape with
  | @quoted q inner hq hinner =>
    have hlast : (q :: inner ++ [q]).getLast? = some q := List.getLast?_concat
    obtain rfl : q = c := Option.some.inj (hlast.symm.trans hc)
    refine ⟨(alone_of_isQuote hq).2.1, fun hin => ?_⟩
    rw [not_isWordChar_of_isQuote hq] at hin
    cases hin
  | @glued digits own hne hdigits hown => exact hcut digits own rfl hown hends
  | @member own hown => exact hcut ['.'] own rfl hown hends
  | @key own hown =>
    obtain rfl : ':' = c := by simpa [text] using hc
    exact ⟨by decide, fun hin => absurd hin (by decide)⟩
  | @name own hown => exact hcut [] own rfl hown hends.1
  | @other e he =>
    obtain rfl : e = c := by simpa [text] using hc
    obtain ⟨-, hpoint, hdigit⟩ := hends
    refine ⟨fun hc => ?_, fun hin => ?_⟩
    · have hstops := stops_cons.1 (hpoint hc)
      rw [hstart] at hstops
      cases hstops
    · rw [isWordChar_eq, he, Bool.or_false] at hin
      have hstops := hdigit hin
      rw [List.cons_append, List.dropWhile_cons_of_neg
        (by simp [(alone_of_isNameStart hstart).2.1]), stops_cons, hstart] at hstops
      cases hstops

/-- A name in a row of tokens, with the characters on both sides of it. -/
theorem name_placed {before after : List Token} {word : List Char}
    (h : IsRow (before ++ .name word :: after)) :
    (∀ c, (before.flatMap text).getLast? = some c →
      c ≠ '.' ∧ (isWordChar c = true → word.head? = some '$')) ∧
    Stops isNamePart (after.flatMap text) := by
  cases h.right with
  | cons hshape hends hrow =>
    refine ⟨fun c hc => ?_, hends.1⟩
    cases hshape with
    | name hword =>
      rcases List.eq_nil_or_concat' before with rfl | ⟨init, t, rfl⟩
      · cases hc
      · rw [List.append_assoc] at h
        cases h.right with
        | cons htshape htends htrow =>
          rw [List.flatMap_append, List.flatMap_singleton,
            List.getLast?_append_of_ne_nil _ htshape.text_ne_nil] at hc
          exact last_before_name htshape htends hword hc

/-- **A name is resolved where it is a whole word.** Only a name that starts with a dollar sign can be
resolved right behind another word, and then the source has a dollar sign that does not stand
apart. -/
theorem scoped_name_placed {source : String} {before after : List Token} {word : List Char}
    (htokens : tokens source.toList = before ++ .name word :: after)
    (hscoped : (Token.name word).isScoped = true) :
    source.toList = before.flatMap text ++ word ++ after.flatMap text ∧
      (Expression.ofSource source).text.toList =
        before.flatMap rewritten ++ (Reference.ofName word).text ++ after.flatMap rewritten ∧
      (∀ c, (before.flatMap text).getLast? = some c → isWordChar c = true →
        (∃ bare, Reference.ofName word = .ofLocals bare) ∧ ¬DollarsApart source.toList) ∧
      (∀ c, (after.flatMap text).head? = some c → isNamePart c = false) := by
  have hrow := isRow_tokens source.toList
  rw [htokens] at hrow
  have hsource : source.toList = before.flatMap text ++ word ++ after.flatMap text := by
    rw [← flatMap_text_tokens source.toList, htokens]
    simp [text]
  have hresult : (Expression.ofSource source).text.toList =
      before.flatMap rewritten ++ (Reference.ofName word).text ++ after.flatMap rewritten := by
    rw [Expression.text_ofSource, htokens]
    simp [rewritten]
  obtain ⟨hbefore, hafter⟩ := name_placed hrow
  refine ⟨hsource, hresult, fun c hc hword => ?_, hafter⟩
  have hdollar := (hbefore c hc).2 hword
  constructor
  · rcases Reference.ofName_cases word with
      ⟨hname, hfixed⟩ | ⟨hname, hhead⟩ | ⟨bare, hbare, hcons, hname⟩
    · rw [isScoped, hname] at hscoped
      cases hscoped
    · exact absurd hdollar hhead
    · exact ⟨bare, hname⟩
  · intro hapart
    obtain ⟨init, hinit⟩ := List.getLast?_eq_some_iff.1 hc
    obtain ⟨bare, rfl⟩ := List.head?_eq_some_iff.1 hdollar
    rw [hsource, hinit] at hapart
    have hchain : DollarsApart (init ++ c :: '$' :: (bare ++ after.flatMap text)) := by
      simpa using hapart
    rw [(List.isChain_append_cons_cons.1 hchain).2.1 rfl] at hword
    cases hword

theorem scoped_name_placed_inside_word :
    let before : List Token := [.name "this".toList, .member ".a".toList]
    tokens "this.a$b".toList = before ++ .name "$b".toList :: [] ∧
      (Token.name "$b".toList).isScoped = true ∧ (before.flatMap text).getLast? = some 'a' ∧
      isWordChar 'a' = true ∧ ¬DollarsApart "this.a$b".toList := by
  intro before
  have htokens : tokens "this.a$b".toList = before ++ .name "$b".toList :: [] := by
    decide +kernel
  have hscoped : (Token.name "$b".toList).isScoped = true := by decide +kernel
  have hlast : (before.flatMap text).getLast? = some 'a' := by decide +kernel
  obtain ⟨-, -, hword, -⟩ := scoped_name_placed htokens hscoped
  exact ⟨htokens, hscoped, hlast, by decide, (hword 'a' hlast (by decide)).2⟩

/-- A dollar sign inside a word has it cut in two: of the member `.a$b` the second half is resolved,
and its prefix is joined to the first. -/
theorem prefix_joined_to_member :
    let before : List Token := [.name "this".toList, .member ".a".toList]
    tokens "this.a$b".toList = before ++ [.name "$b".toList] ∧
      (Token.name "$b".toList).isScoped = true ∧
      ¬(∀ c, (before.flatMap text).getLast? = some c → isWordChar c = false) ∧
      Expression.ofSource "this.a$b" = ⟨"this.alocals.b", true⟩ := by
  intro before
  have hlast : (before.flatMap text).getLast? = some 'a' := by decide +kernel
  refine ⟨by decide +kernel, by decide +kernel, fun h => ?_, by decide +kernel⟩
  exact absurd (h 'a' hlast) (by decide)

end Stencil
