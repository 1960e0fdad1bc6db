import Stencil.Expression.Basic
import Stencil.Proofs.Regex

/-!
# The tokens as a pattern

What the tokens of an expression are can be said by one regular expression, its alternatives in the
order in which they are tried (`tokenPattern`). The tokenizer reads the match of that expression
without ever trying a second way, and rewriting an expression is replacing the matches.

Main results:

* `first?_tokenPattern`: the pattern matches where a token is read, and matches that token;
* `ofSource_eq_replaced`: the rewritten text is the source with its matches replaced.
-/

namespace Stencil

-- ---------------------------------------------------------------------------
-- The pattern of the tokens
-- ---------------------------------------------------------------------------

def digit : CharClass where
  ranges := [('0', '9')]

def nameStart : CharClass where
  ranges := [('a', 'z'), ('A', 'Z'), ('$', '$'), ('_', '_')]

def namePart : CharClass where
  ranges := [('0', '9'), ('a', 'z'), ('A', 'Z'), ('_', '_')]

def identifier : Regex :=
  .seq (.one nameStart) (.many namePart)

/-- A string between two quotes of one kind. -/
def stringIn (quote : Char) : Regex :=
  .seq (.one (.only quote)) (.seq (.many (.allBut quote)) (.one (.only quote)))

def quotedString : Regex :=
  .alt (stringIn '"') (stringIn '\'')

/-- A number with a name glued to it. -/
def gluedName : Regex :=
  .seq (.oneOrMore digit) identifier

def memberName : Regex :=
  .seq (.one (.only '.')) identifier

def keyName : Regex :=
  .seq identifier (.one (.only ':'))

/-- The alternatives in the order in which they are tried. A bare name comes last, and it alone is
captured. -/
def tokenPattern : Regex :=
  .alt quotedString <| .alt gluedName <| .alt memberName <| .alt keyName <| .group identifier

theorem has_digit (c : Char) : digit.has c = c.isDigit := by
  simp [CharClass.has, digit, Char.isDigit, Char.le_def]

/-- The letters are two ranges. -/
theorem isAlpha_eq (c : Char) :
    c.isAlpha = (('A' ≤ c && c ≤ 'Z') || ('a' ≤ c && c ≤ 'z')) := by
  rw [← Bool.decide_and]
  rfl

theorem has_nameStart (c : Char) : nameStart.has c = Token.isNameStart c := by
  simp [CharClass.has, nameStart, CharClass.range_self, Token.isNameStart, isAlpha_eq,
    Bool.or_assoc, Bool.or_left_comm]

theorem has_namePart (c : Char) : namePart.has c = Token.isNamePart c := by
  simp [CharClass.has, namePart, CharClass.range_self, Token.isNamePart, Char.isAlphanum,
    isAlpha_eq, ← has_digit, digit, Bool.or_assoc, Bool.or_left_comm]

-- ---------------------------------------------------------------------------
-- The match of each alternative
-- ---------------------------------------------------------------------------

/-- A token that was read, as a match of the pattern. -/
def Token.asMatch : Token × List Char → Match
  | (.name cs, rest) => ⟨cs, some cs, rest⟩
  | (t, rest) => ⟨t.text, none, rest⟩

@[simp]
theorem Token.text_asMatch (t : Token) (rest : List Char) :
    (Token.asMatch (t, rest)).text = t.text := by
  cases t <;> rfl

@[simp]
theorem Token.rest_asMatch (t : Token) (rest : List Char) :
    (Token.asMatch (t, rest)).rest = rest := by
  cases t <;> rfl

section

open Regex

variable {c : Char} (cs : List Char)

/-- No name starts with a digit. -/
theorem isNameStart_of_isDigit (hc : c.isDigit = true) : Token.isNameStart c = false := by
  have hnine : c ≤ '9' := by
    rw [Char.isDigit, Bool.and_eq_true, decide_eq_true_eq, decide_eq_true_eq] at hc
    exact hc.2
  have hletter : ¬c.isAlpha = true := by
    intro halpha
    rw [isAlpha_eq, Bool.or_eq_true, Bool.and_eq_true, Bool.and_eq_true, decide_eq_true_eq,
      decide_eq_true_eq, decide_eq_true_eq, decide_eq_true_eq] at halpha
    rcases halpha with ⟨hle, -⟩ | ⟨hle, -⟩
    · exact absurd (Char.le_trans hle hnine) (by decide)
    · exact absurd (Char.le_trans hle hnine) (by decide)
  have hdollar : c ≠ '$' := by
    rintro rfl
    simp at hc
  have hunderscore : c ≠ '_' := by
    rintro rfl
    simp at hc
  simp [Token.isNameStart, hletter, hdollar, hunderscore]

theorem ways_identifier_of_isDigit (hc : c.isDigit = true) : identifier.ways (c :: cs) = [] := by
  rw [identifier, ways_one_seq, has_nameStart, isNameStart_of_isDigit hc]
  rfl

theorem first?_identifier :
    identifier.first? cs = (Token.identifier? cs).map fun (name, rest) => ⟨name, none, rest⟩ := by
  cases cs with
  | nil => rfl
  | cons c cs =>
    rw [identifier, first?_one_seq, first?_many, has_nameStart, funext has_namePart,
      Token.identifier?]
    split
    · rfl
    · rfl

theorem first?_stringIn (quote : Char) : (stringIn quote).first? (c :: cs) =
    if c == quote then
      match cs.dropWhile (· != quote) with
      | [] => none
      | close :: rest => some ⟨c :: cs.takeWhile (· != quote) ++ [close], none, rest⟩
    else none := by
  have hend : ∀ d ds, (CharClass.allBut quote).has d = true →
      (one (.only quote)).ways (d :: ds) = [] := by
    intro d ds hd
    simp_all [ways, CharClass.has_only, CharClass.has_allBut]
  rw [stringIn, first?_one_seq, first?_many_seq hend, CharClass.has_only,
    funext (CharClass.has_allBut quote)]
  split
  · cases hclose : cs.dropWhile (· != quote) with
    | nil => rfl
    | cons close rest =>
      have hquote := List.head?_dropWhile_not (· != quote) cs
      rw [hclose] at hquote
      simp_all [first?, ways, CharClass.has_only, Match.prepend]
  · rfl

theorem first?_quotedString :
    quotedString.first? cs = (Token.quoted? cs).map Token.asMatch := by
  cases cs with
  | nil => rfl
  | cons c cs =>
    rw [quotedString, first?_alt, first?_stringIn, first?_stringIn, Token.quoted?]
    by_cases hdouble : c = '"'
    · subst hdouble
      cases cs.dropWhile (· != '"') <;> simp [Token.asMatch, Token.text]
    · by_cases hsingle : c = '\''
      · subst hsingle
        cases cs.dropWhile (· != '\'') <;> simp [Token.asMatch, Token.text]
      · simp [hdouble, hsingle]

theorem first?_gluedName : gluedName.first? cs = (Token.glued? cs).map Token.asMatch := by
  have hend : ∀ d ds, digit.has d = true → identifier.ways (d :: ds) = [] :=
    fun d ds hd => ways_identifier_of_isDigit ds (has_digit d ▸ hd)
  cases cs with
  | nil => rfl
  | cons c cs =>
    rw [gluedName, oneOrMore, first?_seq_assoc, first?_one_seq, first?_many_seq hend, has_digit,
      funext has_digit, first?_identifier, Token.glued?]
    by_cases hc : c.isDigit = true
    · rw [List.takeWhile_cons_of_pos hc, List.dropWhile_cons_of_pos hc]
      simp [hc, Match.prepend, Token.asMatch, Token.text, Function.comp_def]
    · rw [List.takeWhile_cons_of_neg hc]
      simp [hc]

theorem first?_memberName : memberName.first? cs = (Token.member? cs).map Token.asMatch := by
  cases cs with
  | nil => rfl
  | cons c cs =>
    rw [memberName, first?_one_seq, CharClass.has_only, first?_identifier, Token.member?]
    split
    · rw [Option.map_map, Option.map_map]
      rfl
    · rfl

theorem first?_keyName : keyName.first? cs = (Token.key? cs).map Token.asMatch := by
  have hend : ∀ d ds, namePart.has d = true → (one (.only ':')).ways (d :: ds) = [] := by
    intro d ds hd
    have hcolon : d ≠ ':' := by
      rintro rfl
      simp [has_namePart, Token.isNamePart] at hd
    simp [ways, CharClass.has_only, hcolon]
  cases cs with
  | nil => rfl
  | cons c cs =>
    rw [keyName, identifier, first?_seq_assoc, first?_one_seq, first?_many_seq hend, has_nameStart,
      funext has_namePart, Token.key?, Token.identifier?]
    split
    · cases htail : cs.dropWhile Token.isNamePart with
      | nil => simp [first?, ways]
      | cons d rest =>
        by_cases hd : d = ':'
        · subst hd
          simp [first?, ways, CharClass.has_only, Match.prepend, Token.asMatch, Token.text]
        · simp [first?, ways, CharClass.has_only, hd]
    · rfl

theorem first?_group_identifier :
    (group identifier).first? cs = (Token.name? cs).map Token.asMatch := by
  rw [first?_group, first?_identifier, Token.name?, Option.map_map, Option.map_map]
  rfl

/-- **The pattern matches where a token is read**, and matches that token. -/
theorem first?_tokenPattern :
    tokenPattern.first? cs = (Token.match? cs).map Token.asMatch := by
  simp only [tokenPattern, first?_alt, first?_quotedString, first?_gluedName, first?_memberName,
    first?_keyName, first?_group_identifier, Token.match?, Option.orElse_eq_orElse,
    Option.orElse_eq_or, Option.map_or]

-- the digits take the name with them, before the colon could make it a key
example : tokenPattern.first? "10px: 1".toList =
    some ⟨"10px".toList, none, ": 1".toList⟩ := by
  rfl

end

-- ---------------------------------------------------------------------------
-- Replacing the matches
-- ---------------------------------------------------------------------------

/-- What a bare name becomes: a reserved word stays, and so does a dollar sign alone; a name with a
dollar sign in front is one of the locals, and any other name belongs to the instance. -/
def resolvedName (name : List Char) : List Char :=
  if String.ofList name ∈ reservedWords ∨ name = ['$'] then name
  else if name.head? = some '$' then "locals.".toList ++ name.tail
  else "instance.".toList ++ name

/-- What stands in place of a match: the name it captured, resolved, or else its text. -/
def Match.replaced (found : Match) : List Char :=
  match found.captured with
  | some name => resolvedName name
  | none => found.text

/-- The three things a name can refer to, each with its condition. -/
theorem ofName_eq (name : List Char) : Reference.ofName name =
    if String.ofList name ∈ reservedWords ∨ name = ['$'] then .fixed name
    else if name.head? = some '$' then .ofLocals name.tail
    else .ofInstance name := by
  unfold Reference.ofName
  by_cases hreserved : String.ofList name ∈ reservedWords
  · rw [if_pos hreserved, if_pos (.inl hreserved)]
  · rw [if_neg hreserved]
    split
    · rw [if_pos (.inr rfl)]
    · next bare hlone =>
      rw [if_neg (not_or_intro hreserved fun h => hlone (List.cons.inj h).2)]
      rfl
    · next hlone hlocal =>
      rw [if_neg (not_or_intro hreserved hlone), if_neg]
      rw [List.head?_eq_some_iff]
      rintro ⟨bare, rfl⟩
      exact hlocal bare rfl

theorem text_ofName (name : List Char) : (Reference.ofName name).text = resolvedName name := by
  rw [ofName_eq, resolvedName]
  split
  · rfl
  · split <;> rfl

/-- A reference is scoped exactly when it is not written as the name it was read from. -/
theorem isScoped_ofName (name : List Char) :
    (Reference.ofName name).isScoped = (resolvedName name != name) := by
  rw [ofName_eq, resolvedName]
  split
  · simp [Reference.isScoped]
  · split <;>
    · refine (bne_iff_ne.2 fun heq => ?_).symm
      have hlength := congrArg List.length heq
      simp at hlength
      omega

theorem rewritten_eq_replaced (t : Token) (rest : List Char) :
    t.rewritten = (Token.asMatch (t, rest)).replaced := by
  cases t with
  | name cs => exact text_ofName cs
  | quoted cs | glued cs | member cs | key cs | other c => rfl

theorem isScoped_eq_replaced (t : Token) (rest : List Char) :
    t.isScoped = ((Token.asMatch (t, rest)).replaced != t.text) := by
  cases t with
  | name cs => exact isScoped_ofName cs
  | quoted cs | glued cs | member cs | key cs | other c =>
    simp [Token.isScoped, Match.replaced, Token.asMatch]

theorem rewritten_other (c : Char) : (Token.other c).rewritten = [c] :=
  rfl

theorem isScoped_other (c : Char) : (Token.other c).isScoped = false :=
  rfl

/-- No match is empty. -/
theorem text_ne_nil_of_first? {cs : List Char} {found : Match}
    (h : tokenPattern.first? cs = some found) : found.text ≠ [] := by
  rw [first?_tokenPattern] at h
  obtain ⟨⟨t, rest⟩, ht, rfl⟩ := Option.map_eq_some_iff.1 h
  rw [Token.text_asMatch]
  exact (Token.text_append_of_match? ht).1

/-- Where the pattern matches, the token of the match is read. -/
theorem tokens_of_first? {cs : List Char} {found : Match}
    (h : tokenPattern.first? cs = some found) :
    ∃ t rest, found = Token.asMatch (t, rest) ∧ tokens cs = t :: tokens rest := by
  rw [first?_tokenPattern] at h
  obtain ⟨⟨t, rest⟩, ht, rfl⟩ := Option.map_eq_some_iff.1 h
  exact ⟨t, rest, rfl, tokens_of_match? ht⟩

/-- Where nothing matches, the characters stand for themselves. -/
theorem tokens_of_first?_none {passed place : List Char}
    (h : ∀ earlier, earlier <:+ passed ++ place → place.length < earlier.length →
      tokenPattern.first? earlier = none) :
    tokens (passed ++ place) = passed.map .other ++ tokens place := by
  induction passed with
  | nil => rfl
  | cons c passed ih =>
    have hlength : place.length < (c :: (passed ++ place)).length := by
      rw [List.length_cons, List.length_append]
      omega
    have hc := h (c :: (passed ++ place)) List.suffix_rfl hlength
    rw [first?_tokenPattern, Option.map_eq_none_iff] at hc
    have hpassed : tokens (passed ++ place) = passed.map .other ++ tokens place :=
      ih fun earlier hearlier hlonger => h earlier (hearlier.trans (List.suffix_cons c _)) hlonger
    rw [List.cons_append, tokens_of_none hc, hpassed]
    rfl

/-- **The matches of the pattern are what rewriting changes.** -/
theorem ofChars_of_finds {cs tail : List Char} {hits : List (List Char × Match)}
    (h : tokenPattern.Finds cs hits tail) :
    (tokens cs).flatMap Token.rewritten =
        (hits.flatMap fun hit => hit.1 ++ hit.2.replaced) ++ tail ∧
      (tokens cs).any Token.isScoped = hits.any fun hit => hit.2.replaced != hit.2.text := by
  induction h with
  | @nothing cs hnone =>
    have htokens : tokens (cs ++ []) = cs.map .other ++ tokens [] :=
      tokens_of_first?_none fun earlier hearlier _ => hnone earlier (by simpa using hearlier)
    rw [List.append_nil] at htokens
    rw [htokens]
    simp [List.flatMap_map, rewritten_other, isScoped_other, tokens]
  | @next passed place tail found others hfound hleft hothers ih =>
    obtain ⟨t, rest, rfl, ht⟩ := tokens_of_first? hfound
    rw [Token.rest_asMatch] at ih
    rw [tokens_of_first?_none hleft, ht]
    simp [List.flatMap_map, rewritten_other, isScoped_other, rewritten_eq_replaced t rest,
      isScoped_eq_replaced t rest, ih]

/-- **Rewriting replaces the matches of the pattern.** Every source has one row of matches, each the
leftmost behind the one before it, and the rewritten text is the source with those matches that are
bare names resolved and everything else copied; it depends on what is in scope exactly if one of the
matches changed. -/
theorem ofSource_eq_replaced (source : String) :
    ∃ hits tail, tokenPattern.Finds source.toList hits tail ∧
      (∀ hits' tail', tokenPattern.Finds source.toList hits' tail' →
        hits' = hits ∧ tail' = tail) ∧
      source.toList = (hits.flatMap fun hit => hit.1 ++ hit.2.text) ++ tail ∧
      (Expression.ofSource source).text.toList =
        (hits.flatMap fun hit => hit.1 ++ hit.2.replaced) ++ tail ∧
      (Expression.ofSource source).dynamic =
        hits.any fun hit => hit.2.replaced != hit.2.text := by
  obtain ⟨hits, tail, hfinds⟩ :=
    Regex.exists_finds (fun cs found => text_ne_nil_of_first?) source.toList
  obtain ⟨htext, hdynamic⟩ := ofChars_of_finds hfinds
  refine ⟨hits, tail, hfinds, fun hits' tail' => hfinds.unique, hfinds.eq_copy.symm, ?_, ?_⟩
  · rw [Expression.text_ofSource, htext]
  · rw [Expression.dynamic_ofSource, hdynamic]

end Stencil
