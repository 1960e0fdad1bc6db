import Stencil.Proofs.Pattern
import Stencil.Proofs.Stretches

/-!
# The shapes of tokens

What a token is can be said without reading one. Each kind has its texts (`Token.Shaped`), and behind
such a text stands nothing that carries it on (`Token.EndsBefore`): behind a name no character of a
name and no colon, behind a quote that opens nothing no second quote, behind digits no name. That is
all there is to it: a text of some kind is read as a token of that kind whenever what stands behind
does not carry it on.

Main results:

* `Token.shaped_of_match?`: a token that is read has its shape and is read to its end;
* `Token.match?_text_append`, `Token.match?_eq_none_iff`: and with these it is read.
-/

namespace Stencil

-- ---------------------------------------------------------------------------
-- Characters
-- ---------------------------------------------------------------------------

/-- A text does not go on with a character of a kind. -/
def Stops (p : Char → Bool) (rest : List Char) : Prop :=
  ∀ c, rest.head? = some c → p c = false

theorem stops_nil (p : Char → Bool) : Stops p [] := by
  intro c hc
  cases hc

theorem stops_cons {p : Char → Bool} {c : Char} {cs : List Char} :
    Stops p (c :: cs) ↔ p c = false := by
  constructor
  · intro h
    exact h c rfl
  · intro h d hd
    rw [← Option.some.inj hd]
    exact h

theorem Stops.append {p : Char → Bool} {rest more : List Char} (hrest : Stops p rest)
    (hmore : Stops p more) : Stops p (rest ++ more) := by
  cases rest with
  | nil => exact hmore
  | cons c rest => exact stops_cons.2 (stops_cons.1 hrest)

theorem Stops.imp {p q : Char → Bool} {rest : List Char} (h : Stops p rest)
    (himp : ∀ c, q c = true → p c = true) : Stops q rest := by
  intro c hc
  rw [← Bool.not_eq_true]
  intro hq
  have hp := himp c hq
  rw [h c hc] at hp
  cases hp

theorem stops_dropWhile (p : Char → Bool) (cs : List Char) : Stops p (cs.dropWhile p) := by
  intro c hc
  have hhead := List.head?_dropWhile_not p cs
  rw [hc] at hhead
  exact hhead

namespace Token

def isQuote (c : Char) : Bool :=
  c == '"' || c == '\''

/-- The characters of names, in whatever place: letters, digits, the underscore and the dollar
sign. -/
def isWordChar (c : Char) : Bool :=
  isNamePart c || c == '$'

/-- The characters of names, told apart by what a name can start with. -/
theorem isWordChar_eq (c : Char) : isWordChar c = (c.isDigit || isNameStart c) := by
  unfold isWordChar isNamePart isNameStart Char.isAlphanum
  cases c.isAlpha <;> cases c.isDigit <;> cases c == '_' <;> cases c == '$' <;> rfl

theorem isWordChar_of_isNamePart {c : Char} (hc : isNamePart c = true) : isWordChar c = true := by
  rw [isWordChar, hc, Bool.true_or]

theorem isWordChar_of_isNameStart {c : Char} (hc : isNameStart c = true) : isWordChar c = true := by
  rw [isWordChar_eq, hc, Bool.or_true]

/-- The dollar sign alone starts a name and cannot go on with one. -/
theorem eq_dollar_of_isNameStart {c : Char} (hstart : isNameStart c = true)
    (hpart : isNamePart c = false) : c = '$' := by
  have hword := isWordChar_of_isNameStart hstart
  rw [isWordChar, hpart, Bool.false_or] at hword
  exact beq_iff_eq.1 hword

/-- A quote is in no name. -/
theorem not_isWordChar_of_isQuote {c : Char} (hc : isQuote c = true) : isWordChar c = false := by
  unfold isQuote at hc
  rcases Bool.or_eq_true_iff.1 hc with hc | hc
  · rw [beq_iff_eq.1 hc]
    rfl
  · rw [beq_iff_eq.1 hc]
    rfl

theorem not_isQuote_of_isWordChar {c : Char} (hc : isWordChar c = true) : isQuote c = false := by
  rw [← Bool.not_eq_true]
  intro hquote
  rw [not_isWordChar_of_isQuote hquote] at hc
  cases hc

theorem ne_point_of_isWordChar {c : Char} (hc : isWordChar c = true) : c ≠ '.' := by
  rintro rfl
  exact absurd hc (by decide)

/-- A quote starts a string and nothing else. -/
theorem alone_of_isQuote {c : Char} (hc : isQuote c = true) :
    c.isDigit = false ∧ c ≠ '.' ∧ isNameStart c = false := by
  have hword := not_isWordChar_of_isQuote hc
  rw [isWordChar_eq, Bool.or_eq_false_iff] at hword
  refine ⟨hword.1, ?_, hword.2⟩
  rintro rfl
  exact absurd hc (by decide)

/-- A digit starts a number and nothing else. -/
theorem alone_of_isDigit {c : Char} (hc : c.isDigit = true) :
    isQuote c = false ∧ c ≠ '.' ∧ isNameStart c = false := by
  have hword : isWordChar c = true := by rw [isWordChar_eq, hc, Bool.true_or]
  exact ⟨not_isQuote_of_isWordChar hword, ne_point_of_isWordChar hword, isNameStart_of_isDigit hc⟩

/-- A character that starts a name starts nothing else. -/
theorem alone_of_isNameStart {c : Char} (hc : isNameStart c = true) :
    isQuote c = false ∧ c.isDigit = false ∧ c ≠ '.' := by
  have hword := isWordChar_of_isNameStart hc
  refine ⟨not_isQuote_of_isWordChar hword, ?_, ne_point_of_isWordChar hword⟩
  rw [← Bool.not_eq_true]
  intro hdigit
  rw [isNameStart_of_isDigit hdigit] at hc
  cases hc

-- ---------------------------------------------------------------------------
-- Names
-- ---------------------------------------------------------------------------

/-- A text that is one name. -/
def IsIdentifier (word : List Char) : Prop :=
  ∃ c cs, word = c :: cs ∧ isNameStart c = true ∧ ∀ d ∈ cs, isNamePart d = true

theorem IsIdentifier.ne_nil {word : List Char} (h : IsIdentifier word) : word ≠ [] := by
  obtain ⟨c, cs, rfl, -, -⟩ := h
  exact List.cons_ne_nil c cs

theorem IsIdentifier.all_isWordChar {word : List Char} (h : IsIdentifier word) :
    ∀ c ∈ word, isWordChar c = true := by
  obtain ⟨c, cs, rfl, hstart, hparts⟩ := h
  intro d hd
  rcases List.mem_cons.1 hd with rfl | hd
  · exact isWordChar_of_isNameStart hstart
  · exact isWordChar_of_isNamePart (hparts d hd)

/-- **A name is read to its end.** -/
theorem identifier?_eq_some_iff {cs word rest : List Char} :
    identifier? cs = some (word, rest) ↔
      IsIdentifier word ∧ Stops isNamePart rest ∧ word ++ rest = cs := by
  constructor
  · intro h
    cases cs with
    | nil => cases h
    | cons c cs =>
      have hsplit := (identifier?_split h).2
      rw [identifier?] at h
      split at h
      · next hstart =>
        cases h
        exact ⟨⟨c, _, rfl, hstart, fun d hd => List.all_eq_true.1 List.all_takeWhile d hd⟩,
          stops_dropWhile isNamePart cs, hsplit⟩
      · cases h
  · rintro ⟨⟨c, cs, rfl, hstart, hparts⟩, hstops, rfl⟩
    obtain ⟨htake, hdrop⟩ := Source.span_append hparts rest hstops
    rw [List.cons_append, identifier?, if_pos hstart, htake, hdrop]

theorem identifier?_eq_none_iff {cs : List Char} :
    identifier? cs = none ↔ Stops isNameStart cs := by
  cases cs with
  | nil => exact ⟨fun _ => stops_nil isNameStart, fun _ => rfl⟩
  | cons c cs =>
    rw [stops_cons, identifier?]
    cases isNameStart c <;> simp

-- ---------------------------------------------------------------------------
-- The alternatives, told apart by their first character
-- ---------------------------------------------------------------------------

/-- The first character says which alternatives are worth a try. -/
theorem match?_cons (c : Char) (cs : List Char) : match? (c :: cs) =
    if isQuote c then quoted? (c :: cs)
    else if c.isDigit then glued? (c :: cs)
    else if c = '.' then member? (c :: cs)
    else (key? (c :: cs) <|> name? (c :: cs)) := by
  have hquoted : isQuote c = false → quoted? (c :: cs) = none := by
    intro hc
    unfold isQuote at hc
    rw [quoted?, hc, if_neg Bool.false_ne_true]
  have hglued : c.isDigit = false → glued? (c :: cs) = none := by
    intro hc
    rw [glued?, List.takeWhile_cons_of_neg (by simp [hc])]
    rfl
  have hmember : c ≠ '.' → member? (c :: cs) = none := by
    intro hc
    rw [member?, if_neg (by simpa using hc)]
  have hname : isNameStart c = false → key? (c :: cs) = none ∧ name? (c :: cs) = none := by
    intro hc
    have hnone : identifier? (c :: cs) = none := identifier?_eq_none_iff.2 (stops_cons.2 hc)
    rw [key?, name?, hnone]
    exact ⟨rfl, rfl⟩
  simp only [match?, Option.orElse_eq_orElse, Option.orElse_eq_or]
  by_cases hquote : isQuote c = true
  · obtain ⟨hdigit, hpoint, hstart⟩ := alone_of_isQuote hquote
    rw [if_pos hquote, hglued hdigit, hmember hpoint, (hname hstart).1, (hname hstart).2]
    simp
  · rw [if_neg hquote, hquoted (Bool.not_eq_true _ ▸ hquote), Option.none_or]
    by_cases hdigit : c.isDigit = true
    · obtain ⟨-, hpoint, hstart⟩ := alone_of_isDigit hdigit
      rw [if_pos hdigit, hmember hpoint, (hname hstart).1, (hname hstart).2]
      simp
    · rw [if_neg hdigit, hglued (Bool.not_eq_true _ ▸ hdigit), Option.none_or]
      by_cases hpoint : c = '.'
      · have hstart : isNameStart c = false := by
          rw [hpoint]
          rfl
        rw [if_pos hpoint, (hname hstart).1, (hname hstart).2]
        simp
      · rw [if_neg hpoint, hmember hpoint, Option.none_or]

theorem bne_of_not_mem {q : Char} {cs : List Char} (h : q ∉ cs) : ∀ c ∈ cs, (c != q) = true := by
  intro c hc
  rw [bne_iff_ne]
  rintro rfl
  exact h hc

theorem quoted?_append {q : Char} {inner : List Char} (hq : isQuote q = true)
    (hinner : q ∉ inner) (rest : List Char) :
    quoted? (q :: (inner ++ q :: rest)) = some (quoted (q :: inner ++ [q]), rest) := by
  obtain ⟨htake, hdrop⟩ := Source.span_append (bne_of_not_mem hinner) (q :: rest) (by simp)
  unfold isQuote at hq
  rw [quoted?, if_pos hq, htake, hdrop]

theorem quoted?_eq_none_iff {q : Char} {cs : List Char} (hq : isQuote q = true) :
    quoted? (q :: cs) = none ↔ q ∉ cs := by
  constructor
  · intro h hmem
    obtain ⟨inner, rest, rfl, hinner⟩ := List.eq_append_cons_of_mem hmem
    rw [quoted?_append hq hinner] at h
    cases h
  · intro hmem
    obtain ⟨htake, hdrop⟩ := Source.span_append (bne_of_not_mem hmem) [] (by simp)
    rw [List.append_nil] at hdrop
    unfold isQuote at hq
    rw [quoted?, if_pos hq, hdrop]

theorem glued?_append {digits word rest : List Char} (hne : digits ≠ [])
    (hdigits : ∀ d ∈ digits, d.isDigit = true) (hword : IsIdentifier word)
    (hstops : Stops isNamePart rest) :
    glued? (digits ++ (word ++ rest)) = some (glued (digits ++ word), rest) := by
  have hend : Stops Char.isDigit (word ++ rest) := by
    obtain ⟨c, cs, rfl, hstart, hparts⟩ := hword
    exact stops_cons.2 (alone_of_isNameStart hstart).2.1
  obtain ⟨htake, hdrop⟩ := Source.span_append hdigits (word ++ rest) hend
  have hread : identifier? (word ++ rest) = some (word, rest) :=
    identifier?_eq_some_iff.2 ⟨hword, hstops, rfl⟩
  rw [glued?, htake, hdrop, hread, if_neg (by simpa using hne)]
  rfl

theorem glued?_eq_none_iff {c : Char} {cs : List Char} (hc : c.isDigit = true) :
    glued? (c :: cs) = none ↔ Stops isNameStart (cs.dropWhile Char.isDigit) := by
  rw [glued?, List.takeWhile_cons_of_pos hc, List.dropWhile_cons_of_pos hc,
    if_neg (by simp), Option.map_eq_none_iff, identifier?_eq_none_iff]

-- ---------------------------------------------------------------------------
-- What a token looks like and what may follow it
-- ---------------------------------------------------------------------------

/-- The texts of each kind of token. -/
inductive Shaped : Token → Prop where
  | quoted {q : Char} {inner : List Char} (hq : isQuote q = true) (hinner : q ∉ inner) :
      Shaped (.quoted (q :: inner ++ [q]))
  | glued {digits word : List Char} (hne : digits ≠ [])
      (hdigits : ∀ d ∈ digits, d.isDigit = true) (hword : IsIdentifier word) :
      Shaped (.glued (digits ++ word))
  | member {word : List Char} (hword : IsIdentifier word) : Shaped (.member ('.' :: word))
  | key {word : List Char} (hword : IsIdentifier word) : Shaped (.key (word ++ [':']))
  | name {word : List Char} (hword : IsIdentifier word) : Shaped (.name word)
  | other {c : Char} (hc : isNameStart c = false) : Shaped (.other c)

theorem Shaped.text_ne_nil {t : Token} (h : t.Shaped) : t.text ≠ [] := by
  cases h with
  | quoted hq hinner => exact List.cons_ne_nil _ _
  | glued hne hdigits hword => exact List.append_ne_nil_of_left_ne_nil hne _
  | member hword => exact List.cons_ne_nil _ _
  | key hword => exact List.append_ne_nil_of_left_ne_nil hword.ne_nil _
  | name hword => exact hword.ne_nil
  | other hc => exact List.cons_ne_nil _ _

/-- The texts that do not carry a token on when they stand behind it. -/
def EndsBefore : Token → List Char → Prop
  | quoted _, _ | key _, _ => True
  | glued _, rest | member _, rest => Stops isNamePart rest
  | name _, rest => Stops isNamePart rest ∧ Stops (· == ':') rest
  | other c, rest =>
    (isQuote c = true → c ∉ rest) ∧ (c = '.' → Stops isNameStart rest) ∧
      (c.isDigit = true → Stops isNameStart (rest.dropWhile Char.isDigit))

theorem endsBefore_nil (t : Token) : t.EndsBefore [] := by
  cases t with
  | quoted cs | key cs => trivial
  | glued cs | member cs => exact stops_nil isNamePart
  | name cs => exact ⟨stops_nil isNamePart, stops_nil (· == ':')⟩
  | other c =>
    exact ⟨fun hquote => List.not_mem_nil, fun hpoint => stops_nil isNameStart,
      fun hdigit => stops_nil isNameStart⟩

-- ---------------------------------------------------------------------------
-- A token that is read
-- ---------------------------------------------------------------------------

section

variable {cs rest : List Char} {t : Token}

theorem shaped_of_quoted? (h : quoted? cs = some (t, rest)) : t.Shaped ∧ t.EndsBefore rest := by
  cases cs with
  | nil => cases h
  | cons q cs =>
    by_cases hquote : isQuote q = true
    · by_cases hmem : q ∈ cs
      · obtain ⟨inner, tail, rfl, hinner⟩ := List.eq_append_cons_of_mem hmem
        rw [quoted?_append hquote hinner] at h
        cases h
        exact ⟨.quoted hquote hinner, trivial⟩
      · rw [(quoted?_eq_none_iff hquote).2 hmem] at h
        cases h
    · unfold isQuote at hquote
      rw [quoted?, if_neg hquote] at h
      cases h

theorem shaped_of_glued? (h : glued? cs = some (t, rest)) : t.Shaped ∧ t.EndsBefore rest := by
  unfold glued? at h
  split at h
  · cases h
  · next hne =>
    obtain ⟨⟨word, tail⟩, hread, heq⟩ := Option.map_eq_some_iff.1 h
    cases heq
    obtain ⟨hword, hstops, -⟩ := identifier?_eq_some_iff.1 hread
    have hdigits : ∀ d ∈ cs.takeWhile Char.isDigit, d.isDigit = true :=
      fun d hd => List.all_eq_true.1 List.all_takeWhile d hd
    exact ⟨.glued (by simpa using hne) hdigits hword, hstops⟩

theorem shaped_of_member? (h : member? cs = some (t, rest)) : t.Shaped ∧ t.EndsBefore rest := by
  cases cs with
  | nil => cases h
  | cons c cs =>
    simp only [member?] at h
    split at h
    · next hpoint =>
      obtain ⟨⟨word, tail⟩, hread, heq⟩ := Option.map_eq_some_iff.1 h
      cases heq
      obtain ⟨hword, hstops, -⟩ := identifier?_eq_some_iff.1 hread
      rw [beq_iff_eq.1 hpoint]
      exact ⟨.member hword, hstops⟩
    · cases h

theorem shaped_of_key? (h : key? cs = some (t, rest)) : t.Shaped ∧ t.EndsBefore rest := by
  unfold key? at h
  split at h
  · next word tail hread =>
    cases h
    exact ⟨.key (identifier?_eq_some_iff.1 hread).1, trivial⟩
  · cases h

theorem shaped_of_name? (hkey : key? cs = none) (h : name? cs = some (t, rest)) :
    t.Shaped ∧ t.EndsBefore rest := by
  obtain ⟨⟨word, tail⟩, hread, heq⟩ := Option.map_eq_some_iff.1 h
  cases heq
  obtain ⟨hword, hstops, -⟩ := identifier?_eq_some_iff.1 hread
  refine ⟨.name hword, hstops, fun c hc => beq_false_of_ne ?_⟩
  rintro rfl
  obtain ⟨behind, rfl⟩ := List.head?_eq_some_iff.1 hc
  rw [key?, hread] at hkey
  cases hkey

/-- A token that is read has the shape of its kind and is read to its end. -/
theorem shaped_of_match? (h : match? cs = some (t, rest)) : t.Shaped ∧ t.EndsBefore rest := by
  simp only [match?, Option.orElse_eq_orElse, Option.orElse_eq_or, Option.or_eq_some_iff] at h
  rcases h with h | ⟨-, h | ⟨-, h | ⟨-, h | ⟨hkey, h⟩⟩⟩⟩
  · exact shaped_of_quoted? h
  · exact shaped_of_glued? h
  · exact shaped_of_member? h
  · exact shaped_of_key? h
  · exact shaped_of_name? hkey h

end

-- ---------------------------------------------------------------------------
-- A token that has to be read
-- ---------------------------------------------------------------------------

/-- A character stands for itself exactly if no other token starts with it. -/
theorem match?_eq_none_iff {c : Char} {cs : List Char} :
    match? (c :: cs) = none ↔ isNameStart c = false ∧ (other c).EndsBefore cs := by
  rw [match?_cons]
  by_cases hquote : isQuote c = true
  · obtain ⟨hdigit, hpoint, hstart⟩ := alone_of_isQuote hquote
    rw [if_pos hquote, quoted?_eq_none_iff hquote]
    simp [EndsBefore, hquote, hdigit, hpoint, hstart]
  · rw [if_neg hquote]
    by_cases hdigit : c.isDigit = true
    · obtain ⟨-, hpoint, hstart⟩ := alone_of_isDigit hdigit
      rw [if_pos hdigit, glued?_eq_none_iff hdigit]
      simp [EndsBefore, hquote, hdigit, hpoint, hstart]
    · rw [if_neg hdigit]
      by_cases hpoint : c = '.'
      · subst hpoint
        rw [if_pos rfl, member?, if_pos (beq_self_eq_true '.'), Option.map_eq_none_iff,
          identifier?_eq_none_iff]
        simp [EndsBefore, hquote, show isNameStart '.' = false from rfl]
      · have hname : (key? (c :: cs) <|> name? (c :: cs)) = none ↔ isNameStart c = false := by
          rw [Option.orElse_eq_orElse, Option.orElse_eq_or, Option.or_eq_none_iff, name?,
            Option.map_eq_none_iff, identifier?_eq_none_iff, stops_cons]
          refine ⟨And.right, fun hstart => ⟨?_, hstart⟩⟩
          rw [key?, identifier?_eq_none_iff.2 (stops_cons.2 hstart)]
        rw [if_neg hpoint, hname]
        simp [EndsBefore, hquote, hdigit, hpoint]

/-- A word is a key or a name. -/
theorem match?_of_isIdentifier {word : List Char} (hword : IsIdentifier word) (rest : List Char) :
    match? (word ++ rest) = (key? (word ++ rest) <|> name? (word ++ rest)) := by
  obtain ⟨c, cs, rfl, hstart, hparts⟩ := hword
  obtain ⟨hquote, hdigit, hpoint⟩ := alone_of_isNameStart hstart
  rw [List.cons_append, match?_cons, if_neg (by simp [hquote]), if_neg (by simp [hdigit]),
    if_neg hpoint]

/-- A token of its shape is read if what follows does not carry it on. -/
theorem match?_text_append {t : Token} {rest : List Char} (hshape : t.Shaped)
    (hends : t.EndsBefore rest) (hother : ∀ c, t ≠ other c) :
    match? (t.text ++ rest) = some (t, rest) := by
  cases hshape with
  | @quoted q inner hq hinner =>
    have hread := quoted?_append hq hinner rest
    have hsplit : (quoted (q :: inner ++ [q])).text ++ rest = q :: (inner ++ q :: rest) := by
      simp [text]
    rw [hsplit, match?_cons, if_pos hq, hread]
  | @glued digits word hne hdigits hword =>
    have hread := glued?_append hne hdigits hword hends
    obtain ⟨d, ds, rfl⟩ := List.exists_cons_of_ne_nil hne
    have hdigit : d.isDigit = true := hdigits d List.mem_cons_self
    have hquote := (alone_of_isDigit hdigit).1
    have hsplit : (glued (d :: ds ++ word)).text ++ rest = d :: (ds ++ (word ++ rest)) := by
      simp [text]
    rw [hsplit, match?_cons, if_neg (by simp [hquote]), if_pos hdigit]
    exact hread
  | @member word hword =>
    have hread : identifier? (word ++ rest) = some (word, rest) :=
      identifier?_eq_some_iff.2 ⟨hword, hends, rfl⟩
    show match? ('.' :: (word ++ rest)) = some (member ('.' :: word), rest)
    rw [match?_cons, if_neg (by decide), if_neg (by decide), if_pos rfl, member?,
      if_pos (beq_self_eq_true '.'), hread]
    rfl
  | @key word hword =>
    have hread : identifier? (word ++ ':' :: rest) = some (word, ':' :: rest) :=
      identifier?_eq_some_iff.2 ⟨hword, stops_cons.2 rfl, rfl⟩
    have hsplit : (key (word ++ [':'])).text ++ rest = word ++ ':' :: rest := by
      simp [text]
    rw [hsplit, match?_of_isIdentifier hword, key?, hread]
    rfl
  | @name word hword =>
    obtain ⟨hstops, hcolon⟩ := hends
    have hread : identifier? (word ++ rest) = some (word, rest) :=
      identifier?_eq_some_iff.2 ⟨hword, hstops, rfl⟩
    have hkey : key? (word ++ rest) = none := by
      rw [key?, hread]
      split
      · next word' rest' heq =>
        cases heq
        exact absurd (stops_cons.1 hcolon) (by decide)
      · rfl
    rw [text, match?_of_isIdentifier hword, hkey, name?, hread]
    rfl
  | @other c hc => exact absurd rfl (hother c)

end Token

end Stencil
