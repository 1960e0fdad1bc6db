/-!
# Tokens of an expression

Expressions are never parsed. They are cut into tokens just fine enough to tell a bare name, which
refers to something in scope, from the places where a name refers to nothing: inside a string, glued
to a number, after a point, before a colon. Every character that starts no token stands for itself,
so no text is malformed.

At each place the alternatives are tried in a fixed order and each takes as much as it can.

Main results:

* `Token.text_append_of_match?`: a token and the rest after it make up the text it was read from;
* `flatMap_text_tokens`: the tokens of a text, one after another, are the text.
-/

namespace Stencil

/-- A piece of an expression, with the characters it was read from. -/
inductive Token where
  | quoted (text : List Char)
  /-- Digits with a name right behind them. -/
  | glued (text : List Char)
  /-- A point and the name behind it. -/
  | member (text : List Char)
  /-- A name and the colon behind it. -/
  | key (text : List Char)
  /-- A bare name, the only token that rewriting changes. -/
  | name (text : List Char)
  /-- A character that starts no other token. -/
  | other (c : Char)
deriving DecidableEq, Repr

namespace Token

def text : Token → List Char
  | quoted cs | glued cs | member cs | key cs | name cs => cs
  | other c => [c]

/-! ## Names -/

/-- The characters a name starts with: ASCII letters, the dollar sign and the underscore. -/
def isNameStart (c : Char) : Bool :=
  c.isAlpha || c == '$' || c == '_'

/-- The characters a name goes on with: ASCII letters, digits and the underscore. -/
def isNamePart (c : Char) : Bool :=
  c.isAlphanum || c == '_'

/-- The longest name at the front of a text, and the text behind it. -/
def identifier? : List Char → Option (List Char × List Char)
  | [] => none
  | c :: cs =>
    if isNameStart c then some (c :: cs.takeWhile isNamePart, cs.dropWhile isNamePart) else none

/-- A name is not empty and splits the text it was read from. -/
theorem identifier?_split {cs name rest : List Char} (h : identifier? cs = some (name, rest)) :
    name ≠ [] ∧ name ++ rest = cs := by
  cases cs with
  | nil => simp [identifier?] at h
  | cons c cs =>
    simp only [identifier?] at h
    split at h
    · simp only [Option.some.injEq, Prod.mk.injEq] at h
      obtain ⟨rfl, rfl⟩ := h
      exact ⟨by simp, by simp [List.takeWhile_append_dropWhile]⟩
    · simp at h

/-! ## The alternatives -/

/-- A string from one quote to the next quote of its kind; one that never closes is no string. -/
def quoted? : List Char → Option (Token × List Char)
  | [] => none
  | q :: cs =>
    if q == '"' || q == '\'' then
      match cs.dropWhile (· != q) with
      | [] => none
      | close :: rest => some (quoted (q :: cs.takeWhile (· != q) ++ [close]), rest)
    else none

def glued? (cs : List Char) : Option (Token × List Char) :=
  if (cs.takeWhile Char.isDigit).isEmpty then none
  else (identifier? (cs.dropWhile Char.isDigit)).map fun (word, rest) =>
    (glued (cs.takeWhile Char.isDigit ++ word), rest)

def member? : List Char → Option (Token × List Char)
  | [] => none
  | c :: cs =>
    if c == '.' then (identifier? cs).map fun (word, rest) => (member (c :: word), rest) else none

def key? (cs : List Char) : Option (Token × List Char) :=
  match identifier? cs with
  | some (word, ':' :: rest) => some (key (word ++ [':']), rest)
  | _ => none

/-- A name that nothing marks as a member, a key or part of a number. -/
def name? (cs : List Char) : Option (Token × List Char) :=
  (identifier? cs).map fun (word, rest) => (name word, rest)

/-- The token at the front of a text: the first alternative that applies. -/
def match? (cs : List Char) : Option (Token × List Char) :=
  quoted? cs <|> glued? cs <|> member? cs <|> key? cs <|> name? cs

/-! ## Nothing is lost -/

theorem quoted?_split {cs rest : List Char} {t : Token} (h : quoted? cs = some (t, rest)) :
    t.text ≠ [] ∧ t.text ++ rest = cs := by
  cases cs with
  | nil => simp [quoted?] at h
  | cons q cs =>
    simp only [quoted?] at h
    split at h
    · split at h
      · simp at h
      · next close tail hdrop =>
        simp only [Option.some.injEq, Prod.mk.injEq] at h
        obtain ⟨rfl, rfl⟩ := h
        refine ⟨by simp [text], ?_⟩
        have hsplit : cs.takeWhile (· != q) ++ close :: tail = cs := by
          rw [← hdrop, List.takeWhile_append_dropWhile]
        simpa [text] using hsplit
    · simp at h

theorem glued?_split {cs rest : List Char} {t : Token} (h : glued? cs = some (t, rest)) :
    t.text ≠ [] ∧ t.text ++ rest = cs := by
  simp only [glued?] at h
  split at h
  · simp at h
  · next hdigits =>
    obtain ⟨⟨word, tail⟩, hword, heq⟩ := Option.map_eq_some_iff.1 h
    simp only [Prod.mk.injEq] at heq
    obtain ⟨rfl, rfl⟩ := heq
    refine ⟨by simp_all [text], ?_⟩
    rw [text, List.append_assoc, (identifier?_split hword).2, List.takeWhile_append_dropWhile]

theorem member?_split {cs rest : List Char} {t : Token} (h : member? cs = some (t, rest)) :
    t.text ≠ [] ∧ t.text ++ rest = cs := by
  cases cs with
  | nil => simp [member?] at h
  | cons c cs =>
    simp only [member?] at h
    split at h
    · obtain ⟨⟨word, tail⟩, hword, heq⟩ := Option.map_eq_some_iff.1 h
      simp only [Prod.mk.injEq] at heq
      obtain ⟨rfl, rfl⟩ := heq
      exact ⟨by simp [text], by simp [text, (identifier?_split hword).2]⟩
    · simp at h

theorem key?_split {cs rest : List Char} {t : Token} (h : key? cs = some (t, rest)) :
    t.text ≠ [] ∧ t.text ++ rest = cs := by
  simp only [key?] at h
  split at h
  · next word tail hword =>
    simp only [Option.some.injEq, Prod.mk.injEq] at h
    obtain ⟨rfl, rfl⟩ := h
    exact ⟨by simp [text], by simpa [text] using (identifier?_split hword).2⟩
  · simp at h

theorem name?_split {cs rest : List Char} {t : Token} (h : name? cs = some (t, rest)) :
    t.text ≠ [] ∧ t.text ++ rest = cs := by
  obtain ⟨⟨word, tail⟩, hword, heq⟩ := Option.map_eq_some_iff.1 h
  simp only [Prod.mk.injEq] at heq
  obtain ⟨rfl, rfl⟩ := heq
  exact identifier?_split hword

/-- A token is not empty and, with the rest behind it, makes up the text it was read from. -/
theorem text_append_of_match? {cs rest : List Char} {t : Token}
    (h : match? cs = some (t, rest)) : t.text ≠ [] ∧ t.text ++ rest = cs := by
  simp only [match?, Option.orElse_eq_orElse, Option.orElse_eq_or, Option.or_eq_some_iff] at h
  rcases h with h | ⟨-, h | ⟨-, h | ⟨-, h | ⟨-, h⟩⟩⟩⟩
  · exact quoted?_split h
  · exact glued?_split h
  · exact member?_split h
  · exact key?_split h
  · exact name?_split h

theorem length_of_match? {cs rest : List Char} {t : Token} (h : match? cs = some (t, rest)) :
    rest.length < cs.length := by
  obtain ⟨hne, hsplit⟩ := text_append_of_match? h
  have hpos := List.length_pos_iff.2 hne
  have hlen := congrArg List.length hsplit
  simp only [List.length_append] at hlen
  omega

end Token

/-! ## The tokens of a text -/

/-- Cuts a text into tokens from left to right. -/
def tokens : List Char → List Token
  | [] => []
  | c :: cs =>
    match _h : Token.match? (c :: cs) with
    | some (t, rest) => t :: tokens rest
    | none => .other c :: tokens cs
termination_by cs => cs.length
decreasing_by
  · exact Token.length_of_match? _h
  · simp

theorem tokens_of_match? {cs rest : List Char} {t : Token} (h : Token.match? cs = some (t, rest)) :
    tokens cs = t :: tokens rest := by
  cases cs with
  | nil => exact absurd (Token.length_of_match? h) (Nat.not_lt_zero _)
  | cons c cs =>
    rw [tokens]
    split <;> simp_all

theorem tokens_of_none {c : Char} {cs : List Char} (h : Token.match? (c :: cs) = none) :
    tokens (c :: cs) = .other c :: tokens cs := by
  rw [tokens]
  split <;> simp_all

/-- The tokens of a text, one after another, are the text. -/
theorem flatMap_text_tokens (cs : List Char) : (tokens cs).flatMap Token.text = cs := by
  fun_induction tokens cs with
  | case1 => rfl
  | case2 c cs t rest h ih => rw [List.flatMap_cons, ih, (Token.text_append_of_match? h).2]
  | case3 c cs h ih => rw [List.flatMap_cons, ih, Token.text, List.singleton_append]

end Stencil
