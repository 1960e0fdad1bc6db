import Stencil.Source.Attribute
import Stencil.Text.Bytes
import Stencil.Text.Escaped

/-!
# Lexemes

A source is a row of lexemes: tags, text runs, bindings and comments. What a lexeme is shows at its
first characters, and each takes as much as belongs to it, so the row can be read off from the left
without looking back and without knowing which elements are open. No source is malformed.

Main results:

* `Item.read_suffix`: reading an item leaves the end of the text behind its first character;
* `flatMap_source_lexemes`: the lexemes of a source, one after another, are the source;
* `source_ne_nil_of_mem`: every lexeme has at least one character.
-/

namespace Stencil.Source

/-- What a lexeme contributes to the tree. -/
inductive Item where
  | opening (tag : String) (attrs : List Attribute)
  /-- A tag that is an element without children: closed by a slash or cut off by the end. -/
  | leaf (tag : String) (attrs : List Attribute)
  | closing (name : String)
  | text (raw : String)
  | binding (expression : Expression)
  /-- A run of blanks, which contributes nothing. -/
  | blank
  | comment
deriving DecidableEq, Repr, Inhabited

namespace Item

/-- The tag behind a `<`. A slash ends it, with the end mark right behind the slash if there is
one. -/
def readTag (cs : List Char) : Item × List Char :=
  let tag := String.ofList (cs.takeWhile isNameChar)
  let attrs := readAttributes (cs.dropWhile isNameChar)
  match attrs.2 with
  -- cut off by the end of the source: what there is of the tag is kept
  | [] => (leaf tag attrs.1, [])
  | '/' :: '>' :: rest => (leaf tag attrs.1, rest)
  -- a slash closes the tag also where no end mark follows
  | '/' :: rest => (leaf tag attrs.1, rest)
  | _ :: rest => (opening tag attrs.1, rest)

/-- The name behind a `</`, without the blanks around it. -/
def readClosing (cs : List Char) : Item × List Char :=
  let name := upTo '>' cs
  (closing (String.ofList (Text.trim name.1)), name.2)

def readBinding (cs : List Char) : Item × List Char :=
  let inner := braced 0 cs
  (binding (Expression.ofChars inner.1), inner.2)

/-- The text up to the next tag or comment. -/
def readText (cs : List Char) : Item × List Char :=
  let run := cs.takeWhile (· != '<')
  (if run.all Text.isBlank then blank else text (String.ofList (Text.escaped run)),
    cs.dropWhile (· != '<'))

/-- The item that starts with the character `c` in front of the text `cs`, and the text behind
it. -/
def read (c : Char) (cs : List Char) : Item × List Char :=
  if c = '<' then
    match cs with
    | '!' :: '-' :: '-' :: rest => (comment, pastComment 0 rest)
    | '/' :: rest => readClosing rest
    | _ => readTag cs
  else if c = '{' then readBinding cs
  else readText (c :: cs)

/-! ## What the readers leave -/

theorem readTag_suffix (cs : List Char) : (readTag cs).2 <:+ cs := by
  have hrest : (readAttributes (cs.dropWhile isNameChar)).2 <:+ cs :=
    (readAttributes_suffix _).trans (List.dropWhile_suffix isNameChar)
  rw [readTag]
  split
  · exact List.nil_suffix
  · next rest h =>
    rw [h] at hrest
    exact (List.suffix_append ['/', '>'] rest).trans hrest
  · next rest _ h =>
    rw [h] at hrest
    exact (List.suffix_cons _ rest).trans hrest
  · next c rest _ _ h =>
    rw [h] at hrest
    exact (List.suffix_cons c rest).trans hrest

theorem read_suffix (c : Char) (cs : List Char) : (read c cs).2 <:+ cs := by
  rw [read.eq_def]
  split
  · split
    · next rest => exact (pastComment_suffix 0 rest).trans (List.suffix_append ['!', '-', '-'] rest)
    · next rest => exact (upTo_suffix '>' rest).trans (List.suffix_cons _ rest)
    · exact readTag_suffix cs
  · next hc =>
    split
    · exact braced_suffix 0 cs
    · have hpos : (c != '<') = true := by simpa using hc
      simp only [readText, List.dropWhile_cons, hpos, if_true]
      exact List.dropWhile_suffix _

end Item

/-! ## The lexemes of a source -/

/-- An item with the place it was found at. -/
structure Lexeme where
  /-- The number of bytes in front of it. -/
  start : Nat
  source : List Char
  item : Item
deriving DecidableEq, Repr, Inhabited

/-- The part of a text that is gone once only its end `rest` is left. -/
def consumed (cs rest : List Char) : List Char :=
  cs.take (cs.length - rest.length)

theorem consumed_append {cs rest : List Char} (h : rest <:+ cs) :
    consumed cs rest ++ rest = cs := by
  obtain ⟨front, rfl⟩ := h
  simp [consumed]

/-- The lexemes of a text that has `start` bytes in front of it. -/
def lexemesFrom (start : Nat) : List Char → List Lexeme
  | [] => []
  | c :: cs =>
    let found := Item.read c cs
    let source := consumed (c :: cs) found.2
    ⟨start, source, found.1⟩ :: lexemesFrom (start + Text.byteLength source) found.2
termination_by cs => cs.length
decreasing_by
  have := (Item.read_suffix c cs).length_le
  simp only [List.length_cons]
  omega

def lexemes (source : List Char) : List Lexeme :=
  lexemesFrom 0 source

theorem flatMap_source_lexemesFrom (start : Nat) (cs : List Char) :
    (lexemesFrom start cs).flatMap Lexeme.source = cs := by
  fun_induction lexemesFrom start cs with
  | case1 => rfl
  | case2 start c cs found source ih =>
    rw [List.flatMap_cons, ih]
    exact consumed_append ((Item.read_suffix c cs).trans (List.suffix_cons c cs))

/-- The lexemes of a source, one after another, are the source. -/
theorem flatMap_source_lexemes (cs : List Char) : (lexemes cs).flatMap Lexeme.source = cs :=
  flatMap_source_lexemesFrom 0 cs

/-- Every lexeme has at least one character, so reading on always makes progress. -/
theorem source_ne_nil_of_mem {start : Nat} {cs : List Char} {lexeme : Lexeme}
    (h : lexeme ∈ lexemesFrom start cs) : lexeme.source ≠ [] := by
  fun_induction lexemesFrom start cs with
  | case1 => simp at h
  | case2 start c cs found source ih =>
    rcases List.mem_cons.1 h with rfl | h
    · have := (Item.read_suffix c cs).length_le
      simp only [ne_eq, source, consumed, List.take_eq_nil_iff, List.length_cons, reduceCtorEq,
        or_false, found]
      omega
    · exact ih h

end Stencil.Source
