import Stencil.Text.Digit

/-!
# The characters of a TOML document

Blanks, line ends, comments and the four kinds of string. Controls other than the tab stand nowhere,
and a carriage return stands in front of a line feed only.

Each reader gives what it read and the text that follows, or none if the text is malformed.
-/

namespace Stencil.Toml

def isBlank (c : Char) : Bool :=
  c == ' ' || c == '\t'

def skipBlanks (cs : List Char) : List Char :=
  cs.dropWhile isBlank

/-- The characters that stand for themselves in comments and strings: all but the controls, of which
the tab is let through. -/
def isPlain (c : Char) : Bool :=
  c == '\t' || (32 ≤ c.toNat && c != '\x7F')

/-- The text behind a comment, if there is one at its front. -/
def skipComment : List Char → List Char
  | '#' :: cs => cs.dropWhile isPlain
  | cs => cs

def lineEnd? : List Char → Option (List Char)
  | '\n' :: rest => some rest
  | '\r' :: '\n' :: rest => some rest
  | _ => none

/-- The text behind the end of a statement: the line ends, or the document does. -/
def statementEnd? (cs : List Char) : Option (List Char) :=
  match skipComment (skipBlanks cs) with
  | [] => some []
  | rest => lineEnd? rest

/-- The text behind any number of blanks, line ends and comments. -/
def skipLines : List Char → List Char
  | [] => []
  | '#' :: cs => skipLines (cs.dropWhile isPlain)
  | '\r' :: '\n' :: cs => skipLines cs
  | c :: cs => if isBlank c || c == '\n' then skipLines cs else c :: cs
termination_by cs => cs.length
decreasing_by
  · have := (List.dropWhile_suffix isPlain (l := cs)).length_le
    simp only [List.length_cons]
    omega
  all_goals
    simp only [List.length_cons]
    omega

/-! ## Escapes -/

/-- The character that a row of hexadecimal digits stands for, unless there is none of that code
point. -/
def charOfHex? (digits : List Char) : Option Char :=
  if digits.all fun c => (Text.digitValue? c).isSome then
    let n := Text.natOfDigits 16 digits
    if n < 0xD800 ∨ (0xE000 ≤ n ∧ n < 0x110000) then some (Char.ofNat n) else none
  else none

/-- The character that an escape behind its backslash stands for, and the number of characters that
the escape has. -/
def escape? : List Char → Option (Char × Nat)
  | 'b' :: _ => some ('\x08', 1)
  | 't' :: _ => some ('\t', 1)
  | 'n' :: _ => some ('\n', 1)
  | 'f' :: _ => some ('\x0C', 1)
  | 'r' :: _ => some ('\r', 1)
  | 'e' :: _ => some ('\x1B', 1)
  | '"' :: _ => some ('"', 1)
  | '\\' :: _ => some ('\\', 1)
  | 'x' :: rest => digits 2 rest
  | 'u' :: rest => digits 4 rest
  | 'U' :: rest => digits 8 rest
  | _ => none
where
  /-- An escape by the code point, written with a fixed number of digits. -/
  digits (count : Nat) (rest : List Char) : Option (Char × Nat) :=
    if count ≤ rest.length then (charOfHex? (rest.take count)).map fun c => (c, count + 1) else none

/-! ## Strings -/

/-- The characters of a string up to the apostrophe that ends it. Nothing is escaped. -/
def readLiteral (cs : List Char) : Option (List Char × List Char) :=
  match cs.dropWhile fun c => isPlain c && c != '\'' with
  | '\'' :: rest => some (cs.takeWhile fun c => isPlain c && c != '\'', rest)
  | _ => none

/-- The characters of a string up to the quote that ends it. -/
def readBasic : List Char → Option (List Char × List Char)
  | [] => none
  | c :: cs =>
    if c = '"' then some ([], cs)
    else if c = '\\' then
      match escape? cs with
      | some (d, count) => (readBasic (cs.drop count)).map fun (ds, rest) => (d :: ds, rest)
      | none => none
    else if isPlain c then (readBasic cs).map fun (ds, rest) => (c :: ds, rest)
    else none
termination_by cs => cs.length
decreasing_by
  all_goals
    simp only [List.length_cons, List.length_drop]
    omega

/-- What three quotes in a row end a string with: up to two more quotes still belong to it. -/
def closeQuotes (quote : Char) (rest : List Char) : List Char × List Char :=
  let more := (rest.take 2).takeWhile (· == quote)
  (more, rest.drop more.length)

/-- The characters of a string of several lines up to the three apostrophes that end it. -/
def readLiteralLines : List Char → Option (List Char × List Char)
  | [] => none
  | '\'' :: '\'' :: '\'' :: rest => some (closeQuotes '\'' rest)
  | '\r' :: '\n' :: cs => (readLiteralLines cs).map fun (ds, rest) => ('\n' :: ds, rest)
  | c :: cs =>
    if isPlain c || c == '\n' then (readLiteralLines cs).map fun (ds, rest) => (c :: ds, rest)
    else none

/-- The text behind a backslash that ends its line: all blanks and line ends up to the next
character are left out. None if something else stands on the line. -/
def continued? (cs : List Char) : Option (List Char) :=
  (lineEnd? (skipBlanks cs)).map skipBreaks
where
  /-- The text behind the blanks and line ends at its front. -/
  skipBreaks : List Char → List Char
    | [] => []
    | '\r' :: '\n' :: cs => skipBreaks cs
    | c :: cs => if isBlank c || c == '\n' then skipBreaks cs else c :: cs

theorem length_skipBreaks (cs : List Char) : (continued?.skipBreaks cs).length ≤ cs.length := by
  fun_induction continued?.skipBreaks cs with
  | case1 => simp
  | case2 cs ih =>
    simp only [List.length_cons]
    omega
  | case3 c cs _ _ ih =>
    simp only [List.length_cons]
    omega
  | case4 => simp

theorem length_lineEnd? {cs rest : List Char} (h : lineEnd? cs = some rest) :
    rest.length < cs.length := by
  rw [lineEnd?.eq_def] at h
  split at h
  · simp only [Option.some.injEq] at h
    simp [h]
  · simp only [Option.some.injEq] at h
    subst h
    simp only [List.length_cons]
    omega
  · simp at h

theorem length_continued? {cs rest : List Char} (h : continued? cs = some rest) :
    rest.length < cs.length := by
  obtain ⟨line, hline, rfl⟩ := Option.map_eq_some_iff.1 h
  have h1 := length_skipBreaks line
  have h2 := length_lineEnd? hline
  have h3 := (List.dropWhile_suffix isBlank (l := cs)).length_le
  rw [skipBlanks] at h2
  omega

/-- The characters of a string of several lines up to the three quotes that end it. -/
def readBasicLines : List Char → Option (List Char × List Char)
  | [] => none
  | '"' :: '"' :: '"' :: rest => some (closeQuotes '"' rest)
  | '\r' :: '\n' :: cs => (readBasicLines cs).map fun (ds, rest) => ('\n' :: ds, rest)
  | '\\' :: cs =>
    match _h : continued? cs with
    | some rest => readBasicLines rest
    | none =>
      match escape? cs with
      | some (d, count) => (readBasicLines (cs.drop count)).map fun (ds, rest) => (d :: ds, rest)
      | none => none
  | c :: cs =>
    if isPlain c || c == '\n' then (readBasicLines cs).map fun (ds, rest) => (c :: ds, rest)
    else none
termination_by cs => cs.length
decreasing_by
  case _ =>
    simp only [List.length_cons]
    omega
  case _ =>
    have := length_continued? _h
    simp only [List.length_cons]
    omega
  all_goals
    simp only [List.length_cons, List.length_drop]
    omega

/-- The text behind a line end at its front, which the first line of a string leaves out. -/
def dropLineEnd (cs : List Char) : List Char :=
  (lineEnd? cs).getD cs

def readString? : List Char → Option (String × List Char)
  | '"' :: '"' :: '"' :: cs => ofChars (readBasicLines (dropLineEnd cs))
  | '\'' :: '\'' :: '\'' :: cs => ofChars (readLiteralLines (dropLineEnd cs))
  | '"' :: cs => ofChars (readBasic cs)
  | '\'' :: cs => ofChars (readLiteral cs)
  | _ => none
where
  ofChars (found : Option (List Char × List Char)) : Option (String × List Char) :=
    found.map fun (chars, rest) => (String.ofList chars, rest)

/-! ## Keys -/

/-- The characters of a key without quotes. -/
def isBareKeyChar (c : Char) : Bool :=
  c.isAlphanum || c == '_' || c == '-'

/-- One part of a key: bare, or in a string of one line. -/
def readKey? : List Char → Option (String × List Char)
  | '"' :: cs => (readBasic cs).map fun (chars, rest) => (String.ofList chars, rest)
  | '\'' :: cs => (readLiteral cs).map fun (chars, rest) => (String.ofList chars, rest)
  | cs =>
    if (cs.takeWhile isBareKeyChar).isEmpty then none
    else some (String.ofList (cs.takeWhile isBareKeyChar), cs.dropWhile isBareKeyChar)

/-- The parts of a key with points between them, and the text that follows. Blanks may stand around
each part. -/
def readPath? : (fuel : Nat) → List Char → Option (List String × List Char)
  | 0, _ => none
  | fuel + 1, cs =>
    (readKey? (skipBlanks cs)).bind fun (key, rest) =>
      match skipBlanks rest with
      | '.' :: rest => (readPath? fuel rest).map fun (keys, rest) => (key :: keys, rest)
      | rest => some ([key], rest)

end Stencil.Toml
