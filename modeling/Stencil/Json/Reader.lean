import Stencil.Json.Basic
import Stencil.Text.Digit

/-!
# Reading JSON text

The reader takes exactly one value with blanks around it and refuses everything else. A whole number
stays whole as long as it fits 64 bits, with or without a sign; beyond that, or written with a point
or an exponent, it is a binary fraction, and so is a negative zero. Of a long numeral the digits
that fit 64 bits count, and the rest set the size of the number only.

The readers of values recurse on a bound for the number of steps, which `read?` takes large enough
for the text at hand: each step is paid for by a character.
-/

namespace Stencil.Json

/-- The characters that may stand between the parts of a value. -/
def isSpace (c : Char) : Bool :=
  c == ' ' || c == '\t' || c == '\n' || c == '\r'

def skipSpace (cs : List Char) : List Char :=
  cs.dropWhile isSpace

/-! ## Strings -/

/-- The number that four hexadecimal digits write. -/
def hex4? (a b c d : Char) : Option Nat := do
  let a ← Text.digitValue? a
  let b ← Text.digitValue? b
  let c ← Text.digitValue? c
  let d ← Text.digitValue? d
  return ((a * 16 + b) * 16 + c) * 16 + d

/-- The character of a code point below the second plane, unless it is half of a pair. -/
def charOfUnit? (n : Nat) : Option Char :=
  if 0xD800 ≤ n ∧ n ≤ 0xDFFF then none else some (Char.ofNat n)

/-- The character that the two halves of a pair stand for. -/
def charOfPair? (high low : Nat) : Option Char :=
  if 0xD800 ≤ high ∧ high ≤ 0xDBFF ∧ 0xDC00 ≤ low ∧ low ≤ 0xDFFF then
    some (Char.ofNat (0x10000 + (high - 0xD800) * 0x400 + (low - 0xDC00)))
  else none

/-- The character that the escape behind a backslash stands for, and the text that follows. -/
def readEscape : List Char → Option (Char × List Char)
  | '"' :: rest => some ('"', rest)
  | '\\' :: rest => some ('\\', rest)
  | '/' :: rest => some ('/', rest)
  | 'b' :: rest => some ('\x08', rest)
  | 't' :: rest => some ('\t', rest)
  | 'n' :: rest => some ('\n', rest)
  | 'f' :: rest => some ('\x0C', rest)
  | 'r' :: rest => some ('\r', rest)
  | 'u' :: a :: b :: c :: d :: rest =>
    (hex4? a b c d).bind fun unit =>
      match charOfUnit? unit, rest with
      | some ch, _ => some (ch, rest)
      -- half of a pair: the other half has to follow in an escape of its own
      | none, '\\' :: 'u' :: e :: f :: g :: h :: rest =>
        (hex4? e f g h).bind fun low => (charOfPair? unit low).map fun ch => (ch, rest)
      | none, _ => none
  | _ => none

theorem length_of_readEscape {cs rest : List Char} {c : Char}
    (h : readEscape cs = some (c, rest)) : rest.length < cs.length := by
  rw [readEscape.eq_def] at h
  split at h
  case h_9 a b c' d tail =>
    obtain ⟨unit, -, h⟩ := Option.bind_eq_some_iff.1 h
    split at h
    · simp only [Option.some.injEq, Prod.mk.injEq] at h
      simp only [← h.2, List.length_cons]
      omega
    · obtain ⟨low, -, h⟩ := Option.bind_eq_some_iff.1 h
      obtain ⟨ch, -, h⟩ := Option.map_eq_some_iff.1 h
      simp only [Prod.mk.injEq] at h
      simp only [← h.2, List.length_cons]
      omega
    · simp at h
  all_goals simp_all

/-- The characters of a string behind its opening quote, and the text behind its closing one. -/
def readChars : List Char → Option (List Char × List Char)
  | [] => none
  | c :: cs =>
    if c = '"' then some ([], cs)
    else if c = '\\' then
      match _h : readEscape cs with
      | some (d, rest) => (readChars rest).map fun (ds, rest) => (d :: ds, rest)
      | none => none
    else if c.toNat < 32 then none
    else (readChars cs).map fun (ds, rest) => (c :: ds, rest)
termination_by cs => cs.length
decreasing_by
  · have := length_of_readEscape _h
    simp only [List.length_cons]
    omega
  · simp

def readString (cs : List Char) : Option (String × List Char) :=
  (readChars cs).map fun (chars, rest) => (String.ofList chars, rest)

/-! ## Numbers -/

/-- Takes digits into a number as long as it fits 64 bits; what does not fit is left. -/
def absorb : Nat → List Char → Nat × List Char
  | n, [] => (n, [])
  | n, d :: ds =>
    let next := 10 * n + (d.toNat - 48)
    if next < UInt64.size then absorb next ds else (n, d :: ds)

/-- The fraction for a numeral with digits in front of the point, digits behind it, and an
exponent. -/
def fraction? (negative : Bool) (whole places : List Char) (exponent : Int) : Option Binary64 :=
  let front := absorb 0 whole
  let back := absorb front.1 places
  Binary64.ofDecimal? negative back.1
    (exponent + front.2.length - (places.length - back.2.length : Nat))

/-- The number for a numeral without point and exponent. -/
def whole? (negative : Bool) (digits : List Char) : Option Json :=
  let n := Text.natOfDigits 10 digits
  if negative then
    if 0 < n ∧ n ≤ 1 <<< 63 then some (.int (-n)) else (fraction? true digits [] 0).map .real
  else if n < UInt64.size then some (.int n)
  else (fraction? false digits [] 0).map .real

/-- An exponent behind its letter: a sign or none, and digits. -/
def readExponent (cs : List Char) : Option (Int × List Char) :=
  let (negative, cs) : Bool × List Char :=
    match cs with
    | '-' :: rest => (true, rest)
    | '+' :: rest => (false, rest)
    | _ => (false, cs)
  let digits := cs.takeWhile Char.isDigit
  if digits.isEmpty then none
  else
    let n : Int := Text.natOfDigits 10 digits
    some (if negative then -n else n, cs.dropWhile Char.isDigit)

def readUnsigned (negative : Bool) (cs : List Char) : Option (Json × List Char) :=
  let whole := cs.takeWhile Char.isDigit
  let rest := cs.dropWhile Char.isDigit
  if whole.isEmpty || (whole.head? == some '0' && whole.length != 1) then none
  else
    let isFraction := rest.head? == some '.'
    let places := if isFraction then (rest.drop 1).takeWhile Char.isDigit else []
    let rest := if isFraction then (rest.drop 1).dropWhile Char.isDigit else rest
    if isFraction && places.isEmpty then none
    else
      match rest with
      | 'e' :: tail | 'E' :: tail =>
        (readExponent tail).bind fun (exponent, rest) =>
          (fraction? negative whole places exponent).map fun x => (.real x, rest)
      | _ =>
        if isFraction then (fraction? negative whole places 0).map fun x => (.real x, rest)
        else (whole? negative whole).map fun x => (x, rest)

def readNumber : List Char → Option (Json × List Char)
  | '-' :: cs => readUnsigned true cs
  | cs => readUnsigned false cs

/-! ## Values -/

mutual

def readValue : (fuel : Nat) → List Char → Option (Json × List Char)
  | 0, _ => none
  | fuel + 1, cs =>
    match skipSpace cs with
    | 'n' :: 'u' :: 'l' :: 'l' :: rest => some (.null, rest)
    | 't' :: 'r' :: 'u' :: 'e' :: rest => some (.bool true, rest)
    | 'f' :: 'a' :: 'l' :: 's' :: 'e' :: rest => some (.bool false, rest)
    | '"' :: rest => (readString rest).map fun (s, rest) => (.str s, rest)
    | '[' :: rest =>
      match skipSpace rest with
      | ']' :: rest => some (.arr [], rest)
      | rest => (readItems fuel rest).map fun (items, rest) => (.arr items, rest)
    | '{' :: rest =>
      match skipSpace rest with
      | '}' :: rest => some (.obj [], rest)
      | rest => (readMembers fuel rest).map fun (members, rest) => (.obj members, rest)
    | rest => readNumber rest

def readItems : (fuel : Nat) → List Char → Option (List Json × List Char)
  | 0, _ => none
  | fuel + 1, cs =>
    (readValue fuel cs).bind fun (item, rest) =>
      match skipSpace rest with
      | ']' :: rest => some ([item], rest)
      | ',' :: rest => (readItems fuel rest).map fun (items, rest) => (item :: items, rest)
      | _ => none

def readMembers : (fuel : Nat) → List Char → Option (List (String × Json) × List Char)
  | 0, _ => none
  | fuel + 1, cs =>
    match skipSpace cs with
    | '"' :: rest =>
      (readString rest).bind fun (name, rest) =>
        match skipSpace rest with
        | ':' :: rest =>
          (readValue fuel rest).bind fun (value, rest) =>
            match skipSpace rest with
            | '}' :: rest => some ([(name, value)], rest)
            | ',' :: rest =>
              (readMembers fuel rest).map fun (members, rest) => ((name, value) :: members, rest)
            | _ => none
        | _ => none
    | _ => none

end

def read? (text : String) : Option Json :=
  match readValue (2 * text.length + 2) text.toList with
  | some (json, rest) => if (skipSpace rest).isEmpty then some json else none
  | none => none

end Stencil.Json
