import Stencil.Toml.Text
import Stencil.Toml.Value

/-!
# Unquoted TOML values

Words, numbers, dates and times are written without quotes, and the characters of all of them are
few. So the longest run of such characters is taken first, together with a time that follows a date
behind a single space, and only then is it seen what the run is.

Main definitions:

* `int?`, `fraction?`, `isDateTime`: what a run can be besides a word;
* `readScalar?`: the value of the run at the front of a text.
-/

namespace Stencil.Toml

/-! ## Numbers -/

/-- The digits of a numeral without the underscores, each of which has to stand between two
digits. -/
def groups? (isDigit : Char → Bool) : List Char → Option (List Char)
  | [] => none
  | [d] => if isDigit d then some [d] else none
  | d :: '_' :: rest =>
    if isDigit d then (groups? isDigit rest).map (d :: ·) else none
  | d :: rest => if isDigit d then (groups? isDigit rest).map (d :: ·) else none

/-- Splits a sign off; true stands for a minus. -/
def splitSign : List Char → Option Bool × List Char
  | '-' :: rest => (some true, rest)
  | '+' :: rest => (some false, rest)
  | rest => (none, rest)

def decimal? (cs : List Char) : Option (List Char) :=
  (groups? Char.isDigit cs).filter fun digits => digits.head? != some '0' || digits.length == 1

/-- The digits behind the mark of a base, and the base. -/
def based? : List Char → Option (Nat × List Char)
  | '0' :: 'x' :: rest => (groups? (fun c => (Text.digitValue? c).isSome) rest).map (16, ·)
  | '0' :: 'o' :: rest => (groups? (fun c => '0' ≤ c && c ≤ '7') rest).map (8, ·)
  | '0' :: 'b' :: rest => (groups? (fun c => c == '0' || c == '1') rest).map (2, ·)
  | _ => none

/-- A whole number: in base ten with a sign or without, in another base without one. It must fit 128
bits, with a sign or without. -/
def int? (cs : List Char) : Option Int :=
  let found : Option Int :=
    match splitSign cs with
    | (none, body) =>
      match based? body with
      | some (base, digits) => some (Text.natOfDigits base digits)
      | none => (decimal? body).map fun digits => (Text.natOfDigits 10 digits : Int)
    | (some true, body) => (decimal? body).map fun digits => -(Text.natOfDigits 10 digits : Int)
    | (some false, body) => (decimal? body).map fun digits => (Text.natOfDigits 10 digits : Int)
  found.filter fun n => if n < 0 then n.natAbs ≤ 1 <<< 127 else n.natAbs < 1 <<< 128

/-- The double nearest to a decimal numeral, unless the numeral is too large for one. The power of
ten is never built for a numeral that is plainly too large, or plainly nothing. -/
def nearest? (negative : Bool) (significand : Nat) (exponent : Int) : Option Binary64 :=
  let magnitude : Int := (Nat.toDigits 10 significand).length + exponent
  if significand = 0 ∨ magnitude < -400 then some (Binary64.ofQuotient negative 0 1)
  else if 400 < magnitude then none
  else
    some (Binary64.ofQuotient negative (significand * Decimal.pow10 exponent.toNat)
      (Decimal.pow10 (-exponent).toNat))
      |>.filter Binary64.isFinite

/-- The exponent of a fraction behind its letter. Zeros in front are allowed. -/
def exponent? (cs : List Char) : Option Int :=
  let (sign, body) := splitSign cs
  (groups? Char.isDigit body).map fun digits =>
    let n : Int := Text.natOfDigits 10 digits
    if sign = some true then -n else n

/-- A fraction: a whole number with digits behind a point, with an exponent, or with both. -/
def fraction? (cs : List Char) : Option Binary64 := do
  let (sign, body) := splitSign cs
  let isMark (c : Char) : Bool := c == 'e' || c == 'E'
  let mantissa := body.takeWhile fun c => !isMark c
  let tail := body.dropWhile fun c => !isMark c
  let whole ← decimal? (mantissa.takeWhile (· != '.'))
  let places ←
    match mantissa.dropWhile (· != '.') with
    | [] => if tail.isEmpty then none else some []
    | _ :: places => groups? Char.isDigit places
  let exponent ←
    match tail with
    | [] => some 0
    | _ :: digits => exponent? digits
  nearest? (sign == some true) (Text.natOfDigits 10 (whole ++ places)) (exponent - places.length)

/-! ## Dates and times -/

def isLeapYear (year : Nat) : Bool :=
  year % 4 == 0 && (year % 100 != 0 || year % 400 == 0)

/-- The number of days of a month, and none at all for a number that is no month's. -/
def daysInMonth (year month : Nat) : Nat :=
  if month = 2 then if isLeapYear year then 29 else 28
  else if month = 4 ∨ month = 6 ∨ month = 9 ∨ month = 11 then 30
  else if 1 ≤ month ∧ month ≤ 12 then 31
  else 0

/-- The number that exactly `count` digits write, and the text that follows. -/
def digits? (count : Nat) (cs : List Char) : Option (Nat × List Char) :=
  let digits := cs.take count
  if digits.length = count ∧ digits.all Char.isDigit then
    some (Text.natOfDigits 10 digits, cs.drop count)
  else none

def after? (c : Char) : List Char → Option (List Char)
  | [] => none
  | d :: rest => if d = c then some rest else none

def date? (cs : List Char) : Option (List Char) := do
  let (year, rest) ← digits? 4 cs
  let (month, rest) ← digits? 2 (← after? '-' rest)
  let (day, rest) ← digits? 2 (← after? '-' rest)
  if 1 ≤ day ∧ day ≤ daysInMonth year month then some rest else none

/-- The text behind an hour and a minute. -/
def hourMinute? (cs : List Char) : Option (List Char) := do
  let (hour, rest) ← digits? 2 cs
  let (minute, rest) ← digits? 2 (← after? ':' rest)
  if hour ≤ 23 ∧ minute ≤ 59 then some rest else none

/-- The text behind the seconds of a time, which may be left out, and which may have places behind a
point. -/
def seconds? (cs : List Char) : Option (List Char) :=
  match cs with
  | ':' :: rest => do
    let (second, rest) ← digits? 2 rest
    if 60 < second then none
    else
      match rest with
      | '.' :: places =>
        if (places.takeWhile Char.isDigit).isEmpty then none
        else some (places.dropWhile Char.isDigit)
      | _ => some rest
  | _ => some cs

def time? (cs : List Char) : Option (List Char) :=
  (hourMinute? cs).bind seconds?

/-- The text behind the distance to universal time, which may be left out. -/
def offset? : List Char → Option (List Char)
  | 'Z' :: rest | 'z' :: rest => some rest
  | '+' :: rest | '-' :: rest => hourMinute? rest
  | rest => some rest

/-- Whether a text is a time, a date, or a date and a time. -/
def isDateTime (cs : List Char) : Bool :=
  match date? cs with
  | some [] => true
  | some (mark :: rest) =>
    (mark == 'T' || mark == 't' || mark == ' ') && ((time? rest).bind offset?) == some []
  | none => time? cs == some []

/-! ## Values -/

/-- The characters of unquoted values. -/
def isScalarChar (c : Char) : Bool :=
  c.isAlphanum || c == '_' || c == '-' || c == '+' || c == '.' || c == ':'

/-- The run of characters of an unquoted value, and the text that follows. A time may follow a date
behind a space. -/
def scalarRun (cs : List Char) : List Char × List Char :=
  let run := cs.takeWhile isScalarChar
  match date? run, cs.dropWhile isScalarChar with
  | some [], ' ' :: d :: rest =>
    if d.isDigit then
      (run ++ ' ' :: (d :: rest).takeWhile isScalarChar, (d :: rest).dropWhile isScalarChar)
    else (run, ' ' :: d :: rest)
  | _, rest => (run, rest)

def scalarOf? (run : List Char) : Option Value :=
  let written := String.ofList run
  if written = "true" then some (.bool true)
  else if written = "false" then some (.bool false)
  else if written ∈ ["inf", "+inf", "-inf", "nan", "+nan", "-nan"] then some (.float none)
  else
    match int? run with
    | some n => some (.int n)
    | none =>
      match fraction? run with
      | some x => some (.float (some x))
      | none => if isDateTime run then some (.date written) else none

def readScalar? (cs : List Char) : Option (Value × List Char) :=
  let run := scalarRun cs
  (scalarOf? run.1).map fun value => (value, run.2)

end Stencil.Toml
