import Stencil.Decimal.Binary64

/-!
# Shortest decimal text

The text of a number of the double format: the fewest digits that no other number of the format is
nearer to, and of those the digits nearest to the number, the even ones of two equally near.

The search is exact. A grid of decimals `c * 10 ^ p` is tried for every number of digits in turn,
and of each grid only the two neighbours of the number.

A number of ordinary size is written positionally, with a point and at least one digit behind it. A
very large or very small one has an exponent with its sign, and a point only if it has more than one
digit.

Main definitions:

* `shortest`: the shortest decimal that reads back as a number;
* `text`: the number in the notation for its size.
-/

namespace Stencil.Binary64

/-- A number with the interval of reals for which it is the nearest one, all as multiples of one
fraction `num / den`. -/
structure Interval where
  low : Nat
  mid : Nat
  high : Nat
  num : Nat
  den : Nat
  /-- Whether the ends belong to it. -/
  closed : Bool

/-- The interval of a number, in quarters of its last place. Below a power of two the numbers lie
twice as dense. -/
def interval (x : Binary64) : Interval where
  low := 4 * x.mantissa - (if x.mantissa = 1 <<< 52 ∧ minExponent < x.exponent then 1 else 2)
  mid := 4 * x.mantissa
  high := 4 * x.mantissa + 2
  num := 1 <<< (x.exponent - 2).toNat
  den := 1 <<< (2 - x.exponent).toNat
  closed := x.mantissa % 2 == 0

/-- Whether the decimal `c * 10 ^ p` lies in an interval. -/
def Interval.has (i : Interval) (c : Nat) (p : Int) : Bool :=
  let point := c * Decimal.pow10 p.toNat * i.den
  let scale := i.num * Decimal.pow10 (-p).toNat
  if i.closed then i.low * scale ≤ point && point ≤ i.high * scale
  else i.low * scale < point && point < i.high * scale

/-- The neighbour of the number on the grid of `10 ^ p` that lies in its interval, the nearer of two
and the even one of two equally near. -/
def Interval.onGrid? (i : Interval) (p : Int) : Option Nat :=
  let unit := Decimal.pow10 p.toNat * i.den
  let value := i.mid * i.num * Decimal.pow10 (-p).toNat
  let below := value / unit
  match i.has below p, i.has (below + 1) p with
  | true, true => some (roundQuotient value unit)
  | true, false => some below
  | false, true => some (below + 1)
  | false, false => none

/-- The number of digits in front of the point, negative if zeros follow the point. -/
def Interval.magnitude (i : Interval) : Int :=
  let num := i.mid * i.num
  let digits (n : Nat) : Nat := (Nat.toDigits 10 n).length
  let guess : Int := (digits num : Int) - digits i.den
  if num * Decimal.pow10 (-guess).toNat < i.den * Decimal.pow10 guess.toNat then guess
  else guess + 1

def maxDigits : Nat := 17

/-- The shortest decimal `c * 10 ^ p` that reads back as a number. -/
def shortest (x : Binary64) : Nat × Int :=
  let i := x.interval
  let found := (List.range maxDigits).findSome? fun (n : Nat) =>
    let p := i.magnitude - ((n : Int) + 1)
    (i.onGrid? p).map fun c => (c, p)
  found.getD (0, 0)

/-! ## Notation -/

/-- The exponents of the numbers that are written positionally. -/
def isOrdinary (exponent : Int) : Bool :=
  -5 ≤ exponent && exponent ≤ 15

/-- The digits of a number without the zeros at their end. -/
def significant (c : Nat) : List Char :=
  ((Nat.toDigits 10 c).reverse.dropWhile (· == '0')).reverse

/-- Digits with a point behind as many of them as told. Zeros fill the places in front of the point,
and one stands behind it if no digit is left. -/
def pointed (digits : List Char) (front : Nat) : List Char :=
  let fraction := digits.drop front
  digits.take front ++ List.replicate (front - digits.length) '0' ++
    '.' :: (if fraction.isEmpty then ['0'] else fraction)

/-- Digits of which the first has the place value `10 ^ exponent`, without an exponent. -/
def positional (digits : List Char) (exponent : Int) : List Char :=
  if exponent < 0 then pointed (List.replicate (-exponent).toNat '0' ++ digits) 1
  else pointed digits (exponent.toNat + 1)

/-- Digits of which the first has the place value `10 ^ exponent`, with that exponent and its sign
behind them. -/
def scientific (digits : List Char) (exponent : Int) : List Char :=
  let mantissa :=
    match digits with
    | first :: second :: others => first :: '.' :: second :: others
    | _ => digits
  mantissa ++ 'e' :: (if exponent < 0 then '-' else '+') :: Nat.toDigits 10 exponent.natAbs

/-- The decimal `c * 10 ^ p` in the notation for its size. -/
def decimalText (c : Nat) (p : Int) : List Char :=
  let exponent := (Nat.toDigits 10 c).length + p - 1
  if isOrdinary exponent then positional (significant c) exponent
  else scientific (significant c) exponent

def text (x : Binary64) : List Char :=
  let magnitude :=
    if x.mantissa = 0 then ['0', '.', '0']
    else
      let (c, p) := x.shortest
      decimalText c p
  if x.negative then '-' :: magnitude else magnitude

end Stencil.Binary64
