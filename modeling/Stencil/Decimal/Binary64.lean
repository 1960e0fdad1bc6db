/-!
# Binary floating-point numbers of 64 bits

The finite numbers of the double format, held as a sign, a mantissa and a power of two, with the
rounding, multiplication and division that reading a decimal numeral needs. A result is the nearest
number of the format, and of two equally near ones the one with the even mantissa.

Main definitions:

* `roundQuotient`: the whole number nearest to a quotient;
* `Binary64.ofQuotient`: the number of the format nearest to a quotient;
* `Binary64.ofDecimal?`: the number that a decimal numeral is read as.
-/

namespace Stencil

/-- A finite number of the double format: `mantissa * 2 ^ exponent`, negated if `negative`. -/
structure Binary64 where
  negative : Bool
  mantissa : Nat
  exponent : Int
deriving DecidableEq, Repr, Inhabited

/-- The whole number nearest to a quotient, the even one of two that are equally near. -/
def roundQuotient (num den : Nat) : Nat :=
  let whole := num / den
  let double := 2 * (num % den)
  if double < den then whole
  else if den < double then whole + 1
  else whole + whole % 2

def Decimal.pow10 (n : Nat) : Nat :=
  Nat.pow 10 n

namespace Binary64

/-- The exponent of the smallest numbers of the format. -/
def minExponent : Int := -1074

/-- The number nearest to a quotient. The mantissa has 53 bits, or fewer where the format has no
smaller exponent. -/
def ofQuotient (negative : Bool) (num den : Nat) : Binary64 :=
  if num = 0 then ⟨negative, 0, minExponent⟩
  else
    -- the quotient is between half of `2 ^ (guess + 52)` and its double
    let guess : Int := (num.log2 : Int) - den.log2 - 52
    let tooLarge := num <<< (-guess).toNat < (den <<< guess.toNat) <<< 52
    let normal := if tooLarge then guess - 1 else guess
    let exponent := if normal < minExponent then minExponent else normal
    let mantissa := roundQuotient (num <<< (-exponent).toNat) (den <<< exponent.toNat)
    -- rounding up may carry into one more bit
    if mantissa = 1 <<< 53 then ⟨negative, 1 <<< 52, exponent + 1⟩
    else ⟨negative, mantissa, exponent⟩

/-- Whether a number is small enough for the format. -/
def isFinite (x : Binary64) : Bool :=
  x.mantissa <<< x.exponent.toNat < 1 <<< 1024

def mul (x y : Binary64) : Binary64 :=
  let exponent := x.exponent + y.exponent
  ofQuotient (x.negative != y.negative) ((x.mantissa * y.mantissa) <<< exponent.toNat)
    (1 <<< (-exponent).toNat)

def div (x y : Binary64) : Binary64 :=
  let exponent := x.exponent - y.exponent
  ofQuotient (x.negative != y.negative) (x.mantissa <<< exponent.toNat)
    (y.mantissa <<< (-exponent).toNat)

def pow10 (n : Nat) : Binary64 :=
  ofQuotient false (Decimal.pow10 n) 1

/-- The largest power of ten that the format has room for. -/
def maxPow10 : Nat := 308

/-- Divides by the largest power of ten as often as told, or until nothing is left. -/
def scaleDown : Nat → Binary64 → Binary64
  | 0, x => x
  | n + 1, x => if x.mantissa = 0 then x else scaleDown n (x.div (pow10 maxPow10))

/-- The number for a decimal numeral `significand * 10 ^ exponent`: the significand and the power of
ten are rounded each, and so is their product or quotient. There is none if it would be too
large. -/
def ofDecimal? (negative : Bool) (significand : Nat) (exponent : Int) : Option Binary64 :=
  let x := ofQuotient negative significand 1
  let steps := exponent.natAbs
  if 0 ≤ exponent then
    if steps ≤ maxPow10 then some (x.mul (pow10 steps)) |>.filter isFinite
    else if significand = 0 then some x
    else none
  else
    let rounds := (steps - 1) / maxPow10
    let x := scaleDown rounds x
    if x.mantissa = 0 then some x
    else some (x.div (pow10 (steps - maxPow10 * rounds)))

end Binary64

end Stencil
