/-!
# Digits

The digits of numerals up to base sixteen and the number that a row of them writes.

Main result: `digitValue?_hexDigit`, the digit written for a number below sixteen has that number
as its value.
-/

namespace Stencil.Text

/-- The value of a digit up to base sixteen; letters count in either case. -/
def digitValue? (c : Char) : Option Nat :=
  if c.isDigit then some (c.toNat - 48)
  else if 'a' ≤ c ∧ c ≤ 'f' then some (c.toNat - 87)
  else if 'A' ≤ c ∧ c ≤ 'F' then some (c.toNat - 55)
  else none

/-- The digit of a number below sixteen, a small letter from ten on. -/
def hexDigit (n : Nat) : Char :=
  if n < 10 then Char.ofNat (48 + n) else Char.ofNat (87 + n)

def natOfDigits (base : Nat) (cs : List Char) : Nat :=
  cs.foldl (fun n c => base * n + (digitValue? c).getD 0) 0

theorem digitValue?_hexDigit {n : Nat} (h : n < 16) : digitValue? (hexDigit n) = some n := by
  have all : ∀ k : Fin 16, digitValue? (hexDigit k) = some k.val := by decide
  exact all ⟨n, h⟩

end Stencil.Text
