/-!
# Blank characters

Two notions of blank are in use and they differ. Markup is divided by the characters with the
White_Space property (`isBlank`), while the name inside a closing tag is trimmed of the five ASCII
blanks only (`isAsciiBlank`, `trim`). The ASCII blanks leave out the vertical tab, which the
property has.

Main results:

* `isBlank_of_isAsciiBlank`: every ASCII blank is blank;
* `trim_of_none`: a text without ASCII blanks is its own trimmed form.
-/

namespace Stencil.Text

/-- The characters with the White_Space property: they separate attributes, end names and unquoted
values, and a text run made of nothing else is dropped. -/
def isBlank (c : Char) : Bool :=
  let n := c.toNat
  (0x9 ≤ n && n ≤ 0xD) || n == 0x20 || n == 0x85 || n == 0xA0 || n == 0x1680 ||
    (0x2000 ≤ n && n ≤ 0x200A) || n == 0x2028 || n == 0x2029 || n == 0x202F || n == 0x205F ||
    n == 0x3000

/-- Space, tab, line feed, form feed and carriage return. -/
def isAsciiBlank (c : Char) : Bool :=
  c == ' ' || c == '\t' || c == '\n' || c == '\x0C' || c == '\r'

def trim (cs : List Char) : List Char :=
  ((cs.dropWhile isAsciiBlank).reverse.dropWhile isAsciiBlank).reverse

theorem isBlank_of_isAsciiBlank {c : Char} (h : isAsciiBlank c = true) : isBlank c = true := by
  simp only [isAsciiBlank, Bool.or_eq_true, beq_iff_eq] at h
  rcases h with (((rfl | rfl) | rfl) | rfl) | rfl <;> decide

/-- Trimming a text that holds no ASCII blank changes nothing. -/
theorem trim_of_none {cs : List Char} (h : ∀ c ∈ cs, isAsciiBlank c = false) : trim cs = cs := by
  have keep : ∀ l : List Char, (∀ c ∈ l, isAsciiBlank c = false) →
      l.dropWhile isAsciiBlank = l := by
    intro l hl
    cases l with
    | nil => rfl
    | cons c l => simp [hl c (by simp)]
  rw [trim, keep cs h, keep cs.reverse (by simpa using h), List.reverse_reverse]

end Stencil.Text
