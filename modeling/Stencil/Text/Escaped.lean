/-!
# Text as the body of a string literal

A text run of a template becomes the body of a double-quoted string literal. On the way the five
named character references are decoded, once and from left to right, so that what a reference stands
for never takes part in another one. The three characters that would break the literal are escaped,
also where they come from a reference.

Main results:

* `length_of_reference?`: a reference leaves less text than it was found in;
* `escaped_of_reference?`, `escaped_of_none`: the two ways a text run goes on.
-/

namespace Stencil.Text

/-- The character that the reference at the front of a text stands for, and the text behind the
reference. -/
def reference? : List Char → Option (Char × List Char)
  | '&' :: 'a' :: 'm' :: 'p' :: ';' :: rest => some ('&', rest)
  | '&' :: 'g' :: 't' :: ';' :: rest => some ('>', rest)
  | '&' :: 'l' :: 't' :: ';' :: rest => some ('<', rest)
  | '&' :: 'n' :: 'b' :: 's' :: 'p' :: ';' :: rest => some (' ', rest)
  | '&' :: 'q' :: 'u' :: 'o' :: 't' :: ';' :: rest => some ('"', rest)
  | _ => none

/-- How a character is written inside a double-quoted literal. -/
def escapeChar (c : Char) : List Char :=
  if c = '"' then ['\\', '"']
  else if c = '\\' then ['\\', '\\']
  else if c = '\n' then ['\\', 'n']
  else [c]

theorem length_of_reference? {cs rest : List Char} {c : Char}
    (h : reference? cs = some (c, rest)) : rest.length < cs.length := by
  rw [reference?.eq_def] at h
  split at h <;> simp only [Option.some.injEq, Prod.mk.injEq, reduceCtorEq] at h
  all_goals
    obtain ⟨-, rfl⟩ := h
    simp only [List.length_cons]
    omega

/-- The body of the literal for a text run: references decoded, then everything escaped. -/
def escaped : List Char → List Char
  | [] => []
  | c :: cs =>
    match _h : reference? (c :: cs) with
    | some (d, rest) => escapeChar d ++ escaped rest
    | none => escapeChar c ++ escaped cs
termination_by cs => cs.length
decreasing_by
  · exact length_of_reference? _h
  · simp

/-- At a reference, the character it stands for is escaped and the run goes on behind it. -/
theorem escaped_of_reference? {cs rest : List Char} {d : Char}
    (h : reference? cs = some (d, rest)) : escaped cs = escapeChar d ++ escaped rest := by
  cases cs with
  | nil => simp [reference?] at h
  | cons c cs =>
    rw [escaped]
    split
    · next h' =>
      rw [h] at h'
      simp only [Option.some.injEq, Prod.mk.injEq] at h'
      rw [h'.1, h'.2]
    · next h' => simp [h] at h'

/-- Anywhere else the next character is escaped. -/
theorem escaped_of_none {cs : List Char} {c : Char} (h : reference? (c :: cs) = none) :
    escaped (c :: cs) = escapeChar c ++ escaped cs := by
  rw [escaped]
  split
  · next h' => simp [h] at h'
  · rfl

end Stencil.Text
