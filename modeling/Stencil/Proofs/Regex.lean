import Mathlib.Data.List.Basic

/-!
# Leftmost matches of a regular expression

A regular expression has at the front of a text a number of ways to match, and they are ranked: an
alternation prefers its first side, whatever that leaves for later, and a repetition prefers to go
on (`Regex.ways`). The match is the way ranked first. Over a whole text, the next match is always the
one that starts leftmost behind the match before it (`Regex.Finds`).

Main results:

* `Regex.ways_many_seq`: no second way is needed for a repetition that is followed by something
  that none of its characters can start;
* `Regex.exists_finds` and `Regex.Finds.unique`: a text has its matches, and only one row of them.
-/

namespace Stencil

-- ---------------------------------------------------------------------------
-- Regular expressions
-- ---------------------------------------------------------------------------

/-- A set of characters, given by ranges, or all characters outside of such a set. -/
structure CharClass where
  ranges : List (Char × Char)
  negated : Bool := false

namespace CharClass

def has (cls : CharClass) (c : Char) : Bool :=
  (cls.ranges.any fun range => range.1 ≤ c && c ≤ range.2) != cls.negated

def only (c : Char) : CharClass where
  ranges := [(c, c)]

def allBut (c : Char) : CharClass where
  ranges := [(c, c)]
  negated := true

/-- A range with equal ends has one character. -/
theorem range_self (c d : Char) : (c ≤ d && d ≤ c) = (d == c) := by
  rw [Bool.eq_iff_iff, Bool.and_eq_true, decide_eq_true_eq, decide_eq_true_eq, beq_iff_eq]
  constructor
  · rintro ⟨hle, hge⟩
    exact Char.le_antisymm hge hle
  · rintro rfl
    exact ⟨Char.le_refl d, Char.le_refl d⟩

theorem has_only (c d : Char) : (only c).has d = (d == c) := by
  simp [only, has, range_self]

theorem has_allBut (c d : Char) : (allBut c).has d = (d != c) := by
  simp [allBut, has, range_self, bne]

end CharClass

inductive Regex where
  | one (cls : CharClass)
  | seq (first second : Regex)
  /-- The first side if it matches at all, else the second. -/
  | alt (first second : Regex)
  /-- Any number of characters of a class, as many as possible. -/
  | many (cls : CharClass)
  /-- What matches inside is captured. -/
  | group (inner : Regex)

/-- A way to match at the front of a text. -/
structure Match where
  text : List Char
  captured : Option (List Char) := none
  rest : List Char

namespace Match

/-- The second of two matches in a row, as a match of both. -/
def behind (second first : Match) : Match :=
  ⟨first.text ++ second.text, second.captured <|> first.captured, second.rest⟩

/-- The match with some text in front of it matched too. -/
def prepend (front : List Char) (found : Match) : Match :=
  { found with text := front ++ found.text }

@[simp]
theorem map_prepend_nil (found : List Match) : found.map (prepend []) = found :=
  List.map_id found

theorem behind_behind (third second first : Match) :
    (third.behind second).behind first = third.behind (second.behind first) := by
  simp [behind, Option.or_assoc]

end Match

/-- The runs of characters of a class at the front of a text, the longest first. -/
def CharClass.runs (cls : CharClass) : List Char → List Match
  | [] => [⟨[], none, []⟩]
  | c :: cs =>
    if cls.has c then (cls.runs cs).map (Match.prepend [c]) ++ [⟨[], none, c :: cs⟩]
    else [⟨[], none, c :: cs⟩]

namespace Regex

/-- The ways in which an expression matches at the front of a text, the preferred ones first. -/
def ways : Regex → List Char → List Match
  | one _, [] => []
  | one cls, c :: cs => if cls.has c then [⟨[c], none, cs⟩] else []
  | seq first second, cs =>
    (first.ways cs).flatMap fun found => (second.ways found.rest).map fun next => next.behind found
  | alt first second, cs => first.ways cs ++ second.ways cs
  | many cls, cs => cls.runs cs
  | group inner, cs => (inner.ways cs).map fun found => { found with captured := some found.text }

/-- The match at the front of a text. -/
def first? (regex : Regex) (cs : List Char) : Option Match :=
  (regex.ways cs).head?

/-- At least one character of a class, and as many as possible. -/
def oneOrMore (cls : CharClass) : Regex :=
  seq (one cls) (many cls)

/-- All matches in a text from left to right, each with the text that is passed over in front of it,
and the text behind the last one. A match starts at the leftmost place behind the match before it
where the expression matches at all. -/
inductive Finds (regex : Regex) : List Char → List (List Char × Match) → List Char → Prop where
  | nothing {cs : List Char} (hnone : ∀ place, place <:+ cs → regex.first? place = none) :
      Finds regex cs [] cs
  | next {passed place tail : List Char} {found : Match} {others : List (List Char × Match)}
      (hfound : regex.first? place = some found)
      (hleft : ∀ earlier, earlier <:+ passed ++ place → place.length < earlier.length →
        regex.first? earlier = none)
      (hothers : Finds regex found.rest others tail) :
      Finds regex (passed ++ place) ((passed, found) :: others) tail

-- ---------------------------------------------------------------------------
-- Matches at the front of a text
-- ---------------------------------------------------------------------------

section

variable {first second third next : Regex} {cls : CharClass} {cs : List Char}

/-- A run of characters and the rest behind it make up the text it was found in. -/
theorem text_append_of_mem_runs {cs : List Char} {found : Match} (h : found ∈ cls.runs cs) :
    found.text ++ found.rest = cs := by
  induction cs generalizing found with
  | nil => simp_all [CharClass.runs]
  | cons c cs ih =>
    rw [CharClass.runs] at h
    split at h
    · rcases List.mem_append.1 h with h | h
      · obtain ⟨shorter, hshorter, rfl⟩ := List.mem_map.1 h
        simp [Match.prepend, ih hshorter]
      · simp_all
    · simp_all

/-- A match and the rest behind it make up the text it was found in. -/
theorem text_append_of_mem_ways {regex : Regex} {cs : List Char} {found : Match}
    (h : found ∈ regex.ways cs) : found.text ++ found.rest = cs := by
  induction regex generalizing cs found with
  | one cls =>
    cases cs with
    | nil => simp [ways] at h
    | cons c cs =>
      rw [ways] at h
      split at h <;> simp_all
  | seq first second ihfirst ihsecond =>
    obtain ⟨front, hfront, h⟩ := List.mem_flatMap.1 h
    obtain ⟨after, hafter, rfl⟩ := List.mem_map.1 h
    rw [← ihfirst hfront, ← ihsecond hafter]
    exact List.append_assoc _ _ _
  | alt first second ihfirst ihsecond =>
    rcases List.mem_append.1 h with h | h
    · exact ihfirst h
    · exact ihsecond h
  | many cls => exact text_append_of_mem_runs h
  | group inner ih =>
    obtain ⟨found, hfound, rfl⟩ := List.mem_map.1 h
    simpa using ih hfound

theorem text_append_of_first? {regex : Regex} {cs : List Char} {found : Match}
    (h : regex.first? cs = some found) : found.text ++ found.rest = cs :=
  text_append_of_mem_ways (List.mem_of_head? h)

theorem ways_seq_assoc :
    (seq (seq first second) third).ways cs = (seq first (seq second third)).ways cs := by
  simp only [ways, List.flatMap_assoc, List.flatMap_map, List.map_flatMap, List.map_map]
  refine List.flatMap_congr fun found hfound => List.flatMap_congr fun next hnext => ?_
  refine List.map_congr_left fun last hlast => ?_
  exact (last.behind_behind next found).symm

theorem first?_alt : (alt first second).first? cs = (first.first? cs <|> second.first? cs) := by
  simp [first?, ways, List.head?_append]

theorem first?_group : (group first).first? cs =
    (first.first? cs).map fun found => { found with captured := some found.text } := by
  simp [first?, ways]

/-- Behind a single character, what follows it is matched. -/
theorem ways_one_seq {c : Char} : (seq (one cls) next).ways (c :: cs) =
    if cls.has c then (next.ways cs).map (Match.prepend [c]) else [] := by
  rw [ways, ways]
  split
  · simp [Match.behind, Match.prepend]
  · rfl

/-- **A repetition goes on to its end** if what follows it cannot start with one of its characters:
to stop earlier is no way to match. -/
theorem ways_many_seq (h : ∀ c cs, cls.has c = true → next.ways (c :: cs) = []) (cs : List Char) :
    (seq (many cls) next).ways cs =
      (next.ways (cs.dropWhile cls.has)).map (Match.prepend (cs.takeWhile cls.has)) := by
  induction cs with
  | nil => simp [ways, CharClass.runs, Match.behind]
  | cons c cs ih =>
    by_cases hc : cls.has c = true
    · have hlonger : (((cls.runs cs).map (Match.prepend [c])).flatMap fun found =>
          (next.ways found.rest).map fun after => after.behind found) =
            ((seq (many cls) next).ways cs).map (Match.prepend [c]) := by
        simp [ways, List.flatMap_map, List.map_flatMap, Match.behind, Match.prepend,
          Function.comp_def]
      rw [ways, ways, CharClass.runs, if_pos hc, List.flatMap_append, hlonger, ih,
        List.takeWhile_cons_of_pos hc, List.dropWhile_cons_of_pos hc]
      simp [h c cs hc, Match.prepend, Function.comp_def]
    · rw [List.takeWhile_cons_of_neg hc, List.dropWhile_cons_of_neg hc]
      simp [ways, CharClass.runs, hc, Match.behind]

theorem first?_seq_assoc :
    (seq (seq first second) third).first? cs = (seq first (seq second third)).first? cs := by
  rw [first?, first?, ways_seq_assoc]

theorem first?_one_seq {c : Char} : (seq (one cls) next).first? (c :: cs) =
    if cls.has c then (next.first? cs).map (Match.prepend [c]) else none := by
  rw [first?, first?, ways_one_seq]
  split
  · exact List.head?_map
  · rfl

theorem first?_many_seq (h : ∀ c cs, cls.has c = true → next.ways (c :: cs) = [])
    (cs : List Char) : (seq (many cls) next).first? cs =
      (next.first? (cs.dropWhile cls.has)).map (Match.prepend (cs.takeWhile cls.has)) := by
  rw [first?, first?, ways_many_seq h, List.head?_map]

/-- A repetition with nothing behind it goes on to its end. -/
theorem first?_many (cs : List Char) : (many cls).first? cs =
    some ⟨cs.takeWhile cls.has, none, cs.dropWhile cls.has⟩ := by
  induction cs with
  | nil => rfl
  | cons c cs ih =>
    by_cases hc : cls.has c = true
    · rw [first?, ways] at ih
      simp [first?, ways, CharClass.runs, hc, ih, Match.prepend]
    · simp [first?, ways, CharClass.runs, hc]

end

-- ---------------------------------------------------------------------------
-- The matches in a text
-- ---------------------------------------------------------------------------

section

variable {regex : Regex} {cs tail tail' : List Char} {hits hits' : List (List Char × Match)}

/-- The passed texts, the matches and the tail make up the text. -/
theorem Finds.eq_copy (h : regex.Finds cs hits tail) :
    (hits.flatMap fun hit => hit.1 ++ hit.2.text) ++ tail = cs := by
  induction h with
  | nothing hnone => rfl
  | next hfound hleft hothers ih =>
    rw [List.flatMap_cons, List.append_assoc, ih, List.append_assoc, text_append_of_first? hfound]

/-- **A text has one row of matches only.** -/
theorem Finds.unique (h : regex.Finds cs hits tail) (h' : regex.Finds cs hits' tail') :
    hits' = hits ∧ tail' = tail := by
  induction h generalizing hits' tail' with
  | nothing hnone =>
    cases h' with
    | nothing hnone' => exact ⟨rfl, rfl⟩
    | next hfound hleft hothers => simp [hnone _ (List.suffix_append _ _)] at hfound
  | @next passed place tail found others hfound hleft hothers ih =>
    generalize hcs : passed ++ place = cs at h' hleft
    cases h' with
    | nothing hnone' => simp [hnone' place ⟨passed, hcs⟩] at hfound
    | @next passed' place' tail' found' others' hfound' hleft' hothers' =>
      have hlength : place.length = place'.length := by
        rcases Nat.lt_trichotomy place.length place'.length with hlt | heq | hgt
        · simp [hleft place' ⟨passed', rfl⟩ hlt] at hfound'
        · exact heq
        · simp [hleft' place ⟨passed, hcs⟩ hgt] at hfound
      obtain ⟨rfl, rfl⟩ := List.append_inj' hcs hlength
      obtain rfl : found' = found := Option.some.inj (hfound'.symm.trans hfound)
      obtain ⟨rfl, rfl⟩ := ih hothers'
      exact ⟨rfl, rfl⟩

/-- A character where nothing matches is passed over. -/
theorem Finds.skip {c : Char} (hc : regex.first? (c :: cs) = none)
    (h : regex.Finds cs hits tail) : ∃ hits tail, regex.Finds (c :: cs) hits tail := by
  cases h with
  | nothing hnone =>
    refine ⟨[], c :: cs, nothing fun place hplace => ?_⟩
    rcases List.suffix_cons_iff.1 hplace with rfl | hplace
    · exact hc
    · exact hnone place hplace
  | @next passed place tail found others hfound hleft hothers =>
    refine ⟨(c :: passed, found) :: others, tail, ?_⟩
    rw [← List.cons_append]
    refine next hfound (fun earlier hearlier hlonger => ?_) hothers
    rcases List.suffix_cons_iff.1 hearlier with rfl | hearlier
    · exact hc
    · exact hleft earlier hearlier hlonger

/-- **Every text has its matches**, if a match is never empty. -/
theorem exists_finds
    (hnonempty : ∀ cs found, regex.first? cs = some found → found.text ≠ []) (cs : List Char) :
    ∃ hits tail, regex.Finds cs hits tail := by
  induction hlength : cs.length using Nat.strongRecOn generalizing cs with
  | ind length ih =>
    cases hfound : regex.first? cs with
    | none =>
      cases cs with
      | nil => exact ⟨[], [], .nothing fun place hplace => List.suffix_nil.1 hplace ▸ hfound⟩
      | cons c cs =>
        obtain ⟨hits, tail, hothers⟩ := ih cs.length (by simp [← hlength]) cs rfl
        exact hothers.skip hfound
    | some found =>
      have hshorter : found.rest.length < length := by
        have hpos := List.length_pos_iff.2 (hnonempty cs found hfound)
        rw [← hlength, ← text_append_of_first? hfound, List.length_append]
        omega
      obtain ⟨hits, tail, hothers⟩ := ih _ hshorter found.rest rfl
      refine ⟨([], found) :: hits, tail, ?_⟩
      rw [← List.nil_append cs]
      refine .next hfound (fun earlier hearlier hlonger => ?_) hothers
      exact absurd hearlier.length_le (Nat.not_le.2 hlonger)

end

end Regex

end Stencil
