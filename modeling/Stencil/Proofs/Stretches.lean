import Mathlib.Data.List.Induction
import Stencil.Proofs.Template

/-!
# Stretches that end at a mark

A quoted value and the name of a closing tag reach to the first mark of a kind, an expression to the
brace that balances the open one, a comment to the mark that closes it and all comments inside it.
For each there are the texts that can stand in front of the mark, said without the reader. A stretch
is one of these, with its mark behind it, or it has come to the end of the text without finding one.

So a stretch that ends inside a front part of a text ends there whatever follows the front part, which
the lemmas `upTo_replace`, `braced_replace` and `pastComment_replace` say: from `cs ++ more`, of which
`rest ++ more` is left, what follows is exchanged for `other`. At the end of the text one has to know
that the mark was found.

Main results:

* `upTo_append`, `braced_append`, `pastComment_append`: a stretch ends at its own mark;
* `upTo_cases`, `braced_cases`, `pastComment_cases`: nothing else is read up to a mark;
* `braced_exact`: between braces the one balanced text is read that a closing brace follows, or all
  there is.
-/

namespace Stencil.Source

-- ---------------------------------------------------------------------------
-- Up to the first mark
-- ---------------------------------------------------------------------------

/-- A run of characters of a kind ends where the next character is of another kind. -/
theorem span_append {p : Char → Bool} {front : List Char} (hfront : ∀ c ∈ front, p c = true)
    (rest : List Char) (hrest : ∀ c, rest.head? = some c → p c = false) :
    (front ++ rest).takeWhile p = front ∧ (front ++ rest).dropWhile p = rest := by
  rw [List.takeWhile_append_of_pos hfront, List.dropWhile_append_of_pos hfront]
  cases rest with
  | nil => simp
  | cons c rest =>
    have hc : p c = false := hrest c rfl
    simp [hc]

/-- A run that ends at a mark, if not in front of it, is the same whatever stands behind the mark. -/
theorem span_append_stop {p : Char → Bool} {stop : Char} (hstop : p stop = false)
    (cs rest : List Char) :
    (cs ++ stop :: rest).takeWhile p = cs.takeWhile p ∧
      (cs ++ stop :: rest).dropWhile p = cs.dropWhile p ++ stop :: rest := by
  induction cs with
  | nil => simp [hstop]
  | cons c cs ih =>
    by_cases hc : p c = true
    · simp [hc, ih.1, ih.2]
    · simp [hc]

theorem span_replace {p : Char → Bool} {cs more rest : List Char}
    (h : (cs ++ more).dropWhile p = rest ++ more) {other : List Char}
    (hother : rest = [] → ∀ c, other.head? = some c → p c = false) :
    (cs ++ other).takeWhile p = (cs ++ more).takeWhile p ∧
      (cs ++ other).dropWhile p = rest ++ other := by
  have hall := List.takeWhile_append_dropWhile (p := p) (l := cs ++ more)
  rw [h] at hall
  have hcs : (cs ++ more).takeWhile p ++ rest = cs :=
    (List.append_left_inj more).1 (by simpa using hall)
  have hfront : ∀ c ∈ (cs ++ more).takeWhile p, p c = true :=
    fun c hc => List.all_eq_true.1 List.all_takeWhile c hc
  have hstop : ∀ c, (rest ++ other).head? = some c → p c = false := by
    intro c hc
    cases hrest : rest with
    | nil =>
      rw [hrest] at hc
      exact hother hrest c hc
    | cons d ds =>
      have hd := List.head?_dropWhile_not p (cs ++ more)
      rw [h, hrest] at hd
      rw [hrest] at hc
      obtain rfl : d = c := Option.some.inj hc
      exact hd
  have hspan := span_append hfront (rest ++ other) hstop
  rw [← List.append_assoc, hcs] at hspan
  exact hspan

theorem upTo_append {stop : Char} {front : List Char} (hfront : stop ∉ front) (rest : List Char) :
    upTo stop (front ++ stop :: rest) = (front, rest) := by
  have hother : ∀ c ∈ front, (c != stop) = true := by
    intro c hc
    rw [bne_iff_ne]
    rintro rfl
    exact hfront hc
  obtain ⟨htake, hdrop⟩ := span_append hother (stop :: rest) (by simp)
  rw [upTo, htake, hdrop]
  rfl

theorem upTo_cases (stop : Char) (text : List Char) :
    (text = (upTo stop text).1 ++ stop :: (upTo stop text).2 ∧ stop ∉ (upTo stop text).1) ∨
      (stop ∉ text ∧ upTo stop text = (text, [])) := by
  induction text with
  | nil => exact Or.inr ⟨by simp, rfl⟩
  | cons c cs ih =>
    by_cases hc : c = stop
    · exact Or.inl (by simp [upTo, hc])
    · have hcons : upTo stop (c :: cs) = (c :: (upTo stop cs).1, (upTo stop cs).2) := by
        simp [upTo, hc]
      rw [hcons]
      rcases ih with ⟨htext, hstop⟩ | ⟨hstop, hall⟩
      · refine Or.inl ⟨congrArg (c :: ·) htext, ?_⟩
        simp [hstop, Ne.symm hc]
      · exact Or.inr ⟨by simp [hstop, Ne.symm hc], by rw [hall]⟩

theorem upTo_replace {stop : Char} {cs more rest inner : List Char}
    (h : upTo stop (cs ++ more) = (inner, rest ++ more)) (hclosed : rest ++ more = [] → stop ∈ cs)
    (other : List Char) : upTo stop (cs ++ other) = (inner, rest ++ other) := by
  have hcases := upTo_cases stop (cs ++ more)
  rw [h] at hcases
  rcases hcases with ⟨htext, hstop⟩ | ⟨hstop, hall⟩
  · have hcs : cs = inner ++ stop :: rest :=
      (List.append_left_inj more).1 (by simpa using htext)
    rw [hcs, List.append_assoc, List.cons_append, upTo_append hstop]
  · have hmem := hclosed (congrArg Prod.snd hall)
    exact absurd (List.mem_append_left more hmem) hstop

-- ---------------------------------------------------------------------------
-- Braces
-- ---------------------------------------------------------------------------

/-- A text that closes `depth` open braces, and all that it opens, and on the way never one too
many. -/
def ClosesBraces (depth : Nat) (cs : List Char) : Prop :=
  (∀ front, front <+: cs → front.count '}' ≤ depth + front.count '{') ∧
    cs.count '}' = depth + cs.count '{'

theorem closesBraces_zero {cs : List Char} : ClosesBraces 0 cs ↔ BracesBalanced cs := by
  simp [ClosesBraces, BracesBalanced]

/-- A character in front changes the depth by what it opens or closes. -/
theorem closesBraces_cons {depth inner : Nat} {c : Char} {cs : List Char}
    (hc : depth + [c].count '{' = inner + [c].count '}') :
    ClosesBraces depth (c :: cs) ↔ ClosesBraces inner cs := by
  have hcount : ∀ (d : Char) (l : List Char), (c :: l).count d = [c].count d + l.count d := by
    intro d l
    rw [← List.count_append]
    rfl
  constructor
  · rintro ⟨hfront, hall⟩
    refine ⟨fun front h => ?_, ?_⟩
    · have := hfront (c :: front) ((List.prefix_cons_inj c).2 h)
      rw [hcount '}' front, hcount '{' front] at this
      omega
    · rw [hcount '}' cs, hcount '{' cs] at hall
      omega
  · rintro ⟨hfront, hall⟩
    refine ⟨fun front h => ?_, ?_⟩
    · rcases List.prefix_cons_iff.1 h with rfl | ⟨tail, rfl, htail⟩
      · simp
      · have := hfront tail htail
        rw [hcount '}' tail, hcount '{' tail]
        omega
    · rw [hcount '}' cs, hcount '{' cs]
      omega

/-- Inside `depth` further braces, a text that closes just these before it ends reaches to the closing
brace that was put behind it. -/
theorem braced_append_of {depth : Nat} {cs : List Char} (h : ClosesBraces depth cs)
    (rest : List Char) : braced depth (cs ++ '}' :: rest) = (cs, rest) := by
  induction cs generalizing depth with
  | nil =>
    obtain rfl : depth = 0 := by simpa using h.2.symm
    simp [braced]
  | cons c cs ih =>
    by_cases hopen : c = '{'
    · subst hopen
      have hinner : ClosesBraces (depth + 1) cs := (closesBraces_cons (by simp)).1 h
      simp [braced, ih hinner]
    · by_cases hclose : c = '}'
      · subst hclose
        cases depth with
        | zero =>
          -- the closing brace alone would be one brace too many
          have := h.1 ['}'] ⟨cs, rfl⟩
          simp at this
        | succ outer =>
          have hinner : ClosesBraces outer cs := (closesBraces_cons (by simp)).1 h
          simp [braced, ih hinner]
      · have hinner : ClosesBraces depth cs := (closesBraces_cons (by simp [hopen, hclose])).1 h
        simp [braced, hopen, hclose, ih hinner]

theorem braced_append {cs : List Char} (h : BracesBalanced cs) (rest : List Char) :
    braced 0 (cs ++ '}' :: rest) = (cs, rest) :=
  braced_append_of (closesBraces_zero.2 h) rest

/-- A stretch in braces ends at the closing brace that balances it, or it is all there is. -/
theorem braced_cases (depth : Nat) (text : List Char) :
    (text = (braced depth text).1 ++ '}' :: (braced depth text).2 ∧
        ClosesBraces depth (braced depth text).1) ∨
      braced depth text = (text, []) := by
  fun_induction braced depth text with
  | case1 => exact Or.inr rfl
  | case2 depth cs inner ih =>
    rcases ih with ⟨htext, hcloses⟩ | hall
    · exact Or.inl ⟨congrArg ('{' :: ·) htext, (closesBraces_cons (by simp)).2 hcloses⟩
    · exact Or.inr (by simp [inner, hall])
  | case3 cs => exact Or.inl ⟨rfl, by simp [ClosesBraces]⟩
  | case4 cs outer inner _ ih =>
    rcases ih with ⟨htext, hcloses⟩ | hall
    · exact Or.inl ⟨congrArg ('}' :: ·) htext, (closesBraces_cons (by simp)).2 hcloses⟩
    · exact Or.inr (by simp [inner, hall])
  | case5 depth c cs hopen hclose inner ih =>
    rcases ih with ⟨htext, hcloses⟩ | hall
    · exact Or.inl ⟨congrArg (c :: ·) htext, (closesBraces_cons (by simp [hopen, hclose])).2 hcloses⟩
    · exact Or.inr (by simp [inner, hall])

theorem braced_replace {cs more rest inner : List Char}
    (h : braced 0 (cs ++ more) = (inner, rest ++ more))
    (hclosed : rest ++ more = [] →
      ∃ body behind, cs = body ++ '}' :: behind ∧ BracesBalanced body)
    (other : List Char) : braced 0 (cs ++ other) = (inner, rest ++ other) := by
  have hcases := braced_cases 0 (cs ++ more)
  rw [h] at hcases
  rcases hcases with ⟨htext, hcloses⟩ | hall
  · have hcs : cs = inner ++ '}' :: rest :=
      (List.append_left_inj more).1 (by simpa using htext)
    rw [hcs, List.append_assoc, List.cons_append, braced_append (closesBraces_zero.1 hcloses)]
  · -- a text that has a closing brace of its own does not belong to the stretch as a whole
    obtain ⟨hinner, hnil⟩ := Prod.mk.inj hall
    obtain ⟨body, behind, hcs, hbody⟩ := hclosed hnil
    rw [hcs, List.append_assoc, List.cons_append, braced_append hbody] at h
    have hlength := congrArg List.length ((Prod.mk.inj h).1.trans hinner)
    rw [hcs] at hlength
    simp at hlength

/-- All along a text no more braces are closed than opened, or else a closing brace stands behind a
front part whose braces balance. -/
theorem count_le_or_exists_balanced (text : List Char) :
    (∀ front, front <+: text → front.count '}' ≤ front.count '{') ∨
      ∃ body rest, text = body ++ '}' :: rest ∧ BracesBalanced body := by
  induction text using List.reverseRecOn with
  | nil =>
    refine Or.inl fun front hfront => ?_
    rw [List.prefix_nil.1 hfront]
    rfl
  | append_singleton text c ih =>
    rcases ih with hall | ⟨body, rest, rfl, hbody⟩
    · by_cases hclose : c = '}' ∧ text.count '}' = text.count '{'
      · obtain ⟨rfl, hequal⟩ := hclose
        exact Or.inr ⟨text, [], rfl, hall, hequal⟩
      · refine Or.inl fun front hfront => ?_
        rcases List.prefix_concat_iff.1 hfront with rfl | hfront
        · have hle := hall text List.prefix_rfl
          rw [List.count_append, List.count_append]
          by_cases hc : c = '}'
          · subst hc
            have hne : text.count '}' ≠ text.count '{' := fun h => hclose ⟨rfl, h⟩
            have hone : ['}'].count '}' = 1 := rfl
            omega
          · have hnone : [c].count '}' = 0 := by simp [hc]
            omega
        · exact hall front hfront
    · exact Or.inr ⟨body, rest ++ [c], by simp, hbody⟩

/-- **What stands between braces is found exactly.** If a closing brace stands behind a front part
whose braces balance, there is one such part, and it is read, up to and without that brace. If there is
none, the text is read to its end, and on the way never more braces are closed than opened. -/
theorem braced_exact (text : List Char) :
    (∀ body rest, text = body ++ '}' :: rest → BracesBalanced body →
      braced 0 text = (body, rest) ∧
        ∀ other behind, text = other ++ '}' :: behind → BracesBalanced other → other = body) ∧
    ((¬∃ body rest, text = body ++ '}' :: rest ∧ BracesBalanced body) →
      braced 0 text = (text, []) ∧
        ∀ front, front <+: text → front.count '}' ≤ front.count '{') := by
  have hread : ∀ body rest, text = body ++ '}' :: rest → BracesBalanced body →
      braced 0 text = (body, rest) := by
    rintro body rest rfl hbody
    exact braced_append hbody rest
  refine ⟨fun body rest htext hbody => ⟨hread body rest htext hbody, ?_⟩, fun hnone => ⟨?_, ?_⟩⟩
  · intro other behind hother hbalanced
    have hboth := (hread other behind hother hbalanced).symm.trans (hread body rest htext hbody)
    exact congrArg Prod.fst hboth
  · rcases braced_cases 0 text with ⟨htext, hcloses⟩ | hall
    · exact absurd ⟨_, _, htext, closesBraces_zero.1 hcloses⟩ hnone
    · exact hall
  · exact (count_le_or_exists_balanced text).resolve_right hnone

/-- Braces inside and behind the part that is read, and a text in which the brace that was opened last
is never closed. -/
theorem braced_exact_nested :
    let body := ['a', '{', 'é', '}', 'b']
    let behind := ['{', '}', '}']
    let unclosed := ['{', '}', '{']
    (BracesBalanced body ∧ braced 0 (body ++ '}' :: behind) = (body, behind)) ∧
      (¬∃ front rest, unclosed = front ++ '}' :: rest ∧ BracesBalanced front) ∧
        braced 0 unclosed = (unclosed, []) := by
  intro body behind unclosed
  have hbody : BracesBalanced body := by decide
  have hnone : ¬∃ front rest, unclosed = front ++ '}' :: rest ∧ BracesBalanced front := by
    rintro ⟨front, rest, htext, hbalanced⟩
    -- the front part would close as many braces as it opens, and then there is one more
    have hfront : front ++ ['}'] ∈ unclosed.inits := by
      rw [List.mem_inits, htext]
      exact ⟨rest, by simp⟩
    have hall : ∀ part ∈ unclosed.inits, part.count '}' ≤ part.count '{' := by decide
    have hle := hall _ hfront
    rw [List.count_append, List.count_append, hbalanced.2] at hle
    exact absurd hle (by simp)
  obtain ⟨hclosed, -⟩ := braced_exact (body ++ '}' :: behind)
  obtain ⟨-, hopen⟩ := braced_exact unclosed
  exact ⟨⟨hbody, (hclosed body behind rfl hbody).1⟩, hnone, (hopen hnone).1⟩

-- ---------------------------------------------------------------------------
-- Comments
-- ---------------------------------------------------------------------------

/-- A text that closes `depth + 1` open comments, the last of them with its last character. It is read
from left to right: a mark wherever one starts, and else a single character. -/
inductive ClosesComments : (depth : Nat) → List Char → Prop where
  | last : ClosesComments 0 ['-', '-', '>']
  | closing {depth : Nat} {cs : List Char} (h : ClosesComments depth cs) :
      ClosesComments (depth + 1) ('-' :: '-' :: '>' :: cs)
  | opening {depth : Nat} {cs : List Char} (h : ClosesComments (depth + 1) cs) :
      ClosesComments depth ('<' :: '!' :: '-' :: '-' :: cs)
  | skip {depth : Nat} {c : Char} {cs : List Char} (hopening : ¬['<', '!', '-', '-'] <+: c :: cs)
      (hclosing : ¬['-', '-', '>'] <+: c :: cs) (h : ClosesComments depth cs) :
      ClosesComments depth (c :: cs)

theorem ClosesComments.length {depth : Nat} {cs : List Char} (h : ClosesComments depth cs) :
    3 ≤ cs.length := by
  induction h with
  | last => simp
  | closing _ ih => simp
  | opening _ ih => simp
  | skip _ _ _ ih =>
    rw [List.length_cons]
    omega

/-- Where no mark starts, a single character is read. -/
theorem pastComment_skip {c : Char} {cs : List Char} (hopening : ¬['<', '!', '-', '-'] <+: c :: cs)
    (hclosing : ¬['-', '-', '>'] <+: c :: cs) (depth : Nat) :
    pastComment depth (c :: cs) = pastComment depth cs := by
  rw [pastComment]
  · rintro tail rfl htail
    exact hopening ⟨tail, by rw [htail]; rfl⟩
  · rintro tail - rfl htail
    exact hclosing ⟨tail, by rw [htail]; rfl⟩
  · rintro outer tail - rfl htail
    exact hclosing ⟨tail, by rw [htail]; rfl⟩

/-- What a comment goes on with behind its first character. -/
theorem pastComment_cons (depth : Nat) (c : Char) (cs : List Char) :
    pastComment depth (c :: cs) =
      if ['<', '!', '-', '-'] <+: c :: cs then pastComment (depth + 1) (cs.drop 3)
      else if ['-', '-', '>'] <+: c :: cs then
        match depth with
        | 0 => cs.drop 2
        | outer + 1 => pastComment outer (cs.drop 2)
      else pastComment depth cs := by
  by_cases hopening : ['<', '!', '-', '-'] <+: c :: cs
  · rw [if_pos hopening]
    obtain ⟨tail, htail⟩ := hopening
    obtain ⟨rfl, rfl⟩ := List.cons.inj htail
    simp [pastComment]
  · rw [if_neg hopening]
    by_cases hclosing : ['-', '-', '>'] <+: c :: cs
    · rw [if_pos hclosing]
      obtain ⟨tail, htail⟩ := hclosing
      obtain ⟨rfl, rfl⟩ := List.cons.inj htail
      cases depth with
      | zero => simp [pastComment]
      | succ outer => simp [pastComment]
    · rw [if_neg hclosing, pastComment_skip hopening hclosing]

/-- A text that closes the comments does so in front of any other text. -/
theorem pastComment_append {depth : Nat} {body : List Char} (h : ClosesComments depth body)
    (rest : List Char) : pastComment depth (body ++ rest) = rest := by
  induction h with
  | last => simp [pastComment]
  | closing _ ih => simpa [pastComment] using ih
  | opening _ ih => simpa [pastComment] using ih
  | @skip depth c cs hopening hclosing h ih =>
    have hlength := h.length
    -- the body is too long for a mark to reach from its front into the rest
    have hmark : ∀ mark : List Char, mark.length ≤ 4 → ¬mark <+: c :: cs →
        ¬mark <+: c :: (cs ++ rest) := by
      intro mark hshort hnot hmark
      refine hnot (List.prefix_of_prefix_length_le hmark ?_ ?_)
      · exact List.prefix_append (c :: cs) rest
      · rw [List.length_cons]
        omega
    rw [List.cons_append,
      pastComment_skip (hmark _ (by simp) hopening) (hmark _ (by simp) hclosing)]
    exact ih

/-- Inside comments, a text closes them, or nothing is left behind it. -/
theorem pastComment_cases (depth : Nat) (text : List Char) :
    (∃ body, text = body ++ pastComment depth text ∧ ClosesComments depth body) ∨
      pastComment depth text = [] := by
  fun_induction pastComment depth text with
  | case1 => exact Or.inr rfl
  | case2 depth cs ih =>
    refine ih.imp_left ?_
    rintro ⟨body, htext, hbody⟩
    exact ⟨'<' :: '!' :: '-' :: '-' :: body, congrArg (['<', '!', '-', '-'] ++ ·) htext,
      .opening hbody⟩
  | case3 cs => exact Or.inl ⟨['-', '-', '>'], rfl, .last⟩
  | case4 depth cs ih =>
    refine ih.imp_left ?_
    rintro ⟨body, htext, hbody⟩
    exact ⟨'-' :: '-' :: '>' :: body, congrArg (['-', '-', '>'] ++ ·) htext, .closing hbody⟩
  | case5 depth c cs hopening hlast hclosing ih =>
    refine ih.imp_left ?_
    rintro ⟨body, htext, hbody⟩
    refine ⟨c :: body, congrArg (c :: ·) htext, .skip ?_ ?_ hbody⟩
    · rintro ⟨tail, htail⟩
      obtain ⟨rfl, rfl⟩ := List.cons.inj htail
      exact hopening _ rfl htext
    · rintro ⟨tail, htail⟩
      obtain ⟨rfl, rfl⟩ := List.cons.inj htail
      cases depth with
      | zero => exact hlast _ rfl rfl htext
      | succ depth => exact hclosing depth _ rfl rfl htext

theorem pastComment_replace {cs more rest : List Char}
    (h : pastComment 0 (cs ++ more) = rest ++ more)
    (hclosed : rest ++ more = [] → ∃ body behind, cs = body ++ behind ∧ ClosesComments 0 body)
    (other : List Char) : pastComment 0 (cs ++ other) = rest ++ other := by
  have hbody : ∃ body, cs = body ++ rest ∧ ClosesComments 0 body := by
    rcases pastComment_cases 0 (cs ++ more) with ⟨body, htext, hbody⟩ | hnil
    · rw [h] at htext
      exact ⟨body, (List.append_left_inj more).1 (by simpa using htext), hbody⟩
    · rw [h] at hnil
      obtain ⟨body, behind, hcs, hbody⟩ := hclosed hnil
      rw [hcs, List.append_assoc, pastComment_append hbody] at h
      rw [List.append_cancel_right h] at hcs
      exact ⟨body, hcs, hbody⟩
  obtain ⟨body, hcs, hbody⟩ := hbody
  rw [hcs, List.append_assoc, pastComment_append hbody]

end Stencil.Source
