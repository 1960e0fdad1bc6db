import Mathlib.Data.List.Infix
import Stencil.Compile

/-!
# Which block comments are cut out

What cutting out block comments does to a source can be said of the source as a whole (`Stripped`). It
is cut at the first opening mark, at the first closing mark that begins behind that, and so on from
there, until no opening mark is left or one is never closed. Of what stands between the cuts every
other piece is kept, and the last one whole.

The marks can be looked for among the bytes of a source just as well (`cutOut`). A byte of a mark
stands for the character of the mark wherever it occurs, since the bytes of a longer character are
others. So the bytes that are left are those of the text that is left, and every cut is made between
two characters.

Main results:

* `stripped_iff`: the text that is left is the only one that the description allows;
* `stripBlockComments_eq_self_iff`: nothing is cut out exactly if no opening mark has a closing mark
  behind it;
* `firstPlace?_utf8`: a mark is found among the bytes where it stands among the characters;
* `stripBlockComments_exact`: both descriptions, of characters and of bytes.
-/

namespace Stencil

namespace Source

-- ---------------------------------------------------------------------------
-- Marks of two characters
-- ---------------------------------------------------------------------------

theorem pair_prefix_cons {α : Type} {x y c : α} {cs : List α} :
    [x, y] <+: c :: cs ↔ x = c ∧ cs.head? = some y := by
  rw [List.cons_prefix_cons]
  cases cs with
  | nil => simp
  | cons d ds => simp [eq_comm]

section Marks

variable {x y : Char}

/-- In front of the first mark no other one begins, not even with the start of that one. -/
theorem not_prefix_of_first {c : Char} {front : List Char} (h : ¬[x, y] <:+: c :: front ++ [x])
    (rest : List Char) : ¬[x, y] <+: c :: (front ++ x :: rest) ∧ ¬[x, y] <:+: front ++ [x] := by
  rw [List.cons_append, List.infix_cons_iff, not_or] at h
  refine ⟨fun hbegins => h.1 ?_, h.2⟩
  rw [pair_prefix_cons] at hbegins ⊢
  refine ⟨hbegins.1, ?_⟩
  rw [← hbegins.2]
  cases front <;> rfl

/-- A text has no mark or a first one. -/
theorem exists_first (x y : Char) (cs : List Char) : ¬[x, y] <:+: cs ∨
    ∃ front rest, cs = front ++ x :: y :: rest ∧ ¬[x, y] <:+: front ++ [x] := by
  induction cs with
  | nil => exact .inl (by simp)
  | cons c cs ih =>
    by_cases hbegins : [x, y] <+: c :: cs
    · obtain ⟨rest, hrest⟩ := hbegins
      refine .inr ⟨[], rest, hrest.symm, fun hmark => ?_⟩
      have hlength := hmark.length_le
      simp at hlength
    · rcases ih with hnone | ⟨front, rest, hcs, hfirst⟩
      · refine .inl fun hmark => ?_
        exact (List.infix_cons_iff.1 hmark).elim hbegins hnone
      · refine .inr ⟨c :: front, rest, by rw [hcs]; rfl, fun hmark => ?_⟩
        rw [List.cons_append, List.infix_cons_iff, pair_prefix_cons] at hmark
        refine hmark.elim (fun hmark => hbegins ?_) hfirst
        rw [pair_prefix_cons]
        refine ⟨hmark.1, ?_⟩
        rw [hcs, ← hmark.2]
        cases front <;> rfl

/-- No mark stands in front of the first one. -/
theorem prefix_of_first {front tail before behind : List Char} (h : ¬[x, y] <:+: front ++ [x])
    (heq : front ++ x :: tail = before ++ x :: y :: behind) : front <+: before := by
  induction front generalizing before with
  | nil => exact List.nil_prefix
  | cons c front ih =>
    obtain ⟨hbegins, hfirst⟩ := not_prefix_of_first h tail
    cases before with
    | nil => exact absurd ⟨behind, heq.symm⟩ hbegins
    | cons d before =>
      obtain ⟨rfl, htail⟩ := List.cons.inj heq
      exact (List.prefix_cons_inj c).2 (ih hfirst htail)

end Marks

-- ---------------------------------------------------------------------------
-- The closing mark
-- ---------------------------------------------------------------------------

theorem afterClose?_cons {c : Char} {cs : List Char} (h : ¬['*', '/'] <+: c :: cs) :
    afterClose? (c :: cs) = afterClose? cs := by
  rw [afterClose?]
  rintro rest rfl rfl
  exact h (List.prefix_append ['*', '/'] rest)

theorem afterClose?_append {body : List Char} (h : ¬['*', '/'] <:+: body ++ ['*'])
    (rest : List Char) : afterClose? (body ++ '*' :: '/' :: rest) = some rest := by
  induction body with
  | nil => rfl
  | cons c body ih =>
    obtain ⟨hbegins, hfirst⟩ := not_prefix_of_first h ('/' :: rest)
    rw [List.cons_append, afterClose?_cons hbegins, ih hfirst]

theorem afterClose?_eq_none {cs : List Char} (h : ¬['*', '/'] <:+: cs) :
    afterClose? cs = none := by
  induction cs with
  | nil => rfl
  | cons c cs ih =>
    rw [List.infix_cons_iff, not_or] at h
    rw [afterClose?_cons h.1, ih h.2]

-- ---------------------------------------------------------------------------
-- A source without its comments
-- ---------------------------------------------------------------------------

/-- One text is another one without its block comments. Each reaches from the first opening mark to
the first closing mark that begins behind that one, and the next is looked for behind it. An opening
mark that is not closed is kept, with all that follows. -/
inductive Stripped : List Char → List Char → Prop where
  | plain {cs : List Char} (hnone : ¬['/', '*'] <:+: cs) : Stripped cs cs
  | unclosed {front cs : List Char} (hfirst : ¬['/', '*'] <:+: front ++ ['/'])
      (hnone : ¬['*', '/'] <:+: cs) :
      Stripped (front ++ '/' :: '*' :: cs) (front ++ '/' :: '*' :: cs)
  | comment {front body rest out : List Char} (hfirst : ¬['/', '*'] <:+: front ++ ['/'])
      (hbody : ¬['*', '/'] <:+: body ++ ['*']) (hrest : Stripped rest out) :
      Stripped (front ++ '/' :: '*' :: (body ++ '*' :: '/' :: rest)) (front ++ out)

theorem stripBlockComments_cons {c : Char} {cs : List Char} (h : ¬['/', '*'] <+: c :: cs) :
    stripBlockComments (c :: cs) = c :: stripBlockComments cs := by
  rw [stripBlockComments]
  rintro rest rfl rfl
  exact h (List.prefix_append ['/', '*'] rest)

theorem stripBlockComments_of_none {cs : List Char} (h : ¬['/', '*'] <:+: cs) :
    stripBlockComments cs = cs := by
  induction cs with
  | nil => rw [stripBlockComments]
  | cons c cs ih =>
    rw [List.infix_cons_iff, not_or] at h
    rw [stripBlockComments_cons h.1, ih h.2]

/-- What stands in front of the first opening mark is kept. -/
theorem stripBlockComments_append {front : List Char} (h : ¬['/', '*'] <:+: front ++ ['/'])
    (rest : List Char) :
    stripBlockComments (front ++ '/' :: rest) = front ++ stripBlockComments ('/' :: rest) := by
  induction front with
  | nil => rfl
  | cons c front ih =>
    obtain ⟨hbegins, hfirst⟩ := not_prefix_of_first h rest
    rw [List.cons_append, stripBlockComments_cons hbegins, ih hfirst, List.cons_append]

theorem Stripped.eq {cs out : List Char} (h : Stripped cs out) : stripBlockComments cs = out := by
  induction h with
  | plain hnone => exact stripBlockComments_of_none hnone
  | unclosed hfirst hnone =>
    rw [stripBlockComments_append hfirst, stripBlockComments_of_open (afterClose?_eq_none hnone)]
  | comment hfirst hbody hrest ih =>
    rw [stripBlockComments_append hfirst,
      stripBlockComments_of_closed (afterClose?_append hbody _), ih]

/-- Every text can be cut up in this way. -/
theorem exists_stripped (cs : List Char) : ∃ out, Stripped cs out := by
  rcases exists_first '/' '*' cs with hnone | ⟨front, behind, rfl, hfirst⟩
  · exact ⟨cs, .plain hnone⟩
  · rcases exists_first '*' '/' behind with hnone | ⟨body, rest, rfl, hbody⟩
    · exact ⟨_, .unclosed hfirst hnone⟩
    · obtain ⟨out, hrest⟩ := exists_stripped rest
      exact ⟨front ++ out, .comment hfirst hbody hrest⟩
termination_by cs.length
decreasing_by
  subst_vars
  simp only [List.length_append, List.length_cons]
  omega

theorem stripped_iff {cs out : List Char} : Stripped cs out ↔ stripBlockComments cs = out := by
  constructor
  · exact Stripped.eq
  · rintro rfl
    obtain ⟨out, h⟩ := exists_stripped cs
    rwa [h.eq]

theorem Stripped.length_le {cs out : List Char} (h : Stripped cs out) : out.length ≤ cs.length := by
  induction h with
  | plain hnone => exact Nat.le_refl _
  | unclosed hfirst hnone => exact Nat.le_refl _
  | comment hfirst hbody hrest ih =>
    simp only [List.length_append, List.length_cons]
    omega

/-- If the first opening mark has no closing mark behind it, no other one has. -/
theorem not_closed_of_unclosed {front cs before body rest : List Char}
    (hfirst : ¬['/', '*'] <:+: front ++ ['/']) (hnone : ¬['*', '/'] <:+: cs) :
    front ++ '/' :: '*' :: cs ≠ before ++ '/' :: '*' :: (body ++ '*' :: '/' :: rest) := by
  intro heq
  obtain ⟨between, rfl⟩ := prefix_of_first hfirst heq
  rw [List.append_assoc, List.append_right_inj] at heq
  -- both marks are the same, or the second one starts behind the first
  have htail : body ++ '*' :: '/' :: rest <:+ cs := by
    rcases between with _ | ⟨c, _ | ⟨d, between⟩⟩
    · obtain ⟨-, htail⟩ := List.cons.inj heq
      rw [(List.cons.inj htail).2]
    · obtain ⟨-, htail⟩ := List.cons.inj heq
      exact absurd (List.cons.inj htail).1 (by decide)
    · obtain ⟨-, htail⟩ := List.cons.inj heq
      rw [(List.cons.inj htail).2]
      exact (List.suffix_append ['/', '*'] _).trans (List.suffix_append between _)
  have hmark : ['*', '/'] <:+: body ++ '*' :: '/' :: rest := ⟨body, rest, by simp⟩
  exact hnone (hmark.trans htail.isInfix)

/-- **Nothing is cut out** exactly if no opening mark has a closing mark behind it, one that does not
begin inside the opening mark. -/
theorem stripBlockComments_eq_self_iff {cs : List Char} : stripBlockComments cs = cs ↔
    ¬∃ front body rest, cs = front ++ '/' :: '*' :: (body ++ '*' :: '/' :: rest) := by
  have hstripped : Stripped cs (stripBlockComments cs) := stripped_iff.2 rfl
  generalize stripBlockComments cs = out at hstripped
  cases hstripped with
  | plain hnone =>
    refine ⟨fun _ => ?_, fun _ => rfl⟩
    rintro ⟨front, body, rest, rfl⟩
    exact hnone ⟨front, body ++ '*' :: '/' :: rest, by simp⟩
  | unclosed hfirst hnone =>
    refine ⟨fun _ => ?_, fun _ => rfl⟩
    rintro ⟨before, body, rest, heq⟩
    exact not_closed_of_unclosed hfirst hnone heq
  | @comment front body rest out hfirst hbody hrest =>
    refine ⟨fun hself => ?_, fun hnone => absurd ⟨front, body, rest, rfl⟩ hnone⟩
    have hle := hrest.length_le
    have hlength := congrArg List.length hself
    simp only [List.length_append, List.length_cons] at hlength
    omega

end Source

-- ---------------------------------------------------------------------------
-- Marks among bytes
-- ---------------------------------------------------------------------------

namespace Text

/-- The bytes of a text. -/
def utf8 (cs : List Char) : List UInt8 :=
  cs.flatMap String.utf8EncodeChar

theorem utf8_cons (c : Char) (cs : List Char) :
    utf8 (c :: cs) = String.utf8EncodeChar c ++ utf8 cs :=
  List.flatMap_cons

theorem utf8_append (front rest : List Char) : utf8 (front ++ rest) = utf8 front ++ utf8 rest :=
  List.flatMap_append

theorem length_utf8 (cs : List Char) : (utf8 cs).length = byteLength cs := by
  induction cs with
  | nil => rfl
  | cons c cs ih => rw [utf8_cons, List.length_append, String.length_utf8EncodeChar, ih,
      byteLength_cons]

theorem take_utf8 (front rest : List Char) :
    (utf8 (front ++ rest)).take (byteLength front) = utf8 front := by
  rw [utf8_append, ← length_utf8, List.take_left]

theorem drop_utf8 (front rest : List Char) :
    (utf8 (front ++ rest)).drop (byteLength front) = utf8 rest := by
  rw [utf8_append, ← length_utf8, List.drop_left]

/-- A byte below 128 is the whole of its character. -/
theorem utf8EncodeChar_of_mem {c : Char} {b : UInt8} (hb : b ∈ String.utf8EncodeChar c)
    (hlow : b.toNat < 128) : c.toNat = b.toNat ∧ String.utf8EncodeChar c = [b] := by
  rw [String.utf8EncodeChar] at hb ⊢
  have hval : c.val.toNat = c.toNat := rfl
  rw [hval] at hb ⊢
  split at hb
  · next hascii =>
    rw [List.mem_singleton] at hb
    rw [if_pos hascii, hb]
    refine ⟨?_, rfl⟩
    rw [UInt8.toNat_ofNat']
    omega
  · exfalso
    have hhigh : ∀ n, 128 ≤ n → n < 256 → b ≠ UInt8.ofNat n := by
      rintro n hle hlt rfl
      rw [UInt8.toNat_ofNat'] at hlow
      omega
    split at hb
    · simp only [List.mem_cons, List.not_mem_nil, or_false] at hb
      rcases hb with hb | hb
      all_goals exact hhigh _ (by omega) (by omega) hb
    · split at hb
      · simp only [List.mem_cons, List.not_mem_nil, or_false] at hb
        rcases hb with hb | hb | hb
        all_goals exact hhigh _ (by omega) (by omega) hb
      · simp only [List.mem_cons, List.not_mem_nil, or_false] at hb
        rcases hb with hb | hb | hb | hb
        all_goals exact hhigh _ (by omega) (by omega) hb

theorem utf8EncodeChar_of_lt {c : Char} (hc : c.toNat < 128) :
    String.utf8EncodeChar c = [UInt8.ofNat c.toNat] := by
  have hval : c.val.toNat = c.toNat := rfl
  rw [String.utf8EncodeChar, hval, if_pos (Nat.le_of_lt_succ hc)]

/-- A character of one byte is in a text where its byte is. -/
theorem ofNat_mem_utf8EncodeChar_iff {c d : Char} (hc : c.toNat < 128) :
    UInt8.ofNat c.toNat ∈ String.utf8EncodeChar d ↔ c = d := by
  have hbyte : (UInt8.ofNat c.toNat).toNat = c.toNat := by
    rw [UInt8.toNat_ofNat']
    omega
  constructor
  · intro hmem
    obtain ⟨hd, -⟩ := utf8EncodeChar_of_mem hmem (by rw [hbyte]; exact hc)
    rw [← Char.toNat_inj, hd, hbyte]
  · rintro rfl
    rw [utf8EncodeChar_of_lt hc]
    exact List.mem_singleton_self _

/-- The place of the first occurrence of a mark. -/
def firstPlace? (mark : List UInt8) : List UInt8 → Option Nat
  | [] => none
  | b :: bytes => if mark <+: b :: bytes then some 0 else (firstPlace? mark bytes).map (· + 1)

theorem firstPlace?_lt {mark bytes : List UInt8} {place : Nat}
    (h : firstPlace? mark bytes = some place) : place < bytes.length := by
  induction bytes generalizing place with
  | nil => cases h
  | cons b bytes ih =>
    rw [firstPlace?] at h
    split at h
    · obtain rfl := Option.some.inj h
      exact Nat.succ_pos _
    · obtain ⟨before, hbefore, rfl⟩ := Option.map_eq_some_iff.1 h
      exact Nat.succ_lt_succ (ih hbefore)

/-- Bytes that cannot start a mark are passed over. -/
theorem firstPlace?_append {x : UInt8} {front : List UInt8} (h : x ∉ front)
    (mark bytes : List UInt8) : firstPlace? (x :: mark) (front ++ bytes) =
      (firstPlace? (x :: mark) bytes).map (· + front.length) := by
  induction front with
  | nil => exact Option.map_id'.symm
  | cons b front ih =>
    rw [List.mem_cons, not_or] at h
    obtain ⟨hb, hfront⟩ := h
    have hbegins : ¬x :: mark <+: b :: (front ++ bytes) := by
      rw [List.cons_prefix_cons]
      exact fun hbegins => hb hbegins.1
    rw [List.cons_append, firstPlace?, if_neg hbegins, ih hfront, Option.map_map]
    rfl

theorem head?_utf8 {x : Char} (hx : x.toNat < 128) (cs : List Char) :
    (utf8 cs).head? = some (UInt8.ofNat x.toNat) ↔ cs.head? = some x := by
  cases cs with
  | nil => exact iff_of_false (fun h => nomatch h) fun h => nomatch h
  | cons c cs =>
    obtain ⟨b, bytes, hbytes⟩ := List.exists_cons_of_ne_nil (@String.utf8EncodeChar_ne_nil c)
    rw [utf8_cons, hbytes, List.cons_append, List.head?_cons, List.head?_cons]
    constructor
    · intro h
      have hmem : UInt8.ofNat x.toNat ∈ String.utf8EncodeChar c := by
        rw [hbytes, ← Option.some.inj h]
        exact List.mem_cons_self
      rw [(ofNat_mem_utf8EncodeChar_iff hx).1 hmem]
    · intro h
      rw [Option.some.inj h, utf8EncodeChar_of_lt hx] at hbytes
      rw [(List.cons.inj hbytes).1]

section

variable {x y : Char} (hx : x.toNat < 128) (hy : y.toNat < 128)

include hx hy

theorem utf8_pair : utf8 [x, y] = [UInt8.ofNat x.toNat, UInt8.ofNat y.toNat] := by
  rw [utf8_cons, utf8_cons, utf8EncodeChar_of_lt hx, utf8EncodeChar_of_lt hy]
  rfl

/-- Behind a mark there are two bytes more than in front of it. -/
theorem byteLength_append_pair (front : List Char) :
    byteLength (front ++ [x, y]) = byteLength front + 2 := by
  rw [byteLength_append, ← length_utf8 [x, y], utf8_pair hx hy]
  rfl

theorem drop_utf8_pair (front rest : List Char) :
    (utf8 (front ++ x :: y :: rest)).drop (byteLength front + 2) = utf8 rest := by
  have hsplit : front ++ x :: y :: rest = (front ++ [x, y]) ++ rest := by simp
  rw [← byteLength_append_pair hx hy, hsplit, drop_utf8]

/-- A mark begins among the bytes of a text where it begins in the text. -/
theorem utf8_pair_prefix_iff (c : Char) (cs : List Char) :
    utf8 [x, y] <+: utf8 (c :: cs) ↔ [x, y] <+: c :: cs := by
  rw [utf8_pair hx hy]
  by_cases hc : x = c
  · subst hc
    rw [utf8_cons, utf8EncodeChar_of_lt hx, List.singleton_append, Source.pair_prefix_cons,
      Source.pair_prefix_cons, head?_utf8 hy]
    simp
  · refine iff_of_false ?_ fun hbegins => hc (Source.pair_prefix_cons.1 hbegins).1
    rintro ⟨rest, hrest⟩
    have hhead : (utf8 (c :: cs)).head? = some (UInt8.ofNat x.toNat) := by
      rw [← hrest]
      rfl
    exact hc (Option.some.inj ((head?_utf8 hx _).1 hhead)).symm

theorem firstPlace?_utf8_cons (c : Char) (cs : List Char) :
    firstPlace? (utf8 [x, y]) (utf8 (c :: cs)) =
      if [x, y] <+: c :: cs then some 0
      else (firstPlace? (utf8 [x, y]) (utf8 cs)).map (· + c.utf8Size) := by
  have hbytes := utf8_pair_prefix_iff hx hy c cs
  by_cases hc : x = c
  · subst hc
    have hsize : x.utf8Size = 1 := by
      rw [← String.length_utf8EncodeChar, utf8EncodeChar_of_lt hx]
      rfl
    rw [utf8_cons x cs, utf8EncodeChar_of_lt hx, List.singleton_append] at hbytes
    rw [utf8_cons x cs, utf8EncodeChar_of_lt hx, List.singleton_append, firstPlace?, hsize]
    exact if_congr hbytes rfl rfl
  · have hbegins : ¬[x, y] <+: c :: cs := fun hbegins => hc (Source.pair_prefix_cons.1 hbegins).1
    have hfront : UInt8.ofNat x.toNat ∉ String.utf8EncodeChar c := fun hmem =>
      hc ((ofNat_mem_utf8EncodeChar_iff hx).1 hmem)
    rw [if_neg hbegins, utf8_cons c cs, utf8_pair hx hy, firstPlace?_append hfront,
      String.length_utf8EncodeChar]

/-- **The first mark of a text** is found behind the bytes of what stands in front of it. -/
theorem firstPlace?_utf8 {front : List Char} (h : ¬[x, y] <:+: front ++ [x]) (rest : List Char) :
    firstPlace? (utf8 [x, y]) (utf8 (front ++ x :: y :: rest)) = some (byteLength front) := by
  induction front with
  | nil =>
    have hbegins : [x, y] <+: x :: y :: rest := List.prefix_append [x, y] rest
    rw [List.nil_append, firstPlace?_utf8_cons hx hy, if_pos hbegins]
    rfl
  | cons c front ih =>
    obtain ⟨hbegins, hfirst⟩ := Source.not_prefix_of_first h (y :: rest)
    rw [List.cons_append, firstPlace?_utf8_cons hx hy, if_neg hbegins, ih hfirst, Option.map_some,
      byteLength_cons, Nat.add_comm]

theorem firstPlace?_utf8_eq_none {cs : List Char} (h : ¬[x, y] <:+: cs) :
    firstPlace? (utf8 [x, y]) (utf8 cs) = none := by
  induction cs with
  | nil => rfl
  | cons c cs ih =>
    rw [List.infix_cons_iff, not_or] at h
    rw [firstPlace?_utf8_cons hx hy, if_neg h.1, ih h.2, Option.map_none]

end

end Text

-- ---------------------------------------------------------------------------
-- Cutting bytes
-- ---------------------------------------------------------------------------

namespace Source

open Text (utf8 firstPlace? byteLength)

/-- Cuts the block comments out of the bytes behind `passed` others: where each comment starts and
ends, and the bytes that are left. The closing mark is looked for behind both bytes of the opening
one. -/
def cutOut (passed : Nat) (bytes : List UInt8) : List (Nat × Nat) × List UInt8 :=
  match _h : firstPlace? (utf8 ['/', '*']) bytes with
  | none => ([], bytes)
  | some opening =>
    match firstPlace? (utf8 ['*', '/']) (bytes.drop (opening + 2)) with
    | none => ([], bytes)
    | some inside =>
      let others := cutOut (passed + (opening + 2 + inside + 2))
        (bytes.drop (opening + 2 + inside + 2))
      ((passed + opening, passed + (opening + 2 + inside + 2)) :: others.1,
        bytes.take opening ++ others.2)
termination_by bytes.length
decreasing_by
  have hlt := Text.firstPlace?_lt _h
  rw [List.length_drop]
  omega

theorem cutOut_of_none {passed : Nat} {bytes : List UInt8}
    (h : firstPlace? (utf8 ['/', '*']) bytes = none) : cutOut passed bytes = ([], bytes) := by
  rw [cutOut]
  split
  · rfl
  · next h' =>
    rw [h] at h'
    cases h'

theorem cutOut_of_unclosed {passed opening : Nat} {bytes : List UInt8}
    (h : firstPlace? (utf8 ['/', '*']) bytes = some opening)
    (hnone : firstPlace? (utf8 ['*', '/']) (bytes.drop (opening + 2)) = none) :
    cutOut passed bytes = ([], bytes) := by
  rw [cutOut]
  split
  · rfl
  · next h' =>
    obtain rfl := Option.some.inj (h.symm.trans h')
    rw [hnone]

theorem cutOut_of_closed {passed opening inside behind : Nat} {bytes : List UInt8}
    (h : firstPlace? (utf8 ['/', '*']) bytes = some opening)
    (hclosed : firstPlace? (utf8 ['*', '/']) (bytes.drop (opening + 2)) = some inside)
    (hbehind : opening + 2 + inside + 2 = behind) :
    cutOut passed bytes =
      ((passed + opening, passed + behind) :: (cutOut (passed + behind) (bytes.drop behind)).1,
        bytes.take opening ++ (cutOut (passed + behind) (bytes.drop behind)).2) := by
  subst hbehind
  rw [cutOut]
  split
  · next h' =>
    rw [h] at h'
    cases h'
  · next h' =>
    obtain rfl := Option.some.inj (h.symm.trans h')
    rw [hclosed]

/-- A place between two characters of a text, or at one of its ends. -/
def IsBoundary (text : List Char) (place : Nat) : Prop :=
  ∃ front behind, text = front ++ behind ∧ byteLength front = place

/-- **Cutting the bytes of a text** leaves the bytes of the text without its comments, and cuts
between characters alone. -/
theorem Stripped.cutOut_utf8 {cs out : List Char} (h : Stripped cs out) (before : List Char) :
    (cutOut (byteLength before) (utf8 cs)).2 = utf8 out ∧
      ∀ cut ∈ (cutOut (byteLength before) (utf8 cs)).1,
        IsBoundary (before ++ cs) cut.1 ∧ IsBoundary (before ++ cs) cut.2 := by
  have hslash : '/'.toNat < 128 := by decide
  have hstar : '*'.toNat < 128 := by decide
  induction h generalizing before with
  | plain hnone =>
    rw [cutOut_of_none (Text.firstPlace?_utf8_eq_none hslash hstar hnone)]
    exact ⟨rfl, List.forall_mem_nil _⟩
  | @unclosed front cs hfirst hnone =>
    have hopening := Text.firstPlace?_utf8 hslash hstar hfirst cs
    have hclosing := Text.firstPlace?_utf8_eq_none hstar hslash hnone
    rw [← Text.drop_utf8_pair hslash hstar front cs] at hclosing
    rw [cutOut_of_unclosed hopening hclosing]
    exact ⟨rfl, List.forall_mem_nil _⟩
  | @comment front body rest out hfirst hbody hrest ih =>
    have hopening := Text.firstPlace?_utf8 hslash hstar hfirst (body ++ '*' :: '/' :: rest)
    have hinside := Text.drop_utf8_pair hslash hstar front (body ++ '*' :: '/' :: rest)
    have hclosing := Text.firstPlace?_utf8 hstar hslash hbody rest
    rw [← hinside] at hclosing
    -- the comment, and all that stands in front of it
    let passed := before ++ ((front ++ ['/', '*']) ++ (body ++ ['*', '/']))
    have hpassed : byteLength passed =
        byteLength before + (byteLength front + 2 + (byteLength body + 2)) := by
      rw [Text.byteLength_append, Text.byteLength_append,
        Text.byteLength_append_pair hslash hstar, Text.byteLength_append_pair hstar hslash]
    have hrestBytes : (utf8 (front ++ '/' :: '*' :: (body ++ '*' :: '/' :: rest))).drop
        (byteLength front + 2 + (byteLength body + 2)) = utf8 rest := by
      rw [← List.drop_drop, hinside, Text.drop_utf8_pair hstar hslash]
    have htext : before ++ (front ++ '/' :: '*' :: (body ++ '*' :: '/' :: rest)) =
        passed ++ rest := by simp [passed]
    obtain ⟨hleft, hcuts⟩ := ih passed
    rw [hpassed] at hleft hcuts
    rw [cutOut_of_closed hopening hclosing (Nat.add_assoc _ _ 2), Text.take_utf8, hrestBytes, hleft,
      Text.utf8_append]
    refine ⟨rfl, List.forall_mem_cons.2 ⟨⟨?_, ?_⟩, ?_⟩⟩
    · refine ⟨before ++ front, _, (List.append_assoc _ _ _).symm, ?_⟩
      exact Text.byteLength_append before front
    · exact ⟨passed, rest, htext, hpassed⟩
    · rw [htext]
      exact hcuts

end Source

-- ---------------------------------------------------------------------------
-- Sources
-- ---------------------------------------------------------------------------

open Source (Stripped stripBlockComments cutOut IsBoundary)

/-- A boundary is a valid position of the string. -/
theorem Source.IsBoundary.isValid {source : String} {place : Nat}
    (h : IsBoundary source.toList place) : (⟨place⟩ : String.Pos.Raw).IsValid source := by
  obtain ⟨front, behind, htext, rfl⟩ := h
  rw [← String.ofList_toList (s := source), htext]
  exact Text.isValid_byteLength front behind

/-- **Block comments are cut out exactly.** What is left of a source is the only text that the
description by first marks allows, and nothing is cut out exactly if no opening mark has a closing mark
behind it. Looking for the marks among the bytes of the source leaves the same text, and every cut is
made at a valid position. -/
theorem stripBlockComments_exact (source : String) :
    (∀ out, Stripped source.toList out ↔ stripBlockComments source.toList = out) ∧
      (stripBlockComments source.toList = source.toList ↔ ¬∃ front body rest,
        source.toList = front ++ '/' :: '*' :: (body ++ '*' :: '/' :: rest)) ∧
      (cutOut 0 (Text.utf8 source.toList)).2 = Text.utf8 (stripBlockComments source.toList) ∧
      ∀ cut ∈ (cutOut 0 (Text.utf8 source.toList)).1,
        (⟨cut.1⟩ : String.Pos.Raw).IsValid source ∧ (⟨cut.2⟩ : String.Pos.Raw).IsValid source := by
  have hstripped : Stripped source.toList (stripBlockComments source.toList) :=
    Source.stripped_iff.2 rfl
  obtain ⟨hbytes, hcuts⟩ := hstripped.cutOut_utf8 []
  refine ⟨fun out => Source.stripped_iff, Source.stripBlockComments_eq_self_iff, hbytes, ?_⟩
  intro cut hcut
  obtain ⟨hstart, hend⟩ := hcuts cut hcut
  exact ⟨hstart.isValid, hend.isValid⟩

/-- Marks that share a character, and characters of several bytes around them; the last opening mark
is not closed. -/
theorem stripBlockComments_exact_overlapping :
    let source := "é/*/ü*/*/ /**/x/*/"
    stripBlockComments source.toList = "é*/ x/*/".toList ∧
      (2, 9) ∈ (cutOut 0 (Text.utf8 source.toList)).1 ∧
      (⟨2⟩ : String.Pos.Raw).IsValid source ∧ (⟨9⟩ : String.Pos.Raw).IsValid source := by
  intro source
  obtain ⟨-, -, -, hcuts⟩ := stripBlockComments_exact source
  have hcut : (2, 9) ∈ (cutOut 0 (Text.utf8 source.toList)).1 := by decide +kernel
  exact ⟨by decide +kernel, hcut, hcuts _ hcut⟩

end Stencil
