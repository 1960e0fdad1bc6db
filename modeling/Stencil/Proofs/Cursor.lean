import Mathlib.Data.String.Basic
import Stencil.Proofs.BlockComments
import Stencil.Proofs.SelfClosing

/-!
# Reading with a cursor

The readers of a source work on the text that is left to read, so they cannot lose their place. This
module reads the same with means that could fail. A cursor hands out the characters with their places,
and what was read is sliced out of the source between two places; the depth of braces and comments is
kept in counters that go up and down; a loop takes turns until one of them leaves it. So a slice may
have its ends in the wrong order or inside a character, a counter may be taken below zero, and a loop
may go on without having read anything (`Fault`).

None of this happens. In front of any last part of a source (`Cursor.before`) each reader with a
cursor reads what the plain reader reads, and leaves the cursor in front of what the plain reader
leaves.

Main results:

* `slice_before`: what lies between two places that a cursor comes to can be sliced out;
* `Cursor.attributesTurn_before`, `Cursor.bareTurn_before`, `Cursor.commentTurn_before`: what a turn
  of a loop does;
* `Cursor.readItem_before`: with a cursor an item is read as it is without.
-/

namespace Stencil

theorem Text.utf8Len_eq_byteLength (cs : List Char) : String.utf8Len cs = byteLength cs := by
  induction cs with
  | nil => rfl
  | cons c cs ih => rw [String.utf8Len_cons, byteLength_cons, ih, Nat.add_comm]

namespace Source

-- ---------------------------------------------------------------------------
-- Faults
-- ---------------------------------------------------------------------------

/-- What a scan with a cursor could come to grief over. -/
inductive Fault where
  /-- A slice that ends before it starts, or that starts or ends inside a character or past the end. -/
  | slice (start stop : Nat)
  /-- A counter that is taken below zero. -/
  | counter
  /-- A turn that goes on with the loop and has not read a character. -/
  | stuck
deriving DecidableEq, Repr

/-- A scan goes on with what was read without a fault. -/
theorem Fault.ok_bind {α β : Type} (read : α) (next : α → Except Fault β) :
    (Except.ok read >>= next) = next read := rfl

/-- The text between two places of a source. -/
def slice (source : String) (start stop : Nat) : Except Fault String :=
  if start ≤ stop ∧ (⟨start⟩ : String.Pos.Raw).IsValid source ∧
      (⟨stop⟩ : String.Pos.Raw).IsValid source then
    .ok (String.Pos.Raw.extract source ⟨start⟩ ⟨stop⟩)
  else .error (.slice start stop)

/-- Takes a counter down by one. -/
def lower : Nat → Except Fault Nat
  | 0 => .error .counter
  | count + 1 => .ok count

-- ---------------------------------------------------------------------------
-- Cursors
-- ---------------------------------------------------------------------------

/-- The characters still to be read, each with its place. -/
abbrev Cursor := List (Nat × Char)

/-- The place at which the last part `rest` of a source begins. -/
def placeOf (source : String) (rest : List Char) : Nat :=
  source.utf8ByteSize - Text.byteLength rest

theorem placeOf_of_append {source : String} {front rest : List Char}
    (h : front ++ rest = source.toList) : placeOf source rest = Text.byteLength front := by
  rw [placeOf, ← Text.byteLength_toList, ← h, Text.byteLength_append]
  exact Nat.add_sub_cancel _ _

/-- Reading on adds the bytes of what was read to the place. -/
theorem placeOf_consumed {source : String} {rest last : List Char} (h : rest <:+ source.toList)
    (hlast : last <:+ rest) :
    placeOf source rest + Text.byteLength (consumed rest last) = placeOf source last := by
  obtain ⟨front, hfront⟩ := h
  obtain ⟨middle, rfl⟩ := hlast
  have hbehind : (front ++ middle) ++ last = source.toList := by rw [List.append_assoc, hfront]
  rw [consumed_eq rfl, placeOf_of_append hfront, placeOf_of_append hbehind, Text.byteLength_append]

/-- A last part of a source begins between two characters, or at one of the ends. -/
theorem isValid_placeOf {source : String} {rest : List Char} (h : rest <:+ source.toList) :
    (⟨placeOf source rest⟩ : String.Pos.Raw).IsValid source := by
  obtain ⟨front, hfront⟩ := h
  have hvalid := Text.isValid_byteLength front rest
  rw [hfront, String.ofList_toList] at hvalid
  rw [placeOf_of_append hfront]
  exact hvalid

namespace Cursor

/-- The characters of a text with `place` bytes in front of it. -/
def behind (place : Nat) : List Char → Cursor
  | [] => []
  | c :: cs => (place, c) :: behind (place + c.utf8Size) cs

def start (source : String) : Cursor :=
  behind 0 source.toList

/-- The cursor in front of the last part `rest` of a source. -/
def before (source : String) (rest : List Char) : Cursor :=
  behind (placeOf source rest) rest

/-- Where a cursor stands: at the next character, or at the end. -/
def place (source : String) : Cursor → Nat
  | [] => source.utf8ByteSize
  | (place, _) :: _ => place

/-- A cursor is ahead of another one if at least the character there has been read since, and the
cursor did not go back. -/
def IsAheadOf (next cursor : Cursor) : Prop :=
  cursor ≠ [] ∧ next <:+ cursor.tail

theorem IsAheadOf.length_lt {next cursor : Cursor} (h : next.IsAheadOf cursor) :
    next.length < cursor.length := by
  obtain ⟨hne, hsuffix⟩ := h
  have hle := hsuffix.length_le
  have hpos := List.length_pos_iff.2 hne
  rw [List.length_tail] at hle
  omega

theorem IsAheadOf.suffix {next cursor : Cursor} (h : next.IsAheadOf cursor) : next <:+ cursor :=
  h.2.trans (List.tail_suffix cursor)

end Cursor

-- ---------------------------------------------------------------------------
-- Loops
-- ---------------------------------------------------------------------------

/-- How a turn of a loop ends. -/
inductive Turn (σ : Type) where
  | leave (state : σ)
  | again (state : σ)
deriving DecidableEq, Repr

/-- A turn never takes the cursor back, and one that goes on with the loop has read a character. -/
def Turn.Advances {σ : Type} (cursor : σ → Cursor) (state : σ) : Turn σ → Prop
  | leave next => cursor next <:+ cursor state
  | again next => (cursor next).IsAheadOf (cursor state)

section

variable {σ : Type} (cursor : σ → Cursor) (turn : σ → Except Fault (Turn σ))

/-- Takes turns until one leaves the loop. Each turn that does not has to read something. -/
def loop (state : σ) : Except Fault σ :=
  match turn state with
  | .error fault => .error fault
  | .ok (.leave next) => .ok next
  | .ok (.again next) =>
    if _h : (cursor next).length < (cursor state).length then loop next else .error .stuck
termination_by (cursor state).length

variable {cursor turn} {state next : σ}

theorem loop_of_leave (h : turn state = .ok (.leave next)) : loop cursor turn state = .ok next := by
  rw [loop, h]

theorem loop_of_again (h : turn state = .ok (.again next))
    (hahead : (cursor next).IsAheadOf (cursor state)) :
    loop cursor turn state = loop cursor turn next := by
  have hlt := hahead.length_lt
  rw [loop, h]
  exact dif_pos hlt

end

-- ---------------------------------------------------------------------------
-- The readers
-- ---------------------------------------------------------------------------

namespace Cursor

variable (source : String)

/-- The characters of a kind from the cursor on. -/
def readWhile (p : Char → Bool) (cursor : Cursor) : Except Fault (String × Cursor) := do
  let behind := cursor.dropWhile fun next => p next.2
  let run ← slice source (place source cursor) (place source behind)
  return (run, behind)

/-- The place of the first `stop`, or the end, and the cursor behind it. -/
def seek (stop : Char) : Cursor → Nat × Cursor
  | [] => (source.utf8ByteSize, [])
  | (place, c) :: cursor => if c = stop then (place, cursor) else seek stop cursor

def readUpTo (stop : Char) (cursor : Cursor) : Except Fault (String × Cursor) := do
  let found := seek source stop cursor
  let stretch ← slice source (place source cursor) found.1
  return (stretch, found.2)

/-- The place of the brace that closes the outermost of `depth + 1` open ones, or the end, and the
cursor behind it. -/
def seekBrace : (depth : Nat) → Cursor → Except Fault (Nat × Cursor)
  | _, [] => .ok (source.utf8ByteSize, [])
  | depth, (place, c) :: cursor =>
    if c = '{' then seekBrace (depth + 1) cursor
    else if c = '}' then
      if depth = 0 then .ok (place, cursor)
      else do
        let outer ← lower depth
        seekBrace outer cursor
    else seekBrace depth cursor

def readBraced (cursor : Cursor) : Except Fault (String × Cursor) := do
  let found ← seekBrace source 0 cursor
  let inner ← slice source (place source cursor) found.1
  return (inner, found.2)

/-- A turn of the loop behind the opening mark of a comment. The counter has the comments that are
open. -/
def commentTurn : Nat × Cursor → Except Fault (Turn (Nat × Cursor))
  | (depth, []) => .ok (.leave (depth, []))
  | (depth, (place, _) :: cursor) => do
    let rest ← slice source place source.utf8ByteSize
    if ['<', '!', '-', '-'] <+: rest.toList then
      return .again (depth + 1, cursor.drop 3)
    else if ['-', '-', '>'] <+: rest.toList then
      let outer ← lower depth
      return if outer = 0 then .leave (outer, cursor.drop 2) else .again (outer, cursor.drop 2)
    else
      return .again (depth, cursor)

def pastComment (cursor : Cursor) : Except Fault Cursor := do
  let ended ← loop Prod.snd (commentTurn source) (1, cursor)
  return ended.2

/-- A turn of the loop along a value without quotes. -/
def bareTurn : Cursor → Except Fault (Turn Cursor)
  | [] => .ok (.leave [])
  | (place, c) :: cursor =>
    if Text.isBlank c || c == '>' then .ok (.leave ((place, c) :: cursor))
    else if c = '/' then do
      let rest ← slice source place source.utf8ByteSize
      return if ['/', '>'] <+: rest.toList then .leave ((place, c) :: cursor) else .again cursor
    else .ok (.again cursor)

/-- Reads one character if it is of a kind. -/
def nextIf (p : Char → Bool) : Cursor → Cursor
  | [] => []
  | (place, c) :: cursor => if p c then cursor else (place, c) :: cursor

def readBare (cursor : Cursor) : Except Fault (String × Cursor) := do
  let behind ← loop id (bareTurn source) cursor
  let bare ← slice source (place source cursor) (place source behind)
  return (bare, nextIf Text.isBlank behind)

/-- The value behind an equals sign. -/
def readValue : Cursor → Except Fault (AttrValue × Cursor)
  | [] => do
    let bare ← readBare source []
    return (.literal bare.1, bare.2)
  | (place, c) :: cursor =>
    if c == '"' || c == '\'' then do
      let quoted ← readUpTo source c cursor
      return (.literal quoted.1, quoted.2)
    else if c == '{' then do
      let inner ← readBraced source cursor
      return (.expression (Expression.ofSource inner.1), inner.2)
    else do
      let bare ← readBare source ((place, c) :: cursor)
      return (.literal bare.1, bare.2)

def readAttribute (cursor : Cursor) : Except Fault (Attribute × Cursor) := do
  let name ← readWhile source isNameChar cursor
  match name.2 with
  | (_, '=') :: cursor =>
    let given ← readValue source cursor
    return (⟨name.1, given.1⟩, given.2)
  | cursor => return (⟨name.1, .literal ""⟩, cursor)

/-- A turn of the loop along the attributes of a tag. -/
def attributesTurn : List Attribute × Cursor → Except Fault (Turn (List Attribute × Cursor))
  | (attrs, []) => .ok (.leave (attrs, []))
  | (attrs, (place, c) :: cursor) =>
    if c = '/' ∨ c = '>' then .ok (.leave (attrs, (place, c) :: cursor))
    else if Text.isBlank c then .ok (.again (attrs, cursor))
    else do
      let found ← readAttribute source ((place, c) :: cursor)
      return .again (attrs ++ [found.1], found.2)

def readAttributes (cursor : Cursor) : Except Fault (List Attribute × Cursor) :=
  loop Prod.snd (attributesTurn source) ([], cursor)

/-- The attributes behind the name of a tag. They are not looked for where the tag ends. -/
def readTagAttributes : Cursor → Except Fault (List Attribute × Cursor)
  | [] => .ok ([], [])
  | (place, c) :: cursor =>
    if Text.isBlank c || c == '=' then readAttributes source ((place, c) :: cursor)
    else .ok ([], (place, c) :: cursor)

/-- The end of a tag, behind its attributes. -/
def endTag (tag : String) (attrs : List Attribute) : Cursor → Item × Cursor
  | [] => (.leaf tag attrs, [])
  | (_, c) :: cursor =>
    if c = '/' then (.leaf tag attrs, nextIf (· == '>') cursor) else (.opening tag attrs, cursor)

/-- The tag behind a `<`. -/
def readTag (cursor : Cursor) : Except Fault (Item × Cursor) := do
  let name ← readWhile source isNameChar cursor
  let attrs ← readTagAttributes source name.2
  return endTag name.1 attrs.1 attrs.2

/-- The item that starts with the character `c` at a place, in front of the cursor. -/
def readItem (place : Nat) (c : Char) (cursor : Cursor) : Except Fault (Item × Cursor) := do
  let rest ← slice source place source.utf8ByteSize
  if ['<', '!', '-', '-'] <+: rest.toList then
    let behind ← pastComment source (cursor.drop 3)
    return (.comment, behind)
  else if ['<', '/'] <+: rest.toList then
    let name ← readUpTo source '>' (cursor.drop 1)
    return (.closing (String.ofList (Text.trim name.1.toList)), name.2)
  else if c = '<' then readTag source cursor
  else if c = '{' then
    let inner ← readBraced source cursor
    return (.binding (Expression.ofSource inner.1), inner.2)
  else
    let run ← readWhile source (· != '<') ((place, c) :: cursor)
    return (if run.1.toList.all Text.isBlank then .blank
      else .text (String.ofList (Text.escaped run.1.toList)), run.2)

-- ---------------------------------------------------------------------------
-- In front of a last part of the source
-- ---------------------------------------------------------------------------

variable {source} {rest : List Char}

theorem start_eq_before (source : String) : start source = before source source.toList := by
  rw [start, before, placeOf, Text.byteLength_toList, Nat.sub_self]

theorem before_nil (source : String) : before source [] = [] := rfl

theorem before_cons {c : Char} {cs : List Char} (h : c :: cs <:+ source.toList) :
    before source (c :: cs) = (placeOf source (c :: cs), c) :: before source cs := by
  have hplace := placeOf_consumed h (List.suffix_cons c cs)
  have hconsumed : consumed (c :: cs) cs = [c] := consumed_eq rfl
  rw [hconsumed, Text.byteLength_cons, Text.byteLength_nil, Nat.add_zero] at hplace
  rw [before, behind, hplace, before]

theorem place_before (h : rest <:+ source.toList) :
    place source (before source rest) = placeOf source rest := by
  cases rest with
  | nil => rfl
  | cons c cs => rw [before_cons h, place]

theorem map_snd_before (source : String) (rest : List Char) :
    (before source rest).map Prod.snd = rest := by
  have hbehind : ∀ (cs : List Char) (place : Nat), (behind place cs).map Prod.snd = cs := by
    intro cs
    induction cs with
    | nil => intro place; rfl
    | cons c cs ih => intro place; exact congrArg (c :: ·) (ih _)
  exact hbehind rest _

theorem drop_before (h : rest <:+ source.toList) (count : Nat) :
    (before source rest).drop count = before source (rest.drop count) := by
  induction count generalizing rest with
  | zero => rfl
  | succ count ih =>
    cases rest with
    | nil => rfl
    | cons c cs =>
      rw [before_cons h, List.drop_succ_cons, List.drop_succ_cons]
      exact ih ((List.suffix_cons c cs).trans h)

theorem before_suffix {last : List Char} (h : rest <:+ source.toList) (hlast : last <:+ rest) :
    before source last <:+ before source rest := by
  obtain ⟨front, rfl⟩ := hlast
  have hdrop := drop_before h front.length
  rw [List.drop_left] at hdrop
  rw [← hdrop]
  exact List.drop_suffix _ _

/-- Reading a character, and whatever else, brings the cursor ahead. -/
theorem before_isAheadOf {c : Char} {cs last : List Char} (h : c :: cs <:+ source.toList)
    (hlast : last <:+ cs) : (before source last).IsAheadOf (before source (c :: cs)) := by
  rw [before_cons h]
  exact ⟨List.cons_ne_nil _ _, before_suffix ((List.suffix_cons c cs).trans h) hlast⟩

/-- A cursor that has come some way stands in front of a last part of the source. -/
theorem exists_before {cursor : Cursor} (h : cursor <:+ start source) :
    ∃ rest, rest <:+ source.toList ∧ cursor = before source rest := by
  obtain ⟨passed, hpassed⟩ := h
  refine ⟨source.toList.drop passed.length, List.drop_suffix _ _, ?_⟩
  rw [← drop_before List.suffix_rfl, ← start_eq_before, ← hpassed, List.drop_left]

theorem dropWhile_before (p : Char → Bool) (h : rest <:+ source.toList) :
    (before source rest).dropWhile (fun next => p next.2) =
      before source (rest.dropWhile p) := by
  induction rest with
  | nil => rfl
  | cons c cs ih =>
    rw [before_cons h, List.dropWhile_cons, List.dropWhile_cons]
    by_cases hc : p c = true
    · rw [if_pos hc, if_pos hc]
      exact ih ((List.suffix_cons c cs).trans h)
    · rw [if_neg hc, if_neg hc, before_cons h]

end Cursor

/-- **What a cursor has passed can be sliced out.** The places in front of two last parts of a source,
one of them a last part of the other, are on character boundaries and in order. -/
theorem slice_before {source : String} {rest last : List Char} (h : rest <:+ source.toList)
    (hlast : last <:+ rest) :
    slice source (placeOf source rest) (placeOf source last) =
      .ok (String.ofList (consumed rest last)) := by
  have hvalid := isValid_placeOf h
  have hvalid' := isValid_placeOf (hlast.trans h)
  have hplace := placeOf_consumed h hlast
  have hle : placeOf source rest ≤ placeOf source last := by omega
  rw [slice, if_pos ⟨hle, hvalid, hvalid'⟩, ← hplace]
  obtain ⟨front, hfront⟩ := h
  obtain ⟨middle, rfl⟩ := hlast
  have hextract := String.extract_of_valid front middle last
  rw [List.append_assoc, hfront, String.ofList_toList, Text.utf8Len_eq_byteLength,
    Text.utf8Len_eq_byteLength] at hextract
  rw [consumed_eq rfl, placeOf_of_append hfront, hextract]

/-- All that is left can be sliced out. -/
theorem slice_to_end {source : String} {rest : List Char} (h : rest <:+ source.toList) :
    slice source (placeOf source rest) source.utf8ByteSize = .ok (String.ofList rest) := by
  have hslice := slice_before h (List.nil_suffix (l := rest))
  have hconsumed : consumed rest [] = rest := consumed_eq (List.append_nil rest).symm
  rw [hconsumed] at hslice
  exact hslice

-- ---------------------------------------------------------------------------
-- Stretches
-- ---------------------------------------------------------------------------

namespace Cursor

variable {source : String} {rest : List Char}

theorem readWhile_before (p : Char → Bool) (h : rest <:+ source.toList) :
    readWhile source p (before source rest) =
      .ok (String.ofList (rest.takeWhile p), before source (rest.dropWhile p)) := by
  have hdrop : rest.dropWhile p <:+ rest := List.dropWhile_suffix p
  have hrun := slice_before h hdrop
  rw [consumed_eq List.takeWhile_append_dropWhile.symm] at hrun
  simp only [readWhile]
  rw [dropWhile_before p h, place_before h, place_before (hdrop.trans h), hrun]
  rfl

theorem seek_before (stop : Char) (h : rest <:+ source.toList) :
    seek source stop (before source rest) =
      (placeOf source (rest.dropWhile (· != stop)), before source (upTo stop rest).2) := by
  induction rest with
  | nil => rfl
  | cons c cs ih =>
    have htail := (List.suffix_cons c cs).trans h
    rw [before_cons h, seek]
    by_cases hc : c = stop
    · simp [hc, upTo]
    · rw [if_neg hc, ih htail]
      simp [hc, upTo]

theorem readUpTo_before (stop : Char) (h : rest <:+ source.toList) :
    readUpTo source stop (before source rest) =
      .ok (String.ofList (upTo stop rest).1, before source (upTo stop rest).2) := by
  have hslice := slice_before h (List.dropWhile_suffix (· != stop) (l := rest))
  rw [consumed_eq List.takeWhile_append_dropWhile.symm] at hslice
  simp only [readUpTo]
  rw [seek_before stop h, place_before h, hslice]
  rfl

theorem seekBrace_before (depth : Nat) (h : rest <:+ source.toList) :
    seekBrace source depth (before source rest) =
      .ok (placeOf source (rest.drop (braced depth rest).1.length),
        before source (braced depth rest).2) := by
  fun_induction braced depth rest with
  | case1 => rfl
  | case2 depth cs inner ih =>
    rw [before_cons h, seekBrace, if_pos rfl, ih ((List.suffix_cons _ cs).trans h)]
    rfl
  | case3 cs =>
    rw [before_cons h, seekBrace, if_neg (by decide), if_pos rfl, if_pos rfl]
    rfl
  | case4 cs outer inner hopen ih =>
    rw [before_cons h, seekBrace, if_neg (by decide), if_pos rfl, if_neg (Nat.succ_ne_zero outer)]
    exact ih ((List.suffix_cons _ cs).trans h)
  | case5 depth c cs hopen hclose inner ih =>
    rw [before_cons h, seekBrace, if_neg hopen, if_neg hclose,
      ih ((List.suffix_cons c cs).trans h)]
    rfl

theorem readBraced_before (h : rest <:+ source.toList) :
    readBraced source (before source rest) =
      .ok (String.ofList (braced 0 rest).1, before source (braced 0 rest).2) := by
  have hinner : rest = (braced 0 rest).1 ++ rest.drop (braced 0 rest).1.length := by
    rcases braced_cases 0 rest with ⟨htext, -⟩ | hall
    · have hprefix : (braced 0 rest).1 <+: rest := ⟨_, htext.symm⟩
      exact List.prefix_append_drop hprefix
    · rw [hall, List.drop_length, List.append_nil]
  have hslice := slice_before h (List.drop_suffix (braced 0 rest).1.length rest)
  rw [consumed_eq hinner] at hslice
  rw [readBraced, seekBrace_before 0 h, Fault.ok_bind, place_before h, hslice]
  rfl

-- ---------------------------------------------------------------------------
-- Comments
-- ---------------------------------------------------------------------------

theorem commentTurn_before {c : Char} {cs : List Char} (h : c :: cs <:+ source.toList)
    (depth : Nat) : commentTurn source (depth + 1, before source (c :: cs)) =
      .ok (if ['<', '!', '-', '-'] <+: c :: cs then .again (depth + 2, before source (cs.drop 3))
        else if ['-', '-', '>'] <+: c :: cs then
          if depth = 0 then .leave (depth, before source (cs.drop 2))
          else .again (depth, before source (cs.drop 2))
        else .again (depth + 1, before source cs)) := by
  have htail := (List.suffix_cons c cs).trans h
  rw [before_cons h, commentTurn, slice_to_end h, drop_before htail, drop_before htail]
  show (if _ <+: (String.ofList (c :: cs)).toList then _ else _) = _
  rw [String.toList_ofList]
  split
  · rfl
  · split <;> rfl

/-- A comment that is open stays counted as long as the loop goes on. -/
theorem commentTurn_advances (depth : Nat) (h : rest <:+ source.toList) :
    ∃ turn, commentTurn source (depth + 1, before source rest) = .ok turn ∧
      turn.Advances Prod.snd (depth + 1, before source rest) ∧
      ∀ next, turn = .again next → 0 < next.1 := by
  cases rest with
  | nil => exact ⟨_, rfl, List.suffix_rfl, nofun⟩
  | cons c cs =>
    refine ⟨_, commentTurn_before h depth, ?_⟩
    split
    · refine ⟨before_isAheadOf h (List.drop_suffix 3 cs), ?_⟩
      rintro next ⟨⟩
      exact Nat.succ_pos _
    · split
      · split
        · exact ⟨(before_isAheadOf h (List.drop_suffix 2 cs)).suffix, nofun⟩
        · next hdepth =>
          refine ⟨before_isAheadOf h (List.drop_suffix 2 cs), ?_⟩
          rintro next ⟨⟩
          exact Nat.pos_of_ne_zero hdepth
      · refine ⟨before_isAheadOf h List.suffix_rfl, ?_⟩
        rintro next ⟨⟩
        exact Nat.succ_pos _

theorem loop_commentTurn (depth : Nat) (h : rest <:+ source.toList) :
    ∃ left, loop Prod.snd (commentTurn source) (depth + 1, before source rest) =
      .ok (left, before source (Source.pastComment depth rest)) := by
  induction hlength : rest.length using Nat.strong_induction_on generalizing rest depth with
  | _ length ih =>
  cases rest with
  | nil => exact ⟨depth + 1, loop_of_leave rfl⟩
  | cons c cs =>
    have hturn := commentTurn_before h depth
    have hgo : ∀ inner last, last <:+ cs →
        commentTurn source (depth + 1, before source (c :: cs)) =
          .ok (.again (inner + 1, before source last)) →
        ∃ left, loop Prod.snd (commentTurn source) (depth + 1, before source (c :: cs)) =
          .ok (left, before source (Source.pastComment inner last)) := by
      intro inner last hlast hagain
      have hle := hlast.length_le
      rw [List.length_cons] at hlength
      rw [loop_of_again hagain (before_isAheadOf h hlast)]
      exact ih last.length (by omega) inner ((hlast.trans (List.suffix_cons c cs)).trans h) rfl
    rw [pastComment_cons]
    by_cases hopening : ['<', '!', '-', '-'] <+: c :: cs
    · rw [if_pos hopening] at hturn ⊢
      exact hgo (depth + 1) _ (List.drop_suffix 3 cs) hturn
    · rw [if_neg hopening] at hturn ⊢
      by_cases hclosing : ['-', '-', '>'] <+: c :: cs
      · rw [if_pos hclosing] at hturn ⊢
        cases depth with
        | zero => exact ⟨0, loop_of_leave hturn⟩
        | succ outer => exact hgo outer _ (List.drop_suffix 2 cs) hturn
      · rw [if_neg hclosing] at hturn ⊢
        exact hgo depth cs List.suffix_rfl hturn

theorem pastComment_before (h : rest <:+ source.toList) :
    pastComment source (before source rest) = .ok (before source (Source.pastComment 0 rest)) := by
  obtain ⟨left, hleft⟩ := loop_commentTurn 0 h
  rw [pastComment, hleft]
  rfl

-- ---------------------------------------------------------------------------
-- Values
-- ---------------------------------------------------------------------------

theorem bareTurn_before {c : Char} {cs : List Char} (h : c :: cs <:+ source.toList) :
    bareTurn source (before source (c :: cs)) =
      .ok (if Text.isBlank c || c == '>' || (c == '/' && cs.head? == some '>') then
          .leave (before source (c :: cs))
        else .again (before source cs)) := by
  rw [before_cons h, bareTurn]
  by_cases hstop : (Text.isBlank c || c == '>') = true
  · rw [if_pos hstop, hstop, Bool.true_or, if_pos rfl]
  · rw [if_neg hstop, Bool.eq_false_of_not_eq_true hstop, Bool.false_or]
    by_cases hslash : c = '/'
    · subst hslash
      rw [if_pos rfl, slice_to_end h]
      show Except.ok (if _ <+: (String.ofList ('/' :: cs)).toList then _ else _) = _
      have hmark : ['/', '>'] <+: '/' :: cs ↔ ('/' == '/' && cs.head? == some '>') = true := by
        rw [pair_prefix_cons]
        simp
      rw [String.toList_ofList, if_congr hmark rfl rfl]
    · rw [if_neg hslash, if_neg (by simp [hslash])]

theorem bareTurn_advances (h : rest <:+ source.toList) :
    ∃ turn, bareTurn source (before source rest) = .ok turn ∧
      turn.Advances id (before source rest) := by
  cases rest with
  | nil => exact ⟨_, rfl, List.suffix_rfl⟩
  | cons c cs =>
    refine ⟨_, bareTurn_before h, ?_⟩
    split
    · exact List.suffix_rfl
    · exact before_isAheadOf h List.suffix_rfl

theorem loop_bareTurn (h : rest <:+ source.toList) :
    loop id (bareTurn source) (before source rest) =
      .ok (before source (Source.readBare rest).2) := by
  induction rest with
  | nil => exact loop_of_leave rfl
  | cons c cs ih =>
    have hturn := bareTurn_before h
    rw [Source.readBare]
    split
    · next hstop =>
      rw [if_pos hstop] at hturn
      exact loop_of_leave hturn
    · next hstop =>
      rw [if_neg hstop] at hturn
      rw [loop_of_again hturn (before_isAheadOf h List.suffix_rfl)]
      exact ih ((List.suffix_cons c cs).trans h)

theorem nextIf_before (p : Char → Bool) {c : Char} {cs : List Char}
    (h : c :: cs <:+ source.toList) :
    nextIf p (before source (c :: cs)) =
      if p c then before source cs else before source (c :: cs) := by
  rw [before_cons h, nextIf]

theorem nextIf_isBlank_before (h : rest <:+ source.toList) :
    nextIf Text.isBlank (before source rest) = before source (Source.dropBlank rest) := by
  cases rest with
  | nil => rfl
  | cons c cs =>
    rw [nextIf_before Text.isBlank h, Source.dropBlank]
    split <;> rfl

theorem readBare_before (h : rest <:+ source.toList) :
    readBare source (before source rest) =
      .ok (String.ofList (Source.readBare rest).1,
        before source (Source.dropBlank (Source.readBare rest).2)) := by
  have hleft := readBare_suffix rest
  have hslice := slice_before h hleft
  rw [consumed_eq (readBare_append rest).symm] at hslice
  rw [readBare, loop_bareTurn h, Fault.ok_bind, place_before h, place_before (hleft.trans h), hslice,
    ← nextIf_isBlank_before (hleft.trans h)]
  rfl

theorem readValue_before (h : rest <:+ source.toList) :
    readValue source (before source rest) =
      .ok ((Source.readValue rest).1, before source (Source.readValue rest).2) := by
  cases rest with
  | nil =>
    have hbare := readBare_before h
    rw [before_nil] at hbare ⊢
    rw [readValue, hbare]
    rfl
  | cons c cs =>
    have htail := (List.suffix_cons c cs).trans h
    have hbare := readBare_before h
    rw [before_cons h] at hbare ⊢
    rw [readValue, Source.readValue]
    by_cases hquote : (c == '"' || c == '\'') = true
    · rw [if_pos hquote, if_pos hquote, readUpTo_before c htail]
      rfl
    · rw [if_neg hquote, if_neg hquote]
      by_cases hbrace : (c == '{') = true
      · rw [if_pos hbrace, if_pos hbrace, readBraced_before htail]
        show Except.ok (AttrValue.expression (Expression.ofSource (String.ofList _)), _) = _
        rw [Expression.ofSource, String.toList_ofList]
      · rw [if_neg hbrace, if_neg hbrace, hbare]
        rfl

-- ---------------------------------------------------------------------------
-- Attributes
-- ---------------------------------------------------------------------------

theorem readAttribute_before (h : rest <:+ source.toList) :
    readAttribute source (before source rest) =
      .ok ((Source.readAttribute rest).1, before source (Source.readAttribute rest).2) := by
  have hbehind : rest.dropWhile isNameChar <:+ source.toList :=
    (List.dropWhile_suffix isNameChar).trans h
  rw [readAttribute, readWhile_before isNameChar h]
  cases hrest : rest.dropWhile isNameChar with
  | nil =>
    rw [readAttribute_of_none (by rw [hrest]; exact nofun), hrest]
    rfl
  | cons c cs =>
    rw [hrest] at hbehind
    by_cases hc : c = '='
    · subst hc
      rw [readAttribute_of_equals hrest, before_cons hbehind]
      show (readValue source (before source cs) >>= _) = _
      rw [readValue_before ((List.suffix_cons _ cs).trans hbehind)]
      rfl
    · have hequals : (rest.dropWhile isNameChar).head? ≠ some '=' := by
        rw [hrest]
        exact fun h => hc (Option.some.inj h)
      rw [readAttribute_of_none hequals, hrest, before_cons hbehind]
      simp only [Fault.ok_bind]
      split
      · next heq => exact absurd (congrArg Prod.snd (List.cons.inj heq).1) hc
      · rfl

/-- A turn along the attributes comes to their end, passes a blank, or reads an attribute. -/
theorem attributesTurn_before {c : Char} {cs : List Char} (h : c :: cs <:+ source.toList)
    (attrs : List Attribute) : attributesTurn source (attrs, before source (c :: cs)) =
      .ok (if c = '/' ∨ c = '>' then .leave (attrs, before source (c :: cs))
        else if Text.isBlank c then .again (attrs, before source cs)
        else .again (attrs ++ [(Source.readAttribute (c :: cs)).1],
          before source (Source.readAttribute (c :: cs)).2)) := by
  have hattribute := readAttribute_before h
  rw [before_cons h] at hattribute ⊢
  rw [attributesTurn]
  split
  · rfl
  · split
    · rfl
    · rw [hattribute]
      rfl

theorem attributesTurn_advances (attrs : List Attribute) (h : rest <:+ source.toList) :
    ∃ turn, attributesTurn source (attrs, before source rest) = .ok turn ∧
      turn.Advances Prod.snd (attrs, before source rest) := by
  cases rest with
  | nil => exact ⟨_, rfl, List.suffix_rfl⟩
  | cons c cs =>
    refine ⟨_, attributesTurn_before h attrs, ?_⟩
    split
    · exact List.suffix_rfl
    · next hstop =>
      split
      · exact before_isAheadOf h List.suffix_rfl
      · next hblank => exact before_isAheadOf h (readAttribute_suffix_tail hstop hblank)

theorem loop_attributesTurn (attrs : List Attribute) (h : rest <:+ source.toList) :
    loop Prod.snd (attributesTurn source) (attrs, before source rest) =
      .ok (attrs ++ (Source.readAttributes rest).1, before source (Source.readAttributes rest).2) := by
  fun_induction Source.readAttributes rest generalizing attrs with
  | case1 =>
    rw [List.append_nil]
    exact loop_of_leave rfl
  | case2 c cs hstop =>
    have hturn := attributesTurn_before h attrs
    rw [if_pos hstop] at hturn
    rw [List.append_nil]
    exact loop_of_leave hturn
  | case3 c cs hstop hblank ih =>
    have hturn := attributesTurn_before h attrs
    rw [if_neg hstop, if_pos hblank] at hturn
    rw [loop_of_again hturn (before_isAheadOf h List.suffix_rfl)]
    exact ih attrs ((List.suffix_cons c cs).trans h)
  | case4 c cs hstop hblank first others ih =>
    have hturn := attributesTurn_before h attrs
    rw [if_neg hstop, if_neg hblank] at hturn
    have hahead : first.2 <:+ cs := readAttribute_suffix_tail hstop hblank
    rw [loop_of_again hturn (before_isAheadOf h hahead)]
    have hothers := ih (attrs ++ [first.1]) ((hahead.trans (List.suffix_cons c cs)).trans h)
    rw [List.append_assoc] at hothers
    exact hothers

theorem readAttributes_before (h : rest <:+ source.toList) :
    readAttributes source (before source rest) =
      .ok ((Source.readAttributes rest).1, before source (Source.readAttributes rest).2) :=
  loop_attributesTurn [] h

-- ---------------------------------------------------------------------------
-- Items
-- ---------------------------------------------------------------------------

/-- Where a name has ended, attributes that are not looked for are not there. -/
theorem readTagAttributes_before (h : rest <:+ source.toList)
    (hname : ∀ c, rest.head? = some c → isNameChar c = false) :
    readTagAttributes source (before source rest) =
      .ok ((Source.readAttributes rest).1, before source (Source.readAttributes rest).2) := by
  cases rest with
  | nil =>
    rw [Source.readAttributes]
    rfl
  | cons c cs =>
    have hall := readAttributes_before h
    rw [before_cons h] at hall ⊢
    rw [readTagAttributes]
    by_cases hmore : (Text.isBlank c || c == '=') = true
    · rw [if_pos hmore, hall]
    · have hc := hname c rfl
      have hstop : c = '/' ∨ c = '>' := by
        rw [Bool.or_eq_true, not_or] at hmore
        simp only [isNameChar, Bool.and_eq_false_iff, bne_eq_false_iff_eq] at hc
        grind
      rw [if_neg hmore, Source.readAttributes, dif_pos hstop, before_cons h]

theorem readTag_before (h : rest <:+ source.toList) :
    readTag source (before source rest) =
      .ok ((Item.readTag rest).1, before source (Item.readTag rest).2) := by
  have hbehind : rest.dropWhile isNameChar <:+ source.toList :=
    (List.dropWhile_suffix isNameChar).trans h
  have hname : ∀ c, (rest.dropWhile isNameChar).head? = some c → isNameChar c = false := by
    intro c hc
    have hstop := List.head?_dropWhile_not isNameChar rest
    rw [hc] at hstop
    exact hstop
  have hleft := (readAttributes_suffix (rest.dropWhile isNameChar)).trans hbehind
  rw [readTag, readWhile_before isNameChar h, Fault.ok_bind,
    readTagAttributes_before hbehind hname, Fault.ok_bind]
  rcases readAttributes_stop (rest.dropWhile isNameChar) with hend | ⟨behind, hend | hend⟩
  · rw [hend, Item.readTag, hend]
    rfl
  · rw [hend] at hleft ⊢
    rw [before_cons hleft, endTag, if_pos rfl]
    have hmark := (List.suffix_cons _ behind).trans hleft
    by_cases hclosed : behind.head? = some '>'
    · obtain ⟨last, rfl⟩ := List.head?_eq_some_iff.1 hclosed
      rw [nextIf_before _ hmark, Item.readTag, hend]
      rfl
    · have hnext : nextIf (· == '>') (before source behind) = before source behind := by
        cases behind with
        | nil => rfl
        | cons d ds =>
          have hd : d ≠ '>' := fun hd => hclosed (congrArg some hd)
          rw [nextIf_before _ hmark, if_neg (by simpa using hd)]
      rw [hnext, Item.readTag_of_slash hend hclosed]
      rfl
  · rw [hend] at hleft ⊢
    rw [before_cons hleft, endTag, if_neg (by decide), Item.readTag, hend]
    rfl

/-- **With a cursor an item is read as it is without.** Nothing goes wrong, and the cursor ends up in
front of what is left. -/
theorem readItem_before {c : Char} {cs : List Char} (h : c :: cs <:+ source.toList) :
    readItem source (placeOf source (c :: cs)) c (before source cs) =
      .ok ((Item.read c cs).1, before source (Item.read c cs).2) := by
  have htail := (List.suffix_cons c cs).trans h
  rw [readItem, slice_to_end h, Fault.ok_bind, String.toList_ofList, drop_before htail,
    drop_before htail]
  by_cases hc : c = '<'
  · subst hc
    by_cases hcomment : ['!', '-', '-'] <+: cs
    · obtain ⟨body, rfl⟩ := hcomment
      rw [if_pos ((List.prefix_cons_inj '<').2 (List.prefix_append _ body))]
      have hbody : body <:+ source.toList := (List.suffix_append _ body).trans htail
      show (pastComment source (before source body) >>= _) = _
      rw [pastComment_before hbody]
      rfl
    · rw [if_neg (fun hmark => hcomment ((List.prefix_cons_inj '<').1 hmark))]
      by_cases hclosing : cs.head? = some '/'
      · obtain ⟨name, rfl⟩ := List.head?_eq_some_iff.1 hclosing
        rw [if_pos (pair_prefix_cons.2 ⟨rfl, hclosing⟩)]
        show (readUpTo source '>' (before source name) >>= _) = _
        rw [readUpTo_before '>' ((List.suffix_cons _ name).trans htail), Fault.ok_bind,
          String.toList_ofList]
        rfl
      · rw [if_neg (fun hmark => hclosing (pair_prefix_cons.1 hmark).2), if_pos rfl,
          Item.read_of_tag hcomment hclosing]
        exact readTag_before htail
  · have hmark : ∀ mark, ¬('<' :: mark <+: c :: cs) :=
      fun mark h => hc (List.cons_prefix_cons.1 h).1.symm
    rw [if_neg (hmark _), if_neg (hmark _), if_neg hc, Item.read.eq_def, if_neg hc]
    by_cases hbrace : c = '{'
    · rw [if_pos hbrace, if_pos hbrace, readBraced_before htail, Fault.ok_bind,
        Expression.ofSource, String.toList_ofList]
      rfl
    · have hrun := readWhile_before (· != '<') h
      rw [before_cons h] at hrun
      rw [if_neg hbrace, if_neg hbrace, hrun, Fault.ok_bind, String.toList_ofList]
      rfl

end Cursor

end Source

end Stencil
