import Stencil.Proofs.Cursor

/-!
# A scan covers its source

A scan has a cursor into the source, a stack of open elements with the root at its bottom, and a
journal. A step reads one item at the cursor and takes it into the tree; the scan takes steps until
nothing is left to read, and then closes what is still open, down to the root.

The builder of the tree keeps the root apart from the open elements and works on items that were read
beforehand. A scan does the same work on one row of elements: `Scanner.of` is the scan that has come to
where `build` was built and `rest` is left, and each step leads from one such scan to another. So no
scan that can be reached runs into a fault, each of its steps reads a character at least, and it ends
with nothing left to read and with the root alone.

Main results:

* `Scanner.take_of`, `Scanner.readNode_of`: a step of a scan is a step of the builder;
* `Reachable.exists_of`: every scan that can be reached is one of these;
* `scan_covers`: a scan always makes progress, comes to the end, and leaves the root alone.
-/

namespace Stencil

open Source (Cursor Fault Item Turn lexemesFrom placeOf)

/-- The state of a scan. -/
structure Scanner where
  /-- What is left to read. -/
  cursor : Cursor
  /-- The open elements, innermost first. The last one is the root. -/
  stack : List OpenElement
  journal : Journal
deriving DecidableEq, Repr

/-- The element that all others are in. -/
def rootElement (children : List Node) : OpenElement :=
  ⟨Root.typeName, [], children, 0⟩

namespace Scanner

def start (source : String) : Scanner :=
  ⟨Cursor.start source, [rootElement []], {}⟩

/-- Adds a node to the innermost open element. -/
def insert (scanner : Scanner) (node : Node) : Scanner :=
  match scanner.stack with
  | [] => scanner
  | inner :: outer => { scanner with stack := inner.push node :: outer }

def report (scanner : Scanner) (development : Bool) (d : Diagnostic) : Scanner :=
  { scanner with journal := scanner.journal.report development d }

/-- Closes the innermost open element, but not the root. -/
def close (scanner : Scanner) (development : Bool) (name : String) (place : Nat) : Scanner :=
  match scanner.stack with
  | [] => scanner
  | [_] => scanner.report development ⟨.stray name, place⟩
  | inner :: outer =>
    let reported :=
      if inner.tag = name then scanner else scanner.report development (inner.unclosedAt place)
    { reported with stack := outer }.insert inner.node

/-- Takes an item that begins at a place into the tree. -/
def take (scanner : Scanner) (development : Bool) (item : Item) (place : Nat) : Scanner :=
  match item with
  | .opening tag attrs => { scanner with stack := ⟨tag, attrs, [], place⟩ :: scanner.stack }
  | .leaf tag attrs => scanner.insert (.ofTag tag attrs [])
  | .closing name => scanner.close development name place
  | .text raw => scanner.insert (.text raw)
  | .binding e => scanner.insert (.binding e)
  | .blank | .comment => scanner

/-- Reads one item, if anything is left to read. -/
def readNode (development : Bool) (source : String) (scanner : Scanner) : Except Fault Scanner :=
  match scanner.cursor with
  | [] => .ok scanner
  | (place, c) :: cursor => do
    let found ← Cursor.readItem source place c cursor
    return take { scanner with cursor := found.2 } development found.1 place

/-- A turn of the loop along a source. -/
def nodeTurn (development : Bool) (source : String) (scanner : Scanner) :
    Except Fault (Turn Scanner) :=
  match scanner.cursor with
  | [] => .ok (.leave scanner)
  | _ :: _ => do
    let next ← scanner.readNode development source
    return .again next

/-- Closes the open elements until only one is left. -/
def closeAll (development : Bool) : List OpenElement → Journal → List OpenElement × Journal
  | inner :: parent :: outer, journal =>
    closeAll development (parent.push inner.node :: outer)
      (journal.report development (inner.unclosedAt inner.start))
  | stack, journal => (stack, journal)
termination_by stack => stack.length

/-- Scans a source up to its end, and closes what is open then. -/
def run (development : Bool) (source : String) : Except Fault Scanner := do
  let scanner ← Source.loop Scanner.cursor (nodeTurn development source) (start source)
  let closed := closeAll development scanner.stack scanner.journal
  return { scanner with stack := closed.1, journal := closed.2 }

-- ---------------------------------------------------------------------------
-- The builder at work
-- ---------------------------------------------------------------------------

/-- The scan that has built `build` and has `rest` left to read. -/
def of (source : String) (build : Build) (rest : List Char) : Scanner :=
  ⟨Cursor.before source rest, build.stack ++ [rootElement build.top], build.journal⟩

variable {development : Bool} {source : String} {build : Build} {rest : List Char}

theorem cursor_of_cons {c : Char} {cs : List Char} (h : c :: cs <:+ source.toList) :
    (of source build (c :: cs)).cursor =
      (placeOf source (c :: cs), c) :: Cursor.before source cs :=
  Cursor.before_cons h

theorem start_eq_of (source : String) : start source = of source {} source.toList := by
  rw [start, Cursor.start_eq_before]
  rfl

theorem insert_of (node : Node) :
    (of source build rest).insert node = of source (build.insert node) rest := by
  obtain ⟨top, stack, journal⟩ := build
  cases stack <;> rfl

theorem close_of (name : String) (place : Nat) :
    (of source build rest).close development name place =
      of source (build.close development name place) rest := by
  obtain ⟨top, stack, journal⟩ := build
  cases stack with
  | nil => rfl
  | cons inner outer =>
    rw [Build.close, ← insert_of]
    -- with the root below it the innermost element is not the only one
    by_cases htag : inner.tag = name
    · cases outer <;> simp [close, of, htag]
    · cases outer <;> simp [close, of, report, Build.report, htag]

theorem take_of (item : Item) (place : Nat) (written : List Char) :
    (of source build rest).take development item place =
      of source (build.step development ⟨place, written, item⟩) rest := by
  cases item with
  | opening tag attrs => rfl
  | leaf tag attrs => exact insert_of _
  | closing name => exact close_of name place
  | text raw => exact insert_of _
  | binding e => exact insert_of _
  | blank => rfl
  | comment => rfl

/-- **A step of a scan is a step of the builder**, which takes the item at the cursor. -/
theorem readNode_of {c : Char} {cs : List Char} (h : c :: cs <:+ source.toList)
    (written : List Char) :
    (of source build (c :: cs)).readNode development source =
      .ok (of source
        (build.step development ⟨placeOf source (c :: cs), written, (Item.read c cs).1⟩)
        (Item.read c cs).2) := by
  rw [readNode, cursor_of_cons h]
  show (Cursor.readItem source _ c (Cursor.before source cs) >>= _) = _
  rw [Cursor.readItem_before h, Fault.ok_bind, ← take_of _ _ written]
  rfl

theorem nodeTurn_of {c : Char} {cs : List Char} (h : c :: cs <:+ source.toList)
    (written : List Char) :
    nodeTurn development source (of source build (c :: cs)) =
      .ok (.again (of source
        (build.step development ⟨placeOf source (c :: cs), written, (Item.read c cs).1⟩)
        (Item.read c cs).2)) := by
  rw [nodeTurn, cursor_of_cons h]
  show (readNode development source (of source build (c :: cs)) >>= _) = _
  rw [readNode_of h written]
  rfl

/-- Up to the end of the source a scan builds what the builder builds from the lexemes. -/
theorem loop_nodeTurn (h : rest <:+ source.toList) :
    Source.loop Scanner.cursor (nodeTurn development source) (of source build rest) =
      .ok (of source (build.run development (lexemesFrom (placeOf source rest) rest)) []) := by
  induction hlength : rest.length using Nat.strong_induction_on generalizing rest build with
  | _ length ih =>
  cases rest with
  | nil =>
    rw [lexemesFrom]
    exact Source.loop_of_leave rfl
  | cons c cs =>
    have hleft := Item.read_suffix c cs
    have hle := hleft.length_le
    have hsuffix := (hleft.trans (List.suffix_cons c cs)).trans h
    let written := Source.consumed (c :: cs) (Item.read c cs).2
    have hplace : placeOf source (c :: cs) + Text.byteLength written =
        placeOf source (Item.read c cs).2 :=
      Source.placeOf_consumed h (hleft.trans (List.suffix_cons c cs))
    rw [List.length_cons] at hlength
    rw [Source.loop_of_again (nodeTurn_of h written) (Cursor.before_isAheadOf h hleft),
      ih (Item.read c cs).2.length (by omega) hsuffix rfl, Source.lexemesFrom, ← hplace]
    rfl

/-- An element with more children behind the ones it has. -/
def extend (more : List Node) (element : OpenElement) : OpenElement :=
  { element with children := element.children ++ more }

/-- Closing the stack of a scan closes the open elements as the builder does. The node that was closed
last is handed to the element below it, which may be the root. -/
theorem closeAll_stack (top last : List Node) (stack : List OpenElement) (journal : Journal) :
    closeAll development ((stack ++ [rootElement top]).modifyHead (extend last)) journal =
      ([rootElement (Build.finishWith development top last stack journal).top],
        (Build.finishWith development top last stack journal).journal) := by
  induction stack generalizing last journal with
  | nil =>
    rw [Build.finishWith, List.nil_append, List.modifyHead_cons, closeAll]
    · rfl
    · intro inner parent outer hstack
      exact absurd (congrArg List.length hstack) (by simp)
  | cons inner outer ih =>
    obtain ⟨parent, below, hbelow⟩ : ∃ parent below, outer ++ [rootElement top] = parent :: below :=
      List.exists_cons_of_ne_nil (by simp)
    have hnext := ih [(extend last inner).node]
      (journal.report development (inner.unclosedAt inner.start))
    rw [hbelow, List.modifyHead_cons] at hnext
    rw [Build.finishWith, List.cons_append, List.modifyHead_cons, hbelow, closeAll]
    exact hnext

theorem closeAll_of :
    closeAll development (of source build rest).stack (of source build rest).journal =
      ([rootElement (build.finish development).top], (build.finish development).journal) := by
  have hsame : ∀ element, extend [] element = element := by
    intro element
    rw [extend, List.append_nil]
  have hstack : (build.stack ++ [rootElement build.top]).modifyHead (extend []) =
      build.stack ++ [rootElement build.top] := by
    cases build.stack with
    | nil => rw [List.nil_append, List.modifyHead_cons, hsame]
    | cons inner outer => rw [List.cons_append, List.modifyHead_cons, hsame]
  show closeAll development (build.stack ++ [rootElement build.top]) build.journal = _
  rw [← hstack]
  exact closeAll_stack build.top [] build.stack build.journal

/-- **A scan runs to the end of its source.** It leaves the root alone, with the tree that is built
from the text. -/
theorem run_eq (development : Bool) (source : String) :
    run development source =
      .ok ⟨[], [rootElement (Build.ofText development source.toList).top],
        (Build.ofText development source.toList).journal⟩ := by
  have hplace : placeOf source source.toList = 0 := by
    rw [placeOf, Text.byteLength_toList, Nat.sub_self]
  rw [run, start_eq_of, loop_nodeTurn List.suffix_rfl, Fault.ok_bind, closeAll_of, hplace]
  rfl

end Scanner

-- ---------------------------------------------------------------------------
-- Scans that can be reached
-- ---------------------------------------------------------------------------

/-- The states that the scan of a source comes to, one step after another. -/
inductive Reachable (development : Bool) (source : String) : Scanner → Prop where
  | start : Reachable development source (Scanner.start source)
  | step {scanner next : Scanner} (h : Reachable development source scanner)
      (hnode : scanner.readNode development source = .ok next) : Reachable development source next

theorem Reachable.exists_of {development : Bool} {source : String} {scanner : Scanner}
    (h : Reachable development source scanner) :
    ∃ build rest, rest <:+ source.toList ∧ scanner = Scanner.of source build rest := by
  induction h with
  | start => exact ⟨{}, source.toList, List.suffix_rfl, Scanner.start_eq_of source⟩
  | step _ hnode ih =>
    obtain ⟨build, rest, hrest, rfl⟩ := ih
    cases rest with
    | nil =>
      obtain rfl := Except.ok.inj hnode
      exact ⟨build, [], hrest, rfl⟩
    | cons c cs =>
      rw [Scanner.readNode_of hrest []] at hnode
      obtain rfl := Except.ok.inj hnode
      exact ⟨_, _, ((Item.read_suffix c cs).trans (List.suffix_cons c cs)).trans hrest, rfl⟩

/-- **A scan always makes progress and covers its source.** In every state that can be reached with
something left to read, a step reads an item, of a character at least, and leaves what the reader of
items leaves. No turn of a loop takes the cursor back, and one that goes on with its loop has read a
character; an open comment stays counted. The scan runs into no fault, so whatever is sliced out lies
between two character boundaries in order and no counter goes below zero. It ends with nothing left to
read and with the root alone on the stack, which has the tree of the source. -/
theorem scan_covers (options : CompileOptions) (source : String) :
    let text := String.ofList (options.prepare source.toList)
    let development := options.development
    (∀ scanner, Reachable development text scanner →
      scanner.cursor <:+ Cursor.start text ∧
      (⟨Cursor.place text scanner.cursor⟩ : String.Pos.Raw).IsValid text ∧
      ∀ place c cursor, scanner.cursor = (place, c) :: cursor →
        ∃ next, scanner.readNode development text = .ok next ∧ next.cursor <:+ cursor ∧
          next.cursor.map Prod.snd = (Item.read c (cursor.map Prod.snd)).2) ∧
    (∀ cursor, cursor <:+ Cursor.start text →
      (∀ attrs, ∃ turn, Cursor.attributesTurn text (attrs, cursor) = .ok turn ∧
        turn.Advances Prod.snd (attrs, cursor)) ∧
      (∀ depth, 0 < depth → ∃ turn, Cursor.commentTurn text (depth, cursor) = .ok turn ∧
        turn.Advances Prod.snd (depth, cursor) ∧ ∀ next, turn = .again next → 0 < next.1) ∧
      (∃ turn, Cursor.bareTurn text cursor = .ok turn ∧ turn.Advances id cursor)) ∧
    ∃ final, Scanner.run development text = .ok final ∧ final.cursor = [] ∧
      final.stack = [rootElement (compile options source).root.children] ∧
      final.journal.diagnostics = (compile options source).diagnostics := by
  intro text development
  have htext : text.toList = options.prepare source.toList := String.toList_ofList
  refine ⟨?_, ?_, ?_⟩
  · intro scanner hreach
    obtain ⟨build, rest, hrest, rfl⟩ := hreach.exists_of
    refine ⟨?_, ?_, ?_⟩
    · rw [Cursor.start_eq_before]
      exact Cursor.before_suffix List.suffix_rfl hrest
    · show (⟨Cursor.place text (Cursor.before text rest)⟩ : String.Pos.Raw).IsValid text
      rw [Cursor.place_before hrest]
      exact Source.isValid_placeOf hrest
    · intro place c cursor hcursor
      have hbefore : Cursor.before text rest = (place, c) :: cursor := hcursor
      have hchars := Cursor.map_snd_before text rest
      rw [hbefore] at hchars
      obtain rfl : c :: cursor.map Prod.snd = rest := hchars
      have hahead := Cursor.before_isAheadOf hrest (Item.read_suffix c (cursor.map Prod.snd))
      rw [hbefore] at hahead
      refine ⟨_, Scanner.readNode_of hrest [], hahead.2, ?_⟩
      exact Cursor.map_snd_before text _
  · intro cursor hcursor
    obtain ⟨rest, hrest, rfl⟩ := Cursor.exists_before hcursor
    refine ⟨fun attrs => Cursor.attributesTurn_advances attrs hrest, ?_,
      Cursor.bareTurn_advances hrest⟩
    intro depth hdepth
    obtain ⟨outer, rfl⟩ := Nat.exists_eq_succ_of_ne_zero (Nat.ne_of_gt hdepth)
    exact Cursor.commentTurn_advances outer hrest
  · have hrun := Scanner.run_eq development text
    rw [htext] at hrun
    exact ⟨_, hrun, rfl, rfl, rfl⟩

/-- Behind a character of two bytes come nested comments, a closing tag with nothing to close, and a
tag that is cut off inside a value. -/
theorem scan_covers_cut_off :
    let options : CompileOptions := { development := true, stripBlockComments := false }
    let source := "é<!--<!---->--></p><b k=y/z"
    let text := String.ofList (options.prepare source.toList)
    let second : Scanner := ⟨(Cursor.start text).drop 1, [rootElement [.text "é"]], {}⟩
    let inside : Cursor := (Cursor.start text).drop 9
    (Reachable true text second ∧ ∃ next, second.readNode true text = .ok next ∧
      next.cursor <:+ second.cursor.tail) ∧
    (inside <:+ Cursor.start text ∧ 0 < 2 ∧
      ∃ turn, Cursor.commentTurn text (2, inside) = .ok turn ∧
        ∀ next, turn = .again next → 0 < next.1) ∧
    ∃ final, Scanner.run true text = .ok final ∧ final.cursor = [] ∧
      final.stack = [rootElement [.text "é", .element "b" [⟨"k", .literal "y/z"⟩] []]] ∧
      final.journal.diagnostics = [⟨.stray "p", 16⟩] := by
  intro options source text second inside
  obtain ⟨hnodes, hturns, final, hrun, hcursor, hstack, hdiagnostics⟩ := scan_covers options source
  have hfirst : (Scanner.start text).readNode true text = .ok second := by decide +kernel
  have hreach : Reachable true text second := .step .start hfirst
  have hhead : second.cursor = (2, '<') :: second.cursor.tail := by decide +kernel
  have hinside : inside <:+ Cursor.start text := List.drop_suffix 9 _
  obtain ⟨-, -, hstep⟩ := hnodes second hreach
  obtain ⟨next, hnext, hahead, -⟩ := hstep _ _ _ hhead
  obtain ⟨-, hcomment, -⟩ := hturns inside hinside
  obtain ⟨turn, hturn, -, hcount⟩ := hcomment 2 (by decide)
  refine ⟨⟨hreach, next, hnext, hahead⟩, ⟨hinside, by decide, turn, hturn, hcount⟩,
    final, hrun, hcursor, ?_, ?_⟩
  · rw [hstack]
    decide +kernel
  · rw [hdiagnostics]
    decide +kernel

end Stencil
