/-!
# Delimited stretches of a source

The three ways in which a stretch of a template is ended by a mark: at the first occurrence of a
character (`upTo`), at the brace that closes an open one (`braced`), and at the mark that closes a
comment (`pastComment`). Each takes the mark with it, and each is content to end at the end of the
source.

Main results: whatever a stretch leaves is the end of the text it was read from (`upTo_suffix`,
`braced_suffix`, `pastComment_suffix`).
-/

namespace Stencil.Source

/-- The text in front of the first `stop`, and the text behind it. -/
def upTo (stop : Char) (cs : List Char) : List Char × List Char :=
  (cs.takeWhile (· != stop), (cs.dropWhile (· != stop)).drop 1)

theorem upTo_suffix (stop : Char) (cs : List Char) : (upTo stop cs).2 <:+ cs :=
  (List.drop_suffix _ _).trans (List.dropWhile_suffix _)

/-- The text in front of the brace that closes the outermost of `depth + 1` open ones, and the text
behind that brace. -/
def braced : (depth : Nat) → List Char → List Char × List Char
  | _, [] => ([], [])
  | depth, c :: cs =>
    if c = '{' then
      let inner := braced (depth + 1) cs
      (c :: inner.1, inner.2)
    else if c = '}' then
      match depth with
      | 0 => ([], cs)
      | outer + 1 =>
        let inner := braced outer cs
        (c :: inner.1, inner.2)
    else
      let inner := braced depth cs
      (c :: inner.1, inner.2)

theorem braced_suffix (depth : Nat) (cs : List Char) : (braced depth cs).2 <:+ cs := by
  fun_induction braced depth cs with
  | case1 => exact List.suffix_rfl
  | case2 depth cs inner ih => exact ih.trans (List.suffix_cons _ cs)
  | case3 cs => exact List.suffix_cons _ cs
  | case4 cs _ outer inner ih => exact ih.trans (List.suffix_cons _ cs)
  | case5 depth c cs _ _ inner ih => exact ih.trans (List.suffix_cons c cs)

/-- The text behind the mark that closes the outermost of `depth + 1` open comments. Comments nest,
and each opening mark needs a closing mark of its own. -/
def pastComment : (depth : Nat) → List Char → List Char
  | _, [] => []
  | depth, '<' :: '!' :: '-' :: '-' :: cs => pastComment (depth + 1) cs
  | 0, '-' :: '-' :: '>' :: cs => cs
  | depth + 1, '-' :: '-' :: '>' :: cs => pastComment depth cs
  | depth, _ :: cs => pastComment depth cs

theorem pastComment_suffix (depth : Nat) (cs : List Char) : pastComment depth cs <:+ cs := by
  fun_induction pastComment depth cs with
  | case1 => exact List.suffix_rfl
  | case2 depth cs ih => exact ih.trans (List.suffix_append ['<', '!', '-', '-'] cs)
  | case3 cs => exact List.suffix_append ['-', '-', '>'] cs
  | case4 depth cs ih => exact ih.trans (List.suffix_append ['-', '-', '>'] cs)
  | case5 depth c cs _ _ _ ih => exact ih.trans (List.suffix_cons c cs)

end Stencil.Source
