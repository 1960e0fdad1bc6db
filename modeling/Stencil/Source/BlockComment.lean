/-!
# Block comments

Before a template is read, every block comment may be cut out of it, wherever it stands. A block
comment reaches from its opening mark to the first closing mark that does not share a character with
the opening one. An opening mark that is never closed is no comment, and the text from there on is
kept whole.

Main results:

* `length_of_afterClose?`: cutting a comment out leaves less text;
* `stripBlockComments_of_closed`, `stripBlockComments_of_open`: what happens at an opening mark.
-/

namespace Stencil.Source

/-- The text behind the first closing mark, if there is one. -/
def afterClose? : List Char → Option (List Char)
  | [] => none
  | '*' :: '/' :: rest => some rest
  | _ :: cs => afterClose? cs

theorem length_of_afterClose? {cs rest : List Char} (h : afterClose? cs = some rest) :
    rest.length < cs.length := by
  fun_induction afterClose? cs with
  | case1 => simp at h
  | case2 tail =>
    simp only [Option.some.injEq] at h
    subst h
    simp only [List.length_cons]
    omega
  | case3 c cs _ ih =>
    have := ih h
    simp only [List.length_cons]
    omega

/-- Cuts every closed block comment out of a source. -/
def stripBlockComments : List Char → List Char
  | [] => []
  | '/' :: '*' :: cs =>
    match _h : afterClose? cs with
    | some rest => stripBlockComments rest
    | none => '/' :: '*' :: cs
  | c :: cs => c :: stripBlockComments cs
termination_by cs => cs.length
decreasing_by
  · have := length_of_afterClose? _h
    simp only [List.length_cons]
    omega
  · simp

/-- A closed comment disappears. -/
theorem stripBlockComments_of_closed {cs rest : List Char} (h : afterClose? cs = some rest) :
    stripBlockComments ('/' :: '*' :: cs) = stripBlockComments rest := by
  rw [stripBlockComments]
  split
  · next h' =>
    rw [h] at h'
    rw [Option.some.inj h']
  · next h' => simp [h] at h'

/-- A comment that is never closed stays, with all that follows. -/
theorem stripBlockComments_of_open {cs : List Char} (h : afterClose? cs = none) :
    stripBlockComments ('/' :: '*' :: cs) = '/' :: '*' :: cs := by
  rw [stripBlockComments]
  split
  · next h' => simp [h] at h'
  · rfl

end Stencil.Source
