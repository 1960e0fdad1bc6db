import Stencil.Component
import Stencil.Diagnostic
import Stencil.Source.Lexeme

/-!
# Building the tree

The lexemes of a source are taken one after another while the elements still open wait on a stack,
innermost first. A node joins the children of the innermost open element, or the top level when none
is open. A closing tag closes the innermost element whatever its name, and at the end of the source
every open element is closed, so the tree is always complete. A closing tag of another name, one
with nothing to close, and an element closed by the end alone are reported.

Main results:

* `Build.run_append`: building from two rows of lexemes is building from the first and then from the
  second;
* `Build.finish_of_nil`: with nothing open the end of the source changes nothing.
-/

namespace Stencil

open Source (Item Lexeme)

/-- An element whose closing tag has not been met yet. -/
structure OpenElement where
  tag : String
  /-- All attributes of its tag, those for components among them. -/
  attrs : List Attribute
  children : List Node
  start : Nat
deriving DecidableEq, Repr, Inhabited

namespace OpenElement

def push (element : OpenElement) (node : Node) : OpenElement :=
  { element with children := element.children ++ [node] }

/-- The element once it is closed, inside the wrappers of its components. -/
def node (element : OpenElement) : Node :=
  .ofTag element.tag element.attrs element.children

/-- The diagnostic for an element that a wrong tag, or the end alone, closes at a place. -/
def unclosedAt (element : OpenElement) (position : Nat) : Diagnostic :=
  ⟨.unclosed element.tag, position⟩

end OpenElement

/-- A tree under construction. -/
structure Build where
  top : List Node := []
  /-- The open elements, innermost first. -/
  stack : List OpenElement := []
  journal : Journal := {}
deriving DecidableEq, Repr, Inhabited

namespace Build

/-- Adds a node behind the last one at the place that is being filled. -/
def insert (build : Build) (node : Node) : Build :=
  match build.stack with
  | [] => { build with top := build.top ++ [node] }
  | inner :: outer => { build with stack := inner.push node :: outer }

def report (build : Build) (development : Bool) (d : Diagnostic) : Build :=
  { build with journal := build.journal.report development d }

/-- Takes a closing tag at a place: the innermost open element ends there. -/
def close (build : Build) (development : Bool) (name : String) (start : Nat) : Build :=
  match build.stack with
  | [] => build.report development ⟨.stray name, start⟩
  | inner :: outer =>
    let reported :=
      if inner.tag = name then build else build.report development (inner.unclosedAt start)
    insert { reported with stack := outer } inner.node

def step (development : Bool) (build : Build) (lexeme : Lexeme) : Build :=
  match lexeme.item with
  | .opening tag attrs =>
    { build with stack := ⟨tag, attrs, [], lexeme.start⟩ :: build.stack }
  | .leaf tag attrs => build.insert (.ofTag tag attrs [])
  | .closing name => build.close development name lexeme.start
  | .text raw => build.insert (.text raw)
  | .binding e => build.insert (.binding e)
  | .blank | .comment => build

def run (development : Bool) (build : Build) (lexemes : List Lexeme) : Build :=
  lexemes.foldl (step development) build

/-- Closes the open elements, the innermost first, when the source has ended. The node that a closed
element becomes is `last`, the child still to be added to the next one. -/
def finishWith (development : Bool) (top : List Node) :
    (last : List Node) → List OpenElement → Journal → Build
  | last, [], journal => ⟨top ++ last, [], journal⟩
  | last, inner :: outer, journal =>
    finishWith development top [{ inner with children := inner.children ++ last }.node] outer
      (journal.report development (inner.unclosedAt inner.start))

/-- Closes whatever is open when the source has ended. -/
def finish (development : Bool) (build : Build) : Build :=
  finishWith development build.top [] build.stack build.journal

/-- Building from two rows of lexemes is building from the first and then from the second. -/
theorem run_append (development : Bool) (build : Build) (as bs : List Lexeme) :
    build.run development (as ++ bs) = (build.run development as).run development bs :=
  List.foldl_append

/-- With nothing open the end of the source changes nothing. -/
theorem finish_of_nil (development : Bool) {build : Build} (h : build.stack = []) :
    build.finish development = build := by
  obtain ⟨top, stack, journal⟩ := build
  subst h
  rw [finish, finishWith, List.append_nil]

end Build

end Stencil
