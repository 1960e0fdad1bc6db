import Stencil.Builder
import Stencil.Options.Basic
import Stencil.Source.BlockComment

/-!
# Compiling a template

Compilation never fails: every source has a tree, and what is wrong with it shows in the diagnostics
alone. A compilation also leaves a log, a warning for every diagnostic and one closing line.

Main result: `compile_root_eq`, the tree is the one built from the lexemes of the prepared source.
-/

namespace Stencil

structure Compiled where
  root : Root
  /-- What is wrong with the template, in development mode. -/
  diagnostics : List Diagnostic
deriving DecidableEq, Repr, Inhabited

structure Compilation extends Compiled where
  log : List LogRecord
deriving DecidableEq, Repr, Inhabited

/-- The text that is read for a source: without its block comments if these are to be cut out. -/
def CompileOptions.prepare (options : CompileOptions) (source : List Char) : List Char :=
  if options.stripBlockComments then Source.stripBlockComments source else source

/-- Everything that is built from a text, up to its end. -/
def Build.ofText (development : Bool) (text : List Char) : Build :=
  ((({} : Build).run development (Source.lexemes text)).finish development)

/-- The last line of a compilation's log. -/
def Compiled.summary (compiled : Compiled) : LogRecord where
  level := .debug
  message := "compiled template into " ++ toString compiled.root.children.length ++
    " top-level nodes with " ++ toString compiled.diagnostics.length ++ " diagnostics"

/-- Compiles a template. -/
def compile (options : CompileOptions) (source : String) : Compilation :=
  let build := Build.ofText options.development (options.prepare source.toList)
  let compiled : Compiled := ⟨⟨build.top⟩, build.journal.diagnostics⟩
  { compiled with log := build.journal.log ++ [compiled.summary] }

/-- The tree is the one built from the lexemes of the prepared source. -/
theorem compile_root_eq (options : CompileOptions) (source : String) :
    (compile options source).root =
      ⟨(Build.ofText options.development (options.prepare source.toList)).top⟩ := rfl

end Stencil
