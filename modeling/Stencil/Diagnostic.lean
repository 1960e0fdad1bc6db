/-!
# Diagnostics

What can be wrong with a template, and the journal in which a compilation writes it down. Nothing is
written unless the compilation runs in development mode; then every diagnostic is also logged as a
warning at once, so the journal's two lists tell the same story.

Main results:

* `Journal.report_off`: outside development mode nothing is written;
* `Journal.log_report`: in development mode the log repeats the diagnostics.
-/

namespace Stencil

/-- What is wrong at a place of a template. -/
inductive Finding where
  /-- An element was closed by the tag of another one, or never. -/
  | unclosed (tag : String)
  /-- A closing tag stands where no element is open. -/
  | stray (name : String)
deriving DecidableEq, Repr, Inhabited

/-- A finding with its place. -/
structure Diagnostic where
  finding : Finding
  /-- The number of bytes in front of the tag that gave rise to it. -/
  position : Nat
deriving DecidableEq, Repr, Inhabited

def Finding.message : Finding → String
  | unclosed tag => "Unclosed tag '" ++ tag ++ "'"
  | stray name => "Closing tag '" ++ name ++ "' has no open element"

def Diagnostic.message (d : Diagnostic) : String :=
  d.finding.message ++ " at position " ++ toString d.position

inductive LogLevel where
  | warn
  | debug
deriving DecidableEq, Repr, Inhabited

structure LogRecord where
  level : LogLevel
  message : String
deriving DecidableEq, Repr, Inhabited

def Diagnostic.logRecord (d : Diagnostic) : LogRecord :=
  ⟨.warn, d.message⟩

/-- What a compilation writes down on its way. -/
structure Journal where
  diagnostics : List Diagnostic := []
  log : List LogRecord := []
deriving DecidableEq, Repr, Inhabited

namespace Journal

def report (journal : Journal) (development : Bool) (d : Diagnostic) : Journal :=
  if development then
    ⟨journal.diagnostics ++ [d], journal.log ++ [d.logRecord]⟩
  else journal

@[simp]
theorem report_off (journal : Journal) (d : Diagnostic) : journal.report false d = journal := rfl

/-- In development mode a log that repeats the diagnostics goes on doing so. -/
theorem log_report {journal : Journal} (development : Bool) (d : Diagnostic)
    (h : journal.log = journal.diagnostics.map Diagnostic.logRecord) :
    (journal.report development d).log =
      (journal.report development d).diagnostics.map Diagnostic.logRecord := by
  cases development with
  | false => exact h
  | true => simp [report, h]

end Journal

end Stencil
