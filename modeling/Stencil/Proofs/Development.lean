import Stencil.Proofs.Findings
import Stencil.Proofs.Forest

/-!
# Development mode only observes

Whether a template is compiled in development mode shows in what is written down and nowhere else. A
report is made in three places, at a closing tag with nothing to close, at one of another name, and
at the end of the source. None of them touches the tree, and each writes the diagnostic and its
warning at once, so that the log repeats the diagnostics at every moment of the run.

Main results:

* `Build.log_step`, `Build.log_run`, `Build.log_finishWith`: building keeps the log in step with the
  diagnostics;
* `root_compile_development`, `diagnostics_compile_off`: the tree does not depend on the mode, and
  outside development mode there are no diagnostics;
* `compile_development`: the two modes make the same tree, and what each of them writes down.
-/

namespace Stencil

open Source (Lexeme)

/-- The log repeats the diagnostics, one warning for each. -/
def Journal.Repeats (journal : Journal) : Prop :=
  journal.log = journal.diagnostics.map Diagnostic.logRecord

theorem Journal.Repeats.report {journal : Journal} (h : journal.Repeats) (development : Bool)
    (d : Diagnostic) : (journal.report development d).Repeats :=
  log_report development d h

namespace Build

theorem log_step (development : Bool) {build : Build} (lexeme : Lexeme)
    (h : build.journal.Repeats) : (build.step development lexeme).journal.Repeats := by
  obtain ⟨start, source, item⟩ := lexeme
  cases item with
  | closing name =>
    obtain ⟨top, stack, journal⟩ := build
    cases stack with
    | nil => exact h.report development ⟨.stray name, start⟩
    | cons inner outer =>
      simp only [step, close, insert_journal]
      split
      · exact h
      · exact h.report development (inner.unclosedAt start)
  | opening tag attrs => exact h
  | leaf _ _ | text _ | binding _ | blank | comment =>
    simp only [step, insert_journal]
    exact h

theorem log_run (development : Bool) {build : Build} (row : List Lexeme)
    (h : build.journal.Repeats) : (build.run development row).journal.Repeats := by
  induction row generalizing build with
  | nil => exact h
  | cons lexeme row ih => exact ih (log_step development lexeme h)

theorem log_finishWith (development : Bool) (top last : List Node) (stack : List OpenElement)
    {journal : Journal} (h : journal.Repeats) :
    (finishWith development top last stack journal).journal.Repeats := by
  induction stack generalizing last journal with
  | nil => exact h
  | cons inner outer ih => exact ih _ (h.report development (inner.unclosedAt inner.start))

theorem log_ofText (development : Bool) (text : List Char) :
    (ofText development text).journal.Repeats := by
  have hempty : ({} : Build).journal.Repeats := rfl
  have hrun := log_run development (Source.lexemes text) hempty
  exact log_finishWith development _ _ _ hrun

end Build

theorem root_compile_development (options : CompileOptions) (development : Bool) (source : String) :
    (compile { options with development := development } source).root =
      (compile options source).root := by
  have htext : ({ options with development := development } : CompileOptions).prepare source.toList =
      options.prepare source.toList := rfl
  rw [compile_root_eq, compile_root_eq, Build.top_ofText, Build.top_ofText, htext]

theorem diagnostics_compile_off {options : CompileOptions} (h : options.development = false)
    (source : String) : (compile options source).diagnostics = [] := by
  have hjournal := Build.journal_ofText_off (options.prepare source.toList)
  rw [← h] at hjournal
  exact congrArg Journal.diagnostics hjournal

/-- **Development mode only observes.** It changes nothing about the tree. Without it there are no
diagnostics and the log has its closing line alone; with it the log has a warning for each diagnostic,
in their order, and then the closing line. -/
theorem compile_development (strip : Bool) (source : String) :
    let off : Compilation := compile { development := false, stripBlockComments := strip } source
    let on : Compilation := compile { development := true, stripBlockComments := strip } source
    on.root = off.root ∧
      off.diagnostics = [] ∧
      off.log = [⟨.debug, "compiled template into " ++ toString off.root.children.length ++
        " top-level nodes with 0 diagnostics"⟩] ∧
      on.log = on.diagnostics.map (fun d => ⟨.warn, d.message⟩) ++
        [⟨.debug, "compiled template into " ++ toString on.root.children.length ++
          " top-level nodes with " ++ toString on.diagnostics.length ++ " diagnostics"⟩] := by
  intro off on
  -- the text that is read does not depend on the mode
  let text := CompileOptions.prepare { stripBlockComments := strip } source.toList
  have hoff : (Build.ofText false text).journal = {} := Build.journal_ofText_off text
  have hdiagnostics : off.diagnostics = [] := congrArg Journal.diagnostics hoff
  have hlog : off.log = (Build.ofText false text).journal.log ++ [off.summary] := rfl
  refine ⟨?_, hdiagnostics, ?_, ?_⟩
  · have htop : (Build.ofText true text).top = (Build.ofText false text).top := by
      rw [Build.top_ofText, Build.top_ofText]
    exact congrArg Root.mk htop
  · have hnone : " top-level nodes with " ++ (toString ([] : List Diagnostic).length ++
        " diagnostics") = " top-level nodes with 0 diagnostics" := by decide
    rw [hlog, hoff, Compiled.summary, hdiagnostics, String.append_assoc, String.append_assoc, hnone]
    rfl
  · have hrepeats : (Build.ofText true text).journal.Repeats := Build.log_ofText true text
    show (Build.ofText true text).journal.log ++ [on.summary] = _
    rw [hrepeats]
    rfl

end Stencil
