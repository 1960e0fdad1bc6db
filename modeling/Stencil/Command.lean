import Stencil.Compile
import Stencil.Directory
import Stencil.Json.Printer
import Stencil.Options.Toml
import Stencil.Tree.Json
import Stencil.Tree.Outline

/-!
# The command line

The tool takes one template file and two flags, which may stand anywhere. It reads the settings from
the directory it runs in, compiles the template, writes the diagnostics to standard error and the
tree to standard output. The first thing that goes wrong ends the run: the arguments are looked at
first, then the settings, then the template.

Main definitions:

* `Request.ofArgs`: what the arguments ask for;
* `Request.answer`: what comes of a request, given the settings and the template;
* `runWith`: a run of the tool, however files are read.
-/

namespace Stencil

inductive Failure where
  | unexpectedArgument (arg : String)
  | noFile
  /-- The settings break a rule of their format, or an option has a wrong type. The reason is not
  kept. -/
  | invalidSettings
  | unreadable (path : String) (cause : ReadFailure)
deriving DecidableEq, Repr, Inhabited

def settingsFile : String := "kiirus.toml"

/-- A failure in words, with its cause on lines of its own if there is one. The cause of settings
that are refused is left out: it would be an excerpt of the file with a remark beneath it, in the
words of whoever reads the format. -/
def Failure.message : Failure → String
  | unexpectedArgument arg => "unexpected argument '" ++ arg ++ "'"
  | noFile => "usage: kiirus <file> [--dev] [--json]"
  | invalidSettings => "invalid " ++ settingsFile
  | unreadable path cause => "failed to read " ++ path ++ "\n\nCaused by:\n    " ++ cause.message

def Failure.report (failure : Failure) : String :=
  "Error: " ++ failure.message ++ "\n"

/-! ## Arguments -/

structure Request where
  file : Option String := none
  development : Bool := false
  json : Bool := false
deriving DecidableEq, Repr, Inhabited

namespace Request

/-- Takes an argument: a flag, or the file. -/
def take (request : Request) (arg : String) : Except Failure Request :=
  if arg = "--dev" then .ok { request with development := true }
  else if arg = "--json" then .ok { request with json := true }
  else
    match request.file with
    | none => .ok { request with file := some arg }
    | some _ => .error (.unexpectedArgument arg)

def ofArgs (args : List String) : Except Failure Request :=
  args.foldlM take {}

end Request

/-! ## Answers -/

structure Outcome where
  code : UInt32
  stdout : String
  stderr : String
deriving DecidableEq, Repr, Inhabited

def Failure.outcome (failure : Failure) : Outcome :=
  ⟨1, "", failure.report⟩

/-- The options for the outcome of reading the settings: the defaults if there are none. -/
def settingsOptions : Except ReadFailure String → Except Failure Options
  | .ok text =>
    match Options.ofToml? text with
    | some options => .ok options
    | none => .error .invalidSettings
  | .error .notFound => .ok {}
  | .error cause => .error (.unreadable settingsFile cause)

def diagnosticLine (file : String) (d : Diagnostic) : String :=
  file ++ ": " ++ d.message ++ "\n"

/-- The options of a run: asking for development mode turns it on, whatever the settings say. -/
def Request.override (request : Request) (options : Options) : Options :=
  { options with
    compile :=
      { options.compile with
        development := options.compile.development || request.development } }

/-- The outcome for a template. -/
def Request.render (request : Request) (file : String) (options : Options) (source : String) :
    Outcome :=
  let compilation := compile options.compile source
  { code := 0
    stdout :=
      if request.json then compilation.root.toJson.pretty ++ "\n"
      else compilation.root.outline options.print
    stderr := String.join (compilation.diagnostics.map (diagnosticLine file)) }

/-- The outcome of a request, given what came of reading the settings and the template. -/
def Request.answer (request : Request) (settings : Except ReadFailure String)
    (template : String → Except ReadFailure String) : Except Failure Outcome := do
  let some file := request.file | throw .noFile
  let options ← settingsOptions settings
  match template file with
  | .ok source => return request.render file (request.override options) source
  | .error cause => throw (.unreadable file cause)

/-- The outcome of a run in which nothing went wrong, or of the failure that ended it. -/
def outcomeOf : Except Failure Outcome → Outcome
  | .ok outcome => outcome
  | .error failure => failure.outcome

/-- A run in which files are read by `read`, be it in a directory or with failures of another
kind. -/
def runWith (read : String → Except ReadFailure String) (args : List String) : Outcome :=
  outcomeOf ((Request.ofArgs args).bind fun request => request.answer (read settingsFile) read)

/-- Runs the tool in a directory. -/
def Directory.run (dir : Directory) : List String → Outcome :=
  runWith dir.read

end Stencil
