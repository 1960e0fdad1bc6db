import Stencil.Command
import Stencil.Proofs.Development

/-!
# Flags of the command line

The two flags of the tool may stand anywhere among its arguments and be given more than once. What is
left of the arguments without them are the operands, and of these there must be exactly one, the file.
So a run hangs on three things: the operands in their order, and whether each flag was given
(`Request.ofArgs_eq`).

Asking for development mode takes a run through the same failures in the same order, and the tree that
is written is the same, since development mode only observes. All it adds is what goes to standard
error.

Main results:

* `Request.ofArgs_eq`: what is asked for hangs on the operands and on which flags occur;
* `answerTo_cases`: a run fails, or it writes a template, whether in development mode or not;
* `runWith_flags`: where the flags stand plays no part, and what asking for development mode adds.
-/

namespace Stencil

def isFlag (arg : String) : Bool :=
  arg == "--dev" || arg == "--json"

/-- The arguments that are no flags. -/
def operands (args : List String) : List String :=
  args.filter fun arg => !isFlag arg

-- ---------------------------------------------------------------------------
-- What is asked for
-- ---------------------------------------------------------------------------

namespace Request

/-- What is asked for by some operands, given which flags occur. -/
def ofOperands (development json : Bool) : List String → Except Failure Request
  | [] => .ok { development := development, json := json }
  | [file] => .ok { file := some file, development := development, json := json }
  | _ :: second :: _ => .error (.unexpectedArgument second)

/-- A request that is already half read goes on with the other arguments: its file counts as the
first operand, and its flags as given. -/
theorem foldlM_take (request : Request) (args : List String) :
    args.foldlM take request =
      ofOperands (request.development || decide ("--dev" ∈ args))
        (request.json || decide ("--json" ∈ args)) (request.file.toList ++ operands args) := by
  induction args generalizing request with
  | nil =>
    obtain ⟨file, development, json⟩ := request
    cases file <;> simp [operands, ofOperands, pure, Except.pure]
  | cons arg args ih =>
    rw [List.foldlM_cons, take]
    by_cases hdev : arg = "--dev"
    · subst hdev
      have hop : operands ("--dev" :: args) = operands args := by simp [operands, isFlag]
      simp [hop, ih, bind, Except.bind]
    · by_cases hjson : arg = "--json"
      · subst hjson
        have hop : operands ("--json" :: args) = operands args := by simp [operands, isFlag]
        simp [hop, ih, bind, Except.bind]
      · have hop : operands (arg :: args) = arg :: operands args := by
          simp [operands, isFlag, hdev, hjson]
        rw [if_neg hdev, if_neg hjson, hop]
        cases hfile : request.file with
        | none => simp [ih, bind, Except.bind, Ne.symm hdev, Ne.symm hjson]
        | some file => simp [bind, Except.bind, ofOperands]

/-- **What is asked for hangs on the operands and on which flags occur.** -/
theorem ofArgs_eq (args : List String) :
    ofArgs args =
      ofOperands (decide ("--dev" ∈ args)) (decide ("--json" ∈ args)) (operands args) :=
  foldlM_take {} args

end Request

-- ---------------------------------------------------------------------------
-- What comes of it
-- ---------------------------------------------------------------------------

/-- The outcome for some operands, given which flags occur. -/
def answerTo (read : String → Except ReadFailure String) (development json : Bool)
    (operands : List String) : Outcome :=
  outcomeOf ((Request.ofOperands development json operands).bind fun request =>
    request.answer (read settingsFile) read)

section

variable (read : String → Except ReadFailure String)

theorem runWith_eq_answerTo (args : List String) :
    runWith read args =
      answerTo read (decide ("--dev" ∈ args)) (decide ("--json" ∈ args)) (operands args) := by
  rw [runWith, Request.ofArgs_eq, answerTo]

/-- A run fails in the same way in both modes, or it compiles a template in the one that it was asked
for or that the settings turn on. -/
theorem answerTo_cases (json : Bool) (operands : List String) :
    (∃ failure : Failure, ∀ development,
        answerTo read development json operands = failure.outcome) ∨
      ∃ file options source, operands = [file] ∧ settingsOptions (read settingsFile) = .ok options ∧
        read file = .ok source ∧ ∀ development,
          let request : Request := ⟨some file, development, json⟩
          answerTo read development json operands =
            request.render file (request.override options) source := by
  match operands with
  | [] => exact Or.inl ⟨.noFile, fun development => rfl⟩
  | _ :: second :: _ => exact Or.inl ⟨.unexpectedArgument second, fun development => rfl⟩
  | [file] =>
    have hanswer : ∀ development, answerTo read development json [file] =
        outcomeOf ((⟨some file, development, json⟩ : Request).answer (read settingsFile) read) :=
      fun development => rfl
    cases hsettings : settingsOptions (read settingsFile) with
    | error failure =>
      refine Or.inl ⟨failure, fun development => ?_⟩
      rw [hanswer, Request.answer, hsettings]
      rfl
    | ok options =>
      cases hsource : read file with
      | error cause =>
        refine Or.inl ⟨.unreadable file cause, fun development => ?_⟩
        rw [hanswer, Request.answer, hsettings]
        simp only [bind, Except.bind, hsource]
        rfl
      | ok source =>
        refine Or.inr ⟨file, options, source, rfl, rfl, hsource, fun development => ?_⟩
        rw [hanswer, Request.answer, hsettings]
        simp only [bind, Except.bind, hsource]
        rfl

end

section

variable (request : Request) (file : String) (options : Options) (source : String)

/-- What is written to standard output does not depend on the mode. -/
theorem Request.stdout_render (development : Bool) :
    (({ request with development := development } : Request).render file
        (({ request with development := development } : Request).override options) source).stdout =
      (request.render file (request.override options) source).stdout := by
  have hroot : ∀ request : Request,
      (compile (request.override options).compile source).root =
        (compile options.compile source).root :=
    fun request => root_compile_development options.compile _ source
  unfold render
  simp only [hroot]
  rfl

/-- In development mode, whichever side turns it on, standard error has a line for each diagnostic. -/
theorem Request.stderr_render_on (h : (options.compile.development || request.development) = true) :
    (request.render file (request.override options) source).stderr =
      String.join ((compile { options.compile with development := true }
        source).diagnostics.map fun d => file ++ ": " ++ d.message ++ "\n") := by
  rw [render, override, h]
  rfl

theorem Request.stderr_render_off
    (h : (options.compile.development || request.development) = false) :
    (request.render file (request.override options) source).stderr = "" := by
  rw [render, diagnostics_compile_off h]
  rfl

end

/-- What asking for development mode changes about a run. -/
theorem answerTo_development (read : String → Except ReadFailure String) (development json : Bool)
    (operands : List String) :
    let plain := answerTo read development json operands
    let dev := answerTo read true json operands
    dev.code = plain.code ∧ dev.stdout = plain.stdout ∧
      (plain.code ≠ 0 → dev.stderr = plain.stderr) ∧
      (plain.code = 0 → ∃ file options source, operands = [file] ∧
        settingsOptions (read settingsFile) = .ok options ∧ read file = .ok source ∧
        (options.compile.development = true → dev.stderr = plain.stderr) ∧
        (options.compile.development = false →
          (development = true ∨ plain.stderr = "") ∧
            dev.stderr = String.join ((compile { options.compile with development := true }
              source).diagnostics.map fun d => file ++ ": " ++ d.message ++ "\n"))) := by
  intro plain dev
  rcases answerTo_cases read json operands
    with ⟨failure, hfails⟩ | ⟨file, options, source, hfile, hsettings, hsource, hruns⟩
  · have hplain : plain = failure.outcome := hfails development
    have hdev : dev = failure.outcome := hfails true
    have hcode : failure.outcome.code ≠ 0 := show (1 : UInt32) ≠ 0 by decide
    rw [hplain, hdev]
    exact ⟨rfl, rfl, fun _ => rfl, fun hzero => absurd hzero hcode⟩
  · let asked : Request := ⟨some file, development, json⟩
    let request : Request := ⟨some file, true, json⟩
    have hplain : plain = asked.render file (asked.override options) source := hruns development
    have hdev : dev = request.render file (request.override options) source := hruns true
    have hrequest : dev.stderr = _ :=
      hdev ▸ request.stderr_render_on file options source (Bool.or_true _)
    refine ⟨by rw [hplain, hdev]; rfl, ?_, ?_, fun _ =>
      ⟨file, options, source, hfile, hsettings, hsource, fun hon => ?_, fun hoff => ⟨?_, hrequest⟩⟩⟩
    · rw [hplain, hdev]
      exact asked.stdout_render file options source true
    · intro hcode
      rw [hplain] at hcode
      exact absurd rfl hcode
    · rw [hrequest, hplain, asked.stderr_render_on file options source (by rw [hon]; rfl)]
    · cases development with
      | true => exact Or.inl rfl
      | false =>
        refine Or.inr ?_
        rw [hplain, asked.stderr_render_off file options source (by rw [hoff]; rfl)]

/-- **Where the flags stand plays no part, and development mode only adds to standard error.** However
files are read, two runs with the same operands and the same flags have the same outcome. With `--dev`
put in at any place, the exit status and standard output stay as they are, and so does standard error
if the run fails or if the settings turn development mode on already. If not, standard error was empty
unless the flag had been given, and now it has a line for each diagnostic of the template in
development mode. -/
theorem runWith_flags (read : String → Except ReadFailure String) :
    (∀ args others : List String, operands args = operands others →
        ("--dev" ∈ args ↔ "--dev" ∈ others) → ("--json" ∈ args ↔ "--json" ∈ others) →
        runWith read args = runWith read others) ∧
      ∀ before after : List String,
        let plain := runWith read (before ++ after)
        let dev := runWith read (before ++ "--dev" :: after)
        dev.code = plain.code ∧ dev.stdout = plain.stdout ∧
          (plain.code ≠ 0 → dev.stderr = plain.stderr) ∧
          (plain.code = 0 → ∃ file options source, operands (before ++ after) = [file] ∧
            settingsOptions (read settingsFile) = .ok options ∧ read file = .ok source ∧
            (options.compile.development = true → dev.stderr = plain.stderr) ∧
            (options.compile.development = false →
              ("--dev" ∈ before ++ after ∨ plain.stderr = "") ∧
                dev.stderr = String.join ((compile { options.compile with development := true }
                  source).diagnostics.map fun d => file ++ ": " ++ d.message ++ "\n"))) := by
  constructor
  · intro args others hoperands hdev hjson
    rw [runWith_eq_answerTo, runWith_eq_answerTo, hoperands, decide_eq_decide.2 hdev,
      decide_eq_decide.2 hjson]
  · intro before after
    have hoperands : operands (before ++ "--dev" :: after) = operands (before ++ after) := by
      simp [operands, isFlag]
    have hdev : decide ("--dev" ∈ before ++ "--dev" :: after) = true := by simp
    have hjson : decide ("--json" ∈ before ++ "--dev" :: after) =
        decide ("--json" ∈ before ++ after) := by simp
    have hchange := answerTo_development read (decide ("--dev" ∈ before ++ after))
      (decide ("--json" ∈ before ++ after)) (operands (before ++ after))
    rw [decide_eq_true_eq] at hchange
    rw [runWith_eq_answerTo, runWith_eq_answerTo, hoperands, hdev, hjson]
    exact hchange

end Stencil
