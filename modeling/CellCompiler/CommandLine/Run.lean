import CellCompiler.CommandLine.Arguments
import CellCompiler.Compile
import CellCompiler.Json.Target
import CellCompiler.Json.Parser
import CellCompiler.Json.Plan
import CellCompiler.Json.Printer

/-!
# Commands

A command reads its files, and everything that it does is then determined: what it prints, what it
writes to a file, and its exit code.

* `Failure` is why a command fails, and `Outcome` what it does;
* `Command.run` runs a command, given the contents of files;
* `respond` answers a command line.
-/

namespace CellCompiler

namespace CommandLine

/-! ### Failures -/

/-- Why a file cannot be read or written. -/
inductive FileFault where
  | missing
  | denied
  | notADirectory
  | isADirectory
  | nameTooLong
  /-- The bytes are no text. -/
  | notText
  | other (text : String)
  deriving DecidableEq, Repr

/-- The wording of a file fault. -/
def FileFault.message : FileFault → String
  | missing => "No such file or directory (os error 2)"
  | denied => "Permission denied (os error 13)"
  | notADirectory => "Not a directory (os error 20)"
  | isADirectory => "Is a directory (os error 21)"
  | nameTooLong => "File name too long (os error 36)"
  | notText => "stream did not contain valid UTF-8"
  | other text => text

/-- Why a command fails. -/
inductive Failure where
  | reading (path : String) (fault : FileFault)
  | malformedProgram (path : String)
  | malformedConfig (path : String)
  | plan (error : Plan.Error)
  | compile (error : CompileError)
  | writing (path : String) (fault : FileFault)
  | invalid

namespace Failure

/-- What fails. -/
def message : Failure → String
  | reading path _ => s!"reading {path}"
  | malformedProgram path => s!"parsing program description {path}"
  | malformedConfig path => s!"parsing config {path}"
  | plan e => e.message
  | compile e => e.message
  | writing path _ => s!"writing {path}"
  | invalid => "Validation failed"

/-- What it fails because of. -/
def cause? : Failure → Option String
  | reading _ fault | writing _ fault => some fault.message
  | malformedProgram _ | malformedConfig _ => some "malformed JSON"
  | _ => none

/-- A failure and its cause on one line. -/
def line (f : Failure) : String :=
  match f.cause? with
  | some cause => f.message ++ ": " ++ cause
  | none => f.message

/-- The report of a failure. -/
def report (f : Failure) : String :=
  let cause :=
    match f.cause? with
    | some cause => "\n\nCaused by:\n    " ++ cause
    | none => ""
  "Error: " ++ f.message ++ cause ++ "\n"

end Failure

/-! ### Outcomes -/

/-- What a command does. -/
structure Outcome where
  code : UInt32 := 0
  stdout : String := ""
  stderr : String := ""
  /-- A file that is written, with its text. -/
  file : Option (String × String) := none
  /-- What is said on standard error at the end, once the file is written. -/
  closing : String := ""
  deriving DecidableEq, Repr

namespace Outcome

/-- The outcome of a failure. -/
def ofFailure (f : Failure) : Outcome := { code := 1, stderr := f.report }

/-- The outcome after the attempt to write the file. -/
def finish (o : Outcome) (fault : Option FileFault) : Outcome :=
  match o.file, fault with
  | some (path, _), some fault =>
    { code := 1, stdout := o.stdout, stderr := o.stderr ++ (Failure.writing path fault).report }
  | _, _ => { o with stderr := o.stderr ++ o.closing, closing := "" }

/-- Say something on standard error first. -/
def after (o : Outcome) (text : String) : Outcome := { o with stderr := text ++ o.stderr }

/-- Write a text to a file, or print it as a line. -/
def write (output : Option String) (text : String) : Outcome :=
  match output with
  | some path => { file := some (path, text) }
  | none => { stdout := text ++ "\n" }

/-- The outcome of something that may fail. -/
def ofExcept : Except Failure Outcome → Outcome
  | .ok o => o
  | .error f => ofFailure f

end Outcome

/-! ### Reading files -/

/-- Contents of files by their path. -/
abbrev Files := String → Except FileFault String

/-- How deep a file may nest. -/
def fileDepth : Nat := 127

/-- Read a file. -/
def readFile (files : Files) (path : String) : Except Failure String :=
  (files path).mapError (.reading path)

/-- Read a program and complete its plans. -/
def readProgram (files : Files) (path : String) : Except Failure Program := do
  let text ← readFile files path
  match (Json.parse? fileDepth text).bind Program.ofJson? with
  | some program => program.complete.mapError .plan
  | none => throw (.malformedProgram path)

/-- Read the settings of code generation, if a file is given. -/
def readConfig (files : Files) : Option String → Except Failure Config
  | none => .ok {}
  | some path => do
    let text ← readFile files path
    match (Json.parse? fileDepth text).bind Config.ofJson? with
    | some config => return config
    | none => throw (.malformedConfig path)

/-! ### Commands -/

/-- A heading of messages. -/
def heading (title : String) : String :=
  title ++ "\n" ++ String.ofList (List.replicate 50 '=') ++ "\n"

/-- Print JSON, on one line or indented. -/
def render (pretty : Bool) (j : Json) : String := if pretty then j.pretty else j.compact

/-- A compiled program: its JSON form and the number of its functions. -/
structure Compiled where
  json : Json
  count : Nat
  /-- There was nothing to compile. -/
  isEmpty : Bool := false

/-- One module. -/
def Compiled.ofOutput (o : Emission.Output) : Compiled := ⟨o.toJson, o.functions.length, false⟩

/-- Compile what is selected. -/
def Selection.compile (env : Generate.Env) : Selection → Except CompileError Compiled
  | library => return .ofOutput (← compileLibrary env)
  | contract name => return .ofOutput (← compileContract env name)
  | all => do
    let modules ← CellCompiler.compile env
    let count := modules.values.foldl (fun n o => n + o.functions.length) 0
    return ⟨modules.toJson Emission.Output.toJson, count, modules.entries.isEmpty⟩

namespace CompileOptions

/-- What is said before a verbose compilation. -/
def opening (o : CompileOptions) : String :=
  if !o.verbose then "" else
    let output :=
      match o.output with
      | some path => s!" Output: {path}\n"
      | none => ""
    let contract :=
      match o.selection with
      | .contract name => s!" Contract: {name}\n"
      | _ => ""
    heading " cellgen Compiler" ++ s!" Input: {o.input}\n" ++ output ++ contract ++ "\n"

/-- What is said after a verbose compilation. -/
def closing (o : CompileOptions) (count : Nat) : String :=
  if !o.verbose then ""
  else s!"\n SUCCESS: Compilation successful!\n   Functions: {count}\n"

/-- Compile a program. -/
def run (o : CompileOptions) (files : Files) : Except Failure Outcome := do
  let config ← readConfig files o.config
  let config := if o.prune then config.pruned else config
  let program ← readProgram files o.input
  let env : Generate.Env := { program, evaluate := constantValue program.types, config }
  let compiled ← (o.selection.compile env).mapError .compile
  let warning := if compiled.isEmpty then "  No contracts found in input\n" else ""
  let outcome := Outcome.write o.output (render o.pretty compiled.json)
  return { outcome with stderr := warning, closing := o.closing compiled.count }

end CompileOptions

/-- What is said of a valid program. -/
def validReport (program : Program) (verbose : Bool) : String :=
  let contracts := ", ".intercalate (program.types.contracts.map TypeDecl.name)
  let details :=
    s!"   Types: {program.types.types.size}\n" ++ s!"   Contracts: {contracts}\n" ++
    s!"   Allocation plans: {program.plans.types.size}\n"
  " VALID\n" ++ if verbose then details else ""

/-- Check that a program can be read and its plans are sound. -/
def validate (files : Files) (input : String) (verbose : Bool) : Outcome :=
  let opening := if verbose then heading " Validating program" ++ s!" Input: {input}\n\n" else ""
  match readProgram files input with
  | .ok program => { stdout := validReport program verbose, stderr := opening }
  | .error f =>
    { Outcome.ofFailure .invalid with stdout := " INVALID\n\nError:\n" ++ f.line ++ "\n" }.after
      opening

/-- Print the plans of a program. -/
def plan (files : Files) (input : String) (output : Option String) : Except Failure Outcome := do
  let program ← readProgram files input
  return .write output program.plans.toJson.pretty

namespace Command

/-- The files that a command reads. -/
def inputs : Command → List String
  | compile o => o.config.toList ++ [o.input]
  | validate input _ | plan input _ => [input]

/-- Run a command. -/
def run (files : Files) : Command → Outcome
  | compile o => (Outcome.ofExcept (o.run files)).after o.opening
  | validate input verbose => CommandLine.validate files input verbose
  | plan input output => .ofExcept (CommandLine.plan files input output)

end Command

/-! ### Command lines -/

/-- How the commands are written. -/
def usage : String :=
  "Usage: cellgen <COMMAND>\n\nCommands:\n" ++
  "  compile <INPUT> [-o FILE] [--config FILE] [--contract NAME | --library] [--prune] " ++
  "[--pretty] [-v]\n" ++
  "  validate <INPUT> [-v]\n" ++
  "  plan <INPUT> [-o FILE]\n"

/-- Answer a command line. -/
def respond (files : Files) : Request → Outcome
  | .version => { stdout := "cellgen 0.1.0\n" }
  | .help => { stdout := usage }
  | .misuse => { code := 2, stderr := "error: invalid arguments\n\n" ++ usage }
  | .run command => command.run files

end CommandLine

end CellCompiler
