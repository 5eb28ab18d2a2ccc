import CellCompiler.CommandLine.Run

/-!
# The program

Reads the files that a command names, runs the command, and carries out what it does.
-/

namespace CellCompiler

namespace CommandLine

/-- The fault behind an error of the system. -/
def faultOf : IO.Error → FileFault
  | .noFileOrDirectory .. => .missing
  | .permissionDenied .. => .denied
  | .inappropriateType _ code _ => if code = 20 then .notADirectory else .isADirectory
  | .invalidArgument _ 36 _ => .nameTooLong
  | e => .other e.toString

/-- Read a file as text. -/
def readText (path : String) : IO (Except FileFault String) := do
  try
    let bytes ← IO.FS.readBinFile path
    match String.fromUTF8? bytes with
    | some text => return .ok text
    | none => return .error .notText
  catch e => return .error (faultOf e)

/-- Write a text to a file, and tell what stands in the way. -/
def writeText (path text : String) : IO (Option FileFault) := do
  try
    IO.FS.writeFile path text
    return none
  catch e => return some (faultOf e)

/-- The contents of the files that a command line names. -/
def readInputs (request : Request) : IO Files := do
  let paths :=
    match request with
    | .run command => command.inputs
    | _ => []
  let contents ← paths.mapM fun path => return (path, ← readText path)
  return fun path => (contents.lookup path).getD (.error .missing)

end CommandLine

end CellCompiler

open CellCompiler.CommandLine in
/-- Answer a command line. -/
def main (args : List String) : IO UInt32 := do
  let request := Request.ofArguments args
  let outcome := respond (← readInputs request) request
  let fault ←
    match outcome.file with
    | some (path, text) => writeText path text
    | none => pure none
  let outcome := outcome.finish fault
  IO.print outcome.stdout
  IO.eprint outcome.stderr
  return outcome.code
