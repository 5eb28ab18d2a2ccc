/-!
# Arguments of the command line

A command takes one input file and options. A long option is written `--name`, `--name value` or
`--name=value`, a short one `-n`, `-n value`, `-nvalue` or `-n=value`, and short options without a
value may share a dash. After `--` everything is an input file.

* `Given` is what the arguments of a command say;
* `scan` reads the arguments of a command from left to right;
* `Request.ofArguments` reads a whole command line.
-/

namespace CellCompiler

namespace CommandLine

/-- An option without a value. -/
inductive Flag where
  | library
  | prune
  | pretty
  | verbose
  deriving DecidableEq, Repr

/-- An option with a value. -/
inductive Setting where
  | output
  | config
  | contract
  deriving DecidableEq, Repr

/-- What an option stands for. -/
inductive Meaning where
  | flag (f : Flag)
  | setting (s : Setting)
  | help
  deriving DecidableEq, Repr

/-- An option of a command. -/
structure Switch where
  long : String
  short : Option Char := none
  meaning : Meaning

/-- Why the arguments do not lead to a command. -/
inductive Stop where
  /-- The arguments are wrong. -/
  | usage
  /-- Help was asked for. -/
  | help
  deriving DecidableEq, Repr

/-- What the arguments of a command say. -/
structure Given where
  input : Option String := none
  flags : List Flag := []
  settings : List (Setting × String) := []
  deriving DecidableEq, Repr

namespace Given

/-- The value of a setting. -/
def setting? (g : Given) (s : Setting) : Option String := g.settings.lookup s

/-- A flag is given. -/
def has (g : Given) (f : Flag) : Bool := g.flags.contains f

/-- Add a flag, which may be given once. -/
def withFlag (g : Given) (f : Flag) : Except Stop Given :=
  if g.has f then .error .usage else .ok { g with flags := g.flags ++ [f] }

/-- The value of a setting names a file. -/
def isPath : Setting → Bool
  | .output | .config => true
  | .contract => false

/-- Add a setting, which may be given once; a file has a name. -/
def withSetting (g : Given) (s : Setting) (value : String) : Except Stop Given :=
  if (g.setting? s).isSome || (isPath s && value.isEmpty) then .error .usage
  else .ok { g with settings := g.settings ++ [(s, value)] }

/-- Add the input file, which may be given once and has a name. -/
def withInput (g : Given) (path : String) : Except Stop Given :=
  if g.input.isSome || path.isEmpty then .error .usage else .ok { g with input := some path }

/-- Add input files. -/
def withInputs (g : Given) (paths : List String) : Except Stop Given := paths.foldlM withInput g

end Given

/-- The argument is written like an option, and so is no value. -/
def isSwitch (arg : String) : Bool :=
  match arg.toList with
  | '-' :: _ :: _ => true
  | _ => false

/-- Split the text of a long option at its first equals sign. -/
def splitEquals (text : List Char) : String × Option String :=
  let name := text.takeWhile (· != '=')
  match text.drop name.length with
  | [] => (.ofList name, none)
  | _ :: value => (.ofList name, some (.ofList value))

/-- Read a long option. A setting without a value waits for the next argument. -/
def long (switches : List Switch) (g : Given) (text : List Char) :
    Except Stop (Given × Option Setting) := do
  let (name, value?) := splitEquals text
  match (switches.find? (·.long == name)).map Switch.meaning, value? with
  | some (.setting s), some value => return (← g.withSetting s value, none)
  | some (.setting s), none => return (g, some s)
  | some (.flag f), none => return (← g.withFlag f, none)
  | some .help, none => throw .help
  | _, _ => throw .usage

/-- The value that follows a short option directly. -/
def attached : List Char → List Char
  | '=' :: value => value
  | value => value

/-- Read short options that share a dash. A setting without a value waits for the next argument. -/
def shorts (switches : List Switch) : Given → List Char → Except Stop (Given × Option Setting)
  | g, [] => .ok (g, none)
  | g, c :: rest =>
    match (switches.find? (·.short == some c)).map Switch.meaning with
    | some (.flag f) => do shorts switches (← g.withFlag f) rest
    | some (.setting s) =>
      if rest.isEmpty then .ok (g, some s)
      else do return (← g.withSetting s (.ofList (attached rest)), none)
    | some .help => .error .help
    | none => .error .usage

/-- Read one argument. A setting without a value waits for the next argument. -/
def one (switches : List Switch) (g : Given) (arg : String) :
    Except Stop (Given × Option Setting) :=
  match arg.toList with
  | '-' :: '-' :: name => long switches g name
  | '-' :: c :: rest => shorts switches g (c :: rest)
  | _ => do return (← g.withInput arg, none)

/-- Read the arguments of a command from left to right. The setting that waits for a value, if any,
takes the next argument unless it is written like an option. -/
def scan (switches : List Switch) : Option Setting → Given → List String → Except Stop Given
  | none, g, [] => .ok g
  | some _, _, [] => .error .usage
  | some s, g, value :: rest =>
    if isSwitch value then .error .usage
    else do scan switches none (← g.withSetting s value) rest
  | none, g, arg :: rest =>
    if arg = "--" then g.withInputs rest
    else do
      let (g, waiting) ← one switches g arg
      scan switches waiting g rest

/-! ### Commands -/

/-- Which modules are compiled. -/
inductive Selection where
  /-- Every contract, each into its own module. -/
  | all
  | contract (name : String)
  | library
  deriving DecidableEq, Repr

/-- How a program is compiled. -/
structure CompileOptions where
  input : String
  output : Option String := none
  config : Option String := none
  selection : Selection := .all
  prune : Bool := false
  pretty : Bool := false
  verbose : Bool := false
  deriving DecidableEq, Repr

/-- A command. -/
inductive Command where
  | compile (options : CompileOptions)
  | validate (input : String) (verbose : Bool)
  | plan (input : String) (output : Option String)
  deriving DecidableEq, Repr

/-- What a command line asks for. -/
inductive Request where
  | version
  | help
  | run (command : Command)
  /-- The command line is wrong. -/
  | misuse
  deriving DecidableEq, Repr

/-- The option that asks for help. -/
def helpSwitch : Switch := { long := "help", short := some 'h', meaning := .help }

/-- The option for the file that output is written to. -/
def outputSwitch : Switch := { long := "output", short := some 'o', meaning := .setting .output }

/-- The option for more messages. -/
def verboseSwitch : Switch := { long := "verbose", short := some 'v', meaning := .flag .verbose }

/-- The options of `compile`. -/
def compileSwitches : List Switch :=
  [outputSwitch, { long := "config", meaning := .setting .config },
    { long := "contract", meaning := .setting .contract },
    { long := "library", meaning := .flag .library }, { long := "prune", meaning := .flag .prune },
    { long := "pretty", meaning := .flag .pretty }, verboseSwitch, helpSwitch]

/-- Read the options of `compile`; a library has no contract. -/
def compileOptions (g : Given) : Except Stop CompileOptions := do
  let some input := g.input | throw .usage
  let selection ←
    match g.setting? .contract, g.has .library with
    | some _, true => throw .usage
    | some name, false => pure (Selection.contract name)
    | none, true => pure .library
    | none, false => pure .all
  return { input, output := g.setting? .output, config := g.setting? .config, selection
           prune := g.has .prune, pretty := g.has .pretty, verbose := g.has .verbose }

namespace Command

/-- Read a command. -/
def ofArguments (name : String) (args : List String) : Except Stop Command := do
  match name with
  | "compile" => return compile (← compileOptions (← scan compileSwitches none {} args))
  | "validate" =>
    let g ← scan [verboseSwitch, helpSwitch] none {} args
    let some input := g.input | throw .usage
    return validate input (g.has .verbose)
  | "plan" =>
    let g ← scan [outputSwitch, helpSwitch] none {} args
    let some input := g.input | throw .usage
    return plan input (g.setting? .output)
  | _ => throw .usage

/-- The names of the commands. -/
def names : List String := ["compile", "validate", "plan"]

end Command

namespace Request

/-- Short options in front of a command, of which the first decides. -/
def ofShort : Char → Request
  | 'V' => version
  | 'h' => help
  | _ => misuse

/-- Read a command line. -/
def ofArguments : List String → Request
  | [] => misuse
  | "--version" :: _ => version
  | "--help" :: _ => help
  | "help" :: rest =>
    match rest with
    | [] => help
    | [name] => if Command.names.contains name || name = "help" then help else misuse
    | _ => misuse
  | name :: args =>
    match name.toList with
    | '-' :: c :: _ => ofShort c
    | _ =>
      match Command.ofArguments name args with
      | .ok command => run command
      | .error .help => help
      | .error .usage => misuse

end Request

end CommandLine

end CellCompiler
