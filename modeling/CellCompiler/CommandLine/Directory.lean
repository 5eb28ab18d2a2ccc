import CellCompiler.CommandLine.Run

/-!
# Commands in a directory

A directory is a finite set of text files, together with the folders that lead to it. Running a
command line in it gives the outcome together with the directory afterwards.

* `Directory.walk` follows the parts of a path from folder to folder;
* `Directory.read` and `Directory.write` are reading and writing by path;
* `Directory.run` runs a command line.
-/

namespace CellCompiler

namespace CommandLine

/-- The parts of a path, without those that lead nowhere. -/
def pathParts (path : String) : List String :=
  (path.splitOn "/").filter fun part => part != "" && part != "."

/-- Bytes that a path may have at most. -/
def longestPath : Nat := 4095

/-- Bytes that a name may have at most. -/
def longestName : Nat := 255

/-- A finite set of text files. Each stands under the names that lead to it from the root. -/
structure Directory where
  files : List (List String × String) := []
  deriving DecidableEq, Repr

namespace Directory

/-- The folder in which commands run. -/
def home : List String := ["tmp", "work"]

/-- A file that is always empty and takes everything that is written to it. -/
def sink : List String := ["dev", "null"]

/-- Folders that are there without any file in them. -/
def standing : List (List String) :=
  home :: ["bin", "boot", "dev", "etc", "home", "lib", "media", "mnt", "opt", "proc", "root", "run",
    "sbin", "srv", "sys", "usr", "var"].map ([·])

/-- Put a text at a place, instead of what is there. -/
def put (d : Directory) (place : List String) (text : String) : Directory :=
  if place = sink then d else ⟨(place, text) :: d.files.filter (·.1 != place)⟩

/-- The directory of files with given paths. -/
def ofList (files : List (String × String)) : Directory :=
  files.foldl (fun d (path, text) => d.put (home ++ pathParts path) text) {}

/-- There is a folder at the place. -/
def isFolder (d : Directory) (place : List String) : Bool :=
  standing.any place.isPrefixOf ||
    d.files.any fun (name, _) => place != name && place.isPrefixOf name

/-- The text of the file at the place. -/
def text? (d : Directory) (place : List String) : Option String :=
  if place = sink then some "" else d.files.lookup place

/-- The name is not too long. -/
def checkName (name : String) : Except FileFault Unit :=
  if longestName < name.utf8ByteSize then .error .nameTooLong else .ok ()

/-- One step from a folder: an empty name and a point stay, two points go back. -/
def step (d : Directory) (place : List String) (name : String) :
    Except FileFault (List String) := do
  if !d.isFolder place then throw .notADirectory
  if name = "" || name = "." then return place
  if name = ".." then return place.dropLast
  checkName name
  let next := place ++ [name]
  if d.isFolder next || (d.text? next).isSome then return next else throw .missing

/-- Follow names from a place. -/
def walk (d : Directory) (place : List String) (names : List String) :
    Except FileFault (List String) :=
  names.foldlM d.step place

/-- Where a path starts, and the names that it goes through. -/
def start (path : String) : Except FileFault (List String × List String) :=
  if path = "" then .error .missing
  else if longestPath < path.utf8ByteSize then .error .nameTooLong
  else if path.startsWith "/" then .ok ([], (path.splitOn "/").drop 1)
  else .ok (home, path.splitOn "/")

/-- Read a file. -/
def read (d : Directory) (path : String) : Except FileFault String := do
  let (place, names) ← start path
  let place ← d.walk place names
  match d.text? place with
  | some text => return text
  | none => throw .isADirectory

/-- Write a file. Its folder must be there. -/
def write (d : Directory) (path text : String) : Except FileFault Directory := do
  let (place, names) ← start path
  let trailing := (names.reverse.takeWhile (· = "")).length
  let names := names.take (names.length - trailing)
  let place ← d.walk place names.dropLast
  if !d.isFolder place then throw .notADirectory
  match names.getLast? with
  | none | some "." | some ".." => throw .isADirectory
  | some name =>
    if 0 < trailing then throw .isADirectory
    checkName name
    if d.isFolder (place ++ [name]) then throw .isADirectory
    return d.put (place ++ [name]) text

/-- Carry out an outcome. -/
def carryOut (d : Directory) (o : Outcome) : Outcome × Directory :=
  match o.file with
  | none => (o.finish none, d)
  | some (path, text) =>
    match d.write path text with
    | .ok after => (o.finish none, after)
    | .error fault => (o.finish (some fault), d)

/-- Run a command line. -/
def run (d : Directory) (args : List String) : Outcome × Directory :=
  d.carryOut (respond d.read (Request.ofArguments args))

end Directory

end CommandLine

end CellCompiler
