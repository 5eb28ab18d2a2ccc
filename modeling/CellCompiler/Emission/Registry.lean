import CellCompiler.Dict
import CellCompiler.Error
import CellCompiler.NameSet

/-!
# The registry of emitted code

Generators enter target functions into a registry, each with the names that it depends on. Names
that the target's own library supplies are entered as skipped.

* `Section` says where in the module a function belongs;
* `Emission.Entry` is one registered function, `Emission.Registry` all that has been entered.
-/

namespace CellCompiler

namespace Emission

/-- The part of a module that a function belongs to. -/
inductive Section where
  | stdlib
  | functions
  | type (name : String)
  | contract (name : String)
  | constants
  deriving DecidableEq, Repr

/-- The spelling of a part. -/
def Section.text : Section → String
  | stdlib => "stdlib"
  | functions => "functions"
  | type name => "type:" ++ name
  | contract name => "contract:" ++ name
  | constants => "constants"

/-- How a name is supplied. -/
inductive Kind where
  | generic
  | asm
  /-- By the target's own library. -/
  | skip
  deriving DecidableEq, Repr

/-- A registered function. -/
structure Entry where
  name : String
  /-- Absent for a skipped name. -/
  definition : Option Target.Item
  kind : Kind
  place : Section
  depends : NameSet
  deriving DecidableEq

/-- The entry of a name that the target's own library supplies. -/
def Entry.skipped (name : String) : Entry := ⟨name, none, .skip, .stdlib, .empty⟩

/-- A constant of the target module. -/
structure Constant where
  ty : Target.Ty
  name : String
  value : Target.Expr
  deriving DecidableEq

/-- A global variable of the target module. -/
structure Global where
  ty : Target.Ty
  name : String
  deriving DecidableEq

/-- Everything that has been entered. -/
structure Registry where
  functions : Dict Entry := .empty
  constants : Dict Constant := .empty
  globals : Dict Global := .empty
  header : List Target.Item := []

namespace Registry

instance : Inhabited Registry := ⟨{}⟩

/-- The registry without entries. -/
def empty : Registry := {}

/-- A name has been registered or skipped. -/
def has (r : Registry) (name : String) : Bool := r.functions.contains name

/-- The entry of an item, if it is a function. -/
def entryOf (item : Target.Item) (place : Section) (depends : NameSet) :
    Except CompileError Entry :=
  match item with
  | .function s _ | .declaration s => .ok ⟨s.name, some item, .generic, place, depends⟩
  | .asm s _ => .ok ⟨s.name, some item, .asm, place, depends⟩
  | _ => .error (.defect (.notAFunction item))

/-- Enter a function under a new name. -/
def register (r : Registry) (item : Target.Item) (place : Section) (depends : NameSet) :
    Except CompileError Registry := do
  let entry ← entryOf item place depends
  if r.has entry.name then throw (.duplicateFunction entry.name)
  return { r with functions := r.functions.insertNew entry.name entry }

/-- Enter a name that the target's own library supplies, unless it is there already. -/
def skip (r : Registry) (name : String) : Registry :=
  { r with functions := r.functions.insertNew name (.skipped name) }

/-- Enter a constant, unless its name is there already. -/
def addConstant (r : Registry) (ty : Target.Ty) (name : String) (value : Target.Expr) : Registry :=
  { r with constants := r.constants.insertNew name ⟨ty, name, value⟩ }

/-- Enter a global variable, unless its name is there already. -/
def addGlobal (r : Registry) (ty : Target.Ty) (name : String) : Registry :=
  { r with globals := r.globals.insertNew name ⟨ty, name⟩ }

/-- Enter an item of the header once. -/
def addHeader (r : Registry) (item : Target.Item) : Registry :=
  if r.header.contains item then r else { r with header := r.header ++ [item] }

end Registry

end Emission

end CellCompiler
