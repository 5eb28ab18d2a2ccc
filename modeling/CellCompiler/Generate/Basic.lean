import CellCompiler.Config
import CellCompiler.Emission.Output
import CellCompiler.Layout
import CellCompiler.Source.Constant
import CellCompiler.Source.Program

/-!
# The setting of code generation

Generators are computations in `Gen`. They read an environment (`Generate.Env`) and change a draft
(`Generate.Draft`): the registry of finished functions, and for the function under construction the
names that it depends on and the number of variables made up for it. A failing generator leaves the
draft as it is at that point.
-/

namespace CellCompiler

namespace Generate

open Emission (Registry Section)
open Target (Ty Item)

/-- What generators read. -/
structure Env where
  program : Program
  /-- Finds constant expressions. -/
  evaluate : Evaluator
  config : Config := {}

/-- What generators change. -/
structure Draft where
  registry : Registry := {}
  /-- What the function under construction depends on. -/
  deps : NameSet := .empty
  /-- Number of variables made up for the function under construction. -/
  temps : Nat := 0

instance : Inhabited Draft := ⟨{}⟩

/-- A generator. -/
abbrev Gen := ReaderT Env (EStateM CompileError Draft)

/-- The declarations of the program. -/
def table : Gen TypeTable := do
  return (← read).program.types

/-- Pass on a result or an error. -/
def ofExcept {α : Type} : Except CompileError α → Gen α
  | .ok a => pure a
  | .error e => throw e

/-- Fail because an assumption does not hold. -/
def defect {α : Type} (d : Defect) : Gen α := throw (.defect d)

/-- Fail because an assumption does not hold at a place. -/
def defectAt {α : Type} (d : Defect) (loc : Location) : Gen α := throw (.internal d (some loc))

/-- Fail because of a mistake at a place. -/
def misuseAt {α : Type} (m : Misuse) (loc : Location) : Gen α := throw (.compilation m loc)

/-! ### The registry -/

/-- Change the registry. -/
def onRegistry (f : Registry → Registry) : Gen Unit :=
  modify fun d => { d with registry := f d.registry }

/-- A name has been registered or skipped. -/
def has (name : String) : Gen Bool := do
  return (← get).registry.has name

/-- Enter a name that the target's own library supplies. -/
def skip (name : String) : Gen Unit := onRegistry (·.skip name)

/-- Enter a function. -/
def register (item : Item) (place : Section) (depends : NameSet) : Gen Unit := do
  let registry ← ofExcept ((← get).registry.register item place depends)
  modify fun d => { d with registry }

/-- Record that the function under construction depends on a name. -/
def used (name : String) : Gen String := do
  modify fun d => { d with deps := d.deps.insert name }
  return name

/-- Call a function and record the dependency. -/
def callUsed (name : String) (args : List Target.Expr) : Gen Target.Expr := do
  return Target.call (← used name) args

/-- A variable that no source identifier is mapped to. -/
def fresh (stem : String) : Gen String := do
  let n := (← get).temps
  modify fun d => { d with temps := n + 1 }
  return s!"{stem}_{n}"

/-- Start a new function: nothing used and no variable made up yet. -/
def startFunction : Gen Unit := modify fun d => { d with deps := .empty, temps := 0 }

/-- Construct a function and enter it with what it depends on. -/
def define (place : Section) (construct : Gen Item) : Gen Unit := do
  startFunction
  let item ← construct
  register item place (← get).deps

/-! ### Layout -/

/-- The declaration of a name. -/
def declOf (name : String) : Gen TypeDecl := do
  ofExcept (Layout.declOf (← table) name)

/-- The target type of a type. -/
def representation (ty : TypeRef) : Gen Ty := do
  ofExcept (Layout.representation (← table) ty)

/-- The pattern that binds a variable of a type. -/
def unpack (ty : TypeRef) (name : String) : Gen Target.Expr := do
  ofExcept (Layout.unpack (← table) ty name)

/-- Variables of a type are bound field by field. -/
def isUnpacked (ty : TypeRef) : Gen Bool := do
  ofExcept (Layout.isUnpacked (← table) ty)

/-- The record that a type names. -/
def structOf (ty : TypeRef) : Gen (Option TypeDecl) := do
  ofExcept (Layout.structOf (← table) ty)

/-- The built-in type that a type names. -/
def primitiveOf (ty : TypeRef) : Gen (Option PrimitiveKind) := do
  ofExcept (Layout.primitiveOf (← table) ty)

/-- The target type in which callers from outside see a record. -/
def externalTy (decl : TypeDecl) : Gen Ty := do
  ofExcept (Layout.externalTy (← table) decl)

end Generate

end CellCompiler
