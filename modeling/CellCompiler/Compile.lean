import CellCompiler.Generate.Contract

/-!
# Compilation

* `compileLibrary` compiles what does not belong to a contract: records with their codecs and
  conversions, functions, methods, and what is needed to deploy contracts;
* `compileContract` compiles a contract together with all of that;
* `compile` compiles every contract of a program, each into its own module.
-/

namespace CellCompiler

open Emission (Output Registry)
open Generate

/-- Emit a record with its codecs and conversions. -/
def Generate.emitStruct (decl : TypeDecl) : Gen Unit := do
  emitCodecs decl
  emitAccessors decl

/-- Emit what all contracts of a program share. -/
def Generate.emitShared : Gen Unit := do
  let t ← table
  t.structs.forM emitStruct
  t.functions.values.forM emitFunction
  (t.types.values.filter (!·.isContract)).forM fun decl => decl.functions.values.forM emitFunction
  t.contracts.forM emitChildSupport

/-- Run a generator from an empty draft, and give its result and the registry. -/
def Generate.run {α : Type} (env : Env) (g : Gen α) : Except CompileError (α × Registry) :=
  match g env {} with
  | .ok a draft => .ok (a, draft.registry)
  | .error e _ => .error e

/-- Compile what does not belong to a contract. -/
def compileLibrary (env : Env) : Except CompileError Output := do
  let (_, registry) ← Generate.run env emitShared
  registry.finalize

/-- Compile a contract together with everything that it can call. -/
def compileContract (env : Env) (contract : String) : Except CompileError Output := do
  let decl ← Layout.declOf env.program.types contract
  let (roots, registry) ← Generate.run env do
    emitShared
    emitContract decl
  if env.config.pruneUnused then registry.finalizeReachable roots else registry.finalize

/-- Compile every contract, each into its own module. -/
def compile (env : Env) : Except CompileError (Dict Output) :=
  env.program.types.contracts.foldlM (fun modules decl => do
    return modules.insert decl.name (← compileContract env decl.name)) .empty

end CellCompiler
