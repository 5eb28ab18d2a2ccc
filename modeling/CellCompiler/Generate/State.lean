import CellCompiler.Generate.Codec
import CellCompiler.Generate.Function

/-!
# The state of a contract

The data of a contract is a cell that refers to the cell of known codes and holds a bit, which tells
whether the contract has started, and then either its state or, before the first message, the
arguments that it was deployed with.

* `initItem` makes the first state out of the arguments;
* `loadItem` turns the data into the state, making the first one if need be, and `storeItem` writes
  the state back;
* `initChildItem` makes the code and data with which another contract deploys this one.
-/

namespace CellCompiler

namespace Generate

open Target

/-- The type of `self`. -/
def selfTy (contract : TypeDecl) : Gen Ty := representation (.plain contract.name)

/-- The parameters that a contract starts with. -/
def initBindings (contract : TypeDecl) : List Binding :=
  contract.initParams.map fun p => (Name.var p.name, p.ty)

/-- The value of a field before the contract starts. -/
def initialField (field : Field) : Gen Target.Expr := do
  match field.default with
  | some value => literal value field.ty
  | none => ofExcept (Layout.nullPattern (← table) field.ty)

/-- The state before the contract starts. -/
def initialState (contract : TypeDecl) : Gen Target.Expr := do
  if contract.fields.isEmpty then return emptyTuple
  return .tensor (← contract.fields.mapM initialField)

/-- Makes the first state: field defaults, then the statements that the contract starts with. -/
def initItem (contract : TypeDecl) : Gen Item := do
  let bindings := initBindings contract
  let scope := Scope.initOf contract.name
  let signature ← withBindings
    (Signature.impure { name := Name.contractInit contract.name }).inline bindings
  let opened ← prologue bindings
  let initial ← initialState contract
  let self ← scope.selfBinding
  let body ← lowerStmts scope contract.initBody
  let last ←
    if endsWithReturn contract.initBody then pure [] else do pure [ret (← scope.returned none)]
  let ty ← selfTy contract
  return (signature.returning ty).define (opened ++ [var self initial] ++ body ++ last)

/-- The arguments of a contract as one value. -/
def initArguments (contract : TypeDecl) : Target.Expr :=
  match initBindings contract with
  | [] => emptyTuple
  | bindings => .tensor (bindings.map fun (name, _) => id name)

/-- Makes code and data for a deployment. The code is looked up by the number of the contract, and
the cell of known codes is handed on. -/
def initChildItem (contract : TypeDecl) : Gen Item := do
  let getCode ← helper Helper.dictGetCodeName
  let store ← used (Name.writer (Name.initArgs contract.name))
  let signature ← withBindings
    (((Signature.param { name := Name.initChild contract.name } .cell "sys'").returning
      (.tensor [.cell, .cell])).inline) (initBindings contract)
  return signature.define
    [var (id "sc'") (beginParse (id "sys'")),
      var (id "source") (Target.modify (id "sc'") "load_dict" []),
      typedVar .cell "code" (call getCode [id "source", int contract.uid.toNat]),
      var (id "data") (storeFlag (method beginCell "store_ref" [id "sys'"]) false),
      assign (id "data") (call store [id "data", initArguments contract]),
      ret (.tensor [id "code", endCell (id "data")])]

/-- Load the arguments that the contract was deployed with, and give the values to start with. -/
def loadArguments (contract : TypeDecl) (load : Target.Expr) :
    Gen (Target.Stmt × List Target.Expr) := do
  match contract.initParams with
  | [] => return (.expr load, [])
  | params =>
    let shape ← ofExcept
      (Layout.record (← table) (params.map fun p => (p.name, p.ty)) "args")
    let values ← params.mapM fun p => unpack p.ty (Name.tick "args" p.name)
    return (var shape.pattern load, values)

/-- Loads the state, making the first one if the contract has not started. -/
def loadItem (contract : TypeDecl) : Gen Item := do
  let reader ← used (Name.reader contract.name)
  let argsReader ← used (Name.reader (Name.initArgs contract.name))
  let init ← used (Name.contractInit contract.name)
  let slice := Target.id "$sc"
  let (bindArgs, values) ← loadArguments contract (Target.modify slice argsReader [])
  let ty ← selfTy contract
  let signature := (Signature.returning { name := Name.contractLoad contract.name } ty).impure
  return signature.inline.define
    [var slice (beginParse (call "get_data" [])),
      assign (id Helper.contextSys) (Target.modify slice "load_ref" []),
      var (id "$loaded") (Target.modify slice "load_int" [int 1]),
      ifThen (id "$loaded") [ret (Target.modify slice reader [])],
      bindArgs,
      .expr (method slice "end_parse" []),
      ret (call init values)]

/-- Stores the state and marks the contract as started. -/
def storeItem (contract : TypeDecl) : Gen Item := do
  let writer ← used (Name.writer contract.name)
  let ty ← selfTy contract
  let builder := Target.id "b"
  let signature := (Signature.param { name := Name.contractStore contract.name } ty "v").impure
  return signature.inline.define
    [var builder beginCell,
      assign builder (method builder "store_ref" [id Helper.contextSys]),
      assign builder (storeFlag builder true),
      assign builder (call writer [builder, id "v"]),
      .expr (call "set_data" [endCell builder])]

/-- Emit what a contract itself needs for its state. -/
def emitState (contract : TypeDecl) : Gen Unit := do
  define (.contract contract.name) (initItem contract)
  define (.contract contract.name) (loadItem contract)
  define (.contract contract.name) (storeItem contract)

/-- Emit what other contracts need to deploy a contract. -/
def emitChildSupport (contract : TypeDecl) : Gen Unit := do
  let args ← Record.ofInitArgs contract
  emitWriter args false
  emitReader args false
  define (.contract contract.name) (initChildItem contract)

end Generate

end CellCompiler
