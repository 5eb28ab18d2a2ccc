import CellCompiler.Generate.Accessor
import CellCompiler.Generate.Router
import CellCompiler.Generate.State

/-!
# Contracts

A contract is emitted as the codecs of its state, its functions, its handlers with a router for each
direction, the entry points, and a get-method for every method that can be called from outside.

* `recvInternalItem` and `recvExternalItem` are the entry points;
* `getMethodItem` is a get-method;
* `emitContract` emits everything and gives the names that can be called from outside.
-/

namespace CellCompiler

namespace Generate

open Target

/-! ### Entry points -/

/-- Load the state, route the message and store the state; a message that nobody takes stops the
run. -/
def runMessage (load store router : String) (args : List Target.Expr) : List Target.Stmt :=
  let self := Target.id Name.self
  [var self (call load []),
    var (id "handled") (Target.modify self router args),
    throwUnless ExitCode.invalidMessage (id "handled"),
    .expr (call store [self])]

/-- The entry point for internal messages, which records the message before it is routed. -/
def recvInternalItem (contract : TypeDecl) : Gen Item := do
  let verify ← helper Helper.verifyAddressName
  let load ← used (Name.contractLoad contract.name)
  let store ← used (Name.contractStore contract.name)
  let router ← used (Name.routerInternal contract.name)
  let signature := ((Signature.param { name := Name.recvInternal } .int "msg_value").param .cell
    "in_msg_cell").param .slice "in_msg"
  return signature.impure.define <|
    [var (id "cs") (beginParse (id "in_msg_cell")),
      var (id "msg_flags") (Target.modify (id "cs") "load_uint" [int 4]),
      var (id "msg_bounced") (.unary .neg (.binary .and (id "msg_flags") (int 1))),
      typedVar .slice "msg_sender_addr"
        (call verify [Target.modify (id "cs") "load_msg_addr" []]),
      assign (id Helper.context)
        (.tensor [id "msg_bounced", id "msg_sender_addr", id "msg_value", id "cs"]),
      assign (id Helper.contextSender) (id "msg_sender_addr")] ++
    runMessage load store router [id "msg_bounced", id "in_msg"]

/-- The entry point for external messages. -/
def recvExternalItem (contract : TypeDecl) : Gen Item := do
  let load ← used (Name.contractLoad contract.name)
  let store ← used (Name.contractStore contract.name)
  let router ← used (Name.routerExternal contract.name)
  return (Signature.param { name := Name.recvExternal } .slice "in_msg").impure.define
    (runMessage load store router [id "in_msg"])

/-! ### Get-methods -/

/-- Add the parameters of a get-method, and give the arguments of the method behind it. Records come
as tuples and addresses are checked. -/
def getMethodParams (signature : Signature) : List CellCompiler.Param →
    Gen (Signature × List Target.Expr)
  | [] => return (signature, [])
  | p :: rest => do
    let name := Name.var p.name
    let ty ←
      match ← structOf p.ty with
      | some _ => pure .anyTuple
      | none => representation p.ty
    let arg ← fromOutside p.ty (id name)
    let (signature, args) ← getMethodParams (signature.param ty name) rest
    return (signature, arg :: args)

/-- The result of a get-method, with its target type. -/
def getMethodResult (returns : TypeRef) : Gen (Ty × Target.Expr) := do
  match ← structOf returns with
  | some nested =>
    if returns.isOptional then
      return (.anyTuple, ← callUsed (Name.toOptExternal nested.name) [id "res"])
    else
      let ty ← externalTy nested
      return (ty, ← callUsed (Name.toExternal nested.name) [id "res"])
  | none => return (← representation returns, id "res")

/-- The number under which a get-method is called. -/
def methodIdOf (f : Function) : UInt32 := f.methodId.getD (defaultMethodId f.name)

/-- A get-method, which runs a method of the contract on the loaded state. -/
def getMethodItem (contract : TypeDecl) (f : Function) : Gen Item := do
  let load ← used (Name.contractLoad contract.name)
  let callee ← used (← functionName f)
  let signature := Signature.withAttribute { name := Name.getterMethod f.name }
    (.methodId (some (methodIdOf f)))
  let (signature, args) ← getMethodParams signature f.params
  let self := Target.id Name.self
  let result := if f.mutates then Target.modify self callee args else call callee (self :: args)
  let (ty, value) ← getMethodResult f.returns
  return (signature.returning ty).define
    [var self (call load []), var (id "res") result, ret value]

/-- Emit a get-method and give its name. -/
def emitGetMethod (contract : TypeDecl) (f : Function) : Gen String := do
  match f.body with
  | .abstract => defect (.getterWithoutBody f.name)
  | _ =>
    define (.contract contract.name) (getMethodItem contract f)
    return Name.getterMethod f.name

/-! ### The contract -/

/-- Emit the codecs of the state. -/
def emitStateCodecs (contract : TypeDecl) : Gen Unit := do
  let state ← Record.ofDecl contract
  emitWriter state false
  emitReader state false

/-- Emit the entry points and give their names. -/
def emitEntryPoints (contract : TypeDecl) (handlers : List Handler) : Gen (List String) := do
  let place := Emission.Section.contract contract.name
  emitRouter contract handlers .internal
  define place (recvInternalItem contract)
  if handlers.any Handler.isExternal then
    emitRouter contract handlers .external
    define place (recvExternalItem contract)
    return [Name.recvInternal, Name.recvExternal]
  else return [Name.recvInternal]

/-- Emit a contract, and give the names that can be called from outside. -/
def emitContract (contract : TypeDecl) : Gen (List String) := do
  if !contract.isContract then defect (.notAContract contract.name)
  if (← read).config.debugComments then
    onRegistry (·.addHeader (.comment [s!"Contract {contract.name}"]))
  declareContext
  emitStateCodecs contract
  contract.functions.values.forM emitFunction
  emitState contract
  let handlers ← contract.receivers.mapM (emitReceiver contract)
  let entryPoints ← emitEntryPoints contract handlers
  let getMethods ← contract.getters.mapM (emitGetMethod contract)
  return entryPoints ++ getMethods

end Generate

end CellCompiler
