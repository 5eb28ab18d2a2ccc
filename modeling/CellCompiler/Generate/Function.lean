import CellCompiler.Generate.Stmt

/-!
# Emitted functions of the source

A function keeps its shape. A method takes `self` first and, if it may change it, gives the changed
`self` back in front of its result. Parameters that are records come as products and are bound field
by field before anything else.
-/

namespace CellCompiler

namespace Generate

open Emission (Section)
open Target

/-- A parameter as it is emitted: its variable and its type. -/
abbrev Binding := String × TypeRef

/-- The emitted name of a function. -/
def functionName (f : Function) : Gen String :=
  match f.selfType with
  | none => return Name.globalFunction f.name
  | some ty =>
    match ty.name? with
    | some owner => return Name.method owner f.name
    | none => defect (.methodOwner f.name ty)

/-- The part of the module that a function belongs to. -/
def functionSection (f : Function) : Gen Section :=
  match f.selfType.bind TypeRef.name? with
  | none => return .functions
  | some owner => do
    if (← declOf owner).isContract then return .contract owner else return .type owner

/-- Parameters that are records, bound field by field. -/
def prologue : List Binding → Gen (List Target.Stmt)
  | [] => return []
  | (name, ty) :: rest => do
    if ← isUnpacked ty then
      let first := var (← unpack ty name) (id name)
      return first :: (← prologue rest)
    else prologue rest

/-- The return at the end of a body that has no result and does not leave by itself. -/
def epilogue (s : Scope) (stmts : List Stmt) : Gen (List Target.Stmt) := do
  if s.returns = .void ∧ ¬ endsWithReturn stmts then return [ret (← s.returned none)]
  else return []

/-- The whole body of a function. -/
def lowerBody (s : Scope) (params : List Binding) (stmts : List Stmt) :
    Gen (List Target.Stmt) := do
  let before ← prologue params
  let body ← lowerStmts s stmts
  return before ++ body ++ (← epilogue s stmts)

/-- Add parameters with their target types. -/
def withBindings (signature : Signature) : List Binding → Gen Signature
  | [] => return signature
  | (name, ty) :: rest => do withBindings (signature.param (← representation ty) name) rest

/-- The parameters of a function, `self` first. -/
def bindingsOf (f : Function) : List Binding :=
  let params := f.params.map fun p => (Name.var p.name, p.ty)
  match f.selfType with
  | some ty => (Name.self, ty) :: params
  | none => params

/-- What the body of a function is lowered inside of. -/
def scopeOf (f : Function) : Scope :=
  match f.selfType with
  | some ty => .method ty f.mutates f.returns
  | none => .function f.returns

/-- The target type of what a function gives back. -/
def resultTy (f : Function) : Gen Ty := do
  let result ← representation f.returns
  match f.selfType, f.mutates with
  | some ty, true => return .tensor [← representation ty, result]
  | _, _ => return result

/-- The function that runs a method which may change `self` on a value that is not kept. -/
def notMutItem (f : Function) (name : String) : Gen Item := do
  let bindings := bindingsOf f
  let signature ← withBindings (Signature.impure { name := Name.notMut name }) bindings
  let args := bindings.tail.map fun (param, _) => id param
  let result ← representation f.returns
  let callee ← used name
  return (signature.returning result).inline.define
    [var (id "res") (Target.modify (id Name.self) callee args), ret (id "res")]

/-- The function itself. -/
def functionItem (f : Function) (name : String) (stmts : List Stmt) : Gen Item := do
  let bindings := bindingsOf f
  let signature ← withBindings (Signature.impure { name }) bindings
  let result ← resultTy f
  let body ← lowerBody (scopeOf f) bindings stmts
  return ((signature.inlineIf f.inline).returning result).define body

/-- Emit a function of the source, with a second one if it is a method that may change `self`. -/
def emitFunction (f : Function) : Gen Unit := do
  match f.body with
  | .native name => skip name
  | .abstract => return
  | .statements stmts =>
    let name ← functionName f
    let place ← functionSection f
    define place (functionItem f name stmts)
    if f.mutates && f.selfType.isSome then define place (notMutItem f name)

end Generate

end CellCompiler

/-!
## Message handlers

Every message handler of a contract becomes a function that takes `self` and, unless the message
has no content, its payload, and gives back the changed `self`.

* `receiverName` is the name of the function, one for each direction and selector;
* `payloadType?` is the type of the payload;
* `emitReceiver` emits the function.
-/

namespace CellCompiler

open Target

/-- The part of the name of a handler that tells which messages it takes. Text messages are told
apart by the hash of their cell. -/
def MessageSelector.label : MessageSelector → Except Cell.Error String
  | binary typeName => .ok ("binary_" ++ typeName)
  | empty => .ok "empty"
  | comment text => do return "comment_" ++ (← commentCell text).hashHex
  | commentFallback => .ok "comment_fallback"
  | fallback => .ok "fallback"

/-- The type of the payload of a message. -/
def MessageSelector.payloadType? : MessageSelector → Option TypeRef
  | binary typeName => some (.plain typeName)
  | empty | comment _ => none
  | commentFallback | fallback => some (.plain PrimitiveKind.slice.typeName)

/-- The name of the function of a handler. -/
def receiverName (contract : String) : ReceiverSelector → Except Cell.Error String
  | .internal selector => do return Name.receiver contract "internal" (← selector.label)
  | .external selector => do return Name.receiver contract "external" (← selector.label)
  | .bounceBinary typeName _ => .ok (Name.receiver contract "bounced" ("binary_" ++ typeName))
  | .bounceFallback => .ok (Name.receiver contract "bounced" "fallback")

/-- The type of the payload that a handler is called with. -/
def ReceiverSelector.payloadType? : ReceiverSelector → Option TypeRef
  | internal selector | external selector => selector.payloadType?
  | bounceBinary typeName true => some (.bounced typeName)
  | bounceBinary typeName false => some (.plain typeName)
  | bounceFallback => some (.plain PrimitiveKind.slice.typeName)

namespace Generate

/-- The parameters of a handler: `self` and the payload. -/
def receiverBindings (contract : TypeDecl) (receiver : Receiver) : List Binding :=
  let self := (Name.self, .plain contract.name)
  match receiver.selector.payloadType? with
  | some ty => [self, (Name.var (receiver.param.getD "_"), ty)]
  | none => [self]

/-- The function of a handler. -/
def receiverItem (contract : TypeDecl) (receiver : Receiver) (name : String) : Gen Item := do
  let bindings := receiverBindings contract receiver
  let signature ← withBindings (Signature.impure { name }).inline bindings
  let self ← representation (.plain contract.name)
  let body ← lowerBody (.handler contract.name) bindings receiver.body
  return (signature.returning (.tensor [self, .unit])).define body

/-- A handler that has been emitted. -/
structure Handler where
  selector : ReceiverSelector
  /-- The name of its function. -/
  name : String
  deriving DecidableEq

/-- Emit a handler. -/
def emitReceiver (contract : TypeDecl) (receiver : Receiver) : Gen Handler := do
  let name ← ofCell (receiverName contract.name receiver.selector)
  define (.contract contract.name) (receiverItem contract receiver name)
  return { selector := receiver.selector, name }

end Generate

end CellCompiler
