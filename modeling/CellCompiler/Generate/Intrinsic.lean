import CellCompiler.Generate.MapKind
import CellCompiler.Generate.Operand

/-!
# Calls that the compiler knows itself

* `globalCall` lowers a call such as `require` or `sha256`;
* `instanceCall` and `typeCall` lower the conversions between records and cells;
* `mapCall` lowers a method of a map.

The first three answer with nothing if they do not know the name.
-/

namespace CellCompiler

namespace Generate

open Target

/-! ### Free-standing calls -/

/-- Fail because of a wrong number of arguments. -/
def wrongCount {α : Type} (name : String) (expected : Nat) (args : List Operand) (loc : Location) :
    Gen α :=
  defectAt (.argumentCount name expected args.length) loc

/-- Stop unless a condition holds, with a code taken from a constant message. -/
def requireCall (cond message : Operand) : Gen Target.Expr := do
  match ← message.constantString with
  | none => misuseAt .requireMessage message.loc
  | some text => return call "throw_unless" [int (ExitCode.ofMessage text), ← cond.code]

/-- The digest of a text or a slice; that of a constant text is computed right away. -/
def hashCall (arg : Operand) : Gen Target.Expr := do
  match ← arg.constantString with
  | some text => return int (stringHash text)
  | none =>
    match ← primitiveOf arg.ty with
    | some .string => return call "string_hash" [← arg.code]
    | some .slice => return call "slice_hash" [← arg.code]
    | _ => misuseAt (.hashOf arg.ty) arg.loc

/-- A constant address. -/
def addressCall (arg : Operand) (ty : TypeRef) : Gen Target.Expr := do
  match ← arg.constantString with
  | none => misuseAt .addressNotConstant arg.loc
  | some text =>
    match Address.read text with
    | .ok a => literal (.address a) ty
    | .error fault => misuseAt (.badAddress fault) arg.loc

/-- A call of a target function on one argument. -/
def call1 (name callee : String) (args : List Operand) (loc : Location) : Gen Target.Expr :=
  match args with
  | [a] => do return call callee [← a.code]
  | args => wrongCount name 1 args loc

/-- A call of a target function on two arguments. -/
def call2 (name callee : String) (args : List Operand) (loc : Location) : Gen Target.Expr :=
  match args with
  | [a, b] => do
    let first ← a.code
    return call callee [first, ← b.code]
  | args => wrongCount name 2 args loc

/-- A free-standing call that the compiler knows itself. -/
def globalCall (info : Expr.Info) (name : String) (args : List Operand) :
    Gen (Option Target.Expr) :=
  match name with
  | "require" =>
    match args with
    | [cond, message] => some <$> requireCall cond message
    | args => wrongCount name 2 args info.loc
  | "throw" => some <$> call1 name "throw" args info.loc
  | "throwIf" => some <$> call2 name "throw_if" args info.loc
  | "throwUnless" => some <$> call2 name "throw_unless" args info.loc
  | "emptyMap" => return some null
  | "emptyCell" => return some (endCell beginCell)
  | "emptySlice" => return some (beginParse (endCell beginCell))
  | "beginCell" => return some beginCell
  | "sender" => some <$> callHelper Helper.contextGetSenderName []
  | "myAddress" => return some (call "my_address" [])
  | "now" => return some (call "now" [])
  | "min" => some <$> call2 name "min" args info.loc
  | "max" => some <$> call2 name "max" args info.loc
  | "abs" => some <$> call1 name "abs" args info.loc
  | "sha256" =>
    match args with
    | [arg] => some <$> hashCall arg
    | args => wrongCount name 1 args info.loc
  | "address" =>
    match args with
    | [arg] => some <$> addressCall arg info.ty
    | args => wrongCount name 1 args info.loc
  | _ => return none

/-! ### Records and cells -/

/-- The cell of a record. -/
def toCell (decl : TypeDecl) (receiver : Operand) (name : String) (args : List Operand) :
    Gen Target.Expr := do
  unless args.isEmpty do defectAt (.noArguments name) receiver.loc
  let value ← receiver.code
  callUsed (Name.writerCell decl.name) [value]

/-- A record turned into a cell or a slice. -/
def instanceCall (decl : TypeDecl) (receiver : Operand) (name : String) (args : List Operand) :
    Gen (Option Target.Expr) :=
  match name with
  | "toCell" => some <$> toCell decl receiver name args
  | "toSlice" => return some (beginParse (← toCell decl receiver name args))
  | _ => return none

/-- A record read from a cell or a slice, which it must fill. -/
def typeCall (decl : TypeDecl) (name : String) (args : List Operand) (loc : Location) :
    Gen (Option Target.Expr) :=
  match name, args with
  | "fromCell", [cell] => do
    let source := beginParse (← cell.code)
    some <$> callUsed (Name.readerNotMut decl.name) [source]
  | "fromSlice", [slice] => do
    let source ← slice.code
    some <$> callUsed (Name.readerNotMut decl.name) [source]
  | "fromCell", _ => defectAt (.oneArgument decl.name name) loc
  | "fromSlice", _ => defectAt (.oneArgument decl.name name) loc
  | _, _ => return none

/-! ### Maps -/

/-- The name of a dictionary operation, recorded as used and supplied by the target. -/
def dictionary (name : String) : Gen String := do
  let name ← used name
  skip name
  return name

/-- The variable of a map that is to be changed. -/
def mapVariable (receiver : Operand) (name : String) : Gen Target.Expr := do
  unless receiver.source.isPath do misuseAt (.mapReceiver name) receiver.loc
  lvalue receiver.source

/-- A value as it goes into a map: a record goes in as its cell. -/
def mapValue (kind : MapKind) (value : Operand) : Gen Target.Expr := do
  let code ← value.code
  match kind.value with
  | .struct typeName =>
    if value.source.isNullLiteral then return code
    if value.ty.isOptional then callUsed (Name.writerCellOpt typeName) [code]
    else callUsed (Name.writerCell typeName) [code]
  | _ => return code

/-- Look up a key. -/
def mapGet (kind : MapKind) (receiver key : Operand) : Gen Target.Expr := do
  let map ← receiver.code
  let key ← key.code
  let operation ← dictionary (kind.operation "get")
  return call operation (kind.withValueBits [map, int kind.keyBits, key])

/-- Enter a value under a key. -/
def mapSet (kind : MapKind) (receiver : Operand) (name : String) (key value : Operand) :
    Gen Target.Expr := do
  let map ← mapVariable receiver name
  let key ← key.code
  let value ← mapValue kind value
  let operation ← dictionary (kind.operation name)
  return Target.modify map operation (kind.withValueBits [int kind.keyBits, key, value])

/-- Remove a key. -/
def mapDelete (kind : MapKind) (receiver : Operand) (name : String) (key : Operand) :
    Gen Target.Expr := do
  let map ← mapVariable receiver name
  let key ← key.code
  let operation ← dictionary (kind.keyOperation "delete")
  return Target.modify map operation [int kind.keyBits, key]

/-- The methods of a map. -/
def mapMethods : List String := ["get", "exists", "set", "replace", "del", "isEmpty", "asCell"]

/-- A method of a map. -/
def mapCall (receiver : Operand) (name : String) (args : List Operand) (loc : Location) :
    Gen Target.Expr := do
  let kind ← ofExcept (MapKind.of (← table) receiver.ty receiver.loc)
  match name, args with
  | "get", [key] =>
    let raw ← mapGet kind receiver key
    match kind.value with
    | .struct typeName => callUsed (Name.readerCellOpt typeName) [raw]
    | _ => return raw
  | "exists", [key] => return not (isNull (← mapGet kind receiver key))
  | "set", [key, value] => mapSet kind receiver name key value
  | "replace", [key, value] => mapSet kind receiver name key value
  | "del", [key] => mapDelete kind receiver name key
  | "isEmpty", [] => return isNull (← receiver.code)
  | "asCell", [] => receiver.code
  | _, _ =>
    if mapMethods.contains name then defectAt (.mapArguments name) loc
    else misuseAt (.unknownMapMethod name) loc

end Generate

end CellCompiler
