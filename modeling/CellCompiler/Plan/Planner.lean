import CellCompiler.Plan.Basic
import CellCompiler.Plan.Usage
import CellCompiler.Source.Table

/-!
# Making plans

`planProgram` makes a plan for every struct, message and contract of a program and for the
arguments of every contract. Fields are placed in their order. While more fields follow, one
reference is kept free for the next cell; a record that does not fit goes behind a reference, and
a field that still does not fit opens a new cell.
-/

namespace CellCompiler

namespace Plan

/-! ### Operations of fields -/

/-- A field whose format is `remaining` takes everything that is left. -/
def remainderFormat (format : Option String) : Format :=
  if format = some "remaining" then .remainder else .reference

/-- How a value of a built-in type is stored. -/
def primitiveKind (format : Option String) : PrimitiveKind → Except Unsupported OpKind
  | .int =>
    match intKind format with
    | some kind => .ok kind
    | none => .error (.intFormat (format.getD ""))
  | .bool => .ok .boolean
  | .address => .ok .address
  | .cell => .ok (.cell (remainderFormat format))
  | .builder => .ok (.builder (remainderFormat format))
  | .slice =>
    match format with
    | some "bytes32" => .ok (.fixedBytes 32)
    | some "bytes64" => .ok (.fixedBytes 64)
    | _ => .ok (.slice (remainderFormat format))
  | .string =>
    match remainderFormat format with
    | .remainder => .ok (.slice .remainder)
    | .reference => .ok .string
  | .stringBuilder => .error .stringBuilder

/-- How a value of a declared type is stored; a record is stored in place. -/
def declKind (decl : TypeDecl) (format : Option String) : Except Unsupported OpKind :=
  match decl.primitive? with
  | some kind => primitiveKind format kind
  | none => .ok (.struct decl.name false)

/-- The operation for a field of a type. -/
def typeOp (table : TypeTable) (owner name : String) (ty : TypeRef) (format : Option String) :
    Except Error Op :=
  let unsupported reason := Error.invalid owner (.unsupported name reason)
  match ty with
  | .named typeName optional =>
    match table.types.get? typeName with
    | none => .error (.unknownType typeName)
    | some decl =>
      match declKind decl format with
      | .error reason => .error (unsupported reason)
      | .ok kind =>
        if optional && kind.isRemainder then .error (unsupported .optionalRemainder)
        else .ok ⟨name, kind, optional⟩
  | .map .. => .ok ⟨name, .map, false⟩
  | other => .error (unsupported (.type other.text))

/-- The operation for a field. -/
def fieldOp (table : TypeTable) (owner : String) (field : Field) : Except Error Op :=
  typeOp table owner field.name field.ty field.format

/-- The operation for a parameter. -/
def paramOp (table : TypeTable) (owner : String) (param : Param) : Except Error Op :=
  typeOp table owner param.name param.ty none

/-! ### Placing operations in cells -/

/-- A record in place that takes everything that is left goes behind a reference. -/
def closeOp (all : Plans) (op : Op) : Except Error Op := do
  match op.kind.inline? with
  | none => pure op
  | some typeName =>
    if ← all.isOpenEnded (← all.get typeName) then
      pure { op with kind := op.kind.behindReference }
    else pure op

/-- Close every record that something follows. -/
def closeOps (all : Plans) : List Op → Except Error (List Op)
  | [] => .ok []
  | [op] => .ok [op]
  | op :: rest => do
    let closed ← closeOp all op
    let others ← closeOps all rest
    pure (closed :: others)

/-- The operation as it fits in a cell that holds `used` already, with the new total. A reference
stays free if more operations follow. -/
def fit (all : Plans) (used : Usage) (more : Bool) (op : Op) :
    Except Error (Option (Op × Usage)) := do
  let reserve : Usage := ⟨0, if more then 1 else 0⟩
  let inPlace := used.add (← all.opUsage op)
  if (inPlace.add reserve).fits then return some (op, inPlace)
  if op.kind.isStruct then
    let closed := { op with kind := op.kind.behindReference }
    let behind := used.add (← all.opUsage closed)
    if (behind.add reserve).fits then return some (closed, behind)
  return none

/-- Place operations in a chain whose first cell holds `placed` and takes `used`. -/
def place (all : Plans) (typeName : String) :
    (used : Usage) → (placed : List Op) → List Op → Except Error Chain
  | _, placed, [] => .ok (.last placed)
  | used, placed, op :: rest => do
    match ← fit all used (!rest.isEmpty) op with
    | some (op, used) => place all typeName used (placed ++ [op]) rest
    | none =>
      if placed.isEmpty then throw (.invalid typeName (.doesNotFit op.name))
      match ← fit all {} (!rest.isEmpty) op with
      | some (op, used) => return .link placed (← place all typeName used [op] rest)
      | none => throw (.invalid typeName (.doesNotFit op.name))

/-! ### Plans of a program -/

/-- Width of the opcode of a message. -/
def headerBits : UInt16 := 32

/-- The plan of a record whose fields have these operations, given the plans of their types. -/
def ofOps (all : Plans) (name : String) (header : Option Header) (ops : List Op) :
    Except Error Plan := do
  let ops ← closeOps all ops
  let used : Usage := ⟨(header.map (·.bits.toNat)).getD 0, 0⟩
  return .ofChain header (← place all name used [] ops)

/-- The records that operations hold. -/
def nestedTypes (ops : List Op) : List String :=
  ops.filterMap fun op =>
    match op.kind with
    | .struct typeName _ => some typeName
    | _ => none

/-- Plan a record after the records in its fields; `pending` lists the records being planned. -/
def planType (table : TypeTable) :
    (fuel : Nat) → (pending : List String) → Plans → String → Except Error Plans
  | 0, _, _, _ => .error .endless
  | fuel + 1, pending, all, name => do
    if all.types.contains name then return all
    if pending.contains name then throw (.invalid name .embedsItself)
    match table.types.get? name with
    | none => throw (.unknownType name)
    | some decl =>
      let ops ← decl.fields.mapM (fieldOp table name)
      let all ← (nestedTypes ops).foldlM (planType table fuel (name :: pending)) all
      let header := decl.header.map fun value => Header.mk value headerBits
      let plan ← ofOps all name header ops
      return { all with types := all.types.insert name plan }

/-- Plan the arguments of a contract. -/
def planInitArgs (table : TypeTable) (all : Plans) (contract : TypeDecl) : Except Error Plans := do
  let ops ← contract.initParams.mapM (paramOp table contract.name)
  let plan ← ofOps all contract.name none ops
  return { all with initArgs := all.initArgs.insert contract.name plan }

end Plan

/-- Plan every record of a program and the arguments of every contract. -/
def planProgram (table : TypeTable) : Except Plan.Error Plans := do
  let records := table.types.values.filter TypeDecl.isStructLike
  let all ← records.foldlM
    (fun all decl => Plan.planType table (table.types.size + 1) [] all decl.name) {}
  table.contracts.foldlM (Plan.planInitArgs table) all

end CellCompiler
