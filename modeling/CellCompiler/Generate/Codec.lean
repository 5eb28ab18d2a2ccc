import CellCompiler.Generate.Helper

/-!
# Storage codecs

For a record with a plan, functions are emitted that store it in a builder and load it from a
slice. Both walk along the plan: each operation stores or loads one field, and each further cell of
the chain is filled in a builder of its own and hangs from the cell before it by its last reference.

* `Record` is what codecs are emitted for: a declared type or the arguments of a contract;
* `storeOp` and `loadOp` are the two sides of one operation;
* `emitWriter`, `emitReader`, `emitBouncedReader` and `emitOptionalCodecs` emit the functions.
-/

namespace CellCompiler

namespace Generate

open Emission (Section)
open Plan (Op OpKind Format Chain)
open Target

/-- A record with a plan. -/
structure Record where
  /-- The name that its codecs are named after. -/
  name : String
  fields : List (String × TypeRef)
  /-- Number of leading fields that survive a bounce. -/
  bounceCount : Nat
  plan : Plan
  place : Section

namespace Record

/-- A declared type with its plan. -/
def ofDecl (decl : TypeDecl) : Gen Record := do
  let plan ← ofExcept (((← read).program.plans.get decl.name).mapError .ofPlan)
  return { name := decl.name, fields := decl.fields.map fun f => (f.name, f.ty)
           bounceCount := decl.bounceCount, plan
           place := if decl.isContract then .contract decl.name else .type decl.name }

/-- The arguments that a contract is deployed with. -/
def ofInitArgs (contract : TypeDecl) : Gen Record := do
  let plan ← ofExcept (((← read).program.plans.getInitArgs contract.name).mapError .ofPlan)
  return { name := Name.initArgs contract.name
           fields := contract.initParams.map fun p => (p.name, p.ty)
           bounceCount := contract.initParams.length, plan, place := .contract contract.name }

/-- The fields that are there, perhaps after a bounce. -/
def visible (r : Record) (bounced : Bool) : List (String × TypeRef) :=
  if bounced then r.fields.take r.bounceCount else r.fields

/-- The shape of the record in the variable `v`. -/
def shape (r : Record) (bounced : Bool) : Gen Layout.Shape := do
  ofExcept (Layout.record (← table) (r.visible bounced) "v")

/-- The pattern of the field that an operation stores. -/
def fieldPattern (r : Record) (op : Op) : Gen Target.Expr :=
  match r.fields.lookup op.name with
  | some ty => unpack ty (Name.tick "v" op.name)
  | none => defect (.unknownPlannedField r.name op.name)

/-- Codecs of small records are copied to where they are called. -/
def isSmall (r : Record) : Gen Bool := do
  return r.plan.ops.length ≤ (← read).config.smallStructFields.toNat

end Record

/-! ### Storing -/

/-- The cell of a slice. -/
def sliceCell (slice : Target.Expr) : Target.Expr :=
  endCell (method beginCell "store_slice" [slice])

/-- Store a present value. -/
def storeOp (builder value : Target.Expr) : OpKind → Gen Target.Expr
  | .int bits => return method builder "store_int" [value, int bits.toNat]
  | .uint bits => return method builder "store_uint" [value, int bits.toNat]
  | .coins => return method builder "store_coins" [value]
  | .boolean => return method builder "store_int" [value, int 1]
  | .address => callHelper Helper.storeAddressName [builder, value]
  | .cell .reference => return method builder "store_ref" [value]
  | .cell .remainder => return method builder "store_slice" [beginParse value]
  | .slice .reference => return method builder "store_ref" [sliceCell value]
  | .slice .remainder => return method builder "store_slice" [value]
  | .builder .reference => return method builder "store_ref" [endCell value]
  | .builder .remainder => return method builder "store_builder" [value]
  | .string => return method builder "store_ref" [sliceCell value]
  | .fixedBytes _ => return method builder "store_slice" [value]
  | .map => return method builder "store_dict" [value]
  | .struct typeName false => callUsed (Name.writer typeName) [builder, value]
  | .struct typeName true => do
    return method builder "store_ref" [← callUsed (Name.writerCell typeName) [value]]

/-- Store one bit. -/
def storeFlag (builder : Target.Expr) (flag : Bool) : Target.Expr :=
  method builder "store_int" [.bool flag, int 1]

/-- Store a field; an optional one after a bit that tells whether it is present. -/
def storeField (builder : Target.Expr) (op : Op) (value : Target.Expr) : Gen Target.Expr := do
  if !op.optional then storeOp builder value op.kind
  else
    match op.kind with
    | .struct typeName false => callUsed (Name.writerOpt typeName) [builder, value]
    | kind =>
      let present ←
        match kind with
        | .struct typeName _ => callUsed (Name.notNull typeName) [value]
        | _ => pure value
      let stored ← storeOp (storeFlag builder true) present kind
      return .ternary (not (isNull value)) stored (storeFlag builder false)

/-- The builder of a cell of the chain. -/
def builderName (generation : Nat) : String := s!"build_{generation}"

/-- Store the fields of one cell. -/
def writeOps (r : Record) (builder : Target.Expr) : List Op → Gen (List Target.Stmt)
  | [] => return []
  | op :: rest => do
    let value ← r.fieldPattern op
    let stored ← storeField builder op value
    return assign builder stored :: (← writeOps r builder rest)

/-- Store the fields of a chain of cells. -/
def writeChain (r : Record) : (generation : Nat) → Chain → Gen (List Target.Stmt)
  | generation, .last ops => writeOps r (id (builderName generation)) ops
  | generation, .link ops next => do
    let builder := Target.id (builderName generation)
    let child := Target.id (builderName (generation + 1))
    let own ← writeOps r builder ops
    let below ← writeChain r (generation + 1) next
    return own ++ [var child beginCell] ++ below ++
      [assign builder (method builder "store_ref" [endCell child])]

/-- Store the opcode of a message. -/
def writeHeader (plan : Plan) : List Target.Stmt :=
  match plan.header with
  | some h =>
    [assign (id "build_0")
      (method (id "build_0") "store_uint" [int h.value.toNat, int h.bits.toNat])]
  | none => []

/-- Bind the leaves of a record in `v`, if it is a product. -/
def openRecord (shape : Layout.Shape) : List Target.Stmt :=
  if shape.isProduct then [var shape.pattern (id "v")] else []

/-- The function that stores a record in a builder. -/
def writerItem (r : Record) (inline : Bool) : Gen Item := do
  let shape ← r.shape false
  let body ← writeChain r 0 r.plan.root
  let signature := (Signature.param { name := Name.writer r.name } .builder "build_0").param
    shape.ty "v"
  return ((signature.returning .builder).inlineIf inline).define
    (openRecord shape ++ writeHeader r.plan ++ body ++ [ret (id "build_0")])

/-- The function that stores a record in a cell of its own. -/
def writerCellItem (r : Record) (inline : Bool) : Gen Item := do
  let shape ← r.shape false
  let stored ← callUsed (Name.writer r.name) [beginCell, id "v"]
  let signature := Signature.param { name := Name.writerCell r.name } shape.ty "v"
  return ((signature.returning .cell).inlineIf inline).define [ret (endCell stored)]

/-- Emit the functions that store a record. -/
def emitWriter (r : Record) (forceInline : Bool) : Gen Unit := do
  let inline := forceInline || (← r.isSmall)
  define r.place (writerItem r inline)
  define r.place (writerCellItem r inline)

/-! ### Loading -/

/-- The slice behind the next reference. -/
def loadReference (slice : Target.Expr) : Target.Expr :=
  beginParse (Target.modify slice "load_ref" [])

/-- Load a present value. -/
def loadOp (slice : Target.Expr) : OpKind → Gen Target.Expr
  | .int bits => return Target.modify slice "load_int" [int bits.toNat]
  | .uint bits => return Target.modify slice "load_uint" [int bits.toNat]
  | .coins => return Target.modify slice "load_coins" []
  | .boolean => return Target.modify slice "load_int" [int 1]
  | .address => do return Target.modify slice (← helper Helper.loadAddressName) []
  | .cell _ => return Target.modify slice "load_ref" []
  | .slice _ | .string => return loadReference slice
  | .builder _ => return method beginCell "store_slice" [loadReference slice]
  | .fixedBytes bytes => return Target.modify slice "load_bits" [int (bytes.toNat * 8)]
  | .map => return Target.modify slice "load_dict" []
  | .struct typeName false => do return Target.modify slice (← used (Name.reader typeName)) []
  | .struct typeName true => callUsed (Name.readerNotMut typeName) [loadReference slice]

/-- Load an optional value after the bit that tells whether it is present. -/
def loadOptional (slice : Target.Expr) : OpKind → Gen Target.Expr
  | .struct typeName false => do return Target.modify slice (← used (Name.readerOpt typeName)) []
  | kind => do
    let loaded ← loadOp slice kind
    let value ←
      match kind with
      | .struct typeName _ => callUsed (Name.asOptional typeName) [loaded]
      | _ => pure loaded
    return .ternary (Target.modify slice "load_int" [int 1]) value null

/-- Everything that is left in a slice, in the form of a kind. -/
def remainderOf (slice : Target.Expr) : OpKind → Target.Expr
  | .cell _ => sliceCell slice
  | .builder _ => method beginCell "store_slice" [slice]
  | _ => slice

/-- Load a field into its variables. -/
def loadField (slice : Target.Expr) (op : Op) (pattern : Target.Expr) :
    Gen (List Target.Stmt) := do
  if op.kind.isRemainder then
    let empty ← helper Helper.emptySliceName
    return [var pattern (remainderOf slice op.kind), assign slice (call empty [])]
  let value ← if op.optional then loadOptional slice op.kind else loadOp slice op.kind
  return [var pattern value]

/-- The slice of a cell of the chain. -/
def sliceName (generation : Nat) : String := s!"sc_{generation}"

/-- Load the fields of one cell. -/
def readOps (r : Record) (slice : Target.Expr) : List Op → Gen (List Target.Stmt)
  | [] => return []
  | op :: rest => do
    let pattern ← r.fieldPattern op
    let loaded ← loadField slice op pattern
    return loaded ++ (← readOps r slice rest)

/-- Load the first `limit` fields of a chain of cells. -/
def readChain (r : Record) : (limit generation : Nat) → Chain → Gen (List Target.Stmt)
  | limit, generation, .last ops => readOps r (id (sliceName generation)) (ops.take limit)
  | limit, generation, .link ops next => do
    let slice := Target.id (sliceName generation)
    let own ← readOps r slice (ops.take limit)
    if limit ≤ ops.length then return own
    let below ← readChain r (limit - ops.length) (generation + 1) next
    return own ++ [var (id (sliceName (generation + 1))) (loadReference slice)] ++ below

/-- Check the opcode of a message. -/
def readHeader (plan : Plan) : List Target.Stmt :=
  match plan.header with
  | some h =>
    [throwUnless ExitCode.invalidOpcode
      (eq (Target.modify (id "sc_0") "load_uint" [int h.bits.toNat]) (int h.value.toNat))]
  | none => []

/-- The value of a record whose leaves are bound; one without fields is an empty tuple. -/
def recordValue (shape : Layout.Shape) : Target.Expr :=
  if shape.isProduct then shape.pattern else emptyTuple

/-- The function that loads a record, or what is left of it after a bounce. -/
def readerItem (r : Record) (name : String) (bounced inline : Bool) : Gen Item := do
  let shape ← r.shape bounced
  let limit := if bounced then r.bounceCount else r.plan.ops.length
  let body ← readChain r limit 0 r.plan.root
  let signature := (Signature.param { name } .slice "sc_0").returning (.tensor [.slice, shape.ty])
  return (signature.inlineIf inline).define
    (readHeader r.plan ++ body ++ [ret (.tensor [id "sc_0", recordValue shape])])

/-- The function that loads a record which fills its slice. -/
def readerNotMutItem (r : Record) (inline : Bool) : Gen Item := do
  let shape ← r.shape false
  let reader ← used (Name.reader r.name)
  let signature := (Signature.param { name := Name.readerNotMut r.name } .slice "sc_0").returning
    shape.ty
  return (signature.inlineIf inline).define
    [var (id "v") (Target.modify (id "sc_0") reader []),
      .expr (method (id "sc_0") "end_parse" []),
      ret (id "v")]

/-- Emit the functions that load a record. -/
def emitReader (r : Record) (forceInline : Bool) : Gen Unit := do
  let inline := forceInline || (← r.isSmall)
  define r.place (readerItem r (Name.reader r.name) false inline)
  define r.place (readerNotMutItem r inline)

/-- Emit the function that loads what is left of a message after a bounce. -/
def emitBouncedReader (r : Record) (forceInline : Bool) : Gen Unit := do
  let inline := forceInline || (← r.isSmall)
  define r.place (readerItem r (Name.readerBounced r.name) true inline)

/-! ### Optional records -/

/-- Store a record that may be absent. -/
def writerOptItem (r : Record) : Gen Item := do
  let writer ← used (Name.writer r.name)
  let unbox ← used (Name.notNull r.name)
  let signature := (Signature.param { name := Name.writerOpt r.name } .builder "b").param
    .anyTuple "v"
  return (signature.returning .builder).inline.define
    [ifThen (isNull (id "v")) [ret (storeFlag (id "b") false)],
      assign (id "b") (storeFlag (id "b") true),
      ret (call writer [id "b", call unbox [id "v"]])]

/-- Store a record that may be absent in a cell of its own. -/
def writerCellOptItem (r : Record) : Gen Item := do
  let writer ← used (Name.writerCell r.name)
  let unbox ← used (Name.notNull r.name)
  let signature := Signature.param { name := Name.writerCellOpt r.name } .anyTuple "v"
  return (signature.returning .cell).inline.define
    [ifThen (isNull (id "v")) [ret null], ret (call writer [call unbox [id "v"]])]

/-- Load a record that may be absent. -/
def readerOptItem (r : Record) : Gen Item := do
  let reader ← used (Name.reader r.name)
  let box ← used (Name.asOptional r.name)
  let signature := Signature.param { name := Name.readerOpt r.name } .slice "sc"
  return (signature.returning (.tensor [.slice, .anyTuple])).inline.define
    [ifElse (Target.modify (id "sc") "load_int" [int 1])
      [var (id "v") (Target.modify (id "sc") reader []),
        ret (.tensor [id "sc", call box [id "v"]])]
      [ret (.tensor [id "sc", null])]]

/-- Load a record from a cell that may be absent. -/
def readerCellOptItem (r : Record) : Gen Item := do
  let reader ← used (Name.readerNotMut r.name)
  let box ← used (Name.asOptional r.name)
  let signature := Signature.param { name := Name.readerCellOpt r.name } .cell "cl"
  return (signature.returning .anyTuple).inline.define
    [ifThen (isNull (id "cl")) [ret null],
      var (id "sc") (beginParse (id "cl")),
      ret (call box [call reader [id "sc"]])]

/-- Emit the functions that store and load a record which may be absent. -/
def emitOptionalCodecs (r : Record) : Gen Unit := do
  define r.place (writerOptItem r)
  define r.place (writerCellOptItem r)
  define r.place (readerOptItem r)
  define r.place (readerCellOptItem r)

/-- Emit every codec of a struct or message. -/
def emitCodecs (decl : TypeDecl) : Gen Unit := do
  let r ← Record.ofDecl decl
  emitWriter r false
  emitReader r false
  if decl.header.isSome then emitBouncedReader r false
  emitOptionalCodecs r

end Generate

end CellCompiler
