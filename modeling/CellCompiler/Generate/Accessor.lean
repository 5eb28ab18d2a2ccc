import CellCompiler.Generate.Helper

/-!
# Conversions of records

A record is passed on the stack as the product of its fields, in a tuple when it is optional, and
with nested tuples when it crosses the border of the contract. For every record functions are
emitted that take out fields and convert between these forms.
-/

namespace CellCompiler

namespace Generate

open Target

/-! ### What a record looks like -/

/-- A record with the views of it that conversions use. -/
structure RecordView where
  decl : TypeDecl
  /-- Its target type. -/
  ty : Ty
  /-- The pattern that binds every leaf, under the variable `v`. -/
  pattern : Target.Expr
  /-- The variables of all leaves, which are the entries of the optional form. -/
  leaves : List Target.Expr

/-- The views of a record. -/
def recordView (decl : TypeDecl) : Gen RecordView := do
  let types ← table
  let ref := TypeRef.plain decl.name
  let ty ← representation ref
  let pattern ← unpack ref "v"
  let shape ← ofExcept (Layout.shapeWith types { optional := some false } ref "v")
  return { decl, ty, pattern, leaves := shape.leaves.map fun (name, _) => id name }

/-- The variable of a field as a whole. -/
def fieldVar (field : Field) : Target.Expr := id (Name.tick "v" field.name)

/-- The pattern that binds every leaf of a field. -/
def fieldPattern (field : Field) : Gen Target.Expr := unpack field.ty (Name.tick "v" field.name)

namespace RecordView

/-- The name of the record. -/
def name (r : RecordView) : String := r.decl.name

/-- The record has no fields. -/
def isEmpty (r : RecordView) : Bool := r.decl.fields.isEmpty

/-- The pattern that binds every field as a whole. -/
def fieldVars (r : RecordView) : Target.Expr := .tensor (r.decl.fields.map fieldVar)

/-- Bind the leaves of a record in `v`. -/
def bindLeaves (r : RecordView) : Target.Stmt := var r.pattern (id "v")

/-- A conversion of `v`. -/
def conversion (name : String) (param result : Ty) (body : List Target.Stmt) : Item :=
  ((Signature.param { name } param "v").returning result).inline.define body

/-- Take out one field. -/
def getterItem (r : RecordView) (field : Field) : Gen Item := do
  let result ← representation field.ty
  let value ← fieldPattern field
  return conversion (Name.getter r.name field.name) r.ty result [r.bindLeaves, ret value]

/-- The identity, which keeps the shape of a record that is the only argument. -/
def tensorCastItem (r : RecordView) : Item :=
  .asm ((Signature.param { name := Name.tensorCast r.name } r.ty "v").returning r.ty) ["NOP"]

/-- Open the optional form; an absent record stops the run. -/
def notNullItem (r : RecordView) : Gen Item := do
  let check := throwIf ExitCode.nullReference (isNull (id "v"))
  let body ←
    if r.isEmpty then pure [check, ret (id "v")]
    else do
      let destroy ← helper (Helper.tupleDestroyName r.leaves.length)
      pure [check, var (.tensor r.leaves) (call destroy [id "v"]), ret r.pattern]
  return conversion (Name.notNull r.name) .anyTuple r.ty body

/-- Make the optional form. -/
def asOptionalItem (r : RecordView) : Gen Item := do
  let body ←
    if r.isEmpty then pure [ret (id "v")]
    else do
      let create ← helper (Helper.tupleCreateName r.leaves.length)
      pure [r.bindLeaves, ret (call create [.tensor r.leaves])]
  return conversion (Name.asOptional r.name) r.ty .anyTuple body

end RecordView

/-! ### Tuples -/

/-- A field on its way into a tuple: a record becomes a tuple. -/
def tupleField (field : Field) : Gen Target.Expr := do
  match ← structOf field.ty with
  | some nested =>
    if field.ty.isOptional then callUsed (Name.toOptTuple nested.name) [fieldVar field]
    else
      let name ← used (Name.toTuple nested.name)
      return call name [← fieldPattern field]
  | none => fieldPattern field

/-- A field on its way out of a tuple. -/
def untupleField (field : Field) : Gen Target.Expr := do
  match ← structOf field.ty with
  | some nested =>
    if field.ty.isOptional then callUsed (Name.fromOptTuple nested.name) [fieldVar field]
    else callUsed (Name.fromTuple nested.name) [fieldVar field]
  | none => return fieldVar field

/-- A record from outside, given as a tuple of its external form. -/
def fromExternalValue (decl : TypeDecl) (optional : Bool) (value : Target.Expr) :
    Gen Target.Expr := do
  if optional then callUsed (Name.fromOptExternal decl.name) [value]
  else
    let convert ← used (Name.fromExternal decl.name)
    if decl.fields.isEmpty then return call convert [value]
    let destroy ← helper (Helper.tupleDestroyName decl.fields.length)
    return call convert [call destroy [value]]

/-- An address from outside, checked unless it is absent. -/
def verifiedAddress (ty : TypeRef) (value : Target.Expr) : Gen Target.Expr := do
  let verified ← callHelper Helper.verifyAddressName [value]
  return if ty.isOptional then .ternary (isNull value) null verified else verified

/-- A value from outside: records are converted and addresses checked. -/
def fromOutside (ty : TypeRef) (value : Target.Expr) : Gen Target.Expr := do
  match ← structOf ty with
  | some nested => fromExternalValue nested ty.isOptional value
  | none =>
    match ← primitiveOf ty with
    | some .address => verifiedAddress ty value
    | _ => return value

namespace RecordView

/-- Turn a record into a tuple. -/
def toTupleItem (r : RecordView) : Gen Item := do
  let body ←
    if r.isEmpty then pure [ret (id "v")]
    else do
      let items ← r.decl.fields.mapM tupleField
      let create ← helper (Helper.tupleCreateName items.length)
      pure [r.bindLeaves, ret (call create [.tensor items])]
  return conversion (Name.toTuple r.name) r.ty .anyTuple body

/-- Return an absent value as it is. -/
def passNull : Target.Stmt := ifThen (isNull (id "v")) [ret null]

/-- Turn an optional record into a tuple. -/
def toOptTupleItem (r : RecordView) : Gen Item := do
  let convert ← used (Name.toTuple r.name)
  let unbox ← used (Name.notNull r.name)
  return conversion (Name.toOptTuple r.name) .anyTuple .anyTuple
    [passNull, ret (call convert [call unbox [id "v"]])]

/-- Turn a tuple into a record. -/
def fromTupleItem (r : RecordView) : Gen Item := do
  let body ←
    if r.isEmpty then pure [ret (id "v")]
    else do
      let destroy ← helper (Helper.tupleDestroyName r.decl.fields.length)
      let items ← r.decl.fields.mapM untupleField
      pure [var r.fieldVars (call destroy [id "v"]), ret (.tensor items)]
  return conversion (Name.fromTuple r.name) .anyTuple r.ty body

/-- Turn a tuple into an optional record. -/
def fromOptTupleItem (r : RecordView) : Gen Item := do
  let convert ← used (Name.fromTuple r.name)
  let close ← used (Name.asOptional r.name)
  return conversion (Name.fromOptTuple r.name) .anyTuple .anyTuple
    [passNull, ret (call close [call convert [id "v"]])]

/-- Turn a record into what callers from outside receive. -/
def toExternalItem (r : RecordView) : Gen Item := do
  let body ←
    if r.isEmpty then pure [ret (id "v")]
    else do
      let items ← r.decl.fields.mapM tupleField
      pure [r.bindLeaves, ret (.tensor items)]
  return conversion (Name.toExternal r.name) r.ty (← externalTy r.decl) body

/-- Turn an optional record into what callers from outside receive. -/
def toOptExternalItem (r : RecordView) : Gen Item := do
  let convert ← used (Name.toOptTuple r.name)
  return conversion (Name.toOptExternal r.name) .anyTuple .anyTuple [ret (call convert [id "v"])]

/-- Turn what callers from outside pass into a record. -/
def fromExternalItem (r : RecordView) : Gen Item := do
  let body ←
    if r.isEmpty then pure [ret (id "v")]
    else do
      let items ← r.decl.fields.mapM fun field => fromOutside field.ty (fieldVar field)
      pure [var r.fieldVars (id "v"), ret (.tensor items)]
  return conversion (Name.fromExternal r.name) (← externalTy r.decl) r.ty body

/-- Turn what callers from outside pass into an optional record. -/
def fromOptExternalItem (r : RecordView) : Gen Item := do
  let body ←
    if r.isEmpty then pure [ret (id "v")]
    else do
      let destroy ← helper (Helper.tupleDestroyName r.decl.fields.length)
      let convert ← used (Name.fromExternal r.name)
      let close ← used (Name.asOptional r.name)
      pure [passNull, ret (call close [call convert [call destroy [id "v"]]])]
  return conversion (Name.fromOptExternal r.name) .anyTuple .anyTuple body

end RecordView

/-! ### All conversions -/

/-- Emit a getter for every field. -/
def emitGetters (r : RecordView) : Gen Unit :=
  r.decl.fields.forM fun field => define (.type r.name) (r.getterItem field)

/-- Emit every conversion of a record. -/
def emitAccessors (decl : TypeDecl) : Gen Unit := do
  let r ← recordView decl
  emitGetters r
  define (.type r.name) (return r.tensorCastItem)
  define (.type r.name) r.notNullItem
  define (.type r.name) r.asOptionalItem
  define (.type r.name) r.toTupleItem
  define (.type r.name) r.toOptTupleItem
  define (.type r.name) r.fromTupleItem
  define (.type r.name) r.fromOptTupleItem
  define (.type r.name) r.toExternalItem
  define (.type r.name) r.toOptExternalItem
  define (.type r.name) r.fromExternalItem
  define (.type r.name) r.fromOptExternalItem

end Generate

end CellCompiler
