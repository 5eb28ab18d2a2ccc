import CellCompiler.Dict
import CellCompiler.Source.Stmt
import CellCompiler.Source.Value

/-!
# Declarations

* `TypeDecl` describes a type: its fields, methods and, for a contract, how it starts and which
  messages it receives;
* `Function` describes a function or method, `Receiver` a message handler;
* `TypeTable` holds all declarations of a program in the order of their entry.
-/

namespace CellCompiler

/-- What sort of type a declaration introduces. -/
inductive TypeKind where
  | primitive (kind : PrimitiveKind)
  | struct
  | contract
  deriving DecidableEq, Repr

/-- A field of a record. -/
structure Field where
  name : String
  index : UInt64
  ty : TypeRef
  /-- Overrides the storage format. -/
  format : Option String := none
  default : Option Value := none

/-- A parameter of a function. -/
structure Param where
  name : String
  ty : TypeRef
  deriving DecidableEq, Repr

/-- What a function does. -/
inductive FunctionBody where
  | statements (stmts : List Stmt)
  /-- The target supplies the function under this name. -/
  | native (name : String)
  | abstract

/-- A function, or a method if it has a type for `self`. -/
structure Function where
  name : String
  selfType : Option TypeRef := none
  params : List Param := []
  returns : TypeRef
  /-- The method may change `self`. -/
  mutates : Bool := false
  isGetter : Bool := false
  methodId : Option UInt32 := none
  inline : Bool := false
  body : FunctionBody

namespace Function

/-- The name that the target supplies the function under. -/
def nativeName (f : Function) : Option String :=
  match f.body with
  | .native name => some name
  | _ => none

/-- The function is declared on a type. -/
def isMethod (f : Function) : Bool := f.selfType.isSome

end Function

/-- How a contract starts. -/
structure Init where
  params : List Param := []
  body : List Stmt := []

/-- Which messages of one direction a handler takes. -/
inductive MessageSelector where
  /-- Messages of a declared type, told by their opcode. -/
  | binary (typeName : String)
  | empty
  | comment (text : String)
  | commentFallback
  | fallback
  deriving DecidableEq, Repr

/-- Which messages a handler takes. -/
inductive ReceiverSelector where
  | internal (selector : MessageSelector)
  | external (selector : MessageSelector)
  /-- Bounced messages of a declared type, as a whole or cut to what survives the bounce. -/
  | bounceBinary (typeName : String) (bounced : Bool)
  | bounceFallback
  deriving DecidableEq, Repr

/-- A message handler. -/
structure Receiver where
  selector : ReceiverSelector
  /-- The variable that holds the message. -/
  param : Option String := none
  body : List Stmt := []

/-- A declared type. -/
structure TypeDecl where
  name : String
  kind : TypeKind
  fields : List Field := []
  /-- Number of leading fields that survive a bounce. -/
  bounceFields : UInt64 := 0
  /-- Opcode of a message type. -/
  header : Option UInt32 := none
  functions : Dict Function := .empty
  receivers : List Receiver := []
  init : Option Init := none
  uid : UInt16 := 0

namespace TypeDecl

/-- A built-in type. -/
def ofPrimitive (kind : PrimitiveKind) : TypeDecl :=
  { name := kind.typeName, kind := .primitive kind }

/-- A record type. -/
def ofFields (kind : TypeKind) (name : String) (fields : List Field) : TypeDecl :=
  { name, kind, fields, bounceFields := UInt64.ofNat fields.length }

/-- The type has fields, as structs and contracts have. -/
def isStructLike (d : TypeDecl) : Bool :=
  match d.kind with
  | .primitive _ => false
  | _ => true

/-- The type is a struct. -/
def isStruct (d : TypeDecl) : Bool := d.kind == .struct

/-- The type is a contract. -/
def isContract (d : TypeDecl) : Bool := d.kind == .contract

/-- The built-in type that is declared. -/
def primitive? (d : TypeDecl) : Option PrimitiveKind :=
  match d.kind with
  | .primitive kind => some kind
  | _ => none

/-- The first field of a name. -/
def field? (d : TypeDecl) (name : String) : Option Field := d.fields.find? (·.name == name)

/-- The methods that can be called from outside. -/
def getters (d : TypeDecl) : List Function := d.functions.values.filter (·.isGetter)

/-- Number of leading fields that survive a bounce. -/
def bounceCount (d : TypeDecl) : Nat := min d.bounceFields.toNat d.fields.length

/-- The parameters that a contract starts with. -/
def initParams (d : TypeDecl) : List Param :=
  match d.init with
  | some init => init.params
  | none => []

/-- The statements that a contract starts with. -/
def initBody (d : TypeDecl) : List Stmt :=
  match d.init with
  | some init => init.body
  | none => []

end TypeDecl

/-- A named constant. -/
structure Constant where
  name : String
  ty : TypeRef
  value : Value

/-- All declarations of a program. -/
structure TypeTable where
  types : Dict TypeDecl := .empty
  functions : Dict Function := .empty
  constants : Dict Constant := .empty

namespace TypeTable

instance : Inhabited TypeTable := ⟨{}⟩

/-- Declare a type under its name. -/
def addType (t : TypeTable) (d : TypeDecl) : TypeTable :=
  { t with types := t.types.insert d.name d }

/-- Declare a function under its name. -/
def addFunction (t : TypeTable) (f : Function) : TypeTable :=
  { t with functions := t.functions.insert f.name f }

/-- Declare a constant. -/
def addConstant (t : TypeTable) (name : String) (ty : TypeRef) (value : Value) : TypeTable :=
  { t with constants := t.constants.insert name { name, ty, value } }

/-- The table of the built-in types. -/
def primitives : TypeTable :=
  PrimitiveKind.all.foldl (fun t kind => t.addType (.ofPrimitive kind)) {}

/-- The table of the built-in types with further declarations, which may replace them. -/
def withPrimitives (t : TypeTable) : TypeTable :=
  { t with types := t.types.entries.foldl (fun d p => d.insert p.1 p.2) primitives.types }

/-- The declared structs. -/
def structs (t : TypeTable) : List TypeDecl := t.types.values.filter TypeDecl.isStruct

/-- The declared contracts. -/
def contracts (t : TypeTable) : List TypeDecl := t.types.values.filter TypeDecl.isContract

end TypeTable

end CellCompiler
