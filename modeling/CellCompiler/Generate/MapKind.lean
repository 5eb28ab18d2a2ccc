import CellCompiler.Layout
import CellCompiler.Plan.Basic

/-!
# Maps in the target

A map is a dictionary cell. The target's own library has one operation for every way in which keys
and values are stored, and `MapKind` says which ways those are.
-/

namespace CellCompiler

/-- How a key is stored. -/
inductive MapKind.Key where
  | int (bits : UInt16) (signed : Bool)
  | address
  deriving DecidableEq, Repr

/-- How a value is stored. -/
inductive MapKind.Value where
  | int (bits : UInt16) (signed : Bool)
  | bool
  | cell
  | address
  /-- In the cell that the writer of the record makes. -/
  | struct (typeName : String)
  deriving DecidableEq, Repr

/-- How the entries of a map are stored. -/
structure MapKind where
  key : MapKind.Key
  value : MapKind.Value
  deriving DecidableEq, Repr

namespace MapKind

/-- Width and sign of an integer of a format; coins have no fixed width. -/
def intFormat? (format : Option String) : Option (UInt16 × Bool) :=
  match Plan.intKind format with
  | some (.int bits) => some (bits, true)
  | some (.uint bits) => some (bits, false)
  | _ => none

/-- How keys of a declared type are stored. -/
def keyOf (decl : TypeDecl) (name : String) (format : Option String) : Except MapFault Key :=
  match decl.primitive? with
  | some .int =>
    match intFormat? format with
    | some (bits, signed) => .ok (.int bits signed)
    | none => .error (.keyFormat format)
  | some .address => .ok .address
  | _ => .error (.keyType name)

/-- How values of a declared type are stored. -/
def valueOf (decl : TypeDecl) (name : String) (format : Option String) : Except MapFault Value :=
  match decl.primitive? with
  | some .int =>
    match intFormat? format with
    | some (bits, signed) => .ok (.int bits signed)
    | none => .error (.valueFormat format)
  | some .bool => .ok .bool
  | some .cell => .ok .cell
  | some .address => .ok .address
  | some _ => .error (.valueType name)
  | none => .ok (.struct decl.name)

/-- How the entries of a map type are stored. -/
def of (table : TypeTable) (ty : TypeRef) (loc : Location) : Except CompileError MapKind := do
  let supported {α : Type} : Except MapFault α → Except CompileError α
    | .ok a => .ok a
    | .error fault => .error (.compilation (.unsupportedMap fault) loc)
  match ty with
  | .map keyName keyAs valueName valueAs =>
    let key ← supported (keyOf (← Layout.declOf table keyName) keyName keyAs)
    let value ← supported (valueOf (← Layout.declOf table valueName) valueName valueAs)
    return ⟨key, value⟩
  | other => .error (.internal (.notAMap other) (some loc))

/-- How keys are stored, in names of operations. -/
def keyWord (k : MapKind) : String :=
  match k.key with
  | .int _ true => "int"
  | .int _ false => "uint"
  | .address => "slice"

/-- How values are stored, in names of operations. -/
def valueWord (k : MapKind) : String :=
  match k.value with
  | .int _ true | .bool => "int"
  | .int _ false => "uint"
  | .cell | .struct _ => "cell"
  | .address => "slice"

/-- Width of a key. -/
def keyBits (k : MapKind) : Nat :=
  match k.key with
  | .int bits _ => bits.toNat
  | .address => Address.bitLength

/-- Width of a value that is a number. -/
def valueBits (k : MapKind) : Option Nat :=
  match k.value with
  | .int bits _ => some bits.toNat
  | .bool => some 1
  | _ => none

/-- The name of an operation on keys and values. -/
def operation (k : MapKind) (name : String) : String :=
  s!"__tact_dict_{name}_{k.keyWord}_{k.valueWord}"

/-- The name of an operation on keys alone. -/
def keyOperation (k : MapKind) (name : String) : String := s!"__tact_dict_{name}_{k.keyWord}"

/-- Arguments followed by the width of the value, if it is a number. -/
def withValueBits (k : MapKind) (args : List Target.Expr) : List Target.Expr :=
  match k.valueBits with
  | some bits => args ++ [Target.int bits]
  | none => args

end MapKind

end CellCompiler
