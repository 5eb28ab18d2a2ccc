import CellCompiler.Cell.Bag
import CellCompiler.Generate.Basic
import CellCompiler.Literal

/-!
# Literals in emitted code

Numbers, truth values and null are written in place. Texts, addresses, slices and cells become
constants of the module, each a function that pushes an embedded bag of cells. The constant is named
after the hash of its cell, so that equal literals share one constant.
-/

namespace CellCompiler

mutual

/-- Number of nested records. -/
def Value.depth : Value → Nat
  | .struct _ fields => Value.depthOf fields + 1
  | _ => 0

/-- Depth of the deepest field. -/
def Value.depthOf : List (String × Value) → Nat
  | [] => 0
  | (_, v) :: rest => max v.depth (Value.depthOf rest)

end

namespace Generate

open Target

/-- An error of a literal cell. -/
def ofCell {α : Type} : Except Cell.Error α → Gen α
  | .ok a => pure a
  | .error e => defect (.constantCell e)

/-- Enter a constant that pushes a cell, unless it is there already. -/
def embed (name : String) (ty : Ty) (cell : Cell) (push : String) : Gen Unit := do
  unless ← has name do
    let code := "B\x7b" ++ Bag.encodeHex cell ++ "\x7d B>boc " ++ push
    register (.asm { name, returns := ty } [code]) .constants .empty

/-- A constant slice, named after its kind and the hash of its cell. -/
def sliceConstant (kind : String) (cell : Cell) : Gen Target.Expr := do
  let name := s!"__gen_slice_{kind}_{cell.hashHex}"
  embed name .slice cell "<s PUSHSLICE"
  callUsed name []

/-- A constant cell, named after its hash. -/
def cellConstant (cell : Cell) : Gen Target.Expr := do
  let name := s!"__gen_cell_cell_{cell.hashHex}"
  embed name .cell cell "PUSHREF"
  callUsed name []

/-- Write a value of a type, following field defaults at most `fuel` deep. -/
def literalWithin : (fuel : Nat) → Value → TypeRef → Gen Target.Expr
  | _, .int v, _ => pure (int v)
  | _, .bool b, _ => pure (.bool b)
  | _, .null, _ => pure null
  | _, .string text, _ => do sliceConstant "string" (← ofCell (stringCell text))
  | _, .address a, _ => do sliceConstant "address" (← ofCell a.toCell)
  | _, .slice c, _ => sliceConstant "slice" c
  | _, .cell c, _ => cellConstant c
  | 0, .struct .., _ => throw .endless
  | fuel + 1, .struct typeName fields, ty => do
    let decl ← declOf typeName
    if decl.fields.isEmpty then return emptyTuple
    let items ← decl.fields.mapM fun field => do
      match (fields.lookup field.name).or field.default with
      | some value => literalWithin fuel value field.ty
      | none => defect (.constantWithoutField typeName field.name)
    if ty.isOptional then callUsed (Name.asOptional typeName) [.tensor items]
    else return .tensor items

/-- Bound for the nesting of a value whose missing fields are filled in by defaults. -/
def literalDepth (table : TypeTable) (value : Value) : Nat :=
  let defaults := table.types.values.flatMap fun decl => decl.fields.filterMap (·.default)
  defaults.foldl (fun bound v => bound + v.depth + 1) value.depth

/-- Write a value of a type. -/
def literal (value : Value) (ty : TypeRef) : Gen Target.Expr := do
  literalWithin (literalDepth (← table) value) value ty

end Generate

end CellCompiler
