import CellCompiler.Dict
import CellCompiler.Numeral

/-!
# Storage plans

A plan says how the fields of a record are laid out in cells: an optional header, then one
operation per field, cut into a chain of cells in which each cell refers to the next.

* `Plan.OpKind` says how one field is stored, `Plan.Op` adds its name and whether it may be absent;
* `Plan.Chain` is the chain of cells;
* `Plan` is the plan of one record and `Plans` those of a whole program.
-/

namespace CellCompiler

namespace Plan

/-- The opcode in front of a message. -/
structure Header where
  value : UInt32
  bits : UInt16
  deriving DecidableEq, Repr

/-- How a cell-like field is stored. -/
inductive Format where
  /-- In a cell of its own. -/
  | reference
  /-- As everything that is left in the last cell. -/
  | remainder
  deriving DecidableEq, Repr

/-- How a field is stored. -/
inductive OpKind where
  | int (bits : UInt16)
  | uint (bits : UInt16)
  | coins
  | boolean
  | address
  | cell (format : Format)
  | slice (format : Format)
  | builder (format : Format)
  | string
  | fixedBytes (bytes : UInt16)
  | map
  /-- A record by its own plan, in place or in a cell of its own. -/
  | struct (typeName : String) (byRef : Bool)
  deriving DecidableEq, Repr

/-- The field takes everything that is left. -/
def OpKind.isRemainder : OpKind → Bool
  | cell format | slice format | builder format => format == .remainder
  | _ => false

/-- The same way of storing, a record in a cell of its own. -/
def OpKind.behindReference : OpKind → OpKind
  | struct typeName _ => struct typeName true
  | other => other

/-- The field holds a record. -/
def OpKind.isStruct : OpKind → Bool
  | struct .. => true
  | _ => false

/-- The record that is stored in place. -/
def OpKind.inline? : OpKind → Option String
  | struct typeName false => some typeName
  | _ => none

/-- Storage of one field. -/
structure Op where
  name : String
  kind : OpKind
  /-- A bit in front tells whether there is a value. -/
  optional : Bool := false
  deriving DecidableEq, Repr

/-- A chain of cells, each but the last referring to the next. -/
inductive Chain where
  | last (ops : List Op)
  | link (ops : List Op) (next : Chain)
  deriving DecidableEq, Repr

namespace Chain

/-- The operations of each cell. -/
def cells : Chain → List (List Op)
  | last ops => [ops]
  | link ops next => ops :: next.cells

/-- The chain of cells with these operations, at least one cell. -/
def ofCells : List (List Op) → Chain
  | [] => last []
  | [ops] => last ops
  | ops :: more => link ops (ofCells more)

theorem cells_ne_nil (c : Chain) : c.cells ≠ [] := by cases c <;> simp [cells]

/-- All operations in order. -/
def ops (c : Chain) : List Op := c.cells.flatten

end Chain

end Plan

/-- The plan of a record. -/
structure Plan where
  header : Option Plan.Header := none
  root : Plan.Chain
  /-- All operations of the chain in order. -/
  ops : List Plan.Op
  deriving DecidableEq, Repr

namespace Plan

/-- The plan with a given chain. -/
def ofChain (header : Option Header) (root : Chain) : Plan := ⟨header, root, root.ops⟩

end Plan

/-- The plans of a program. -/
structure Plans where
  /-- Plans of the declared records. -/
  types : Dict Plan := .empty
  /-- Plans of the arguments that a contract is deployed with. -/
  initArgs : Dict Plan := .empty
  deriving DecidableEq, Repr

instance : Inhabited Plans := ⟨{}⟩

end CellCompiler

/-!
## Integer formats

`intKind` reads the storage format of an integer: `coins`, `uint` or `int` followed by a width.
An integer without a format is signed and has 257 bits.
-/

namespace CellCompiler

namespace Plan

/-- The text after a given beginning. -/
def dropStart? (start text : String) : Option String :=
  if start.toList.isPrefixOf text.toList then
    some (String.ofList (text.toList.drop start.toList.length))
  else none

/-- The width that a text spells, if it is between one and `most`. -/
def width? (most : Nat) (text : String) : Option UInt16 :=
  match Numeral.readNat UInt16.size text with
  | .ok n => if 1 ≤ n ∧ n ≤ most then some (UInt16.ofNat n) else none
  | .error _ => none

/-- How an integer of a format is stored. -/
def intKind : Option String → Option OpKind
  | none => some (.int 257)
  | some format =>
    if format = "coins" then some .coins
    else
      match dropStart? "uint" format with
      | some digits => (width? 256 digits).map .uint
      | none =>
        match dropStart? "int" format with
        | some digits => (width? 257 digits).map .int
        | none => none

end Plan

end CellCompiler
