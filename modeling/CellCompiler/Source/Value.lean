import CellCompiler.Address

/-!
# Compile-time values

`Value` is what a constant expression denotes: a scalar, a literal cell or address, or a record
whose fields keep their order.
-/

namespace CellCompiler

/-- The value of a constant expression. -/
inductive Value where
  | int (value : Int)
  | bool (value : Bool)
  | null
  | string (text : String)
  | address (address : Address)
  | cell (cell : Cell)
  /-- A slice is given by the cell that it reads. -/
  | slice (cell : Cell)
  | struct (typeName : String) (fields : List (String × Value))

namespace Value

instance : Inhabited Value := ⟨null⟩

/-- The number that a value is. -/
def int? : Value → Option Int
  | int v => some v
  | _ => none

/-- The truth value that a value is. -/
def bool? : Value → Option Bool
  | bool b => some b
  | _ => none

/-- The text that a value is. -/
def string? : Value → Option String
  | string text => some text
  | _ => none

/-- The value is null. -/
def isNull : Value → Bool
  | null => true
  | _ => false

end Value

end CellCompiler
