import CellCompiler.Cell.Builder

/-!
# Cells of literal texts

* `stringCell` holds a text, with a chain of cells for what does not fit;
* `commentCell` holds a text message, and `commentOpcode` is the number by which it is recognized.
-/

namespace CellCompiler

/-- The cell of a text. -/
def stringCell (text : String) : Except Cell.Error Cell :=
  Builder.buildWith (Builder.storeStringTail (utf8 text))

/-- The cell of a text message: an opcode of zero, then the text. -/
def commentCell (text : String) : Except Cell.Error Cell :=
  Builder.buildWith do
    Builder.storeUint 0 32
    Builder.storeStringTail (utf8 text)

/-- The number by which a text message is recognized: the hash of its cell. -/
def commentOpcode (text : String) : Except Cell.Error Nat := do
  return (← commentCell text).hashNumber

/-- The digest of a text as a number. -/
def stringHash (text : String) : Nat := Bits.ofBigEndian (Sha256.digest (utf8 text))

end CellCompiler
