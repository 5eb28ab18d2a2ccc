import CellCompiler.Cell.Basic

/-!
# Reading cells

A slice is a cell with a position in its bits and one in its references. `Slice.bits` and
`Slice.refs` are what is left to read. Reading is a step on slices that gives a value or an error
and, in both cases, the slice as it is afterwards: a compound read that fails midway has moved on.
Numbers of bits are whole numbers here and machine words of 64 bits elsewhere, which agree below
`2 ^ 64`.
-/

namespace CellCompiler

/-- A cell that has been read up to some position. -/
structure Slice where
  /-- The cell being read. -/
  cell : Cell
  /-- Number of bits already read. -/
  bitPos : Nat := 0
  /-- Number of references already read. -/
  refPos : Nat := 0
  deriving DecidableEq, Repr

/-- The unread slice of a cell. -/
def Cell.parse (c : Cell) : Slice := ⟨c, 0, 0⟩

namespace Slice

/-- The bits left to read. -/
def bits (s : Slice) : List Bool := s.cell.bits.drop s.bitPos

/-- The references left to read. -/
def refs (s : Slice) : List Cell := s.cell.refs.drop s.refPos

/-- Number of bits left. -/
def remainingBits (s : Slice) : Nat := s.cell.bits.length - s.bitPos

/-- Number of references left. -/
def remainingRefs (s : Slice) : Nat := s.cell.refs.length - s.refPos

/-- Nothing is left. -/
def isEmpty (s : Slice) : Bool := s.remainingBits == 0 && s.remainingRefs == 0

/-- What is left, as a cell of its own. -/
def toCell (s : Slice) : Cell := .mk s.bits s.refs

/-- Accept only a slice that has been read to its end. -/
def endParse (s : Slice) : Except Cell.Error Unit :=
  if s.isEmpty then .ok () else .error (.notConsumed s.remainingBits s.remainingRefs)

/-- A read: a step on slices that gives a value. -/
abbrev Load (α : Type) := EStateM Cell.Error Slice α

/-- Read the next `n` bits. -/
def loadBits (n : Nat) : Load (List Bool) := fun s =>
  if n ≤ s.remainingBits then .ok (s.bits.take n) { s with bitPos := s.bitPos + n }
  else .error (.bitUnderflow n s.remainingBits) s

/-- Read one bit. -/
def loadBit : Load Bool := do
  return (← loadBits 1).headD false

/-- Read a natural number of `n` bits. -/
def loadUint (n : Nat) : Load Int := do
  return Bits.toNat (← loadBits n)

/-- The natural number that the next `n` bits spell, without reading on. -/
def preloadUint (s : Slice) (n : Nat) : Except Cell.Error Int :=
  match loadUint n s with
  | .ok v _ => .ok v
  | .error e _ => .error e

/-- Read an integer of `n` bits in two's complement. -/
def loadInt (n : Nat) : Load Int := do
  return Bits.toInt (← loadBits n)

/-- Read an amount: four bits that count bytes, then a natural number of that many bytes. -/
def loadCoins : Load Int := do
  let size ← loadUint 4
  loadUint (size.toNat * 8)

/-- Read `n` bytes. Their number of bits must fit a machine word; a slice that holds them has room for
far fewer. -/
def loadBytes (n : Nat) : Load (List UInt8) := do
  return Bits.toBytes (← loadBits (n * 8))

/-- Split off the next `n` bits as a slice without references. -/
def loadSlice (n : Nat) : Load Slice := do
  return (Cell.mk (← loadBits n) []).parse

/-- Pass over `n` bits. -/
def skipBits (n : Nat) : Load Unit := do
  let _ ← loadBits n

/-- Read one reference. -/
def loadRef : Load Cell := fun s =>
  match s.refs with
  | c :: _ => .ok c { s with refPos := s.refPos + 1 }
  | [] => .error .refUnderflow s

end Slice

end CellCompiler
