import CellCompiler.Cell.Basic

/-!
# Bags of cells

A bag is the serialized form of a cell tree with one root: a header, then every distinct subcell
once, each before the cells it refers to. Cells are told apart by their hashes and referred to by
their positions in the list.

* `Bag.order` lists the distinct subcells, `Bag.encode` writes the bag without index and checksum;
* `Bag.decode` reads a bag back; it accepts only references to later cells, so that what it
  builds is a finite tree. It first asks for memory for as many cells as the header announces, which
  need not be granted;
* `Bag.encodeHex` and `Bag.decodeHex` are the same on hexadecimal text.
-/

namespace CellCompiler

namespace Bag

/-- The bytes that every bag starts with. -/
def magic : List UInt8 := [0xb5, 0xee, 0x9c, 0x72]

/-! ### Writing -/

/-- Subcells met so far. -/
structure Listing where
  /-- Hashes of the cells that have been met. -/
  seen : List (List UInt8) := []
  /-- Cells that are finished, the last one first. -/
  cells : List Cell := []

mutual

/-- List a cell after its children, unless it has been met before. -/
def list : Cell → Listing → Listing
  | .mk bits refs, l =>
    let h := (Cell.mk bits refs).hash
    if l.seen.contains h then l
    else
      let below := listAll refs { l with seen := h :: l.seen }
      { below with cells := .mk bits refs :: below.cells }

/-- List several cells in turn. -/
def listAll : List Cell → Listing → Listing
  | [], l => l
  | c :: cs, l => listAll cs (list c l)

end

/-- The distinct subcells of a cell, each before its children. -/
def order (c : Cell) : List Cell := (list c {}).cells

/-- Fewest bytes, at least one, that can hold a number. -/
def bytesFor (n : Nat) : Nat := if n = 0 then 1 else n.log2 / 8 + 1

/-- One cell of a bag, given the hashes of all cells in order. -/
def encodeCell (hashes : List (List UInt8)) (width : Nat) (c : Cell) : List UInt8 :=
  Cell.descriptors c.bits c.refs ++ Cell.paddedData c.bits ++
    c.refs.flatMap fun r => Bits.bigEndian width (hashes.idxOf r.hash)

/-- The bag of a cell tree. -/
def encode (c : Cell) : List UInt8 :=
  let cells := order c
  let hashes := cells.map Cell.hash
  let width := bytesFor cells.length
  let data := cells.flatMap (encodeCell hashes width)
  let offsetWidth := bytesFor data.length
  magic ++ [UInt8.ofNat width, UInt8.ofNat offsetWidth] ++
    Bits.bigEndian width cells.length ++ Bits.bigEndian width 1 ++ Bits.bigEndian width 0 ++
    Bits.bigEndian offsetWidth data.length ++ Bits.bigEndian width 0 ++ data

/-- The bag of a cell tree in capital hexadecimal digits. -/
def encodeHex (c : Cell) : String := Hex.encodeUpper (encode c)

/-! ### Reading -/

/-- A reader of bytes. -/
abbrev Reader := StateT (List UInt8) (Except Fault)

/-- Read `n` bytes. -/
def take (n : Nat) : Reader (List UInt8) := fun bytes =>
  if n ≤ bytes.length then .ok (bytes.take n, bytes.drop n) else .error .truncated

/-- Read one byte. -/
def takeByte : Reader UInt8 := do
  return (← take 1).headD 0

/-- Read a number of `width` bytes. -/
def number (width : Nat) : Reader Nat := do
  return Bits.ofBigEndian (← take width)

/-- A cell whose references are still positions. -/
structure RawCell where
  /-- The data bits. -/
  bits : List Bool
  /-- Positions of the cells referred to. -/
  refs : List Nat

/-- Take off the zeros at the end and the one before them. -/
def dropCompletion (bits : List Bool) : List Bool :=
  ((bits.reverse.dropWhile (· == false)).drop 1).reverse

/-- Read several numbers. -/
def numbers (width : Nat) : (count : Nat) → Reader (List Nat)
  | 0 => pure []
  | n + 1 => do
    let first ← number width
    let rest ← numbers width n
    pure (first :: rest)

/-- Read one cell. -/
def rawCell (width : Nat) : Reader RawCell := do
  let d1 ← takeByte
  let d2 ← takeByte
  let data ← take ((d2.toNat + 1) / 2)
  let bits := Bits.ofBytes data
  let refs ← numbers width (d1.toNat % 8)
  pure ⟨if d2.toNat % 2 = 1 then dropCompletion bits else bits, refs⟩

/-- Read several cells. -/
def rawCells (width : Nat) : (count : Nat) → Reader (List RawCell)
  | 0 => pure []
  | n + 1 => do
    let first ← rawCell width
    let rest ← rawCells width n
    pure (first :: rest)

/-- The cell at a position, given the cells from position `first` on. -/
def lookup (first : Nat) (cells : List Cell) (position : Nat) : Except Fault Cell :=
  if position < first then .error (.badReference position)
  else
    match cells[position - first]? with
    | some c => .ok c
    | none => .error (.badReference position)

/-- Turn positions into cells, the last cell first; `index` is the position of the first one. -/
def resolve : (index : Nat) → List RawCell → Except Fault (List Cell)
  | _, [] => .ok []
  | index, raw :: rest => do
    let later ← resolve (index + 1) rest
    let children ← raw.refs.mapM (lookup (index + 1) later)
    pure (.mk raw.bits children :: later)

/-- What the header of a bag announces. -/
structure Header where
  /-- How many bytes a position takes. -/
  width : Nat
  /-- The number of cells. -/
  count : Nat
  /-- The position of the root. -/
  root : Nat
  deriving DecidableEq

/-- Read the header. -/
def header : Reader Header := do
  if (← take 4) != magic then throw .badMagic
  let width := (← takeByte).toNat % 8
  let offsetWidth := (← takeByte).toNat
  let count ← number width
  let roots ← number width
  if roots != 1 then throw (.roots roots)
  let _ ← number width
  let _ ← number offsetWidth
  let root ← number width
  pure ⟨width, count, root⟩

/-- The largest block of memory that is granted, in bytes; without one every block is. -/
abbrev Memory := Option Nat

/-- What a process addresses on common 64-bit machines: no block is larger. -/
def addressSpace : Nat := 1 <<< 47

/-- Whether a block of this many bytes is granted. -/
def Memory.grants (memory : Memory) (bytes : Nat) : Bool := memory.all (bytes ≤ ·)

/-- Bytes that a listed cell takes: its bits and its references are a place, a length and a room each. -/
def cellSize : Nat := 48

/-- Ask for memory for a number of cells. Nothing of the bag but its header vouches for the number. -/
def reserve (memory : Memory) (count : Nat) : Reader Unit :=
  if memory.grants (cellSize * count) then pure () else throw (.exhausted (cellSize * count))

/-- Read the header and the cells; gives the position of the root with them. -/
def contents (memory : Memory := none) : Reader (Nat × List RawCell) := do
  let h ← header
  reserve memory h.count
  pure (h.root, ← rawCells h.width h.count)

/-- Read a bag of cells. The cells that are built take a second block, as large as the one of the
listed cells and so granted with it. -/
def decode (bytes : List UInt8) (memory : Memory := none) : Except Fault Cell := do
  let ((root, raw), _) ← (contents memory).run bytes
  let cells ← resolve 0 raw
  match cells[root]? with
  | some c => pure c
  | none => .error .missingRoot

/-- Read a bag of cells from hexadecimal text. -/
def decodeHex (text : String) (memory : Memory := none) : Except Fault Cell := do
  let bytes := utf8 text
  if bytes.length % 2 = 1 then throw .oddLength
  match Hex.decode bytes with
  | .ok bytes => decode bytes memory
  | .error e => .error (.digit e)

end Bag

end CellCompiler
