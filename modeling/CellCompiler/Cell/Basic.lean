import CellCompiler.Bits
import CellCompiler.Numeral
import CellCompiler.Sha256

/-!
# Cells

A cell is a bit string with references to further cells, a finite tree.

* `Cell.maxBits` and `Cell.maxRefs` are the budget of an ordinary cell;
* `Cell.depth` is the longest chain of references, and `Cell.maxDepth` the largest that is written down;
* `Cell.preimage` is the byte string that describes a cell given the depths and hashes of its
  children, and `Cell.hash`, the representation hash, is its SHA-256 digest.
-/

namespace CellCompiler

/-- A bit string with references to further cells. -/
inductive Cell where
  | mk (bits : List Bool) (refs : List Cell)
  deriving Repr, Inhabited

namespace Cell

/-- Most bits an ordinary cell holds. -/
def maxBits : Nat := 1023

/-- Most references an ordinary cell holds. -/
def maxRefs : Nat := 4

/-- The largest depth that two bytes hold. -/
def maxDepth : Nat := 65535

/-- The data bits. -/
def bits : Cell → List Bool
  | mk bits _ => bits

/-- The cells referred to. -/
def refs : Cell → List Cell
  | mk _ refs => refs

@[simp] theorem bits_mk (bits : List Bool) (refs : List Cell) : (mk bits refs).bits = bits := rfl

@[simp] theorem refs_mk (bits : List Bool) (refs : List Cell) : (mk bits refs).refs = refs := rfl

@[simp] theorem mk_bits_refs (c : Cell) : mk c.bits c.refs = c := by cases c; rfl

/-- The cell without bits and references. -/
def empty : Cell := mk [] []

/-! ### Equality -/

mutual

/-- Equality of cells is decided by comparing the trees. -/
def decideEq : (a b : Cell) → Decidable (a = b)
  | .mk abits arefs, .mk bbits brefs =>
    if h : abits = bbits then
      match decideEqList arefs brefs with
      | isTrue h' => isTrue (by rw [h, h'])
      | isFalse h' => isFalse fun e => h' (Cell.mk.inj e).2
    else isFalse fun e => h (Cell.mk.inj e).1

/-- Equality of lists of cells. -/
def decideEqList : (as bs : List Cell) → Decidable (as = bs)
  | [], [] => isTrue rfl
  | [], _ :: _ => isFalse nofun
  | _ :: _, [] => isFalse nofun
  | a :: as, b :: bs =>
    match decideEq a b with
    | isTrue h =>
      match decideEqList as bs with
      | isTrue h' => isTrue (by rw [h, h'])
      | isFalse h' => isFalse fun e => h' (List.cons.inj e).2
    | isFalse h => isFalse fun e => h (List.cons.inj e).1

end

instance : DecidableEq Cell := decideEq

/-! ### Depth -/

mutual

/-- Length of the longest chain of references. It is kept in sixteen bits on a machine, so that the
depth and the hash of a cell are meant for cells that are at most `maxDepth` deep. -/
def depth : Cell → Nat
  | .mk _ refs => depthBelow refs

/-- Depth of a cell with these children. -/
def depthBelow : List Cell → Nat
  | [] => 0
  | c :: cs => max (c.depth + 1) (depthBelow cs)

end

/-! ### Representation -/

/-- Two bytes that describe how many references and bits follow. -/
def descriptors (bits : List Bool) (refs : List Cell) : List UInt8 :=
  [UInt8.ofNat refs.length, UInt8.ofNat (bits.length / 8 + (bits.length + 7) / 8)]

/-- The data bits filled up to whole bytes, if need be with a one and then zeros. -/
def paddedData (bits : List Bool) : List UInt8 :=
  if bits.length % 8 = 0 then Bits.toBytes bits else Bits.toBytes (bits ++ [true])

/-- The depths of the children, two bytes each. -/
def depthBytes (refs : List Cell) : List UInt8 := refs.flatMap fun r => Bits.bigEndian 2 r.depth

/-- The bytes that a cell is hashed from, given the hashes of its children. -/
def preimage (bits : List Bool) (refs : List Cell) (hashes : List UInt8) : List UInt8 :=
  descriptors bits refs ++ paddedData bits ++ depthBytes refs ++ hashes

mutual

/-- The representation hash. -/
def hash : Cell → List UInt8
  | .mk bits refs => Sha256.digest (preimage bits refs (hashAll refs))

/-- The hashes of several cells, one after the other. -/
def hashAll : List Cell → List UInt8
  | [] => []
  | c :: cs => c.hash ++ hashAll cs

end

/-- The representation hash as a number. -/
def hashNumber (c : Cell) : Nat := Bits.ofBigEndian c.hash

/-- The representation hash in hexadecimal. -/
def hashHex (c : Cell) : String := Hex.encode c.hash

end Cell

end CellCompiler

/-!
## Errors of cell operations

* `Bag.Fault` is what can be wrong with a serialized bag of cells;
* `Cell.Error` is what can go wrong when a cell is filled, read or decoded;
* `Cell.Error.message` is the wording.
-/

namespace CellCompiler

/-- What is wrong with a serialized bag of cells. -/
inductive Bag.Fault where
  | oddLength
  | digit (error : Numeral.Error)
  | truncated
  | badMagic
  | roots (count : Nat)
  | badReference (index : Nat)
  | missingRoot
  /-- A block of this many bytes is not granted. This is no answer: the program ends here. -/
  | exhausted (bytes : Nat)
  deriving DecidableEq, Repr

/-- The wording of a fault. -/
def Bag.Fault.message : Bag.Fault → String
  | .oddLength => "odd hex length"
  | .digit e => e.message
  | .truncated => "truncated"
  | .badMagic => "bad magic"
  | .roots n => s!"{n} roots"
  | .badReference i => s!"bad reference {i}"
  | .missingRoot => "missing root"
  | .exhausted n => s!"memory allocation of {n} bytes failed"

/-- What goes wrong when a cell is filled, read or decoded. -/
inductive Cell.Error where
  /-- The cell would hold this many bits and references. -/
  | overflow (bits refs : Nat)
  | bitUnderflow (requested available : Nat)
  | refUnderflow
  | integerOutOfRange (value : Int) (bits : Nat)
  /-- This much is left where nothing should be. -/
  | notConsumed (bits refs : Nat)
  | invalidBag (fault : Bag.Fault)
  deriving DecidableEq, Repr

/-- The wording of an error. -/
def Cell.Error.message : Cell.Error → String
  | .overflow bits refs => s!"Cell overflow: {bits} bits and {refs} refs exceed the cell budget"
  | .bitUnderflow n m => s!"Cell underflow: requested {n} bits, {m} available"
  | .refUnderflow => "Cell underflow: no references left"
  | .integerOutOfRange v n => s!"Integer {v} does not fit in {n} bits"
  | .notConsumed n m => s!"Slice is not empty: {n} bits and {m} refs left"
  | .invalidBag fault => s!"Malformed bag of cells: {fault.message}"

end CellCompiler
