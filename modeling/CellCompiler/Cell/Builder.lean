import CellCompiler.Cell.Slice

/-!
# Filling cells

A builder is a cell in the making. Storing is a step on builders that succeeds or gives an error
and, in both cases, the builder as it is afterwards: a compound store that fails midway leaves
what it had already stored.

Widths are whole numbers here and words of 64 bits on a machine. The two agree as long as a width and
the bits that are there together fit a word, which they do for every width below `2 ^ 63`: nothing is
said about wider requests, all of which are refused here.
-/

namespace CellCompiler

/-- A cell in the making. -/
structure Builder where
  /-- Bits stored so far. -/
  bits : List Bool := []
  /-- References stored so far. -/
  refs : List Cell := []
  deriving DecidableEq, Repr, Inhabited

namespace Builder

/-- The builder that holds nothing. -/
def empty : Builder := ⟨[], []⟩

/-- Number of bits that still fit. -/
def availableBits (b : Builder) : Nat := Cell.maxBits - b.bits.length

/-- A store: a step on builders. -/
abbrev Store := EStateM Cell.Error Builder Unit

/-- Refuse to grow by this many bits and references past the budget of a cell. The sums must fit a
machine word. -/
def ensure (b : Builder) (bits refs : Nat) : Except Cell.Error Unit :=
  if Cell.maxBits < b.bits.length + bits ∨ Cell.maxRefs < b.refs.length + refs then
    .error (.overflow (b.bits.length + bits) (b.refs.length + refs))
  else .ok ()

/-- Store bits and references, all or nothing. -/
def append (bits : List Bool) (refs : List Cell) : Store := fun b =>
  match b.ensure bits.length refs.length with
  | .ok () => .ok () ⟨b.bits ++ bits, b.refs ++ refs⟩
  | .error e => .error e b

/-- Store one bit. -/
def storeBit (bit : Bool) : Store := append [bit] []

/-- Store an integer as `width` bits of two's complement, without looking whether it fits them. -/
def storeRaw (v : Int) (width : Nat) : Store := fun b =>
  match b.ensure width 0 with
  | .ok () => .ok () ⟨b.bits ++ Bits.ofInt width v, b.refs⟩
  | .error e => .error e b

/-- Store a natural number of `width` bits, where `width` is a machine word. -/
def storeUint (v : Int) (width : Nat) : Store :=
  if Bits.fitsUnsigned v width then storeRaw v width else throw (.integerOutOfRange v width)

/-- Store an integer of `width` bits in two's complement, where `width` is a machine word. -/
def storeInt (v : Int) (width : Nat) : Store :=
  if Bits.fitsSigned v width then storeRaw v width else throw (.integerOutOfRange v width)

/-- Most bits an amount can have. -/
def maxCoinsBits : Nat := 120

/-- Store an amount: four bits that count its bytes, then the bytes. -/
def storeCoins (v : Int) : Store := do
  if Bits.fitsUnsigned v maxCoinsBits then
    let size := (Bits.bitLength v.toNat + 7) / 8
    storeUint size 4
    storeUint v (size * 8)
  else throw (.integerOutOfRange v maxCoinsBits)

/-- Store a reference. -/
def storeRef (c : Cell) : Store := append [] [c]

/-- Store bytes. -/
def storeBytes (bytes : List UInt8) : Store := append (Bits.ofBytes bytes) []

/-- Store what is left of a slice. -/
def storeSlice (s : Slice) : Store := append s.bits s.refs

/-- Store the contents of another builder. -/
def storeBuilder (other : Builder) : Store := append other.bits other.refs

/-- Whole bytes that fit in an empty cell. -/
def maxBytes : Nat := Cell.maxBits / 8

/-- A chain of cells that holds a byte string, `maxBytes` bytes in each cell but the last. The
first argument bounds the length of the chain. -/
def tailChain : (fuel : Nat) → List UInt8 → Cell
  | 0, bytes => .mk (Bits.ofBytes bytes) []
  | fuel + 1, bytes =>
    if bytes.length ≤ maxBytes then .mk (Bits.ofBytes bytes) []
    else .mk (Bits.ofBytes (bytes.take maxBytes)) [tailChain fuel (bytes.drop maxBytes)]

/-- The chain of cells that holds a byte string. -/
def tailCell (bytes : List UInt8) : Cell := tailChain bytes.length bytes

/-- Store as many bytes as fit and the rest in a chain of cells behind a reference. -/
def storeStringTail (bytes : List UInt8) : Store := do
  if bytes.isEmpty then return
  let fit := (← get).availableBits / 8
  if fit < bytes.length then
    storeBytes (bytes.take fit)
    storeRef (tailCell (bytes.drop fit))
  else storeBytes bytes

/-- The finished cell. -/
def build (b : Builder) : Except Cell.Error Cell :=
  match b.ensure 0 0 with
  | .ok () => .ok (.mk b.bits b.refs)
  | .error e => .error e

/-- The cell that a store makes from nothing. -/
def buildWith (store : Store) : Except Cell.Error Cell :=
  match store empty with
  | .ok () b => b.build
  | .error e _ => .error e

end Builder

end CellCompiler
