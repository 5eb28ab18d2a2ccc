import CellCompiler.Address
import CellCompiler.Bits
import CellCompiler.Machine.Value

/-!
# Functions of the target

What the machine does for calls that the module has no function for, and for functions that are
given by instructions.

* `Primitive.call` is a call, `Primitive.modify` a call that also updates its first argument;
* `Primitive.asm` runs instructions;
* `Primitive.binary` and `Primitive.unary` are the operators.

Operations on dictionaries are left to the target's own library. Only the lookup of a cell can be
supplied from outside (`Host.lookup`).
-/

namespace CellCompiler

namespace Machine

/-- The address of a contract of which nothing else is said. -/
def Host.ownAddress : Address := ⟨0, List.replicate 32 0x11, List.length_replicate⟩

/-- What a run can see of the outside. -/
structure Host where
  now : UInt32 := 1700000000
  address : Address := Host.ownAddress
  /-- The lookup of a cell in a dictionary by a number of so many bits, if there is a library of
  dictionaries. -/
  lookup : Option (Option Cell → Nat → Int → Option Cell) := none

namespace Primitive

open Val

/-! ### Cells -/

/-- The builder after a store. -/
def stored (b : Builder) (store : Builder.Store) : Except Fault Val :=
  match store b with
  | .ok () b => .ok (.builder b)
  | .error e _ => .error (.ofCell e)

/-- The slice and the value after a read. -/
def loaded {α : Type} (s : Slice) (load : Slice.Load α) (value : α → Val) :
    Except Fault (Slice × Val) :=
  match load s with
  | .ok a s => .ok (s, value a)
  | .error e _ => .error (.ofCell e)

/-- The result of an operation on cells. -/
def ofCell {α : Type} : Except Cell.Error α → Except Fault α
  | .ok a => .ok a
  | .error e => .error (.ofCell e)

/-- Store a dictionary: a bit that tells whether there is one, and its cell. -/
def storeDict (b : Builder) : Val → Except Fault Val
  | .null => stored b (Builder.storeBit false)
  | other => do
    let c ← other.asCell
    stored b (do Builder.storeBit true; Builder.storeRef c)

/-- Read a dictionary. -/
def loadDict : Slice.Load (Option Cell) := do
  if ← Slice.loadBit then some <$> Slice.loadRef else return none

/-- The value of a dictionary. -/
def dict : Option Cell → Val
  | some c => .cell c
  | none => .null

/-- The dictionary that a value is. -/
def asDict : Val → Except Fault (Option Cell)
  | .null => .ok none
  | other => some <$> other.asCell

/-- Read an address: none, or a standard one. -/
def loadMsgAddr (s : Slice) : Except Fault (Slice × Val) := do
  let tag ← ofCell (s.preloadUint 2)
  if tag = 0 then loaded s (Slice.loadSlice 2) .slice
  else if tag = 2 then loaded s (Slice.loadSlice Address.bitLength) .slice
  else throw (.bug (.addressTag tag.toNat))

/-! ### Calls -/

/-- A call that neither reads nor changes the data of the contract. -/
def call (host : Host) (name : String) (args : List Val) : Except Fault Val := do
  match name, args with
  | "begin_cell", [] => return .builder .empty
  | "empty_tuple", [] => return .tuple []
  | "null", [] => return .null
  | "null?", [v] => return .bool v.isNull
  | "throw", [code] => throw (.exit (← code.exitCode))
  | "throw_if", [code, cond] =>
    if ← cond.truthy then throw (.exit (← code.exitCode)) else return unit
  | "throw_unless", [code, cond] =>
    if ← cond.truthy then return unit else throw (.exit (← code.exitCode))
  | "my_address", [] =>
    match host.address.toCell with
    | .ok c => return .slice c.parse
    | .error e => throw (.bug (.ownAddress e))
  | "now", [] => return .int host.now.toNat
  | "min", [a, b] => return .int (min (← a.asInt) (← b.asInt))
  | "max", [a, b] => return .int (max (← a.asInt) (← b.asInt))
  | "abs", [a] => return .int (← a.asInt).natAbs
  | "store_uint", [b, x, n] => stored (← b.asBuilder) (Builder.storeUint (← x.asInt) (← n.width))
  | "store_int", [b, x, n] => stored (← b.asBuilder) (Builder.storeInt (← x.asInt) (← n.width))
  | "store_coins", [b, x] => stored (← b.asBuilder) (Builder.storeCoins (← x.asInt))
  | "store_ref", [b, c] => stored (← b.asBuilder) (Builder.storeRef (← c.asCell))
  | "store_slice", [b, s] => stored (← b.asBuilder) (Builder.storeSlice (← s.asSlice))
  | "store_builder", [b, other] => stored (← b.asBuilder) (Builder.storeBuilder (← other.asBuilder))
  | "store_dict", [b, d] => storeDict (← b.asBuilder) d
  | "end_cell", [b] => return .cell (← ofCell (← b.asBuilder).build)
  | "begin_parse", [c] => return .slice (← c.asCell).parse
  | "slice_bits", [s] => return .int (← s.asSlice).remainingBits
  | "slice_refs", [s] => return .int (← s.asSlice).remainingRefs
  | "preload_uint", [s, n] => return .int (← ofCell ((← s.asSlice).preloadUint (← n.width)))
  | "skip_bits", [s, n] => do
    let (s, _) ← loaded (← s.asSlice) (Slice.skipBits (← n.width)) fun _ => unit
    return .slice s
  | "end_parse", [s] => do
    ofCell (← s.asSlice).endParse
    return unit
  | "cell_hash", [c] => return .int (← c.asCell).hashNumber
  | "slice_hash", [s] => return .int (← s.asSlice).toCell.hashNumber
  | "equal_slice_bits", [a, b] => return .bool ((← a.asSlice).bits == (← b.asSlice).bits)
  | "udict_get_ref?", [d, n, key] =>
    match host.lookup with
    | some lookup => do
      let found := lookup (← asDict d) (← n.width) (← key.asInt)
      return .tensor [dict found, .bool found.isSome]
    | none => throw (.bug (.unsupported "udict_get_ref?" 3))
  | name, args => throw (.bug (.unsupported name args.length))

/-- A read that moves a slice on. -/
def read (name : String) (s : Slice) (args : List Val) : Except Fault (Slice × Val) := do
  match name, args with
  | "load_uint", [n] => loaded s (Slice.loadUint (← n.width)) .int
  | "load_int", [n] => loaded s (Slice.loadInt (← n.width)) .int
  | "load_coins", [] => loaded s Slice.loadCoins .int
  | "load_ref", [] => loaded s Slice.loadRef .cell
  | "load_bits", [n] => loaded s (Slice.loadSlice (← n.width)) .slice
  | "skip_bits", [n] => loaded s (Slice.skipBits (← n.width)) fun _ => unit
  | "load_dict", [] => loaded s loadDict dict
  | "load_msg_addr", [] => loadMsgAddr s
  | name, args => throw (.bug (.unsupportedModifying name args.length))

/-- A call that updates its first argument; gives the update and the result. -/
def modify (name : String) (args : List Val) : Except Fault (Val × Val) := do
  match args with
  | [] => throw (.bug (.noReceiver name))
  | receiver :: rest =>
    let (s, result) ← read name (← receiver.asSlice) rest
    return (.slice s, result)

/-! ### Instructions -/

/-- White space between words. -/
def isSpace (c : Char) : Bool :=
  let n := c.toNat
  (9 ≤ n && n ≤ 13) || (0x2000 ≤ n && n ≤ 0x200A) ||
    [0x20, 0x85, 0xA0, 0x1680, 0x2028, 0x2029, 0x202F, 0x205F, 0x3000].contains n

/-- The words of a text after the beginning of an unfinished one. -/
def wordsFrom : (word : List Char) → List Char → List (List Char)
  | [], [] => []
  | word, [] => [word]
  | word, c :: cs =>
    if !isSpace c then wordsFrom (word ++ [c]) cs
    else if word.isEmpty then wordsFrom [] cs
    else word :: wordsFrom [] cs

/-- The words of a text. -/
def words (text : String) : List String := (wordsFrom [] text.toList).map String.ofList

/-- Arguments as one value. -/
def single : List Val → Val
  | [v] => v
  | args => .tensor args

/-- The number of values that an instruction is for. -/
def arity (program word : String) : Except Fault Nat :=
  match Numeral.readNat UInt64.size word with
  | .ok n => .ok n
  | .error _ => .error (.bug (.asm program))

/-- The cell that a word of instructions spells. -/
def embedded (word : String) : Except Fault Cell :=
  match word.toList with
  | 'B' :: '{' :: rest =>
    match rest.getLast? with
    | some '}' =>
      match Bag.decodeHex (String.ofList rest.dropLast) with
      | .ok c => .ok c
      | .error fault => .error (.ofCell (.invalidBag fault))
    | _ => .error (.bug (.notABag word))
  | _ => .error (.bug (.notABag word))

/-- Run instructions, given their words. -/
def runWords (program : String) (args : List Val) : (words : List String) → Except Fault Val
  | ["NOP"] => return single args
  | [n, "TUPLE"] => do
    let n ← arity program n
    let leaves := (Val.tensor args).flatten
    if leaves.length = n then return .tuple leaves
    else throw (.bug (.tupleSize program leaves.length))
  | [n, "UNTUPLE"] => do
    let n ← arity program n
    match single args with
    | .tuple items => if items.length = n then return .tensor items else throw (.exit 7)
    | _ => throw (.exit 7)
  | ["<b", "b>", "<s", "PUSHSLICE"] => return .slice Cell.empty.parse
  | [bag, "B>boc", "<s", "PUSHSLICE"] => return .slice (← embedded bag).parse
  | [bag, "B>boc", "PUSHREF"] => return .cell (← embedded bag)
  | _ => throw (.bug (.asm program))

/-- Run instructions. -/
def asm (instructions : List String) (args : List Val) : Except Fault Val :=
  let program := " ".intercalate instructions
  runWords program args (words program)

/-! ### Operators -/

/-- A quotient rounded down. -/
def floorDiv (a b : Int) : Except Fault Int :=
  if b = 0 then .error (.exit 4) else .ok (a.fdiv b)

/-- The distance of a shift. -/
def shift (n : Int) : Except Fault Nat :=
  if 0 ≤ n ∧ n ≤ 1023 then .ok n.toNat else .error (.exit 5)

/-- An operator on two numbers. -/
def onInts (a b : Int) : Target.BinaryOp → Except Fault Val
  | .add => return .int (a + b)
  | .sub => return .int (a - b)
  | .mul => return .int (a * b)
  | .div => return .int (← floorDiv a b)
  | .mod => return .int (a - b * (← floorDiv a b))
  | .shl => return .int (Bitwise.shiftLeft a (← shift b))
  | .shr => return .int (Bitwise.shiftRight a (← shift b))
  | .and => return .int (Bitwise.and a b)
  | .or => return .int (Bitwise.or a b)
  | .xor => return .int (Bitwise.xor a b)
  | .eq => return .bool (a == b)
  | .ne => return .bool (a != b)
  | .lt => return .bool (a < b)
  | .le => return .bool (a ≤ b)
  | .gt => return .bool (a > b)
  | .ge => return .bool (a ≥ b)

/-- An operator with two operands. -/
def binary (op : Target.BinaryOp) (lhs rhs : Val) : Except Fault Val := do
  onInts (← lhs.asInt) (← rhs.asInt) op

/-- An operator with one operand. -/
def unary (op : Target.UnaryOp) (operand : Val) : Except Fault Val := do
  let v ← operand.asInt
  match op with
  | .neg => return .int (-v)
  | .bitNot => return .int (-v - 1)

end Primitive

end Machine

end CellCompiler
