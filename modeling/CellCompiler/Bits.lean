/-!
# Bit strings

A bit string is a list of booleans, most significant bit first.

* `Bits.ofNat` and `Bits.toNat` pass between numbers and their binary digits;
* `Bits.ofInt` and `Bits.toInt` do the same in two's complement;
* `Bits.fitsUnsigned` and `Bits.fitsSigned` say which numbers a width can hold;
* `Bits.ofBytes` and `Bits.toBytes` pass between bit strings and byte strings.
-/

namespace CellCompiler

namespace Bits

/-! ### Numbers -/

/-- Two to the power of `width`, the number of bit strings of that width. -/
def twoPow (width : Nat) : Nat := Nat.pow 2 width

/-- The `width` low binary digits of `n`. -/
def ofNat : (width : Nat) → (n : Nat) → List Bool
  | 0, _ => []
  | w + 1, n => n.testBit w :: ofNat w n

@[simp] theorem length_ofNat (w n : Nat) : (ofNat w n).length = w := by
  induction w with
  | zero => rfl
  | succ w ih => simp [ofNat, ih]

/-- The number that a bit string spells. -/
def toNat (bits : List Bool) : Nat := bits.foldl (fun acc b => 2 * acc + b.toNat) 0

/-- The `width` low digits of `v` in two's complement. -/
def ofInt (width : Nat) (v : Int) : List Bool := ofNat width (v % twoPow width).toNat

@[simp] theorem length_ofInt (w : Nat) (v : Int) : (ofInt w v).length = w := length_ofNat _ _

/-- The number that a bit string spells in two's complement: a leading one counts negatively. -/
def toInt : List Bool → Int
  | [] => 0
  | true :: bits => toNat (true :: bits) - twoPow (bits.length + 1)
  | false :: bits => toNat (false :: bits)

/-- Number of binary digits of `n`, none for zero. -/
def bitLength (n : Nat) : Nat := if n = 0 then 0 else n.log2 + 1

/-- `v` is a natural number of at most `width` digits. -/
def fitsUnsigned (v : Int) (width : Nat) : Bool :=
  match v with
  | .ofNat n => bitLength n ≤ width
  | .negSucc _ => false

/-- `v` has a two's complement form of `width` digits. -/
def fitsSigned (v : Int) (width : Nat) : Bool :=
  match width with
  | 0 => v == 0
  | w + 1 =>
    match v with
    | .ofNat n => bitLength n ≤ w
    | .negSucc n => bitLength n ≤ w

/-! ### Bytes -/

/-- The eight digits of a byte. -/
def ofByte (b : UInt8) : List Bool := ofNat 8 b.toNat

/-- The digits of a byte string. -/
def ofBytes (bytes : List UInt8) : List Bool := bytes.flatMap ofByte

/-- The byte that starts with at most eight given digits and goes on with zeros. -/
def byte (bits : List Bool) : UInt8 :=
  UInt8.ofNat (toNat (bits ++ List.replicate (8 - bits.length) false))

/-- The bytes of a bit string, the last one filled up with zeros. -/
def toBytes : List Bool → List UInt8
  | b7 :: b6 :: b5 :: b4 :: b3 :: b2 :: b1 :: b0 :: rest =>
    byte [b7, b6, b5, b4, b3, b2, b1, b0] :: toBytes rest
  | [] => []
  | short => [byte short]

/-- The `width` low bytes of `n`, most significant first. -/
def bigEndian : (width : Nat) → (n : Nat) → List UInt8
  | 0, _ => []
  | w + 1, n => UInt8.ofNat (n >>> (8 * w)) :: bigEndian w n

@[simp] theorem length_bigEndian (w n : Nat) : (bigEndian w n).length = w := by
  induction w with
  | zero => rfl
  | succ w ih => simp [bigEndian, ih]

/-- The number that a byte string spells, most significant byte first. -/
def ofBigEndian (bytes : List UInt8) : Nat := bytes.foldl (fun acc b => 256 * acc + b.toNat) 0

/-! ### Text -/

/-- Bits written as zeros and ones. -/
def text (bits : List Bool) : String := String.ofList (bits.map fun b => if b then '1' else '0')

/-- The bit of a digit. -/
def ofDigit? : Char → Option Bool
  | '0' => some false
  | '1' => some true
  | _ => none

/-- Read bits from zeros and ones. -/
def ofText? (text : String) : Option (List Bool) := text.toList.mapM ofDigit?

end Bits

/-- The bytes of a text in UTF-8. -/
def utf8 (text : String) : List UInt8 := text.toUTF8.data.toList

end CellCompiler

/-!
## Bitwise operations on integers

Integers of any size are read as two's complement digit strings that go on to the left without
end, so that `-1` is all ones.

* `Bitwise.and`, `Bitwise.or` and `Bitwise.xor` work digit by digit;
* `Bitwise.shiftLeft` and `Bitwise.shiftRight` move the digits, the latter rounding down.
-/

namespace CellCompiler

namespace Bitwise

/-- The digits set in the first number and not in the second. -/
def andNot (m n : Nat) : Nat := m ^^^ (m &&& n)

/-- Digitwise conjunction. -/
def and : Int → Int → Int
  | .ofNat m, .ofNat n => .ofNat (m &&& n)
  | .ofNat m, .negSucc n => .ofNat (andNot m n)
  | .negSucc m, .ofNat n => .ofNat (andNot n m)
  | .negSucc m, .negSucc n => .negSucc (m ||| n)

/-- Digitwise disjunction. -/
def or : Int → Int → Int
  | .ofNat m, .ofNat n => .ofNat (m ||| n)
  | .ofNat m, .negSucc n => .negSucc (andNot n m)
  | .negSucc m, .ofNat n => .negSucc (andNot m n)
  | .negSucc m, .negSucc n => .negSucc (m &&& n)

/-- Digitwise exclusive disjunction. -/
def xor : Int → Int → Int
  | .ofNat m, .ofNat n => .ofNat (m ^^^ n)
  | .ofNat m, .negSucc n => .negSucc (m ^^^ n)
  | .negSucc m, .ofNat n => .negSucc (m ^^^ n)
  | .negSucc m, .negSucc n => .ofNat (m ^^^ n)

/-- Append `n` zeros on the right. -/
def shiftLeft (a : Int) (n : Nat) : Int := a * Bits.twoPow n

/-- Drop `n` digits on the right. -/
def shiftRight (a : Int) (n : Nat) : Int := a.fdiv (Bits.twoPow n)

end Bitwise

end CellCompiler
