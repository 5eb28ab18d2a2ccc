/-!
# Integers written as text

`Numeral.read` reads an integer of a bounded range from its digits in some radix. A sign may
stand in front, a minus only where the range reaches below zero, and leading zeros are allowed.
The reader goes from left to right and reports the first thing that is wrong.
-/

namespace CellCompiler

namespace Numeral

/-- Why a text is not an integer of the range. -/
inductive Error where
  | empty
  | invalidDigit
  | tooLarge
  | tooSmall
  deriving DecidableEq, Repr

/-- The wording of an error. -/
def Error.message : Error → String
  | .empty => "cannot parse integer from empty string"
  | .invalidDigit => "invalid digit found in string"
  | .tooLarge => "number too large to fit in target type"
  | .tooSmall => "number too small to fit in target type"

/-- The value of a digit in `radix`, letters of both cases going on after nine. -/
def digit? (radix : Nat) (c : Char) : Option Nat :=
  let value :=
    if '0' ≤ c ∧ c ≤ '9' then some (c.toNat - '0'.toNat)
    else if 'a' ≤ c ∧ c ≤ 'z' then some (c.toNat - 'a'.toNat + 10)
    else if 'A' ≤ c ∧ c ≤ 'Z' then some (c.toNat - 'A'.toNat + 10)
    else none
  value.filter (· < radix)

/-- Read the remaining digits after the ones that gave `acc`; a negative number grows downwards. -/
def readDigits (radix : Nat) (lo hi : Int) (negative : Bool) :
    (acc : Int) → List Char → Except Error Int
  | acc, [] => .ok acc
  | acc, c :: cs =>
    match digit? radix c with
    | none => .error .invalidDigit
    | some d =>
      let next := if negative then acc * radix - d else acc * radix + d
      if next < lo then .error .tooSmall
      else if hi < next then .error .tooLarge
      else readDigits radix lo hi negative next cs

/-- Read an integer between `lo` and `hi`. -/
def read (radix : Nat) (lo hi : Int) : List Char → Except Error Int
  | [] => .error .empty
  | ['+'] => .error .invalidDigit
  | ['-'] => .error .invalidDigit
  | '+' :: digits => readDigits radix lo hi false 0 digits
  | '-' :: digits =>
    if lo < 0 then readDigits radix lo hi true 0 digits else .error .invalidDigit
  | digits => readDigits radix lo hi false 0 digits

/-- Read a natural number below `bound` in decimal. -/
def readNat (bound : Nat) (text : String) : Except Error Nat :=
  (read 10 0 (bound - 1) text.toList).map Int.toNat

end Numeral

end CellCompiler

/-!
## Hexadecimal text

* `Hex.encode` writes two lower-case digits per byte;
* `Hex.decode` reads bytes from pairs of characters, each pair being an integer in radix sixteen
  as `Numeral.read` understands it.
-/

namespace CellCompiler

namespace Hex

/-- The digit of a value below sixteen. -/
def digit (n : Nat) : Char :=
  if n < 10 then Char.ofNat ('0'.toNat + n) else Char.ofNat ('a'.toNat + (n - 10))

/-- The two digits of a byte. -/
def byte (b : UInt8) : List Char := [digit (b.toNat / 16), digit (b.toNat % 16)]

/-- The text of a byte string. -/
def encode (bytes : List UInt8) : String := String.ofList (bytes.flatMap byte)

/-- Capital form of a digit. -/
def upperDigit (c : Char) : Char :=
  if 'a' ≤ c ∧ c ≤ 'f' then Char.ofNat (c.toNat - 'a'.toNat + 'A'.toNat) else c

/-- The text of a byte string in capital digits. -/
def encodeUpper (bytes : List UInt8) : String :=
  String.ofList ((bytes.flatMap byte).map upperDigit)

/-- Read one byte from each pair of text bytes. A pair that cuts a longer character in two is refused
like one that holds no digits, though it is no text at all: an implementation that slices text stops
there instead. -/
def decode : List UInt8 → Except Numeral.Error (List UInt8)
  | a :: b :: rest => do
    let value ← Numeral.read 16 0 255 [Char.ofNat a.toNat, Char.ofNat b.toNat]
    let bytes ← decode rest
    pure (UInt8.ofNat value.toNat :: bytes)
  | _ => .ok []

end Hex

end CellCompiler
