import CellCompiler.Sha256
import CellCompiler.Bits

/-!
# Cyclic redundancy check

`crc16` is the sixteen-bit check with generator `x^16 + x^12 + x^5 + 1`, start value zero and no
reflection: a shift register that takes each byte at its top end.
-/

namespace CellCompiler

namespace Crc16

/-- One step of the register: a one that leaves at the top is cancelled by the generator. -/
def shift (crc : UInt16) : UInt16 :=
  if crc &&& 0x8000 != 0 then (crc <<< 1) ^^^ 0x1021 else crc <<< 1

/-- Take in one byte. -/
def absorb (crc : UInt16) (byte : UInt8) : UInt16 :=
  Nat.repeat shift 8 (crc ^^^ (byte.toUInt16 <<< 8))

end Crc16

/-- The check of a byte string. -/
def crc16 (data : List UInt8) : UInt16 := data.foldl Crc16.absorb 0

end CellCompiler

/-!
## Exit codes and method numbers

Codes with which emitted code stops, and numbers under which methods are called from outside.
-/

namespace CellCompiler

namespace ExitCode

/-- An absent value was used. -/
def nullReference : Nat := 128

/-- A message does not start with its opcode. -/
def invalidOpcode : Nat := 129

/-- No handler took a message. -/
def invalidMessage : Nat := 130

/-- The code of a contract to be deployed is not known. -/
def codeNotFound : Nat := 135

/-- A slice is no standard address. -/
def invalidAddress : Nat := 136

/-- An address lies in another workchain than zero. -/
def notBasechain : Nat := 138

/-- The code for a failed requirement, taken from its message. -/
def ofMessage (message : String) : Nat :=
  Bits.ofBigEndian (Sha256.digest (utf8 message)) % 63000 + 1000

end ExitCode

/-- The number of a method that does not declare one, taken from its name. -/
def defaultMethodId (name : String) : UInt32 := (crc16 (utf8 name)).toUInt32 ||| 0x10000

end CellCompiler
