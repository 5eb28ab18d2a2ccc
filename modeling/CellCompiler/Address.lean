import CellCompiler.Cell.Builder

/-!
# Addresses

A standard internal address: a workchain between -128 and 127 and an account of thirty-two bytes.
Its text is `workchain:account` with the account in hexadecimal, and its form in a cell has 267
bits: the tag `10`, a zero, the workchain and the account.

* `Address.read` and `Address.text` pass between addresses and their text;
* `Address.store` and `Address.load` pass between addresses and cells.
-/

namespace CellCompiler

/-- A standard internal address. -/
structure Address where
  /-- The workchain. -/
  workchain : Int8
  /-- The account in the workchain. -/
  account : List UInt8
  /-- Accounts have thirty-two bytes. -/
  account_length : account.length = 32
  deriving DecidableEq

namespace Address

/-- Number of bits of an address in a cell. -/
def bitLength : Nat := 267

/-- What is wrong with the text or the bits of an address. -/
inductive Fault where
  | noColon (text : String)
  | badWorkchain (text : String) (error : Numeral.Error)
  | wrongLength (digits : Nat)
  | badAccount (error : Numeral.Error)
  | notStandard
  deriving DecidableEq, Repr

/-- The wording of a fault. -/
def Fault.message : Fault → String
  | .noColon text => s!"expected wc:hex, got {text}"
  | .badWorkchain text e => s!"bad workchain {text}: {e.message}"
  | .wrongLength n => s!"account id must be 64 hex digits, got {n}"
  | .badAccount e => s!"bad account id: {e.message}"
  | .notStandard => "not a standard address without anycast"

/-- Why an address cannot be loaded: its bits cannot be read, or they are no address. -/
inductive LoadError where
  | cell (error : Cell.Error)
  | fault (fault : Fault)
  deriving DecidableEq, Repr

/-- The address lies in workchain zero. -/
def isBasechain (a : Address) : Bool := a.workchain == 0

/-- The text of an address. -/
def text (a : Address) : String := s!"{a.workchain.toInt}:{Hex.encode a.account}"

/-- An address from its workchain and the bytes of its account. -/
def ofParts? (workchain : Int) (account : List UInt8) : Option Address :=
  if h : account.length = 32 then some ⟨Int8.ofInt workchain, account, h⟩ else none

/-- Read an address from the two sides of the colon. -/
def readParts (workchain account : List Char) : Except Fault Address :=
  match Numeral.read 10 (-128) 127 workchain with
  | .error e => .error (.badWorkchain (String.ofList workchain) e)
  | .ok wc =>
    let digits := utf8 (String.ofList account)
    if digits.length ≠ 64 then .error (.wrongLength digits.length)
    else
      match Hex.decode digits with
      | .error e => .error (.badAccount e)
      | .ok bytes =>
        match ofParts? wc bytes with
        | some a => .ok a
        | none => .error (.wrongLength digits.length)

/-- Read the text of an address. Where a pair of digits would cut a character in two the text is refused
as having a bad account, see `Hex.decode`; no address is read from it in any case. -/
def read (text : String) : Except Fault Address :=
  match text.toList.span (· != ':') with
  | (workchain, _ :: account) => readParts workchain account
  | (_, []) => .error (.noColon text)

/-- Store an address. -/
def store (a : Address) : Builder.Store := do
  Builder.storeUint 2 2
  Builder.storeBit false
  Builder.storeInt a.workchain.toInt 8
  Builder.storeBytes a.account

/-- Load an address. -/
def load : EStateM LoadError Slice Address := do
  let tag ← EStateM.adaptExcept LoadError.cell (Slice.loadUint 2)
  let anycast ← EStateM.adaptExcept LoadError.cell Slice.loadBit
  if tag != 2 || anycast then throw (.fault .notStandard)
  let workchain ← EStateM.adaptExcept LoadError.cell (Slice.loadInt 8)
  let account ← EStateM.adaptExcept LoadError.cell (Slice.loadBytes 32)
  match ofParts? workchain account with
  | some a => pure a
  | none => throw (.fault .notStandard)

/-- The cell that holds an address and nothing else. -/
def toCell (a : Address) : Except Cell.Error Cell := Builder.buildWith a.store

end Address

end CellCompiler
