import CellCompiler.Bits
import CellCompiler.Json.Basic
import CellCompiler.Numeral

/-!
# Numbers that are too large

A number is kept as a significand below two to the sixty-fourth and a power of ten, and its value
is then rounded to fifty-three binary digits and at most 1024 binary places. `Magnitude.isTooLarge`
tells the numbers that do not fit. Only the digits decide, so everything is said in whole numbers.
-/

namespace CellCompiler

/-- A significand times a power of ten. -/
structure Magnitude where
  significand : Nat := 0
  exponent : Int := 0
  deriving DecidableEq, Repr

namespace Magnitude

/-- The value of a decimal digit. -/
def digitValue (c : Char) : Nat := c.toNat - '0'.toNat

/-- Append digits as long as the significand stays below its bound: the significand and how many
digits were left out. -/
def append (significand : Nat) : List Char → Nat × Nat
  | [] => (significand, 0)
  | c :: cs =>
    let next := 10 * significand + digitValue c
    if next < UInt64.size then append next cs else (significand, cs.length + 1)

/-- The magnitude of a number with these digits in front of the point and behind it, and with this
power of ten. Digits that are left out in front of the point raise the power. -/
def ofDigits (whole fraction : List Char) (power : Int) : Magnitude :=
  let (front, raised) := append 0 whole
  let (all, unused) := append front fraction
  ⟨all, power + raised - (fraction.length - unused : Nat)⟩

/-- Binary digits that a value keeps. -/
def precision : Nat := 53

/-- The nearest number that has at most `precision` binary digits in front of its last zeros, of
two equally near ones the even one. -/
def nearest (n : Nat) : Nat :=
  let unit := Bits.twoPow (Bits.bitLength n - precision)
  let quotient := n / unit
  let rest := n % unit
  let roundsUp := unit < 2 * rest || (unit == 2 * rest && quotient % 2 == 1)
  (if roundsUp then quotient + 1 else quotient) * unit

/-- A number of few digits is not rounded. -/
theorem nearest_eq_self {n : Nat} (h : Bits.bitLength n ≤ precision) : nearest n = n := by
  have hu : Bits.twoPow (Bits.bitLength n - precision) = 1 := by
    rw [Nat.sub_eq_zero_of_le h]
    rfl
  simp [nearest, hu, Nat.mod_one]

/-- The least value that is rounded beyond the largest one: half a unit above it. -/
def overflow : Nat := Bits.twoPow 1024 - Bits.twoPow (1024 - precision - 1)

/-- The largest power of ten that fits. -/
def largestPower : Nat := 308

/-- The value does not fit. -/
def isTooLarge (m : Magnitude) : Bool :=
  match m.exponent with
  | .ofNat power =>
    if power ≤ largestPower then
      overflow ≤ nearest m.significand * nearest (Nat.pow 10 power)
    else m.significand != 0
  | .negSucc _ => false

end Magnitude

end CellCompiler

/-!
## Reading JSON text

`Json.parse?` reads a text that holds one value and nothing else but blanks. Arrays and objects that
are nested deeper than a given depth, numbers that are too large and texts with half of a pair of
units must be well formed, but they are not readable. Each function gives what it read together
with the rest of the text.
-/

namespace CellCompiler

namespace Json

/-- Blanks between tokens. -/
def isBlank (c : Char) : Bool := c = ' ' || c = '\n' || c = '\t' || c = '\r'

/-- The text after its leading blanks. -/
def skipBlanks (text : List Char) : List Char := text.dropWhile isBlank

/-! ### Strings -/

/-- The number that four hexadecimal digits spell. -/
def hex4? (a b c d : Char) : Option Nat := do
  let digits ← [a, b, c, d].mapM (Numeral.digit? 16)
  return digits.foldl (fun n d => 16 * n + d) 0

/-- The character that a backslash and a letter stand for. -/
def escaped? : Char → Option Char
  | '"' => some '"'
  | '\\' => some '\\'
  | '/' => some '/'
  | 'b' => some '\x08'
  | 'f' => some '\x0c'
  | 'n' => some '\n'
  | 'r' => some '\r'
  | 't' => some '\t'
  | _ => none

/-- A piece of a string. -/
inductive Piece where
  | char (c : Char)
  /-- A unit of sixteen bits, by its number. -/
  | unit (n : Nat)
  deriving DecidableEq, Repr

/-- The unit starts a pair that together stands for one character. -/
def isHighUnit (n : Nat) : Bool := 0xd800 ≤ n && n < 0xdc00

/-- The unit ends such a pair. -/
def isLowUnit (n : Nat) : Bool := 0xdc00 ≤ n && n < 0xe000

/-- The character of a pair of units. -/
def pairChar (high low : Nat) : Char :=
  Char.ofNat (0x10000 + (high - 0xd800) * 0x400 + (low - 0xdc00))

/-- The character of a unit that is not half of a pair. -/
def unitChar? (n : Nat) : Option Char :=
  if isHighUnit n || isLowUnit n then none else some (Char.ofNat n)

/-- The characters that pieces stand for. A half without its other half is none. -/
def chars? : List Piece → Option (List Char)
  | [] => some []
  | .char c :: rest => (chars? rest).map (c :: ·)
  | .unit n :: .unit m :: rest =>
    if isHighUnit n && isLowUnit m then (chars? rest).map (pairChar n m :: ·)
    else do return (← unitChar? n) :: (← chars? (.unit m :: rest))
  | .unit n :: rest => do return (← unitChar? n) :: (← chars? rest)

/-- The text that pieces stand for. -/
def text? (pieces : List Piece) : Option String := (chars? pieces).map String.ofList

/-- The rest of a string after its opening quote. -/
def stringTail? : List Char → Option (List Piece × List Char)
  | [] => none
  | '"' :: rest => some ([], rest)
  | '\\' :: 'u' :: a :: b :: c :: d :: rest =>
    match hex4? a b c d with
    | none => none
    | some n => (stringTail? rest).map fun (pieces, rest) => (.unit n :: pieces, rest)
  | '\\' :: letter :: rest =>
    match escaped? letter with
    | none => none
    | some c => (stringTail? rest).map fun (pieces, rest) => (.char c :: pieces, rest)
  | c :: rest =>
    if c.toNat < 0x20 || c = '\\' then none
    else (stringTail? rest).map fun (pieces, rest) => (.char c :: pieces, rest)

/-- The value of a string. -/
def ofPieces (pieces : List Piece) : Json := ((text? pieces).map str).getD unreadable

/-! ### Numbers -/

/-- The digits at the front of a text. -/
def digits (text : List Char) : List Char × List Char := text.span Char.isDigit

/-- The digits of a number: no zero stands in front of others. -/
def wholePart? (text : List Char) : Option (List Char × List Char) :=
  match digits text with
  | ([], _) => none
  | ('0' :: _ :: _, _) => none
  | found => some found

/-- The digits of a fraction, if there is one: a point and at least one digit. -/
def fraction? : List Char → Option (List Char × List Char)
  | '.' :: rest =>
    match digits rest with
    | ([], _) => none
    | found => some found
  | text => some ([], text)

/-- The sign and the digits of an exponent, if there is one: a letter, perhaps a sign, and at least
one digit. -/
def exponent? : List Char → Option (List Char × List Char × List Char)
  | c :: rest =>
    if c = 'e' || c = 'E' then
      let (sign, rest) :=
        match rest with
        | '+' :: r => (['+'], r)
        | '-' :: r => (['-'], r)
        | r => ([], r)
      match digits rest with
      | ([], _) => none
      | (ds, rest) => some (sign, ds, rest)
    else some ([], [], c :: rest)
  | [] => some ([], [], [])

/-- The natural number that digits spell. -/
def natOfDigits (ds : List Char) : Nat := ds.foldl (fun n c => 10 * n + Magnitude.digitValue c) 0

/-- The text of a number with a fraction or an exponent. -/
def decimalText (negative : Bool) (whole frac sign exp : List Char) : String :=
  let part (mark : Char) (sign digits : List Char) : List Char :=
    if digits.isEmpty then [] else mark :: sign ++ digits
  String.ofList ((if negative then ['-'] else []) ++ whole ++ part '.' [] frac ++ part 'e' sign exp)

/-- A number; minus zero is not an integer. -/
def number? (text : List Char) : Option (Json × List Char) := do
  let (negative, rest) :=
    match text with
    | '-' :: rest => (true, rest)
    | rest => (false, rest)
  let (whole, rest) ← wholePart? rest
  let (frac, rest) ← fraction? rest
  let (sign, exp, rest) ← exponent? rest
  let value := natOfDigits whole
  let power : Int := if sign = ['-'] then -natOfDigits exp else natOfDigits exp
  if (Magnitude.ofDigits whole frac power).isTooLarge then return (unreadable, rest)
  if frac.isEmpty && exp.isEmpty && !(negative && value == 0) then
    return (int (if negative then -value else value), rest)
  return (decimal (decimalText negative whole frac sign exp), rest)

/-! ### Values -/

/-- The text after a given word. -/
def afterWord? : (word text : List Char) → Option (List Char)
  | [], text => some text
  | w :: ws, c :: cs => if w = c then afterWord? ws cs else none
  | _ :: _, [] => none

/-- A value inside arrays and objects, if there is room for it at this depth. -/
def bounded (depth : Nat) (j : Json) : Json := if depth = 0 then unreadable else j

/-- An object of members with readable names. -/
def ofMembers (members : List (Option String × Json)) : Json :=
  match members.mapM fun (name, j) => name.map (·, j) with
  | some members => obj members
  | none => unreadable

mutual

/-- A value; `fuel` bounds the steps and `depth` the nesting. -/
def value? : (fuel depth : Nat) → List Char → Option (Json × List Char)
  | 0, _, _ => none
  | fuel + 1, depth, text =>
    match skipBlanks text with
    | '"' :: rest => (stringTail? rest).map fun (pieces, rest) => (ofPieces pieces, rest)
    | '[' :: rest =>
      match skipBlanks rest with
      | ']' :: rest => some (bounded depth (arr []), rest)
      | rest =>
        (items? fuel (depth - 1) rest).map fun (js, rest) => (bounded depth (arr js), rest)
    | '\x7b' :: rest =>
      match skipBlanks rest with
      | '\x7d' :: rest => some (bounded depth (obj []), rest)
      | rest =>
        (members? fuel (depth - 1) rest).map fun (ms, rest) => (bounded depth (ofMembers ms), rest)
    | 'n' :: rest => (afterWord? ['u', 'l', 'l'] rest).map fun rest => (null, rest)
    | 't' :: rest => (afterWord? ['r', 'u', 'e'] rest).map fun rest => (bool true, rest)
    | 'f' :: rest => (afterWord? ['a', 'l', 's', 'e'] rest).map fun rest => (bool false, rest)
    | rest => number? rest

/-- The items of an array up to its closing bracket. -/
def items? : (fuel depth : Nat) → List Char → Option (List Json × List Char)
  | 0, _, _ => none
  | fuel + 1, depth, text => do
    let (j, rest) ← value? fuel depth text
    match skipBlanks rest with
    | ',' :: rest =>
      let (js, rest) ← items? fuel depth rest
      return (j :: js, rest)
    | ']' :: rest => return ([j], rest)
    | _ => none

/-- The members of an object up to its closing brace. -/
def members? : (fuel depth : Nat) → List Char → Option (List (Option String × Json) × List Char)
  | 0, _, _ => none
  | fuel + 1, depth, text =>
    match skipBlanks text with
    | '"' :: rest => do
      let (name, rest) ← stringTail? rest
      match skipBlanks rest with
      | ':' :: rest =>
        let (j, rest) ← value? fuel depth rest
        match skipBlanks rest with
        | ',' :: rest =>
          let (ms, rest) ← members? fuel depth rest
          return ((text? name, j) :: ms, rest)
        | '\x7d' :: rest => return ([(text? name, j)], rest)
        | _ => none
      | _ => none
    | _ => none

end

/-- The value that a text holds; what is nested more than `depth` deep is not readable. -/
def parse? (depth : Nat) (text : String) : Option Json := do
  let chars := text.toList
  let (j, rest) ← value? (2 * chars.length + 2) depth chars
  if (skipBlanks rest).isEmpty then return j else none

end Json

end CellCompiler
