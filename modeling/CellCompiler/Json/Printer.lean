import CellCompiler.Numeral
import CellCompiler.Json.Basic

/-!
# JSON text

* `Json.compact` writes a value without blanks;
* `Json.pretty` writes every item and member on a line of its own, indented by two blanks a level.

In strings only quotes, backslashes and control characters are escaped. What cannot be read has no
text of its own and is written as null.
-/

namespace CellCompiler

namespace Json

/-- The escaped form of a character. -/
def escapeChar (c : Char) : String :=
  if c = '"' then "\\\""
  else if c = '\\' then "\\\\"
  else if c = '\n' then "\\n"
  else if c = '\r' then "\\r"
  else if c = '\t' then "\\t"
  else if c = '\x08' then "\\b"
  else if c = '\x0c' then "\\f"
  else if c.toNat < 0x20 then "\\u00" ++ Hex.encode [UInt8.ofNat c.toNat]
  else c.toString

/-- A string in quotes. -/
def quote (text : String) : String :=
  text.foldl (fun acc c => acc ++ escapeChar c) "\"" ++ "\""

/-! ### Without blanks -/

mutual

/-- The text of a value without blanks. -/
def compact : Json → String
  | null | unreadable => "null"
  | bool true => "true"
  | bool false => "false"
  | int v => toString v
  | decimal text => text
  | str text => quote text
  | arr [] => "[]"
  | arr (j :: js) => "[" ++ compact j ++ compactItems js ++ "]"
  | obj [] => "\x7b\x7d"
  | obj ((name, j) :: rest) =>
    "\x7b" ++ quote name ++ ":" ++ compact j ++ compactMembers rest ++ "\x7d"

/-- Further items, each after a comma. -/
def compactItems : List Json → String
  | [] => ""
  | j :: js => "," ++ compact j ++ compactItems js

/-- Further members, each after a comma. -/
def compactMembers : List (String × Json) → String
  | [] => ""
  | (name, j) :: rest => "," ++ quote name ++ ":" ++ compact j ++ compactMembers rest

end

/-! ### On several lines -/

/-- A line break and the blanks of a level. -/
def newLine (level : Nat) : String := "\n" ++ String.ofList (List.replicate (2 * level) ' ')

mutual

/-- The text of a value on several lines, inside this many levels. -/
def prettyAt (level : Nat) : Json → String
  | arr [] => "[]"
  | arr (j :: js) =>
    "[" ++ newLine (level + 1) ++ prettyAt (level + 1) j ++ prettyItems (level + 1) js ++
      newLine level ++ "]"
  | obj [] => "\x7b\x7d"
  | obj ((name, j) :: rest) =>
    "\x7b" ++ newLine (level + 1) ++ quote name ++ ": " ++ prettyAt (level + 1) j ++
      prettyMembers (level + 1) rest ++ newLine level ++ "\x7d"
  | null | unreadable => compact null
  | bool value => compact (bool value)
  | int value => compact (int value)
  | decimal text => compact (decimal text)
  | str text => compact (str text)

/-- Further items on lines of their own. -/
def prettyItems (level : Nat) : List Json → String
  | [] => ""
  | j :: js => "," ++ newLine level ++ prettyAt level j ++ prettyItems level js

/-- Further members on lines of their own. -/
def prettyMembers (level : Nat) : List (String × Json) → String
  | [] => ""
  | (name, j) :: rest =>
    "," ++ newLine level ++ quote name ++ ": " ++ prettyAt level j ++ prettyMembers level rest

end

/-- The text of a value on several lines. -/
def pretty (j : Json) : String := prettyAt 0 j

end Json

end CellCompiler
