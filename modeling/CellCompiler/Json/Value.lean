import CellCompiler.Json.Decode
import CellCompiler.Source.Value

/-!
# JSON form of cells and values

A cell is a record of its bits and its references. A value names its kind beside its contents. Each
decoder that follows nested data is bounded by the depth of the JSON value that it reads.
-/

namespace CellCompiler

open Json (Stage required)

/-! ### Cells -/

mutual

/-- The JSON form of a cell. -/
def Cell.toJson : Cell → Json
  | .mk bits refs => .obj [("bits", Json.ofList Json.bool bits), ("refs", .arr (cellsToJson refs))]

/-- The JSON forms of cells. -/
def cellsToJson : List Cell → List Json
  | [] => []
  | c :: cs => c.toJson :: cellsToJson cs

end

/-- Read a cell nested at most `fuel` deep. -/
def Cell.ofJsonWithin : (fuel : Nat) → Json → Option Cell
  | 0, _ => none
  | fuel + 1, j => do
    match ← j.fields? ["bits", "refs"] 2 with
    | [bits, refs] =>
      let bits ← required (Json.list? Json.bool?) bits
      let refs ← required (Json.list? (Cell.ofJsonWithin fuel)) refs
      return .mk bits refs
    | _ => none

/-- Read a cell. -/
def Cell.ofJson? (j : Json) : Option Cell := Cell.ofJsonWithin j.depth j

/-- Read an address from its text. -/
def Address.ofJson? (j : Json) : Option Address := do
  match Address.read (← j.str?) with
  | .ok a => return a
  | .error _ => none

/-! ### Values -/

namespace Value

/-- A value with its kind beside its contents. -/
def tagged (kind : String) (content : Json) : Json := .obj [("kind", .str kind), ("value", content)]

mutual

/-- The JSON form of a value. -/
def toJson : Value → Json
  | int v => tagged "int" (Json.ofInt v)
  | bool b => tagged "bool" (.bool b)
  | null => .obj [("kind", .str "null")]
  | string text => tagged "string" (.str text)
  | address a => tagged "address" (.str a.text)
  | cell c => tagged "cell" c.toJson
  | slice c => tagged "slice" c.toJson
  | struct typeName fields =>
    tagged "struct" (.obj [("type_name", .str typeName), ("fields", .obj (fieldsToJson fields))])

/-- The JSON forms of named values. -/
def fieldsToJson : List (String × Value) → List (String × Json)
  | [] => []
  | (name, v) :: rest => (name, v.toJson) :: fieldsToJson rest

end

/-- Names of the kinds of values in JSON. -/
def kinds : List String := ["int", "bool", "null", "string", "address", "cell", "slice", "struct"]

/-- Read a value nested at most `fuel` deep. -/
def ofJsonWithin : (fuel : Nat) → Stage → Json → Option Value
  | 0, _, _ => none
  | fuel + 1, stage, j => do
    let (kind, stage, content) ← j.beside? stage "kind" "value" kinds
    match kind with
    | "int" => return int (← required Json.bigInt? content)
    | "bool" => return bool (← required Json.bool? content)
    | "null" =>
      Json.nothing? content
      return null
    | "string" => return string (← required Json.str? content)
    | "address" => return address (← required Address.ofJson? content)
    | "cell" => return cell (← required Cell.ofJson? content)
    | "slice" => return slice (← required Cell.ofJson? content)
    | "struct" =>
      match ← required (Json.namedFields? ["type_name", "fields"]) content with
      | [typeName, fields] =>
        let typeName ← required Json.str? typeName
        let fields ← required (Json.dict? (ofJsonWithin fuel stage)) fields
        return struct typeName fields.entries
      | _ => none
    | _ => none

/-- Read a value. -/
def ofJson? (j : Json) : Option Value := ofJsonWithin j.depth .direct j

end Value

end CellCompiler
