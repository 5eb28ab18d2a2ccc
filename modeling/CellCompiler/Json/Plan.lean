import CellCompiler.Json.Source
import CellCompiler.Source.Program

/-!
# JSON form of plans and programs
-/

namespace CellCompiler

open Json (Stage required defaulted nullable nothingInside?)

namespace Plan

/-- The JSON form of a header. -/
def Header.toJson (h : Header) : Json :=
  .obj [("value", .ofNat h.value.toNat), ("bits", .ofNat h.bits.toNat)]

/-- Read a header. -/
def Header.ofJson? (j : Json) : Option Header := do
  match ← j.fields? ["value", "bits"] 2 with
  | [value, bits] => return ⟨← required Json.uint32? value, ← required Json.uint16? bits⟩
  | _ => none

/-- The name of a format in JSON. -/
def Format.jsonName : Format → String
  | reference => "default"
  | remainder => "remainder"

/-- Read a format. It is held. -/
def Format.ofJson? : Json → Option Format :=
  Json.choice? .held ([reference, remainder].map fun f => (f.jsonName, f))

/-- The members of a way of storing, its name first. -/
def OpKind.members : OpKind → List (String × Json)
  | int bits => [("kind", .str "int"), ("bits", .ofNat bits.toNat)]
  | uint bits => [("kind", .str "uint"), ("bits", .ofNat bits.toNat)]
  | coins => [("kind", .str "coins")]
  | boolean => [("kind", .str "boolean")]
  | address => [("kind", .str "address")]
  | cell format => [("kind", .str "cell"), ("format", .str format.jsonName)]
  | slice format => [("kind", .str "slice"), ("format", .str format.jsonName)]
  | builder format => [("kind", .str "builder"), ("format", .str format.jsonName)]
  | string => [("kind", .str "string")]
  | fixedBytes bytes => [("kind", .str "fixed_bytes"), ("bytes", .ofNat bytes.toNat)]
  | map => [("kind", .str "map")]
  | struct typeName byRef =>
    [("kind", .str "struct"), ("type_name", .str typeName), ("by_ref", .bool byRef)]

/-- The JSON form of a way of storing. -/
def OpKind.toJson (kind : OpKind) : Json := .obj kind.members

/-- Names of the ways of storing in JSON. -/
def OpKind.names : List String :=
  ["int", "uint", "coins", "boolean", "address", "cell", "slice", "builder", "string",
    "fixed_bytes", "map", "struct"]

/-- Read a way of storing in a stage. -/
def OpKind.readJson? (stage : Stage) (j : Json) : Option OpKind := do
  let (kind, rest) ← j.inside? stage "kind" names
  let formatted (make : Format → OpKind) : Option OpKind := do
    match ← rest.fields? ["format"] 0 with
    | [format] => return make (← defaulted .reference Format.ofJson? format)
    | _ => none
  let sized (name : String) (make : UInt16 → OpKind) : Option OpKind := do
    match ← rest.fields? [name] 1 with
    | [size] => return make (← required Json.uint16? size)
    | _ => none
  let plain (kind : OpKind) : Option OpKind := do
    nothingInside? rest
    return kind
  match kind with
  | "int" => sized "bits" int
  | "uint" => sized "bits" uint
  | "coins" => plain coins
  | "boolean" => plain boolean
  | "address" => plain address
  | "cell" => formatted cell
  | "slice" => formatted slice
  | "builder" => formatted builder
  | "string" => plain string
  | "fixed_bytes" => sized "bytes" fixedBytes
  | "map" => plain map
  | "struct" =>
    match ← rest.fields? ["type_name", "by_ref"] 1 with
    | [typeName, byRef] =>
      return struct (← required Json.str? typeName) (← defaulted false Json.bool? byRef)
    | _ => none
  | _ => none

/-- Read a way of storing. -/
def OpKind.ofJson? (j : Json) : Option OpKind := readJson? .direct j

/-- The JSON form of an operation. -/
def Op.toJson (op : Op) : Json :=
  .obj (("name", .str op.name) :: op.kind.members ++ [("optional", .bool op.optional)])

/-- Read an operation. All but its name and whether it is optional is held. -/
def Op.ofJson? (j : Json) : Option Op := do
  let members ← j.obj?
  let name ← required Json.str? (← Json.member? members "name")
  let optional ← defaulted false Json.bool? (← Json.member? members "optional")
  let own ← Json.hold? .direct (.obj (Json.without "name" (Json.without "optional" members)))
  return ⟨name, ← OpKind.readJson? .held own, optional⟩

/-- The JSON form of a chain of cells. -/
def Chain.toJson : Chain → Json
  | last ops => .obj [("ops", Json.ofList Op.toJson ops), ("next", .null)]
  | link ops next => .obj [("ops", Json.ofList Op.toJson ops), ("next", next.toJson)]

/-- Read a chain of cells of at most `fuel` cells. -/
def Chain.ofJsonWithin : (fuel : Nat) → Json → Option Chain
  | 0, _ => none
  | fuel + 1, j => do
    match ← j.fields? ["ops", "next"] 0 with
    | [ops, next] =>
      let ops ← defaulted [] (Json.list? Op.ofJson?) ops
      match ← nullable (Chain.ofJsonWithin fuel) next with
      | none => return last ops
      | some next => return link ops next
    | _ => none

/-- Read a chain of cells. -/
def Chain.ofJson? (j : Json) : Option Chain := Chain.ofJsonWithin j.depth j

/-- The JSON form of a plan. -/
def toJson (p : Plan) : Json :=
  .obj [("header", Json.ofOption Header.toJson p.header), ("root", p.root.toJson),
    ("ops", Json.ofList Op.toJson p.ops)]

/-- Read a plan. -/
def ofJson? (j : Json) : Option Plan := do
  match ← j.fields? ["header", "root", "ops"] 3 with
  | [header, root, ops] =>
    return ⟨← nullable Header.ofJson? header, ← required Chain.ofJson? root,
      ← required (Json.list? Op.ofJson?) ops⟩
  | _ => none

end Plan

/-- The JSON form of the plans of a program. -/
def Plans.toJson (all : Plans) : Json :=
  .obj [("types", all.types.toJson Plan.toJson), ("init_args", all.initArgs.toJson Plan.toJson)]

/-- Read the plans of a program. -/
def Plans.ofJson? (j : Json) : Option Plans := do
  match ← j.fields? ["types", "init_args"] 0 with
  | [types, initArgs] =>
    return ⟨← defaulted .empty (Json.dict? Plan.ofJson?) types,
      ← defaulted .empty (Json.dict? Plan.ofJson?) initArgs⟩
  | _ => none

/-- The JSON form of a program. -/
def Program.toJson (p : Program) : Json :=
  .obj [("types", p.types.toJson), ("allocations", p.plans.toJson)]

/-- Read a program. -/
def Program.ofJson? (j : Json) : Option Program := do
  match ← j.fields? ["types", "allocations"] 1 with
  | [types, plans] =>
    return ⟨← required TypeTable.ofJson? types, ← defaulted {} Plans.ofJson? plans⟩
  | _ => none

end CellCompiler
