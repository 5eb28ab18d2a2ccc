import CellCompiler.Json.Value
import CellCompiler.Source.Table

/-!
# JSON form of source programs

Types, expressions, statements and declarations. Expressions and statements name their kind inside
their object, next to the type and the place that they carry. What is read in both stages has a
reader `readJson?` that takes the stage; `ofJson?` is the direct one.
-/

namespace CellCompiler

open Json (Stage required defaulted nullable nothingInside?)

/-- An alternative that names itself inside its object. -/
def Json.kinded (kind : String) (members : List (String × Json)) : Json :=
  .obj (("kind", .str kind) :: members)

/-! ### Types -/

namespace TypeRef

/-- The JSON form of a type. -/
def toJson : TypeRef → Json
  | named name optional => Json.kinded "ref" [("name", .str name), ("optional", .bool optional)]
  | map key keyAs value valueAs =>
    Json.kinded "map" [("key", .str key), ("key_as", Json.ofOption .str keyAs),
      ("value", .str value), ("value_as", Json.ofOption .str valueAs)]
  | bounced name => Json.kinded "bounced" [("name", .str name)]
  | void => Json.kinded "void" []
  | null => Json.kinded "null" []

/-- Names of the kinds of types in JSON. -/
def kinds : List String := ["ref", "map", "bounced", "void", "null"]

/-- Read a type in a stage. -/
def readJson? (stage : Stage) (j : Json) : Option TypeRef := do
  let (kind, rest) ← j.inside? stage "kind" kinds
  match kind with
  | "ref" =>
    match ← rest.fields? ["name", "optional"] 1 with
    | [name, optional] =>
      return named (← required Json.str? name) (← defaulted false Json.bool? optional)
    | _ => none
  | "map" =>
    match ← rest.fields? ["key", "key_as", "value", "value_as"] 3 with
    | [key, keyAs, value, valueAs] =>
      return map (← required Json.str? key) (← nullable Json.str? keyAs)
        (← required Json.str? value) (← nullable Json.str? valueAs)
    | _ => none
  | "bounced" =>
    match ← rest.fields? ["name"] 1 with
    | [name] => return bounced (← required Json.str? name)
    | _ => none
  | "void" =>
    nothingInside? rest
    return void
  | "null" =>
    nothingInside? rest
    return null
  | _ => none

/-- Read a type. -/
def ofJson? (j : Json) : Option TypeRef := readJson? .direct j

end TypeRef

namespace PrimitiveKind

/-- The name of a built-in type in JSON. -/
def jsonName : PrimitiveKind → String
  | int => "int"
  | bool => "bool"
  | cell => "cell"
  | slice => "slice"
  | builder => "builder"
  | address => "address"
  | string => "string"
  | stringBuilder => "string_builder"

/-- Read a built-in type. -/
def ofJson? : Json → Option PrimitiveKind :=
  Json.choice? .direct (all.map fun k => (k.jsonName, k))

end PrimitiveKind

namespace TypeKind

/-- The JSON form of a sort of type. -/
def toJson : TypeKind → Json
  | primitive kind => .obj [("primitive", .str kind.jsonName)]
  | struct => .str "struct"
  | contract => .str "contract"

/-- Read a sort of type. -/
def ofJson? (j : Json) : Option TypeKind := do
  let (name, content) ← j.around?
  match name with
  | "primitive" => return primitive (← required PrimitiveKind.ofJson? content)
  | "struct" =>
    Json.nothing? content
    return struct
  | "contract" =>
    Json.nothing? content
    return contract
  | _ => none

end TypeKind

/-! ### Places and operators -/

/-- The JSON form of a place. -/
def Location.toJson (loc : Location) : Json :=
  .obj [("file", Json.ofOption .str loc.file), ("line", .ofNat loc.line.toNat),
    ("column", .ofNat loc.column.toNat)]

/-- Read a place. -/
def Location.ofJson? (j : Json) : Option Location := do
  match ← j.fields? ["file", "line", "column"] 3 with
  | [file, line, column] =>
    return { file := ← nullable Json.str? file, line := ← required Json.uint32? line,
             column := ← required Json.uint32? column }
  | _ => none

/-- The name of an operator in JSON. -/
def BinaryOp.jsonName : BinaryOp → String
  | add => "add"
  | sub => "sub"
  | mul => "mul"
  | div => "div"
  | mod => "mod"
  | shl => "shl"
  | shr => "shr"
  | bitAnd => "bit_and"
  | bitOr => "bit_or"
  | bitXor => "bit_xor"
  | eq => "eq"
  | ne => "ne"
  | lt => "lt"
  | le => "le"
  | gt => "gt"
  | ge => "ge"
  | and => "and"
  | or => "or"

/-- All operators with two operands. -/
def BinaryOp.all : List BinaryOp :=
  [add, sub, mul, div, mod, shl, shr, bitAnd, bitOr, bitXor, eq, ne, lt, le, gt, ge, and, or]

/-- Read an operator in a stage. -/
def BinaryOp.readJson? (stage : Stage) : Json → Option BinaryOp :=
  Json.choice? stage (BinaryOp.all.map fun op => (op.jsonName, op))

/-- Read an operator. -/
def BinaryOp.ofJson? (j : Json) : Option BinaryOp := readJson? .direct j

/-- The name of an operator in JSON. -/
def UnaryOp.jsonName : UnaryOp → String
  | neg => "neg"
  | not => "not"
  | bitNot => "bit_not"
  | notNull => "not_null"

/-- Read an operator in a stage. -/
def UnaryOp.readJson? (stage : Stage) : Json → Option UnaryOp :=
  Json.choice? stage ([neg, not, bitNot, notNull].map fun op => (op.jsonName, op))

/-- Read an operator. -/
def UnaryOp.ofJson? (j : Json) : Option UnaryOp := readJson? .direct j

/-- All operators of assignments. -/
def AugmentedOp.all : List AugmentedOp :=
  [add, sub, mul, div, mod, bitAnd, bitOr, bitXor, shl, shr]

/-- The name of an operator in JSON. -/
def AugmentedOp.jsonName (op : AugmentedOp) : String := op.binary.jsonName

/-- Read an operator in a stage. -/
def AugmentedOp.readJson? (stage : Stage) : Json → Option AugmentedOp :=
  Json.choice? stage (AugmentedOp.all.map fun op => (op.jsonName, op))

/-- Read an operator. -/
def AugmentedOp.ofJson? (j : Json) : Option AugmentedOp := readJson? .direct j

/-! ### Expressions -/

namespace Expr

/-- An expression of a kind, followed by its type and place. -/
def node (kind : String) (info : Info) (members : List (String × Json)) : Json :=
  Json.kinded kind (members ++ [("ty", info.ty.toJson), ("loc", info.loc.toJson)])

mutual

/-- The JSON form of an expression. -/
def toJson : Expr → Json
  | number info v => node "number" info [("value", Json.ofInt v)]
  | boolean info b => node "boolean" info [("value", .bool b)]
  | null info => node "null" info []
  | string info text => node "string" info [("value", .str text)]
  | ident info name => node "id" info [("name", .str name)]
  | field info target name =>
    node "field_access" info [("target", target.toJson), ("field", .str name)]
  | call info name args =>
    node "static_call" info [("name", .str name), ("args", .arr (listToJson args))]
  | methodCall info receiver method args =>
    node "method_call" info [("receiver", receiver.toJson), ("method", .str method),
      ("args", .arr (listToJson args))]
  | staticCall info typeName method args =>
    node "static_method_call" info [("type_name", .str typeName), ("method", .str method),
      ("args", .arr (listToJson args))]
  | instanceOf info typeName inits =>
    node "struct_instance" info [("type_name", .str typeName), ("fields", .arr (initsToJson inits))]
  | binary info op lhs rhs =>
    node "binary" info [("op", .str op.jsonName), ("lhs", lhs.toJson), ("rhs", rhs.toJson)]
  | unary info op operand =>
    node "unary" info [("op", .str op.jsonName), ("operand", operand.toJson)]
  | conditional info cond onTrue onFalse =>
    node "conditional" info [("cond", cond.toJson), ("then", onTrue.toJson),
      ("otherwise", onFalse.toJson)]
  | initOf info contract args =>
    node "init_of" info [("contract", .str contract), ("args", .arr (listToJson args))]

/-- The JSON forms of expressions. -/
def listToJson : List Expr → List Json
  | [] => []
  | e :: es => e.toJson :: listToJson es

/-- The JSON forms of initializers. -/
def initsToJson : List (String × Expr) → List Json
  | [] => []
  | (name, e) :: rest => .obj [("name", .str name), ("value", e.toJson)] :: initsToJson rest

end

/-- Read an initializer, given how to read its value. -/
def initOfJson? (read : Json → Option Expr) (j : Json) : Option (String × Expr) := do
  match ← j.fields? ["name", "value"] 2 with
  | [name, value] => return (← required Json.str? name, ← required read value)
  | _ => none

/-- Names of the kinds of expressions in JSON. -/
def kinds : List String :=
  ["number", "boolean", "null", "string", "id", "field_access", "static_call", "method_call",
    "static_method_call", "struct_instance", "binary", "unary", "conditional", "init_of"]

/-- Read the contents of an expression of a kind, given how to read expressions inside it. They
are held. -/
def contentsOfJson? (read : Json → Option Expr) (info : Info) (kind : String) (rest : Json) :
    Option Expr := do
  let reads := Json.list? read
  match kind with
  | "number" =>
    match ← rest.fields? ["value"] 1 with
    | [value] => return number info (← required Json.bigInt? value)
    | _ => none
  | "boolean" =>
    match ← rest.fields? ["value"] 1 with
    | [value] => return boolean info (← required Json.bool? value)
    | _ => none
  | "null" => return null info
  | "string" =>
    match ← rest.fields? ["value"] 1 with
    | [value] => return string info (← required Json.str? value)
    | _ => none
  | "id" =>
    match ← rest.fields? ["name"] 1 with
    | [name] => return ident info (← required Json.str? name)
    | _ => none
  | "field_access" =>
    match ← rest.fields? ["target", "field"] 2 with
    | [target, name] => return field info (← required read target) (← required Json.str? name)
    | _ => none
  | "static_call" =>
    match ← rest.fields? ["name", "args"] 2 with
    | [name, args] => return call info (← required Json.str? name) (← required reads args)
    | _ => none
  | "method_call" =>
    match ← rest.fields? ["receiver", "method", "args"] 3 with
    | [receiver, method, args] =>
      return methodCall info (← required read receiver) (← required Json.str? method)
        (← required reads args)
    | _ => none
  | "static_method_call" =>
    match ← rest.fields? ["type_name", "method", "args"] 3 with
    | [typeName, method, args] =>
      return staticCall info (← required Json.str? typeName) (← required Json.str? method)
        (← required reads args)
    | _ => none
  | "struct_instance" =>
    match ← rest.fields? ["type_name", "fields"] 2 with
    | [typeName, inits] =>
      return instanceOf info (← required Json.str? typeName)
        (← required (Json.list? (initOfJson? read)) inits)
    | _ => none
  | "binary" =>
    match ← rest.fields? ["op", "lhs", "rhs"] 3 with
    | [op, lhs, rhs] =>
      return binary info (← required (BinaryOp.readJson? .held) op) (← required read lhs)
        (← required read rhs)
    | _ => none
  | "unary" =>
    match ← rest.fields? ["op", "operand"] 2 with
    | [op, operand] =>
      return unary info (← required (UnaryOp.readJson? .held) op) (← required read operand)
    | _ => none
  | "conditional" =>
    match ← rest.fields? ["cond", "then", "otherwise"] 3 with
    | [cond, onTrue, onFalse] =>
      return conditional info (← required read cond) (← required read onTrue)
        (← required read onFalse)
    | _ => none
  | "init_of" =>
    match ← rest.fields? ["contract", "args"] 2 with
    | [contract, args] =>
      return initOf info (← required Json.str? contract) (← required reads args)
    | _ => none
  | _ => none

/-- Read an expression nested at most `fuel` deep. All but its type and its place is held. -/
def ofJsonWithin : (fuel : Nat) → Stage → Json → Option Expr
  | 0, _, _ => none
  | fuel + 1, stage, j => do
    let members ← j.obj?
    let ty ← required (TypeRef.readJson? stage) (← Json.member? members "ty")
    let loc ← defaulted {} Location.ofJson? (← Json.member? members "loc")
    let own ← Json.hold? stage (.obj (Json.without "ty" (Json.without "loc" members)))
    let (kind, rest) ← own.inside? .held "kind" kinds
    contentsOfJson? (ofJsonWithin fuel .held) ⟨ty, loc⟩ kind rest

/-- Read an expression in a stage. -/
def readJson? (stage : Stage) (j : Json) : Option Expr := ofJsonWithin j.depth stage j

/-- Read an expression. -/
def ofJson? (j : Json) : Option Expr := readJson? .direct j

end Expr

/-! ### Statements -/

namespace Stmt

/-- A statement of a kind, followed by its place. -/
def node (kind : String) (loc : Location) (members : List (String × Json)) : Json :=
  Json.kinded kind (members ++ [("loc", loc.toJson)])

mutual

/-- The JSON form of a statement. -/
def toJson : Stmt → Json
  | letVar loc name ty value =>
    node "let" loc [("name", .str name), ("ty", ty.toJson), ("value", value.toJson)]
  | assign loc path value => node "assign" loc [("path", path.toJson), ("value", value.toJson)]
  | augmentedAssign loc path op value =>
    node "augmented_assign" loc [("path", path.toJson), ("op", .str op.jsonName),
      ("value", value.toJson)]
  | ret loc value => node "return" loc [("value", Json.ofOption Expr.toJson value)]
  | expression loc e => node "expression" loc [("expr", e.toJson)]
  | condition loc cond body otherwise =>
    node "condition" loc [("cond", cond.toJson), ("body", .arr (listToJson body)),
      ("otherwise", otherwiseToJson otherwise)]
  | whileLoop loc cond body =>
    node "while" loc [("cond", cond.toJson), ("body", .arr (listToJson body))]
  | untilLoop loc body cond =>
    node "until" loc [("body", .arr (listToJson body)), ("cond", cond.toJson)]
  | repeatLoop loc count body =>
    node "repeat" loc [("count", count.toJson), ("body", .arr (listToJson body))]
  | tryCatch loc body catchName catchBody =>
    node "try_catch" loc [("body", .arr (listToJson body)),
      ("catch_name", Json.ofOption .str catchName), ("catch_body", .arr (listToJson catchBody))]
  | foreach loc key value map body =>
    node "foreach" loc [("key", .str key), ("value", .str value), ("map", map.toJson),
      ("body", .arr (listToJson body))]

/-- The JSON forms of statements. -/
def listToJson : List Stmt → List Json
  | [] => []
  | s :: rest => s.toJson :: listToJson rest

/-- The JSON form of the alternative of a condition. -/
def otherwiseToJson : Otherwise → Json
  | .absent => .null
  | .block body => .obj [("kind", .str "block"), ("body", .arr (listToJson body))]
  | .chain s => .obj [("kind", .str "if"), ("body", s.toJson)]

end

/-- Read the alternative of a condition, given how to read statements. -/
def otherwiseOfJson? (read : Stage → Json → Option Stmt) (stage : Stage) (j : Json) :
    Option Otherwise := do
  let (kind, stage, content) ← j.beside? stage "kind" "body" ["block", "if"]
  match kind with
  | "block" => return .block (← required (Json.list? (read stage)) content)
  | "if" => return .chain (← required (read stage) content)
  | _ => none

/-- Names of the kinds of statements in JSON. -/
def kinds : List String :=
  ["let", "assign", "augmented_assign", "return", "expression", "condition", "while", "until",
    "repeat", "try_catch", "foreach"]

/-- Read the contents of a statement of a kind, given how to read statements inside it. They are
held. -/
def contentsOfJson? (read : Stage → Json → Option Stmt) (loc : Location) (kind : String)
    (rest : Json) : Option Stmt := do
  let reads := Json.list? (read .held)
  let expr := Expr.readJson? .held
  match kind with
  | "let" =>
    match ← rest.fields? ["name", "ty", "value"] 3 with
    | [name, ty, value] =>
      return letVar loc (← required Json.str? name) (← required (TypeRef.readJson? .held) ty)
        (← required expr value)
    | _ => none
  | "assign" =>
    match ← rest.fields? ["path", "value"] 2 with
    | [path, value] =>
      return assign loc (← required expr path) (← required expr value)
    | _ => none
  | "augmented_assign" =>
    match ← rest.fields? ["path", "op", "value"] 3 with
    | [path, op, value] =>
      return augmentedAssign loc (← required expr path)
        (← required (AugmentedOp.readJson? .held) op) (← required expr value)
    | _ => none
  | "return" =>
    match ← rest.fields? ["value"] 0 with
    | [value] => return ret loc (← nullable expr value)
    | _ => none
  | "expression" =>
    match ← rest.fields? ["expr"] 1 with
    | [e] => return expression loc (← required expr e)
    | _ => none
  | "condition" =>
    match ← rest.fields? ["cond", "body", "otherwise"] 2 with
    | [cond, body, otherwise] =>
      let alternative ← nullable (otherwiseOfJson? read .held) otherwise
      return condition loc (← required expr cond) (← required reads body)
        (alternative.getD .absent)
    | _ => none
  | "while" =>
    match ← rest.fields? ["cond", "body"] 2 with
    | [cond, body] => return whileLoop loc (← required expr cond) (← required reads body)
    | _ => none
  | "until" =>
    match ← rest.fields? ["body", "cond"] 2 with
    | [body, cond] => return untilLoop loc (← required reads body) (← required expr cond)
    | _ => none
  | "repeat" =>
    match ← rest.fields? ["count", "body"] 2 with
    | [count, body] => return repeatLoop loc (← required expr count) (← required reads body)
    | _ => none
  | "try_catch" =>
    match ← rest.fields? ["body", "catch_name", "catch_body"] 1 with
    | [body, catchName, catchBody] =>
      return tryCatch loc (← required reads body) (← nullable Json.str? catchName)
        (← defaulted [] reads catchBody)
    | _ => none
  | "foreach" =>
    match ← rest.fields? ["key", "value", "map", "body"] 4 with
    | [key, value, map, body] =>
      return foreach loc (← required Json.str? key) (← required Json.str? value)
        (← required expr map) (← required reads body)
    | _ => none
  | _ => none

/-- Read a statement nested at most `fuel` deep. All but its place is held. -/
def ofJsonWithin : (fuel : Nat) → Stage → Json → Option Stmt
  | 0, _, _ => none
  | fuel + 1, stage, j => do
    let members ← j.obj?
    let loc ← defaulted {} Location.ofJson? (← Json.member? members "loc")
    let own ← Json.hold? stage (.obj (Json.without "loc" members))
    let (kind, rest) ← own.inside? .held "kind" kinds
    contentsOfJson? (ofJsonWithin fuel) loc kind rest

/-- Read a statement in a stage. -/
def readJson? (stage : Stage) (j : Json) : Option Stmt := ofJsonWithin j.depth stage j

/-- Read a statement. -/
def ofJson? (j : Json) : Option Stmt := readJson? .direct j

/-- Read statements. -/
def listOfJson? : Json → Option (List Stmt) := Json.list? ofJson?

end Stmt

/-! ### Declarations -/

/-- The JSON form of a parameter. -/
def Param.toJson (p : Param) : Json := .obj [("name", .str p.name), ("ty", p.ty.toJson)]

/-- Read a parameter. -/
def Param.ofJson? (j : Json) : Option Param := do
  match ← j.fields? ["name", "ty"] 2 with
  | [name, ty] => return ⟨← required Json.str? name, ← required TypeRef.ofJson? ty⟩
  | _ => none

/-- The JSON form of a field. -/
def Field.toJson (f : Field) : Json :=
  .obj [("name", .str f.name), ("index", .ofNat f.index.toNat), ("ty", f.ty.toJson),
    ("as", Json.ofOption .str f.format), ("default", Json.ofOption Value.toJson f.default)]

/-- Read a field. -/
def Field.ofJson? (j : Json) : Option Field := do
  match ← j.fields? ["name", "index", "ty", "as", "default"] 3 with
  | [name, index, ty, format, default] =>
    return { name := ← required Json.str? name, index := ← required Json.uint64? index,
             ty := ← required TypeRef.ofJson? ty, format := ← nullable Json.str? format,
             default := ← nullable Value.ofJson? default }
  | _ => none

/-- The JSON form of what a function does. -/
def FunctionBody.toJson : FunctionBody → Json
  | statements stmts => Json.kinded "statements" [("stmts", .arr (Stmt.listToJson stmts))]
  | native name => Json.kinded "native" [("name", .str name)]
  | abstract => Json.kinded "abstract" []

/-- Read what a function does. -/
def FunctionBody.ofJson? (j : Json) : Option FunctionBody := do
  let (kind, rest) ← j.inside? .direct "kind" ["statements", "native", "abstract"]
  match kind with
  | "statements" =>
    match ← rest.fields? ["stmts"] 1 with
    | [stmts] => return statements (← required (Json.list? (Stmt.readJson? .held)) stmts)
    | _ => none
  | "native" =>
    match ← rest.fields? ["name"] 1 with
    | [name] => return native (← required Json.str? name)
    | _ => none
  | "abstract" =>
    nothingInside? rest
    return abstract
  | _ => none

/-- The JSON form of a function. -/
def Function.toJson (f : Function) : Json :=
  .obj [("name", .str f.name), ("self_type", Json.ofOption TypeRef.toJson f.selfType),
    ("params", Json.ofList Param.toJson f.params), ("returns", f.returns.toJson),
    ("mutates", .bool f.mutates), ("is_getter", .bool f.isGetter),
    ("method_id", Json.ofOption (fun id => .ofNat id.toNat) f.methodId),
    ("inline", .bool f.inline), ("body", f.body.toJson)]

/-- Read a function. -/
def Function.ofJson? (j : Json) : Option Function := do
  let names := ["name", "self_type", "params", "returns", "mutates", "is_getter", "method_id",
    "inline", "body"]
  match ← j.fields? names 9 with
  | [name, selfType, params, returns, mutates, isGetter, methodId, inline, body] =>
    return { name := ← required Json.str? name
             selfType := ← nullable TypeRef.ofJson? selfType
             params := ← defaulted [] (Json.list? Param.ofJson?) params
             returns := ← required TypeRef.ofJson? returns
             mutates := ← defaulted false Json.bool? mutates
             isGetter := ← defaulted false Json.bool? isGetter
             methodId := ← nullable Json.uint32? methodId
             inline := ← defaulted false Json.bool? inline
             body := ← required FunctionBody.ofJson? body }
  | _ => none

/-- The JSON form of how a contract starts. -/
def Init.toJson (i : Init) : Json :=
  .obj [("params", Json.ofList Param.toJson i.params), ("body", .arr (Stmt.listToJson i.body))]

/-- Read how a contract starts. -/
def Init.ofJson? (j : Json) : Option Init := do
  match ← j.fields? ["params", "body"] 0 with
  | [params, body] =>
    return ⟨← defaulted [] (Json.list? Param.ofJson?) params, ← defaulted [] Stmt.listOfJson? body⟩
  | _ => none

/-- The JSON form of a choice of messages. -/
def MessageSelector.toJson : MessageSelector → Json
  | binary typeName => Json.kinded "binary" [("type_name", .str typeName)]
  | empty => Json.kinded "empty" []
  | comment text => Json.kinded "comment" [("text", .str text)]
  | commentFallback => Json.kinded "comment_fallback" []
  | fallback => Json.kinded "fallback" []

/-- Names of the choices of messages in JSON. -/
def MessageSelector.kinds : List String :=
  ["binary", "empty", "comment", "comment_fallback", "fallback"]

/-- Read a choice of messages in a stage. -/
def MessageSelector.readJson? (stage : Stage) (j : Json) : Option MessageSelector := do
  let (kind, rest) ← j.inside? stage "kind" kinds
  match kind with
  | "binary" =>
    match ← rest.fields? ["type_name"] 1 with
    | [typeName] => return binary (← required Json.str? typeName)
    | _ => none
  | "comment" =>
    match ← rest.fields? ["text"] 1 with
    | [text] => return comment (← required Json.str? text)
    | _ => none
  | "empty" =>
    nothingInside? rest
    return empty
  | "comment_fallback" =>
    nothingInside? rest
    return commentFallback
  | "fallback" =>
    nothingInside? rest
    return fallback
  | _ => none

/-- Read a choice of messages. -/
def MessageSelector.ofJson? (j : Json) : Option MessageSelector := readJson? .direct j

/-- A choice of messages of a direction. -/
def ReceiverSelector.directed (direction : String) (members : List (String × Json)) : Json :=
  .obj (("direction", .str direction) :: members)

/-- The JSON form of a choice of messages. -/
def ReceiverSelector.toJson : ReceiverSelector → Json
  | internal selector => directed "internal" [("selector", selector.toJson)]
  | external selector => directed "external" [("selector", selector.toJson)]
  | bounceBinary typeName bounced =>
    directed "bounce_binary" [("type_name", .str typeName), ("bounced", .bool bounced)]
  | bounceFallback => directed "bounce_fallback" []

/-- Read a choice of messages. -/
def ReceiverSelector.ofJson? (j : Json) : Option ReceiverSelector := do
  let directions := ["internal", "external", "bounce_binary", "bounce_fallback"]
  let (direction, rest) ← j.inside? .direct "direction" directions
  match direction with
  | "internal" =>
    match ← rest.fields? ["selector"] 1 with
    | [selector] => return internal (← required (MessageSelector.readJson? .held) selector)
    | _ => none
  | "external" =>
    match ← rest.fields? ["selector"] 1 with
    | [selector] => return external (← required (MessageSelector.readJson? .held) selector)
    | _ => none
  | "bounce_binary" =>
    match ← rest.fields? ["type_name", "bounced"] 2 with
    | [typeName, bounced] =>
      return bounceBinary (← required Json.str? typeName) (← required Json.bool? bounced)
    | _ => none
  | "bounce_fallback" =>
    nothingInside? rest
    return bounceFallback
  | _ => none

/-- The JSON form of a message handler. -/
def Receiver.toJson (r : Receiver) : Json :=
  .obj [("selector", r.selector.toJson), ("param", Json.ofOption .str r.param),
    ("body", .arr (Stmt.listToJson r.body))]

/-- Read a message handler. -/
def Receiver.ofJson? (j : Json) : Option Receiver := do
  match ← j.fields? ["selector", "param", "body"] 1 with
  | [selector, param, body] =>
    return ⟨← required ReceiverSelector.ofJson? selector, ← nullable Json.str? param,
      ← defaulted [] Stmt.listOfJson? body⟩
  | _ => none

/-- The JSON form of a table. -/
def Dict.toJson {α : Type} (f : α → Json) (d : Dict α) : Json :=
  .obj (d.entries.map fun (name, value) => (name, f value))

/-- The JSON form of a declared type. -/
def TypeDecl.toJson (d : TypeDecl) : Json :=
  .obj [("name", .str d.name), ("kind", d.kind.toJson),
    ("fields", Json.ofList Field.toJson d.fields),
    ("partial_field_count", .ofNat d.bounceFields.toNat),
    ("header", Json.ofOption (fun h => .ofNat h.toNat) d.header),
    ("functions", d.functions.toJson Function.toJson),
    ("receivers", Json.ofList Receiver.toJson d.receivers),
    ("init", Json.ofOption Init.toJson d.init), ("uid", .ofNat d.uid.toNat)]

/-- Read a declared type. -/
def TypeDecl.ofJson? (j : Json) : Option TypeDecl := do
  let names := ["name", "kind", "fields", "partial_field_count", "header", "functions",
    "receivers", "init", "uid"]
  match ← j.fields? names 2 with
  | [name, kind, fields, bounceFields, header, functions, receivers, init, uid] =>
    return { name := ← required Json.str? name
             kind := ← required TypeKind.ofJson? kind
             fields := ← defaulted [] (Json.list? Field.ofJson?) fields
             bounceFields := ← defaulted 0 Json.uint64? bounceFields
             header := ← nullable Json.uint32? header
             functions := ← defaulted .empty (Json.dict? Function.ofJson?) functions
             receivers := ← defaulted [] (Json.list? Receiver.ofJson?) receivers
             init := ← nullable Init.ofJson? init
             uid := ← defaulted 0 Json.uint16? uid }
  | _ => none

/-- The JSON form of a constant. -/
def Constant.toJson (c : Constant) : Json :=
  .obj [("name", .str c.name), ("ty", c.ty.toJson), ("value", c.value.toJson)]

/-- Read a constant. -/
def Constant.ofJson? (j : Json) : Option Constant := do
  match ← j.fields? ["name", "ty", "value"] 3 with
  | [name, ty, value] =>
    return ⟨← required Json.str? name, ← required TypeRef.ofJson? ty,
      ← required Value.ofJson? value⟩
  | _ => none

/-- The JSON form of a table of declarations. -/
def TypeTable.toJson (t : TypeTable) : Json :=
  .obj [("types", t.types.toJson TypeDecl.toJson),
    ("functions", t.functions.toJson Function.toJson),
    ("constants", t.constants.toJson Constant.toJson)]

/-- Read a table of declarations. -/
def TypeTable.ofJson? (j : Json) : Option TypeTable := do
  match ← j.fields? ["types", "functions", "constants"] 0 with
  | [types, functions, constants] =>
    return { types := ← defaulted .empty (Json.dict? TypeDecl.ofJson?) types
             functions := ← defaulted .empty (Json.dict? Function.ofJson?) functions
             constants := ← defaulted .empty (Json.dict? Constant.ofJson?) constants }
  | _ => none

end CellCompiler
