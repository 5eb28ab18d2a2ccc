import CellCompiler.Json.Decode
import CellCompiler.Target.Outline
import CellCompiler.Emission.Output

/-!
# JSON form of target code

Types, expressions, statements and items name themselves around their contents. The parts of an
expression or a statement must be named; records may also be arrays.
-/

namespace CellCompiler

open Json (required nullable)

namespace Target

/-- An alternative with contents. -/
def wrap (name : String) (content : Json) : Json := .obj [(name, content)]

/-! ### Types -/

mutual

/-- The JSON form of a type. -/
def Ty.toJson : Ty → Json
  | .int => .str "Int"
  | .cell => .str "Cell"
  | .slice => .str "Slice"
  | .builder => .str "Builder"
  | .cont => .str "Cont"
  | .tuple items => wrap "Tuple" (.arr (Ty.listToJson items))
  | .tensor items => wrap "Tensor" (.arr (Ty.listToJson items))
  | .hole => .str "Hole"
  | .var name => wrap "Var" (.str name)

/-- The JSON forms of types. -/
def Ty.listToJson : List Ty → List Json
  | [] => []
  | t :: ts => t.toJson :: Ty.listToJson ts

end

/-- Read a type nested at most `fuel` deep. -/
def Ty.ofJsonWithin : (fuel : Nat) → Json → Option Ty
  | 0, _ => none
  | fuel + 1, j => do
    let (name, content) ← j.around?
    let plain (ty : Ty) : Option Ty := do
      Json.nothing? content
      return ty
    match name with
    | "Int" => plain .int
    | "Cell" => plain .cell
    | "Slice" => plain .slice
    | "Builder" => plain .builder
    | "Cont" => plain .cont
    | "Hole" => plain .hole
    | "Tuple" => return .tuple (← required (Json.list? (Ty.ofJsonWithin fuel)) content)
    | "Tensor" => return .tensor (← required (Json.list? (Ty.ofJsonWithin fuel)) content)
    | "Var" => return .var (← required Json.str? content)
    | _ => none

/-- Read a type. -/
def Ty.ofJson? (j : Json) : Option Ty := Ty.ofJsonWithin (j.depth + 1) j

/-! ### Operators -/

/-- Read an operator with two operands. -/
def BinaryOp.ofJson? : Json → Option BinaryOp :=
  Json.choice? .direct
    ([add, sub, mul, div, mod, shl, shr, and, or, xor, eq, ne, lt, le, gt, ge].map
      fun op => (op.outline, op))

/-- Read an operator of an assignment. -/
def AugmentedOp.ofJson? : Json → Option AugmentedOp :=
  Json.choice? .direct
    ([add, sub, mul, div, mod, shl, shr, and, or, xor].map fun op => (op.outline, op))

/-- Read an operator with one operand. -/
def UnaryOp.ofJson? : Json → Option UnaryOp :=
  Json.choice? .direct ([neg, bitNot].map fun op => (op.outline, op))

/-! ### Expressions -/

mutual

/-- The JSON form of an expression. -/
def Expr.toJson : Expr → Json
  | .int v => wrap "Int" (Json.ofInt v)
  | .bool b => wrap "Bool" (.bool b)
  | .ident name => wrap "Ident" (.str name)
  | .call callee args =>
    wrap "Call" (.obj [("callee", .str callee), ("args", .arr (Expr.listToJson args))])
  | .methodCall receiver method args modifying =>
    wrap "MethodCall" (.obj [("receiver", receiver.toJson), ("method", .str method),
      ("args", .arr (Expr.listToJson args)), ("modifying", .bool modifying)])
  | .assign lhs rhs => wrap "Assign" (.obj [("lhs", lhs.toJson), ("rhs", rhs.toJson)])
  | .augmentedAssign lhs op rhs =>
    wrap "AugmentedAssign" (.obj [("lhs", lhs.toJson), ("op", .str op.outline),
      ("rhs", rhs.toJson)])
  | .ternary cond onTrue onFalse =>
    wrap "Ternary" (.obj [("cond", cond.toJson), ("then", onTrue.toJson),
      ("otherwise", onFalse.toJson)])
  | .binary op lhs rhs =>
    wrap "Binary" (.obj [("op", .str op.outline), ("lhs", lhs.toJson), ("rhs", rhs.toJson)])
  | .unary op operand =>
    wrap "Unary" (.obj [("op", .str op.outline), ("operand", operand.toJson)])
  | .tensor items => wrap "Tensor" (.arr (Expr.listToJson items))
  | .tuple items => wrap "Tuple" (.arr (Expr.listToJson items))
  | .hole => .str "Hole"

/-- The JSON forms of expressions. -/
def Expr.listToJson : List Expr → List Json
  | [] => []
  | e :: es => e.toJson :: Expr.listToJson es

end

/-- Read the contents of an expression, given how to read expressions inside it. -/
def Expr.contentsOfJson? (read : Json → Option Expr) (name : String) (content : Json) :
    Option Expr := do
  let reads := Json.list? read
  match name with
  | "Int" => return .int (← content.bigInt?)
  | "Bool" => return .bool (← content.bool?)
  | "Ident" => return .ident (← content.str?)
  | "Call" =>
    match ← content.namedFields? ["callee", "args"] with
    | [callee, args] => return .call (← required Json.str? callee) (← required reads args)
    | _ => none
  | "MethodCall" =>
    match ← content.namedFields? ["receiver", "method", "args", "modifying"] with
    | [receiver, method, args, modifying] =>
      return .methodCall (← required read receiver) (← required Json.str? method)
        (← required reads args) (← required Json.bool? modifying)
    | _ => none
  | "Assign" =>
    match ← content.namedFields? ["lhs", "rhs"] with
    | [lhs, rhs] => return .assign (← required read lhs) (← required read rhs)
    | _ => none
  | "AugmentedAssign" =>
    match ← content.namedFields? ["lhs", "op", "rhs"] with
    | [lhs, op, rhs] =>
      return .augmentedAssign (← required read lhs) (← required AugmentedOp.ofJson? op)
        (← required read rhs)
    | _ => none
  | "Ternary" =>
    match ← content.namedFields? ["cond", "then", "otherwise"] with
    | [cond, onTrue, onFalse] =>
      return .ternary (← required read cond) (← required read onTrue) (← required read onFalse)
    | _ => none
  | "Binary" =>
    match ← content.namedFields? ["op", "lhs", "rhs"] with
    | [op, lhs, rhs] =>
      return .binary (← required BinaryOp.ofJson? op) (← required read lhs) (← required read rhs)
    | _ => none
  | "Unary" =>
    match ← content.namedFields? ["op", "operand"] with
    | [op, operand] => return .unary (← required UnaryOp.ofJson? op) (← required read operand)
    | _ => none
  | "Tensor" => return .tensor (← reads content)
  | "Tuple" => return .tuple (← reads content)
  | _ => none

/-- Read an expression nested at most `fuel` deep. -/
def Expr.ofJsonWithin : (fuel : Nat) → Json → Option Expr
  | 0, _ => none
  | fuel + 1, j => do
    let (name, content) ← j.around?
    if name = "Hole" then
      Json.nothing? content
      return .hole
    Expr.contentsOfJson? (Expr.ofJsonWithin fuel) name (← content)

/-- Read an expression. -/
def Expr.ofJson? (j : Json) : Option Expr := Expr.ofJsonWithin (j.depth + 1) j

/-! ### Statements -/

mutual

/-- The JSON form of a statement. -/
def Stmt.toJson : Stmt → Json
  | .block body => wrap "Block" (.arr (stmtsToJson body))
  | .ret value => wrap "Return" (Json.ofOption Expr.toJson value)
  | .expr e => wrap "Expr" e.toJson
  | .varDef ty binding init =>
    wrap "VarDef" (.obj [("ty", Json.ofOption Ty.toJson ty), ("binding", binding.toJson),
      ("init", Json.ofOption Expr.toJson init)])
  | .ifThen branch => wrap "If" branch.toJson
  | .repeatLoop count body =>
    wrap "Repeat" (.obj [("count", count.toJson), ("body", .arr (stmtsToJson body))])
  | .whileLoop cond body =>
    wrap "While" (.obj [("cond", cond.toJson), ("body", .arr (stmtsToJson body))])
  | .untilLoop body cond =>
    wrap "Until" (.obj [("body", .arr (stmtsToJson body)), ("cond", cond.toJson)])
  | .tryCatch body binding handler =>
    wrap "TryCatch" (.obj [("body", .arr (stmtsToJson body)), ("catch_binding", binding.toJson),
      ("catch_body", .arr (stmtsToJson handler))])

/-- The JSON form of a condition. -/
def Conditional.toJson : Conditional → Json
  | .mk cond body otherwise negated =>
    .obj [("cond", cond.toJson), ("body", .arr (stmtsToJson body)),
      ("otherwise", otherwise.toJson), ("negated", .bool negated)]

/-- The JSON form of an alternative. -/
def Otherwise.toJson : Otherwise → Json
  | .absent => .null
  | .block body => wrap "Else" (.arr (stmtsToJson body))
  | .chain branch => wrap "ElseIf" branch.toJson

/-- The JSON forms of statements. -/
def stmtsToJson : List Stmt → List Json
  | [] => []
  | s :: rest => s.toJson :: stmtsToJson rest

end

mutual

/-- Read a statement nested at most `fuel` deep. -/
def Stmt.ofJsonWithin : (fuel : Nat) → Json → Option Stmt
  | 0, _ => none
  | fuel + 1, j => do
    let (name, content) ← j.around?
    let reads := Json.list? (Stmt.ofJsonWithin fuel)
    match name with
    | "Block" => return .block (← required reads content)
    | "Return" => return .ret (← required (Json.option? Expr.ofJson?) content)
    | "Expr" => return .expr (← required Expr.ofJson? content)
    | "VarDef" =>
      match ← (← content).namedFields? ["ty", "binding", "init"] with
      | [ty, binding, init] =>
        return .varDef (← nullable Ty.ofJson? ty) (← required Expr.ofJson? binding)
          (← nullable Expr.ofJson? init)
      | _ => none
    | "If" => return .ifThen (← required (Conditional.ofJsonWithin fuel) content)
    | "Repeat" =>
      match ← (← content).namedFields? ["count", "body"] with
      | [count, body] =>
        return .repeatLoop (← required Expr.ofJson? count) (← required reads body)
      | _ => none
    | "While" =>
      match ← (← content).namedFields? ["cond", "body"] with
      | [cond, body] => return .whileLoop (← required Expr.ofJson? cond) (← required reads body)
      | _ => none
    | "Until" =>
      match ← (← content).namedFields? ["body", "cond"] with
      | [body, cond] => return .untilLoop (← required reads body) (← required Expr.ofJson? cond)
      | _ => none
    | "TryCatch" =>
      match ← (← content).namedFields? ["body", "catch_binding", "catch_body"] with
      | [body, binding, handler] =>
        return .tryCatch (← required reads body) (← required Expr.ofJson? binding)
          (← required reads handler)
      | _ => none
    | _ => none

/-- Read a condition nested at most `fuel` deep. -/
def Conditional.ofJsonWithin : (fuel : Nat) → Json → Option Conditional
  | 0, _ => none
  | fuel + 1, j => do
    match ← j.fields? ["cond", "body", "otherwise", "negated"] 4 with
    | [cond, body, otherwise, negated] =>
      let cond ← required Expr.ofJson? cond
      let body ← required (Json.list? (Stmt.ofJsonWithin fuel)) body
      let alternative ← nullable (Otherwise.ofJsonWithin fuel) otherwise
      return .mk cond body (alternative.getD .absent) (← required Json.bool? negated)
    | _ => none

/-- Read an alternative nested at most `fuel` deep. -/
def Otherwise.ofJsonWithin : (fuel : Nat) → Json → Option Otherwise
  | 0, _ => none
  | fuel + 1, j => do
    let (name, content) ← j.around?
    match name with
    | "Else" => return .block (← required (Json.list? (Stmt.ofJsonWithin fuel)) content)
    | "ElseIf" => return .chain (← required (Conditional.ofJsonWithin fuel) content)
    | _ => none

end

/-- Read a statement. -/
def Stmt.ofJson? (j : Json) : Option Stmt := Stmt.ofJsonWithin (j.depth + 1) j

/-- Read statements. -/
def stmtsOfJson? : Json → Option (List Stmt) := Json.list? Stmt.ofJson?

/-! ### Items -/

/-- The JSON form of an attribute. -/
def Attribute.toJson : Attribute → Json
  | impure => .str "Impure"
  | inline => .str "Inline"
  | inlineRef => .str "InlineRef"
  | methodId id => wrap "MethodId" (Json.ofOption (fun n => .ofNat n.toNat) id)

/-- Read an attribute. -/
def Attribute.ofJson? (j : Json) : Option Attribute := do
  let (name, content) ← j.around?
  let plain (a : Attribute) : Option Attribute := do
    Json.nothing? content
    return a
  match name with
  | "Impure" => plain impure
  | "Inline" => plain inline
  | "InlineRef" => plain inlineRef
  | "MethodId" => return methodId (← required (Json.option? Json.uint32?) content)
  | _ => none

/-- The JSON form of a parameter. -/
def Param.toJson (p : Param) : Json := .obj [("ty", p.ty.toJson), ("name", .str p.name)]

/-- Read a parameter. -/
def Param.ofJson? (j : Json) : Option Param := do
  match ← j.fields? ["ty", "name"] 2 with
  | [ty, name] => return ⟨← required Ty.ofJson? ty, ← required Json.str? name⟩
  | _ => none

/-- The JSON form of the head of a function. -/
def Signature.toJson (s : Signature) : Json :=
  .obj [("name", .str s.name), ("forall", Json.ofList .str s.forAll),
    ("params", Json.ofList Param.toJson s.params), ("returns", s.returns.toJson),
    ("attributes", Json.ofList Attribute.toJson s.attributes)]

/-- Read the head of a function. -/
def Signature.ofJson? (j : Json) : Option Signature := do
  match ← j.fields? ["name", "forall", "params", "returns", "attributes"] 5 with
  | [name, forAll, params, returns, attributes] =>
    return { name := ← required Json.str? name
             forAll := ← required (Json.list? Json.str?) forAll
             params := ← required (Json.list? Param.ofJson?) params
             returns := ← required Ty.ofJson? returns
             attributes := ← required (Json.list? Attribute.ofJson?) attributes }
  | _ => none

/-- The JSON form of an item. -/
def Item.toJson : Item → Json
  | function s body =>
    wrap "Function" (.obj [("signature", s.toJson), ("body", .arr (stmtsToJson body))])
  | declaration s => wrap "Declaration" (.obj [("signature", s.toJson)])
  | asm s instructions =>
    wrap "Asm" (.obj [("signature", s.toJson), ("instructions", Json.ofList .str instructions)])
  | constant ty name value =>
    wrap "Constant" (.obj [("ty", ty.toJson), ("name", .str name), ("value", value.toJson)])
  | global ty name => wrap "Global" (.obj [("ty", ty.toJson), ("name", .str name)])
  | comment lines => wrap "Comment" (Json.ofList .str lines)
  | includeFile path => wrap "Include" (.str path)
  | pragma text => wrap "Pragma" (.str text)

/-- Read an item. -/
def Item.ofJson? (j : Json) : Option Item := do
  let (name, content) ← j.around?
  let content ← content
  match name with
  | "Function" =>
    match ← content.fields? ["signature", "body"] 2 with
    | [s, body] => return function (← required Signature.ofJson? s) (← required stmtsOfJson? body)
    | _ => none
  | "Declaration" =>
    match ← content.fields? ["signature"] 1 with
    | [s] => return declaration (← required Signature.ofJson? s)
    | _ => none
  | "Asm" =>
    match ← content.fields? ["signature", "instructions"] 2 with
    | [s, instructions] =>
      return asm (← required Signature.ofJson? s)
        (← required (Json.list? Json.str?) instructions)
    | _ => none
  | "Constant" =>
    match ← content.fields? ["ty", "name", "value"] 3 with
    | [ty, name, value] =>
      return constant (← required Ty.ofJson? ty) (← required Json.str? name)
        (← required Expr.ofJson? value)
    | _ => none
  | "Global" =>
    match ← content.fields? ["ty", "name"] 2 with
    | [ty, name] => return global (← required Ty.ofJson? ty) (← required Json.str? name)
    | _ => none
  | "Comment" => return comment (← content.list? Json.str?)
  | "Include" => return includeFile (← content.str?)
  | "Pragma" => return pragma (← content.str?)
  | _ => none

end Target

end CellCompiler

/-!
## JSON form of finished modules
-/

namespace CellCompiler

namespace Emission

open Json (required nullable)

/-- The JSON form of a part of a module. -/
def Section.toJson : Section → Json
  | stdlib => .obj [("section", .str "stdlib")]
  | functions => .obj [("section", .str "functions")]
  | type name => .obj [("section", .str "type"), ("name", .str name)]
  | contract name => .obj [("section", .str "contract"), ("name", .str name)]
  | constants => .obj [("section", .str "constants")]

/-- Read a part of a module. -/
def Section.ofJson? (j : Json) : Option Section := do
  let sections := ["stdlib", "functions", "type", "contract", "constants"]
  let (kind, _, content) ← j.beside? .direct "section" "name" sections
  let plain (s : Section) : Option Section := do
    Json.nothing? content
    return s
  match kind with
  | "stdlib" => plain stdlib
  | "functions" => plain functions
  | "constants" => plain constants
  | "type" => return type (← required Json.str? content)
  | "contract" => return contract (← required Json.str? content)
  | _ => none

/-- The name of a kind in JSON. -/
def Kind.jsonName : Kind → String
  | generic => "generic"
  | asm => "asm"
  | skip => "skip"

/-- Read a kind. -/
def Kind.ofJson? : Json → Option Kind :=
  Json.choice? .direct ([generic, asm, skip].map fun k => (k.jsonName, k))

/-- The JSON form of a registered function. -/
def Entry.toJson (e : Entry) : Json :=
  .obj [("name", .str e.name), ("definition", Json.ofOption Target.Item.toJson e.definition),
    ("kind", .str e.kind.jsonName), ("location", e.place.toJson),
    ("depends", Json.ofList .str e.depends.names)]

/-- Read a registered function. -/
def Entry.ofJson? (j : Json) : Option Entry := do
  match ← j.fields? ["name", "definition", "kind", "location", "depends"] 5 with
  | [name, definition, kind, place, depends] =>
    return ⟨← required Json.str? name, ← nullable Target.Item.ofJson? definition,
      ← required Kind.ofJson? kind, ← required Section.ofJson? place,
      .ofList (← required (Json.list? Json.str?) depends)⟩
  | _ => none

/-- The JSON form of a finished module. -/
def Output.toJson (o : Output) : Json :=
  .obj [("header", Json.ofList Target.Item.toJson o.header),
    ("globals", Json.ofList Target.Item.toJson o.globals),
    ("constants", Json.ofList Target.Item.toJson o.constants),
    ("functions", Json.ofList Entry.toJson o.functions)]

/-- Read a finished module. -/
def Output.ofJson? (j : Json) : Option Output := do
  match ← j.fields? ["header", "globals", "constants", "functions"] 4 with
  | [header, globals, constants, functions] =>
    let items := required (Json.list? Target.Item.ofJson?)
    return ⟨← items header, ← items globals, ← items constants,
      ← required (Json.list? Entry.ofJson?) functions⟩
  | _ => none

end Emission

end CellCompiler
