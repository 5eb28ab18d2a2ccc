import CellCompiler.Target.Item
import CellCompiler.Text.Quoted

/-!
# Outlines of target items

`Item.outline` spells out the structure of a constant, a variable or another item that is not a
function, for use in messages.
-/

namespace CellCompiler

namespace Target

/-- Several texts with commas between them. -/
def commaSeparated (texts : List String) : String := ", ".intercalate texts

mutual

/-- The structure of a type. -/
def Ty.outline : Ty → String
  | .int => "Int"
  | .cell => "Cell"
  | .slice => "Slice"
  | .builder => "Builder"
  | .cont => "Cont"
  | .tuple items => "Tuple([" ++ commaSeparated (Ty.outlines items) ++ "])"
  | .tensor items => "Tensor([" ++ commaSeparated (Ty.outlines items) ++ "])"
  | .hole => "Hole"
  | .var name => "Var(" ++ Quoted.text name ++ ")"

/-- The structures of types. -/
def Ty.outlines : List Ty → List String
  | [] => []
  | t :: ts => t.outline :: Ty.outlines ts

end

/-- The name of an operator in an outline. -/
def BinaryOp.outline : BinaryOp → String
  | add => "Add"
  | sub => "Sub"
  | mul => "Mul"
  | div => "Div"
  | mod => "Mod"
  | shl => "Shl"
  | shr => "Shr"
  | and => "And"
  | or => "Or"
  | xor => "Xor"
  | eq => "Eq"
  | ne => "Ne"
  | lt => "Lt"
  | le => "Le"
  | gt => "Gt"
  | ge => "Ge"

/-- The name of an operator in an outline. -/
def AugmentedOp.outline (op : AugmentedOp) : String := op.binary.outline

/-- The name of an operator in an outline. -/
def UnaryOp.outline : UnaryOp → String
  | neg => "Neg"
  | bitNot => "BitNot"

/-- A structure with named parts. -/
def named (name : String) (parts : List (String × String)) : String :=
  name ++ " \x7b " ++ commaSeparated (parts.map fun (part, text) => part ++ ": " ++ text) ++ " \x7d"

mutual

/-- The structure of an expression. -/
def Expr.outline : Expr → String
  | .int v => "Int(" ++ toString v ++ ")"
  | .bool b => "Bool(" ++ toString b ++ ")"
  | .ident name => "Ident(" ++ Quoted.text name ++ ")"
  | .call callee args =>
    named "Call" [("callee", Quoted.text callee), ("args", Expr.outlineList args)]
  | .methodCall receiver method args modifying =>
    named "MethodCall" [("receiver", receiver.outline), ("method", Quoted.text method),
      ("args", Expr.outlineList args), ("modifying", toString modifying)]
  | .assign lhs rhs => named "Assign" [("lhs", lhs.outline), ("rhs", rhs.outline)]
  | .augmentedAssign lhs op rhs =>
    named "AugmentedAssign" [("lhs", lhs.outline), ("op", op.outline), ("rhs", rhs.outline)]
  | .ternary cond onTrue onFalse =>
    named "Ternary" [("cond", cond.outline), ("then", onTrue.outline),
      ("otherwise", onFalse.outline)]
  | .binary op lhs rhs =>
    named "Binary" [("op", op.outline), ("lhs", lhs.outline), ("rhs", rhs.outline)]
  | .unary op operand => named "Unary" [("op", op.outline), ("operand", operand.outline)]
  | .tensor items => "Tensor(" ++ Expr.outlineList items ++ ")"
  | .tuple items => "Tuple(" ++ Expr.outlineList items ++ ")"
  | .hole => "Hole"

/-- The structures of expressions in brackets. -/
def Expr.outlineList : List Expr → String
  | [] => "[]"
  | e :: es => "[" ++ e.outline ++ Expr.outlineRest es ++ "]"

/-- Further structures, each after a comma. -/
def Expr.outlineRest : List Expr → String
  | [] => ""
  | e :: es => ", " ++ e.outline ++ Expr.outlineRest es

end

/-- The structure of an item that is not a function; of a function, its name. -/
def Item.outline : Item → String
  | function s _ | declaration s | asm s _ => s.name
  | constant ty name value =>
    "Constant(" ++ named "ConstantDef"
      [("ty", ty.outline), ("name", Quoted.text name), ("value", value.outline)] ++ ")"
  | global ty name =>
    "Global(" ++ named "GlobalVar" [("ty", ty.outline), ("name", Quoted.text name)] ++ ")"
  | comment lines => "Comment([" ++ commaSeparated (lines.map Quoted.text) ++ "])"
  | includeFile path => "Include(" ++ Quoted.text path ++ ")"
  | pragma text => "Pragma(" ++ Quoted.text text ++ ")"

end Target

end CellCompiler
