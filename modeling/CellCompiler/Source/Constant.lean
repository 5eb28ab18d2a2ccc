import CellCompiler.Bits
import CellCompiler.Source.Table

/-!
# Constant expressions

`constantValue` finds the value of an expression that is known at compile time. No value means
that the expression is not constant, never that it is wrong: an operation whose result would
leave the range of the target's integers is simply not folded.
-/

namespace CellCompiler

/-- Decides which expressions are constant and what they denote. -/
abbrev Evaluator := Expr → Option Value

namespace Constant

/-- The integers of the target lie between `-2^256` and `2^256`, the latter excluded. -/
def inRange (v : Int) : Option Value :=
  if -(Bits.twoPow 256 : Int) ≤ v ∧ v < Bits.twoPow 256 then some (.int v) else none

/-- Division that rounds down; there is none by zero. -/
def floorDiv (a b : Int) : Option Int := if b = 0 then none else some (a.fdiv b)

/-- The remainder of `floorDiv`. -/
def floorMod (a b : Int) : Option Int := if b = 0 then none else some (a.fmod b)

/-- A shift moves by at most 256 digits. -/
def shiftAmount (b : Int) : Option Nat := if 0 ≤ b ∧ b ≤ 256 then some b.toNat else none

/-- An operator applied to two numbers. -/
def intBinary (op : BinaryOp) (a b : Int) : Option Value :=
  match op with
  | .add => inRange (a + b)
  | .sub => inRange (a - b)
  | .mul => inRange (a * b)
  | .div => floorDiv a b >>= inRange
  | .mod => floorMod a b >>= inRange
  | .shl => shiftAmount b >>= fun n => inRange (Bitwise.shiftLeft a n)
  | .shr => shiftAmount b >>= fun n => inRange (Bitwise.shiftRight a n)
  | .bitAnd => inRange (Bitwise.and a b)
  | .bitOr => inRange (Bitwise.or a b)
  | .bitXor => inRange (Bitwise.xor a b)
  | .eq => some (.bool (a == b))
  | .ne => some (.bool (a != b))
  | .lt => some (.bool (a < b))
  | .le => some (.bool (a ≤ b))
  | .gt => some (.bool (a > b))
  | .ge => some (.bool (a ≥ b))
  | .and | .or => none

/-- An operator applied to two truth values. -/
def boolBinary (op : BinaryOp) (a b : Bool) : Option Value :=
  match op with
  | .and => some (.bool (a && b))
  | .or => some (.bool (a || b))
  | .eq => some (.bool (a == b))
  | .ne => some (.bool (a != b))
  | _ => none

/-- An operator applied to two values. -/
def binary (op : BinaryOp) : Value → Value → Option Value
  | .int a, .int b => intBinary op a b
  | .bool a, .bool b => boolBinary op a b
  | _, _ => none

/-- An operator applied to one value. -/
def unary : UnaryOp → Value → Option Value
  | .neg, .int v => inRange (-v)
  | .bitNot, .int v => inRange (-v - 1)
  | .not, .bool b => some (.bool !b)
  | _, _ => none

/-- The address that a text spells. -/
def address : Value → Option Value
  | .string text =>
    match Address.read text with
    | .ok a => some (.address a)
    | .error _ => none
  | _ => none

/-- The value of a field: that of the first initializer of its name, or else its default. An
initializer that is not constant has no value. -/
def fieldValue (inits : List (String × Option Value)) (field : Field) : Option Value :=
  match inits.lookup field.name with
  | some value => value
  | none => field.default

/-- The record of a declared type. -/
def struct (table : TypeTable) (typeName : String) (inits : List (String × Option Value)) :
    Option Value := do
  let decl ← table.types.get? typeName
  let values ← decl.fields.mapM fun field => do
    return (field.name, ← fieldValue inits field)
  return .struct typeName (Dict.ofList values).entries

end Constant

mutual

/-- The value of an expression that is known at compile time. -/
def constantValue (table : TypeTable) : Expr → Option Value
  | .number _ v => some (.int v)
  | .boolean _ b => some (.bool b)
  | .null _ => some .null
  | .string _ text => some (.string text)
  | .ident _ name => (table.constants.get? name).map (·.value)
  | .call _ "address" [arg] => constantValue table arg >>= Constant.address
  | .binary _ op lhs rhs => do
    Constant.binary op (← constantValue table lhs) (← constantValue table rhs)
  | .unary _ op operand => constantValue table operand >>= Constant.unary op
  | .conditional _ cond onTrue onFalse =>
    match constantValue table cond with
    | some (.bool true) => constantValue table onTrue
    | some (.bool false) => constantValue table onFalse
    | _ => none
  | .instanceOf _ typeName inits => Constant.struct table typeName (constantInits table inits)
  | _ => none

/-- The values of initializers, where they are constant. -/
def constantInits (table : TypeTable) : List (String × Expr) → List (String × Option Value)
  | [] => []
  | (name, e) :: rest => (name, constantValue table e) :: constantInits table rest

end

/-- The evaluator to which nothing is constant. -/
def noConstants : Evaluator := fun _ => none

end CellCompiler
