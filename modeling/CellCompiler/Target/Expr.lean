import CellCompiler.Target.Type

/-!
# Expressions of the target language

* `Target.Expr` is an expression; calls name their function, and a modifying call also updates the
  variables that it is applied to;
* `Expr.isLValue` tells what can be assigned to, and `Expr.boundNames` which variables are bound;
* short constructors such as `Target.call` keep the generators close to the code that they emit.
-/

namespace CellCompiler

namespace Target

/-- Operators with two operands. -/
inductive BinaryOp where
  | add | sub | mul | div | mod | shl | shr | and | or | xor | eq | ne | lt | le | gt | ge
  deriving DecidableEq, Repr

/-- The spelling of an operator. -/
def BinaryOp.symbol : BinaryOp → String
  | add => "+"
  | sub => "-"
  | mul => "*"
  | div => "/"
  | mod => "%"
  | shl => "<<"
  | shr => ">>"
  | and => "&"
  | or => "|"
  | xor => "^"
  | eq => "=="
  | ne => "!="
  | lt => "<"
  | le => "<="
  | gt => ">"
  | ge => ">="

/-- Operators with one operand. -/
inductive UnaryOp where
  | neg | bitNot
  deriving DecidableEq, Repr

/-- Operators of assignments that update a variable. -/
inductive AugmentedOp where
  | add | sub | mul | div | mod | shl | shr | and | or | xor
  deriving DecidableEq, Repr

/-- The operator that computes the new value. -/
def AugmentedOp.binary : AugmentedOp → BinaryOp
  | add => .add
  | sub => .sub
  | mul => .mul
  | div => .div
  | mod => .mod
  | shl => .shl
  | shr => .shr
  | and => .and
  | or => .or
  | xor => .xor

/-- An expression of the target. -/
inductive Expr where
  | int (value : Int)
  | bool (value : Bool)
  | ident (name : String)
  | call (callee : String) (args : List Expr)
  /-- A call with its first argument in front; a modifying one also assigns to it. -/
  | methodCall (receiver : Expr) (method : String) (args : List Expr) (modifying : Bool)
  | assign (lhs rhs : Expr)
  | augmentedAssign (lhs : Expr) (op : AugmentedOp) (rhs : Expr)
  | ternary (cond onTrue onFalse : Expr)
  | binary (op : BinaryOp) (lhs rhs : Expr)
  | unary (op : UnaryOp) (operand : Expr)
  | tensor (items : List Expr)
  | tuple (items : List Expr)
  /-- A value that is not kept. -/
  | hole

namespace Expr

instance : Inhabited Expr := ⟨hole⟩

/-- The variable that an expression is. -/
def ident? : Expr → Option String
  | ident name => some name
  | _ => none

mutual

/-- The expression can be assigned to: a variable, a hole or a tensor of such. -/
def isLValue : Expr → Bool
  | ident _ | hole => true
  | tensor items => areLValues items
  | _ => false

/-- All expressions can be assigned to. -/
def areLValues : List Expr → Bool
  | [] => true
  | e :: es => e.isLValue && areLValues es

end

mutual

/-- The variables that a pattern binds, from left to right. -/
def boundNames : Expr → List String
  | ident name => [name]
  | tensor items | tuple items => boundNamesOf items
  | _ => []

/-- The variables that several patterns bind. -/
def boundNamesOf : List Expr → List String
  | [] => []
  | e :: es => e.boundNames ++ boundNamesOf es

end

/-! ### Equality -/

mutual

/-- Equality of expressions as a truth value. -/
def same : Expr → Expr → Bool
  | int a, int b => a == b
  | bool a, bool b => a == b
  | ident a, ident b => a == b
  | call f as, call g bs => f == g && sameList as bs
  | methodCall r f as m, methodCall s g bs n => r.same s && f == g && sameList as bs && m == n
  | assign a b, assign c d => a.same c && b.same d
  | augmentedAssign a o b, augmentedAssign c p d => a.same c && o == p && b.same d
  | ternary a b c, ternary d e f => a.same d && b.same e && c.same f
  | binary o a b, binary p c d => o == p && a.same c && b.same d
  | unary o a, unary p b => o == p && a.same b
  | tensor as, tensor bs => sameList as bs
  | tuple as, tuple bs => sameList as bs
  | hole, hole => true
  | _, _ => false

/-- Equality of lists of expressions. -/
def sameList : List Expr → List Expr → Bool
  | [], [] => true
  | a :: as, b :: bs => a.same b && sameList as bs
  | _, _ => false

end

mutual

theorem same_iff : (a b : Expr) → (a.same b = true ↔ a = b)
  | a, b => by
    cases a <;> cases b <;>
      simp [same, same_iff, sameList_iff, and_assoc]

theorem sameList_iff : (as bs : List Expr) → (sameList as bs = true ↔ as = bs)
  | [], [] => by simp [sameList]
  | [], _ :: _ => by simp [sameList]
  | _ :: _, [] => by simp [sameList]
  | a :: as, b :: bs => by simp [sameList, same_iff a b, sameList_iff as bs]

end

instance : DecidableEq Expr := fun a b => decidable_of_iff _ (same_iff a b)

end Expr

/-! ### Short constructors -/

/-- A variable. -/
def id (name : String) : Expr := .ident name

/-- A number. -/
def int (value : Int) : Expr := .int value

/-- A call of a function. -/
def call (callee : String) (args : List Expr) : Expr := .call callee args

/-- A call with its first argument in front. -/
def method (receiver : Expr) (name : String) (args : List Expr) : Expr :=
  .methodCall receiver name args false

/-- A call that updates the variables it is applied to. -/
def modify (receiver : Expr) (name : String) (args : List Expr) : Expr :=
  .methodCall receiver name args true

/-- A comparison. -/
def eq (lhs rhs : Expr) : Expr := .binary .eq lhs rhs

/-- All digits flipped, which negates a truth value. -/
def not (operand : Expr) : Expr := .unary .bitNot operand

/-- The absent value. -/
def null : Expr := call "null" []

/-- Test for the absent value. -/
def isNull (value : Expr) : Expr := call "null?" [value]

/-- The value of a record without fields. -/
def emptyTuple : Expr := call "empty_tuple" []

/-- A new builder. -/
def beginCell : Expr := call "begin_cell" []

/-- The finished cell of a builder. -/
def endCell (builder : Expr) : Expr := method builder "end_cell" []

/-- The slice of a cell. -/
def beginParse (cell : Expr) : Expr := method cell "begin_parse" []

end Target

end CellCompiler
