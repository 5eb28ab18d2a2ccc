import CellCompiler.Source.Type

/-!
# Expressions of the source language

Every node carries its static type and its place in the source text, so that nothing has to be
inferred.

* `Location` is a place in a source text;
* `Expr` is a typed expression;
* `Expr.path` gives the segments of a variable or of a field reached from one.
-/

namespace CellCompiler

/-- A place in a source text. -/
structure Location where
  /-- The file, if there is one. -/
  file : Option String := none
  line : UInt32 := 0
  column : UInt32 := 0
  deriving DecidableEq, Repr, Inhabited

/-- The spelling of a place. -/
def Location.text (loc : Location) : String :=
  match loc.file with
  | some file => s!"{file}:{loc.line}:{loc.column}"
  | none => s!"{loc.line}:{loc.column}"

/-- Operators with two operands; `and` and `or` evaluate the second one only if needed. -/
inductive BinaryOp where
  | add | sub | mul | div | mod | shl | shr | bitAnd | bitOr | bitXor
  | eq | ne | lt | le | gt | ge | and | or
  deriving DecidableEq, Repr

/-- Operators with one operand; `notNull` insists that an optional value is present. -/
inductive UnaryOp where
  | neg | not | bitNot | notNull
  deriving DecidableEq, Repr

/-- Operators of assignments that update a variable. -/
inductive AugmentedOp where
  | add | sub | mul | div | mod | bitAnd | bitOr | bitXor | shl | shr
  deriving DecidableEq, Repr

/-- The operator that computes the new value. -/
def AugmentedOp.binary : AugmentedOp → BinaryOp
  | add => .add
  | sub => .sub
  | mul => .mul
  | div => .div
  | mod => .mod
  | bitAnd => .bitAnd
  | bitOr => .bitOr
  | bitXor => .bitXor
  | shl => .shl
  | shr => .shr

/-- What every expression carries: its static type and its place. -/
structure Expr.Info where
  ty : TypeRef
  loc : Location := {}
  deriving DecidableEq, Repr

/-- A typed expression. -/
inductive Expr where
  | number (info : Expr.Info) (value : Int)
  | boolean (info : Expr.Info) (value : Bool)
  | null (info : Expr.Info)
  | string (info : Expr.Info) (value : String)
  | ident (info : Expr.Info) (name : String)
  | field (info : Expr.Info) (target : Expr) (name : String)
  /-- A call of a free-standing function. -/
  | call (info : Expr.Info) (name : String) (args : List Expr)
  | methodCall (info : Expr.Info) (receiver : Expr) (method : String) (args : List Expr)
  /-- A call on a type, such as reading a value of it from a cell. -/
  | staticCall (info : Expr.Info) (typeName : String) (method : String) (args : List Expr)
  | instanceOf (info : Expr.Info) (typeName : String) (inits : List (String × Expr))
  | binary (info : Expr.Info) (op : BinaryOp) (lhs rhs : Expr)
  | unary (info : Expr.Info) (op : UnaryOp) (operand : Expr)
  | conditional (info : Expr.Info) (cond onTrue onFalse : Expr)
  /-- Code and initial data of a contract to be deployed. -/
  | initOf (info : Expr.Info) (contract : String) (args : List Expr)

namespace Expr

/-- Type and place of an expression. -/
def info : Expr → Info
  | number info _ | boolean info _ | null info | string info _ | ident info _ | field info _ _
  | call info _ _ | methodCall info _ _ _ | staticCall info _ _ _ | instanceOf info _ _
  | binary info _ _ _ | unary info _ _ | conditional info _ _ _ | initOf info _ _ => info

/-- The static type. -/
def ty (e : Expr) : TypeRef := e.info.ty

/-- The place in the source text. -/
def loc (e : Expr) : Location := e.info.loc

/-- The same expression at another place. -/
def atLoc (e : Expr) (loc : Location) : Expr :=
  let info := { e.info with loc }
  match e with
  | number _ v => number info v
  | boolean _ v => boolean info v
  | null _ => null info
  | string _ v => string info v
  | ident _ n => ident info n
  | field _ t n => field info t n
  | call _ n as => call info n as
  | methodCall _ r m as => methodCall info r m as
  | staticCall _ t m as => staticCall info t m as
  | instanceOf _ t is => instanceOf info t is
  | binary _ op l r => binary info op l r
  | unary _ op a => unary info op a
  | conditional _ c t f => conditional info c t f
  | initOf _ c as => initOf info c as

/-- The null literal. -/
def isNullLiteral : Expr → Bool
  | null _ => true
  | _ => false

/-- A variable, or a chain of field accesses that starts at one. -/
def isPath : Expr → Bool
  | ident .. => true
  | field _ target _ => target.isPath
  | _ => false

/-- The segments of a path, the variable first. -/
def path : Expr → Option (List String)
  | ident _ name => some [name]
  | field _ target name => target.path.map (· ++ [name])
  | _ => none

theorem isSome_path (e : Expr) : e.path.isSome = e.isPath := by
  fun_induction isPath e <;> simp_all [path]

/-! ### Constructors that know their type -/

/-- An integer literal. -/
def ofInt (value : Int) : Expr := number ⟨.plain "Int", {}⟩ value

/-- A truth value. -/
def ofBool (value : Bool) : Expr := boolean ⟨.plain "Bool", {}⟩ value

/-- The null literal with its own type. -/
def ofNull : Expr := null ⟨.null, {}⟩

/-- A text literal. -/
def ofString (value : String) : Expr := string ⟨.plain "String", {}⟩ value

/-- A new record of a declared type. -/
def newInstance (typeName : String) (inits : List (String × Expr)) : Expr :=
  instanceOf ⟨.plain typeName, {}⟩ typeName inits

/-- A choice, which has the type of its first alternative. -/
def choice (cond onTrue onFalse : Expr) : Expr :=
  conditional ⟨onTrue.ty, {}⟩ cond onTrue onFalse

/-- Code and data of a contract to be deployed. -/
def deployment (contract : String) (args : List Expr) : Expr :=
  initOf ⟨.plain "StateInit", {}⟩ contract args

end Expr

end CellCompiler
