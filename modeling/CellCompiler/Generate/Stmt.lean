import CellCompiler.Generate.Expr

/-!
# Lowering of statements

`lowerStmt` gives the target statements of a source statement, usually one. A loop over a map
becomes a walk with a cursor:

```
var ($k, $v, fc_0) = min(m);
while (fc_0) ... ($k, $v, fc_0) = next(m, $k);
```
-/

namespace CellCompiler

namespace Generate

open Target

/-- Bind a variable: field by field if its type is a product, with its type otherwise. -/
def bindVariable (ty : TypeRef) (name : String) (init : Target.Expr) : Gen Target.Stmt := do
  if ← isUnpacked ty then return var (← unpack ty name) init
  else return typedVar (← representation ty) name init

/-- The target's operator of an assignment. -/
def targetAugmentedOp : AugmentedOp → Target.AugmentedOp
  | .add => .add
  | .sub => .sub
  | .mul => .mul
  | .div => .div
  | .mod => .mod
  | .bitAnd => .and
  | .bitOr => .or
  | .bitXor => .xor
  | .shl => .shl
  | .shr => .shr

/-- The pattern that binds what an exception carries. -/
def catchPattern : Option String → Target.Expr
  | some name => .tensor [.hole, id (Name.var name)]
  | none => .tensor [.hole, .hole]

/-! ### Loops over maps -/

/-- A walk over a map. -/
structure Cursor where
  kind : MapKind
  /-- Statements in front of the loop. -/
  before : List Target.Stmt
  /-- The map, which is computed once. -/
  source : Target.Expr
  /-- Tells whether there is an entry. -/
  flag : String
  key : String
  /-- The value as it comes from the map. -/
  raw : String
  /-- Turns the raw value into the value of the entry, in every round. -/
  decode : List Target.Stmt
  min : String
  next : String

namespace Cursor

/-- The variables that hold the current entry. -/
def pattern (c : Cursor) : Target.Expr := .tensor [id c.key, id c.raw, id c.flag]

/-- Go to the first entry. -/
def start (c : Cursor) : Target.Stmt :=
  var c.pattern (call c.min (c.kind.withValueBits [c.source, int c.kind.keyBits]))

/-- Go to the next entry. -/
def advance (c : Cursor) : Target.Stmt :=
  assign c.pattern
    (call c.next (c.kind.withValueBits [c.source, int c.kind.keyBits, id c.key]))

/-- The whole loop around a body. -/
def loop (c : Cursor) (body : List Target.Stmt) : List Target.Stmt :=
  c.before ++ [c.start, .whileLoop (id c.flag) (c.decode ++ body ++ [c.advance])]

end Cursor

/-- The map of a loop: a variable as it is, anything else bound to a new variable. -/
def bindOnce (stem : String) (code : Target.Expr) : Gen (List Target.Stmt × Target.Expr) := do
  match code.ident? with
  | some _ => return ([], code)
  | none =>
    let name ← fresh stem
    return ([var (id name) code], id name)

/-- The variable for raw values and the statements that decode them; a record is read from its
cell. -/
def cursorValue (kind : MapKind) (value : String) : Gen (String × List Target.Stmt) := do
  match kind.value with
  | .struct typeName =>
    let raw ← fresh "fv"
    let pattern ← unpack (.plain typeName) (Name.var value)
    let loaded ← callUsed (Name.readerCellOpt typeName) [id raw]
    let decoded ← callUsed (Name.notNull typeName) [loaded]
    return (raw, [var pattern decoded])
  | _ => return (Name.var value, [])

/-- The walk over a map with given variables for key and value. -/
def cursor (s : Scope) (key value : String) (map : Expr) (loc : Location) : Gen Cursor := do
  let kind ← ofExcept (MapKind.of (← table) map.ty loc)
  let code ← lower s map
  let (before, source) ← bindOnce "fm" code
  let flag ← fresh "fc"
  let (raw, decode) ← cursorValue kind value
  let min ← used (kind.operation "min")
  let next ← used (kind.operation "next")
  skip min
  skip next
  return { kind, before, source, flag, key := Name.var key, raw, decode, min, next }

/-! ### Statements -/

mutual

/-- The target statements of a statement. -/
def lowerStmt (s : Scope) : Stmt → Gen (List Target.Stmt)
  | .letVar _ name ty value => do
    let init ← lowerCast s value ty
    return [← bindVariable ty (Name.var name) init]
  | .assign _ path value => do
    let target ← lvalue path
    let code ← lowerCast s value path.ty
    return [assign target code]
  | .augmentedAssign _ path op value => do
    let target ← lvalue path
    let code ← lower s value
    return [.expr (.augmentedAssign target (targetAugmentedOp op) code)]
  | .ret _ value => do
    let code ←
      match value with
      | some e => some <$> lowerCast s e s.returns
      | none => pure none
    return [ret (← s.returned code)]
  | .expression _ e => do return [.expr (← lower s e)]
  | .condition _ cond body otherwise => do
    let c ← lower s cond
    let b ← lowerStmts s body
    let o ← lowerOtherwise s otherwise
    return [.ifThen (.mk c b o false)]
  | .whileLoop _ cond body => do
    let c ← lower s cond
    let b ← lowerStmts s body
    return [.whileLoop c b]
  | .untilLoop _ body cond => do
    let b ← lowerStmts s body
    let c ← lower s cond
    return [.untilLoop b c]
  | .repeatLoop _ count body => do
    let n ← lower s count
    let b ← lowerStmts s body
    return [.repeatLoop n b]
  | .tryCatch _ body catchName catchBody => do
    let b ← lowerStmts s body
    let handler ← lowerStmts s catchBody
    return [.tryCatch b (catchPattern catchName) handler]
  | .foreach loc key value map body => do
    let c ← cursor s key value map loc
    let b ← lowerStmts s body
    return c.loop b

/-- The target statements of several statements. -/
def lowerStmts (s : Scope) : List Stmt → Gen (List Target.Stmt)
  | [] => return []
  | stmt :: rest => do
    let first ← lowerStmt s stmt
    return first ++ (← lowerStmts s rest)

/-- The alternative of a condition; a chained one must be a condition again. -/
def lowerOtherwise (s : Scope) : Otherwise → Gen Target.Otherwise
  | .absent => return .absent
  | .block body => do return .block (← lowerStmts s body)
  | .chain (.condition _ cond body otherwise) => do
    let c ← lower s cond
    let b ← lowerStmts s body
    let o ← lowerOtherwise s otherwise
    return .chain (.mk c b o false)
  | .chain stmt => defectAt .elseIfNotCondition stmt.loc

end

end Generate

end CellCompiler
