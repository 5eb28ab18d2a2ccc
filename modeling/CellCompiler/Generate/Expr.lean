import CellCompiler.Generate.Intrinsic

/-!
# Lowering of expressions

`lower` gives the target code of a source expression. A constant expression is written as a
literal. Otherwise the code depends on the kind of expression and on the types of its operands: a
record in a variable is the product of its field variables, an optional record is a tuple, and
everything else is one stack entry.
-/

namespace CellCompiler

namespace Generate

open Target

/-! ### Variables and fields -/

/-- The code of a variable or a named constant. -/
def identifier (s : Scope) (info : Expr.Info) (name : String) : Gen Target.Expr := do
  if name = "self" then s.selfBinding
  else
    match (← table).constants.get? name with
    | some c => literal c.value c.ty
    | none => unpack info.ty (Name.var name)

/-- The segments of a path that does not start at a named constant. -/
def localPath (e : Expr) : Gen (Option (List String)) := do
  match e.path with
  | some (root :: fields) =>
    if (← table).constants.contains root then return none else return some (root :: fields)
  | _ => return none

/-- The code of a field: its variable, or a getter applied to the record. -/
def fieldAccess (e : Expr) (target : Operand) (name : String) : Gen Target.Expr := do
  match ← localPath e with
  | some segments => unpack e.ty (Name.path segments)
  | none =>
    match ← structOf target.ty with
    | none => defectAt (.fieldAccess name target.ty) e.loc
    | some decl =>
      let value ← target.code
      callUsed (Name.getter decl.name name) [value]

/-! ### Calls -/

/-- A call of a free-standing function. -/
def functionCall (info : Expr.Info) (name : String) (args : List Operand) : Gen Target.Expr := do
  match ← globalCall info name args with
  | some code => return code
  | none =>
    match (← table).functions.get? name with
    | none => defectAt (.unknownFunction name) info.loc
    | some f =>
      let types := f.params.map (·.ty)
      match f.body with
      | .native native =>
        let args ← arguments args types
        skip native
        callUsed native args
      | .statements _ =>
        let args ← arguments args types
        callUsed (Name.globalFunction name) args
      | .abstract => defectAt (.abstractFunction name) info.loc

/-- The cast that keeps the shape of a record which is the only argument. -/
def shapeCast (ty : TypeRef) : Gen (Option String) := do
  if ty.isOptional then return none
  match ← structOf ty with
  | some decl => return if decl.fields.isEmpty then none else some (Name.tensorCast decl.name)
  | none => return none

/-- Cast the only argument of a call if it is a record. -/
def castLone : List Operand → List Target.Expr → Gen (List Target.Expr)
  | [arg], [code] => do
    match ← shapeCast arg.ty with
    | some cast => return [← callUsed cast [code]]
    | none => return [code]
  | _, codes => return codes

/-- The emitted name of a method. -/
def methodCallee (decl : TypeDecl) (f : Function) (loc : Location) : Gen String := do
  match f.body with
  | .native name =>
    skip name
    return name
  | .statements _ => return Name.method decl.name f.name
  | .abstract => defectAt (.abstractMethod f.name) loc

/-- A call of a method; one that changes `self` is applied to the variables of its receiver, or to
a value that is not kept. -/
def extensionCall (decl : TypeDecl) (f : Function) (receiver : Operand) (args : List Operand)
    (loc : Location) : Gen Target.Expr := do
  let callee ← methodCallee decl f loc
  let types := f.params.map (·.ty)
  if !f.mutates then
    let self ← receiver.code
    let args ← arguments args types
    callUsed callee (self :: args)
  else if receiver.source.isPath then
    let target ← lvalue receiver.source
    let codes ← castLone args (← arguments args types)
    return Target.modify target (← used callee) codes
  else if f.nativeName.isSome then misuseAt (.fixedReceiver f.name) loc
  else
    let self ← receiver.code
    let args ← arguments args types
    callUsed (Name.notMut callee) (self :: args)

/-- A call of a method that is declared on a type. -/
def declaredCall (info : Expr.Info) (typeName : String) (decl : TypeDecl) (receiver : Operand)
    (name : String) (args : List Operand) : Gen Target.Expr :=
  match decl.functions.get? name with
  | some f => extensionCall decl f receiver args info.loc
  | none => misuseAt (.unknownMethod name typeName) info.loc

/-- A call of a method on a value. -/
def methodCall (info : Expr.Info) (receiver : Operand) (name : String) (args : List Operand) :
    Gen Target.Expr := do
  if receiver.ty.isMap then mapCall receiver name args info.loc
  else if receiver.ty.isOptional then misuseAt (.callOnOptional name receiver.ty) receiver.loc
  else
    match receiver.ty.name? with
    | none => defectAt (.methodCall name receiver.ty) receiver.loc
    | some typeName =>
      let decl ← declOf typeName
      if decl.isStructLike then
        match ← instanceCall decl receiver name args with
        | some code => return code
        | none => declaredCall info typeName decl receiver name args
      else declaredCall info typeName decl receiver name args

/-- A call of a method on a type. -/
def staticCall (info : Expr.Info) (typeName name : String) (args : List Operand) :
    Gen Target.Expr := do
  let decl ← declOf typeName
  let code ← if decl.isStructLike then typeCall decl name args info.loc else pure none
  match code with
  | some code => return code
  | none => misuseAt (.unknownStaticMethod typeName name) info.loc

/-- Code and data of a contract to be deployed. -/
def deployment (info : Expr.Info) (contract : String) (args : List Operand) : Gen Target.Expr := do
  let decl ← declOf contract
  unless decl.isContract do defectAt (.notAContractInit contract) info.loc
  declareContext
  let args ← arguments args (decl.initParams.map (·.ty))
  callUsed (Name.initChild contract) (id Helper.contextSys :: args)

/-! ### Records -/

/-- The value of a field of a new record: its first initializer or its default. -/
def fieldCode (typeName : String) (inits : List (String × Operand)) (loc : Location)
    (field : Field) : Gen Target.Expr :=
  match inits.lookup field.name with
  | some o => o.cast field.ty
  | none =>
    match field.default with
    | some value => literal value field.ty
    | none => defectAt (.missingField typeName field.name) loc

/-- A new record. -/
def newRecord (info : Expr.Info) (typeName : String) (inits : List (String × Operand)) :
    Gen Target.Expr := do
  let decl ← declOf typeName
  if decl.fields.isEmpty then return emptyTuple
  return .tensor (← decl.fields.mapM (fieldCode typeName inits info.loc))

/-! ### Operators -/

/-- The target's operator, where there is one. -/
def targetOp? : BinaryOp → Option Target.BinaryOp
  | .add => some .add
  | .sub => some .sub
  | .mul => some .mul
  | .div => some .div
  | .mod => some .mod
  | .shl => some .shl
  | .shr => some .shr
  | .bitAnd => some .and
  | .bitOr => some .or
  | .bitXor => some .xor
  | .lt => some .lt
  | .le => some .le
  | .gt => some .gt
  | .ge => some .ge
  | .eq | .ne | .and | .or => none

/-- What values of a type are compared by, and whether they may be absent without a marker. -/
def comparisonOf (ty : TypeRef) (loc : Location) : Gen (Comparison × Bool) := do
  if ty.isMap then return (.cell, true)
  match ← primitiveOf ty with
  | some .int | some .bool => return (.int, false)
  | some .address => return (.bits, false)
  | some .cell => return (.cell, false)
  | some .slice | some .string => return (.slice, false)
  | _ => misuseAt (.notComparable ty) loc

/-- Code or its negation. -/
def negateIf (negate : Bool) (code : Target.Expr) : Target.Expr := if negate then not code else code

/-- The comparison of two values, either of which may be absent. -/
def compareCodes (mode : Comparison) (negate leftAbsent rightAbsent : Bool) (l r : Target.Expr) :
    Gen Target.Expr := do
  match leftAbsent, rightAbsent with
  | false, false =>
    if mode = .int then return .binary (if negate then .ne else .eq) l r
    return negateIf negate (← callHelper (Helper.equalName mode .neither) [l, r])
  | true, false => return negateIf negate (← callHelper (Helper.equalName mode .first) [l, r])
  | false, true => return negateIf negate (← callHelper (Helper.equalName mode .first) [r, l])
  | true, true => return negateIf negate (← callHelper (Helper.equalName mode .both) [l, r])

/-- The operand is null by its form or its type. -/
def Operand.isNull (o : Operand) : Bool := o.source.isNullLiteral || o.ty.isNull

/-- A comparison for equality, or for the opposite. -/
def equality (negate : Bool) (lhs rhs : Operand) (loc : Location) : Gen Target.Expr := do
  match lhs.isNull, rhs.isNull with
  | true, true => return .bool !negate
  | true, false => return negateIf negate (Target.isNull (← rhs.code))
  | false, true => return negateIf negate (Target.isNull (← lhs.code))
  | false, false =>
    let (mode, absent) ← comparisonOf lhs.ty loc
    let l ← lhs.code
    let r ← rhs.code
    compareCodes mode negate (lhs.ty.isOptional || absent) (rhs.ty.isOptional || absent) l r

/-- An operator applied to two operands. -/
def binaryCode (op : BinaryOp) (lhs rhs : Operand) (loc : Location) : Gen Target.Expr := do
  match op with
  | .eq => equality false lhs rhs loc
  | .ne => equality true lhs rhs loc
  | op =>
    let l ← lhs.code
    let r ← rhs.code
    match op, targetOp? op with
    | _, some op => return .binary op l r
    | .and, none => return .ternary l r (.bool false)
    | _, none => return .ternary l (.bool true) r

/-- An operator applied to one operand. -/
def unaryCode (op : UnaryOp) (operand : Operand) : Gen Target.Expr := do
  let value ← operand.code
  match op with
  | .neg => return .unary .neg value
  | .not | .bitNot => return not value
  | .notNull =>
    match ← structOf operand.ty with
    | some decl =>
      if operand.ty.isOptional then callUsed (Name.notNull decl.name) [value]
      else callHelper Helper.notNullName [value]
    | none => callHelper Helper.notNullName [value]

/-- A choice between two values. -/
def conditionalCode (ty : TypeRef) (cond onTrue onFalse : Operand) : Gen Target.Expr := do
  let c ← cond.code
  let t ← onTrue.cast ty
  let f ← onFalse.cast ty
  return .ternary c t f

/-! ### Expressions -/

/-- The literal of a constant expression, or else other code. -/
def foldedOr (e : Expr) (code : Gen Target.Expr) : Gen Target.Expr := do
  match (← read).evaluate e with
  | some value => literal value e.ty
  | none => code

mutual

/-- The target code of an expression. -/
def lower (s : Scope) : Expr → Gen Target.Expr
  | .number i v => foldedOr (.number i v) (return int v)
  | .boolean i b => foldedOr (.boolean i b) (return .bool b)
  | .null i => foldedOr (.null i) (return null)
  | .string i text => foldedOr (.string i text) (literal (.string text) i.ty)
  | .ident i name => foldedOr (.ident i name) (identifier s i name)
  | .field i target name =>
    foldedOr (.field i target name)
      (fieldAccess (.field i target name) ⟨target, lower s target⟩ name)
  | .call i name args => foldedOr (.call i name args) (functionCall i name (operands s args))
  | .methodCall i receiver name args =>
    foldedOr (.methodCall i receiver name args)
      (methodCall i ⟨receiver, lower s receiver⟩ name (operands s args))
  | .staticCall i typeName name args =>
    foldedOr (.staticCall i typeName name args) (staticCall i typeName name (operands s args))
  | .instanceOf i typeName inits =>
    foldedOr (.instanceOf i typeName inits) (newRecord i typeName (initOperands s inits))
  | .binary i op lhs rhs =>
    foldedOr (.binary i op lhs rhs) (binaryCode op ⟨lhs, lower s lhs⟩ ⟨rhs, lower s rhs⟩ i.loc)
  | .unary i op operand =>
    foldedOr (.unary i op operand) (unaryCode op ⟨operand, lower s operand⟩)
  | .conditional i cond onTrue onFalse =>
    foldedOr (.conditional i cond onTrue onFalse)
      (conditionalCode i.ty ⟨cond, lower s cond⟩ ⟨onTrue, lower s onTrue⟩
        ⟨onFalse, lower s onFalse⟩)
  | .initOf i contract args =>
    foldedOr (.initOf i contract args) (deployment i contract (operands s args))

/-- Expressions as operands. -/
def operands (s : Scope) : List Expr → List Operand
  | [] => []
  | e :: es => ⟨e, lower s e⟩ :: operands s es

/-- Initializers as operands. -/
def initOperands (s : Scope) : List (String × Expr) → List (String × Operand)
  | [] => []
  | (name, e) :: rest => (name, ⟨e, lower s e⟩) :: initOperands s rest

end

/-- The code of an expression for a slot of a type. -/
def lowerCast (s : Scope) (e : Expr) (target : TypeRef) : Gen Target.Expr :=
  Operand.cast ⟨e, lower s e⟩ target

end Generate

end CellCompiler
