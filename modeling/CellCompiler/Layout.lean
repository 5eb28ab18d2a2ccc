import CellCompiler.Error
import CellCompiler.Name
import CellCompiler.Source.Table

/-!
# How values lie on the stack

A record with fields lies on the stack as the product of its fields, down to scalars. An optional
record and a record without fields are boxed in one tuple.

* `Layout.Shape` is the tree of products and leaves of a type under a variable name;
* its views are the target type (`Shape.ty`), the pattern that binds every leaf (`Shape.pattern`),
  the list of leaves (`Shape.leaves`) and the absent value (`Shape.nulls`);
* `Layout.shape` computes the tree; `Layout.depthBound` bounds its depth.
-/

namespace CellCompiler

namespace Layout

open Target (Ty)

/-- Overrides for the outermost type. -/
structure Mode where
  /-- Replaces the optional marker. -/
  optional : Option Bool := none
  /-- Cut a message to what survives a bounce. -/
  bounced : Bool := false
  deriving DecidableEq, Repr

/-- A value that is not split further. -/
inductive Leaf where
  | scalar (kind : PrimitiveKind)
  | boxed
  | map
  | void
  | null
  deriving DecidableEq, Repr

/-- The target type of a built-in type. -/
def primitiveTy : PrimitiveKind → Ty
  | .int | .bool => .int
  | .cell => .cell
  | .slice | .address | .string => .slice
  | .builder => .builder
  | .stringBuilder => .anyTuple

/-- The target type of a leaf. -/
def Leaf.ty : Leaf → Ty
  | scalar kind => primitiveTy kind
  | boxed => .anyTuple
  | map => .cell
  | void => .unit
  | null => .hole

/-- The absent value of a leaf. -/
def Leaf.nulls : Leaf → Target.Expr
  | void => .tensor []
  | _ => Target.null

/-- The products and leaves of a type, each leaf with its variable. -/
inductive Shape where
  | leaf (name : String) (leaf : Leaf)
  | product (parts : List Shape)

namespace Shape

mutual

/-- The target type. -/
def ty : Shape → Ty
  | leaf _ l => l.ty
  | product parts => .tensor (tys parts)

/-- The target types of parts. -/
def tys : List Shape → List Ty
  | [] => []
  | s :: ss => s.ty :: tys ss

end

mutual

/-- The pattern that binds every leaf. -/
def pattern : Shape → Target.Expr
  | leaf name _ => .ident name
  | product parts => .tensor (patterns parts)

/-- The patterns of parts. -/
def patterns : List Shape → List Target.Expr
  | [] => []
  | s :: ss => s.pattern :: patterns ss

end

mutual

/-- The variables of all leaves with their types. -/
def leaves : Shape → List (String × Ty)
  | leaf name l => [(name, l.ty)]
  | product parts => leavesOf parts

/-- The leaves of parts. -/
def leavesOf : List Shape → List (String × Ty)
  | [] => []
  | s :: ss => s.leaves ++ leavesOf ss

end

mutual

/-- The absent value in every leaf. -/
def nulls : Shape → Target.Expr
  | leaf _ l => l.nulls
  | product parts => .tensor (nullsOf parts)

/-- The absent values of parts. -/
def nullsOf : List Shape → List Target.Expr
  | [] => []
  | s :: ss => s.nulls :: nullsOf ss

end

/-- A variable of this shape is bound field by field. -/
def isProduct : Shape → Bool
  | product (_ :: _) => true
  | _ => false

end Shape

/-! ### Shapes of types -/

/-- The declaration of a name. -/
def declOf (table : TypeTable) (name : String) : Except CompileError TypeDecl :=
  match table.types.get? name with
  | some decl => .ok decl
  | none => .error (.unknownType name)

/-- The fields that are there, perhaps after a bounce. -/
def visibleFields (decl : TypeDecl) (bounced : Bool) : List Field :=
  if bounced then decl.fields.take decl.bounceCount else decl.fields

/-- The shape of a record, given how to find the shapes of its fields. -/
def recordBy (shapeOf : TypeRef → String → Except CompileError Shape) (name : String)
    (fields : List (String × TypeRef)) : Except CompileError Shape :=
  match fields with
  | [] => .ok (.leaf name .boxed)
  | fields => .product <$> fields.mapM fun (field, ty) => shapeOf ty (Name.tick name field)

/-- The shape of a declared type, given how to find the shapes of its fields. -/
def declBy (shapeOf : TypeRef → String → Except CompileError Shape) (decl : TypeDecl)
    (optional bounced : Bool) (name : String) : Except CompileError Shape :=
  match decl.kind with
  | .primitive kind => .ok (.leaf name (.scalar kind))
  | .struct | .contract =>
    if optional then .ok (.leaf name .boxed)
    else recordBy shapeOf name ((visibleFields decl bounced).map fun f => (f.name, f.ty))

/-- The shape of a type in a variable, nested at most `fuel` deep. -/
def shapeWithin (table : TypeTable) :
    (fuel : Nat) → Mode → TypeRef → (name : String) → Except CompileError Shape
  | _, _, .void, name => .ok (.leaf name .void)
  | _, _, .null, name => .ok (.leaf name .null)
  | _, _, .map .., name => .ok (.leaf name .map)
  | 0, _, _, _ => .error .endless
  | fuel + 1, mode, .named typeName optional, name => do
    let decl ← declOf table typeName
    declBy (shapeWithin table fuel {}) decl (mode.optional.getD optional) mode.bounced name
  | fuel + 1, mode, .bounced typeName, name => do
    let decl ← declOf table typeName
    declBy (shapeWithin table fuel {}) decl (mode.optional.getD false) true name

/-- Bound for the depth of types that do not contain each other: on the way down, every type is met
at most once whole and at most once cut by a bounce. -/
def depthBound (table : TypeTable) : Nat := 2 * table.types.size + 2

/-- The shape of a type in a variable. -/
def shapeWith (table : TypeTable) (mode : Mode) (ty : TypeRef) (name : String) :
    Except CompileError Shape :=
  shapeWithin table (depthBound table) mode ty name

/-- The shape of a type in a variable, without overrides. -/
def shape (table : TypeTable) (ty : TypeRef) (name : String) : Except CompileError Shape :=
  shapeWith table {} ty name

/-- The shape of a record that has no declaration, such as the arguments of a contract. -/
def record (table : TypeTable) (fields : List (String × TypeRef)) (name : String) :
    Except CompileError Shape :=
  recordBy (shape table) name fields

/-! ### Views of types -/

/-- The target type of a type. -/
def representation (table : TypeTable) (ty : TypeRef) : Except CompileError Ty :=
  Shape.ty <$> shape table ty ""

/-- The pattern that binds a variable of a type. -/
def unpack (table : TypeTable) (ty : TypeRef) (name : String) : Except CompileError Target.Expr :=
  Shape.pattern <$> shape table ty name

/-- The absent value of a type. -/
def nullPattern (table : TypeTable) (ty : TypeRef) : Except CompileError Target.Expr :=
  Shape.nulls <$> shape table ty ""

/-- Variables of a type are bound field by field. -/
def isUnpacked (table : TypeTable) (ty : TypeRef) : Except CompileError Bool :=
  Shape.isProduct <$> shape table ty ""

/-- The record that a type names, optional or not. -/
def structOf (table : TypeTable) (ty : TypeRef) : Except CompileError (Option TypeDecl) :=
  match ty.name? with
  | none => .ok none
  | some name => do
    let decl ← declOf table name
    return if decl.isStructLike then some decl else none

/-- The built-in type that a type names, optional or not. -/
def primitiveOf (table : TypeTable) (ty : TypeRef) : Except CompileError (Option PrimitiveKind) :=
  match ty with
  | .named name _ => do
    let decl ← declOf table name
    return decl.primitive?
  | _ => .ok none

/-- The target type in which callers from outside see a record: fields that are records become
tuples. -/
def externalTy (table : TypeTable) (decl : TypeDecl) : Except CompileError Ty :=
  if decl.fields.isEmpty then .ok .anyTuple
  else .tensor <$> decl.fields.mapM fun f => do
    match ← structOf table f.ty with
    | some _ => return .anyTuple
    | none => representation table f.ty

end Layout

end CellCompiler
