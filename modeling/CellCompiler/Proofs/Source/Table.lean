import CellCompiler.Proofs.Dict
import CellCompiler.Source.Table

/-!
# Tables of declarations

* `TypeTable.WellNamed` says that a table is a map from names to declarations of those names, which
  is how tables are built from a program;
* `TypeTable.Unmarked` says that names do not interfere with those of emitted code.
-/

namespace CellCompiler

namespace TypeTable

variable {table : TypeTable} {name : String} {decl : TypeDecl}

/-- Every type is declared once, under its own name. -/
structure WellNamed (table : TypeTable) : Prop where
  nodup : table.types.keys.Nodup
  named : ∀ p ∈ table.types.entries, p.2.name = p.1

theorem WellNamed.name_eq (h : table.WellNamed) (hd : table.types.get? name = some decl) :
    decl.name = name :=
  h.named _ (Dict.mem_entries_of_get? hd)

theorem WellNamed.get?_name (h : table.WellNamed) (hd : decl ∈ table.types.values) :
    table.types.get? decl.name = some decl := by
  obtain ⟨⟨k, d⟩, hmem, rfl⟩ := List.mem_map.1 hd
  obtain rfl : d.name = k := h.named _ hmem
  exact Dict.get?_of_mem_entries h.nodup hmem

/-- No name of a type or a field has a mark in it. -/
structure Unmarked (table : TypeTable) : Prop where
  types : ∀ decl ∈ table.types.values, '$' ∉ decl.name.toList
  fields : ∀ decl ∈ table.types.values, ∀ f ∈ decl.fields, '$' ∉ f.name.toList

theorem mem_structs : decl ∈ table.structs ↔ decl ∈ table.types.values ∧ decl.isStruct = true :=
  List.mem_filter

theorem mem_contracts :
    decl ∈ table.contracts ↔ decl ∈ table.types.values ∧ decl.isContract = true :=
  List.mem_filter

end TypeTable

namespace TypeDecl

variable {decl : TypeDecl}

theorem isStructLike_of_isContract (h : decl.isContract = true) : decl.isStructLike = true := by
  simp only [isContract, beq_iff_eq] at h
  simp [isStructLike, h]

theorem isStructLike_of_isStruct (h : decl.isStruct = true) : decl.isStructLike = true := by
  simp only [isStruct, beq_iff_eq] at h
  simp [isStructLike, h]

theorem primitive?_eq_none_iff : decl.primitive? = none ↔ decl.isStructLike = true := by
  cases h : decl.kind <;> simp [primitive?, isStructLike, h]

theorem isContract_of_isStruct (h : decl.isStruct = true) : decl.isContract = false := by
  simp only [isStruct, beq_iff_eq] at h
  simp [isContract, h]

theorem isContract_of_isStructLike (h : decl.isStructLike = true) (hnot : decl.isStruct = false) :
    decl.isContract = true := by
  cases hkind : decl.kind <;> simp_all [isStruct, isStructLike, isContract]

theorem isContract_of_primitive? {kind : PrimitiveKind} (h : decl.primitive? = some kind) :
    decl.isContract = false := by
  cases hkind : decl.kind <;> simp_all [primitive?, isContract]

end TypeDecl

end CellCompiler

/-!
## Parts of expressions and statements, and what they change

* `Expr.parts` lists an expression and everything that it is made of;
* `Stmt.exprs` lists all expressions in a statement, with their parts;
* `TypeTable.mutates` tells the calls that change what they are applied to: those of three methods of
  maps, and those of methods declared as such;
* `Expr.root?` is the variable that a path starts at, and `Expr.origin?` the variable that the value of
  an expression is kept in, if it is not computed;
* `Stmt.changes` lists the variables that a statement binds, assigns to or changes by a call, at any
  depth and including the variables of inner loops.
-/

namespace CellCompiler

mutual

/-- An expression and its operands, with theirs. -/
def Expr.parts : Expr → List Expr
  | .number info v => [.number info v]
  | .boolean info b => [.boolean info b]
  | .null info => [.null info]
  | .string info text => [.string info text]
  | .ident info name => [.ident info name]
  | .field info target name => .field info target name :: target.parts
  | .call info name args => .call info name args :: partsOf args
  | .methodCall info receiver name args =>
    .methodCall info receiver name args :: receiver.parts ++ partsOf args
  | .staticCall info typeName name args => .staticCall info typeName name args :: partsOf args
  | .instanceOf info typeName inits => .instanceOf info typeName inits :: partsOfInits inits
  | .binary info op lhs rhs => .binary info op lhs rhs :: lhs.parts ++ rhs.parts
  | .unary info op operand => .unary info op operand :: operand.parts
  | .conditional info cond onTrue onFalse =>
    .conditional info cond onTrue onFalse :: cond.parts ++ onTrue.parts ++ onFalse.parts
  | .initOf info contract args => .initOf info contract args :: partsOf args

/-- Several expressions with their parts. -/
def partsOf : List Expr → List Expr
  | [] => []
  | e :: es => e.parts ++ partsOf es

/-- Initializers with their parts. -/
def partsOfInits : List (String × Expr) → List Expr
  | [] => []
  | (_, e) :: rest => e.parts ++ partsOfInits rest

end

mutual

/-- The expressions in a statement. -/
def Stmt.exprs : Stmt → List Expr
  | .letVar _ _ _ value => value.parts
  | .assign _ path value | .augmentedAssign _ path _ value => path.parts ++ value.parts
  | .ret _ none => []
  | .ret _ (some value) => value.parts
  | .expression _ e => e.parts
  | .condition _ cond body otherwise => cond.parts ++ stmtExprs body ++ otherwise.exprs
  | .whileLoop _ e body | .untilLoop _ body e | .repeatLoop _ e body | .foreach _ _ _ e body =>
    e.parts ++ stmtExprs body
  | .tryCatch _ body _ handler => stmtExprs body ++ stmtExprs handler

/-- The expressions in an alternative. -/
def Otherwise.exprs : Otherwise → List Expr
  | .absent => []
  | .block body => stmtExprs body
  | .chain stmt => stmt.exprs

/-- The expressions in several statements. -/
def stmtExprs : List Stmt → List Expr
  | [] => []
  | s :: ss => s.exprs ++ stmtExprs ss

end

theorem Expr.mem_parts (e : Expr) : e ∈ e.parts := by
  cases e <;> simp [parts]

/-! ### What statements change -/

/-- The method of a type changes what it is applied to. -/
def TypeTable.mutates (table : TypeTable) (receiver : TypeRef) (method : String) : Bool :=
  if receiver.isMap then ["set", "replace", "del"].contains method
  else
    ((receiver.name?.bind fun name => table.types.get? name).bind fun decl =>
      decl.functions.get? method).any (·.mutates)

namespace Expr

/-- The variable that a path starts at. -/
def root? (e : Expr) : Option String := e.path.bind List.head?

/-- The variable that the code of an expression may be: the root of a path, also if a map at the path is
taken as a cell. -/
def origin? : Expr → Option String
  | methodCall _ receiver method _ => if method = "asCell" then receiver.origin? else none
  | e => e.root?

/-- The variable that a call itself changes. -/
def updated (table : TypeTable) : Expr → Option String
  | .methodCall _ receiver method _ => if table.mutates receiver.ty method then receiver.root? else none
  | _ => none

/-- The variables that calls in the expression change. -/
def changes (table : TypeTable) (e : Expr) : List String := e.parts.filterMap (updated table)

end Expr

mutual

/-- The variables that a statement binds, assigns to or changes. -/
def Stmt.changes (table : TypeTable) : Stmt → List String
  | .letVar _ name _ value => name :: value.changes table
  | .assign _ path value | .augmentedAssign _ path _ value => path.root?.toList ++ value.changes table
  | .ret _ none => []
  | .ret _ (some value) => value.changes table
  | .expression _ e => e.changes table
  | .condition _ cond body otherwise =>
    cond.changes table ++ stmtChanges table body ++ otherwise.changes table
  | .whileLoop _ e body | .untilLoop _ body e | .repeatLoop _ e body =>
    e.changes table ++ stmtChanges table body
  | .tryCatch _ body name handler => stmtChanges table body ++ name.toList ++ stmtChanges table handler
  | .foreach _ key value map body => key :: value :: map.changes table ++ stmtChanges table body

/-- The variables that an alternative changes. -/
def Otherwise.changes (table : TypeTable) : Otherwise → List String
  | .absent => []
  | .block body => stmtChanges table body
  | .chain stmt => stmt.changes table

/-- The variables that several statements change. -/
def stmtChanges (table : TypeTable) : List Stmt → List String
  | [] => []
  | s :: ss => s.changes table ++ stmtChanges table ss

end

end CellCompiler
