import CellCompiler.Source.Expr

/-!
# Statements of the source language
-/

namespace CellCompiler

mutual

/-- A statement with its place in the source text. -/
inductive Stmt where
  | letVar (loc : Location) (name : String) (ty : TypeRef) (value : Expr)
  | assign (loc : Location) (path : Expr) (value : Expr)
  | augmentedAssign (loc : Location) (path : Expr) (op : AugmentedOp) (value : Expr)
  | ret (loc : Location) (value : Option Expr)
  | expression (loc : Location) (expr : Expr)
  | condition (loc : Location) (cond : Expr) (body : List Stmt) (otherwise : Otherwise)
  | whileLoop (loc : Location) (cond : Expr) (body : List Stmt)
  /-- The condition is tested after the body and ends the loop. -/
  | untilLoop (loc : Location) (body : List Stmt) (cond : Expr)
  | repeatLoop (loc : Location) (count : Expr) (body : List Stmt)
  | tryCatch (loc : Location) (body : List Stmt) (catchName : Option String)
      (catchBody : List Stmt)
  /-- Run the body for every entry of a map. -/
  | foreach (loc : Location) (key value : String) (map : Expr) (body : List Stmt)

/-- The alternative of a condition. -/
inductive Otherwise where
  | absent
  | block (body : List Stmt)
  /-- A further condition. -/
  | chain (stmt : Stmt)

end

namespace Stmt

/-- The place in the source text. -/
def loc : Stmt → Location
  | letVar loc .. | assign loc .. | augmentedAssign loc .. | ret loc .. | expression loc ..
  | condition loc .. | whileLoop loc .. | untilLoop loc .. | repeatLoop loc .. | tryCatch loc ..
  | foreach loc .. => loc

/-- The same statement at another place. -/
def atLoc (s : Stmt) (loc : Location) : Stmt :=
  match s with
  | letVar _ n t v => letVar loc n t v
  | assign _ p v => assign loc p v
  | augmentedAssign _ p op v => augmentedAssign loc p op v
  | ret _ v => ret loc v
  | expression _ e => expression loc e
  | condition _ c b o => condition loc c b o
  | whileLoop _ c b => whileLoop loc c b
  | untilLoop _ b c => untilLoop loc b c
  | repeatLoop _ n b => repeatLoop loc n b
  | tryCatch _ b n c => tryCatch loc b n c
  | foreach _ k v m b => foreach loc k v m b

/-- The statement leaves the function. -/
def isReturn : Stmt → Bool
  | ret .. => true
  | _ => false

end Stmt

/-- The last statement leaves the function. -/
def endsWithReturn (stmts : List Stmt) : Bool := stmts.getLast?.any Stmt.isReturn

end CellCompiler
