import CellCompiler.Target.Expr

/-!
# Statements of the target language
-/

namespace CellCompiler

namespace Target

mutual

/-- A statement of the target. -/
inductive Stmt where
  | block (body : List Stmt)
  | ret (value : Option Expr)
  | expr (e : Expr)
  /-- Bind the variables of a pattern; without a type it is inferred. -/
  | varDef (ty : Option Ty) (binding : Expr) (init : Option Expr)
  | ifThen (branch : Conditional)
  | repeatLoop (count : Expr) (body : List Stmt)
  | whileLoop (cond : Expr) (body : List Stmt)
  /-- The condition is tested after the body and ends the loop. -/
  | untilLoop (body : List Stmt) (cond : Expr)
  | tryCatch (body : List Stmt) (binding : Expr) (handler : List Stmt)

/-- A condition with what depends on it. -/
inductive Conditional where
  | mk (cond : Expr) (body : List Stmt) (otherwise : Otherwise) (negated : Bool)

/-- The alternative of a condition. -/
inductive Otherwise where
  | absent
  | block (body : List Stmt)
  | chain (branch : Conditional)

end

namespace Stmt

instance : Inhabited Stmt := ⟨block []⟩

/-- The statement leaves the function. -/
def isReturn : Stmt → Bool
  | ret _ => true
  | _ => false

end Stmt

/-! ### Equality -/

mutual

/-- Equality of statements as a truth value. -/
def Stmt.same : Stmt → Stmt → Bool
  | .block as, .block bs => sameStmts as bs
  | .ret a, .ret b => a == b
  | .expr a, .expr b => a == b
  | .varDef t p i, .varDef u q j => t == u && p == q && i == j
  | .ifThen a, .ifThen b => a.same b
  | .repeatLoop a as, .repeatLoop b bs => a == b && sameStmts as bs
  | .whileLoop a as, .whileLoop b bs => a == b && sameStmts as bs
  | .untilLoop as a, .untilLoop bs b => sameStmts as bs && a == b
  | .tryCatch as a cs, .tryCatch bs b ds => sameStmts as bs && a == b && sameStmts cs ds
  | _, _ => false

/-- Equality of conditions. -/
def Conditional.same : Conditional → Conditional → Bool
  | .mk a as o m, .mk b bs p n => a == b && sameStmts as bs && o.same p && m == n

/-- Equality of alternatives. -/
def Otherwise.same : Otherwise → Otherwise → Bool
  | .absent, .absent => true
  | .block as, .block bs => sameStmts as bs
  | .chain a, .chain b => a.same b
  | _, _ => false

/-- Equality of lists of statements. -/
def sameStmts : List Stmt → List Stmt → Bool
  | [], [] => true
  | a :: as, b :: bs => a.same b && sameStmts as bs
  | _, _ => false

end

mutual

theorem Stmt.same_iff : (a b : Stmt) → (a.same b = true ↔ a = b)
  | a, b => by
    cases a <;> cases b <;>
      simp [Stmt.same, Conditional.same_iff, sameStmts_iff, and_assoc]
termination_by structural a => a

theorem Conditional.same_iff : (a b : Conditional) → (a.same b = true ↔ a = b)
  | .mk a as o m, .mk b bs p n => by
    simp [Conditional.same, sameStmts_iff as bs, Otherwise.same_iff o p, and_assoc]
termination_by structural a => a

theorem Otherwise.same_iff : (a b : Otherwise) → (a.same b = true ↔ a = b)
  | a, b => by
    cases a <;> cases b <;>
      simp [Otherwise.same, Conditional.same_iff, sameStmts_iff]
termination_by structural a => a

theorem sameStmts_iff : (as bs : List Stmt) → (sameStmts as bs = true ↔ as = bs)
  | [], [] => by simp [sameStmts]
  | [], _ :: _ => by simp [sameStmts]
  | _ :: _, [] => by simp [sameStmts]
  | a :: as, b :: bs => by simp [sameStmts, Stmt.same_iff a b, sameStmts_iff as bs]
termination_by structural as => as

end

instance : DecidableEq Stmt := fun a b => decidable_of_iff _ (Stmt.same_iff a b)

/-! ### Short constructors -/

/-- Leave the function with a value. -/
def ret (value : Expr) : Stmt := .ret (some value)

/-- Assign to a pattern. -/
def assign (lhs rhs : Expr) : Stmt := .expr (.assign lhs rhs)

/-- Bind the variables of a pattern. -/
def var (binding init : Expr) : Stmt := .varDef none binding (some init)

/-- Bind a variable of a given type. -/
def typedVar (ty : Ty) (name : String) (init : Expr) : Stmt :=
  .varDef (some ty) (id name) (some init)

/-- Run statements if a condition holds. -/
def ifThen (cond : Expr) (body : List Stmt) : Stmt := .ifThen (.mk cond body .absent false)

/-- Run one list of statements or the other. -/
def ifElse (cond : Expr) (body otherwise : List Stmt) : Stmt :=
  .ifThen (.mk cond body (.block otherwise) false)

/-- Stop with an exit code unless a condition holds. -/
def throwUnless (code : Nat) (cond : Expr) : Stmt := .expr (call "throw_unless" [int code, cond])

/-- Stop with an exit code if a condition holds. -/
def throwIf (code : Nat) (cond : Expr) : Stmt := .expr (call "throw_if" [int code, cond])

end Target

end CellCompiler
