import CellCompiler.Emission.Output

/-!
# Where target code writes to

The target assigns to patterns only: variables, holes and tensors of these. A hole stands for a value
that is not needed, which makes sense where something is bound.

* `Expr.Patterned` says of an expression that what it assigns to and what its modifying calls are
  applied to are patterns, and that there are no holes in it;
* `Stmt.Patterned` says the same of statements, where bindings of variables and of exceptions are
  patterns too and may have holes; simp lemmas take it apart;
* `Output.Patterned`: all functions of a module are like that.
-/

namespace CellCompiler

namespace Target

mutual

/-- What the expression writes to are patterns, and it has no holes. -/
def Expr.Patterned : Expr → Prop
  | .int _ | .bool _ | .ident _ => True
  | .hole => False
  | .call _ args => AllPatterned args
  | .methodCall receiver _ args false => receiver.Patterned ∧ AllPatterned args
  | .methodCall receiver _ args true => receiver.isLValue = true ∧ receiver.Patterned ∧ AllPatterned args
  | .assign lhs rhs | .augmentedAssign lhs _ rhs => lhs.isLValue = true ∧ lhs.Patterned ∧ rhs.Patterned
  | .ternary cond onTrue onFalse => cond.Patterned ∧ onTrue.Patterned ∧ onFalse.Patterned
  | .binary _ lhs rhs => lhs.Patterned ∧ rhs.Patterned
  | .unary _ operand => operand.Patterned
  | .tensor items | .tuple items => AllPatterned items

/-- All expressions write to patterns only. -/
def AllPatterned : List Expr → Prop
  | [] => True
  | e :: es => e.Patterned ∧ AllPatterned es

end

/-- The expression, if there is one, writes to patterns only. -/
def OptionPatterned : Option Expr → Prop
  | none => True
  | some e => e.Patterned

mutual

/-- What the statement writes to or binds are patterns, and holes are in bindings only. -/
def Stmt.Patterned : Stmt → Prop
  | .block body => StmtsPatterned body
  | .ret value => OptionPatterned value
  | .expr e => e.Patterned
  | .varDef _ binding init => binding.isLValue = true ∧ OptionPatterned init
  | .ifThen branch => branch.Patterned
  | .repeatLoop e body | .whileLoop e body | .untilLoop body e => e.Patterned ∧ StmtsPatterned body
  | .tryCatch body binding handler =>
    StmtsPatterned body ∧ binding.isLValue = true ∧ StmtsPatterned handler

/-- A condition and what depends on it write to patterns only. -/
def Conditional.Patterned : Conditional → Prop
  | .mk cond body otherwise _ => cond.Patterned ∧ StmtsPatterned body ∧ otherwise.Patterned

/-- The alternative writes to patterns only. -/
def Otherwise.Patterned : Otherwise → Prop
  | .absent => True
  | .block body => StmtsPatterned body
  | .chain branch => branch.Patterned

/-- All statements write to patterns only. -/
def StmtsPatterned : List Stmt → Prop
  | [] => True
  | s :: ss => s.Patterned ∧ StmtsPatterned ss

end

/-- The body of the function writes to patterns only. -/
def Item.Patterned : Item → Prop
  | .function _ body => StmtsPatterned body
  | _ => True

/-! ### Lists -/

theorem allPatterned_iff {es : List Expr} : AllPatterned es ↔ ∀ e ∈ es, e.Patterned := by
  induction es with
  | nil => simp [AllPatterned]
  | cons e es ih => simp [AllPatterned, ih]

theorem stmtsPatterned_iff {ss : List Stmt} : StmtsPatterned ss ↔ ∀ s ∈ ss, s.Patterned := by
  induction ss with
  | nil => simp [StmtsPatterned]
  | cons s ss ih => simp [StmtsPatterned, ih]

@[simp] theorem stmtsPatterned_nil : StmtsPatterned [] := trivial

@[simp] theorem stmtsPatterned_cons {s : Stmt} {ss : List Stmt} :
    StmtsPatterned (s :: ss) ↔ s.Patterned ∧ StmtsPatterned ss := Iff.rfl

@[simp] theorem stmtsPatterned_append {ss ts : List Stmt} :
    StmtsPatterned (ss ++ ts) ↔ StmtsPatterned ss ∧ StmtsPatterned ts := by
  simp [stmtsPatterned_iff, or_imp, forall_and]

/-! ### Patterns -/

theorem areLValues_iff {es : List Expr} : Expr.areLValues es = true ↔ ∀ e ∈ es, e.isLValue = true := by
  induction es with
  | nil => simp [Expr.areLValues]
  | cons e es ih => simp [Expr.areLValues, ih]

@[simp] theorem isLValue_id {name : String} : (id name).isLValue = true := rfl

@[simp] theorem isLValue_hole : Expr.hole.isLValue = true := rfl

@[simp] theorem isLValue_tensor {items : List Expr} :
    (Expr.tensor items).isLValue = true ↔ ∀ e ∈ items, e.isLValue = true := areLValues_iff

/-! ### Expressions -/

namespace Expr

@[simp] theorem patterned_int {v : Int} : (Expr.int v).Patterned := trivial

@[simp] theorem patterned_bool {b : Bool} : (Expr.bool b).Patterned := trivial

@[simp] theorem patterned_ident {name : String} : (Expr.ident name).Patterned := trivial

@[simp] theorem patterned_call {callee : String} {args : List Expr} :
    (Expr.call callee args).Patterned ↔ ∀ e ∈ args, e.Patterned := allPatterned_iff

@[simp] theorem patterned_ternary {cond onTrue onFalse : Expr} :
    (Expr.ternary cond onTrue onFalse).Patterned ↔
      cond.Patterned ∧ onTrue.Patterned ∧ onFalse.Patterned := Iff.rfl

@[simp] theorem patterned_binary {lhs rhs : Expr} {op : BinaryOp} :
    (Expr.binary op lhs rhs).Patterned ↔ lhs.Patterned ∧ rhs.Patterned := Iff.rfl

@[simp] theorem patterned_unary {operand : Expr} {op : UnaryOp} :
    (Expr.unary op operand).Patterned ↔ operand.Patterned := Iff.rfl

@[simp] theorem patterned_tensor {items : List Expr} :
    (Expr.tensor items).Patterned ↔ ∀ e ∈ items, e.Patterned := allPatterned_iff

@[simp] theorem patterned_augmentedAssign {lhs rhs : Expr} {op : AugmentedOp} :
    (Expr.augmentedAssign lhs op rhs).Patterned ↔ lhs.isLValue = true ∧ lhs.Patterned ∧ rhs.Patterned :=
  Iff.rfl

end Expr

@[simp] theorem patterned_id {name : String} : (id name).Patterned := trivial

@[simp] theorem patterned_number {v : Int} : (int v).Patterned := trivial

@[simp] theorem patterned_called {callee : String} {args : List Expr} :
    (call callee args).Patterned ↔ ∀ e ∈ args, e.Patterned := allPatterned_iff

@[simp] theorem patterned_method {receiver : Expr} {name : String} {args : List Expr} :
    (method receiver name args).Patterned ↔ receiver.Patterned ∧ ∀ e ∈ args, e.Patterned :=
  and_congr_right fun _ => allPatterned_iff

@[simp] theorem patterned_modify {receiver : Expr} {name : String} {args : List Expr} :
    (modify receiver name args).Patterned ↔
      receiver.isLValue = true ∧ receiver.Patterned ∧ ∀ e ∈ args, e.Patterned :=
  and_congr_right fun _ => and_congr_right fun _ => allPatterned_iff

@[simp] theorem patterned_eq {lhs rhs : Expr} : (eq lhs rhs).Patterned ↔ lhs.Patterned ∧ rhs.Patterned :=
  Iff.rfl

@[simp] theorem patterned_not {operand : Expr} : (not operand).Patterned ↔ operand.Patterned := Iff.rfl

@[simp] theorem patterned_null : null.Patterned := trivial

@[simp] theorem patterned_isNull {e : Expr} : (isNull e).Patterned ↔ e.Patterned := by simp [isNull]

@[simp] theorem patterned_emptyTuple : emptyTuple.Patterned := trivial

@[simp] theorem patterned_beginCell : beginCell.Patterned := trivial

@[simp] theorem patterned_endCell {e : Expr} : (endCell e).Patterned ↔ e.Patterned := by simp [endCell]

@[simp] theorem patterned_beginParse {e : Expr} : (beginParse e).Patterned ↔ e.Patterned := by
  simp [beginParse]

/-! ### Statements -/

namespace Stmt

@[simp] theorem patterned_ret {e : Expr} : (Target.ret e).Patterned ↔ e.Patterned := Iff.rfl

@[simp] theorem patterned_expr {e : Expr} : (Stmt.expr e).Patterned ↔ e.Patterned := Iff.rfl

@[simp] theorem patterned_var {binding init : Expr} :
    (var binding init).Patterned ↔ binding.isLValue = true ∧ init.Patterned := Iff.rfl

@[simp] theorem patterned_typedVar {ty : Ty} {name : String} {init : Expr} :
    (typedVar ty name init).Patterned ↔ init.Patterned := by
  change _ ∧ _ ↔ _
  simp [OptionPatterned]

@[simp] theorem patterned_assign {lhs rhs : Expr} :
    (assign lhs rhs).Patterned ↔ lhs.isLValue = true ∧ lhs.Patterned ∧ rhs.Patterned := Iff.rfl

@[simp] theorem patterned_throwUnless {code : Nat} {cond : Expr} :
    (throwUnless code cond).Patterned ↔ cond.Patterned := by
  simp [throwUnless]

@[simp] theorem patterned_throwIf {code : Nat} {cond : Expr} :
    (throwIf code cond).Patterned ↔ cond.Patterned := by
  simp [throwIf]

@[simp] theorem patterned_branch {cond : Expr} {body : List Stmt} {otherwise : Otherwise} {negated : Bool} :
    (Stmt.ifThen (.mk cond body otherwise negated)).Patterned ↔
      cond.Patterned ∧ StmtsPatterned body ∧ otherwise.Patterned := Iff.rfl

@[simp] theorem patterned_ifThen {cond : Expr} {body : List Stmt} :
    (Target.ifThen cond body).Patterned ↔ cond.Patterned ∧ StmtsPatterned body := by
  simp [Target.ifThen, Otherwise.Patterned]

@[simp] theorem patterned_ifElse {cond : Expr} {body otherwise : List Stmt} :
    (ifElse cond body otherwise).Patterned ↔
      cond.Patterned ∧ StmtsPatterned body ∧ StmtsPatterned otherwise := Iff.rfl

@[simp] theorem patterned_repeatLoop {count : Expr} {body : List Stmt} :
    (Stmt.repeatLoop count body).Patterned ↔ count.Patterned ∧ StmtsPatterned body := Iff.rfl

@[simp] theorem patterned_whileLoop {cond : Expr} {body : List Stmt} :
    (Stmt.whileLoop cond body).Patterned ↔ cond.Patterned ∧ StmtsPatterned body := Iff.rfl

@[simp] theorem patterned_untilLoop {cond : Expr} {body : List Stmt} :
    (Stmt.untilLoop body cond).Patterned ↔ cond.Patterned ∧ StmtsPatterned body := Iff.rfl

@[simp] theorem patterned_tryCatch {body handler : List Stmt} {binding : Expr} :
    (Stmt.tryCatch body binding handler).Patterned ↔
      StmtsPatterned body ∧ binding.isLValue = true ∧ StmtsPatterned handler := Iff.rfl

end Stmt

/-! ### Items -/

@[simp] theorem Item.patterned_asm {s : Signature} {instructions : List String} :
    (Item.asm s instructions).Patterned := trivial

@[simp] theorem Item.patterned_define {s : Signature} {body : List Stmt} :
    (s.define body).Patterned ↔ StmtsPatterned body := Iff.rfl

end Target

/-- All functions of the module write to patterns only, and have holes in bindings only. -/
def Emission.Output.Patterned (out : Emission.Output) : Prop :=
  ∀ f ∈ out.functions, ∀ item ∈ f.definition, item.Patterned

end CellCompiler
