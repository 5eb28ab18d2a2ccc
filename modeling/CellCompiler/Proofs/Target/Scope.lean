import CellCompiler.Emission.Output

/-!
# Variables in target code

* `Expr.reads` lists the variables that an expression reads, `Stmt.binds` those that a statement binds
  for what follows it;
* `Stmt.free` and `Item.free` list the variables that are read although nothing on the way there binds
  them. A variable that is bound in a block is not known after the block;
* `Expr.Within`, `Stmt.Within` and `StmtsWithin` say that there are none besides given ones; simp
  lemmas take them apart;
* `Output.Hygienic`: the functions of a module read nothing but their parameters, what they bind, and
  the global variables of the module.
-/

namespace CellCompiler

namespace Target

mutual

/-- The variables that an expression reads. A pattern that is assigned to is not read. -/
@[simp] def Expr.reads : Expr → List String
  | .int _ | .bool _ | .hole => []
  | .ident name => [name]
  | .call _ args => readsOf args
  | .methodCall receiver _ args _ => receiver.reads ++ readsOf args
  | .assign _ rhs => rhs.reads
  | .augmentedAssign lhs _ rhs | .binary _ lhs rhs => lhs.reads ++ rhs.reads
  | .ternary cond onTrue onFalse => cond.reads ++ onTrue.reads ++ onFalse.reads
  | .unary _ operand => operand.reads
  | .tensor items | .tuple items => readsOf items

/-- The variables that several expressions read. -/
@[simp] def readsOf : List Expr → List String
  | [] => []
  | e :: es => e.reads ++ readsOf es

end

/-- The variables that an expression reads besides given ones. -/
def Expr.free (bound : List String) (e : Expr) : List String := e.reads.filter (· ∉ bound)

/-- The variables that an expression reads besides given ones, if there is an expression. -/
@[simp] def freeOfOption (bound : List String) : Option Expr → List String
  | none => []
  | some e => e.free bound

/-- The variables that a statement binds for the statements after it: by a definition or by assigning
to them. -/
def Stmt.binds : Stmt → List String
  | .varDef _ binding _ => binding.boundNames
  | .expr (.assign lhs _) => lhs.boundNames
  | _ => []

/-- The variables that several statements bind. -/
def stmtBinds (ss : List Stmt) : List String := ss.flatMap Stmt.binds

mutual

/-- The variables that a statement reads, besides given ones, before it binds them. -/
@[simp] def Stmt.free : List String → Stmt → List String
  | bound, .block body => stmtFree bound body
  | bound, .ret value => freeOfOption bound value
  | bound, .expr e => e.free bound
  | bound, .varDef _ _ init => freeOfOption bound init
  | bound, .ifThen branch => branch.free bound
  | bound, .repeatLoop e body | bound, .whileLoop e body => e.free bound ++ stmtFree bound body
  | bound, .untilLoop body cond => stmtFree bound body ++ cond.free (bound ++ stmtBinds body)
  | bound, .tryCatch body binding handler =>
    stmtFree bound body ++ stmtFree (bound ++ binding.boundNames) handler

/-- The variables that a condition and what depends on it read, besides given ones. -/
@[simp] def Conditional.free : List String → Conditional → List String
  | bound, .mk cond body otherwise _ => cond.free bound ++ stmtFree bound body ++ otherwise.free bound

/-- The variables that an alternative reads, besides given ones. -/
@[simp] def Otherwise.free : List String → Otherwise → List String
  | _, .absent => []
  | bound, .block body => stmtFree bound body
  | bound, .chain branch => branch.free bound

/-- The variables that several statements read, besides given ones, before they bind them. -/
@[simp] def stmtFree : List String → List Stmt → List String
  | _, [] => []
  | bound, s :: ss => s.free bound ++ stmtFree (bound ++ s.binds) ss

end

/-- The variables that a function reads although they are neither parameters nor bound in it nor among
the global variables. -/
def Item.free (globals : List String) : Item → List String
  | .function s body => stmtFree (globals ++ s.params.map (·.name)) body
  | _ => []

/-! ### Reading only given variables -/

variable {bound more : List String}

/-- The expression reads only given variables. -/
def Expr.Within (bound : List String) (e : Expr) : Prop := ∀ x ∈ e.reads, x ∈ bound

theorem forall_mem_readsOf {es : List Expr} :
    (∀ x ∈ readsOf es, x ∈ bound) ↔ ∀ e ∈ es, e.Within bound := by
  induction es with
  | nil => simp
  | cons e es ih => simp [Expr.Within, or_imp, forall_and, ih]

namespace Expr

theorem free_eq_nil {e : Expr} : e.free bound = [] ↔ e.Within bound := by
  simp [free, Within, List.filter_eq_nil_iff]

theorem Within.mono {e : Expr} (h : e.Within bound) (hmore : bound ⊆ more) : e.Within more :=
  fun x hx => hmore (h x hx)

@[simp] theorem within_int {v : Int} : (Expr.int v).Within bound := by simp [Within]

@[simp] theorem within_bool {b : Bool} : (Expr.bool b).Within bound := by simp [Within]

@[simp] theorem within_hole : Expr.hole.Within bound := by simp [Within]

@[simp] theorem within_ident {name : String} : (Expr.ident name).Within bound ↔ name ∈ bound := by
  simp [Within]

@[simp] theorem within_call {callee : String} {args : List Expr} :
    (Expr.call callee args).Within bound ↔ ∀ e ∈ args, e.Within bound := by
  rw [← forall_mem_readsOf]
  simp [Within]

@[simp] theorem within_methodCall {receiver : Expr} {method : String} {args : List Expr}
    {modifying : Bool} : (Expr.methodCall receiver method args modifying).Within bound ↔
      receiver.Within bound ∧ ∀ e ∈ args, e.Within bound := by
  rw [← forall_mem_readsOf]
  simp [Within, or_imp, forall_and]

@[simp] theorem within_assign {lhs rhs : Expr} : (Expr.assign lhs rhs).Within bound ↔ rhs.Within bound := by
  simp [Within]

@[simp] theorem within_augmentedAssign {lhs rhs : Expr} {op : AugmentedOp} :
    (Expr.augmentedAssign lhs op rhs).Within bound ↔ lhs.Within bound ∧ rhs.Within bound := by
  simp [Within, or_imp, forall_and]

@[simp] theorem within_binary {lhs rhs : Expr} {op : BinaryOp} :
    (Expr.binary op lhs rhs).Within bound ↔ lhs.Within bound ∧ rhs.Within bound := by
  simp [Within, or_imp, forall_and]

@[simp] theorem within_ternary {cond onTrue onFalse : Expr} :
    (Expr.ternary cond onTrue onFalse).Within bound ↔
      cond.Within bound ∧ onTrue.Within bound ∧ onFalse.Within bound := by
  simp [Within, or_imp, forall_and]

@[simp] theorem within_unary {operand : Expr} {op : UnaryOp} :
    (Expr.unary op operand).Within bound ↔ operand.Within bound := by
  simp [Within]

@[simp] theorem within_tensor {items : List Expr} :
    (Expr.tensor items).Within bound ↔ ∀ e ∈ items, e.Within bound := by
  rw [← forall_mem_readsOf]
  simp [Within]

end Expr

/-! ### Short constructors -/

@[simp] theorem within_id {name : String} : (id name).Within bound ↔ name ∈ bound := Expr.within_ident

@[simp] theorem within_number {v : Int} : (int v).Within bound := Expr.within_int

@[simp] theorem within_called {callee : String} {args : List Expr} :
    (call callee args).Within bound ↔ ∀ e ∈ args, e.Within bound := Expr.within_call

@[simp] theorem within_method {receiver : Expr} {name : String} {args : List Expr} :
    (method receiver name args).Within bound ↔ receiver.Within bound ∧ ∀ e ∈ args, e.Within bound :=
  Expr.within_methodCall

@[simp] theorem within_modify {receiver : Expr} {name : String} {args : List Expr} :
    (modify receiver name args).Within bound ↔ receiver.Within bound ∧ ∀ e ∈ args, e.Within bound :=
  Expr.within_methodCall

@[simp] theorem within_eq {lhs rhs : Expr} : (eq lhs rhs).Within bound ↔ lhs.Within bound ∧ rhs.Within bound :=
  Expr.within_binary

@[simp] theorem within_not {operand : Expr} : (not operand).Within bound ↔ operand.Within bound :=
  Expr.within_unary

@[simp] theorem within_null : null.Within bound := by simp [null]

@[simp] theorem within_isNull {e : Expr} : (isNull e).Within bound ↔ e.Within bound := by simp [isNull]

@[simp] theorem within_emptyTuple : emptyTuple.Within bound := by simp [emptyTuple]

@[simp] theorem within_beginCell : beginCell.Within bound := by simp [beginCell]

@[simp] theorem within_endCell {e : Expr} : (endCell e).Within bound ↔ e.Within bound := by simp [endCell]

@[simp] theorem within_beginParse {e : Expr} : (beginParse e).Within bound ↔ e.Within bound := by
  simp [beginParse]

@[simp] theorem boundNames_id {name : String} : (id name).boundNames = [name] := rfl

@[simp] theorem boundNames_ident {name : String} : (Expr.ident name).boundNames = [name] := rfl

@[simp] theorem boundNames_hole : Expr.hole.boundNames = [] := rfl

@[simp] theorem boundNames_tensor {items : List Expr} :
    (Expr.tensor items).boundNames = items.flatMap Expr.boundNames := by
  rw [Expr.boundNames]
  induction items with
  | nil => rfl
  | cons e es ih => rw [Expr.boundNamesOf, ih, List.flatMap_cons]

/-- The statement reads only given variables and what it binds itself. -/
def Stmt.Within (bound : List String) (s : Stmt) : Prop := s.free bound = []

/-- The alternative reads only given variables and what it binds itself. -/
def Otherwise.Within (bound : List String) (o : Otherwise) : Prop := o.free bound = []

/-- The statements read only given variables and what has been bound before. -/
def StmtsWithin (bound : List String) (ss : List Stmt) : Prop := stmtFree bound ss = []

/-! ### Several statements -/

@[simp] theorem stmtBinds_nil : stmtBinds [] = [] := rfl

@[simp] theorem stmtBinds_cons {s : Stmt} {ss : List Stmt} :
    stmtBinds (s :: ss) = s.binds ++ stmtBinds ss := by simp [stmtBinds]

@[simp] theorem stmtBinds_append {ss ts : List Stmt} :
    stmtBinds (ss ++ ts) = stmtBinds ss ++ stmtBinds ts := by simp [stmtBinds]

@[simp] theorem stmtsWithin_nil : StmtsWithin bound [] := by simp [StmtsWithin]

@[simp] theorem stmtsWithin_cons {s : Stmt} {ss : List Stmt} :
    StmtsWithin bound (s :: ss) ↔ s.Within bound ∧ StmtsWithin (bound ++ s.binds) ss := by
  simp [StmtsWithin, Stmt.Within]

@[simp] theorem stmtsWithin_append {ss ts : List Stmt} :
    StmtsWithin bound (ss ++ ts) ↔
      StmtsWithin bound ss ∧ StmtsWithin (bound ++ stmtBinds ss) ts := by
  induction ss generalizing bound with
  | nil => simp
  | cons s ss ih => simp [ih, and_assoc]

/-! ### Single statements -/

namespace Stmt

@[simp] theorem within_ret {e : Expr} : (Target.ret e).Within bound ↔ e.Within bound := by
  simp [Within, Target.ret, Expr.free_eq_nil]

@[simp] theorem within_expr {e : Expr} : (Stmt.expr e).Within bound ↔ e.Within bound := by
  simp [Within, Expr.free_eq_nil]

@[simp] theorem within_var {binding init : Expr} :
    (var binding init).Within bound ↔ init.Within bound := by
  simp [Within, var, Expr.free_eq_nil]

@[simp] theorem within_typedVar {ty : Ty} {name : String} {init : Expr} :
    (typedVar ty name init).Within bound ↔ init.Within bound := by
  simp [Within, typedVar, Expr.free_eq_nil]

@[simp] theorem within_assign {lhs rhs : Expr} : (assign lhs rhs).Within bound ↔ rhs.Within bound := by
  simp [assign]

@[simp] theorem within_throwUnless {code : Nat} {cond : Expr} :
    (throwUnless code cond).Within bound ↔ cond.Within bound := by
  simp [throwUnless]

@[simp] theorem within_throwIf {code : Nat} {cond : Expr} :
    (throwIf code cond).Within bound ↔ cond.Within bound := by
  simp [throwIf]

@[simp] theorem within_branch {cond : Expr} {body : List Stmt} {otherwise : Otherwise} {negated : Bool} :
    (Stmt.ifThen (.mk cond body otherwise negated)).Within bound ↔
      cond.Within bound ∧ StmtsWithin bound body ∧ otherwise.Within bound := by
  simp [Within, Expr.free_eq_nil, StmtsWithin, Otherwise.Within]

@[simp] theorem within_ifThen {cond : Expr} {body : List Stmt} :
    (Target.ifThen cond body).Within bound ↔ cond.Within bound ∧ StmtsWithin bound body := by
  simp [Target.ifThen, Otherwise.Within]

@[simp] theorem within_ifElse {cond : Expr} {body otherwise : List Stmt} :
    (ifElse cond body otherwise).Within bound ↔
      cond.Within bound ∧ StmtsWithin bound body ∧ StmtsWithin bound otherwise := by
  simp [ifElse, Otherwise.Within, StmtsWithin]

@[simp] theorem within_repeatLoop {count : Expr} {body : List Stmt} :
    (Stmt.repeatLoop count body).Within bound ↔ count.Within bound ∧ StmtsWithin bound body := by
  simp [Within, Expr.free_eq_nil, StmtsWithin]

@[simp] theorem within_whileLoop {cond : Expr} {body : List Stmt} :
    (Stmt.whileLoop cond body).Within bound ↔ cond.Within bound ∧ StmtsWithin bound body := by
  simp [Within, Expr.free_eq_nil, StmtsWithin]

@[simp] theorem within_untilLoop {cond : Expr} {body : List Stmt} :
    (Stmt.untilLoop body cond).Within bound ↔
      StmtsWithin bound body ∧ cond.Within (bound ++ stmtBinds body) := by
  simp [Within, Expr.free_eq_nil, StmtsWithin]

@[simp] theorem within_tryCatch {body handler : List Stmt} {binding : Expr} :
    (Stmt.tryCatch body binding handler).Within bound ↔
      StmtsWithin bound body ∧ StmtsWithin (bound ++ binding.boundNames) handler := by
  simp [Within, StmtsWithin]

@[simp] theorem binds_var {binding init : Expr} : (var binding init).binds = binding.boundNames := rfl

@[simp] theorem binds_typedVar {ty : Ty} {name : String} {init : Expr} :
    (typedVar ty name init).binds = [name] := rfl

@[simp] theorem binds_throwUnless {code : Nat} {cond : Expr} : (throwUnless code cond).binds = [] := rfl

@[simp] theorem binds_throwIf {code : Nat} {cond : Expr} : (throwIf code cond).binds = [] := rfl

@[simp] theorem binds_assign {lhs rhs : Expr} : (assign lhs rhs).binds = lhs.boundNames := rfl

@[simp] theorem binds_ifThen {cond : Expr} {body : List Stmt} : (Target.ifThen cond body).binds = [] := rfl

@[simp] theorem binds_ret {e : Expr} : (Target.ret e).binds = [] := rfl

@[simp] theorem binds_modify {receiver : Expr} {name : String} {args : List Expr} :
    (Stmt.expr (Target.modify receiver name args)).binds = [] := rfl

end Stmt

/-- Statements that bind nothing can be looked at one by one. -/
theorem stmtsWithin_of_forall {ss : List Stmt} (h : ∀ s ∈ ss, s.Within bound ∧ s.binds = []) :
    StmtsWithin bound ss := by
  induction ss with
  | nil => exact stmtsWithin_nil
  | cons s ss ih =>
    obtain ⟨⟨hs, hbinds⟩, hss⟩ := List.forall_mem_cons.1 h
    simpa [hbinds] using ⟨hs, ih hss⟩

namespace Otherwise

@[simp] theorem within_absent : Otherwise.absent.Within bound := by simp [Within]

@[simp] theorem within_block {body : List Stmt} :
    (Otherwise.block body).Within bound ↔ StmtsWithin bound body := by
  simp [Within, StmtsWithin]

@[simp] theorem within_chain {branch : Conditional} :
    (Otherwise.chain branch).Within bound ↔ (Stmt.ifThen branch).Within bound := by
  simp [Within, Stmt.Within]

end Otherwise

/-! ### Items -/

/-- The function reads only its parameters, what it binds and the global variables. -/
def Item.Within (globals : List String) (item : Item) : Prop := item.free globals = []

variable {globals : List String}

@[simp] theorem Item.within_asm {s : Signature} {instructions : List String} :
    (Item.asm s instructions).Within globals := rfl

@[simp] theorem Item.within_define {s : Signature} {body : List Stmt} :
    (s.define body).Within globals ↔ StmtsWithin (globals ++ s.params.map (·.name)) body := Iff.rfl

end Target

namespace Emission

/-- The names of the global variables of a module. -/
def Output.globalNames (out : Output) : List String := out.globals.filterMap Target.Item.name?

/-- No function of the module reads a variable besides its parameters, what it has bound on the way
there and the global variables of the module. -/
def Output.Hygienic (out : Output) : Prop :=
  ∀ f ∈ out.functions, ∀ item ∈ f.definition, item.free out.globalNames = []

instance (out : Output) : Decidable out.Hygienic :=
  inferInstanceAs (Decidable (∀ f ∈ out.functions, ∀ item ∈ f.definition,
    item.free out.globalNames = []))

end Emission

end CellCompiler
