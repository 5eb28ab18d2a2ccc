import CellCompiler.Emission.Registry

/-!
# What emitted code calls

* `Expr.callees`, `Stmt.callees` and `Item.callees` list the names that code calls, also in front of
  its first argument;
* `Target.builtins` are the functions that the target itself has;
* `Target.Declared` says that a call is to a declared name or to one of these, other than the one that
  replaces the data of the contract, and code is declared (`Expr.Declared`, `Stmt.Declared`,
  `Item.Declared`) if all of its calls are.
-/

namespace CellCompiler

namespace Target

/-! ### Names of callees -/

mutual

/-- The names that an expression calls. -/
@[simp] def Expr.callees : Expr → List String
  | .int _ | .bool _ | .ident _ | .hole => []
  | .call callee args => callee :: calleesOf args
  | .methodCall receiver method args _ => method :: (receiver.callees ++ calleesOf args)
  | .assign lhs rhs | .augmentedAssign lhs _ rhs | .binary _ lhs rhs => lhs.callees ++ rhs.callees
  | .ternary cond onTrue onFalse => cond.callees ++ onTrue.callees ++ onFalse.callees
  | .unary _ operand => operand.callees
  | .tensor items | .tuple items => calleesOf items

/-- The names that several expressions call. -/
@[simp] def calleesOf : List Expr → List String
  | [] => []
  | e :: es => e.callees ++ calleesOf es

end

/-- The names that an expression calls, if there is one. -/
@[simp] def calleesOfOption : Option Expr → List String
  | none => []
  | some e => e.callees

mutual

/-- The names that a statement calls. -/
@[simp] def Stmt.callees : Stmt → List String
  | .block body => stmtCallees body
  | .ret value => calleesOfOption value
  | .expr e => e.callees
  | .varDef _ binding init => binding.callees ++ calleesOfOption init
  | .ifThen branch => branch.callees
  | .repeatLoop e body | .whileLoop e body | .untilLoop body e => e.callees ++ stmtCallees body
  | .tryCatch body binding handler => stmtCallees body ++ binding.callees ++ stmtCallees handler

/-- The names that a condition and what depends on it call. -/
@[simp] def Conditional.callees : Conditional → List String
  | .mk cond body otherwise _ => cond.callees ++ stmtCallees body ++ otherwise.callees

/-- The names that an alternative calls. -/
@[simp] def Otherwise.callees : Otherwise → List String
  | .absent => []
  | .block body => stmtCallees body
  | .chain branch => branch.callees

/-- The names that several statements call. -/
@[simp] def stmtCallees : List Stmt → List String
  | [] => []
  | s :: ss => s.callees ++ stmtCallees ss

end

/-- The names that the body of a function calls. -/
@[simp] def Item.callees : Item → List String
  | .function _ body => stmtCallees body
  | _ => []

/-! ### Functions of the target -/

/-- The functions of the target that emitted code calls without declaring them. -/
def builtins : List String :=
  ["null", "null?", "empty_tuple", "begin_cell", "end_cell", "begin_parse", "end_parse",
    "store_int", "store_uint", "store_coins", "store_ref", "store_slice", "store_builder",
    "store_dict", "load_int", "load_uint", "load_coins", "load_ref", "load_bits", "load_dict",
    "load_msg_addr", "preload_uint", "skip_bits", "slice_bits", "equal_slice_bits", "cell_hash",
    "slice_hash", "string_hash", "udict_get_ref?", "throw", "throw_if", "throw_unless",
    "get_data", "set_data", "my_address", "now", "min", "max", "abs"]

/-- The function of the target that replaces the data of the contract. -/
@[simp] def dataWriter : String := "set_data"

/-- A function of the target that leaves the data of the contract alone, or a name that has been
declared. -/
def Declared (deps : String → Prop) (name : String) : Prop :=
  name ∈ builtins ∧ name ≠ dataWriter ∨ deps name

variable {deps more : String → Prop}

theorem Declared.mono {name : String} (h : Declared deps name) (hmore : deps name → more name) :
    Declared more name := h.imp_right hmore

/-! ### Declared expressions -/

/-- Every call of an expression is declared. -/
def Expr.Declared (deps : String → Prop) (e : Expr) : Prop :=
  ∀ name ∈ e.callees, Target.Declared deps name

theorem mem_calleesOf {name : String} {es : List Expr} :
    name ∈ calleesOf es ↔ ∃ e ∈ es, name ∈ e.callees := by
  induction es with
  | nil => simp [calleesOf]
  | cons e es ih => simp [calleesOf, ih]

theorem declared_calleesOf {es : List Expr} :
    (∀ name ∈ calleesOf es, Target.Declared deps name) ↔ ∀ e ∈ es, e.Declared deps := by
  simp only [mem_calleesOf, Expr.Declared]
  constructor
  · intro h e he name hname
    exact h name ⟨e, he, hname⟩
  · rintro h name ⟨e, he, hname⟩
    exact h e he name hname

namespace Expr

@[simp] theorem declared_int {v : Int} : (Expr.int v).Declared deps := by
  simp [Expr.Declared, Expr.callees]

@[simp] theorem declared_bool {b : Bool} : (Expr.bool b).Declared deps := by
  simp [Expr.Declared, Expr.callees]

@[simp] theorem declared_ident {name : String} : (Expr.ident name).Declared deps := by
  simp [Expr.Declared, Expr.callees]

@[simp] theorem declared_hole : Expr.hole.Declared deps := by
  simp [Expr.Declared, Expr.callees]

@[simp] theorem declared_call {callee : String} {args : List Expr} :
    (Expr.call callee args).Declared deps ↔
      Target.Declared deps callee ∧ ∀ e ∈ args, e.Declared deps := by
  rw [← declared_calleesOf]
  simp [Expr.Declared, Expr.callees]

@[simp] theorem declared_methodCall {receiver : Expr} {method : String} {args : List Expr}
    {modifying : Bool} :
    (Expr.methodCall receiver method args modifying).Declared deps ↔
      Target.Declared deps method ∧ receiver.Declared deps ∧ ∀ e ∈ args, e.Declared deps := by
  rw [← declared_calleesOf]
  simp [Expr.Declared, Expr.callees, or_imp, forall_and]

@[simp] theorem declared_assign {lhs rhs : Expr} :
    (Expr.assign lhs rhs).Declared deps ↔ lhs.Declared deps ∧ rhs.Declared deps := by
  simp [Expr.Declared, Expr.callees, or_imp, forall_and]

@[simp] theorem declared_augmentedAssign {lhs rhs : Expr} {op : AugmentedOp} :
    (Expr.augmentedAssign lhs op rhs).Declared deps ↔
      lhs.Declared deps ∧ rhs.Declared deps := by
  simp [Expr.Declared, Expr.callees, or_imp, forall_and]

@[simp] theorem declared_binary {lhs rhs : Expr} {op : BinaryOp} :
    (Expr.binary op lhs rhs).Declared deps ↔ lhs.Declared deps ∧ rhs.Declared deps := by
  simp [Expr.Declared, Expr.callees, or_imp, forall_and]

@[simp] theorem declared_ternary {cond onTrue onFalse : Expr} :
    (Expr.ternary cond onTrue onFalse).Declared deps ↔
      cond.Declared deps ∧ onTrue.Declared deps ∧ onFalse.Declared deps := by
  simp [Expr.Declared, Expr.callees, or_imp, forall_and]

@[simp] theorem declared_unary {operand : Expr} {op : UnaryOp} :
    (Expr.unary op operand).Declared deps ↔ operand.Declared deps := by
  simp [Expr.Declared, Expr.callees]

@[simp] theorem declared_tensor {items : List Expr} :
    (Expr.tensor items).Declared deps ↔ ∀ e ∈ items, e.Declared deps := by
  rw [← declared_calleesOf]
  simp [Expr.Declared, Expr.callees]

end Expr

/-! ### Declared statements -/

/-- Every call of a statement is declared. -/
def Stmt.Declared (deps : String → Prop) (s : Stmt) : Prop :=
  ∀ name ∈ s.callees, Target.Declared deps name

/-- Every call of an alternative is declared. -/
def Otherwise.Declared (deps : String → Prop) (o : Otherwise) : Prop :=
  ∀ name ∈ o.callees, Target.Declared deps name

theorem mem_stmtCallees {name : String} {ss : List Stmt} :
    name ∈ stmtCallees ss ↔ ∃ s ∈ ss, name ∈ s.callees := by
  induction ss with
  | nil => simp [stmtCallees]
  | cons s ss ih => simp [stmtCallees, ih]

theorem declared_stmtCallees {ss : List Stmt} :
    (∀ name ∈ stmtCallees ss, Target.Declared deps name) ↔ ∀ s ∈ ss, s.Declared deps := by
  simp only [mem_stmtCallees, Stmt.Declared]
  constructor
  · intro h s hs name hname
    exact h name ⟨s, hs, hname⟩
  · rintro h name ⟨s, hs, hname⟩
    exact h s hs name hname

namespace Stmt

@[simp] theorem declared_expr {e : Expr} : (Stmt.expr e).Declared deps ↔ e.Declared deps := by
  simp [Stmt.Declared, Stmt.callees, Expr.Declared]

@[simp] theorem declared_varDef {ty : Option Ty} {binding init : Expr} :
    (Stmt.varDef ty binding (some init)).Declared deps ↔
      binding.Declared deps ∧ init.Declared deps := by
  simp [Stmt.Declared, Stmt.callees, calleesOfOption, Expr.Declared, or_imp, forall_and]

@[simp] theorem declared_ifThen {cond : Expr} {body : List Stmt} {otherwise : Otherwise}
    {negated : Bool} :
    (Stmt.ifThen (.mk cond body otherwise negated)).Declared deps ↔
      cond.Declared deps ∧ (∀ s ∈ body, s.Declared deps) ∧ otherwise.Declared deps := by
  rw [← declared_stmtCallees]
  simp [Stmt.Declared, Stmt.callees, Conditional.callees, Expr.Declared, Otherwise.Declared,
    or_imp, forall_and]

@[simp] theorem declared_repeatLoop {count : Expr} {body : List Stmt} :
    (Stmt.repeatLoop count body).Declared deps ↔
      count.Declared deps ∧ ∀ s ∈ body, s.Declared deps := by
  rw [← declared_stmtCallees]
  simp [Stmt.Declared, Stmt.callees, Expr.Declared, or_imp, forall_and]

@[simp] theorem declared_whileLoop {cond : Expr} {body : List Stmt} :
    (Stmt.whileLoop cond body).Declared deps ↔
      cond.Declared deps ∧ ∀ s ∈ body, s.Declared deps := by
  rw [← declared_stmtCallees]
  simp [Stmt.Declared, Stmt.callees, Expr.Declared, or_imp, forall_and]

@[simp] theorem declared_untilLoop {cond : Expr} {body : List Stmt} :
    (Stmt.untilLoop body cond).Declared deps ↔
      cond.Declared deps ∧ ∀ s ∈ body, s.Declared deps := by
  rw [← declared_stmtCallees]
  simp [Stmt.Declared, Stmt.callees, Expr.Declared, or_imp, forall_and]

@[simp] theorem declared_tryCatch {body handler : List Stmt} {binding : Expr} :
    (Stmt.tryCatch body binding handler).Declared deps ↔
      (∀ s ∈ body, s.Declared deps) ∧ binding.Declared deps ∧ ∀ s ∈ handler, s.Declared deps := by
  rw [← declared_stmtCallees, ← declared_stmtCallees]
  simp [Stmt.Declared, Stmt.callees, Expr.Declared, or_imp, forall_and]

end Stmt

namespace Otherwise

@[simp] theorem declared_absent : Otherwise.absent.Declared deps := by
  simp [Otherwise.Declared, Otherwise.callees]

@[simp] theorem declared_block {body : List Stmt} :
    (Otherwise.block body).Declared deps ↔ ∀ s ∈ body, s.Declared deps := by
  rw [← declared_stmtCallees]
  simp [Otherwise.Declared, Otherwise.callees]

@[simp] theorem declared_chain {branch : Conditional} :
    (Otherwise.chain branch).Declared deps ↔ (Stmt.ifThen branch).Declared deps := by
  simp [Otherwise.Declared, Stmt.Declared, Otherwise.callees, Stmt.callees]

end Otherwise

/-! ### Short constructors -/

@[simp] theorem declared_id {name : String} : (id name).Declared deps := Expr.declared_ident

@[simp] theorem declared_number {v : Int} : (int v).Declared deps := Expr.declared_int

@[simp] theorem declared_called {callee : String} {args : List Expr} :
    (call callee args).Declared deps ↔
      Target.Declared deps callee ∧ ∀ e ∈ args, e.Declared deps := Expr.declared_call

@[simp] theorem declared_method {receiver : Expr} {name : String} {args : List Expr} :
    (method receiver name args).Declared deps ↔
      Target.Declared deps name ∧ receiver.Declared deps ∧ ∀ e ∈ args, e.Declared deps :=
  Expr.declared_methodCall

@[simp] theorem declared_modify {receiver : Expr} {name : String} {args : List Expr} :
    (modify receiver name args).Declared deps ↔
      Target.Declared deps name ∧ receiver.Declared deps ∧ ∀ e ∈ args, e.Declared deps :=
  Expr.declared_methodCall

@[simp] theorem declared_eq {lhs rhs : Expr} :
    (eq lhs rhs).Declared deps ↔ lhs.Declared deps ∧ rhs.Declared deps := Expr.declared_binary

@[simp] theorem declared_not {operand : Expr} :
    (not operand).Declared deps ↔ operand.Declared deps := Expr.declared_unary

@[simp] theorem declared_null : null.Declared deps := by
  simp [null, Target.Declared, builtins]

@[simp] theorem declared_isNull {value : Expr} :
    (isNull value).Declared deps ↔ value.Declared deps := by
  simp [isNull, Target.Declared, builtins]

@[simp] theorem declared_emptyTuple : emptyTuple.Declared deps := by
  simp [emptyTuple, Target.Declared, builtins]

@[simp] theorem declared_beginCell : beginCell.Declared deps := by
  simp [beginCell, Target.Declared, builtins]

@[simp] theorem declared_endCell {builder : Expr} :
    (endCell builder).Declared deps ↔ builder.Declared deps := by
  simp [endCell, Target.Declared, builtins]

@[simp] theorem declared_beginParse {cell : Expr} :
    (beginParse cell).Declared deps ↔ cell.Declared deps := by
  simp [beginParse, Target.Declared, builtins]

@[simp] theorem declared_ret {e : Expr} : (ret e).Declared deps ↔ e.Declared deps := Iff.rfl

@[simp] theorem declared_assignment {lhs rhs : Expr} :
    (assign lhs rhs).Declared deps ↔ lhs.Declared deps ∧ rhs.Declared deps := by
  simp [assign]

@[simp] theorem declared_var {binding init : Expr} :
    (var binding init).Declared deps ↔ binding.Declared deps ∧ init.Declared deps :=
  Stmt.declared_varDef

@[simp] theorem declared_typedVar {ty : Ty} {name : String} {init : Expr} :
    (typedVar ty name init).Declared deps ↔ init.Declared deps := by
  simp [typedVar]

@[simp] theorem declared_conditional {cond : Expr} {body : List Stmt} :
    (ifThen cond body).Declared deps ↔ cond.Declared deps ∧ ∀ s ∈ body, s.Declared deps := by
  simp [ifThen]

@[simp] theorem declared_ifElse {cond : Expr} {body otherwise : List Stmt} :
    (ifElse cond body otherwise).Declared deps ↔
      cond.Declared deps ∧ (∀ s ∈ body, s.Declared deps) ∧ ∀ s ∈ otherwise, s.Declared deps := by
  simp [ifElse]

@[simp] theorem declared_throwUnless {code : Nat} {cond : Expr} :
    (throwUnless code cond).Declared deps ↔ cond.Declared deps := by
  simp [throwUnless, Target.Declared, builtins]

@[simp] theorem declared_throwIf {code : Nat} {cond : Expr} :
    (throwIf code cond).Declared deps ↔ cond.Declared deps := by
  simp [throwIf, Target.Declared, builtins]

/-! ### Items -/

namespace Signature

variable {s : Signature}

@[simp] theorem name_param {ty : Ty} {name : String} : (s.param ty name).name = s.name := rfl

@[simp] theorem name_returning {ty : Ty} : (s.returning ty).name = s.name := rfl

@[simp] theorem name_generic {vars : List String} : (s.generic vars).name = s.name := rfl

@[simp] theorem name_withAttribute {a : Attribute} : (s.withAttribute a).name = s.name := by
  unfold withAttribute
  split <;> rfl

@[simp] theorem name_inline : s.inline.name = s.name := name_withAttribute

@[simp] theorem name_impure : s.impure.name = s.name := name_withAttribute

@[simp] theorem name_inlineIf {cond : Bool} : (s.inlineIf cond).name = s.name := by
  cases cond <;> simp [inlineIf]

@[simp] theorem params_withAttribute {a : Attribute} : (s.withAttribute a).params = s.params := by
  unfold withAttribute
  split <;> rfl

@[simp] theorem params_inline : s.inline.params = s.params := params_withAttribute

@[simp] theorem params_impure : s.impure.params = s.params := params_withAttribute

@[simp] theorem params_inlineIf {cond : Bool} : (s.inlineIf cond).params = s.params := by
  cases cond <;> simp [inlineIf]

@[simp] theorem params_param {ty : Ty} {name : String} :
    (s.param ty name).params = s.params ++ [⟨ty, name⟩] := rfl

@[simp] theorem params_returning {ty : Ty} : (s.returning ty).params = s.params := rfl

@[simp] theorem name?_define {body : List Stmt} : (s.define body).name? = some s.name := rfl

end Signature

/-- Every call in the body of a function is declared. -/
def Item.Declared (deps : String → Prop) (item : Item) : Prop :=
  ∀ name ∈ item.callees, Target.Declared deps name

theorem Item.Declared.mono {item : Item} (h : item.Declared deps) (hmore : ∀ name, deps name → more name) :
    item.Declared more := fun name hname => (h name hname).mono (hmore name)

@[simp] theorem Item.declared_asm {s : Signature} {instructions : List String} :
    (Item.asm s instructions).Declared deps := by
  simp [Item.Declared]

@[simp] theorem Item.declared_define {s : Signature} {body : List Stmt} :
    (s.define body).Declared deps ↔ ∀ stmt ∈ body, stmt.Declared deps := declared_stmtCallees

end Target

end CellCompiler
