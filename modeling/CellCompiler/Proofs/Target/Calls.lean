import CellCompiler.Emission.Output
import CellCompiler.Proofs.Target.Callees

/-!
# Calls in target code

* `Target.CallSite` is a call with what has to fit the function that is called, and `CallSite.Fits`
  says that it fits;
* `Item.calls` lists the calls in the body of a function;
* `Expr.EveryCall` and `Stmt.EveryCall` say that all calls have a property; simp lemmas take them
  apart;
* `Output.CallsFit`: in a module, all calls fit the functions of the module that they name.
-/

namespace CellCompiler

namespace Target

/-! ### Call sites -/

/-- A call of a function. -/
structure CallSite where
  callee : String
  /-- Number of arguments; what a call is applied to is one of them. -/
  arity : Nat
  /-- The call assigns to what it is applied to. -/
  modifying : Bool
  deriving DecidableEq

/-- The function gives back two values, the first of the type of its first parameter. -/
def Signature.threads (s : Signature) : Bool :=
  match s.params, s.returns with
  | p :: _, .tensor [first, _] => p.ty == first
  | _, _ => false

/-- The call has as many arguments as the function has parameters, and if it assigns to what it is
applied to, then the function gives that back. -/
def CallSite.Fits (site : CallSite) (s : Signature) : Prop :=
  site.arity = s.params.length ∧ (site.modifying = true → s.threads = true)

instance (site : CallSite) (s : Signature) : Decidable (site.Fits s) :=
  inferInstanceAs (Decidable (_ ∧ _))

mutual

/-- The calls in an expression. -/
@[simp] def Expr.calls : Expr → List CallSite
  | .int _ | .bool _ | .ident _ | .hole => []
  | .call callee args => ⟨callee, args.length, false⟩ :: callsOf args
  | .methodCall receiver method args modifying =>
    ⟨method, args.length + 1, modifying⟩ :: receiver.calls ++ callsOf args
  | .assign lhs rhs | .augmentedAssign lhs _ rhs | .binary _ lhs rhs => lhs.calls ++ rhs.calls
  | .ternary cond onTrue onFalse => cond.calls ++ onTrue.calls ++ onFalse.calls
  | .unary _ operand => operand.calls
  | .tensor items | .tuple items => callsOf items

/-- The calls in several expressions. -/
@[simp] def callsOf : List Expr → List CallSite
  | [] => []
  | e :: es => e.calls ++ callsOf es

end

/-- The calls in an expression, if there is one. -/
@[simp] def callsOfOption : Option Expr → List CallSite
  | none => []
  | some e => e.calls

mutual

/-- The calls in a statement. -/
@[simp] def Stmt.calls : Stmt → List CallSite
  | .block body => stmtCalls body
  | .ret value => callsOfOption value
  | .expr e => e.calls
  | .varDef _ binding init => binding.calls ++ callsOfOption init
  | .ifThen branch => branch.calls
  | .repeatLoop e body | .whileLoop e body | .untilLoop body e => e.calls ++ stmtCalls body
  | .tryCatch body binding handler => stmtCalls body ++ binding.calls ++ stmtCalls handler

/-- The calls in a condition and what depends on it. -/
@[simp] def Conditional.calls : Conditional → List CallSite
  | .mk cond body otherwise _ => cond.calls ++ stmtCalls body ++ otherwise.calls

/-- The calls in an alternative. -/
@[simp] def Otherwise.calls : Otherwise → List CallSite
  | .absent => []
  | .block body => stmtCalls body
  | .chain branch => branch.calls

/-- The calls in several statements. -/
@[simp] def stmtCalls : List Stmt → List CallSite
  | [] => []
  | s :: ss => s.calls ++ stmtCalls ss

end

/-- The calls in the body of a function. -/
@[simp] def Item.calls : Item → List CallSite
  | .function _ body => stmtCalls body
  | _ => []

/-! ### All calls of an expression -/

variable {P : CallSite → Prop}

/-- Every call in an expression has a property. -/
def Expr.EveryCall (P : CallSite → Prop) (e : Expr) : Prop := ∀ site ∈ e.calls, P site

theorem every_callsOf {es : List Expr} :
    (∀ site ∈ callsOf es, P site) ↔ ∀ e ∈ es, e.EveryCall P := by
  induction es with
  | nil => simp [callsOf]
  | cons e es ih => simp [callsOf, Expr.EveryCall, or_imp, forall_and, ih]

namespace Expr

@[simp] theorem everyCall_int {v : Int} : (Expr.int v).EveryCall P := by simp [EveryCall, calls]

@[simp] theorem everyCall_bool {b : Bool} : (Expr.bool b).EveryCall P := by simp [EveryCall, calls]

@[simp] theorem everyCall_ident {name : String} : (Expr.ident name).EveryCall P := by
  simp [EveryCall, calls]

@[simp] theorem everyCall_hole : Expr.hole.EveryCall P := by simp [EveryCall, calls]

@[simp] theorem everyCall_call {callee : String} {args : List Expr} :
    (Expr.call callee args).EveryCall P ↔
      P ⟨callee, args.length, false⟩ ∧ ∀ e ∈ args, e.EveryCall P := by
  rw [← every_callsOf]
  simp [EveryCall, calls]

@[simp] theorem everyCall_methodCall {receiver : Expr} {method : String} {args : List Expr}
    {modifying : Bool} :
    (Expr.methodCall receiver method args modifying).EveryCall P ↔
      P ⟨method, args.length + 1, modifying⟩ ∧ receiver.EveryCall P ∧ ∀ e ∈ args, e.EveryCall P := by
  rw [← every_callsOf]
  simp [EveryCall, calls, or_imp, forall_and]

@[simp] theorem everyCall_assign {lhs rhs : Expr} :
    (Expr.assign lhs rhs).EveryCall P ↔ lhs.EveryCall P ∧ rhs.EveryCall P := by
  simp [EveryCall, calls, or_imp, forall_and]

@[simp] theorem everyCall_augmentedAssign {lhs rhs : Expr} {op : AugmentedOp} :
    (Expr.augmentedAssign lhs op rhs).EveryCall P ↔ lhs.EveryCall P ∧ rhs.EveryCall P := by
  simp [EveryCall, calls, or_imp, forall_and]

@[simp] theorem everyCall_binary {lhs rhs : Expr} {op : BinaryOp} :
    (Expr.binary op lhs rhs).EveryCall P ↔ lhs.EveryCall P ∧ rhs.EveryCall P := by
  simp [EveryCall, calls, or_imp, forall_and]

@[simp] theorem everyCall_ternary {cond onTrue onFalse : Expr} :
    (Expr.ternary cond onTrue onFalse).EveryCall P ↔
      cond.EveryCall P ∧ onTrue.EveryCall P ∧ onFalse.EveryCall P := by
  simp [EveryCall, calls, or_imp, forall_and]

@[simp] theorem everyCall_unary {operand : Expr} {op : UnaryOp} :
    (Expr.unary op operand).EveryCall P ↔ operand.EveryCall P := by
  simp [EveryCall, calls]

@[simp] theorem everyCall_tensor {items : List Expr} :
    (Expr.tensor items).EveryCall P ↔ ∀ e ∈ items, e.EveryCall P := by
  rw [← every_callsOf]
  simp [EveryCall, calls]

end Expr

/-! ### All calls of a statement -/

/-- Every call in a statement has a property. -/
def Stmt.EveryCall (P : CallSite → Prop) (s : Stmt) : Prop := ∀ site ∈ s.calls, P site

/-- Every call in an alternative has a property. -/
def Otherwise.EveryCall (P : CallSite → Prop) (o : Otherwise) : Prop := ∀ site ∈ o.calls, P site

theorem every_stmtCalls {ss : List Stmt} :
    (∀ site ∈ stmtCalls ss, P site) ↔ ∀ s ∈ ss, s.EveryCall P := by
  induction ss with
  | nil => simp [stmtCalls]
  | cons s ss ih => simp [stmtCalls, Stmt.EveryCall, or_imp, forall_and, ih]

namespace Stmt

@[simp] theorem everyCall_expr {e : Expr} : (Stmt.expr e).EveryCall P ↔ e.EveryCall P := by
  simp [EveryCall, calls, Expr.EveryCall]

@[simp] theorem everyCall_varDef {ty : Option Ty} {binding init : Expr} :
    (Stmt.varDef ty binding (some init)).EveryCall P ↔ binding.EveryCall P ∧ init.EveryCall P := by
  simp [EveryCall, calls, callsOfOption, Expr.EveryCall, or_imp, forall_and]

@[simp] theorem everyCall_ifThen {cond : Expr} {body : List Stmt} {otherwise : Otherwise}
    {negated : Bool} :
    (Stmt.ifThen (.mk cond body otherwise negated)).EveryCall P ↔
      cond.EveryCall P ∧ (∀ s ∈ body, s.EveryCall P) ∧ otherwise.EveryCall P := by
  rw [← every_stmtCalls]
  simp [EveryCall, calls, Conditional.calls, Expr.EveryCall, Otherwise.EveryCall, or_imp, forall_and]

@[simp] theorem everyCall_repeatLoop {count : Expr} {body : List Stmt} :
    (Stmt.repeatLoop count body).EveryCall P ↔
      count.EveryCall P ∧ ∀ s ∈ body, s.EveryCall P := by
  rw [← every_stmtCalls]
  simp [EveryCall, calls, Expr.EveryCall, or_imp, forall_and]

@[simp] theorem everyCall_whileLoop {cond : Expr} {body : List Stmt} :
    (Stmt.whileLoop cond body).EveryCall P ↔
      cond.EveryCall P ∧ ∀ s ∈ body, s.EveryCall P := by
  rw [← every_stmtCalls]
  simp [EveryCall, calls, Expr.EveryCall, or_imp, forall_and]

@[simp] theorem everyCall_untilLoop {cond : Expr} {body : List Stmt} :
    (Stmt.untilLoop body cond).EveryCall P ↔
      cond.EveryCall P ∧ ∀ s ∈ body, s.EveryCall P := by
  rw [← every_stmtCalls]
  simp [EveryCall, calls, Expr.EveryCall, or_imp, forall_and]

@[simp] theorem everyCall_tryCatch {body handler : List Stmt} {binding : Expr} :
    (Stmt.tryCatch body binding handler).EveryCall P ↔
      (∀ s ∈ body, s.EveryCall P) ∧ binding.EveryCall P ∧ ∀ s ∈ handler, s.EveryCall P := by
  rw [← every_stmtCalls, ← every_stmtCalls]
  simp [EveryCall, calls, Expr.EveryCall, or_imp, forall_and]

end Stmt

namespace Otherwise

@[simp] theorem everyCall_absent : Otherwise.absent.EveryCall P := by simp [EveryCall, calls]

@[simp] theorem everyCall_block {body : List Stmt} :
    (Otherwise.block body).EveryCall P ↔ ∀ s ∈ body, s.EveryCall P := by
  rw [← every_stmtCalls]
  simp [EveryCall, calls]

@[simp] theorem everyCall_chain {branch : Conditional} :
    (Otherwise.chain branch).EveryCall P ↔ (Stmt.ifThen branch).EveryCall P := by
  simp [EveryCall, Stmt.EveryCall, calls, Stmt.calls]

end Otherwise

/-! ### Short constructors -/

@[simp] theorem everyCall_id {name : String} : (id name).EveryCall P := Expr.everyCall_ident

@[simp] theorem everyCall_number {v : Int} : (int v).EveryCall P := Expr.everyCall_int

@[simp] theorem everyCall_called {callee : String} {args : List Expr} :
    (call callee args).EveryCall P ↔ P ⟨callee, args.length, false⟩ ∧ ∀ e ∈ args, e.EveryCall P :=
  Expr.everyCall_call

@[simp] theorem everyCall_method {receiver : Expr} {name : String} {args : List Expr} :
    (method receiver name args).EveryCall P ↔
      P ⟨name, args.length + 1, false⟩ ∧ receiver.EveryCall P ∧ ∀ e ∈ args, e.EveryCall P :=
  Expr.everyCall_methodCall

@[simp] theorem everyCall_modify {receiver : Expr} {name : String} {args : List Expr} :
    (modify receiver name args).EveryCall P ↔
      P ⟨name, args.length + 1, true⟩ ∧ receiver.EveryCall P ∧ ∀ e ∈ args, e.EveryCall P :=
  Expr.everyCall_methodCall

@[simp] theorem everyCall_eq {lhs rhs : Expr} :
    (eq lhs rhs).EveryCall P ↔ lhs.EveryCall P ∧ rhs.EveryCall P := Expr.everyCall_binary

@[simp] theorem everyCall_not {operand : Expr} :
    (not operand).EveryCall P ↔ operand.EveryCall P := Expr.everyCall_unary

@[simp] theorem everyCall_ret {e : Expr} : (ret e).EveryCall P ↔ e.EveryCall P := Iff.rfl

@[simp] theorem everyCall_assignment {lhs rhs : Expr} :
    (assign lhs rhs).EveryCall P ↔ lhs.EveryCall P ∧ rhs.EveryCall P := by
  simp [assign]

@[simp] theorem everyCall_var {binding init : Expr} :
    (var binding init).EveryCall P ↔ binding.EveryCall P ∧ init.EveryCall P := Stmt.everyCall_varDef

@[simp] theorem everyCall_typedVar {ty : Ty} {name : String} {init : Expr} :
    (typedVar ty name init).EveryCall P ↔ init.EveryCall P := by
  simp [typedVar]

@[simp] theorem everyCall_conditional {cond : Expr} {body : List Stmt} :
    (ifThen cond body).EveryCall P ↔ cond.EveryCall P ∧ ∀ s ∈ body, s.EveryCall P := by
  simp [ifThen]

@[simp] theorem everyCall_ifElse {cond : Expr} {body otherwise : List Stmt} :
    (ifElse cond body otherwise).EveryCall P ↔
      cond.EveryCall P ∧ (∀ s ∈ body, s.EveryCall P) ∧ ∀ s ∈ otherwise, s.EveryCall P := by
  simp [ifElse]

/-! ### Items -/

/-- Every call in the body of a function has a property. -/
def Item.EveryCall (P : CallSite → Prop) (item : Item) : Prop := ∀ site ∈ item.calls, P site

@[simp] theorem Item.everyCall_asm {s : Signature} {instructions : List String} :
    (Item.asm s instructions).EveryCall P := by
  simp [EveryCall, calls]

@[simp] theorem Item.everyCall_define {s : Signature} {body : List Stmt} :
    (s.define body).EveryCall P ↔ ∀ stmt ∈ body, stmt.EveryCall P := every_stmtCalls

namespace Signature

variable {s : Signature}

@[simp] theorem returns_returning {ty : Ty} : (s.returning ty).returns = ty := rfl

@[simp] theorem returns_withAttribute {a : Attribute} : (s.withAttribute a).returns = s.returns := by
  unfold withAttribute
  split <;> rfl

@[simp] theorem returns_inline : s.inline.returns = s.returns := returns_withAttribute

@[simp] theorem returns_impure : s.impure.returns = s.returns := returns_withAttribute

@[simp] theorem returns_inlineIf {cond : Bool} : (s.inlineIf cond).returns = s.returns := by
  cases cond <;> simp [inlineIf]

@[simp] theorem returns_param {ty : Ty} {name : String} : (s.param ty name).returns = s.returns := rfl

@[simp] theorem signature?_define {body : List Stmt} : (s.define body).signature? = some s := rfl

/-- The first parameter and the two values that are given back. -/
theorem threads_of_returns {p : Param} {ps : List Param} {result : Ty} (hparams : s.params = p :: ps)
    (hreturns : s.returns = .tensor [p.ty, result]) : s.threads = true := by
  simp [threads, hparams, hreturns]

end Signature

end Target

namespace Emission

/-- The head of a function of a module. -/
def Entry.signature? (f : Entry) : Option Target.Signature := f.definition.bind Target.Item.signature?

/-- Every call of a function of the module fits the head of that function, but for exempt names. -/
def Output.CallsFit (out : Output) (exempt : String → Prop) : Prop :=
  ∀ f ∈ out.functions, ∀ item ∈ f.definition, ∀ site ∈ item.calls, ¬ exempt site.callee →
    ∀ g ∈ out.functions, ∀ s ∈ g.signature?, s.name = site.callee → site.Fits s

instance (out : Output) (exempt : String → Prop) [DecidablePred exempt] : Decidable (out.CallsFit exempt) :=
  inferInstanceAs (Decidable (∀ f ∈ out.functions, ∀ item ∈ f.definition, ∀ site ∈ item.calls,
    ¬ exempt site.callee → ∀ g ∈ out.functions, ∀ s ∈ g.signature?, s.name = site.callee → site.Fits s))

end Emission

end CellCompiler
