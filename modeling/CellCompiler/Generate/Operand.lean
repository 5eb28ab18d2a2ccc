import CellCompiler.Generate.Helper
import CellCompiler.Generate.Literal

/-!
# Scopes and operands

* `Scope` is what a body is lowered inside of;
* `Operand` is an operand of an expression together with the generator of its code, so that each
  kind of expression can decide whether, when and for which type its operands are lowered.
-/

namespace CellCompiler

namespace Generate

open Target

/-- What a body is lowered inside of. -/
structure Scope where
  /-- The type of `self`, if there is one. -/
  selfType : Option TypeRef := none
  /-- Results carry the changed `self` in front. -/
  mutates : Bool := false
  returns : TypeRef
  /-- The body makes the first state of a contract: a return gives back the state. -/
  init : Bool := false
  deriving DecidableEq

namespace Scope

/-- The body of a function. -/
def function (returns : TypeRef) : Scope := { returns }

/-- The body of a method. -/
def method (selfType : TypeRef) (mutates : Bool) (returns : TypeRef) : Scope :=
  { selfType := some selfType, mutates, returns }

/-- The body that makes the first state of a contract. -/
def initOf (contract : String) : Scope :=
  { selfType := some (.plain contract), returns := .void, init := true }

/-- The body of a message handler. -/
def handler (contract : String) : Scope := method (.plain contract) true .void

/-- The pattern that binds `self`. -/
def selfBinding (s : Scope) : Gen Target.Expr :=
  match s.selfType with
  | some ty => unpack ty Name.self
  | none => defect .selfOutsideMethod

/-- What a return gives back. -/
def returned (s : Scope) (value : Option Target.Expr) : Gen Target.Expr := do
  if s.init then s.selfBinding
  else
    let value := value.getD (.tensor [])
    if s.mutates then return .tensor [← s.selfBinding, value] else return value

end Scope

/-- An operand with the generator of its code. -/
structure Operand where
  source : Expr
  code : Gen Target.Expr

namespace Operand

/-- The static type. -/
def ty (o : Operand) : TypeRef := o.source.ty

/-- The place in the source text. -/
def loc (o : Operand) : Location := o.source.loc

end Operand

/-- Put code into a slot of type `target`: a record becomes optional where that is expected. -/
def castTo (target source : TypeRef) (code : Target.Expr) : Gen Target.Expr := do
  if !target.isOptional || source.isOptional || source.isNull then return code
  match ← structOf source with
  | some decl => callUsed (Name.asOptional decl.name) [code]
  | none => return code

/-- The code of an operand for a slot of a type. -/
def Operand.cast (o : Operand) (target : TypeRef) : Gen Target.Expr := do
  if o.source.isNullLiteral then return null
  castTo target o.ty (← o.code)

/-- The variables that a path stands for. -/
def lvalue (path : Expr) : Gen Target.Expr :=
  match path.path with
  | some segments => unpack path.ty (Name.path segments)
  | none => defectAt .targetNotPath path.loc

/-- The codes of arguments, each for the type of its parameter if there is one. -/
def arguments : List Operand → List TypeRef → Gen (List Target.Expr)
  | [], _ => return []
  | o :: os, [] => do
    let first ← o.code
    return first :: (← arguments os [])
  | o :: os, ty :: tys => do
    let first ← o.cast ty
    return first :: (← arguments os tys)

/-- The text of an operand that is constant. -/
def Operand.constantString (o : Operand) : Gen (Option String) := do
  match o.source with
  | .string _ text => return some text
  | e => return ((← read).evaluate e).bind Value.string?

end Generate

end CellCompiler
