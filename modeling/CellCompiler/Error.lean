import CellCompiler.Address
import CellCompiler.Plan.Error
import CellCompiler.Source.Expr
import CellCompiler.Target.Outline

/-!
# Errors of compilation

* `Defect` is a violated assumption about the program or the compiler, `Misuse` a mistake in a
  program that passed type checking;
* `CompileError` is everything that ends a compilation, and `CompileError.message` the wording.
-/

namespace CellCompiler

/-- An assumption about the program that does not hold. -/
inductive Defect where
  | notAFunction (item : Target.Item)
  | constantCell (error : Cell.Error)
  | unknownHelper (name : String)
  | constantWithoutField (typeName field : String)
  | selfOutsideMethod
  | targetNotPath
  | argumentCount (name : String) (expected actual : Nat)
  | notAMap (ty : TypeRef)
  | mapArguments (method : String)
  | oneArgument (typeName method : String)
  | noArguments (method : String)
  | unknownFunction (name : String)
  | abstractFunction (name : String)
  | abstractMethod (name : String)
  | fieldAccess (field : String) (ty : TypeRef)
  | methodCall (method : String) (ty : TypeRef)
  | missingField (typeName field : String)
  | notAContractInit (name : String)
  | elseIfNotCondition
  | methodOwner (method : String) (ty : TypeRef)
  | unknownPlannedField (record field : String)
  | notAContract (name : String)
  | noOpcode (typeName : String)
  | getterWithoutBody (name : String)

/-- The wording of a defect. -/
def Defect.message : Defect → String
  | notAFunction item => s!"only functions can be registered, got {item.outline}"
  | constantCell e => s!"constant cell: {e.message}"
  | unknownHelper name => s!"unknown runtime helper {name}"
  | constantWithoutField typeName field => s!"constant {typeName} has no value for field {field}"
  | selfOutsideMethod => "self used outside of a method"
  | targetNotPath => "assignment target is not a path"
  | argumentCount name expected actual => s!"{name}() takes {expected} arguments, got {actual}"
  | notAMap ty => s!"expected a map, got {ty.text}"
  | mapArguments method => s!"wrong number of arguments for map method {method}"
  | oneArgument typeName method => s!"{typeName}.{method}() takes one argument"
  | noArguments method => s!"{method}() takes no arguments"
  | unknownFunction name => s!"unknown function {name}"
  | abstractFunction name => s!"abstract function {name} has no body"
  | abstractMethod name => s!"abstract method {name} has no body"
  | fieldAccess field ty => s!"field {field} accessed on {ty.text}"
  | methodCall method ty => s!"method {method} called on {ty.text}"
  | missingField typeName field => s!"{typeName} is built without field {field}"
  | notAContractInit name => s!"initOf applied to {name}, which is not a contract"
  | elseIfNotCondition => "else-if branch is not a condition"
  | methodOwner method ty => s!"method {method} is declared on {ty.text}"
  | unknownPlannedField record field => s!"allocation of {record} names unknown field {field}"
  | notAContract name => s!"{name} is not a contract"
  | noOpcode typeName => s!"{typeName} is received as a message but has no opcode"
  | getterWithoutBody name => s!"get-method {name} has no body"

/-- What a map cannot have as key or value. -/
inductive MapFault where
  | keyFormat (format : Option String)
  | keyType (name : String)
  | valueFormat (format : Option String)
  | valueType (name : String)
  deriving DecidableEq, Repr

/-- The wording of a fault. -/
def MapFault.message : MapFault → String
  | keyFormat format => s!"key format {Quoted.optionText format}"
  | keyType name => s!"key type {name}"
  | valueFormat format => s!"value format {Quoted.optionText format}"
  | valueType name => s!"value type {name}"

/-- A mistake in a program that passed type checking. -/
inductive Misuse where
  | requireMessage
  | hashOf (ty : TypeRef)
  | addressNotConstant
  | badAddress (fault : Address.Fault)
  | unsupportedMap (fault : MapFault)
  | unknownMapMethod (method : String)
  | mapReceiver (method : String)
  | unknownStaticMethod (typeName method : String)
  | callOnOptional (method : String) (ty : TypeRef)
  | unknownMethod (method typeName : String)
  | fixedReceiver (method : String)
  | notComparable (ty : TypeRef)

/-- The wording of a mistake. -/
def Misuse.message : Misuse → String
  | requireMessage => "require() expects a constant string message"
  | hashOf ty => s!"sha256() cannot hash {ty.text}"
  | addressNotConstant => "address() expects a constant string"
  | badAddress fault => s!"Invalid address: {fault.message}"
  | unsupportedMap fault => s!"unsupported map {fault.message}"
  | unknownMapMethod method => s!"unknown map method {method}"
  | mapReceiver method => s!"map method {method} needs a variable or field as receiver"
  | unknownStaticMethod typeName method => s!"unknown static method {typeName}.{method}"
  | callOnOptional method ty =>
    s!"cannot call {method} on a value of type {ty.text} before checking it for null"
  | unknownMethod method typeName => s!"unknown method {method} on {typeName}"
  | fixedReceiver method =>
    s!"{method} modifies its receiver, which must be a variable or a field"
  | notComparable ty => s!"values of type {ty.text} cannot be compared"

/-- Everything that ends a compilation. -/
inductive CompileError where
  | internal (defect : Defect) (loc : Option Location)
  | compilation (misuse : Misuse) (loc : Location)
  | missingDependencies (names : List String)
  | duplicateFunction (name : String)
  | dependencyCycle (path : List String)
  | unknownType (name : String)
  | plan (error : Plan.Error)
  /-- Types that contain each other have no layout: there is no answer. -/
  | endless

namespace CompileError

/-- A defect without a place. -/
def defect (d : Defect) : CompileError := internal d none

/-- An error of planning, told as an error of compilation. -/
def ofPlan : Plan.Error → CompileError
  | .unknownType name => unknownType name
  | e => plan e

/-- A place as it stands after the kind of an error. -/
def atPlace : Option Location → String
  | some loc => " at " ++ loc.text
  | none => ""

/-- The wording of an error. -/
def message : CompileError → String
  | internal d loc => s!"Internal compiler error{atPlace loc}: {d.message}"
  | compilation m loc => s!"Compilation error{atPlace (some loc)}: {m.message}"
  | missingDependencies names => "Missing dependencies: " ++ ", ".intercalate names
  | duplicateFunction name => s!"Function {name} is already registered"
  | dependencyCycle path => "Dependency cycle: " ++ " -> ".intercalate path
  | unknownType name => s!"Unknown type: {name}"
  | plan e => e.message
  | endless => "Endless layout"

end CompileError

end CellCompiler
