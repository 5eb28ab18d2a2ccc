import CellCompiler.Plan.Basic

/-!
# Errors of planning

* `Plan.Fault` is what can be wrong with the plan of one record;
* `Plan.Error` is what can go wrong when plans are made, looked up or checked.
-/

namespace CellCompiler

namespace Plan

/-- Why a field cannot be stored. -/
inductive Unsupported where
  | type (text : String)
  | intFormat (format : String)
  | stringBuilder
  | optionalRemainder
  deriving DecidableEq, Repr

/-- The wording of a reason. -/
def Unsupported.message : Unsupported → String
  | type text => s!"type {text} is not serializable"
  | intFormat format => s!"unknown integer format {format}"
  | stringBuilder => "StringBuilder is not serializable"
  | optionalRemainder => "optional fields cannot use the remaining format"

/-- What is wrong with the plan of a record. -/
inductive Fault where
  | embedsItself
  | doesNotFit (field : String)
  | unsupported (field : String) (reason : Unsupported)
  | chainMismatch
  | overBudget (index bits refs : Nat)
  | optionalRemainder (field : String)
  | remainderNotLast (field : String)
  | openStructNotLast (field : String)
  deriving DecidableEq, Repr

/-- The wording of a fault. -/
def Fault.message : Fault → String
  | embedsItself => "type embeds itself"
  | doesNotFit field => s!"field {field} does not fit in an empty cell"
  | unsupported field reason => s!"field {field}: {reason.message}"
  | chainMismatch => "flat operation list does not match the cell chain"
  | overBudget index bits refs => s!"cell {index} uses {bits} bits and {refs} refs"
  | optionalRemainder field => s!"field {field} cannot be both optional and remainder"
  | remainderNotLast field => s!"remainder field {field} must be the last field"
  | openStructNotLast field =>
    s!"inline struct field {field} ends with a remainder and must be the last field"

/-- What goes wrong with plans. -/
inductive Error where
  | unknownType (name : String)
  | missing (name : String)
  | invalid (typeName : String) (fault : Fault)
  /-- Records that contain each other in place have no finite extent: there is no answer. -/
  | endless
  deriving DecidableEq, Repr

/-- The wording of an error. -/
def Error.message : Error → String
  | unknownType name => s!"Unknown type: {name}"
  | missing name => s!"No allocation plan for {name}"
  | invalid typeName fault => s!"Invalid allocation for {typeName}: {fault.message}"
  | endless => "Endless allocation"

end Plan

namespace Plans

/-- The plan of a declared record. -/
def get (all : Plans) (name : String) : Except Plan.Error Plan :=
  match all.types.get? name with
  | some plan => .ok plan
  | none => .error (.missing name)

/-- The plan of the arguments that a contract is deployed with. -/
def getInitArgs (all : Plans) (contract : String) : Except Plan.Error Plan :=
  match all.initArgs.get? contract with
  | some plan => .ok plan
  | none => .error (.missing s!"{contract} init arguments")

end Plans

end CellCompiler
