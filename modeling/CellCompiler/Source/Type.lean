/-!
# Types of the source language

* `PrimitiveKind` lists the built-in types;
* `TypeRef` is the static type of an expression, a binding or a field, and `TypeRef.text` its
  spelling in messages.
-/

namespace CellCompiler

/-- The built-in types. -/
inductive PrimitiveKind where
  | int
  | bool
  | cell
  | slice
  | builder
  | address
  | string
  | stringBuilder
  deriving DecidableEq, Repr

namespace PrimitiveKind

/-- All built-in types in their usual order. -/
def all : List PrimitiveKind :=
  [int, bool, cell, slice, builder, address, string, stringBuilder]

/-- The name under which a built-in type is declared. -/
def typeName : PrimitiveKind → String
  | int => "Int"
  | bool => "Bool"
  | cell => "Cell"
  | slice => "Slice"
  | builder => "Builder"
  | address => "Address"
  | string => "String"
  | stringBuilder => "StringBuilder"

end PrimitiveKind

/-- The static type of an expression, a binding or a field. -/
inductive TypeRef where
  /-- A declared type; an optional one has a null value as well. -/
  | named (name : String) (optional : Bool)
  /-- A dictionary; key and value may override their storage format. -/
  | map (key : String) (keyAs : Option String) (value : String) (valueAs : Option String)
  /-- The part of a message that survives a bounce. -/
  | bounced (name : String)
  | void
  | null
  deriving DecidableEq, Repr

namespace TypeRef

/-- A declared type without the null value. -/
def plain (name : String) : TypeRef := named name false

/-- The type has a null value by its marker. -/
def isOptional : TypeRef → Bool
  | named _ optional => optional
  | _ => false

/-- The type is a dictionary. -/
def isMap : TypeRef → Bool
  | map .. => true
  | _ => false

/-- The type of the null literal. -/
def isNull : TypeRef → Bool
  | null => true
  | _ => false

/-- The declared type that a reference names. -/
def name? : TypeRef → Option String
  | named name _ => some name
  | bounced name => some name
  | _ => none

/-- The same type without the optional marker. -/
def nonOptional : TypeRef → TypeRef
  | named name _ => plain name
  | other => other

/-- A storage format as it follows a type name. -/
def formatText : Option String → String
  | some format => " as " ++ format
  | none => ""

/-- The spelling of a type. -/
def text : TypeRef → String
  | named name optional => name ++ if optional then "?" else ""
  | map key keyAs value valueAs =>
    "map<" ++ key ++ formatText keyAs ++ ", " ++ value ++ formatText valueAs ++ ">"
  | bounced name => "bounced<" ++ name ++ ">"
  | void => "<void>"
  | null => "<null>"

@[simp] theorem isOptional_nonOptional (ty : TypeRef) : ty.nonOptional.isOptional = false := by
  cases ty <;> rfl

end TypeRef

end CellCompiler
