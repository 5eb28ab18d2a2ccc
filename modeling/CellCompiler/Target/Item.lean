import CellCompiler.Target.Stmt

/-!
# Modules of the target language

* `Target.Signature` is the head of a function, made up step by step;
* `Target.Item` is one item of a module.
-/

namespace CellCompiler

namespace Target

/-- How a function is compiled or called. -/
inductive Attribute where
  | impure
  | inline
  | inlineRef
  /-- The function can be called from outside, under a number. -/
  | methodId (id : Option UInt32)
  deriving DecidableEq, Repr

/-- A parameter of a function. -/
structure Param where
  ty : Ty
  name : String
  deriving DecidableEq

/-- The head of a function. -/
structure Signature where
  name : String
  /-- Type variables. -/
  forAll : List String := []
  params : List Param := []
  returns : Ty := .unit
  attributes : List Attribute := []
  deriving DecidableEq

namespace Signature

/-- Add a parameter. -/
def param (s : Signature) (ty : Ty) (name : String) : Signature :=
  { s with params := s.params ++ [⟨ty, name⟩] }

/-- Add several parameters. -/
def withParams (s : Signature) (params : List Param) : Signature :=
  { s with params := s.params ++ params }

/-- Set the type of the result. -/
def returning (s : Signature) (ty : Ty) : Signature := { s with returns := ty }

/-- Add type variables. -/
def generic (s : Signature) (vars : List String) : Signature :=
  { s with forAll := s.forAll ++ vars }

/-- Add an attribute once. -/
def withAttribute (s : Signature) (a : Attribute) : Signature :=
  if s.attributes.contains a then s else { s with attributes := s.attributes ++ [a] }

/-- The function has effects. -/
def impure (s : Signature) : Signature := s.withAttribute .impure

/-- The function is copied to where it is called. -/
def inline (s : Signature) : Signature := s.withAttribute .inline

/-- The function is copied to where it is called if a condition holds. -/
def inlineIf (s : Signature) (cond : Bool) : Signature := if cond then s.inline else s

/-- Has an attribute. -/
def has (s : Signature) (a : Attribute) : Bool := s.attributes.contains a

/-- Is copied to where it is called. -/
def isInline (s : Signature) : Bool := s.has .inline

end Signature

/-- An item of a module. -/
inductive Item where
  | function (signature : Signature) (body : List Stmt)
  | declaration (signature : Signature)
  /-- A function given by machine instructions. -/
  | asm (signature : Signature) (instructions : List String)
  | constant (ty : Ty) (name : String) (value : Expr)
  | global (ty : Ty) (name : String)
  | comment (lines : List String)
  | includeFile (path : String)
  | pragma (text : String)
  deriving DecidableEq

namespace Item

/-- The head of a function. -/
def signature? : Item → Option Signature
  | function s _ | declaration s | asm s _ => some s
  | _ => none

/-- The name that an item introduces. -/
def name? : Item → Option String
  | function s _ | declaration s | asm s _ => some s.name
  | constant _ name _ => some name
  | global _ name => some name
  | _ => none

end Item

/-- The function with a body. -/
def Signature.define (s : Signature) (body : List Stmt) : Item := .function s body

end Target

end CellCompiler
