/-!
# Types of the target language

The target is a stack language. A tensor is a run of stack entries, a tuple is one entry that holds
several values.
-/

namespace CellCompiler

namespace Target

/-- A type of the target. -/
inductive Ty where
  | int
  | cell
  | slice
  | builder
  | cont
  /-- One stack entry that holds values of these types; no types mean any values. -/
  | tuple (items : List Ty)
  /-- One value after the other on the stack. -/
  | tensor (items : List Ty)
  /-- To be inferred. -/
  | hole
  | var (name : String)

namespace Ty

instance : Inhabited Ty := ⟨hole⟩

/-- No stack entry at all. -/
def unit : Ty := tensor []

/-- One stack entry that holds values of any types. -/
def anyTuple : Ty := tuple []

/-- The type of nothing. -/
def isUnit : Ty → Bool
  | tensor [] => true
  | _ => false

/-- A run of stack entries. -/
def isTensor : Ty → Bool
  | tensor _ => true
  | _ => false

mutual

/-- Number of stack entries of a value. -/
def stackWidth : Ty → Nat
  | tensor items => stackWidths items
  | _ => 1

/-- Number of stack entries of several values. -/
def stackWidths : List Ty → Nat
  | [] => 0
  | t :: ts => t.stackWidth + stackWidths ts

end

mutual

/-- The spelling of a type. -/
def text : Ty → String
  | int => "int"
  | cell => "cell"
  | slice => "slice"
  | builder => "builder"
  | cont => "cont"
  | tuple [] => "tuple"
  | tuple (t :: ts) => "[" ++ t.text ++ textRest ts ++ "]"
  | tensor [] => "()"
  | tensor (t :: ts) => "(" ++ t.text ++ textRest ts ++ ")"
  | hole => "_"
  | var name => name

/-- Further types, each after a comma. -/
def textRest : List Ty → String
  | [] => ""
  | t :: ts => ", " ++ t.text ++ textRest ts

end

/-! ### Equality -/

mutual

/-- Equality of types as a truth value. -/
def same : Ty → Ty → Bool
  | int, int | cell, cell | slice, slice | builder, builder | cont, cont | hole, hole => true
  | tuple as, tuple bs => sameList as bs
  | tensor as, tensor bs => sameList as bs
  | var a, var b => a == b
  | _, _ => false

/-- Equality of lists of types. -/
def sameList : List Ty → List Ty → Bool
  | [], [] => true
  | a :: as, b :: bs => a.same b && sameList as bs
  | _, _ => false

end

mutual

theorem same_iff : (a b : Ty) → (a.same b = true ↔ a = b)
  | a, b => by
    cases a <;> cases b <;> simp [same, sameList_iff]

theorem sameList_iff : (as bs : List Ty) → (sameList as bs = true ↔ as = bs)
  | [], [] => by simp [sameList]
  | [], _ :: _ => by simp [sameList]
  | _ :: _, [] => by simp [sameList]
  | a :: as, b :: bs => by simp [sameList, same_iff a b, sameList_iff as bs]

end

instance : DecidableEq Ty := fun a b => decidable_of_iff _ (same_iff a b)

end Ty

end Target

end CellCompiler
