import CellCompiler.Cell.Bag
import CellCompiler.Cell.Builder
import CellCompiler.Target.Item

/-!
# Values of a running module

* `Val` is a value on the stack;
* `Fault` is why a run stops: with an exit code, or because of a `Bug`, something that no well-formed
  module does;
* `Val.asInt` and its like insist on the form of a value;
* `Val.flatten` lists the leaves of nested tensors.
-/

namespace CellCompiler

namespace Machine

/-- A value on the stack. -/
inductive Val where
  | null
  | int (value : Int)
  | cell (value : Cell)
  | slice (value : Slice)
  | builder (value : Builder)
  | tuple (items : List Val)
  | tensor (items : List Val)

instance : Inhabited Val := ⟨.null⟩

/-- The forms of values that operations insist on. -/
inductive Form where
  | int
  | cell
  | slice
  | builder
  deriving DecidableEq, Repr

/-- What a module does that the machine cannot run. -/
inductive Bug where
  | expected (form : Form) (got : Val)
  | argumentCount (name : String) (expected got : Nat)
  | notCallable (name : String)
  | hole
  | unbound (name : String)
  | spread (values : Nat) (pattern : Target.Expr)
  | notAssignable (pattern : Target.Expr)
  | unsupported (name : String) (arguments : Nat)
  | unsupportedModifying (name : String) (arguments : Nat)
  | noReceiver (name : String)
  | notAPair (value : Val)
  | addressTag (tag : Nat)
  | width (value : Val)
  | exitCode (value : Val)
  | asm (program : String)
  | tupleSize (program : String) (values : Nat)
  | notABag (word : String)
  | bag (fault : Bag.Fault)
  | ownAddress (error : Cell.Error)

/-- Why a run stops. -/
inductive Fault where
  /-- The program stopped with this code. -/
  | exit (code : Nat)
  | bug (reason : Bug)

/-- The fault of an operation on cells. -/
def Fault.ofCell : Cell.Error → Fault
  | .overflow .. => exit 8
  | .bitUnderflow .. | .refUnderflow | .notConsumed .. => exit 9
  | .integerOutOfRange .. => exit 5
  | .invalidBag fault => bug (.bag fault)

namespace Val

/-- A truth value: all digits set or none. -/
def bool (b : Bool) : Val := if b then int (-1) else int 0

/-- The value of a call without a result. -/
def unit : Val := tensor []

/-- The value is absent. -/
def isNull : Val → Bool
  | null => true
  | _ => false

/-- The number that a value is. -/
def asInt : Val → Except Fault Int
  | int v => .ok v
  | other => .error (.bug (.expected .int other))

/-- The cell that a value is. -/
def asCell : Val → Except Fault Cell
  | cell c => .ok c
  | other => .error (.bug (.expected .cell other))

/-- The slice that a value is. -/
def asSlice : Val → Except Fault Slice
  | slice s => .ok s
  | other => .error (.bug (.expected .slice other))

/-- The builder that a value is. -/
def asBuilder : Val → Except Fault Builder
  | builder b => .ok b
  | other => .error (.bug (.expected .builder other))

/-- A number counts as true unless it is zero. -/
def truthy (v : Val) : Except Fault Bool := do
  return (← v.asInt) != 0

/-- A number of bits. -/
def width (v : Val) : Except Fault Nat := do
  let n ← v.asInt
  if 0 ≤ n ∧ n < UInt64.size then return n.toNat else throw (.bug (.width v))

/-- An exit code. -/
def exitCode (v : Val) : Except Fault Nat := do
  let n ← v.asInt
  if 0 ≤ n ∧ n < UInt32.size then return n.toNat else throw (.bug (.exitCode v))

mutual

/-- The leaves of nested tensors from left to right. -/
def flatten : Val → List Val
  | tensor items => flattenAll items
  | leaf => [leaf]

/-- The leaves of several values. -/
def flattenAll : List Val → List Val
  | [] => []
  | v :: vs => v.flatten ++ flattenAll vs

end

end Val

end Machine

end CellCompiler
