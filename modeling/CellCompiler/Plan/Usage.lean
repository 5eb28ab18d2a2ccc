import CellCompiler.Address
import CellCompiler.Plan.Error

/-!
# Space that plans take

* `Plan.Usage` counts bits and references;
* `Plans.opUsage` bounds what one operation takes in its cell, `Plans.rootUsage` what the first
  cell of a plan takes;
* `Plans.isOpenEnded` says whether reading a record takes everything that is left;
* `Plans.validate` checks that every cell of every plan stays within the budget of a cell and that
  nothing follows what takes everything.

A record that is stored in place is followed through its own plan. The number of plans bounds how
deep this can go unless records contain each other.
-/

namespace CellCompiler

namespace Plan

/-- An amount of space in a cell. -/
structure Usage where
  bits : Nat := 0
  refs : Nat := 0
  deriving DecidableEq, Repr

namespace Usage

/-- Both amounts together. -/
def add (a b : Usage) : Usage := ⟨a.bits + b.bits, a.refs + b.refs⟩

/-- The amount is within the budget of a cell. -/
def fits (u : Usage) : Bool := u.bits ≤ Cell.maxBits && u.refs ≤ Cell.maxRefs

/-- The total of several amounts, or the first error. -/
def total (start : Usage) (amounts : List (Except Error Usage)) : Except Error Usage :=
  amounts.foldlM (fun u amount => u.add <$> amount) start

end Usage

/-- Most bits that an amount of coins takes. -/
def coinsBits : Nat := Builder.maxCoinsBits + 4

/-- Space of a field that is stored behind a reference or as the remainder. -/
def Format.usage : Format → Usage
  | .reference => ⟨0, 1⟩
  | .remainder => ⟨0, 0⟩

/-- Space that a value of a kind takes at most, given that of records in place. -/
def OpKind.usageBy (inline : String → Except Error Usage) : OpKind → Except Error Usage
  | .int bits | .uint bits => .ok ⟨bits.toNat, 0⟩
  | .coins => .ok ⟨coinsBits, 0⟩
  | .boolean => .ok ⟨1, 0⟩
  | .address => .ok ⟨Address.bitLength, 0⟩
  | .cell format | .slice format | .builder format => .ok format.usage
  | .string => .ok ⟨0, 1⟩
  | .fixedBytes bytes => .ok ⟨bytes.toNat * 8, 0⟩
  | .map => .ok ⟨1, 1⟩
  | .struct _ true => .ok ⟨0, 1⟩
  | .struct typeName false => inline typeName

/-- Space that an operation takes at most, the bit for its presence included. -/
def Op.usageBy (inline : String → Except Error Usage) (op : Op) : Except Error Usage := do
  let base ← op.kind.usageBy inline
  pure (if op.optional then base.add ⟨1, 0⟩ else base)

/-- Space of the header. -/
def headerUsage (p : Plan) : Usage :=
  match p.header with
  | some header => ⟨header.bits.toNat, 0⟩
  | none => ⟨0, 0⟩

/-- Space of the first cell of a chain after what it already holds. -/
def Chain.usageBy (inline : String → Except Error Usage) (start : Usage) :
    Chain → Except Error Usage
  | .last ops => start.total (ops.map (Op.usageBy inline))
  | .link ops _ => do
    let used ← start.total (ops.map (Op.usageBy inline))
    pure (used.add ⟨0, 1⟩)

/-- Whether a record takes everything that is left, given the answer for records in place. -/
def openEndedBy (inline : String → Except Error Bool) (p : Plan) : Except Error Bool :=
  match p.ops.getLast? with
  | none => .ok false
  | some op =>
    if op.kind.isRemainder then .ok true
    else
      match op.kind.inline? with
      | some typeName => inline typeName
      | none => .ok false

end Plan

namespace Plans

open Plan (Op Chain Usage Error Fault)

/-- Bound for the depth of records in place that do not contain each other. -/
def depthBound (all : Plans) : Nat := all.types.size + 1

/-- Space of the first cell of a record in place. -/
def inlineUsage (all : Plans) : (fuel : Nat) → String → Except Error Usage
  | 0, _ => .error .endless
  | fuel + 1, typeName => do
    let plan ← all.get typeName
    plan.root.usageBy (all.inlineUsage fuel) plan.headerUsage

/-- Whether a record in place takes everything that is left. -/
def inlineOpenEnded (all : Plans) : (fuel : Nat) → String → Except Error Bool
  | 0, _ => .error .endless
  | fuel + 1, typeName => do
    let plan ← all.get typeName
    plan.openEndedBy (all.inlineOpenEnded fuel)

/-- Space that an operation takes at most in its cell. -/
def opUsage (all : Plans) (op : Op) : Except Error Usage :=
  op.usageBy (all.inlineUsage all.depthBound)

/-- Space that the first cell of a plan takes at most. -/
def rootUsage (all : Plans) (plan : Plan) : Except Error Usage :=
  plan.root.usageBy (all.inlineUsage all.depthBound) plan.headerUsage

/-- Whether reading a record takes everything that is left. -/
def isOpenEnded (all : Plans) (plan : Plan) : Except Error Bool :=
  plan.openEndedBy (all.inlineOpenEnded all.depthBound)

/-! ### Validity -/

/-- Check the budget of each cell of a chain; `index` is the position of the first one. -/
def checkCells (all : Plans) (typeName : String) :
    (index : Nat) → (start : Usage) → Chain → Except Error Unit
  | index, start, chain => do
    let usage ← chain.usageBy (all.inlineUsage all.depthBound) start
    if usage.fits then
      match chain with
      | .last _ => pure ()
      | .link _ next => checkCells all typeName (index + 1) {} next
    else throw (.invalid typeName (.overBudget index usage.bits usage.refs))

/-- Check one operation, knowing whether it is the last one. -/
def checkOp (all : Plans) (typeName : String) (isLast : Bool) (op : Op) : Except Error Unit := do
  if op.kind.isRemainder then
    if op.optional then throw (.invalid typeName (.optionalRemainder op.name))
    if !isLast then throw (.invalid typeName (.remainderNotLast op.name))
  match op.kind with
  | .struct nested byRef =>
    let plan ← all.get nested
    if !byRef && !isLast then
      if ← all.isOpenEnded plan then throw (.invalid typeName (.openStructNotLast op.name))
  | _ => pure ()

/-- Check the operations of a plan in order. -/
def checkOps (all : Plans) (typeName : String) : List Op → Except Error Unit
  | [] => .ok ()
  | op :: rest => do
    all.checkOp typeName rest.isEmpty op
    checkOps all typeName rest

/-- Check the plan of one record. -/
def validatePlan (all : Plans) (typeName : String) (plan : Plan) : Except Error Unit := do
  if plan.root.ops ≠ plan.ops then throw (.invalid typeName .chainMismatch)
  all.checkCells typeName 0 plan.headerUsage plan.root
  all.checkOps typeName plan.root.ops

/-- Check all plans. -/
def validate (all : Plans) : Except Error Unit :=
  (all.types.entries ++ all.initArgs.entries).forM fun (name, plan) => all.validatePlan name plan

end Plans

end CellCompiler
