import CellCompiler.Emission.Output
import CellCompiler.Machine.Primitive

/-!
# Running a module

An evaluator of target code on real cells. A run goes on for as long as the code does: it may never
end, stop with a `Fault`, or give a value.

* `Code` is a module ready to run, `Code.ofOutput` that of a finished module;
* `State` is what a run changes: the variables of the current function, the global variables and
  the data of the contract;
* `Code.call` calls a function, `Code.block` runs statements and `Code.eval` evaluates expressions.
-/

namespace CellCompiler

namespace Machine

/-- A module ready to run. -/
structure Code where
  functions : Dict Target.Item
  constants : Dict Target.Expr := .empty
  host : Host := {}

/-- The functions and constants of a finished module. -/
def Code.ofOutput (out : Emission.Output) : Code where
  functions := .ofList (out.functions.filterMap fun f => f.definition.map fun item => (f.name, item))
  constants := .ofList (out.constants.filterMap fun item =>
    match item with
    | .constant _ name value => some (name, value)
    | _ => none)

/-- What a run changes. -/
structure State where
  /-- The variables of the current function. -/
  frame : Dict Val := .empty
  globals : Dict Val := .empty
  /-- The data of the contract. -/
  data : Cell := .empty

/-- The state in which a finished module starts: every global variable is absent. -/
def State.ofOutput (out : Emission.Output) : State where
  globals := .ofList (out.globals.filterMap fun item =>
    match item with
    | .global _ name => some (name, .null)
    | _ => none)

/-- A run, which may never end. -/
abbrev Run := ExceptT Fault (StateT State Option)

/-- A step that does not depend on the state. -/
def ofExcept {α : Type} : Except Fault α → Run α
  | .ok a => pure a
  | .error e => throw e

/-! ### Variables -/

/-- Assign to a variable. An assignment that does not declare it may be to a global one. -/
def State.assign (s : State) (declare : Bool) (name : String) (value : Val) : State :=
  if !declare && !s.frame.contains name && s.globals.contains name then
    { s with globals := s.globals.insert name value }
  else { s with frame := s.frame.insert name value }

mutual

/-- The patterns below nested tensors from left to right. -/
def leafPatterns : Target.Expr → List Target.Expr
  | .tensor items => leafPatternsOf items
  | leaf => [leaf]

/-- The leaves of several patterns. -/
def leafPatternsOf : List Target.Expr → List Target.Expr
  | [] => []
  | e :: es => leafPatterns e ++ leafPatternsOf es

end

/-- Assign to a pattern that is not a tensor. -/
def bindLeaf (declare : Bool) (value : Val) : Target.Expr → Run Unit
  | .hole => return
  | .ident name => modify fun s => s.assign declare name value
  | other => throw (.bug (.notAssignable other))

/-- Assign to patterns that are not tensors, one value each. -/
def bindLeaves (declare : Bool) : List Target.Expr → List Val → Run Unit
  | p :: ps, v :: vs => do
    bindLeaf declare v p
    bindLeaves declare ps vs
  | _, _ => return

mutual

/-- Assign a value to a pattern. A tensor that does not match the value part by part takes its
leaves instead. -/
def bind (declare : Bool) (value : Val) : Target.Expr → Run Unit
  | .tensor patterns =>
    let spread : Run Unit :=
      let targets := leafPatternsOf patterns
      let leaves := value.flatten
      if leaves.length = targets.length then bindLeaves declare targets leaves
      else throw (.bug (.spread leaves.length (.tensor patterns)))
    match value with
    | .tensor values =>
      if values.length = patterns.length then bindAll declare values patterns
      else if patterns.length = 1 then bindAll declare [value] patterns
      else spread
    | value => if patterns.length = 1 then bindAll declare [value] patterns else spread
  | leaf => bindLeaf declare value leaf

/-- Assign values to patterns, one each. -/
def bindAll (declare : Bool) : List Val → List Target.Expr → Run Unit
  | v :: vs, p :: ps => do
    bind declare v p
    bindAll declare vs ps
  | _, _ => return

end

/-! ### Code -/

/-- The two parts of what a modifying call gives. -/
def pair : Val → Except Fault (Val × Val)
  | .tensor [updated, result] => .ok (updated, result)
  | other => .error (.bug (.notAPair other))

/-- Call a function of the target. -/
def builtin (host : Host) (name : String) (args : List Val) : Run Val :=
  match name, args with
  | "get_data", [] => return .cell (← get).data
  | "set_data", [c] => do
    let c ← ofExcept c.asCell
    modify fun s => { s with data := c }
    return .unit
  | name, args => ofExcept (Primitive.call host name args)

/-- How often a loop runs. -/
def repetitions (count : Int) : Nat := if count < UInt64.size then count.toNat else 0

/-- The variables that a function starts with. -/
def arguments (signature : Target.Signature) (args : List Val) : Dict Val :=
  .ofList ((signature.params.map (·.name)).zip args)

mutual

/-- Call a function. -/
def Code.call (c : Code) (name : String) (args : List Val) : Run Val :=
  match c.functions.get? name with
  | some (.function signature body) =>
    if signature.params.length = args.length then (do
      let s ← get
      set { s with frame := arguments signature args }
      let result ← (c |>.block body).run
      modify fun s' => { s' with frame := s.frame }
      return result.map (·.getD .unit) : StateT State Option (Except Fault Val))
    else throw (.bug (.argumentCount name signature.params.length args.length))
  | some (.asm _ instructions) => ofExcept (Primitive.asm instructions args)
  | some _ => throw (.bug (.notCallable name))
  | none => builtin c.host name args
partial_fixpoint

/-- Run statements up to the first that returns; gives what is returned. -/
def Code.block (c : Code) (body : List Target.Stmt) : Run (Option Val) :=
  match body with
  | [] => return none
  | s :: rest => do
    match ← c |>.stmt s with
    | some v => return some v
    | none => c |>.block rest
partial_fixpoint

/-- Run a statement. -/
def Code.stmt (c : Code) (s : Target.Stmt) : Run (Option Val) :=
  match s with
  | .block body => c |>.block body
  | .ret none => return some .unit
  | .ret (some e) => do return some (← c |>.eval e)
  | .expr e => do
    let _ ← c |>.eval e
    return none
  | .varDef _ binding init => do
    let v ← match init with
      | some e => c |>.eval e
      | none => pure .null
    bind true v binding
    return none
  | .ifThen branch => c |>.conditional branch
  | .repeatLoop count body => do
    let n ← ofExcept (← c |>.eval count).asInt
    c |>.repeatLoop body (repetitions n)
  | .whileLoop cond body => c |>.whileLoop cond body
  | .untilLoop body cond => c |>.untilLoop body cond
  | .tryCatch body binding handler => (do
    match ← (c |>.block body).run with
    | .error (.exit code) =>
      (do
        bind true (.tensor [.null, .int code]) binding
        c |>.block handler : Run (Option Val)).run
    | other => return other : StateT State Option (Except Fault (Option Val)))
partial_fixpoint

/-- Run what a condition selects. -/
def Code.conditional (c : Code) (branch : Target.Conditional) : Run (Option Val) :=
  match branch with
  | .mk cond body otherwise negated => do
    let hit ← ofExcept (← c |>.eval cond).truthy
    if hit != negated then c |>.block body
    else
      match otherwise with
      | .absent => return none
      | .block body => c |>.block body
      | .chain next => c |>.conditional next
partial_fixpoint

/-- Run statements a number of times. -/
def Code.repeatLoop (c : Code) (body : List Target.Stmt) (n : Nat) : Run (Option Val) :=
  match n with
  | 0 => return none
  | n + 1 => do
    match ← c |>.block body with
    | some v => return some v
    | none => c |>.repeatLoop body n
partial_fixpoint

/-- Run statements while a condition holds. -/
def Code.whileLoop (c : Code) (cond : Target.Expr) (body : List Target.Stmt) :
    Run (Option Val) := do
  if ← ofExcept (← c |>.eval cond).truthy then
    match ← c |>.block body with
    | some v => return some v
    | none => c |>.whileLoop cond body
  else return none
partial_fixpoint

/-- Run statements until a condition holds after them. -/
def Code.untilLoop (c : Code) (body : List Target.Stmt) (cond : Target.Expr) :
    Run (Option Val) := do
  match ← c |>.block body with
  | some v => return some v
  | none =>
    if ← ofExcept (← c |>.eval cond).truthy then return none
    else c |>.untilLoop body cond
partial_fixpoint

/-- Evaluate expressions from left to right. -/
def Code.evalAll (c : Code) (es : List Target.Expr) : Run (List Val) :=
  match es with
  | [] => return []
  | e :: rest => do
    let v ← c |>.eval e
    let vs ← c |>.evalAll rest
    return v :: vs
partial_fixpoint

/-- Evaluate an expression. -/
def Code.eval (c : Code) (e : Target.Expr) : Run Val :=
  match e with
  | .int v => return .int v
  | .bool b => return .bool b
  | .ident name => c |>.lookup name
  | .hole => throw (.bug .hole)
  | .call callee args => do
    let vs ← c |>.evalAll args
    c |>.call callee vs
  | .methodCall receiver method args modifying => do
    let v ← c |>.eval receiver
    let vs ← c |>.evalAll args
    if modifying then
      if c.functions.contains method then
        let (updated, result) ← ofExcept (pair (← c |>.call method (v :: vs)))
        bind false updated receiver
        return result
      else
        let (updated, result) ← ofExcept (Primitive.modify method (v :: vs))
        bind false updated receiver
        return result
    else c |>.call method (v :: vs)
  | .assign lhs rhs => do
    let v ← c |>.eval rhs
    bind false v lhs
    return v
  | .augmentedAssign lhs op rhs => do
    let a ← c |>.eval lhs
    let b ← c |>.eval rhs
    let v ← ofExcept (Primitive.binary op.binary a b)
    bind false v lhs
    return v
  | .ternary cond onTrue onFalse => do
    if ← ofExcept (← c |>.eval cond).truthy then c |>.eval onTrue else c |>.eval onFalse
  | .binary op lhs rhs => do
    let a ← c |>.eval lhs
    let b ← c |>.eval rhs
    ofExcept (Primitive.binary op a b)
  | .unary op operand => do
    let v ← c |>.eval operand
    ofExcept (Primitive.unary op v)
  | .tensor items => do return .tensor (← c |>.evalAll items)
  | .tuple items => do return .tuple (← c |>.evalAll items)
partial_fixpoint

/-- The value of a variable or of a constant. -/
def Code.lookup (c : Code) (name : String) : Run Val := do
  let s ← getThe State
  match (s.frame.get? name).or (s.globals.get? name) with
  | some v => return v
  | none =>
    match c.constants.get? name with
    | some e => (do
      set { s with frame := Dict.empty }
      let result ← (c |>.eval e).run
      modify fun s' => { s' with frame := s.frame }
      return result : StateT State Option (Except Fault Val))
    | none => throw (.bug (.unbound name))
partial_fixpoint

end

export Code (call block stmt conditional repeatLoop whileLoop untilLoop evalAll eval lookup)

end Machine

end CellCompiler
