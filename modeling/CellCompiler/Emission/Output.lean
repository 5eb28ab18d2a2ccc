import CellCompiler.Emission.Registry

/-!
# Ordered output

Finishing a registry checks that every dependency is there and puts callees before callers.

* `Registry.missing` lists the dependencies that are neither registered nor skipped;
* `Registry.sort` orders functions by a depth-first walk along dependencies, which are taken in the
  order of registration;
* `Registry.finalize` gives everything, `Registry.finalizeReachable` what some roots depend on.
-/

namespace CellCompiler

namespace Emission

/-- The finished module. -/
structure Output where
  header : List Target.Item
  globals : List Target.Item
  constants : List Target.Item
  functions : List Entry
  deriving DecidableEq

namespace Registry

/-- All dependencies in the order in which they are mentioned. -/
def mentioned (r : Registry) : List String := r.functions.values.flatMap (·.depends.names)

/-- The dependencies that are not there, each once, in the order of first mention. -/
def missing (r : Registry) : List String :=
  (r.mentioned.filter fun name => !r.has name).foldl
    (fun found name => if found.contains name then found else found ++ [name]) []

/-- Fail if a dependency is not there. -/
def checkDependencies (r : Registry) : Except CompileError Unit :=
  match r.missing with
  | [] => .ok ()
  | names => .error (.missingDependencies names)

/-- What a function depends on apart from itself, in the order of registration. -/
def dependencies (r : Registry) (entry : Entry) : List String :=
  r.functions.keys.filter fun name => name != entry.name && entry.depends.contains name

/-- The cycle that closes when `name` is met again below itself; `stack` has the latest first. -/
def cycle (stack : List String) (name : String) : List String :=
  name :: (stack.takeWhile (· != name)).reverse ++ [name]

/-- Append a function to `done` after everything that it depends on; `stack` lists the functions
that are waiting for it, the latest first. -/
def visit (r : Registry) : (fuel : Nat) → (stack : List String) → (done : List String) →
    (name : String) → Except CompileError (List String)
  | 0, _, _, _ => .error .endless
  | fuel + 1, stack, done, name => do
    if done.contains name then return done
    if stack.contains name then throw (.dependencyCycle (cycle stack name))
    match r.functions.get? name with
    | none => throw (.missingDependencies [name])
    | some entry =>
      let done ← (r.dependencies entry).foldlM (r.visit fuel (name :: stack)) done
      return done ++ [name]

/-- The functions that the starts reach, callees first. -/
def sort (r : Registry) (starts : List String) : Except CompileError (List String) :=
  starts.foldlM (r.visit (r.functions.size + 1) []) []

/-- The module whose functions come in a given order; skipped names are left out. -/
def output (r : Registry) (order : List String) : Output where
  header := r.header
  globals := r.globals.values.map fun g => .global g.ty g.name
  constants := r.constants.values.map fun c => .constant c.ty c.name c.value
  functions := (order.filterMap r.functions.get?).filter (·.kind != .skip)

/-- The module of everything that has been entered. -/
def finalize (r : Registry) : Except CompileError Output := do
  r.checkDependencies
  return r.output (← r.sort r.functions.keys)

/-- The module of what some roots depend on. -/
def finalizeReachable (r : Registry) (roots : List String) : Except CompileError Output := do
  r.checkDependencies
  match roots.find? fun root => !r.has root with
  | some root => throw (.missingDependencies [root])
  | none => return r.output (← r.sort (r.functions.keys.filter roots.contains))

end Registry

namespace Output

/-- The function of a name. -/
def function? (o : Output) (name : String) : Option Entry := o.functions.find? (·.name == name)

/-- The names of the functions. -/
def names (o : Output) : List String := o.functions.map (·.name)

/-- The parts of the module with the number of functions in each, in order of appearance. -/
def sections (o : Output) : List (Section × Nat) :=
  o.functions.foldl (fun counts f => count f.place counts) []
where
  /-- Count one more function in a part. -/
  count (s : Section) : List (Section × Nat) → List (Section × Nat)
    | [] => [(s, 1)]
    | (t, n) :: rest => if t = s then (t, n + 1) :: rest else (t, n) :: count s rest

/-- Every item in printing order. -/
def items (o : Output) : List Target.Item :=
  o.header ++ o.globals ++ o.constants ++ o.functions.filterMap (·.definition)

end Output

end Emission

end CellCompiler
