import CellCompiler.Plan.Planner

/-!
# Programs

A program is a table of declarations with storage plans. Plans that are not supplied are filled in
by `Program.complete`, which also checks all of them.
-/

namespace CellCompiler

/-- Everything that is compiled together. -/
structure Program where
  types : TypeTable
  plans : Plans := {}

namespace Program

instance : Inhabited Program := ⟨{ types := {} }⟩

/-- The program with the plans that the planner makes. -/
def planned (types : TypeTable) : Except Plan.Error Program := do
  return { types, plans := ← planProgram types }

/-- Enter those plans that are not there yet. -/
def fillIn (supplied planned : Dict Plan) : Dict Plan :=
  planned.entries.foldl (fun d p => d.insertNew p.1 p.2) supplied

/-- Fill in missing plans after the supplied ones and check all of them. -/
def complete (p : Program) : Except Plan.Error Program := do
  let planned ← planProgram p.types
  let plans : Plans :=
    ⟨fillIn p.plans.types planned.types, fillIn p.plans.initArgs planned.initArgs⟩
  plans.validate
  return { p with plans }

end Program

end CellCompiler
