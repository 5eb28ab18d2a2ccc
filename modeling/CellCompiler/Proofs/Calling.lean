import CellCompiler.Proofs.Calling.Contracts

/-!
# Calls fit the functions that they call

Heads of functions and calls of them are put together by different generators. In every module that is
compiled from a program whose own calls fit, they agree: each call has as many arguments as the
function has parameters, and a call that assigns to what it is applied to is of a function that gives
that back.

* `compile_calls_fit` is the main result; it leaves out calls of functions that the target supplies;
* `calls_misfit`: none of its conditions can be left out.
-/

namespace CellCompiler

open Emission (Output)
open Generate

variable {env : Env} {out : Output}

theorem callsFit_of_madeOf (h : env.program.Followed) (hout : ∃ r, out.MadeOf env r) :
    out.CallsFit env.program.types.IsNative := by
  obtain ⟨r, hmade⟩ := hout
  intro f hf item hitem site hsite hnative g hg s hs hname
  have hcaller := constructed_agrees h (hmade.item hf item hitem)
  obtain ⟨callee, hcallee, hs⟩ := Option.bind_eq_some_iff.1 hs
  exact (hcaller.calls site hsite).suits hnative s
    ((constructed_agrees h (hmade.item hg callee hcallee)).signs s hs) hname

/-- **Calls fit the functions that they call.** Take a program that files its declarations under their
names and whose own calls have as many arguments as the callee has parameters, without marks in its
identifiers and without a type that is declared for a function outside of it. In every module that is
compiled from it, each call of a function of the module has as many arguments as that function has
parameters, and if it assigns to what it is applied to, then the function gives back two values, the
first of the type of its first parameter. This leaves out calls by the name of a function that the
target is to supply. -/
theorem compile_calls_fit (hcalls : env.program.CallsAsDeclared) (hmarks : env.program.Unmarked)
    (hfree : ∀ f ∈ env.program.types.functions.values, f.selfType = none) :
    (∀ out, compileLibrary env = .ok out → out.CallsFit env.program.types.IsNative) ∧
    ∀ contract out, compileContract env contract = .ok out →
      out.CallsFit env.program.types.IsNative := by
  have h : env.program.Followed := ⟨hcalls, hmarks, hfree⟩
  exact ⟨fun _ hout => callsFit_of_madeOf h (compileLibrary_madeOf hout),
    fun _ _ hout => callsFit_of_madeOf h (compileContract_madeOf hout)⟩

/-! ### A contract with all kinds of calls -/

/-- A stock, which can be added to and sent. -/
def stockDecl : TypeDecl :=
  { TypeDecl.ofFields .struct "Stock" [⟨"amount", 0, .plain "Int", none, none⟩] with
    header := some 7
    functions := .ofList [("add", {
      name := "add", selfType := some (.plain "Stock"), params := [⟨"n", .plain "Int"⟩]
      returns := .plain "Int", mutates := true
      body := .statements [
        .augmentedAssign {} (.field ⟨.plain "Int", {}⟩ (.ident ⟨.plain "Stock", {}⟩ "self") "amount") .add
          (.ident ⟨.plain "Int", {}⟩ "n"),
        .ret {} (some (.ident ⟨.plain "Int", {}⟩ "n"))] })] }

/-- A contract that adds to its stock, and opens another one like it. -/
def depotDecl : TypeDecl :=
  let stock : Expr := .field ⟨.plain "Stock", {}⟩ (.ident ⟨.plain "Depot", {}⟩ "self") "stock"
  let amount (name : String) : Expr :=
    .field ⟨.plain "Int", {}⟩ (.ident ⟨.plain "Stock", {}⟩ name) "amount"
  { TypeDecl.ofFields .contract "Depot" [⟨"stock", 0, .plain "Stock", none, none⟩] with
    init := some {
      params := [⟨"stock", .plain "Stock"⟩]
      body := [.assign {} stock (.ident ⟨.plain "Stock", {}⟩ "stock")] }
    functions := .ofList [("level", {
      name := "level", selfType := some (.plain "Depot"), params := [⟨"other", .plain "Stock"⟩]
      returns := .plain "Int", isGetter := true
      body := .statements [.ret {} (some (.call ⟨.plain "Int", {}⟩ "same" [amount "other"]))] })]
    receivers := [
      { selector := .internal (.binary "Stock"), param := some "more"
        body := [.expression {} (.methodCall ⟨.plain "Int", {}⟩ stock "add" [amount "more"]),
          .expression {} (.initOf ⟨.plain "StateInit", {}⟩ "Depot" [stock])] },
      { selector := .internal .empty, body := [] }] }

/-- The contract with its plans. -/
def depotEnv : Env where
  program :=
    let types := ((TypeTable.primitives.addType stockDecl).addType depotDecl).addFunction
      { name := "same", params := [⟨"n", .plain "Int"⟩], returns := .plain "Int"
        body := .statements [.ret {} (some (.ident ⟨.plain "Int", {}⟩ "n"))] }
    { types, plans := (planProgram types).toOption.getD {} }
  evaluate := noConstants

theorem exists_depot : ∃ out, compileContract depotEnv "Depot" = .ok out :=
  Except.exists_of_toOption_isSome (by decide +kernel)

theorem exists_depotLibrary : ∃ out, compileLibrary depotEnv = .ok out :=
  Except.exists_of_toOption_isSome (by decide +kernel)

theorem depot_calls_fit : depotEnv.program.CallsAsDeclared ∧ depotEnv.program.Unmarked ∧
    (∀ f ∈ depotEnv.program.types.functions.values, f.selfType = none) ∧
    ∃ out, compileContract depotEnv "Depot" = .ok out ∧
      out.CallsFit depotEnv.program.types.IsNative := by
  have hcalls : depotEnv.program.CallsAsDeclared := by decide +kernel
  have hmarks : depotEnv.program.Unmarked := by decide +kernel
  have hfree : ∀ f ∈ depotEnv.program.types.functions.values, f.selfType = none := by decide +kernel
  obtain ⟨out, hout⟩ := exists_depot
  exact ⟨hcalls, hmarks, hfree, out, hout, (compile_calls_fit hcalls hmarks hfree).2 "Depot" out hout⟩

/-! ### Calls that do not fit -/

namespace Misfits

/-- A field of an integer. -/
def amount : Field := ⟨"amount", 0, .plain "Int", none, none⟩

/-- A function with the result 1. -/
def one (name : String) (selfType : Option String) (params : List Param) : Function where
  name := name
  selfType := selfType.map .plain
  params := params
  returns := .plain "Int"
  body := .statements [.ret {} (some (.ofInt 1))]

/-- A function that calls `f` on a value of a type. -/
def caller (type : String) : Function where
  name := "audit"
  params := [⟨"o", .plain type⟩]
  returns := .plain "Int"
  body := .statements [.ret {} (some
    (.methodCall ⟨.plain "Int", {}⟩ (.ident ⟨.plain type, {}⟩ "o") "f" [.ofInt 1]))]

/-- A function that the target is to supply under the name of a helper. -/
def native : TypeTable :=
  let owner : Field := ⟨"owner", 0, .plain "Address", none, none⟩
  let int (name : String) : Param := ⟨name, .plain "Int"⟩
  (((TypeTable.primitives.addType (.ofFields .struct "Deed" [owner])).addFunction
    { name := "check", params := [int "a", int "b"], returns := .plain "Int"
      body := .native Helper.verifyAddressName })).addFunction
    { name := "audit", returns := .plain "Int"
      body := .statements [.ret {} (some
        (.call ⟨.plain "Int", {}⟩ "check" [.ofInt 1, .ofInt 2]))] }

/-- A method of a struct whose name can be read as that of a method of a contract. -/
def marked : TypeTable :=
  let struct := { TypeDecl.ofFields .struct "A" [amount] with
    functions := .ofList [("x$_fun_f", one "x$_fun_f" (some "A") [])] }
  let contract := { TypeDecl.ofFields .contract "A$_fun_x" [amount] with
    functions := .ofList [("f", one "f" (some "A$_fun_x") [⟨"n", .plain "Int"⟩])] }
  ((TypeTable.primitives.addType struct).addType contract).addFunction (caller "A$_fun_x")

/-- A function outside of a contract that is declared on it. -/
def owned : TypeTable :=
  let contract := { TypeDecl.ofFields .contract "A" [amount] with
    functions := .ofList [("f", one "f" (some "A") [⟨"n", .plain "Int"⟩])] }
  ((TypeTable.primitives.addType contract).addFunction (one "f" (some "A") [])).addFunction (caller "A")

/-- The declarations with their plans. -/
def library (table : TypeTable) : Env where
  program := { types := table, plans := (planProgram table).toOption.getD {} }
  evaluate := noConstants

end Misfits

open Misfits in
/-- All calls of these libraries have as many arguments as the callee has parameters, and yet a call
does not fit after they are compiled: where the target is to supply a function under the name of another
one, where there is a mark in an identifier, and where a function outside of a type is declared on it.
Each time, the other conditions hold. -/
theorem calls_misfit :
    (∀ table ∈ [native, marked, owned], (library table).program.CallsAsDeclared ∧
      ∃ out, compileLibrary (library table) = .ok out ∧ ¬ out.CallsFit fun _ => False) ∧
    (∀ table ∈ [native, owned], (library table).program.Unmarked) ∧
    (∀ table ∈ [native, marked], ∀ f ∈ table.functions.values, f.selfType = none) ∧
    ∀ table ∈ [marked, owned], ∀ f ∈ table.allFunctions, f.nativeName = none := by
  refine ⟨fun table htable => ⟨?_, ?_⟩, by decide +kernel, by decide +kernel, by decide +kernel⟩
  · revert table
    decide +kernel
  · have hany : ∀ table ∈ [native, marked, owned], (compileLibrary (library table)).toOption.any
        (fun out => !decide (out.CallsFit fun _ => False)) = true := by decide +kernel
    obtain ⟨out, hout, hmisfits⟩ := Except.exists_of_toOption_any (hany table htable)
    exact ⟨out, hout, by simpa using hmisfits⟩

end CellCompiler
