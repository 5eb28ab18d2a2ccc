import CellCompiler.Proofs.Generate.Contracts

/-!
# Finished modules are closed

Everything that a function of a finished module calls is a function of the target or is declared,
and everything that it declares is supplied or comes before it. So a module can be compiled from
the top, and leaving out what the declarations do not reach never leaves out anything called.

* `Emission.Output.Closed` states this of a module;
* `compile_closed` proves it of every module that is compiled, whole or pruned.
-/

namespace CellCompiler

open Emission (Output Registry)
open Generate

/-- Every call in a module is declared, and every declared name is the function itself, supplied or
the name of an earlier function. -/
structure Emission.Output.Closed (out : Output) (supplied : String → Prop) : Prop where
  calls : ∀ f ∈ out.functions, ∀ item ∈ f.definition, ∀ callee ∈ item.callees,
    callee ∈ Target.builtins ∨ callee ∈ f.depends.names
  order : out.CalleesFirst supplied

theorem Generate.Emits.run_sound {α : Type} {g : Gen α} {env : Env} {special : Target.Item → Prop} {a : α}
    {registry : Registry} (hg : Emits true env special g fun _ => True)
    (h : Generate.run env g = .ok (a, registry)) :
    Registry.Develops (Emission.Entry.QuietUnless special env.program.types) {} registry ∧
      registry.Sound true := by
  unfold Generate.run at h
  split at h
  · next draft hrun =>
    obtain ⟨rfl, rfl⟩ : _ ∧ draft.registry = registry := by simpa using h
    obtain ⟨hdevelops, hsound, -⟩ := hg {} _ draft hrun Registry.sound_empty
    exact ⟨hdevelops, hsound⟩
  · simp at h

theorem output_closed {registry : Registry} {order : List String} (hsound : registry.Sound true)
    (horder : (registry.output order).CalleesFirst registry.Supplies) :
    (registry.output order).Closed registry.Supplies := by
  refine ⟨fun f hf item hitem callee hcallee => ?_, horder⟩
  obtain ⟨hget, hkind⟩ := Registry.get?_of_mem_output hsound.filed hf
  cases hsound.entries _ _ hget with
  | skipped _ => simp [Emission.Entry.skipped] at hkind
  | defined _ _ _ hcalls =>
    obtain rfl := by simpa using hitem
    rcases hcalls callee hcallee with ⟨hbuiltin, -⟩ | hdeclared | rfl
    · exact .inl hbuiltin
    · exact .inr hdeclared
    · exact .inl (by decide)

theorem finalize_closed {registry : Registry} {out : Output} (hsound : registry.Sound true)
    (h : registry.finalize = .ok out) : out.Closed registry.Supplies := by
  obtain ⟨order, hcheck, hsort, rfl⟩ := Registry.finalize_eq_ok h
  exact output_closed hsound ((Registry.sort_ordered hsort).1.calleesFirst hsound.filed hcheck)

theorem finalizeReachable_closed {registry : Registry} {roots : List String} {out : Output}
    (hsound : registry.Sound true) (h : registry.finalizeReachable roots = .ok out) :
    out.Closed registry.Supplies := by
  obtain ⟨order, hcheck, hsort, rfl⟩ := Registry.finalizeReachable_eq_ok h
  exact output_closed hsound ((Registry.sort_ordered hsort).1.calleesFirst hsound.filed hcheck)

/-- **Dependency closure.** Whatever the program, the evaluator and the settings, the library and
every contract compile to modules in which each call is to one of the functions of the target
(`Target.builtins`) or to a declared name, and each declared name is the function itself, supplied
by the target's own library or the name of a function further up. -/
theorem compile_closed (env : Env) :
    (∀ out, compileLibrary env = .ok out → ∃ registry,
      Generate.run env emitShared = .ok ((), registry) ∧ out.Closed registry.Supplies) ∧
    (∀ contract out, compileContract env contract = .ok out → ∃ decl roots registry,
      Layout.declOf env.program.types contract = .ok decl ∧
      Generate.run env (do emitShared; emitContract decl) = .ok (roots, registry) ∧
      out.Closed registry.Supplies) := by
  constructor
  · intro out h
    simp only [compileLibrary, Except.bind_eq_ok] at h
    obtain ⟨⟨⟨⟩, registry⟩, hrun, hout⟩ := h
    have hemits : Emits true env (fun _ => False) emitShared fun _ => True := emitShared_emits
    exact ⟨registry, hrun, finalize_closed (hemits.run_sound hrun).2 hout⟩
  · intro contract out h
    simp only [compileContract, Except.bind_eq_ok] at h
    obtain ⟨decl, hdecl, ⟨roots, registry⟩, hrun, hout⟩ := h
    have hmem := Dict.mem_values_of_get? (Layout.declOf_eq_ok.1 hdecl)
    have hsound : registry.Sound true :=
      (emitShared_emits.bind fun _ _ => emitContract_emits hmem).run_sound hrun |>.2
    refine ⟨decl, roots, registry, hdecl, hrun, ?_⟩
    split at hout
    · exact finalizeReachable_closed hsound hout
    · exact finalize_closed hsound hout

/-- A contract that keeps a map and enters a number into it with every empty message. -/
def ledgerTable : TypeTable :=
  let seen := TypeRef.map "Int" none "Int" none
  let self := Expr.ident ⟨.plain "Ledger", {}⟩ "self"
  let enter := Expr.methodCall ⟨.void, {}⟩ (.field ⟨seen, {}⟩ self "seen") "set"
    [.number ⟨.plain "Int", {}⟩ 1, .number ⟨.plain "Int", {}⟩ 2]
  let ledger := { TypeDecl.ofFields .contract "Ledger" [⟨"seen", 0, seen, none, none⟩]
    with receivers := [{ selector := .internal .empty, body := [.expression {} enter] }] }
  TypeTable.primitives.addType ledger

/-- The contract with its plans, to be compiled without what no entry point reaches. -/
def ledgerEnv : Env where
  program := { types := ledgerTable, plans := (planProgram ledgerTable).toOption.getD {} }
  evaluate := noConstants
  config := Config.pruned {}

theorem ledger_closed : ∃ (out : Output) (registry : Registry),
    compileContract ledgerEnv "Ledger" = .ok out ∧
    (∃ f ∈ out.functions, "__tact_dict_set_int_int" ∈ f.depends.names) ∧
    out.Closed registry.Supplies := by
  have hcompiles : ∃ out, compileContract ledgerEnv "Ledger" = .ok out ∧
      ∃ f ∈ out.functions, "__tact_dict_set_int_int" ∈ f.depends.names := by
    have hany : (compileContract ledgerEnv "Ledger").toOption.any (fun out =>
        out.functions.any (·.depends.contains "__tact_dict_set_int_int")) = true := by
      decide +kernel
    obtain ⟨out, hout, hdict⟩ := Except.exists_of_toOption_any hany
    exact ⟨out, hout, by simpa [NameSet.contains] using hdict⟩
  obtain ⟨out, hout, hdict⟩ := hcompiles
  obtain ⟨_, _, registry, -, -, hclosed⟩ := (compile_closed ledgerEnv).2 "Ledger" out hout
  exact ⟨out, registry, hout, hdict, hclosed⟩

end CellCompiler
