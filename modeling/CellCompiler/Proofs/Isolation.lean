import CellCompiler.Proofs.Closure
import CellCompiler.Proofs.Machine.Alike
import CellCompiler.Proofs.Machine.Outcomes
import Mathlib.Logic.Relation

/-!
# State is written only by a handled message

Among the functions of a contract only one calls the function of the target that replaces the data,
and only the entry points call that one, as the last thing they do. So get-methods never write, and a
message that is not handled to the end changes nothing.

* `Name.IsPlain` says that a name of the program cannot be mistaken for one of the compiler;
* `Emission.Output.Isolated` is the property of a module, `compileContract_isolated` the result.
-/

namespace CellCompiler

open Emission (Entry Output Registry)
open Generate Machine Target

/-! ### Names -/

/-- The name does not contain the character that marks names of the compiler. -/
def Name.IsPlain (name : String) : Prop := '$' ∉ name.toList

namespace Name

instance (name : String) : Decidable (IsPlain name) := inferInstanceAs (Decidable (_ ∉ _))

/-- Words without a mark before it and after it are told apart by it. -/
theorem append_mark_inj {before after first rest : List Char} (hafter : '$' ∉ after) (hbefore : '$' ∉ before)
    (h : first ++ '$' :: rest = before ++ '$' :: after) : first = before ∧ rest = after := by
  rcases List.append_eq_append_iff.1 h with ⟨more, rfl, hmore⟩ | ⟨more, rfl, hmore⟩
  · cases more with
    | nil => simpa using hmore
    | cons c more =>
      obtain ⟨rfl, -⟩ := by simpa using hmore
      simp at hbefore
  · cases more with
    | nil => simpa [eq_comm] using hmore
    | cons c more =>
      obtain ⟨rfl, rfl⟩ := by simpa using hmore
      simp at hafter

theorem suffix_of_ofType_eq {type suffix contract : String} (hcontract : IsPlain contract)
    (h : ofType type suffix = contractStore contract) : suffix = "contract_store" := by
  have hlist : type.toList ++ '$' :: ('_' :: suffix.toList) =
      contract.toList ++ '$' :: ('_' :: "contract_store".toList) := by
    simpa [ofType, contractStore] using congrArg String.toList h
  have hrest := (append_mark_inj (by decide) hcontract hlist).2
  exact String.toList_injective (List.cons.inj hrest).2

theorem globalFunction_ne_contractStore {f contract : String} (hf : IsPlain f) :
    globalFunction f ≠ contractStore contract := by
  intro h
  have hlist : "global_".toList ++ f.toList =
      contract.toList ++ '$' :: ('_' :: "contract_store".toList) := by
    simpa [globalFunction, ofType, contractStore] using congrArg String.toList h
  have hmem : '$' ∈ "global_".toList ++ f.toList := hlist ▸ by simp
  rcases List.mem_append.1 hmem with hmem | hmem
  · exact absurd hmem (by decide)
  · exact hf hmem

theorem contractStore_ne_entryPoint {contract name : String} (h : name = recvInternal ∨ name = recvExternal) :
    name ≠ contractStore contract := by
  intro heq
  have hhead := congrArg (fun s : String => s.toList.head?) heq
  rcases h with rfl | rfl <;> simp [contractStore, ofType, recvInternal, recvExternal] at hhead

end Name

/-! ### The property -/

namespace Emission.Output

/-- A function of the module calls a name. -/
def Calls (out : Output) (caller callee : String) : Prop :=
  ∃ entry ∈ out.functions, entry.name = caller ∧ ∃ item ∈ entry.definition, callee ∈ item.callees

/-- The state of a contract is written only by a handled message. -/
structure Isolated (out : Output) (contract : String) : Prop where
  /-- Only one function replaces the data. -/
  writer : ∀ caller, out.Calls caller dataWriter → caller = Name.contractStore contract
  /-- Only the entry points call that one, at their very end, once the message is known to be
  handled. -/
  store : ∀ entry ∈ out.functions, ∀ item ∈ entry.definition,
    Name.contractStore contract ∈ item.callees →
      (entry.name = Name.recvInternal ∨ entry.name = Name.recvExternal) ∧
      ∃ (signature : Signature) (before : List Target.Stmt),
        Name.contractStore contract ∉ stmtCallees before ∧
        item = signature.define (before ++ [throwUnless ExitCode.invalidMessage (id "handled"),
          .expr (call (Name.contractStore contract) [id Name.self])])
  /-- Nothing that a get-method reaches replaces the data. -/
  getMethods : ∀ entry ∈ out.functions, ∀ signature body n,
    entry.definition = some (.function signature body) → .methodId n ∈ signature.attributes →
      ∀ callee, Relation.ReflTransGen out.Calls entry.name callee → ¬ out.Calls callee dataWriter
  /-- A message that is not handled to the end leaves the data as it was. -/
  rollback : ∀ host name args s e s', name = Name.recvInternal ∨ name = Name.recvExternal →
    Machine.call { Code.ofOutput out with host } name args s = some (.error e, s') → s'.data = s.data

end Emission.Output

/-- What a program has to keep away from for its contract to be isolated: its names contain no mark
of the compiler, and what the target is to supply is neither the function that replaces the data nor
emitted for the contract. -/
structure Program.Distinct (program : Program) (contract : String) (out : Output) : Prop where
  plain : Name.IsPlain contract
  keys : ∀ name f, program.types.functions.get? name = some f → Name.IsPlain name
  functions : ∀ f, program.types.HasFunction f → Name.IsPlain f.name
  native : ∀ f name, program.types.HasFunction f → f.body = .native name →
    name ∉ [dataWriter, Name.contractStore contract, Name.recvInternal] ++ out.names

section

variable {env : Env} {contract : String} {registry : Registry} {order : List String} {out : Output}

/-- The names that code outside of the entry points may call. -/
def TypeTable.MayCall (table : TypeTable) : String → Prop := Target.Declared table.Mentions

theorem Program.Distinct.not_known_writer (h : env.program.Distinct contract out) :
    ¬ env.program.types.MayCall dataWriter := by
  rintro (⟨-, hne⟩ | hmentions)
  · exact hne rfl
  · generalize hname : dataWriter = name at hmentions
    cases hmentions with
    | ofType _ => simpa [Name.ofType] using congrArg String.toList hname
    | global _ => simpa [Name.globalFunction] using congrArg String.toList hname
    | function _ => simpa [Name.globalFunction] using congrArg String.toList hname
    | native hf hbody => exact h.native _ _ hf hbody (by simp [← hname])
    | internal hprefix => subst hname; exact absurd hprefix (by decide)

theorem Program.Distinct.not_known_store (h : env.program.Distinct contract out) :
    ¬ env.program.types.MayCall (Name.contractStore contract) := by
  rintro (⟨hmem, -⟩ | hmentions)
  · have hall : ∀ b ∈ builtins, Name.isEmitted b = false := by decide
    simpa [Name.contractStore, Name.isEmitted_ofType] using hall _ hmem
  · generalize hname : Name.contractStore contract = name at hmentions
    cases hmentions with
    | ofType hsuffix => exact hsuffix (Name.suffix_of_ofType_eq h.plain hname.symm)
    | global hget => exact Name.globalFunction_ne_contractStore (h.keys _ _ hget) hname.symm
    | function hf => exact Name.globalFunction_ne_contractStore (h.functions _ hf) hname.symm
    | native hf hbody => exact h.native _ _ hf hbody (by simp [← hname])
    | internal hprefix =>
      obtain ⟨rest, hrest⟩ := hprefix
      have hhead := congrArg List.head? hrest
      simp [← hname, Name.contractStore, Name.ofType] at hhead

theorem Program.Distinct.not_known_entryPoint (h : env.program.Distinct contract out) {name : String}
    (hname : name = Name.recvInternal ∨ name = Name.recvExternal) (hout : name ∈ out.names) :
    ¬ env.program.types.MayCall name := by
  have hstart : name.toList.head? = some 'r' := by rcases hname with rfl | rfl <;> decide
  rintro (⟨hmem, -⟩ | hmentions)
  · rcases hname with rfl | rfl <;> exact absurd hmem (by decide)
  · cases hmentions with
    | ofType _ => simp [Name.ofType] at hstart
    | global _ => simp [Name.globalFunction] at hstart
    | function _ => simp [Name.globalFunction] at hstart
    | native hf hbody => exact h.native _ _ hf hbody (by simp [hout])
    | internal hprefix =>
      obtain ⟨rest, hrest⟩ := hprefix
      simp [← hrest] at hstart

/-! ### Functions of a compiled contract -/

/-- What is known of the functions of a contract that has been compiled. -/
structure Compiled (env : Env) (contract : String) (registry : Registry) (order : List String) (out : Output) :
    Prop where
  develops : Registry.Develops (Entry.QuietUnless (Storing env.program.types contract) env.program.types) {} registry
  sound : registry.Sound true
  written : out = registry.output order

theorem compileContract_compiled {decl : TypeDecl} (hdecl : env.program.types.types.get? contract = some decl)
    (h : compileContract env contract = .ok out) :
    ∃ registry order, Compiled env decl.name registry order out := by
  simp only [compileContract, Except.bind_eq_ok, Layout.declOf_eq_ok, hdecl, Option.some.injEq] at h
  obtain ⟨_, rfl, ⟨roots, registry⟩, hrun, hout⟩ := h
  have hemits : Emits true env (Storing env.program.types decl.name) (do emitShared; emitContract decl)
      fun _ => True :=
    emitShared_emits.bind fun _ _ => emitContract_emits (Dict.mem_values_of_get? hdecl)
  obtain ⟨hdevelops, hsound⟩ := hemits.run_sound hrun
  split at hout
  · obtain ⟨order, -, -, rfl⟩ := Registry.finalizeReachable_eq_ok hout
    exact ⟨registry, order, hdevelops, hsound, rfl⟩
  · obtain ⟨order, -, -, rfl⟩ := Registry.finalize_eq_ok hout
    exact ⟨registry, order, hdevelops, hsound, rfl⟩

/-- What a function with a part in storing the state calls, apart from what any code may call. -/
theorem Generate.Storing.callee_cases {table : TypeTable} {item : Item} {callee : String}
    (h : Storing table contract item) (hcallee : callee ∈ item.callees) :
    Target.Declared table.Mentions callee ∨
      (callee = dataWriter ∧ item.name? = some (Name.contractStore contract)) ∨
      (callee = Name.contractStore contract ∧ ∃ (signature : Signature) (before : List Target.Stmt),
        (∀ t ∈ before, t.Declared table.Mentions) ∧
        item = signature.define (before ++ [throwUnless ExitCode.invalidMessage (id "handled"),
          .expr (call (Name.contractStore contract) [id Name.self])]) ∧
        (signature.name = Name.recvInternal ∨ signature.name = Name.recvExternal)) := by
  cases h with
  | state hname _ hbefore hdata =>
    obtain ⟨stmt, hstmt, hmem⟩ := mem_stmtCallees.1 hcallee
    rcases List.mem_append.1 hstmt with hstmt | hstmt
    · exact .inl (hbefore stmt hstmt callee hmem)
    · obtain rfl := List.mem_singleton.1 hstmt
      rcases List.mem_cons.1 hmem with rfl | hmem
      · exact .inr (.inl ⟨rfl, by rw [Signature.name?_define, hname]⟩)
      · exact .inl (hdata callee (by simpa using hmem))
  | @entryPoint signature before hname _ hbefore =>
    obtain ⟨stmt, hstmt, hmem⟩ := mem_stmtCallees.1 hcallee
    rcases List.mem_append.1 hstmt with hstmt | hstmt
    · exact .inl (hbefore stmt hstmt callee hmem)
    · have hlast : callee = "throw_unless" ∨ callee = Name.contractStore contract := by
        rcases List.mem_pair.1 hstmt with rfl | rfl
        · exact .inl (by simpa [throwUnless, Target.call, Target.int, Target.id] using hmem)
        · exact .inr (by simpa [Target.call, Target.id] using hmem)
      rcases hlast with rfl | rfl
      · exact .inl (.inl (by decide))
      · exact .inr (.inr ⟨rfl, signature, before, hbefore, rfl, hname⟩)

namespace Compiled

variable {entry : Entry} {item : Item}

theorem get? (h : Compiled env contract registry order out) (hentry : entry ∈ out.functions) :
    registry.functions.get? entry.name = some entry :=
  (Registry.get?_of_mem_output h.sound.filed (h.written ▸ hentry)).1

theorem name_eq (h : Compiled env contract registry order out) (hentry : entry ∈ out.functions)
    (hitem : entry.definition = some item) : item.name? = some entry.name := by
  cases h.sound.entries _ _ (h.get? hentry) with
  | skipped _ => simp [Entry.skipped] at hitem
  | defined hname _ _ _ =>
    obtain rfl := Option.some.inj hitem
    exact hname

theorem quietUnless (h : Compiled env contract registry order out) (hentry : entry ∈ out.functions) :
    entry.QuietUnless (Storing env.program.types contract) env.program.types := by
  rcases h.develops.new _ _ (h.get? hentry) with hget | hnew
  · simp at hget
  · exact hnew

/-- A function that has a part in storing the state has one of three names. -/
theorem name_of_storing (h : Compiled env contract registry order out) (hentry : entry ∈ out.functions)
    (hitem : entry.definition = some item) (hstoring : Storing env.program.types contract item) :
    entry.name = Name.contractStore contract ∨
      entry.name = Name.recvInternal ∨ entry.name = Name.recvExternal := by
  have hname := h.name_eq hentry hitem
  cases hstoring with
  | state hsignature _ _ _ =>
    simp only [Signature.name?_define, Option.some.injEq] at hname
    exact .inl (hname ▸ hsignature)
  | entryPoint hsignature _ _ =>
    simp only [Signature.name?_define, Option.some.injEq] at hname
    exact .inr (hname ▸ hsignature)

/-- Functions that any code may call are quiet. -/
theorem quiet_of_known (h : Compiled env contract registry order out)
    (hdistinct : env.program.Distinct contract out) (hentry : entry ∈ out.functions)
    (hknown : env.program.types.MayCall entry.name) : entry.Quiet env.program.types := by
  rcases h.quietUnless hentry with ⟨item, hitem, hstoring⟩ | hquiet
  · rcases h.name_of_storing hentry hitem hstoring with hname | hname
    · exact absurd (hname ▸ hknown) hdistinct.not_known_store
    · exact absurd hknown (hdistinct.not_known_entryPoint hname (List.mem_map_of_mem hentry))
  · exact hquiet

theorem eq_of_name (h : Compiled env contract registry order out) {other : Entry} (hentry : entry ∈ out.functions)
    (hother : other ∈ out.functions) (hname : other.name = entry.name) : other = entry := by
  have hget := h.get? hother
  rw [hname, h.get? hentry] at hget
  exact (Option.some.inj hget).symm

/-- From a quiet function only names are reached that any code may call. -/
theorem known_of_reaches (h : Compiled env contract registry order out)
    (hdistinct : env.program.Distinct contract out) (hentry : entry ∈ out.functions)
    (hquiet : entry.Quiet env.program.types) {callee : String}
    (hreaches : Relation.ReflTransGen out.Calls entry.name callee) :
    callee = entry.name ∨ env.program.types.MayCall callee := by
  have hstep : ∀ caller callee, caller = entry.name ∨ env.program.types.MayCall caller → out.Calls caller callee →
      env.program.types.MayCall callee := by
    rintro caller callee hcaller ⟨other, hother, rfl, item, hitem, hcallee⟩
    have hotherQuiet : other.Quiet env.program.types := by
      rcases hcaller with hname | hknown
      · exact h.eq_of_name hentry hother hname ▸ hquiet
      · exact h.quiet_of_known hdistinct hother hknown
    exact hotherQuiet.declared item hitem callee hcallee
  induction hreaches with
  | refl => exact .inl rfl
  | tail _ hcalls ih => exact .inr (hstep _ _ ih hcalls)

/-- A function that can be called is written in the module. -/
theorem entry_of_get? {host : Host} {name : String}
    (hget : ({ Code.ofOutput out with host }).functions.get? name = some item) :
    ∃ entry ∈ out.functions, entry.name = name ∧ entry.definition = some item := by
  obtain ⟨entry, hentry, hdef⟩ := List.mem_filterMap.1 (Dict.mem_of_get?_ofList hget)
  obtain ⟨item', hitem, heq⟩ := Option.map_eq_some_iff.1 hdef
  obtain ⟨rfl, rfl⟩ := Prod.mk.injEq .. ▸ heq
  exact ⟨entry, hentry, rfl, hitem⟩

/-- Code that starts from quiet functions cannot replace the data. -/
theorem calm (h : Compiled env contract registry order out) (hdistinct : env.program.Distinct contract out)
    (host : Host) : Code.Calm { Code.ofOutput out with host } env.program.types.MayCall where
  callees := by
    intro name item hknown hget callee hcallee
    obtain ⟨entry, hentry, rfl, hitem⟩ := entry_of_get? hget
    exact (h.quiet_of_known hdistinct hentry hknown).declared item hitem callee hcallee
  constants := by
    intro name e hget
    have hconstants : out.constants = [] := by
      have hregistry : registry.constants = .empty := h.develops.constants
      rw [h.written]
      simp [Registry.output, hregistry, Dict.values, Dict.empty]
    simp [Code.ofOutput, hconstants, Dict.ofList] at hget
  writer := hdistinct.not_known_writer

/-- The function that replaces the data is the target's own. -/
theorem rollsBack_writer (h : Compiled env contract registry order out) {host : Host} {vs : List Val} :
    RollsBack (Code.call { Code.ofOutput out with host } dataWriter vs) := by
  refine rollsBack_call fun signature body hget => ?_
  obtain ⟨entry, hentry, hname, hitem⟩ := entry_of_get? hget
  cases h.sound.entries _ _ (h.get? hentry) with
  | skipped _ => simp [Entry.skipped] at hitem
  | defined _ _ hpermitted _ =>
    obtain rfl : _ = dataWriter := hname
    exact absurd (by decide) hpermitted.not_mem_builtins

/-- Storing the state changes the data only as the last thing that is done. -/
theorem rollsBack_store (h : Compiled env contract registry order out)
    (hdistinct : env.program.Distinct contract out) {host : Host} {vs : List Val} :
    RollsBack (Code.call { Code.ofOutput out with host } (Name.contractStore contract) vs) := by
  have hcalm := h.calm hdistinct host
  refine rollsBack_call fun signature body hget => ?_
  obtain ⟨entry, hentry, hname, hitem⟩ := entry_of_get? hget
  rcases h.quietUnless hentry with ⟨item, hitem', hstoring⟩ | hquiet
  · obtain rfl : item = .function signature body := by simpa [hitem] using hitem'.symm
    generalize hfunction : Item.function signature body = item at hstoring
    cases hstoring with
    | state _ _ hbefore hdata =>
      obtain ⟨-, rfl⟩ := Item.function.inj hfunction
      refine hcalm.block_call (declared_stmtCallees.2 hbefore) ?_ fun _ => h.rollsBack_writer
      exact declared_calleesOf.2 (by simpa using hdata)
    | entryPoint hsignature _ _ =>
      obtain ⟨rfl, -⟩ := Item.function.inj hfunction
      have hsame : signature.name = entry.name := by simpa [Item.name?] using h.name_eq hentry hitem
      exact absurd (hsame.trans hname) (Name.contractStore_ne_entryPoint hsignature)
  · exact (hcalm.block (hquiet.declared _ hitem)).rollsBack

/-- A message that is not handled to the end leaves the data as it was. -/
theorem rollsBack_entryPoint (h : Compiled env contract registry order out)
    (hdistinct : env.program.Distinct contract out) {host : Host} {name : String} {vs : List Val}
    (hname : name = Name.recvInternal ∨ name = Name.recvExternal) :
    RollsBack (Code.call { Code.ofOutput out with host } name vs) := by
  have hcalm := h.calm hdistinct host
  refine rollsBack_call fun signature body hget => ?_
  obtain ⟨entry, hentry, rfl, hitem⟩ := entry_of_get? hget
  rcases h.quietUnless hentry with ⟨item, hitem', hstoring⟩ | hquiet
  · obtain rfl : item = .function signature body := by simpa [hitem] using hitem'.symm
    generalize hfunction : Item.function signature body = item at hstoring
    cases hstoring with
    | state hsignature _ _ _ =>
      obtain ⟨rfl, -⟩ := Item.function.inj hfunction
      have hsame : signature.name = entry.name := by simpa [Item.name?] using h.name_eq hentry hitem
      exact absurd (hsame.symm.trans hsignature) (Name.contractStore_ne_entryPoint hname)
    | @entryPoint _ before _ _ hbefore =>
      obtain ⟨-, rfl⟩ := Item.function.inj hfunction
      have hcheck : ∀ t ∈ before ++ [throwUnless ExitCode.invalidMessage (id "handled")],
          t.Declared env.program.types.Mentions := List.forall_mem_append.2 ⟨hbefore, by simp⟩
      rw [← List.singleton_append, ← List.append_assoc]
      refine hcalm.block_call (declared_stmtCallees.2 hcheck) ?_ fun _ => h.rollsBack_store hdistinct
      exact declared_calleesOf.2 (by simp)
  · exact (hcalm.block (hquiet.declared _ hitem)).rollsBack

end Compiled

/-- **State is written only by a handled message.** Whatever a program compiles to, only the function
that stores the state replaces the data of the contract, only the entry points call that one, and a
message that is not handled to the end changes nothing. -/
theorem compileContract_isolated {decl : TypeDecl} (hdecl : env.program.types.types.get? contract = some decl)
    (hdistinct : env.program.Distinct decl.name out) (h : compileContract env contract = .ok out) :
    out.Isolated decl.name := by
  obtain ⟨registry, order, hcompiled⟩ := compileContract_compiled hdecl h
  have hwriter : ¬ env.program.types.MayCall dataWriter := hdistinct.not_known_writer
  have hstore : ¬ env.program.types.MayCall (Name.contractStore decl.name) := hdistinct.not_known_store
  refine ⟨?writer, ?store, ?getMethods, ?rollback⟩
  case writer =>
    rintro caller ⟨entry, hentry, rfl, item, hitem, hcallee⟩
    rcases hcompiled.quietUnless hentry with ⟨item', hitem', hstoring⟩ | hquiet
    · obtain rfl := Option.mem_unique hitem' hitem
      rcases hstoring.callee_cases hcallee with hknown | ⟨-, hname⟩ | ⟨hsame, -⟩
      · exact absurd hknown hwriter
      · exact Option.some.inj ((hcompiled.name_eq hentry hitem).symm.trans hname)
      · have hhead := congrArg (fun s : String => s.toList.head?) hsame
        simp [Name.contractStore, Name.ofType] at hhead
    · exact absurd (hquiet.declared item hitem _ hcallee) hwriter
  case store =>
    intro entry hentry item hitem hcallee
    rcases hcompiled.quietUnless hentry with ⟨item', hitem', hstoring⟩ | hquiet
    · obtain rfl := Option.mem_unique hitem' hitem
      rcases hstoring.callee_cases hcallee with hknown | ⟨hsame, -⟩ | ⟨-, signature, before, hbefore, rfl, hname⟩
      · exact absurd hknown hstore
      · have hhead := congrArg (fun s : String => s.toList.head?) hsame
        simp [Name.contractStore, Name.ofType] at hhead
      · have hentryName := hcompiled.name_eq hentry hitem
        rw [Signature.name?_define, Option.some.injEq] at hentryName
        refine ⟨hentryName ▸ hname, signature, before, fun hmem => hstore ?_, rfl⟩
        exact declared_stmtCallees.2 hbefore _ hmem
    · exact absurd (hquiet.declared item hitem _ hcallee) hstore
  case getMethods =>
    rintro entry hentry signature body n hitem hattribute callee hreaches
      ⟨other, hother, rfl, item, hitem', hcallee⟩
    have hquiet : entry.Quiet env.program.types := by
      refine (hcompiled.quietUnless hentry).resolve_left ?_
      rintro ⟨item, hitem', hstoring⟩
      obtain rfl : item = .function signature body := by simpa [hitem] using hitem'.symm
      generalize hfunction : Item.function signature body = item at hstoring
      cases hstoring with
      | state _ hattributes _ _ | entryPoint _ hattributes _ =>
        obtain ⟨rfl, -⟩ := Item.function.inj hfunction
        exact hattributes n hattribute
    rcases hcompiled.known_of_reaches hdistinct hentry hquiet hreaches with hname | hknown
    · obtain rfl := hcompiled.eq_of_name hentry hother hname
      exact hwriter (hquiet.declared item hitem' _ hcallee)
    · exact hwriter ((hcompiled.quiet_of_known hdistinct hother hknown).declared item hitem' _ hcallee)
  case rollback =>
    exact fun host name args s e s' hname => hcompiled.rollsBack_entryPoint hdistinct hname s e s'

end

/-- A contract that counts empty messages, shows the count to callers from outside, and adds up with a
function that the target is to supply. -/
def tallyTable : TypeTable :=
  let int := TypeRef.plain "Int"
  let self := Expr.ident ⟨.plain "Tally", {}⟩ "self"
  let count := Expr.field ⟨int, {}⟩ self "count"
  let step := Expr.call ⟨int, {}⟩ "after" [count]
  let getter : Function :=
    { name := "count", selfType := some (.plain "Tally"), returns := int, isGetter := true
      body := .statements [.ret {} (some count)] }
  let after : Function := { name := "after", params := [⟨"n", int⟩], returns := int, body := .native "step_of" }
  let tally := { TypeDecl.ofFields .contract "Tally" [⟨"count", 0, int, none, none⟩]
    with
      functions := .ofList [("count", getter)]
      receivers := [{ selector := .internal .empty, body := [.assign {} count step] }] }
  (TypeTable.primitives.addType tally).addFunction after

/-- The contract with its plans. -/
def tallyEnv : Env where
  program := { types := tallyTable, plans := (planProgram tallyTable).toOption.getD {} }
  evaluate := noConstants
  config := Config.pruned {}

theorem tally_isolated : ∃ out, compileContract tallyEnv "Tally" = .ok out ∧
    (∃ f ∈ out.functions, f.name = Name.getterMethod "count") ∧ out.Isolated "Tally" := by
  have hcompiles : ∃ out, compileContract tallyEnv "Tally" = .ok out ∧
      out.names.contains (Name.getterMethod "count") = true ∧ out.names.contains "step_of" = false := by
    have hany : (compileContract tallyEnv "Tally").toOption.any (fun out =>
        out.names.contains (Name.getterMethod "count") && !out.names.contains "step_of") = true := by
      decide +kernel
    obtain ⟨out, hout, hnames⟩ := Except.exists_of_toOption_any hany
    exact ⟨out, hout, by simpa using hnames⟩
  obtain ⟨out, hout, hgetter, hnative⟩ := hcompiles
  have hall : ∀ P : Function → Prop, (∀ f ∈ tallyTable.functions.values, P f) →
      (∀ decl ∈ tallyTable.types.values, ∀ f ∈ decl.functions.values, P f) →
      ∀ f, tallyTable.HasFunction f → P f := by
    rintro P hfree hmethods f (hf | ⟨decl, hdecl, hf⟩)
    · exact hfree f hf
    · exact hmethods decl hdecl f hf
  have hdistinct : tallyEnv.program.Distinct "Tally" out := by
    refine ⟨by decide, fun name f hget => ?_, hall _ (by decide) (by decide), ?_⟩
    · have hkey := Dict.mem_keys_iff.2 ⟨f, hget⟩
      exact (by decide : ∀ name ∈ tallyTable.functions.keys, Name.IsPlain name) name hkey
    · have hnames : ∀ f, tallyTable.HasFunction f → ∀ name ∈ f.nativeName, name = "step_of" :=
        hall (fun f => ∀ name ∈ f.nativeName, name = "step_of") (by decide) (by decide)
      intro f name hf hbody
      obtain rfl := hnames f hf name (by simp [Function.nativeName, hbody])
      simp only [List.mem_append, not_or]
      exact ⟨by decide, by simpa using hnative⟩
  refine ⟨out, hout, by simpa [Output.names] using hgetter, ?_⟩
  obtain ⟨decl, hdecl, hname⟩ : ∃ decl, tallyTable.types.get? "Tally" = some decl ∧ decl.name = "Tally" :=
    ⟨_, rfl, rfl⟩
  rw [← hname] at hdistinct ⊢
  exact compileContract_isolated hdecl hdistinct hout

end CellCompiler
