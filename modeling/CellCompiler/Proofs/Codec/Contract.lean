import CellCompiler.Proofs.Closure
import CellCompiler.Proofs.Codec.RoundTrip
import CellCompiler.Proofs.Emission.Pruning
import CellCompiler.Proofs.Machine.Alike

/-!
# From a compiled contract to running code

What has been entered while a contract was compiled is code of its own (`Registry.code`), whatever
pruning leaves of it. It runs the codecs of all records, of the state of the contract and of the
arguments of every contract.

* `Deploys c env decl` and `Persists c env decl` collect what the code runs to deploy a contract, and
  to keep its state;
* `TypeTable.LeavesHelpers` says that the program does not leave helpers to the target's own library.
  Then the registry owns them (`Compilation.underlies`);
* `Compilation` is what is known of a contract that has been compiled, and `Compilation.call_eq` says
  that the functions of the finished module do the same there as in the code of the registry.
-/

namespace CellCompiler

open Emission (Entry Registry Output)
open Generate Machine

variable {c : Code} {env : Env} {d d' : Draft} {decl : TypeDecl} {registry : Registry} {host : Host}

/-! ### The code of a registry -/

/-- Everything that has been entered, ready to run. -/
def Emission.Registry.code (registry : Registry) (host : Host) : Code :=
  { Code.ofOutput (registry.output registry.functions.keys) with host }

namespace Emission.Registry

theorem code_proper (hsound : registry.Sound true) : (registry.code host).Proper :=
  (output_within hsound.filed _).proper hsound

theorem code_backs (hsound : registry.Sound true) : Backs (registry.code host) registry := by
  intro name entry item hget hdef
  obtain rfl : entry.name = name := hsound.filed name entry hget
  have hkind : entry.kind ≠ .skip := by
    cases hsound.entries _ entry hget with
    | skipped _ => simp [Entry.skipped] at hdef
    | defined _ hkind _ _ => exact hkind
  refine get?_ofOutput hsound.filed ((mem_functions_output hsound.filed).2 ⟨?_, hget, hkind⟩) hdef
  exact Dict.mem_keys_iff.2 ⟨entry, hget⟩

end Emission.Registry

/-! ### Helpers -/

/-- No function that the target is to supply for the program takes the name of a helper. -/
def TypeTable.LeavesHelpers (table : TypeTable) : Prop :=
  ∀ f name, table.HasFunction f → f.body = .native name → Helper.isOwn name = false

theorem TypeTable.LeavesHelpers.isOwn {table : TypeTable} (h : table.LeavesHelpers) {name : String}
    (hname : table.Supplies name) : Helper.isOwn name = false := by
  rcases hname with hdict | ⟨f, hf, hbody⟩
  · simp [Helper.isOwn, List.isPrefixOf_iff_prefix.2 hdict]
  · exact h f name hf hbody

/-! ### What a contract runs -/

/-- The record of the arguments of a contract. -/
structure ArgumentsOf (env : Env) (decl : TypeDecl) (r : Record) : Prop where
  name_eq : r.name = Name.initArgs decl.name
  fields_eq : r.fields = decl.initParams.map fun p => (p.name, p.ty)
  plan_eq : env.program.plans.initArgs.get? decl.name = some r.plan

theorem ofInitArgs_eq_ok {r : Record} (h : Record.ofInitArgs decl env d = .ok r d') :
    d' = d ∧ ArgumentsOf env decl r := by
  simp only [Record.ofInitArgs, run_bind, run_read, run_ofExcept, run_pure, Except.mapError_eq_ok,
    Plans.getInitArgs_eq_ok] at h
  obtain ⟨_, _, ⟨rfl, rfl⟩, plan, _, ⟨hplan, rfl⟩, rfl, rfl⟩ := h
  exact ⟨rfl, rfl, rfl, hplan⟩

/-- What the code runs to deploy a contract. -/
structure Deploys (c : Code) (env : Env) (decl : TypeDecl) : Prop where
  arguments : ∃ r, ArgumentsOf env decl r ∧ Codecs c env r
  child : Runs c env (initChildItem decl)

/-- What the code runs to keep the state of a contract. -/
structure Persists (c : Code) (env : Env) (decl : TypeDecl) : Prop where
  state : ∃ r, RecordOf env decl r ∧ Codecs c env r
  init : Runs c env (initItem decl)
  load : Runs c env (loadItem decl)
  store : Runs c env (storeItem decl)

theorem emitChildSupport_links : Links c env (emitChildSupport decl) (Deploys c env decl) := by
  refine .read_bind (fun _ _ _ => ofInitArgs_eq_ok) fun r hr => ?_
  refine (emitWriter_links.andThen fun _ => emitReader_links.andThen fun _ =>
    Links.define fun _ => initChildItem_builds).mono ?_
  rintro ⟨⟨hwriter, hcell⟩, ⟨hreader, hnotMut⟩, hchild⟩
  exact ⟨⟨r, hr, hwriter, hcell, hreader, hnotMut⟩, hchild⟩

theorem emitShared_links : Links c env emitShared
    ((∀ decl ∈ env.program.types.structs, Supports c env decl) ∧
      ∀ decl ∈ env.program.types.contracts, Deploys c env decl) := by
  have htable : ∀ d t d', table env d = .ok t d' → d' = d ∧ t = env.program.types := by
    intro d t d' h
    simp only [table, run_bind, run_read, run_pure] at h
    obtain ⟨_, _, ⟨rfl, rfl⟩, rfl, rfl⟩ := h
    exact ⟨rfl, rfl⟩
  refine .read_bind htable fun t ht => ?_
  subst ht
  have hfree : Emits true env (fun _ => False) (env.program.types.functions.values.forM emitFunction)
      fun _ => True := Emits.forM fun f hf => emitFunction_emits (.inl hf)
  have hmethods : Emits true env (fun _ => False)
      ((env.program.types.types.values.filter (!·.isContract)).forM fun decl =>
        decl.functions.values.forM emitFunction) fun _ => True :=
    Emits.forM fun decl hdecl => Emits.forM fun f hf =>
      emitFunction_emits (.inr ⟨decl, List.mem_of_mem_filter hdecl, hf⟩)
  have hstructs : Links c env (env.program.types.structs.forM emitStruct)
      (∀ decl ∈ env.program.types.structs, Supports c env decl) :=
    Links.forM fun decl _ => emitStruct_links
  have hcontracts : Links c env (env.program.types.contracts.forM emitChildSupport)
      (∀ decl ∈ env.program.types.contracts, Deploys c env decl) :=
    Links.forM fun decl _ => emitChildSupport_links
  exact (hstructs.andThen fun _ => (Links.of_emits hfree).andThen fun _ =>
    (Links.of_emits hmethods).andThen fun _ => hcontracts).mono fun h => ⟨h.1, h.2.2.2⟩

theorem emitState_links : Links c env (emitState decl)
    (Runs c env (initItem decl) ∧ Runs c env (loadItem decl) ∧ Runs c env (storeItem decl)) :=
  (Links.define fun _ => initItem_builds).andThen fun _ =>
    (Links.define fun _ => loadItem_builds).andThen fun _ =>
      Links.define_special (.define_special (fun _ _ => storeItem_builds) fun _ _ _ => storing_storeItem)

/-- The handlers of a contract, one for each receiver. -/
def HandlersOf (decl : TypeDecl) (handlers : List Handler) : Prop :=
  List.Forall₂ (fun receiver handler => handler.selector = receiver.selector ∧
    receiverName decl.name receiver.selector = .ok handler.name) decl.receivers handlers

/-- What the code runs to take messages from inside. -/
structure Receives (c : Code) (env : Env) (decl : TypeDecl) (handlers : List Handler) : Prop where
  named : HandlersOf decl handlers
  router : Runs c env (routerItem decl handlers .internal)
  entryPoint : Runs c env (recvInternalItem decl)

theorem emitReceiver_eq_ok {receiver : Receiver} {handler : Handler}
    (h : emitReceiver decl receiver env d = .ok handler d') : handler.selector = receiver.selector ∧
      receiverName decl.name receiver.selector = .ok handler.name := by
  simp only [emitReceiver, run_bind, run_pure, run_ofCell] at h
  obtain ⟨name, _, ⟨hname, rfl⟩, _, _, -, rfl, -⟩ := h
  exact ⟨rfl, hname⟩

theorem emitReceivers_eq_ok {receivers : List Receiver} {handlers : List Handler}
    (h : receivers.mapM (emitReceiver decl) env d = .ok handlers d') :
    List.Forall₂ (fun receiver handler => handler.selector = receiver.selector ∧
      receiverName decl.name receiver.selector = .ok handler.name) receivers handlers := by
  refine (run_mapM h).imp fun receiver handler hrun => ?_
  obtain ⟨_, _, hrun⟩ := hrun
  exact emitReceiver_eq_ok hrun

theorem emitEntryPoints_links {handlers : List Handler} (hhandlers : HandlersOf decl handlers)
    (hmentions : ∀ h ∈ handlers, env.program.types.Mentions h.name) :
    Links c env (emitEntryPoints decl handlers) (Receives c env decl handlers) := by
  have hrouter : Links c env (emitRouter decl handlers .internal)
      (Runs c env (routerItem decl handlers .internal)) :=
    Links.define fun _ => routerItem_builds hmentions
  have hrest : Links c env (if handlers.any Handler.isExternal then do
        emitRouter decl handlers .external
        define (.contract decl.name) (recvExternalItem decl)
        return [Name.recvInternal, Name.recvExternal]
      else return [Name.recvInternal]) True := by
    have hexternal : Emits true env (Storing env.program.types decl.name) (do
        emitRouter decl handlers .external
        define (.contract decl.name) (recvExternalItem decl)
        return [Name.recvInternal, Name.recvExternal]) fun _ => True :=
      (emitRouter_emits hmentions).bind fun _ _ => recvExternal_emits.bind fun _ _ => .pure trivial
    split
    · exact .of_emits_special hexternal
    · exact .of_emits (.pure (P := fun _ => True) trivial)
  refine (hrouter.andThen fun _ => (Links.define_special recvInternal_emits).andThen fun _ => hrest).mono ?_
  rintro ⟨hrouter, hentry, -⟩
  exact ⟨hhandlers, hrouter, hentry⟩

theorem emitContract_links (hdecl : decl ∈ env.program.types.types.values) : Links c env (emitContract decl)
    (Persists c env decl ∧ ∃ handlers, Receives c env decl handlers) := by
  have hcontext : Emits true env (fun _ => False) declareContext fun _ => True :=
    .of_builds fun _ => declareContext_builds
  have hcodecs : Links c env (emitStateCodecs decl) (∃ r, RecordOf env decl r ∧ Codecs c env r) := by
    refine .read_bind (fun _ _ _ => ofDecl_eq_ok) fun r hr => ?_
    refine (emitWriter_links.andThen fun _ => emitReader_links).mono ?_
    rintro ⟨⟨hwriter, hcell⟩, hreader, hnotMut⟩
    exact ⟨r, hr, hwriter, hcell, hreader, hnotMut⟩
  have hfunctions : Emits true env (fun _ => False) (decl.functions.values.forM emitFunction)
      fun _ => True := Emits.forM fun f hf => emitFunction_emits (.inr ⟨decl, hdecl, hf⟩)
  have hgetters : ∀ names : List String, Emits true env (fun _ => False) (do
      let getMethods ← decl.getters.mapM (emitGetMethod decl)
      return names ++ getMethods) fun _ => True := fun names =>
    (Emits.mapM fun f hf => emitGetMethod_emits (.inr ⟨decl, hdecl, (List.mem_filter.1 hf).1⟩)).bind
      fun _ _ => .pure trivial
  have hall : Links c env (do
      declareContext
      emitStateCodecs decl
      decl.functions.values.forM emitFunction
      emitState decl
      let handlers ← decl.receivers.mapM (emitReceiver decl)
      let entryPoints ← emitEntryPoints decl handlers
      let getMethods ← decl.getters.mapM (emitGetMethod decl)
      return entryPoints ++ getMethods)
      (Persists c env decl ∧ ∃ handlers, Receives c env decl handlers) := by
    have hreceivers : Links c env (do
        let handlers ← decl.receivers.mapM (emitReceiver decl)
        let entryPoints ← emitEntryPoints decl handlers
        let getMethods ← decl.getters.mapM (emitGetMethod decl)
        return entryPoints ++ getMethods) (∃ handlers, Receives c env decl handlers) := by
      have hemits : Emits true env (fun _ => False) (decl.receivers.mapM (emitReceiver decl))
          fun handlers => ∀ h ∈ handlers, env.program.types.Mentions h.name :=
        Emits.mapM fun receiver _ => emitReceiver_emits
      refine .emits_bind hemits fun handlers d d' hrun hmentions => ?_
      exact ((emitEntryPoints_links (emitReceivers_eq_ok hrun) hmentions).andThen fun names =>
        Links.of_emits (hgetters names)).mono fun h => ⟨handlers, h.1⟩
    refine ((Links.of_emits hcontext).andThen fun _ => hcodecs.andThen fun _ =>
      (Links.of_emits hfunctions).andThen fun _ => emitState_links.andThen fun _ => hreceivers).mono ?_
    rintro ⟨-, hstate, -, ⟨hinit, hload, hstore⟩, hreceives⟩
    exact ⟨⟨hstate, hinit, hload, hstore⟩, hreceives⟩
  have hheader : Emits true env (fun _ => False) (onRegistry
      (·.addHeader (.comment [s!"Contract {decl.name}"]))) fun _ => True :=
    .of_builds fun _ => addHeader_builds
  unfold emitContract
  split
  · intro d a d' h
    obtain ⟨_, _, hdefect, -⟩ := run_bind.1 h
    exact absurd hdefect run_throw
  · have hread : ∀ d a d', (read : Gen Env) env d = .ok a d' → d' = d ∧ True := fun d a d' h =>
      ⟨(run_read.1 h).2.symm, trivial⟩
    refine .read_bind hread fun _ _ => ?_
    split
    · exact ((Links.of_emits hheader).andThen fun _ => hall).mono And.right
    · exact hall

/-! ### Compiled contracts -/

/-- The function of a name is written out if it has been entered. -/
def Writes (registry : Registry) (order : List String) (name : String) : Prop :=
  ∀ entry, registry.functions.get? name = some entry → entry.kind ≠ .skip →
    entry ∈ (registry.output order).functions

/-- What is known of a contract that has been compiled: what has been entered, and which of it is written
out in which order. -/
structure Compilation (env : Env) (decl : TypeDecl) (registry : Registry) (order : List String) : Prop where
  emitted : ∃ roots draft, (do emitShared; emitContract decl : Gen (List String)) env {} = .ok roots draft ∧
    draft.registry = registry
  develops : Registry.Develops (Entry.QuietUnless (Storing env.program.types decl.name) env.program.types)
    {} registry
  sound : registry.Sound true
  links : ∀ c, Underlies c registry → (∀ decl ∈ env.program.types.structs, Supports c env decl) ∧
    (∀ decl ∈ env.program.types.contracts, Deploys c env decl) ∧ Persists c env decl ∧
      ∃ handlers, Receives c env decl handlers
  closed : (registry.output order).Closed registry.Supplies
  root : Writes registry order Name.recvInternal

/-- The entry point loads the state, passes the message on and stores the state. -/
theorem recvInternalItem_calls {item : Target.Item} (hrun : recvInternalItem decl env d = .ok item d') :
    item.name? = some Name.recvInternal ∧ Name.contractLoad decl.name ∈ item.callees ∧
      Name.contractStore decl.name ∈ item.callees ∧ Name.routerInternal decl.name ∈ item.callees := by
  simp only [recvInternalItem, used, run_bind, run_modify, run_pure] at hrun
  obtain ⟨_, _, -, _, _, ⟨_, _, rfl, rfl, rfl⟩, _, _, ⟨_, _, rfl, rfl, rfl⟩, _, _, ⟨_, _, rfl, rfl, rfl⟩,
    rfl, rfl⟩ := hrun
  simp [runMessage, Target.Signature.define, Target.var, Target.modify, Target.call, Target.Item.name?]

theorem recvInternal_mem_roots {roots : List String} (h : emitContract decl env d = .ok roots d') :
    decl.isContract = true ∧ Name.recvInternal ∈ roots := by
  have hentry : ∀ {handlers d names d'}, emitEntryPoints decl handlers env d = .ok names d' →
      Name.recvInternal ∈ names := by
    intro handlers d names d' h
    simp only [emitEntryPoints, run_bind] at h
    obtain ⟨_, _, -, _, _, -, h⟩ := h
    split at h
    · simp only [run_bind, run_pure] at h
      obtain ⟨_, _, -, _, _, -, rfl, -⟩ := h
      simp
    · obtain ⟨rfl, -⟩ := run_pure.1 h
      simp
  have hrest : ∀ {d d'}, (do
      declareContext
      emitStateCodecs decl
      decl.functions.values.forM emitFunction
      emitState decl
      let handlers ← decl.receivers.mapM (emitReceiver decl)
      let entryPoints ← emitEntryPoints decl handlers
      let getMethods ← decl.getters.mapM (emitGetMethod decl)
      return entryPoints ++ getMethods : Gen (List String)) env d = .ok roots d' →
      Name.recvInternal ∈ roots := by
    intro d d' h
    simp only [run_bind, run_pure] at h
    obtain ⟨_, _, -, _, _, -, _, _, -, _, _, -, _, _, -, names, _, hnames, _, _, -, rfl, -⟩ := h
    exact List.mem_append_left _ (hentry hnames)
  unfold emitContract at h
  split at h
  · obtain ⟨_, _, hdefect, -⟩ := run_bind.1 h
    exact absurd hdefect run_throw
  · next hcontract =>
    refine ⟨by simpa using hcontract, ?_⟩
    obtain ⟨_, _, -, h⟩ := run_bind.1 h
    split at h
    · obtain ⟨_, _, -, h⟩ := run_bind.1 h
      exact hrest h
    · exact hrest h

theorem compileContract_compilation {contract : String} {out : Output}
    (h : compileContract env contract = .ok out) : ∃ decl registry order,
      env.program.types.types.get? contract = some decl ∧ decl.isContract = true ∧
        Compilation env decl registry order ∧ out = registry.output order := by
  simp only [compileContract, Except.bind_eq_ok, Layout.declOf_eq_ok] at h
  obtain ⟨decl, hdecl, ⟨roots, registry⟩, hrun, hout⟩ := h
  have hmem := Dict.mem_values_of_get? hdecl
  have hemits : Emits true env (Storing env.program.types decl.name) (do emitShared; emitContract decl)
      fun _ => True := emitShared_emits.bind fun _ _ => emitContract_emits hmem
  obtain ⟨hdevelops, hsound⟩ := hemits.run_sound hrun
  unfold Generate.run at hrun
  split at hrun
  · next draft hdraft =>
    obtain ⟨rfl, rfl⟩ : _ ∧ draft.registry = registry := by simpa using hrun
    obtain ⟨⟨⟩, d₁, hshared, hcontract⟩ := run_bind.1 hdraft
    obtain ⟨hkind, hroot⟩ := recvInternal_mem_roots hcontract
    have hlinks : ∀ c, Underlies c draft.registry → _ := fun c hc =>
      ((emitShared_links.andThen fun _ => emitContract_links hmem) {} _ draft hdraft
        Registry.sound_empty).2.2 hc
    have hcompilation : ∀ starts order, draft.registry.checkDependencies = .ok () →
        draft.registry.sort starts = .ok order →
        (Name.recvInternal ∈ draft.registry.functions.keys → Name.recvInternal ∈ starts) →
        Compilation env decl draft.registry order := by
      intro starts order hcheck hsort hstarts
      obtain ⟨hordered, hvisited⟩ := Registry.sort_ordered hsort
      refine ⟨⟨_, _, hdraft, rfl⟩, hdevelops, hsound, fun c hc => ?_,
        output_closed hsound (hordered.calleesFirst hsound.filed hcheck), fun entry hget hkind => ?_⟩
      · obtain ⟨⟨hstructs, hdeploys⟩, hpersists⟩ := hlinks c hc
        exact ⟨hstructs, hdeploys, hpersists⟩
      · have hname := hsound.filed _ entry hget
        refine (Registry.mem_functions_output hsound.filed).2 ⟨?_, hname ▸ hget, hkind⟩
        exact hname ▸ hvisited _ (hstarts (Dict.mem_keys_iff.2 ⟨entry, hget⟩))
    split at hout
    · obtain ⟨order, hcheck, hsort, rfl⟩ := Registry.finalizeReachable_eq_ok hout
      refine ⟨decl, _, order, hdecl, hkind, hcompilation _ order hcheck hsort fun hkey => ?_, rfl⟩
      exact List.mem_filter.2 ⟨hkey, by simpa using hroot⟩
    · obtain ⟨order, hcheck, hsort, rfl⟩ := Registry.finalize_eq_ok hout
      exact ⟨decl, _, order, hdecl, hkind, hcompilation _ order hcheck hsort id, rfl⟩
  · simp at hrun

namespace Compilation

variable {order : List String}

theorem underlies (h : Compilation env decl registry order) (hhelpers : env.program.types.LeavesHelpers) :
    Underlies (registry.code host) registry := by
  refine ⟨Registry.code_backs h.sound, fun name entry hget hown => ?_⟩
  by_contra hnone
  rw [Option.not_isSome_iff_eq_none] at hnone
  obtain rfl := h.sound.filed name entry hget
  have hquiet : entry.Quiet env.program.types := by
    rcases h.develops.new _ entry hget with hold | ⟨item, hitem, -⟩ | hquiet
    · simp at hold
    · simp [hnone] at hitem
    · exact hquiet
  rw [hhelpers.isOwn (hquiet.supplied hnone)] at hown
  exact absurd hown (by simp)

theorem kind_ne_skip (h : Compilation env decl registry order) {name : String} {entry : Entry}
    {item : Target.Item} (hget : registry.functions.get? name = some entry) (hdef : entry.definition = some item) :
    entry.kind ≠ .skip := by
  cases h.sound.entries _ entry hget with
  | skipped _ => simp [Entry.skipped] at hdef
  | defined _ hkind _ _ => exact hkind

theorem get?_eq (h : Compilation env decl registry order) {name : String} (hname : Writes registry order name) :
    (Code.ofOutput (registry.output order)).functions.get? name =
      (registry.code host).functions.get? name := by
  ext item
  constructor
  · intro hget
    obtain ⟨entry, hentry, hdef⟩ := output_within h.sound.filed order name item hget
    exact Registry.code_backs h.sound name entry item hentry hdef
  · intro hget
    obtain ⟨entry, hentry, hdef⟩ := output_within h.sound.filed _ name item hget
    obtain rfl := h.sound.filed name entry hentry
    exact get?_ofOutput h.sound.filed (hname entry hentry (h.kind_ne_skip hentry hdef)) hdef

theorem writes_of_get? (h : Compilation env decl registry order) {name : String} {item : Target.Item}
    (hget : (Code.ofOutput (registry.output order)).functions.get? name = some item) :
    Writes registry order name := by
  intro entry hentry _
  obtain ⟨written, hwritten, hitem⟩ := List.mem_filterMap.1 (Dict.mem_of_get?_ofList hget)
  obtain ⟨item', -, heq⟩ := Option.map_eq_some_iff.1 hitem
  obtain ⟨rfl, rfl⟩ := Prod.mk.injEq .. ▸ heq
  have hfound := (Registry.get?_of_mem_output h.sound.filed hwritten).1
  rw [hfound] at hentry
  exact Option.some.inj hentry ▸ hwritten

/-- What a written function calls is written too. -/
theorem writes_callee (h : Compilation env decl registry order) {name callee : String} {entry : Entry}
    {item : Target.Item} (hget : registry.functions.get? name = some entry)
    (hdef : entry.definition = some item) (hname : Writes registry order name)
    (hcallee : callee ∈ item.callees) : Writes registry order callee := by
  intro other hother hkind
  have hmem := hname entry hget (h.kind_ne_skip hget hdef)
  rcases h.closed.calls entry hmem item hdef callee hcallee with hbuiltin | hdeclared
  · cases h.sound.entries _ other hother with
    | skipped _ => exact absurd rfl hkind
    | defined _ _ hpermitted _ =>
      obtain rfl := h.sound.filed _ _ hother
      exact absurd hbuiltin hpermitted.not_mem_builtins
  · obtain ⟨i, hi⟩ := List.mem_iff_getElem?.1 hmem
    rcases h.closed.order i entry hi callee hdeclared with rfl | ⟨skipped, hskipped, hskip⟩ | ⟨g, hg, rfl⟩
    · rw [h.sound.filed name entry hget, hget] at hother
      exact Option.some.inj hother ▸ hmem
    · rw [hskipped] at hother
      exact absurd (Option.some.inj hother ▸ hskip) hkind
    · have hgmem := List.mem_of_mem_take hg
      rw [(Registry.get?_of_mem_output h.sound.filed hgmem).1] at hother
      exact Option.some.inj hother ▸ hgmem

/-- Contracts are written without constants. -/
theorem get?_constants (h : Compilation env decl registry order) (name : String) :
    (Code.ofOutput (registry.output order)).constants.get? name = none := by
  have hregistry : registry.constants = .empty := h.develops.constants
  have hconstants : (registry.output order).constants = [] := by
    simp [Registry.output, hregistry, Dict.values, Dict.empty]
  simp [Code.ofOutput, hconstants, Dict.ofList]

theorem alike (h : Compilation env decl registry order) :
    Alike (fun _ => True) (Writes registry order) { Code.ofOutput (registry.output order) with host }
      (registry.code host) where
  functions := fun name hname => h.get?_eq hname
  callees := by
    intro name item hname hget callee hcallee
    obtain ⟨entry, hentry, hdef⟩ := output_within h.sound.filed order name item hget
    exact h.writes_callee hentry hdef hname hcallee
  constants := rfl
  constantCallees := by
    intro name e hget
    simp [h.get?_constants name] at hget
  host := rfl
  writer := fun _ _ => trivial

/-- **What is written runs as everything that has been entered.** -/
theorem call_eq (h : Compilation env decl registry order) {name : String} (hname : Writes registry order name)
    {vs : List Val} : call { Code.ofOutput (registry.output order) with host } name vs =
      call (registry.code host) name vs := h.alike.funext hname

end Compilation

end CellCompiler
