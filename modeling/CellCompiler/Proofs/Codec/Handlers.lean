import CellCompiler.Proofs.Codec.Contract
import CellCompiler.Proofs.Codec.State
import CellCompiler.Proofs.Generate.Entering
import CellCompiler.Proofs.Machine.Drawing

/-!
# Contracts with any handlers

What a contract does for its handlers does not depend on what they do.

* `Code.WithHandlers` is a finished module with any functions in the place of its handlers;
* `Routing` collects how the router and the handlers of a contract have been entered: after the
  records of the program, each under a name of its own;
* `Code.filled` is the code of a registry with the functions of a module in place of its own. It runs the
  codecs of all records, also of those that the module has been written out without
  (`Compilation.library_filled`), and the module does the same (`Compilation.call_filled`).
-/

namespace CellCompiler

open Emission (Entry Registry Output)
open Generate Machine
open Target (Item)

variable {c : Code} {env : Env} {d d' : Draft} {decl : TypeDecl} {registry : Registry} {order : List String}
  {handlers : List Handler}

/-! ### Other handlers -/

/-- The function of the name handles messages of the contract. -/
def TypeDecl.IsHandler (decl : TypeDecl) (name : String) : Prop :=
  ∃ receiver ∈ decl.receivers, receiverName decl.name receiver.selector = .ok name

/-- A finished module with any functions in the place of its handlers, as long as they call what is there. -/
structure Machine.Code.WithHandlers (c : Code) (decl : TypeDecl) (out : Output) : Prop where
  others : ∀ name, ¬ decl.IsHandler name → c.functions.get? name = (Code.ofOutput out).functions.get? name
  handlers : ∀ name, decl.IsHandler name → ∃ item, c.functions.get? name = some item ∧
    ∀ callee ∈ item.callees, callee ∈ primitives ∨ c.functions.contains callee = true
  constants : c.constants = (Code.ofOutput out).constants

/-! ### How handlers are entered -/

/-- How a contract has been entered as far as its messages are concerned. -/
structure Routing (env : Env) (decl : TypeDecl) (registry : Registry) (handlers : List Handler) :
    Prop where
  named : HandlersOf decl handlers
  distinct : (handlers.map (·.name)).Nodup
  entered : ∀ h ∈ handlers, ∃ entry item, registry.functions.get? h.name = some entry ∧
    entry.definition = some item
  router : Entered true env registry (routerItem decl handlers .internal)
  entryPoint : Entered true env registry (recvInternalItem decl)
  /-- The records have been entered first, when there were no handlers yet. -/
  records : ∃ first : Registry, first.Extends registry ∧ first.OwnsHelpers ∧
    (∀ c, Underlies c first → ∀ decl ∈ env.program.types.structs, Supports c env decl) ∧
    ∀ h ∈ handlers, first.functions.get? h.name = none

theorem Generate.Emits.kept {α : Type} {special : Item → Prop} {g : Gen α} {P : α → Prop} {a : α}
    (h : Emits true env special g P) (hrun : g env d = .ok a d') (hd : d.registry.Sound true) :
    d.registry.Extends d'.registry ∧ d'.registry.Sound true := by
  obtain ⟨hdevelops, hsound, -⟩ := h d a d' hrun hd
  exact ⟨hdevelops.kept, hsound⟩

theorem Emission.Registry.Extends.get?_eq_none {first later : Registry} {name : String}
    (h : first.Extends later) (hnone : later.functions.get? name = none) : first.functions.get? name = none := by
  cases hold : first.functions.get? name with
  | none => rfl
  | some entry => simp [h _ _ hold] at hnone

/-- A handler is entered under a name that was free. -/
theorem emitReceiver_enters {receiver : Receiver} {handler : Handler}
    (h : emitReceiver decl receiver env d = .ok handler d') (hd : d.registry.Sound true) :
    d.registry.functions.get? handler.name = none ∧
      ∃ entry item, d'.registry.functions.get? handler.name = some entry ∧ entry.definition = some item := by
  simp only [emitReceiver, run_bind, run_pure, run_ofCell] at h
  obtain ⟨name, _, ⟨hname, rfl⟩, _, _, hdefine, rfl, rfl⟩ := h
  obtain ⟨item, d₁, hitem, r, hr, rfl⟩ := run_define.1 hdefine
  have hitemName : item.name? = some name := by
    simp only [receiverItem, run_bind, run_pure] at hitem
    obtain ⟨signature, _, hsignature, _, _, -, _, _, -, rfl, -⟩ := hitem
    simpa using (withBindings_eq_ok hsignature).1
  obtain ⟨suffix, -, hemitted⟩ := name_of_receiverName hname
  have hbuilds : ∀ deps : Deps env, Builds true deps (receiverItem decl receiver name) (Enterable deps) :=
    fun _ => receiverItem_builds (hemitted ▸ Name.isConstructed_ofType decl.name suffix)
  obtain ⟨hgrows, -, -⟩ := hbuilds ⟨fun _ => True, fun _ => True⟩ _ _ _ hitem hd
  obtain ⟨entry, hentry, hdef⟩ := Registry.get?_register hitemName hr
  obtain ⟨_, -, hnone, -⟩ := Registry.register_eq_ok hitemName hr
  exact ⟨hgrows.registry.kept.get?_eq_none hnone, entry, item, hentry, hdef⟩

/-- Handlers are entered one after the other, each under a name that was free. -/
theorem emitReceivers_enters {receivers : List Receiver}
    (h : receivers.mapM (emitReceiver decl) env d = .ok handlers d') (hd : d.registry.Sound true) :
    (handlers.map (·.name)).Nodup ∧ ∀ h ∈ handlers, d.registry.functions.get? h.name = none ∧
      ∃ entry item, d'.registry.functions.get? h.name = some entry ∧ entry.definition = some item := by
  induction receivers generalizing d handlers with
  | nil =>
    obtain ⟨rfl, -⟩ := run_pure.1 h
    simp
  | cons receiver receivers ih =>
    simp only [List.mapM_cons, run_bind, run_pure] at h
    obtain ⟨handler, d₁, hfirst, rest, d₂, hrest, rfl, rfl⟩ := h
    have hemits : Emits true env (fun _ => True) (emitReceiver decl receiver) fun h =>
        env.program.types.Mentions h.name := emitReceiver_emits
    have hall : Emits true env (fun _ => True) (receivers.mapM (emitReceiver decl)) fun handlers =>
        ∀ h ∈ handlers, env.program.types.Mentions h.name := Emits.mapM fun receiver _ => emitReceiver_emits
    obtain ⟨hkept, hd₁⟩ := hemits.kept hfirst hd
    obtain ⟨hkept', -⟩ := hall.kept hrest hd₁
    obtain ⟨hfree, entry, item, hentry, hdef⟩ := emitReceiver_enters hfirst hd
    obtain ⟨hnodup, hothers⟩ := ih hrest hd₁
    rw [List.map_cons, List.nodup_cons, List.forall_mem_cons]
    refine ⟨⟨fun hmem => ?_, hnodup⟩, ⟨hfree, entry, item, hkept' _ _ hentry, hdef⟩, fun h hh => ?_⟩
    · -- the name of the first one is not free any more
      obtain ⟨other, hother, hname⟩ := List.mem_map.1 hmem
      simpa [hname, hentry] using (hothers other hother).1
    · obtain ⟨hnone, hentered⟩ := hothers h hh
      exact ⟨hkept.get?_eq_none hnone, hentered⟩

theorem emitEntryPoints_enters (hmentions : ∀ h ∈ handlers, env.program.types.Mentions h.name) :
    Enters true env (emitEntryPoints decl handlers) fun reg _ =>
      Entered true env reg (routerItem decl handlers .internal) ∧ Entered true env reg (recvInternalItem decl) := by
  refine (Enters.define fun _ => routerItem_builds hmentions).bind fun _ => ?_
  refine (Enters.define_of_emits recvInternal_emits.forget).bind fun _ => ?_
  split
  · refine (Enters.of_emits (emitRouter_emits hmentions)).andThen fun _ => ?_
    exact (Enters.of_emits recvExternal_emits.forget).andThen fun _ => .pure fun _ hentry hrouter => ⟨hrouter, hentry⟩
  · exact .pure fun _ hentry hrouter => ⟨hrouter, hentry⟩

/-- The handlers of a contract are entered, and then its router. -/
theorem emitContract_receives (hmem : decl ∈ env.program.types.types.values) {roots : List String}
    (h : emitContract decl env d = .ok roots d') (hd : d.registry.Sound true) :
    ∃ d₁ d₂ handlers, d.registry.Extends d₁.registry ∧ d₁.registry.Sound true ∧
      decl.receivers.mapM (emitReceiver decl) env d₁ = .ok handlers d₂ ∧ d₂.registry.Extends d'.registry ∧
      Entered true env d'.registry (routerItem decl handlers .internal) ∧
      Entered true env d'.registry (recvInternalItem decl) := by
  have hgetters : Emits true env (fun _ => True) (decl.getters.mapM (emitGetMethod decl)) fun names =>
      ∀ name ∈ names, True :=
    Emits.mapM fun f hf => emitGetMethod_emits (.inr ⟨decl, hmem, (List.mem_filter.1 hf).1⟩)
  have hrest : ∀ {d d' roots}, (do
      declareContext
      emitStateCodecs decl
      decl.functions.values.forM emitFunction
      emitState decl
      let handlers ← decl.receivers.mapM (emitReceiver decl)
      let entryPoints ← emitEntryPoints decl handlers
      let getMethods ← decl.getters.mapM (emitGetMethod decl)
      return entryPoints ++ getMethods : Gen (List String)) env d = .ok roots d' → d.registry.Sound true →
      ∃ d₁ d₂ handlers, d.registry.Extends d₁.registry ∧ d₁.registry.Sound true ∧
        decl.receivers.mapM (emitReceiver decl) env d₁ = .ok handlers d₂ ∧ d₂.registry.Extends d'.registry ∧
        Entered true env d'.registry (routerItem decl handlers .internal) ∧
        Entered true env d'.registry (recvInternalItem decl) := by
    intro d d' roots h hd
    simp only [run_bind, run_pure] at h
    obtain ⟨_, d₁, h₁, _, d₂, h₂, _, d₃, h₃, _, d₄, h₄, handlers, d₅, h₅, _, d₆, h₆, _, d₇, h₇, -, rfl⟩ := h
    have hcontext : Emits true env (fun _ => True) declareContext fun _ => True :=
      .of_builds fun _ => declareContext_builds
    have hcodecs : Emits true env (fun _ => True) (emitStateCodecs decl) fun _ => True := emitStateCodecs_emits
    have hfunctions : Emits true env (fun _ => True) (decl.functions.values.forM emitFunction) fun _ => True :=
      Emits.forM fun f hf => emitFunction_emits (.inr ⟨decl, hmem, hf⟩)
    have hhandlers : Emits true env (fun _ => True) (decl.receivers.mapM (emitReceiver decl)) fun handlers =>
        ∀ h ∈ handlers, env.program.types.Mentions h.name := Emits.mapM fun receiver _ => emitReceiver_emits
    obtain ⟨hkept₁, hd₁⟩ := hcontext.kept h₁ hd
    obtain ⟨hkept₂, hd₂⟩ := hcodecs.kept h₂ hd₁
    obtain ⟨hkept₃, hd₃⟩ := hfunctions.kept h₃ hd₂
    obtain ⟨hkept₄, hd₄⟩ := emitState_emits.kept h₄ hd₃
    obtain ⟨hkept₅, hd₅⟩ := hhandlers.kept h₅ hd₄
    have hmentions := (hhandlers _ _ _ h₅ hd₄).2.2
    obtain ⟨hkept₆, hd₆, hrouter⟩ := emitEntryPoints_enters hmentions _ _ _ h₆ hd₅
    obtain ⟨hkept₇, -⟩ := hgetters.kept h₇ hd₆
    exact ⟨d₄, d₅, handlers, hkept₁.trans (hkept₂.trans (hkept₃.trans hkept₄)), hd₄, h₅,
      hkept₆.trans hkept₇, hrouter _ hkept₇⟩
  unfold emitContract at h
  split at h
  · obtain ⟨_, _, hdefect, -⟩ := run_bind.1 h
    exact absurd hdefect run_throw
  · obtain ⟨_, _, hread, h⟩ := run_bind.1 h
    obtain ⟨-, rfl⟩ := run_read.1 hread
    split at h
    · obtain ⟨_, d₁, hheader, h⟩ := run_bind.1 h
      have hemits : Emits true env (fun _ => True) (onRegistry
          (·.addHeader (.comment [s!"Contract {decl.name}"]))) fun _ => True := .of_builds fun _ => addHeader_builds
      obtain ⟨hkept, hd₁⟩ := hemits.kept hheader hd
      obtain ⟨d₂, d₃, handlers, hextends, hrest⟩ := hrest h hd₁
      exact ⟨d₂, d₃, handlers, hkept.trans hextends, hrest⟩
    · exact hrest h hd

theorem Compilation.routing (h : Compilation env decl registry order)
    (hmem : decl ∈ env.program.types.types.values) : ∃ handlers, Routing env decl registry handlers := by
  obtain ⟨roots, draft, hrun, rfl⟩ := h.emitted
  obtain ⟨⟨⟩, d, hshared, hcontract⟩ := run_bind.1 hrun
  obtain ⟨first, hfirst, howns, hsupports⟩ := emitShared_records hshared
  have hshared' : Emits true env (fun _ => True) emitShared fun _ => True := emitShared_emits
  obtain ⟨-, hd⟩ := hshared'.kept hshared Registry.sound_empty
  obtain ⟨d₁, d₂, handlers, hkept₁, hd₁, hhandlers, hkept₂, hrouter, hentry⟩ :=
    emitContract_receives hmem hcontract hd
  obtain ⟨hdistinct, hentered⟩ := emitReceivers_enters hhandlers hd₁
  have hemits : Emits true env (fun _ => True) (decl.receivers.mapM (emitReceiver decl)) fun handlers =>
      ∀ h ∈ handlers, env.program.types.Mentions h.name := Emits.mapM fun receiver _ => emitReceiver_emits
  obtain ⟨hkept, -⟩ := hemits.kept hhandlers hd₁
  have hextends := hfirst.trans hkept₁
  refine ⟨handlers, emitReceivers_eq_ok hhandlers, hdistinct, fun h hh => ?_, hrouter, hentry, first, hextends.trans (hkept.trans hkept₂), howns, hsupports, fun h hh =>
    hextends.get?_eq_none (hentered h hh).1⟩
  obtain ⟨-, entry, item, hentry, hdef⟩ := hentered h hh
  exact ⟨entry, item, hkept₂ _ _ hentry, hdef⟩

/-! ### The code with other handlers -/

/-- The code with the functions of another one in place of its own, where that one has any. -/
def Machine.Code.filled (base c : Code) : Code where
  functions := ⟨base.functions.entries.map fun p => (p.1, (c.functions.get? p.1).getD p.2)⟩
  constants := c.constants
  host := c.host

theorem Machine.Code.get?_filled {base : Code} {name : String} : (base.filled c).functions.get? name =
    (base.functions.get? name).map fun item => (c.functions.get? name).getD item := by
  simp only [filled, Dict.get?]
  induction base.functions.entries with
  | nil => rfl
  | cons p entries ih =>
    obtain ⟨key, item⟩ := p
    rw [List.map_cons, List.lookup_cons, List.lookup_cons, ih]
    cases hkey : name == key with
    | true =>
      obtain rfl := beq_iff_eq.1 hkey
      rfl
    | false => rfl

/-- There is a handler for every receiver. -/
theorem Routing.exists_handler (h : Routing env decl registry handlers) : ∀ receiver ∈ decl.receivers,
    ∃ handler ∈ handlers, handler.selector = receiver.selector ∧
      receiverName decl.name receiver.selector = .ok handler.name := by
  refine List.forall_mem_of_forall₂ (P := (· ∈ handlers)) h.named.flip ?_ fun _ hmem => hmem
  rintro handler receiver hboth hmem
  exact ⟨handler, hmem, hboth⟩

theorem Routing.exists_named (h : Routing env decl registry handlers) {name : String}
    (hname : decl.IsHandler name) : ∃ handler ∈ handlers, handler.name = name := by
  obtain ⟨receiver, hreceiver, hname⟩ := hname
  obtain ⟨handler, hmem, -, hnamed⟩ := h.exists_handler receiver hreceiver
  exact ⟨handler, hmem, Except.ok.inj (hnamed.symm.trans hname)⟩

/-- Every handler is for a receiver. -/
theorem Routing.exists_receiver (h : Routing env decl registry handlers) : ∀ handler ∈ handlers,
    ∃ receiver ∈ decl.receivers, handler.selector = receiver.selector ∧
      receiverName decl.name receiver.selector = .ok handler.name := by
  refine List.forall_mem_of_forall₂ (P := (· ∈ decl.receivers)) h.named ?_ fun _ hmem => hmem
  rintro receiver handler hboth hmem
  exact ⟨receiver, hmem, hboth⟩

/-- A handler has a name of its own. -/
theorem TypeDecl.IsHandler.exists_suffix {name : String} (h : decl.IsHandler name) :
    ∃ suffix, ¬ "contract_".toList <+: suffix.toList ∧ name = Name.ofType decl.name suffix := by
  obtain ⟨receiver, -, hname⟩ := h
  exact name_of_receiverName hname

theorem TypeDecl.IsHandler.isEmitted {name : String} (h : decl.IsHandler name) : Name.isEmitted name = true := by
  obtain ⟨suffix, -, rfl⟩ := h.exists_suffix
  exact Name.isEmitted_ofType _ _

namespace Compilation

section

variable (h : Compilation env decl registry order) (hc : c.WithHandlers decl (registry.output order))

include h hc

theorem get?_filled_other {name : String} (hname : ¬ decl.IsHandler name) :
    ((registry.code c.host).filled c).functions.get? name = (registry.code c.host).functions.get? name := by
  rw [Code.get?_filled, hc.others name hname]
  cases hout : (Code.ofOutput (registry.output order)).functions.get? name with
  | none => simp
  | some item =>
    obtain ⟨entry, hentry, hdef⟩ := output_within h.sound.filed order name item hout
    rw [Registry.code_backs h.sound _ _ _ hentry hdef]
    rfl

theorem filled_proper : ((registry.code c.host).filled c).Proper := by
  intro name item hget
  by_cases hname : decl.IsHandler name
  · exact .inl hname.isEmitted
  · rw [h.get?_filled_other hc hname] at hget
    exact Registry.code_proper h.sound name item hget

variable (hrouting : Routing env decl registry handlers)

include hrouting

theorem get?_filled_handler {name : String} (hname : decl.IsHandler name) :
    ((registry.code c.host).filled c).functions.get? name = c.functions.get? name := by
  obtain ⟨handler, hhandler, rfl⟩ := hrouting.exists_named hname
  obtain ⟨entry, item, hentry, hdef⟩ := hrouting.entered handler hhandler
  obtain ⟨item', hitem', -⟩ := hc.handlers _ hname
  rw [Code.get?_filled, Registry.code_backs h.sound _ _ _ hentry hdef, hitem']
  rfl

/-- The filled code runs the codecs of all records. -/
theorem library_filled (hw : env.program.types.WellNamed) (hsep : env.program.types.Separate)
    (hplanned : Plans.PlannedProgram env.program.types env.program.plans)
    (hvalid : env.program.plans.validate = .ok ()) : Library ((registry.code c.host).filled c) env := by
  obtain ⟨first, hextends, howns, hsupports, hfree⟩ := hrouting.records
  refine ⟨h.filled_proper hc, hw, hsep, hplanned, hvalid, hsupports _ ⟨?_, howns⟩⟩
  intro name entry item hentry hdef
  rw [h.get?_filled_other hc]
  · exact Registry.code_backs h.sound name entry item (hextends _ _ hentry) hdef
  · intro hname
    obtain ⟨handler, hhandler, rfl⟩ := hrouting.exists_named hname
    simp [hfree handler hhandler] at hentry

/-- Nothing that the module has is different in the filled code. -/
theorem get?_filled_of_get? {name : String} {item : Item} (hget : c.functions.get? name = some item) :
    ((registry.code c.host).filled c).functions.get? name = some item := by
  by_cases hname : decl.IsHandler name
  · rw [h.get?_filled_handler hc hrouting hname, hget]
  · rw [hc.others name hname] at hget
    obtain ⟨entry, hentry, hdef⟩ := output_within h.sound.filed order name item hget
    rw [h.get?_filled_other hc hname]
    exact Registry.code_backs h.sound _ _ _ hentry hdef

/-- What is written out of the registry is not different in the filled code. -/
theorem get?_filled_of_writes {name : String} (hname : Writes registry order name) :
    c.functions.get? name = ((registry.code c.host).filled c).functions.get? name := by
  by_cases hhandler : decl.IsHandler name
  · exact (h.get?_filled_handler hc hrouting hhandler).symm
  · rw [hc.others name hhandler, h.get?_filled_other hc hhandler]
    exact h.get?_eq hname

theorem alike_filled : Alike (fun _ => True)
    (fun name => c.functions.get? name = ((registry.code c.host).filled c).functions.get? name) c
    ((registry.code c.host).filled c) where
  functions := fun _ hname => hname
  callees := by
    intro name item hknown hget callee hcallee
    by_cases hname : decl.IsHandler name
    · obtain ⟨item', hitem', hcallees⟩ := hc.handlers name hname
      obtain rfl : item = item' := by simpa [hget] using hitem'
      rcases hcallees callee hcallee with hprimitive | hcontains
      · -- primitives are functions of neither
        have hnone : ∀ {base : Code}, base.Proper → base.functions.get? callee = none := fun hproper => by
          by_contra hsome
          obtain ⟨item, hitem⟩ := Option.ne_none_iff_exists'.1 hsome
          exact hproper.not_mem_primitives hitem hprimitive
        have hother : ¬ decl.IsHandler callee := fun hhandler =>
          not_mem_primitives_of_isEmitted hhandler.isEmitted hprimitive
        rw [hc.others _ hother, hnone (h.filled_proper hc),
          hnone ((output_within h.sound.filed order).proper h.sound)]
      · obtain ⟨item, hitem⟩ := Dict.contains_eq_true_iff.1 hcontains
        rw [hitem, h.get?_filled_of_get? hc hrouting hitem]
    · rw [hc.others name hname] at hget
      obtain ⟨entry, hentry, hdef⟩ := output_within h.sound.filed order name item hget
      exact h.get?_filled_of_writes hc hrouting (h.writes_callee hentry hdef (h.writes_of_get? hget) hcallee)
  constants := rfl
  constantCallees := by
    intro name e hget
    simp [hc.constants, h.get?_constants name] at hget
  host := rfl
  writer := fun _ _ => trivial

/-- **The module does what the filled code does.** -/
theorem call_filled {name : String}
    (hname : c.functions.get? name = ((registry.code c.host).filled c).functions.get? name) {vs : List Val} :
    call c name vs = call ((registry.code c.host).filled c) name vs :=
  (h.alike_filled hc hrouting).funext hname

theorem call_filled_of_get? {name : String} {item : Item} (hget : c.functions.get? name = some item) {vs : List Val} :
    call c name vs = call ((registry.code c.host).filled c) name vs :=
  h.call_filled hc hrouting (hget.trans (h.get?_filled_of_get? hc hrouting hget).symm)

end

/-- The callees of a function that is written are written. -/
theorem writes_of_entered (h : Compilation env decl registry order) {g : Gen Item}
    (hentered : Entered true env registry g) {name callee : String} (hname : Writes registry order name)
    (hitem : ∀ {d item d'}, g env d = .ok item d' → item.name? = some name ∧ callee ∈ item.callees) :
    Writes registry order callee := by
  obtain ⟨d, item, d', hrun, -, -, hget⟩ := hentered
  obtain ⟨hsame, hcallee⟩ := hitem hrun
  obtain ⟨entry, hentry, hdef⟩ := hget name hsame
  exact h.writes_callee hentry hdef hname hcallee

theorem writes_router (h : Compilation env decl registry order) (hrouting : Routing env decl registry handlers) :
    Writes registry order (Name.routerInternal decl.name) :=
  h.writes_of_entered hrouting.entryPoint h.root fun hrun =>
    ⟨(recvInternalItem_calls hrun).1, (recvInternalItem_calls hrun).2.2.2⟩

end Compilation

end CellCompiler
