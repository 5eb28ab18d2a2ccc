import CellCompiler.Proofs.Calling.Records
import CellCompiler.Proofs.Codec.Contract

/-!
# Calls in contracts

A contract loads and stores its state, makes data for deployments, and routes messages to its
handlers.

* `part_agrees` is about the functions that every contract has, `routerItem_agrees` about its
  routers, `getMethodItem_agrees` about its get-methods;
* `constructed_agrees` is about all functions of a module.
-/

namespace CellCompiler

open Target

namespace Generate

variable {env : Env} {contract : TypeDecl} {r : Record} {d d' : Draft} {name type : String}

/-! ### Records of contracts -/

theorem named_ofDecl (h : env.program.Followed) {decl : TypeDecl}
    (hdecl : decl ∈ env.program.types.types.values) (hr : Record.ofDecl decl env d = .ok r d') :
    r.Named env ∧ r.name = decl.name := by
  obtain ⟨-, hrecord⟩ := ofDecl_eq_ok hr
  have htype : '$' ∉ r.name.toList := hrecord.name_eq ▸ unmarked_of_mem h hdecl
  refine ⟨⟨fun c s hs harity hthreads => ?_, fun c => ?_, ?_, ?_⟩, hrecord.name_eq⟩
  · exact signs_part (.codec c) htype hs harity hthreads
  · exact suits_part (.codec c) htype rfl (by simp)
  · exact suits_part (.codec .reader) htype rfl fun _ => rfl
  · exact h.plans _ (List.mem_append_left _ (Dict.mem_values_of_get? hrecord.plan_eq))

theorem named_ofInitArgs (h : env.program.Followed)
    (hcontract : contract ∈ env.program.types.contracts)
    (hr : Record.ofInitArgs contract env d = .ok r d') : r.Named env := by
  obtain ⟨-, hrecord⟩ := ofInitArgs_eq_ok hr
  have hplain : ∀ c, (Name.Origin.initCodec contract.name c).IsPlain := fun _ => by
    simpa [Name.Origin.IsPlain, Name.Origin.identifiers] using
      unmarked_of_mem h (TypeTable.mem_contracts.1 hcontract).1
  have hname : ∀ c, (Name.Origin.initCodec contract.name c).name = .ok (c.name r.name) :=
    fun c => by rw [hrecord.name_eq]; rfl
  refine ⟨fun c s hs harity hthreads => ?_, fun c => ?_, ?_, ?_⟩
  · refine .origin (hplain c) (hs ▸ hname c) fun convention hc => ?_
    obtain rfl := Option.some.inj hc
    exact ⟨harity, hthreads⟩
  · exact TypeTable.suits_origin (hplain c) (hname c) rfl rfl (by simp)
  · exact TypeTable.suits_origin (hplain .reader) (hname .reader) rfl rfl fun _ => rfl
  · exact h.plans _ (List.mem_append_right _ (Dict.mem_values_of_get? hrecord.plan_eq))

theorem suits_initCodec (c : Name.Codec) (htype : '$' ∉ type.toList) {arity : Nat} {modifying : Bool}
    (harity : arity = c.convention.arity) (hthreads : modifying = true → c.convention.threads = true) :
    env.program.types.Suits ⟨c.name (Name.initArgs type), arity, modifying⟩ :=
  TypeTable.suits_origin (o := .initCodec type c)
    (by simpa [Name.Origin.IsPlain, Name.Origin.identifiers] using htype) rfl rfl harity hthreads

/-! ### The state -/

theorem initialState_accepted (h : env.program.Followed) :
    Accepted env (initialState contract) := by
  have hfield : ∀ field, Accepted env (initialField field) := by
    intro field
    unfold initialField
    split
    · exact literal_accepted h
    · refine (Yields.ofTable (f := fun t => Layout.nullPattern t field.ty)).mono fun e he => ?_
      obtain ⟨shape, -, rfl⟩ := Except.map_eq_ok.1 he
      exact everyCall_nulls shape
  unfold initialState
  split
  · exact .pure everyCall_emptyTuple
  · exact (Yields.mapM_all fun field _ => hfield field).bind fun items hitems =>
      .pure (by simpa using hitems.2)

theorem everyCall_initArguments : (initArguments contract).EveryCall env.Accepts := by
  unfold initArguments
  split
  · exact everyCall_emptyTuple
  · simp only [Expr.everyCall_tensor, List.forall_mem_map]
    exact fun _ _ => everyCall_id

theorem loadArguments_yields {load : Target.Expr} (hload : load.EveryCall env.Accepts) :
    Yields env (loadArguments contract load) fun p => p.1.EveryCall env.Accepts ∧
      p.2.length = contract.initParams.length ∧ ∀ e ∈ p.2, e.EveryCall env.Accepts := by
  unfold loadArguments
  split
  · next hparams => exact .pure (by simpa [hparams] using hload)
  · refine .table_bind (.andThen fun shape => ?_)
    refine (Yields.mapM_all fun p _ => unpack_yields).bind fun values hvalues => .pure ?_
    exact ⟨by simp [hload, shape.everyCall_pattern], hvalues⟩

/-! ### Entry points -/

/-- Entry points are not called. -/
theorem signs_uncalled {s : Signature} {o : Name.Origin} (hname : o.name = .ok s.name)
    (hplain : o.IsPlain) (hnone : o.convention env.program.types = none) :
    env.program.types.Signs s :=
  .origin hplain hname fun c hc => by simp [hnone] at hc

/-! ### Functions of every contract -/

section

variable (h : env.program.Followed) (hcontract : contract ∈ env.program.types.contracts)

include h hcontract

theorem unmarked_contract : '$' ∉ contract.name.toList :=
  unmarked_of_mem h (TypeTable.mem_contracts.1 hcontract).1

theorem initArity_eq : env.program.types.initArity contract.name = contract.initParams.length := by
  simp [TypeTable.initArity, h.wellNamed.get?_name (TypeTable.mem_contracts.1 hcontract).1]

theorem initItem_agrees : Yields env (initItem contract) (Agrees env) := by
  refine withBindings_yields.bind fun s ⟨hname, ps, hps, hall⟩ => prologue_accepted.bind fun opened hopened => ?_
  refine (initialState_accepted h).bind fun initial hinitial => selfBinding_accepted.bind fun self hself => ?_
  refine (lowerStmts_accepted h _ _ (h.fits_init hcontract)).bind fun body hbody => ?_
  have hdefine : ∀ ty last, (∀ t ∈ last, t.EveryCall env.Accepts) →
      Agrees env ((s.returning ty).define (opened ++ [var self initial] ++ body ++ last)) := by
    intro ty last hlast
    refine agrees_define (signs_part .contractInit (unmarked_contract h hcontract) (by simpa [Name.Part.name] using hname)
      ?_ (by simp [Name.Part.convention])) ?_
    · simp [hps, Name.Part.convention, initArity_eq h hcontract, ← hall.length_eq, initBindings]
    · simp only [List.forall_mem_append, List.forall_mem_singleton]
      exact ⟨⟨⟨hopened, by simp [hself, hinitial]⟩, hbody⟩, hlast⟩
  split
  · rw [pure_bind]
    exact .andThen fun ty => .pure (hdefine ty [] (by simp))
  · refine (returned_accepted (by simp)).bind fun e he => ?_
    rw [pure_bind]
    exact .andThen fun ty => .pure (hdefine ty _ (by simpa using he))

theorem initChildItem_agrees : Yields env (initChildItem contract) (Agrees env) := by
  have htype := unmarked_contract h hcontract
  have hcode : env.program.types.Suits ⟨Helper.dictGetCodeName, 2, false⟩ :=
    suits_named (h := .dictGetCode) (by decide) rfl (by decide)
  have hstore : env.program.types.Suits ⟨Name.writer (Name.initArgs contract.name), 2, false⟩ :=
    suits_initCodec .writer htype rfl (by simp)
  refine .helper_bind (.used_bind (withBindings_yields.bind fun s ⟨hname, ps, hps, hall⟩ => .pure ?_))
  refine agrees_define (signs_part .initChild htype (by simpa [Name.Part.name] using hname) ?_
    (by simp [Name.Part.convention])) ?_
  · simp [hps, Name.Part.convention, initArity_eq h hcontract, ← hall.length_eq, initBindings]
  · simp [Env.Accepts, builtins, hcode, hstore, everyCall_storeFlag, everyCall_initArguments]

theorem loadItem_agrees : Yields env (loadItem contract) (Agrees env) := by
  have htype := unmarked_contract h hcontract
  have hreader : env.program.types.Suits ⟨Name.reader contract.name, 1, true⟩ :=
    suits_part (.codec .reader) htype rfl fun _ => rfl
  have hargs : env.program.types.Suits ⟨Name.reader (Name.initArgs contract.name), 1, true⟩ :=
    suits_initCodec .reader htype rfl fun _ => rfl
  refine .used_bind (.used_bind (.used_bind ?_))
  refine (loadArguments_yields (by simp [Env.Accepts, hargs])).bind ?_
  rintro ⟨bind, values⟩ ⟨hbind, hlength, hvalues⟩
  have hinit : env.program.types.Suits ⟨Name.contractInit contract.name, values.length, false⟩ :=
    suits_part .contractInit htype (hlength.trans (initArity_eq h hcontract).symm) (by simp)
  refine .andThen fun ty => .pure (agrees_define (signs_part .contractLoad htype
    (by simp [Name.Part.name]) (by simp [Name.Part.convention]) (by simp [Name.Part.convention])) ?_)
  simpa [Env.Accepts, builtins, hreader, hbind, hinit] using hvalues

theorem storeItem_agrees : Yields env (storeItem contract) (Agrees env) := by
  have htype := unmarked_contract h hcontract
  have hwriter : env.program.types.Suits ⟨Name.writer contract.name, 2, false⟩ :=
    suits_part (.codec .writer) htype rfl (by simp)
  refine .used_bind (.andThen fun ty => .pure (agrees_define (signs_part .contractStore htype
    (by simp [Name.Part.name]) (by simp [Name.Part.convention]) (by simp [Name.Part.convention])) ?_))
  simp [Env.Accepts, builtins, hwriter, everyCall_storeFlag]

theorem everyCall_runMessage {p : Name.Part} {args : List Target.Expr}
    (hp : p.convention (env.program.types.initArity contract.name) = ⟨args.length + 1, true⟩)
    (hargs : ∀ e ∈ args, e.EveryCall env.Accepts) :
    ∀ t ∈ runMessage (Name.contractLoad contract.name) (Name.contractStore contract.name)
      (p.name contract.name) args, t.EveryCall env.Accepts := by
  have htype := unmarked_contract h hcontract
  have hload : env.program.types.Suits ⟨Name.contractLoad contract.name, 0, false⟩ :=
    suits_part .contractLoad htype rfl (by simp)
  have hstore : env.program.types.Suits ⟨Name.contractStore contract.name, 1, false⟩ :=
    suits_part .contractStore htype rfl (by simp)
  have hrouter : env.program.types.Suits ⟨p.name contract.name, args.length + 1, true⟩ :=
    suits_part p htype (by rw [hp]) fun _ => by rw [hp]
  simpa [runMessage, Env.Accepts, hload, hstore, hrouter] using hargs

theorem recvInternalItem_agrees : Yields env (recvInternalItem contract) (Agrees env) := by
  have hverify : env.program.types.Suits ⟨Helper.verifyAddressName, 1, false⟩ :=
    suits_named (h := .verifyAddress) (by decide) rfl (by decide)
  refine .helper_bind (.used_bind (.used_bind (.used_bind (.pure (agrees_define
    (signs_uncalled (o := .recvInternal) ?_ ?_ rfl) ?_)))))
  · simp [Name.Origin.name]
  · simp [Name.Origin.IsPlain, Name.Origin.identifiers]
  · refine List.forall_mem_append.2 ⟨?_, everyCall_runMessage h hcontract (p := .routerInternal) rfl (by simp)⟩
    simp [Env.Accepts, builtins, hverify]

theorem recvExternalItem_agrees : Yields env (recvExternalItem contract) (Agrees env) := by
  refine .used_bind (.used_bind (.used_bind (.pure (agrees_define
    (signs_uncalled (o := .recvExternal) ?_ ?_ rfl) ?_))))
  · simp [Name.Origin.name]
  · simp [Name.Origin.IsPlain, Name.Origin.identifiers]
  · exact everyCall_runMessage h hcontract (p := .routerExternal) rfl (by simp)

theorem part_agrees {declared : Prop} {g : Gen Item} (hg : PartOf contract declared g) :
    Yields env g (Agrees env) := by
  cases hg with
  | init => exact initItem_agrees h hcontract
  | initChild => exact initChildItem_agrees h hcontract
  | load => exact loadItem_agrees h hcontract
  | store => exact storeItem_agrees h hcontract
  | recvInternal => exact recvInternalItem_agrees h hcontract
  | recvExternal => exact recvExternalItem_agrees h hcontract

/-! ### Routers -/

/-- Handlers are called with `self`, and with the payload if there is one. -/
theorem suits_handler {handler : Handler} (hh : handler.Of contract) :
    env.program.types.Suits
      ⟨handler.name, if handler.selector.payloadType?.isSome then 2 else 1, true⟩ := by
  obtain ⟨receiver, hreceiver, hselector⟩ := hh.receiver
  refine TypeTable.suits_origin (o := .member contract.name (.receiver handler.selector)) ?_
    hh.name_eq rfl rfl fun _ => rfl
  exact List.forall_mem_cons.2 ⟨unmarked_contract h hcontract,
    hselector ▸ h.selectors contract hcontract receiver hreceiver⟩

/-- The types of messages are declared under names without marks. -/
theorem unmarked_payload {handler : Handler} (hh : handler.Of contract) :
    ∀ typeName ∈ Name.Origin.selectorIdentifiers handler.selector, '$' ∉ typeName.toList := by
  obtain ⟨receiver, hreceiver, hselector⟩ := hh.receiver
  exact hselector ▸ h.selectors contract hcontract receiver hreceiver

end

/-- What a route needs of the handler that it leads to. -/
structure RouteAccepted (env : Env) (route : Route) : Prop where
  handler : env.program.types.Suits ⟨route.2, if route.1.payloadType?.isSome then 2 else 1, true⟩
  payload : ∀ typeName, route.1 = .binary typeName → '$' ∉ typeName.toList

theorem everyCall_dispatch (args : List Target.Expr)
    (hname : env.program.types.Suits ⟨name, args.length + 1, true⟩)
    (hargs : ∀ e ∈ args, e.EveryCall env.Accepts) :
    ∀ t ∈ dispatch name args, t.EveryCall env.Accepts := by
  simpa [dispatch, callHandler, handled, Env.Accepts, hname] using hargs

theorem everyCall_hasOpcode {bits : Target.Expr} :
    (hasOpcode bits).EveryCall env.Accepts ↔ bits.EveryCall env.Accepts := by
  simp [hasOpcode, inMsg, Env.Accepts, builtins]

theorem everyCall_bindOpcode {bits : Target.Expr} (hbits : bits.EveryCall env.Accepts) :
    ∀ t ∈ bindOpcode name bits, t.EveryCall env.Accepts := by
  simp [bindOpcode, everyCall_hasOpcode, inMsg, Env.Accepts, builtins, hbits]

theorem opcodeBits_yields : Accepted env opcodeBits := .andThen fun _ => .pure (by simp)

theorem typedBranch_yields {opcodeVar typeName reader handler : String}
    (hreader : env.program.types.Suits ⟨reader, 1, true⟩)
    (hhandler : env.program.types.Suits ⟨handler, 2, true⟩) :
    Yields env (typedBranch opcodeVar typeName reader handler) (Target.Stmt.EveryCall env.Accepts) := by
  have hdispatch := everyCall_dispatch [id "msg"] hhandler (by simp)
  refine .andThen fun opcode => .used_bind (.pure ?_)
  simpa [inMsg, Env.Accepts, hreader] using hdispatch

theorem suits_reader (htype : '$' ∉ type.toList) (bounced : Bool) : env.program.types.Suits
    ⟨if bounced then Name.readerBounced type else Name.reader type, 1, true⟩ := by
  cases bounced
  · exact suits_part (.codec .reader) htype rfl fun _ => rfl
  · exact suits_part (.codec .readerBounced) htype rfl fun _ => rfl

theorem opcodeBranches_accepted {routes : List Route} (hroutes : ∀ r ∈ routes, RouteAccepted env r) :
    AcceptedStmts env (opcodeBranches routes) := by
  induction routes with
  | nil => exact .pure (by simp)
  | cons route rest ih =>
    obtain ⟨hroute, hrest⟩ := List.forall_mem_cons.1 hroutes
    unfold opcodeBranches
    split
    · simp at *
    · next typeName handler tail heq =>
      obtain ⟨rfl, rfl⟩ := List.cons.inj heq
      have hreader : env.program.types.Suits _ := suits_reader (hroute.payload typeName rfl) false
      exact (typedBranch_yields hreader hroute.handler).bind fun first hfirst =>
        (ih hrest).bind fun out hout => .pure (List.forall_mem_cons.2 ⟨hfirst, hout⟩)
    · next heq =>
      obtain ⟨rfl, rfl⟩ := List.cons.inj heq
      exact ih hrest

theorem everyCall_emptyBranches {bits : Target.Expr} {routes : List Route}
    (hbits : bits.EveryCall env.Accepts) (hroutes : ∀ r ∈ routes, RouteAccepted env r) :
    ∀ t ∈ emptyBranches bits routes, t.EveryCall env.Accepts := by
  intro t ht
  obtain ⟨⟨message, handler⟩, hmem, ht⟩ := List.mem_filterMap.1 ht
  cases message with
  | empty =>
    obtain rfl := Option.some.inj ht
    have hdispatch := everyCall_dispatch [] (hroutes _ hmem).handler (by simp)
    simpa [inMsg, Env.Accepts, builtins, hbits] using hdispatch
  | _ => simp at ht

theorem commentBranches_accepted {routes : List Route} (hroutes : ∀ r ∈ routes, RouteAccepted env r) :
    AcceptedStmts env (commentBranches routes) := by
  induction routes with
  | nil => exact .pure (by simp)
  | cons route rest ih =>
    obtain ⟨hroute, hrest⟩ := List.forall_mem_cons.1 hroutes
    unfold commentBranches
    split
    · simp at *
    · next text handler tail heq =>
      obtain ⟨rfl, rfl⟩ := List.cons.inj heq
      have hdispatch := everyCall_dispatch [] hroute.handler (by simp)
      exact .andThen fun opcode => (ih hrest).bind fun out hout =>
        .pure (List.forall_mem_cons.2 ⟨by simpa using hdispatch, hout⟩)
    · next heq =>
      obtain ⟨rfl, rfl⟩ := List.cons.inj heq
      exact ih hrest

theorem everyCall_commentFallbackBranches {bits : Target.Expr} {routes : List Route}
    (hbits : bits.EveryCall env.Accepts) (hroutes : ∀ r ∈ routes, RouteAccepted env r) :
    ∀ t ∈ commentFallbackBranches bits routes, t.EveryCall env.Accepts := by
  intro t ht
  obtain ⟨⟨message, handler⟩, hmem, ht⟩ := List.mem_filterMap.1 ht
  cases message with
  | commentFallback =>
    obtain rfl := Option.some.inj ht
    have hdispatch := everyCall_dispatch [method inMsg "skip_bits" [bits]]
      (hroutes _ hmem).handler (by simp [inMsg, Env.Accepts, builtins, hbits])
    simpa [everyCall_hasOpcode, hbits] using hdispatch
  | _ => simp at ht

theorem everyCall_fallbackStage {routes : List Route} (hroutes : ∀ r ∈ routes, RouteAccepted env r) :
    ∀ t ∈ fallbackStage routes, t.EveryCall env.Accepts := by
  intro t ht
  obtain ⟨⟨message, handler⟩, hmem, ht⟩ := List.mem_flatMap.1 ht
  cases message with
  | fallback => exact everyCall_dispatch _ (hroutes _ hmem).handler (by simp [inMsg]) t ht
  | _ => simp at ht

theorem textStage_accepted {bits : Target.Expr} {routes : List Route}
    (hbits : bits.EveryCall env.Accepts) (hroutes : ∀ r ∈ routes, RouteAccepted env r) :
    AcceptedStmts env (textStage bits routes) := by
  refine (commentBranches_accepted hroutes).bind fun branches hbranches => ?_
  have hall : ∀ t ∈ branches ++ commentFallbackBranches bits routes, t.EveryCall env.Accepts :=
    List.forall_mem_append.2 ⟨hbranches, everyCall_commentFallbackBranches hbits hroutes⟩
  dsimp only
  split
  · exact .pure (by simp)
  · exact .pure (by simpa [inMsg, Env.Accepts, builtins] using hall)

theorem routerBody_accepted {routes : List Route} (hroutes : ∀ r ∈ routes, RouteAccepted env r) :
    AcceptedStmts env (routerBody routes) := by
  refine opcodeBits_yields.bind fun bits hbits => (opcodeBranches_accepted hroutes).bind
    fun typed htyped => (textStage_accepted hbits hroutes).bind fun text htext => .pure ?_
  simp only [List.forall_mem_append, List.forall_mem_singleton]
  exact ⟨⟨⟨⟨⟨everyCall_bindOpcode hbits, htyped⟩, everyCall_emptyBranches hbits hroutes⟩, htext⟩,
    everyCall_fallbackStage hroutes⟩, by simp [handled]⟩

section

variable (h : env.program.Followed) (hcontract : contract ∈ env.program.types.contracts)
  {handlers : List Handler} (hhandlers : ∀ handler ∈ handlers, handler.Of contract)

include h hcontract hhandlers

theorem routes_accepted (direction : Direction) :
    ∀ r ∈ routes handlers direction, RouteAccepted env r := by
  intro route hroute
  obtain ⟨handler, hmem, hroute⟩ := List.mem_filterMap.1 hroute
  obtain ⟨message, hmessage, rfl⟩ := Option.map_eq_some_iff.1 hroute
  have hsuits := suits_handler h hcontract (hhandlers handler hmem)
  have hpayload := unmarked_payload h hcontract (hhandlers handler hmem)
  obtain ⟨selector, handlerName⟩ := handler
  cases direction <;> cases selector <;> simp only [Handler.message?, Option.some.injEq, reduceCtorEq] at hmessage
  all_goals
    subst hmessage
    refine ⟨hsuits, ?_⟩
    rintro typeName rfl
    exact hpayload typeName (by simp [Name.Origin.selectorIdentifiers])

theorem bounceBranches_accepted : AcceptedStmts env (bounceBranches handlers) := by
  induction handlers with
  | nil => exact .pure (by simp)
  | cons handler rest ih =>
    obtain ⟨hhandler, hrest⟩ := List.forall_mem_cons.1 hhandlers
    have hsuits := suits_handler h hcontract hhandler
    have hpayload := unmarked_payload h hcontract hhandler
    unfold bounceBranches
    split
    · next typeName bounced hselector =>
      have htype := hpayload typeName (by simp [hselector, Name.Origin.selectorIdentifiers])
      refine (typedBranch_yields (suits_reader htype bounced) ?_).bind fun first hfirst =>
        (ih hrest).bind fun out hout => .pure (List.forall_mem_cons.2 ⟨hfirst, hout⟩)
      cases bounced <;> simpa [hselector, ReceiverSelector.payloadType?] using hsuits
    · exact ih hrest

theorem bounceStage_accepted : AcceptedStmts env (bounceStage handlers) := by
  have hfallbacks : ∀ t ∈ (handlers.filter (·.selector == .bounceFallback)).map
      (fun handler => callHandler handler.name [inMsg]), t.EveryCall env.Accepts := by
    intro t ht
    obtain ⟨handler, hmem, rfl⟩ := List.mem_map.1 ht
    obtain ⟨hmem, hselector⟩ := List.mem_filter.1 hmem
    have hsuits := suits_handler h hcontract (hhandlers handler hmem)
    rw [eq_of_beq hselector] at hsuits
    simpa [callHandler, inMsg, Env.Accepts, ReceiverSelector.payloadType?] using Or.inr hsuits
  refine .andThen fun _ => opcodeBits_yields.bind fun bits hbits =>
    (bounceBranches_accepted h hcontract hhandlers).bind fun branches hbranches => .pure ?_
  simp only [List.forall_mem_append, List.forall_mem_singleton]
  refine ⟨⟨⟨⟨by simp [inMsg, Env.Accepts, builtins], ?_⟩, hbranches⟩, hfallbacks⟩, by simp [handled]⟩
  split
  · exact everyCall_bindOpcode hbits
  · simp

theorem routerItem_agrees {direction : Direction} :
    Yields env (routerItem contract handlers direction) (Agrees env) := by
  have htype := unmarked_contract h hcontract
  have hbody := routerBody_accepted (routes_accepted h hcontract hhandlers direction)
  refine .andThen fun _ => ?_
  cases direction with
  | internal =>
    refine (bounceStage_accepted h hcontract hhandlers).bind fun bounced hbounced => ?_
    rw [pure_bind]
    refine hbody.bind fun body hbody => .andThen fun self => .pure ?_
    refine agrees_define (signs_part .routerInternal htype (by simp [Name.Part.name])
      (by simp [Name.Part.convention]) fun _ => ?_) ?_
    · simp [Signature.threads]
    · exact List.forall_mem_append.2 ⟨by simpa using hbounced, hbody⟩
  | external =>
    refine hbody.bind fun body hbody => .andThen fun self => .pure ?_
    refine agrees_define (signs_part .routerExternal htype (by simp [Name.Part.name])
      (by simp [Name.Part.convention]) fun _ => ?_) ?_
    · simp [Signature.threads]
    · exact hbody

end

/-! ### Get-methods -/

theorem getMethodParams_yields (h : env.program.Followed) {signature : Signature}
    {params : List CellCompiler.Param} :
    Yields env (getMethodParams signature params) fun p => p.1.name = signature.name ∧
      p.2.length = params.length ∧ ∀ e ∈ p.2, e.EveryCall env.Accepts := by
  induction params generalizing signature with
  | nil => exact .pure (by simp)
  | cons p rest ih =>
    refine .andThen fun nested? => ?_
    split
    on_goal 1 => rw [pure_bind]
    on_goal 2 => refine .andThen fun ty => ?_
    all_goals
      refine (fromOutside_accepted h everyCall_id).bind fun arg harg => ih.bind ?_
      rintro ⟨s, args⟩ ⟨hname, hlength, hargs⟩
      exact .pure ⟨by simpa using hname, by simpa using hlength, List.forall_mem_cons.2 ⟨harg, hargs⟩⟩

theorem getMethodResult_yields (h : env.program.Followed) {returns : TypeRef} :
    Yields env (getMethodResult returns) fun p => p.2.EveryCall env.Accepts := by
  refine structOf_yields.bind fun nested? hnested => ?_
  split
  · next nested =>
    have htype := unmarked_of_mem h (hnested nested rfl)
    split
    · exact (Yields.callUsed.call (suits_part .toOptExternal htype rfl (by simp)) (by simp)).bind
        fun e he => .pure he
    · exact .andThen fun ty => (Yields.callUsed.call (suits_part .toExternal htype rfl (by simp))
        (by simp)).bind fun e he => .pure he
  · exact .andThen fun ty => .pure (by simp)

theorem getMethodItem_agrees (h : env.program.Followed)
    (hcontract : contract ∈ env.program.types.contracts) {f : Function} (hf : f ∈ contract.getters) :
    Yields env (getMethodItem contract f) (Agrees env) := by
  have htype := unmarked_contract h hcontract
  have hdecl := (TypeTable.mem_contracts.1 hcontract).1
  have hmethod : f ∈ contract.functions.values := (List.mem_filter.1 hf).1
  have hload : env.program.types.Suits ⟨Name.contractLoad contract.name, 0, false⟩ :=
    suits_part .contractLoad htype rfl (by simp)
  have hfunction : env.program.types.HasFunction f := .inr ⟨contract, hdecl, hmethod⟩
  have hget : env.program.types.method? contract.name f.name = some f := by
    simp [TypeTable.method?, h.wellNamed.get?_name hdecl, (h.methods contract hdecl).get?_name hmethod]
  have hcall : ∀ modifying, (modifying = true → f.mutates = true) → env.program.types.Suits
      ⟨Name.method contract.name f.name, f.params.length + 1, modifying⟩ := by
    intro modifying hmodifying
    refine TypeTable.suits_origin (o := .member contract.name (.method f.name)) ?_ rfl
      (by rw [Name.Origin.convention, hget, Option.map_some]) rfl hmodifying
    simpa [Name.Origin.IsPlain, Name.Origin.identifiers] using ⟨htype, h.unmarked_function hfunction⟩
  have hname : Yields env (functionName f) fun name => name = Name.method contract.name f.name := by
    obtain ⟨ty, hself, hty⟩ := Option.bind_eq_some_iff.1 (h.owned contract hdecl f hmethod)
    intro d name d' hrun
    simp only [functionName, hself, hty, run_pure] at hrun
    exact hrun.1.symm
  refine .used_bind (hname.bind fun callee hcallee => hcallee ▸ .used_bind ?_)
  refine (getMethodParams_yields h).bind ?_
  rintro ⟨s, args⟩ ⟨hsname, hlength, hargs⟩
  refine (getMethodResult_yields h).bind ?_
  rintro ⟨ty, value⟩ hvalue
  refine .pure (agrees_define (signs_uncalled (o := .getterMethod f.name) ?_ ?_ rfl) ?_)
  · simpa [Name.Origin.name] using hsname.symm
  · simpa [Name.Origin.IsPlain, Name.Origin.identifiers] using h.unmarked_function hfunction
  · have hresult : (if f.mutates then Target.modify (Target.id Name.self) (Name.method contract.name f.name) args
        else call (Name.method contract.name f.name) (Target.id Name.self :: args)).EveryCall env.Accepts := by
      split
      · next hmutates =>
        simpa [Env.Accepts, hlength, hcall true fun _ => hmutates] using hargs
      · simpa [Env.Accepts, hlength, hcall false (by simp)] using hargs
    simpa [Env.Accepts, hload, hresult] using hvalue

/-! ### All functions of a module -/

theorem constructs_agrees (h : env.program.Followed) {declared : Prop} {g : Gen Item}
    (hg : Constructs env declared g) :
    Yields env g (Agrees env) := by
  cases hg with
  | codec hdecl hr hcodec => exact codec_agrees (named_ofDecl h hdecl hr).1 hcodec
  | argumentsCodec hcontract hr hcodec => exact codec_agrees (named_ofInitArgs h hcontract hr) hcodec
  | furtherCodec hdecl hr hcodec =>
    have hmem := (TypeTable.mem_structs.1 hdecl).1
    obtain ⟨hnamed, hname⟩ := named_ofDecl h hmem hr
    exact furtherCodec_agrees hnamed (hname ▸ unmarked_of_mem h hmem) hcodec
  | conversion hdecl hr hconversion =>
    have hmem := (TypeTable.mem_structs.1 hdecl).1
    obtain ⟨hquiet, rfl⟩ := recordView_yields (unmarked_of_mem h hmem) _ _ _ hr
    exact conversion_agrees hquiet h (h.unmarked.fields _ hmem) hconversion
  | function hf hbody hname => exact functionItem_agrees h hf hbody hname
  | notMut hf hmutates hself hname => exact notMutItem_agrees h hf hmutates hself hname
  | part hcontract hpart => exact part_agrees h hcontract hpart
  | receiver hcontract hreceiver hname => exact receiverItem_agrees h hcontract hreceiver hname
  | router hcontract hhandlers => exact routerItem_agrees h hcontract hhandlers
  | getMethod hcontract hf => exact getMethodItem_agrees h hcontract hf

/-- Helpers call those that they need as these are defined. -/
theorem helper_agrees {helper : Helper} (hof : Helper.ofName? name = some helper) :
    Agrees env (helper.item name) := by
  have hverify : env.program.types.Suits ⟨Helper.verifyAddressName, 1, false⟩ :=
    suits_named (h := .verifyAddress) (by decide) rfl (by decide)
  refine ⟨?_, fun s hs => ?_⟩
  · cases helper with
    | tupleCreate | tupleDestroy | emptySlice => exact Item.everyCall_asm
    | equal mode absence =>
      refine Item.everyCall_define.2 ?_
      cases mode <;> cases absence <;>
        simp [Helper.equalBody, Helper.compareBy, Env.Accepts, builtins]
    | _ =>
      refine Item.everyCall_define.2 ?_
      simp [Env.Accepts, builtins, hverify]
  · have hname : s.name = name := by
      have hitem : (helper.item name).name? = some name := name?_item
      cases hi : helper.item name <;> simp_all [Item.signature?, Item.name?]
    subst hname
    exact .helper hof hs

theorem auxiliary_agrees {item : Item} (h : Emission.Auxiliary item) : Agrees env item := by
  obtain ⟨name, helper, hof, rfl⟩ | ⟨name, ty, code, hname, rfl⟩ := h
  · exact helper_agrees hof
  · refine ⟨Item.everyCall_asm, fun s hs => ?_⟩
    obtain rfl : _ = s := by simpa [Item.signature?] using hs
    exact .constant hname rfl

/-- Every function of a module calls others as they are emitted, and is emitted as others call it. -/
theorem constructed_agrees (h : env.program.Followed) {r : Emission.Registry} {item : Item}
    (hitem : Constructed env r item) : Agrees env item := by
  obtain hauxiliary | ⟨g, d, d', hg, hrun, -⟩ := hitem
  · exact auxiliary_agrees hauxiliary
  · exact constructs_agrees h hg d item d' hrun

end Generate

end CellCompiler
