import CellCompiler.Proofs.Calling
import CellCompiler.Proofs.Scope.Records

/-!
# Emitted code reads what is bound

The functions of contracts take the state and the message as parameters, and those that hand on codes
rely on the global variable that holds them.

* `initItem_within`, `loadItem_within` and the like are about the state of a contract, `routerItem_within`
  and `getMethodItem_within` about what is called from outside;
* `constructs_within` is about all functions of a module;
* `compile_hygienic` is the main result: if the variables of the source are in scope, then no function of
  a compiled module reads a variable that is not bound.
-/

namespace CellCompiler

open Target

namespace Generate

open Layout (AvailableIn)

variable {env : Env} {granted : Prop} {contract : TypeDecl} {name : String} {bound : List String}

theorem ClosedItem.of_forall {g : Gen Item} (h : ∀ globals, Yields env g (Item.Within globals)) :
    ClosedItem env g := fun d item d' hrun globals => h globals d item d' hrun

/-! ### The state -/

/-- The parameters of a contract as variables. -/
def paramVars (contract : TypeDecl) : Vars := contract.initParams.map fun p => (p.name, p.ty)

theorem initBindings_eq : initBindings contract = bindingsFor (paramVars contract) := by
  simp [initBindings, bindingsFor, paramVars]

theorem initialState_reads {n : Nat} :
    Leads env n granted (initialState contract) (ReadsUnder fun _ => True) := by
  have hfield : ∀ field, Leads env n granted (initialField field) (ReadsUnder fun _ => True) := by
    intro field
    unfold initialField
    split
    · exact literal_has hereditary_readsUnder
    · refine (Leads.ofTable (f := fun t => Layout.nullPattern t field.ty)).mono fun e he bound _ => ?_
      obtain ⟨shape, -, rfl⟩ := Except.map_eq_ok.1 he
      exact shape.within_nulls
  unfold initialState
  split
  · exact .pure fun bound _ => within_emptyTuple
  · exact (Leads.mapM_all fun field _ => hfield field).bind fun items =>
      .pure fun hitems => hereditary_readsUnder.tensor items hitems

/-- The state joins the parameters before the body begins. -/
theorem initBody_within {opened rest : List Target.Stmt} {initial self : Target.Expr} {lets : Vars}
    (hopened : StmtsWithin bound opened ∧
      env.Visible granted (paramVars contract) (bound ++ stmtBinds opened))
    (hinitial : ReadsUnder (fun _ => True) initial)
    (hself : Layout.unpack env.program.types (.plain contract.name) Name.self = .ok self)
    (hrest : Brings env granted contract.initVars lets rest) :
    StmtsWithin bound (opened ++ [var self initial] ++ rest) := by
  obtain ⟨hreads, hparams⟩ := hopened
  have hvisible : env.Visible granted contract.initVars (bound ++ stmtBinds opened ++ self.boundNames) := by
    have hmore := hparams.mono (List.subset_append_left _ self.boundNames)
    exact ⟨List.forall_mem_cons.2 ⟨.of_unpack hself (List.subset_append_right _ _), hmore.available⟩,
      hmore.context⟩
  rw [stmtsWithin_append, stmtsWithin_append, stmtBinds_append, ← List.append_assoc]
  exact ⟨⟨hreads, by simpa using hinitial _ trivial⟩, hrest.within (by simpa using hvisible)⟩

theorem initItem_within (hw : env.program.types.WellNamed)
    (hbody : StmtsScoped env.program.types contract.initVars contract.initBody) :
    WithinItem env granted (initItem contract) := by
  have hsees : (Scope.initOf contract.name).Sees contract.initVars := by
    intro ty hty
    obtain rfl : TypeRef.plain contract.name = ty := by simpa [Scope.initOf] using hty
    simp [TypeDecl.initVars]
  have hbinding : Leads env 0 granted (Scope.initOf contract.name).selfBinding fun self =>
      Layout.unpack env.program.types (.plain contract.name) Name.self = .ok self :=
    Leads.ofTable (f := fun t => Layout.unpack t (.plain contract.name) Name.self)
  unfold initItem
  rw [initBindings_eq]
  refine withBindings_names.bind fun sig => prologue_visible.bind fun opened => ?_
  refine initialState_reads.bind fun initial => hbinding.bind fun self => ?_
  refine (lowerStmts_brings hw _ _ hsees hbody).bind fun body => ?_
  split
  · rw [pure_bind]
    refine .andThen representation_steady fun ty => .pure ?_
    intro hbody hself hinitial hopened hsig globals hglobals
    rw [List.append_nil, Item.within_define]
    exact initBody_within (hopened _ (mem_params hsig) fun h => List.mem_append_left _ (hglobals h))
      hinitial hself hbody
  · have hafter : (Scope.initOf contract.name).Sees (contract.initVars ++ stmtLets contract.initBody) :=
      hsees.append
    refine (returned_reads hafter).bind fun e => ?_
    rw [pure_bind]
    refine .andThen representation_steady fun ty => .pure ?_
    intro he hbody hself hinitial hopened hsig globals hglobals
    have hlast : Brings env granted (contract.initVars ++ stmtLets contract.initBody) [] [ret e] :=
      .of_reads fun bound hb => by simpa using he (by simp) bound hb
    rw [List.append_assoc, Item.within_define]
    exact initBody_within (hopened _ (mem_params hsig) fun h => List.mem_append_left _ (hglobals h))
      hinitial hself (hbody.append hlast)

theorem initChildItem_within : ClosedItem env (initChildItem contract) := by
  refine .helper_bind (.used_bind (withBindings_names.yields.bind fun sig hsig => .pure fun globals => ?_))
  have harguments : ∀ bound, (∀ b ∈ initBindings contract, b.1 ∈ bound) →
      (initArguments contract).Within bound := by
    intro bound hbound
    unfold initArguments
    split
    · exact within_emptyTuple
    · exact Expr.within_tensor.2 (List.forall_mem_map.2 fun b hb => within_id.2 (hbound b hb))
  have hnames : sig.params.map (·.name) = "sys'" :: (initBindings contract).map Prod.fst := by
    simpa using hsig
  have hparams : ∀ b ∈ initBindings contract, b.1 ∈ sig.params.map (·.name) := by
    intro b hb
    rw [hnames]
    exact List.mem_cons_of_mem _ (List.mem_map_of_mem hb)
  have hsys : "sys'" ∈ sig.params.map (·.name) := by simp [hnames]
  rw [Item.within_define]
  generalize sig.params.map (·.name) = params at hparams hsys
  simp [storeFlag, hsys]
  exact harguments _ fun b hb => by simp [hparams b hb]

/-- The arguments are bound as a whole, and then each is read. -/
theorem loadArguments_within {load : Target.Expr} : Yields env (loadArguments contract load) fun p =>
    (∀ bound, load.Within bound → p.1.Within bound) ∧ ∀ e ∈ p.2, e.Within p.1.binds := by
  unfold loadArguments
  split
  · exact .pure ⟨fun bound h => by simpa using h, by simp⟩
  · refine .table_bind (Yields.ofExcept.bind fun shape hshape => ?_)
    have hvalue : ∀ p ∈ contract.initParams, Yields env (unpack p.ty (Name.tick "args" p.name))
        (Target.Expr.Within shape.names) := by
      intro p hp
      refine (Yields.ofTable (f := fun t => Layout.unpack t p.ty (Name.tick "args" p.name))).mono ?_
      have havailable := AvailableIn.of_record hshape (List.Subset.refl _) (List.mem_map_of_mem hp)
      exact fun pattern hpattern => havailable.within hpattern
    refine (Yields.mapM_all hvalue).bind fun values ⟨_, hvalues⟩ => .pure ⟨fun bound h => by simpa using h, ?_⟩
    simpa [Layout.Shape.boundNames_pattern] using hvalues

theorem loadItem_within : ClosedItem env (loadItem contract) := by
  refine .used_bind (.used_bind (.used_bind (loadArguments_within.bind ?_)))
  rintro ⟨bind, values⟩ ⟨hbind, hvalues⟩
  refine .andThen fun ty => .pure fun globals => ?_
  have hread : ∀ e ∈ values, ∀ {bound}, bind.binds ⊆ bound → e.Within bound := fun e he _ hbound =>
    (hvalues e he).mono hbound
  simp only [Item.within_define, stmtsWithin_cons, Stmt.within_var, Stmt.within_assign, Stmt.within_ifThen,
    Stmt.within_ret, Stmt.within_expr, within_called, within_modify, within_method, within_id, within_beginParse]
  refine ⟨by simp, by simp, by simp, by simp, hbind _ (by simp), by simp, fun e he => hread e he ?_, by simp⟩
  exact fun x hx => by simp [hx]

theorem storeItem_within (h : granted) : WithinItem env granted (storeItem contract) := by
  refine .used_bind (.andThen representation_steady fun ty => .pure fun globals hglobals => ?_)
  simpa [storeFlag] using .inl (hglobals h)

/-! ### Entry points -/

theorem runMessage_within {load store router : String} {args : List Target.Expr}
    (hargs : ∀ e ∈ args, ∀ more, e.Within (bound ++ more)) :
    StmtsWithin bound (runMessage load store router args) := by
  simpa [runMessage] using fun e he => hargs e he _

theorem recvInternalItem_within : ClosedItem env (recvInternalItem contract) := by
  refine .helper_bind (.used_bind (.used_bind (.used_bind (.pure fun globals => ?_))))
  rw [Item.within_define, stmtsWithin_append]
  exact ⟨by simp, runMessage_within (by simp)⟩

theorem recvExternalItem_within : ClosedItem env (recvExternalItem contract) :=
  .used_bind (.used_bind (.used_bind (.pure fun globals => runMessage_within (by simp))))

/-! ### Routers -/

/-- Routers start from the state and the message. -/
structure Routed (bound : List String) : Prop where
  self : Name.self ∈ bound
  message : "in_msg" ∈ bound

theorem Routed.mono {more : List String} (h : Routed bound) : Routed (bound ++ more) :=
  ⟨List.mem_append_left _ h.self, List.mem_append_left _ h.message⟩

/-- The statements read only what is bound, and bind nothing. -/
abbrev Branches (env : Env) (bound : List String) (g : Gen (List Target.Stmt)) : Prop :=
  Yields env g fun out => ∀ s ∈ out, s.Within bound ∧ s.binds = []

theorem opcodeBits_reads : Yields env opcodeBits fun bits => ∀ bound, bits.Within bound :=
  .andThen fun _ => .pure fun _ => within_number

section

variable (h : Routed bound)

include h

theorem within_inMsg : inMsg.Within bound := within_id.2 h.message

/-- Branches that call a handler read what the arguments read. -/
theorem within_dispatch {args : List Target.Expr} (hargs : ∀ e ∈ args, e.Within bound) :
    ∀ s ∈ dispatch name args, s.Within bound ∧ s.binds = [] := by
  simpa [dispatch, callHandler, handled, h.self] using hargs

theorem stmtsWithin_dispatch {args : List Target.Expr} (hargs : ∀ e ∈ args, e.Within bound) :
    StmtsWithin bound (dispatch name args) := stmtsWithin_of_forall (within_dispatch h hargs)

theorem typedBranch_within {opcodeVar typeName reader handler : String} (hopcode : opcodeVar ∈ bound) :
    Yields env (typedBranch opcodeVar typeName reader handler) fun s => s.Within bound ∧ s.binds = [] := by
  refine .andThen fun opcode => .used_bind (.pure ?_)
  have hdispatch : StmtsWithin (bound ++ ["msg"]) (dispatch handler [Target.id "msg"]) :=
    stmtsWithin_dispatch h.mono (by simp)
  simpa [hopcode, within_inMsg h] using hdispatch

theorem within_hasOpcode {bits : Target.Expr} (hbits : bits.Within bound) : (hasOpcode bits).Within bound := by
  simp [hasOpcode, within_inMsg h, hbits]

theorem stmtsWithin_bindOpcode {bits : Target.Expr} (hbits : bits.Within bound) :
    StmtsWithin bound (bindOpcode name bits) := by
  have hbits' : bits.Within (bound ++ [name]) := hbits.mono (List.subset_append_left _ _)
  simp [bindOpcode, within_hasOpcode h.mono hbits', within_inMsg h.mono, hbits']

theorem bounceBranches_within {handlers : List Handler}
    (hopcode : handlers.any Handler.isTypedBounce = true → "bounce_op" ∈ bound) :
    Branches env bound (bounceBranches handlers) := by
  induction handlers with
  | nil => exact .pure (by simp)
  | cons handler rest ih =>
    have hrest := ih fun hany => hopcode (by simp [hany])
    unfold bounceBranches
    split
    · next hselector =>
      have hfirst : "bounce_op" ∈ bound := hopcode (by simp [Handler.isTypedBounce, hselector])
      exact (typedBranch_within h hfirst).bind fun first hfirst => hrest.bind fun out hout =>
        .pure (List.forall_mem_cons.2 ⟨hfirst, hout⟩)
    · exact hrest

theorem within_emptyBranches {bits : Target.Expr} {routes : List Route} (hbits : bits.Within bound)
    (hop : "op" ∈ bound) : ∀ s ∈ emptyBranches bits routes, s.Within bound ∧ s.binds = [] := by
  intro s hs
  obtain ⟨⟨message, handler⟩, -, hs⟩ := List.mem_filterMap.1 hs
  cases message with
  | empty =>
    obtain rfl := Option.some.inj hs
    simp [within_inMsg h, hbits, hop, stmtsWithin_dispatch h]
  | _ => cases hs

theorem within_commentFallbackBranches {bits : Target.Expr} {routes : List Route}
    (hbits : bits.Within bound) :
    ∀ s ∈ commentFallbackBranches bits routes, s.Within bound ∧ s.binds = [] := by
  intro s hs
  obtain ⟨⟨message, handler⟩, -, hs⟩ := List.mem_filterMap.1 hs
  cases message with
  | commentFallback =>
    obtain rfl := Option.some.inj hs
    simp [within_hasOpcode h hbits, stmtsWithin_dispatch h, within_inMsg h, hbits]
  | _ => cases hs

theorem within_fallbackStage {routes : List Route} :
    ∀ s ∈ fallbackStage routes, s.Within bound ∧ s.binds = [] := by
  intro s hs
  obtain ⟨⟨message, handler⟩, -, hs⟩ := List.mem_flatMap.1 hs
  cases message with
  | fallback => exact within_dispatch h (by simp [within_inMsg h]) s hs
  | _ => cases hs

theorem opcodeBranches_within {routes : List Route} (hop : "op" ∈ bound) :
    Branches env bound (opcodeBranches routes) := by
  fun_induction opcodeBranches routes with
  | case1 => exact .pure (by simp)
  | case2 typeName name rest ih =>
    exact (typedBranch_within h hop).bind fun first hfirst => ih.bind fun out hout =>
      .pure (List.forall_mem_cons.2 ⟨hfirst, hout⟩)
  | case3 _ rest _ ih => exact ih

theorem commentBranches_within {routes : List Route} (htext : "text_op" ∈ bound) :
    Branches env bound (commentBranches routes) := by
  fun_induction commentBranches routes with
  | case1 => exact .pure (by simp)
  | case2 text name rest ih =>
    refine .andThen fun opcode => ih.bind fun out hout => .pure (List.forall_mem_cons.2 ⟨?_, hout⟩)
    simp [htext, stmtsWithin_dispatch h]
  | case3 _ rest _ ih => exact ih

theorem textStage_within {bits : Target.Expr} {routes : List Route} (hbits : bits.Within bound)
    (hop : "op" ∈ bound) : Branches env bound (textStage bits routes) := by
  have hrouted : Routed (bound ++ ["text_op"]) := h.mono
  refine (commentBranches_within hrouted (by simp)).bind fun branches hbranches => ?_
  have hfallbacks : ∀ s ∈ commentFallbackBranches bits routes,
      s.Within (bound ++ ["text_op"]) ∧ s.binds = [] :=
    within_commentFallbackBranches hrouted (hbits.mono (List.subset_append_left _ _))
  dsimp only
  split
  · exact .pure (by simp)
  · have hbody := stmtsWithin_of_forall (List.forall_mem_append.2 ⟨hbranches, hfallbacks⟩)
    exact .pure (by simpa [hop, within_inMsg h] using hbody)

theorem bounceStage_within {handlers : List Handler} :
    Yields env (bounceStage handlers) (StmtsWithin bound) := by
  refine .andThen fun _ => opcodeBits_reads.bind fun bits hbits => ?_
  generalize hopened : (if handlers.any Handler.isTypedBounce then bindOpcode "bounce_op" bits else []) = opened
  have hrouted : Routed (bound ++ stmtBinds opened) := h.mono
  have hopcode : handlers.any Handler.isTypedBounce = true → "bounce_op" ∈ bound ++ stmtBinds opened := by
    intro hany
    rw [← hopened, if_pos hany]
    simp [bindOpcode]
  refine (bounceBranches_within hrouted hopcode).bind fun branches hbranches => .pure ?_
  have hreads : StmtsWithin bound opened := by
    subst hopened
    split
    · exact stmtsWithin_bindOpcode h (hbits bound)
    · exact stmtsWithin_nil
  have hrest : ∀ s ∈ branches ++ (((handlers.filter (·.selector == .bounceFallback)).map fun handler =>
      callHandler handler.name [inMsg]) ++ [handled true]),
      s.Within (bound ++ stmtBinds opened) ∧ s.binds = [] := by
    refine List.forall_mem_append.2 ⟨hbranches, List.forall_mem_append.2 ⟨List.forall_mem_map.2 ?_, ?_⟩⟩
    · exact fun handler _ => by simp [callHandler, hrouted.self, within_inMsg hrouted]
    · simp [handled, hrouted.self]
  simp only [List.append_assoc, List.cons_append, List.nil_append, stmtsWithin_cons, Stmt.binds_modify,
    List.append_nil]
  exact ⟨by simp [within_inMsg h], stmtsWithin_append.2 ⟨hreads, stmtsWithin_of_forall hrest⟩⟩

theorem routerBody_within {routes : List Route} : Yields env (routerBody routes) (StmtsWithin bound) := by
  have hrouted : Routed (bound ++ ["op"]) := h.mono
  have hop : "op" ∈ bound ++ ["op"] := by simp
  refine opcodeBits_reads.bind fun bits hbits => ?_
  refine (opcodeBranches_within hrouted hop).bind fun typed htyped => ?_
  refine (textStage_within hrouted (hbits _) hop).bind fun text htext => .pure ?_
  have hrest : ∀ s ∈ typed ++ (emptyBranches bits routes ++ (text ++ (fallbackStage routes ++
      [handled false]))), s.Within (bound ++ ["op"]) ∧ s.binds = [] := by
    simp only [List.forall_mem_append]
    exact ⟨htyped, within_emptyBranches hrouted (hbits _) hop, htext, within_fallbackStage hrouted,
      by simp [handled, hrouted.self]⟩
  have hbinds : stmtBinds (bindOpcode "op" bits) = ["op"] := by simp [bindOpcode]
  simp only [List.append_assoc]
  rw [stmtsWithin_append, hbinds]
  exact ⟨stmtsWithin_bindOpcode h (hbits bound), stmtsWithin_of_forall hrest⟩

end

theorem routerItem_within {handlers : List Handler} {direction : Direction} :
    ClosedItem env (routerItem contract handlers direction) := by
  refine .of_forall fun globals => .andThen fun _ => ?_
  cases direction with
  | internal =>
    have hrouted : Routed (globals ++ [Name.self, "msg_bounced", "in_msg"]) := ⟨by simp, by simp⟩
    refine (bounceStage_within hrouted).bind fun bounced hbounced => ?_
    rw [pure_bind]
    refine (routerBody_within hrouted).bind fun body hbody => .andThen fun self => .pure ?_
    simpa using ⟨hbounced, hbody⟩
  | external =>
    have hrouted : Routed (globals ++ [Name.self, "in_msg"]) := ⟨by simp, by simp⟩
    exact (routerBody_within hrouted).bind fun body hbody => .andThen fun self => .pure hbody

/-! ### Get-methods -/

/-- The arguments read the parameters that are added. -/
theorem getMethodParams_reads {signature : Signature} {params : List CellCompiler.Param} :
    Yields env (getMethodParams signature params) fun p =>
      signature.params.map (·.name) ⊆ p.1.params.map (·.name) ∧
      ∀ bound, p.1.params.map (·.name) ⊆ bound → ∀ e ∈ p.2, e.Within bound := by
  induction params generalizing signature with
  | nil => exact .pure (by simp)
  | cons p rest ih =>
    refine .andThen fun nested? => ?_
    split
    on_goal 1 => rw [pure_bind]
    on_goal 2 => refine .andThen fun ty => ?_
    all_goals
      have harg : ReadsUnder (Name.var p.name ∈ ·) (id (Name.var p.name)) := fun bound hb => within_id.2 hb
      refine (fromOutside_has hereditary_readsUnder harg).bind fun arg harg => ih.bind ?_
      rintro ⟨s, args⟩ ⟨hnames, hargs⟩
      have hname : Name.var p.name ∈ s.params.map (·.name) := hnames (by simp)
      refine .pure ⟨fun x hx => hnames (by simp [hx]), fun bound hb => List.forall_mem_cons.2 ⟨?_, ?_⟩⟩
      · exact harg bound (hb hname)
      · exact hargs bound hb

theorem getMethodResult_reads {returns : TypeRef} :
    Yields env (getMethodResult returns) fun p => ∀ bound, "res" ∈ bound → p.2.Within bound := by
  refine .andThen fun nested? => ?_
  split
  · split
    · exact Yields.callUsed.bind fun e he => .pure fun bound hb => by simpa [he] using hb
    · exact .andThen fun ty => Yields.callUsed.bind fun e he => .pure fun bound hb => by simpa [he] using hb
  · exact .andThen fun ty => .pure fun bound hb => within_id.2 hb

theorem getMethodItem_within {f : Function} : ClosedItem env (getMethodItem contract f) := by
  refine .used_bind (.andThen fun name => .used_bind ?_)
  refine getMethodParams_reads.bind fun (signature, args) ⟨_, hargs⟩ => ?_
  refine getMethodResult_reads.bind fun (ty, value) hvalue => .pure fun globals => ?_
  have hresult : ∀ bound, Name.self ∈ bound → signature.params.map (·.name) ⊆ bound →
      (if f.mutates then Target.modify (Target.id Name.self) name args
        else call name (Target.id Name.self :: args)).Within bound := by
    intro bound hself hparams
    split
    · simpa [hself] using hargs bound hparams
    · simpa [hself] using hargs bound hparams
  simp only [Item.within_define, Signature.params_returning, stmtsWithin_cons, stmtsWithin_nil,
    Stmt.within_var, Stmt.within_ret]
  exact ⟨by simp, hresult _ (by simp) (by simp), hvalue _ (by simp), trivial⟩

/-! ### Records -/

section

variable (hw : env.program.types.WellNamed)
  (hplanned : Plans.PlannedProgram env.program.types env.program.plans) {r : Record} {d d' : Draft}

include hw hplanned

theorem ofDecl_planned {decl : TypeDecl} (hdecl : decl ∈ env.program.types.types.values)
    (hfields : (decl.fields.map (·.name)).Nodup) (h : Record.ofDecl decl env d = .ok r d') : r.Planned := by
  obtain ⟨-, hr⟩ := ofDecl_eq_ok h
  refine planned_of_stores (hr.stores hw hplanned (hw.get?_name hdecl)) ?_ ?_
  · rw [hr.fields_eq, Plans.storedFields, List.map_map]
    rfl
  · rw [hr.fields_eq]
    refine List.forall_mem_map.2 fun f hf => List.forall_mem_map.2 fun g hg hname => ?_
    exact congrArg Field.ty (List.inj_on_of_nodup_map hfields hf hg hname)

theorem ofInitArgs_planned (hcontract : contract ∈ env.program.types.contracts)
    (hparams : ∀ p ∈ contract.initParams, ∀ q ∈ contract.initParams, p.name = q.name → p.ty = q.ty)
    (h : Record.ofInitArgs contract env d = .ok r d') : r.Planned := by
  obtain ⟨-, hr⟩ := ofInitArgs_eq_ok h
  obtain ⟨contract', hcontract', hname, hstores⟩ := hplanned.storesArgs _ _ hr.plan_eq
  have hget := hw.get?_name (TypeTable.mem_contracts.1 hcontract').1
  rw [hname, hw.get?_name (TypeTable.mem_contracts.1 hcontract).1] at hget
  obtain rfl : contract = contract' := Option.some.inj hget
  refine planned_of_stores hstores ?_ ?_
  · rw [hr.fields_eq, Plans.storedParams, List.map_map]
    rfl
  · rw [hr.fields_eq]
    exact List.forall_mem_map.2 fun p hp => List.forall_mem_map.2 fun q hq => hparams p hp q hq

end

/-! ### All functions of a module -/

section

variable (hw : env.program.types.WellNamed)
  (hplanned : Plans.PlannedProgram env.program.types env.program.plans)
  (hfields : ∀ decl ∈ env.program.types.types.values, (decl.fields.map (·.name)).Nodup)
  (hparams : ∀ contract ∈ env.program.types.contracts, ∀ p ∈ contract.initParams,
    ∀ q ∈ contract.initParams, p.name = q.name → p.ty = q.ty)
  (hscoped : env.program.types.Scoped)

include hw hplanned hfields hparams hscoped

theorem constructs_within {g : Gen Item} (hg : Constructs env granted g) {d d' : Draft} {item : Item}
    (hrun : g env d = .ok item d') (hdeclared : d'.registry.Declares Helper.contextSys → granted)
    {globals : List String} (hglobals : granted → Helper.contextSys ∈ globals) : item.Within globals := by
  have hclosed : ClosedItem env g → item.Within globals := fun h => h d item d' hrun globals
  have hwithin : WithinItem env granted g → item.Within globals := fun h =>
    (h d item d' (Nat.zero_le _) hrun).2.2 hdeclared globals hglobals
  cases hg with
  | codec hdecl hr hcodec =>
    exact hclosed (codec_within (ofDecl_planned hw hplanned hdecl (hfields _ hdecl) hr) hcodec)
  | argumentsCodec hcontract hr hcodec =>
    exact hclosed (codec_within (ofInitArgs_planned hw hplanned hcontract (hparams _ hcontract) hr) hcodec)
  | furtherCodec hdecl hr hcodec =>
    have hmem := (TypeTable.mem_structs.1 hdecl).1
    exact hclosed (furtherCodec_within (ofDecl_planned hw hplanned hmem (hfields _ hmem) hr) hcodec)
  | conversion hdecl hr hconversion =>
    obtain ⟨hmem, hkind⟩ := TypeTable.mem_structs.1 hdecl
    exact hclosed (conversion_within (recordView_opens (hw.get?_name hmem)
      (TypeDecl.isStructLike_of_isStruct hkind) _ _ _ hr) hconversion)
  | function hf hbody hname =>
    have hstmts := hscoped.functions _ (TypeTable.mem_allFunctions.2 hf)
    exact hwithin (functionItem_within hw (by simpa [Function.stmts, hbody] using hstmts))
  | notMut hf hmutates hself hname => exact hwithin (notMutItem_within hself)
  | part hcontract hpart =>
    cases hpart with
    | init => exact hwithin (initItem_within hw (hscoped.inits _ hcontract))
    | initChild => exact hclosed initChildItem_within
    | load => exact hclosed loadItem_within
    | store h => exact hwithin (storeItem_within h)
    | recvInternal => exact hclosed recvInternalItem_within
    | recvExternal => exact hclosed recvExternalItem_within
  | receiver hcontract hreceiver hname =>
    exact hwithin (receiverItem_within hw (hscoped.receivers _ hcontract _ hreceiver))
  | router => exact hclosed routerItem_within
  | getMethod => exact hclosed getMethodItem_within

end

theorem helper_within {helper : Helper} {globals : List String}
    (h : helper = .contextGetSender → Helper.contextSender ∈ globals) :
    (helper.item name).Within globals := by
  cases helper with
  | tupleCreate | tupleDestroy | emptySlice => exact Item.within_asm
  | contextGetSender => simpa [Helper.item] using h rfl
  | equal mode absence =>
    cases mode <;> cases absence <;> simp [Helper.item, Helper.equalBody, Helper.compareBy]
  | _ => simp [Helper.item]

end Generate

open Generate

variable {env : Env} {out : Emission.Output} {r : Emission.Registry}

/-- A function has the name that it is filed under. -/
theorem Emission.Entry.Sound.name?_eq {native : Bool} {entry : Emission.Entry} (h : entry.Sound native)
    {item : Item} (hitem : item ∈ entry.definition) : item.name? = some entry.name := by
  cases h with
  | skipped => cases hitem
  | defined hname => exact Option.some.inj hitem ▸ hname

/-- What has been declared is among the global variables of the module. -/
theorem Emission.Output.MadeOf.mem_globalNames (h : out.MadeOf env r) {name : String}
    (hname : r.Declares name) : name ∈ out.globalNames := by
  obtain ⟨order, rfl⟩ := h.output
  obtain ⟨g, hg⟩ := Dict.contains_eq_true_iff.1 hname
  obtain rfl := h.sound.globals name g hg
  exact List.mem_filterMap.2 ⟨.global g.ty g.name, List.mem_map.2 ⟨g, Dict.mem_values_of_get? hg, rfl⟩, rfl⟩

/-- A module is hygienic if its functions are, wherever the variables of the message are declared. -/
theorem Emission.Output.MadeOf.hygienic (h : out.MadeOf env r)
    (hconstructs : ∀ g d item d', Constructs env (r.Declares Helper.contextSys) g → g env d = .ok item d' →
      (d'.registry.Declares Helper.contextSys → r.Declares Helper.contextSys) →
      ∀ globals, (r.Declares Helper.contextSys → Helper.contextSys ∈ globals) → item.Within globals) :
    out.Hygienic := by
  intro f hf item hitem
  rcases h.item hf item hitem with
    (⟨name, helper, hof, rfl⟩ | ⟨name, ty, code, -, rfl⟩) | ⟨g, d, d', hg, hrun, hd'⟩
  · refine helper_within fun hhelper => h.mem_globalNames ?_
    obtain rfl : name = f.name := by simpa using (h.sound.entries _ f (h.get? hf)).name?_eq hitem
    exact h.sound.declared _ f (h.get? hf) (by simp [Option.mem_def.1 hitem]) (hhelper ▸ hof)
  · exact Item.within_asm
  · exact hconstructs g d item d' hg hrun (hd' _) _ h.mem_globalNames

/-- **Emitted code is hygienic.** Take a program whose types are filed under their names, with plans for
its records. If no type has two fields of one name, parameters of a contract that share a name share their
type, and all bodies refer to what is in scope, then in every function of a compiled library or contract
each variable that is read is a parameter, has been bound on the way there, or is a global variable of the
module. -/
theorem compile_hygienic {env : Env} (hw : env.program.types.WellNamed)
    (hplanned : Program.planned env.program.types = .ok env.program)
    (hfields : ∀ decl ∈ env.program.types.types.values, (decl.fields.map (·.name)).Nodup)
    (hparams : ∀ contract ∈ env.program.types.contracts, ∀ p ∈ contract.initParams,
      ∀ q ∈ contract.initParams, p.name = q.name → p.ty = q.ty)
    (hscoped : env.program.types.Scoped) :
    (∀ out, compileLibrary env = .ok out → out.Hygienic) ∧
    ∀ contract out, compileContract env contract = .ok out → out.Hygienic := by
  have hplans : Plans.PlannedProgram env.program.types env.program.plans := by
    simp only [Program.planned, Except.bind_eq_ok, Except.pure_eq_ok] at hplanned
    obtain ⟨plans, hplans, hprogram⟩ := hplanned
    rw [← hprogram]
    exact Plans.planProgram_planned hw hplans
  have hmade : ∀ {out r}, Emission.Output.MadeOf out env r → out.Hygienic := fun hmade =>
    hmade.hygienic fun g d item d' hg hrun hdeclared globals hglobals =>
      constructs_within hw hplans hfields hparams hscoped hg hrun hdeclared hglobals
  refine ⟨fun out hout => ?_, fun contract out hout => ?_⟩
  · obtain ⟨r, hr⟩ := compileLibrary_madeOf hout
    exact hmade hr
  · obtain ⟨r, hr⟩ := compileContract_madeOf hout
    exact hmade hr

theorem depot_hygienic : depotEnv.program.types.WellNamed ∧
    Program.planned depotEnv.program.types = .ok depotEnv.program ∧
    (∀ decl ∈ depotEnv.program.types.types.values, (decl.fields.map (·.name)).Nodup) ∧
    (∀ contract ∈ depotEnv.program.types.contracts, ∀ p ∈ contract.initParams, ∀ q ∈ contract.initParams,
      p.name = q.name → p.ty = q.ty) ∧ depotEnv.program.types.Scoped ∧
    (∃ out, compileLibrary depotEnv = .ok out ∧ out.Hygienic) ∧
    ∃ out, compileContract depotEnv "Depot" = .ok out ∧ out.Hygienic := by
  have hw : depotEnv.program.types.WellNamed := ⟨by decide +kernel, by decide +kernel⟩
  have hplanned : Program.planned depotEnv.program.types = .ok depotEnv.program := rfl
  have hfields : ∀ decl ∈ depotEnv.program.types.types.values, (decl.fields.map (·.name)).Nodup := by
    decide +kernel
  have hparams : ∀ contract ∈ depotEnv.program.types.contracts, ∀ p ∈ contract.initParams,
      ∀ q ∈ contract.initParams, p.name = q.name → p.ty = q.ty := by decide +kernel
  have hscoped : depotEnv.program.types.Scoped := by decide +kernel
  obtain ⟨library, hlibrary⟩ := exists_depotLibrary
  obtain ⟨out, hout⟩ := exists_depot
  have hhygienic := compile_hygienic hw hplanned hfields hparams hscoped
  exact ⟨hw, hplanned, hfields, hparams, hscoped, ⟨library, hlibrary, hhygienic.1 library hlibrary⟩,
    out, hout, hhygienic.2 "Depot" out hout⟩

/-! ### Parameters of one name -/

/-- A contract with two parameters of one name, of which the second is a record. -/
def twinsEnv : Env where
  program :=
    let pair := TypeDecl.ofFields .struct "Pair" [⟨"left", 0, .plain "Int", none, none⟩]
    let twins := { TypeDecl.ofFields .contract "Twins" [⟨"sum", 0, .plain "Int", none, none⟩] with
      init := some { params := [⟨"p", .plain "Int"⟩, ⟨"p", .plain "Pair"⟩], body := [] } }
    let types := (TypeTable.primitives.addType pair).addType twins
    { types, plans := (planProgram types).toOption.getD {} }
  evaluate := noConstants

/-- The reader of the arguments finds the fields of a plan by their names. So it binds the first parameter
twice, and gives back the variables of the second although they are not bound. -/
theorem twins_not_hygienic : twinsEnv.program.types.WellNamed ∧
    Program.planned twinsEnv.program.types = .ok twinsEnv.program ∧ twinsEnv.program.Unmarked ∧
    (∀ decl ∈ twinsEnv.program.types.types.values, (decl.fields.map (·.name)).Nodup) ∧
    twinsEnv.program.types.Scoped ∧ ∃ out, compileLibrary twinsEnv = .ok out ∧ ¬ out.Hygienic := by
  have hlibrary : (compileLibrary twinsEnv).toOption.any (fun out => !decide out.Hygienic) = true := by
    decide +kernel
  obtain ⟨out, hout, hfree⟩ := Except.exists_of_toOption_any hlibrary
  exact ⟨⟨by decide +kernel, by decide +kernel⟩, rfl, by decide +kernel, by decide +kernel, by decide +kernel,
    out, hout, by simpa using hfree⟩

end CellCompiler
