import CellCompiler.Proofs.Calling
import CellCompiler.Proofs.Patterned.Records

/-!
# Emitted code writes to patterns

The functions of contracts and the helpers write to variables that they bind themselves.

* `Generate.constructed_patterned` is about all functions of a module;
* `compile_patterned` is the main result: what a module assigns to, binds or changes by a call is
  always a pattern, and holes are in bindings only.
-/

namespace CellCompiler

open Target

namespace Generate

variable {env : Env} {contract : TypeDecl} {name : String}

/-! ### The state -/

theorem initialState_patterned : PatternedCode env (initialState contract) := by
  have hfield : ∀ field, PatternedCode env (initialField field) := by
    intro field
    unfold initialField
    split
    · exact literal_patterned
    · refine (Yields.ofTable (f := fun t => Layout.nullPattern t field.ty)).mono fun e he => ?_
      obtain ⟨shape, -, rfl⟩ := Except.map_eq_ok.1 he
      exact shape.patterned_nulls
  unfold initialState
  split
  · exact .pure patterned_emptyTuple
  · exact (Yields.mapM_all fun field _ => hfield field).bind fun items hitems =>
      .pure (Expr.patterned_tensor.2 hitems.2)

theorem patterned_initArguments : (initArguments contract).Patterned := by
  unfold initArguments
  split
  · exact patterned_emptyTuple
  · exact Expr.patterned_tensor.2 (List.forall_mem_map.2 fun _ _ => trivial)

theorem loadArguments_patterned {load : Target.Expr} (hload : load.Patterned) :
    Yields env (loadArguments contract load) fun p => p.1.Patterned ∧ ∀ e ∈ p.2, e.Patterned := by
  unfold loadArguments
  split
  · exact .pure (by simpa using hload)
  · refine .andThen fun t => .andThen fun shape => ?_
    refine (Yields.mapM_all fun p _ => unpack_isPattern).bind fun values hvalues => .pure ?_
    exact ⟨by simp [hload, shape.isLValue_pattern], fun e he => (hvalues.2 e he).2⟩

theorem initItem_patterned : PatternedItem env (initItem contract) := by
  refine .andThen fun signature => prologue_patterned.bind fun opened hopened => ?_
  refine initialState_patterned.bind fun initial hinitial => ?_
  have hself : Yields env (Scope.initOf contract.name).selfBinding fun e => e.isLValue = true :=
    unpack_isPattern.mono fun _ h => h.1
  refine hself.bind fun self hself => (lowerStmts_patterned _ _).bind fun body hbody => ?_
  have hdefine {last : List Target.Stmt} (hlast : StmtsPatterned last) :
      StmtsPatterned (opened ++ [var self initial] ++ body ++ last) := by
    simpa using ⟨hopened, ⟨hself, hinitial⟩, hbody, hlast⟩
  split
  · rw [pure_bind]
    exact .andThen fun ty => .pure (hdefine trivial)
  · refine (returned_patterned (by simp)).bind fun e he => ?_
    rw [pure_bind]
    exact .andThen fun ty => .pure (hdefine (by simpa using he))

theorem loadItem_patterned : PatternedItem env (loadItem contract) := by
  refine .used_bind (.used_bind (.used_bind ?_))
  refine (loadArguments_patterned (by simp)).bind fun (bind, values) ⟨hbind, hvalues⟩ => ?_
  exact .andThen fun ty => .pure (by simpa using ⟨hbind, hvalues⟩)

theorem patterned_runMessage {load store router : String} {args : List Target.Expr}
    (hargs : ∀ e ∈ args, e.Patterned) : StmtsPatterned (runMessage load store router args) := by
  simpa [runMessage] using hargs

theorem part_patterned {declared : Prop} {g : Gen Item} (hg : PartOf contract declared g) :
    PatternedItem env g := by
  cases hg with
  | init => exact initItem_patterned
  | initChild =>
    refine .helper_bind (.used_bind (.andThen fun signature => .pure ?_))
    simp [patterned_storeFlag, patterned_initArguments]
  | load => exact loadItem_patterned
  | store => exact .used_bind (.andThen fun ty => .pure (by simp [patterned_storeFlag]))
  | recvInternal =>
    refine .helper_bind (.used_bind (.used_bind (.used_bind (.pure ?_))))
    simp [patterned_runMessage]
  | recvExternal =>
    exact .used_bind (.used_bind (.used_bind (.pure (patterned_runMessage (by simp)))))

/-! ### Routers -/

theorem patterned_dispatch {args : List Target.Expr} (hargs : ∀ e ∈ args, e.Patterned) :
    StmtsPatterned (dispatch name args) := by
  simpa [dispatch, callHandler, handled] using hargs

theorem opcodeBits_patterned : PatternedCode env opcodeBits := .andThen fun _ => .pure trivial

theorem patterned_bindOpcode {bits : Target.Expr} (hbits : bits.Patterned) :
    StmtsPatterned (bindOpcode name bits) := by
  simp [bindOpcode, hasOpcode, inMsg, hbits]

theorem typedBranch_patterned {opcodeVar typeName reader handler : String} :
    Yields env (typedBranch opcodeVar typeName reader handler) Target.Stmt.Patterned := by
  refine .andThen fun opcode => .used_bind (.pure ?_)
  simp [inMsg, patterned_dispatch]

theorem bounceBranches_patterned {handlers : List Handler} : PatternedStmts env (bounceBranches handlers) := by
  induction handlers with
  | nil => exact .pure trivial
  | cons handler rest ih =>
    unfold bounceBranches
    split
    · exact typedBranch_patterned.bind fun _ hfirst => ih.bind fun _ hout => .pure ⟨hfirst, hout⟩
    · exact ih

theorem bounceStage_patterned {handlers : List Handler} : PatternedStmts env (bounceStage handlers) := by
  refine .andThen fun _ => opcodeBits_patterned.bind fun bits hbits => ?_
  refine bounceBranches_patterned.bind fun branches hbranches => .pure ?_
  have hopcode : StmtsPatterned
      (if handlers.any Handler.isTypedBounce then bindOpcode "bounce_op" bits else []) := by
    split
    · exact patterned_bindOpcode hbits
    · trivial
  have hfallbacks : StmtsPatterned ((handlers.filter (·.selector == .bounceFallback)).map
      fun handler => callHandler handler.name [inMsg]) :=
    stmtsPatterned_iff.2 (List.forall_mem_map.2 fun _ _ => by simp [callHandler, inMsg])
  simp only [stmtsPatterned_append]
  exact ⟨⟨⟨⟨by simp [inMsg], hopcode⟩, hbranches⟩, hfallbacks⟩, by simp [handled]⟩

theorem opcodeBranches_patterned {routes : List Route} : PatternedStmts env (opcodeBranches routes) := by
  fun_induction opcodeBranches routes with
  | case1 => exact .pure trivial
  | case2 typeName name rest ih =>
    exact typedBranch_patterned.bind fun _ hfirst => ih.bind fun _ hout => .pure ⟨hfirst, hout⟩
  | case3 _ rest _ ih => exact ih

theorem commentBranches_patterned {routes : List Route} : PatternedStmts env (commentBranches routes) := by
  fun_induction commentBranches routes with
  | case1 => exact .pure trivial
  | case2 text name rest ih =>
    refine .andThen fun opcode => ih.bind fun out hout => .pure ?_
    simpa [patterned_dispatch] using hout
  | case3 _ rest _ ih => exact ih

theorem patterned_emptyBranches {bits : Target.Expr} {routes : List Route} (hbits : bits.Patterned) :
    StmtsPatterned (emptyBranches bits routes) := by
  rw [stmtsPatterned_iff]
  intro t ht
  obtain ⟨⟨message, handler⟩, -, ht⟩ := List.mem_filterMap.1 ht
  cases message with
  | empty =>
    obtain rfl := Option.some.inj ht
    simp [inMsg, hbits, patterned_dispatch]
  | _ => cases ht

theorem patterned_commentFallbackBranches {bits : Target.Expr} {routes : List Route}
    (hbits : bits.Patterned) : StmtsPatterned (commentFallbackBranches bits routes) := by
  rw [stmtsPatterned_iff]
  intro t ht
  obtain ⟨⟨message, handler⟩, -, ht⟩ := List.mem_filterMap.1 ht
  cases message with
  | commentFallback =>
    obtain rfl := Option.some.inj ht
    simp [hasOpcode, inMsg, hbits, patterned_dispatch]
  | _ => cases ht

theorem patterned_fallbackStage {routes : List Route} : StmtsPatterned (fallbackStage routes) := by
  rw [stmtsPatterned_iff]
  intro t ht
  obtain ⟨⟨message, handler⟩, -, ht⟩ := List.mem_flatMap.1 ht
  cases message with
  | fallback => exact stmtsPatterned_iff.1 (patterned_dispatch (by simp [inMsg])) t ht
  | _ => cases ht

theorem textStage_patterned {bits : Target.Expr} {routes : List Route} (hbits : bits.Patterned) :
    PatternedStmts env (textStage bits routes) := by
  refine commentBranches_patterned.bind fun branches hbranches => ?_
  have hfallbacks : StmtsPatterned (commentFallbackBranches bits routes) :=
    patterned_commentFallbackBranches hbits
  dsimp only
  split
  · exact .pure trivial
  · exact .pure (by simpa [inMsg] using ⟨hbranches, hfallbacks⟩)

theorem routerBody_patterned {routes : List Route} : PatternedStmts env (routerBody routes) := by
  refine opcodeBits_patterned.bind fun bits hbits => opcodeBranches_patterned.bind fun typed htyped =>
    (textStage_patterned hbits).bind fun text htext => .pure ?_
  simp only [stmtsPatterned_append]
  exact ⟨⟨⟨⟨⟨patterned_bindOpcode hbits, htyped⟩, patterned_emptyBranches hbits⟩, htext⟩,
    patterned_fallbackStage⟩, by simp [handled]⟩

theorem routerItem_patterned {handlers : List Handler} {direction : Direction} :
    PatternedItem env (routerItem contract handlers direction) := by
  refine .andThen fun _ => ?_
  cases direction with
  | internal =>
    refine bounceStage_patterned.bind fun bounced hbounced => ?_
    rw [pure_bind]
    refine routerBody_patterned.bind fun body hbody => .andThen fun self => .pure ?_
    simpa using ⟨hbounced, hbody⟩
  | external => exact routerBody_patterned.bind fun body hbody => .andThen fun self => .pure hbody

/-! ### Get-methods -/

theorem getMethodParams_patterned {signature : Signature} {params : List CellCompiler.Param} :
    Yields env (getMethodParams signature params) fun p => ∀ e ∈ p.2, e.Patterned := by
  induction params generalizing signature with
  | nil => exact .pure (by simp)
  | cons p rest ih =>
    refine .andThen fun nested? => ?_
    split
    on_goal 1 => rw [pure_bind]
    on_goal 2 => refine .andThen fun ty => ?_
    all_goals
      refine (fromOutside_patterned patterned_id).bind fun arg harg => ih.bind ?_
      rintro ⟨s, args⟩ hargs
      exact .pure (List.forall_mem_cons.2 ⟨harg, hargs⟩)

theorem getMethodResult_patterned {returns : TypeRef} :
    Yields env (getMethodResult returns) fun p => p.2.Patterned := by
  refine .andThen fun nested? => ?_
  split
  · split
    · exact (callUsed_patterned (by simp)).bind fun e he => .pure he
    · exact .andThen fun ty => (callUsed_patterned (by simp)).bind fun e he => .pure he
  · exact .andThen fun ty => .pure trivial

theorem getMethodItem_patterned {f : Function} : PatternedItem env (getMethodItem contract f) := by
  refine .used_bind (.andThen fun name => .used_bind ?_)
  refine getMethodParams_patterned.bind fun (signature, args) hargs => ?_
  refine getMethodResult_patterned.bind fun (ty, value) hvalue => .pure ?_
  have hresult : (if f.mutates then Target.modify (Target.id Name.self) name args
      else call name (Target.id Name.self :: args)).Patterned := by
    split
    · simpa using hargs
    · simpa using hargs
  simpa using ⟨hresult, hvalue⟩

/-! ### All functions of a module -/

theorem constructs_patterned {declared : Prop} {g : Gen Item} (hg : Constructs env declared g) :
    PatternedItem env g := by
  cases hg with
  | codec _ _ hcodec | argumentsCodec _ _ hcodec => exact codec_patterned hcodec
  | furtherCodec _ _ hcodec => exact furtherCodec_patterned hcodec
  | conversion _ hr hconversion => exact conversion_patterned (recordView_patterned _ _ _ hr) hconversion
  | function => exact functionItem_patterned
  | notMut => exact notMutItem_patterned
  | part _ hpart => exact part_patterned hpart
  | receiver => exact receiverItem_patterned
  | router => exact routerItem_patterned
  | getMethod => exact getMethodItem_patterned

theorem helper_patterned {helper : Helper} : (helper.item name).Patterned := by
  cases helper with
  | tupleCreate | tupleDestroy | emptySlice => trivial
  | equal mode absence =>
    cases mode <;> cases absence <;> simp [Helper.item, Helper.equalBody, Helper.compareBy]
  | _ => simp [Helper.item]

theorem constructed_patterned {r : Emission.Registry} {item : Item} (hitem : Constructed env r item) :
    item.Patterned := by
  rcases hitem with (⟨name, helper, -, rfl⟩ | ⟨name, ty, code, -, rfl⟩) | ⟨g, d, d', hg, hrun, -⟩
  · exact helper_patterned
  · trivial
  · exact constructs_patterned hg d item d' hrun

end Generate

open Generate in
/-- **Emitted code writes to patterns.** In every function of a compiled library or contract, what is
assigned to, what is bound, what an exception is bound to and what a changing call is applied to are
patterns, and there are no holes except where something is bound. -/
theorem compile_patterned {env : Env} :
    (∀ out, compileLibrary env = .ok out → out.Patterned) ∧
    ∀ contract out, compileContract env contract = .ok out → out.Patterned :=
  ⟨fun _ hout f hf item hitem => by
      obtain ⟨r, hmade⟩ := compileLibrary_madeOf hout
      exact constructed_patterned (hmade.item hf item hitem),
    fun _ _ hout f hf item hitem => by
      obtain ⟨r, hmade⟩ := compileContract_madeOf hout
      exact constructed_patterned (hmade.item hf item hitem)⟩

theorem depot_patterned :
    (∃ out, compileLibrary depotEnv = .ok out ∧ out.Patterned) ∧
    ∃ out, compileContract depotEnv "Depot" = .ok out ∧ out.Patterned := by
  obtain ⟨library, hlibrary⟩ := exists_depotLibrary
  obtain ⟨out, hout⟩ := exists_depot
  exact ⟨⟨library, hlibrary, compile_patterned.1 library hlibrary⟩, out, hout, compile_patterned.2 "Depot" out hout⟩

end CellCompiler
