import CellCompiler.Compile
import CellCompiler.Proofs.Generate.Bodies
import CellCompiler.Proofs.Generate.Records

/-!
# Contracts declare their calls

* `emitRouter_emits` is about routers, which record all handlers before they call any;
* `emitState_emits` and `emitChildSupport_emits` are about the state of a contract;
* `emitShared_emits` and `emitContract_emits` are about everything that a module is made of.
-/

namespace CellCompiler

open Target

namespace Generate

variable {env : Env} {deps : Deps env} {special : Item → Prop}

/-! ### Routers -/

theorem declared_inMsg : inMsg.Declared deps := declared_id

theorem declared_handled {value : Bool} : (handled value).Declared deps := by simp [handled]

theorem declared_dispatch {name : String} {args : List Target.Expr} (hname : deps name)
    (hargs : ∀ e ∈ args, e.Declared deps) : ∀ t ∈ dispatch name args, t.Declared deps := by
  simpa [dispatch, callHandler, declared_handled, Target.Declared, hname] using hargs

theorem opcodeBits_builds : Builds true deps opcodeBits (Target.Expr.Declared deps) :=
  Builds.read.andThen fun _ => .pure declared_number

theorem declared_hasOpcode {bits : Target.Expr} (hbits : bits.Declared deps) :
    (hasOpcode bits).Declared deps := by
  simp [hasOpcode, declared_inMsg, hbits, Target.Declared, builtins]

theorem declared_bindOpcode {name : String} {bits : Target.Expr} (hbits : bits.Declared deps) :
    ∀ t ∈ bindOpcode name bits, t.Declared deps := by
  simp [bindOpcode, declared_hasOpcode hbits, declared_inMsg, hbits, Target.Declared, builtins]

theorem typedBranch_builds {opcodeVar typeName reader handler : String}
    (hadmits : deps.Admits reader) : Builds true deps (typedBranch opcodeVar typeName reader handler) fun t =>
      deps handler → t.Declared deps := by
  have hopcode : Builds true deps (opcodeOf typeName) fun _ => True := by
    refine declOf_builds.andThen fun decl => ?_
    split
    · exact .pure trivial
    · exact .defect
  refine hopcode.andThen fun opcode => (Builds.used hadmits).bind fun reader => .pure ?_
  rintro ⟨rfl, hreader⟩ hhandler
  refine declared_conditional.2 ⟨by simp, List.forall_mem_cons.2 ⟨?_, ?_⟩⟩
  · simp [declared_inMsg, Target.Declared, hreader]
  · exact declared_dispatch hhandler (by simp)

theorem bounceBranches_builds {handlers : List Handler} :
    Builds true deps (bounceBranches handlers) fun out =>
      (∀ h ∈ handlers, deps h.name) → ∀ t ∈ out, t.Declared deps := by
  induction handlers with
  | nil => exact .pure (by simp)
  | cons h rest ih =>
    unfold bounceBranches
    split
    · next bounced _ =>
      have hreader : ∀ typeName, deps.Admits
          (if bounced = true then Name.readerBounced typeName else Name.reader typeName) := by
        intro typeName
        split <;> exact .ofType (by decide)
      refine (typedBranch_builds (hreader _)).bind fun first => ih.bind fun out => .pure ?_
      intro hout hfirst hnames
      obtain ⟨hname, hrest⟩ := List.forall_mem_cons.1 hnames
      exact List.forall_mem_cons.2 ⟨hfirst hname, hout hrest⟩
    · exact ih.mono fun out hout hnames => hout (List.forall_mem_cons.1 hnames).2

theorem bounceStage_builds {handlers : List Handler} :
    Builds true deps (bounceStage handlers) fun out =>
      (∀ h ∈ handlers, deps h.name) → ∀ t ∈ out, t.Declared deps := by
  refine Builds.read.andThen fun env => opcodeBits_builds.bind fun bits => ?_
  refine bounceBranches_builds.bind fun branches => .pure fun hbranches hbits hnames => ?_
  simp only [List.forall_mem_append]
  refine ⟨⟨⟨⟨?_, ?_⟩, hbranches hnames⟩, ?_⟩, ?_⟩
  · simp [declared_inMsg, Target.Declared, builtins]
  · split
    · exact declared_bindOpcode hbits
    · simp
  · intro t ht
    obtain ⟨h, hh, rfl⟩ := List.mem_map.1 ht
    have hname := hnames h (List.mem_filter.1 hh).1
    simp [callHandler, declared_inMsg, Target.Declared, hname]
  · simp [declared_handled]

section Routes

variable {rs : List Route} {bits : Target.Expr}

theorem opcodeBranches_builds :
    Builds true deps (opcodeBranches rs) fun out =>
      (∀ r ∈ rs, deps r.2) → ∀ t ∈ out, t.Declared deps := by
  fun_induction opcodeBranches rs with
  | case1 => exact .pure (by simp)
  | case2 typeName name rest ih =>
    have hreader : deps.Admits (Name.reader typeName) := .ofType (by decide)
    refine (typedBranch_builds hreader).bind fun first => ih.bind fun out => .pure ?_
    intro hout hfirst hnames
    obtain ⟨hname, hrest⟩ := List.forall_mem_cons.1 hnames
    exact List.forall_mem_cons.2 ⟨hfirst hname, hout hrest⟩
  | case3 r rest _ ih => exact ih.mono fun out hout hnames => hout (List.forall_mem_cons.1 hnames).2

theorem commentBranches_builds :
    Builds true deps (commentBranches rs) fun out =>
      (∀ r ∈ rs, deps r.2) → ∀ t ∈ out, t.Declared deps := by
  fun_induction commentBranches rs with
  | case1 => exact .pure (by simp)
  | case2 text name rest ih =>
    refine ofCell_builds.andThen fun opcode => ih.bind fun out => .pure fun hout hnames => ?_
    obtain ⟨hname, hrest⟩ := List.forall_mem_cons.1 hnames
    refine List.forall_mem_cons.2 ⟨declared_conditional.2 ⟨by simp, ?_⟩, hout hrest⟩
    exact declared_dispatch hname (by simp)
  | case3 r rest _ ih => exact ih.mono fun out hout hnames => hout (List.forall_mem_cons.1 hnames).2

theorem declared_emptyBranches (hbits : bits.Declared deps) (hnames : ∀ r ∈ rs, deps r.2) :
    ∀ t ∈ emptyBranches bits rs, t.Declared deps := by
  intro t ht
  obtain ⟨⟨message, name⟩, hr, hbranch⟩ := List.mem_filterMap.1 ht
  have hdispatch : ∀ t ∈ dispatch name [], t.Declared deps :=
    declared_dispatch (hnames _ hr) (by simp)
  cases message with
  | empty =>
    obtain rfl := by simpa using hbranch
    simpa [declared_inMsg, Target.Declared, builtins, hbits] using hdispatch
  | _ => simp at hbranch

theorem declared_commentFallbackBranches (hbits : bits.Declared deps)
    (hnames : ∀ r ∈ rs, deps r.2) : ∀ t ∈ commentFallbackBranches bits rs, t.Declared deps := by
  intro t ht
  obtain ⟨⟨message, name⟩, hr, hbranch⟩ := List.mem_filterMap.1 ht
  cases message with
  | commentFallback =>
    obtain rfl := by simpa using hbranch
    refine declared_conditional.2 ⟨declared_hasOpcode hbits, declared_dispatch (hnames _ hr) ?_⟩
    simp [declared_inMsg, Target.Declared, builtins, hbits]
  | _ => simp at hbranch

theorem declared_fallbackStage (hnames : ∀ r ∈ rs, deps r.2) :
    ∀ t ∈ fallbackStage rs, t.Declared deps := by
  intro t ht
  obtain ⟨⟨message, name⟩, hr, hbranch⟩ := List.mem_flatMap.1 ht
  cases message with
  | fallback => exact declared_dispatch (hnames _ hr) (by simp [declared_inMsg]) t hbranch
  | _ => simp at hbranch

theorem textStage_builds :
    Builds true deps (textStage bits rs) fun out =>
      bits.Declared deps → (∀ r ∈ rs, deps r.2) → ∀ t ∈ out, t.Declared deps := by
  refine commentBranches_builds.bind fun branches => ?_
  dsimp only
  split
  · exact .pure (by simp)
  · refine .pure fun hbranches hbits hnames => ?_
    have hall := List.forall_mem_append.2
      ⟨hbranches hnames, declared_commentFallbackBranches hbits hnames⟩
    simpa [declared_inMsg, Target.Declared, builtins] using hall

theorem routerBody_builds :
    Builds true deps (routerBody rs) fun out => (∀ r ∈ rs, deps r.2) → ∀ t ∈ out, t.Declared deps := by
  refine opcodeBits_builds.bind fun bits => opcodeBranches_builds.bind fun typed => ?_
  refine textStage_builds.bind fun text => .pure fun htext htyped hbits hnames => ?_
  simp only [List.forall_mem_append]
  refine ⟨⟨⟨⟨⟨declared_bindOpcode hbits, htyped hnames⟩, declared_emptyBranches hbits hnames⟩,
    htext hbits hnames⟩, declared_fallbackStage hnames⟩, ?_⟩
  simp [declared_handled]

end Routes

/-- Every route leads to a handler. -/
theorem mem_routes {handlers : List Handler} {direction : Direction} {r : Route}
    (hr : r ∈ routes handlers direction) : ∃ h ∈ handlers, h.name = r.2 := by
  obtain ⟨h, hh, hmessage⟩ := List.mem_filterMap.1 hr
  obtain ⟨message, -, rfl⟩ := Option.map_eq_some_iff.1 hmessage
  exact ⟨h, hh, rfl⟩

theorem forM_used_builds {handlers : List Handler}
    (hmentions : ∀ h ∈ handlers, env.program.types.Mentions h.name) :
    Builds true deps (handlers.forM fun h => do discard (used h.name)) fun _ =>
      ∀ h ∈ handlers, deps h.name := by
  induction handlers with
  | nil => exact .pure (by simp)
  | cons h rest ih =>
    obtain ⟨hfirst, hrest⟩ := List.forall_mem_cons.1 hmentions
    have hused : Builds true deps (do discard (used h.name)) fun _ => deps h.name :=
      (Builds.used (.inl hfirst)).map fun _ hname => hname.2
    refine hused.bind fun _ => (ih hrest).mono fun _ hnames hname => ?_
    exact List.forall_mem_cons.2 ⟨hname, hnames⟩

theorem routerItem_builds {contract : TypeDecl} {handlers : List Handler} {direction : Direction}
    (hmentions : ∀ h ∈ handlers, env.program.types.Mentions h.name) :
    Builds true deps (routerItem contract handlers direction) (Enterable deps) := by
  have hbody : Builds true deps (routerBody (routes handlers direction)) fun out =>
      (∀ r ∈ routes handlers direction, deps r.2) → ∀ t ∈ out, t.Declared deps := routerBody_builds
  have hroutes : (∀ h ∈ handlers, deps h.name) → ∀ r ∈ routes handlers direction, deps r.2 := by
    intro hnames r hr
    obtain ⟨h, hh, hname⟩ := mem_routes hr
    exact hname ▸ hnames h hh
  refine (forM_used_builds hmentions).bind fun _ => ?_
  cases direction with
  | internal =>
    refine bounceStage_builds.bind fun stage => hbody.bind fun body => ?_
    refine representation_builds.andThen fun self => .pure fun hbody hstage hnames => ?_
    refine enterable_define (by simp [Name.routerInternal, Name.isConstructed_ofType]) ?_
    refine List.forall_mem_append.2 ⟨?_, hbody (hroutes hnames)⟩
    simpa using hstage hnames
  | external =>
    refine hbody.bind fun body => ?_
    refine representation_builds.andThen fun self => .pure fun hbody hnames => ?_
    refine enterable_define (by simp [Name.routerExternal, Name.isConstructed_ofType]) ?_
    exact hbody (hroutes hnames)

theorem emitRouter_emits {contract : TypeDecl} {handlers : List Handler} {direction : Direction}
    (hmentions : ∀ h ∈ handlers, env.program.types.Mentions h.name) :
    Emits true env special (emitRouter contract handlers direction) fun _ => True :=
  .define fun _ => routerItem_builds hmentions

/-! ### The state of a contract -/

theorem initialState_builds {contract : TypeDecl} :
    Builds true deps (initialState contract) (Target.Expr.Declared deps) := by
  have hfield : ∀ field ∈ contract.fields,
      Builds true deps (initialField field) (Target.Expr.Declared deps) := by
    intro field _
    unfold initialField
    split
    · exact literal_builds
    · refine Builds.table.andThen fun t => Builds.ofExcept.mono fun e he => ?_
      obtain ⟨shape, -, rfl⟩ := Except.map_eq_ok.1 he
      exact shape.declared_nulls
  unfold initialState
  split
  · exact .pure (by simp)
  · exact (Builds.mapM hfield).bind fun items => .pure fun h => by simpa using h

theorem initItem_builds {contract : TypeDecl} :
    Builds true deps (initItem contract) (Enterable deps) := by
  refine withBindings_builds.bind fun signature => prologue_builds.bind fun opened => ?_
  refine initialState_builds.bind fun initial => selfBinding_builds.bind fun self => ?_
  refine (lowerStmts_builds _ _).bind fun body => ?_
  have hitem : ∀ {ty : Ty} {last : List Target.Stmt}, (∀ t ∈ last, t.Declared deps) →
      (∀ t ∈ body, t.Declared deps) → self.Declared deps → initial.Declared deps →
      (∀ t ∈ opened, t.Declared deps) →
      signature.name = (Signature.impure { name := Name.contractInit contract.name }).inline.name →
      Enterable deps ((signature.returning ty).define (opened ++ [var self initial] ++ body ++ last)) := by
    intro ty last hlast hbody hself hinitial hopened hsignature
    refine enterable_define (by simp [hsignature, Name.contractInit, Name.isConstructed_ofType]) ?_
    simp only [List.forall_mem_append]
    exact ⟨⟨⟨hopened, by simp [hself, hinitial]⟩, hbody⟩, hlast⟩
  split
  · exact representation_builds.andThen fun ty => .pure (hitem (by simp))
  · refine returned_builds.bind fun e => representation_builds.andThen fun ty => .pure fun he => ?_
    exact hitem (by simpa using he)

theorem declared_initArguments {contract : TypeDecl} : (initArguments contract).Declared deps := by
  unfold initArguments
  split
  · simp
  · simp only [Target.Expr.declared_tensor, List.mem_map]
    rintro e ⟨binding, -, rfl⟩
    exact declared_id

theorem initChildItem_builds {contract : TypeDecl} :
    Builds true deps (initChildItem contract) (Enterable deps) := by
  refine (helper_builds (.internal (by decide))).bind fun getCode => ?_
  refine (Builds.used (.ofType (by decide))).bind fun store => ?_
  refine withBindings_builds.bind fun signature => .pure ?_
  rintro hsignature ⟨rfl, hstore⟩ ⟨rfl, hgetCode⟩
  refine enterable_define (by simp [hsignature, Name.initChild, Name.isConstructed_ofType]) ?_
  simp [Target.Declared, builtins, declared_storeFlag, declared_initArguments, hstore, hgetCode]

theorem loadArguments_builds {contract : TypeDecl} {load : Target.Expr} :
    Builds true deps (loadArguments contract load) fun p => load.Declared deps →
      p.1.Declared deps ∧ ∀ e ∈ p.2, e.Declared deps := by
  unfold loadArguments
  split
  · exact .pure fun h => by simpa using h
  · refine Builds.table.andThen fun t => Builds.ofExcept.andThen fun shape => ?_
    refine (Builds.mapM fun p _ => unpack_builds).bind fun values => .pure fun hvalues hload => ?_
    exact ⟨declared_var.2 ⟨shape.declared_pattern, hload⟩, hvalues⟩

theorem loadItem_builds {contract : TypeDecl} :
    Builds true deps (loadItem contract) (Enterable deps) := by
  refine (Builds.used (.ofType (by decide))).bind fun reader => ?_
  refine (Builds.used (.ofType (by decide))).bind fun argsReader => ?_
  refine (Builds.used (.ofType (by decide))).bind fun init => ?_
  refine loadArguments_builds.bind fun (bindArgs, values) => ?_
  refine representation_builds.andThen fun ty => .pure ?_
  rintro hargs ⟨rfl, hinit⟩ ⟨rfl, hargsReader⟩ ⟨rfl, hreader⟩
  obtain ⟨hbind, hvalues⟩ := hargs (by simp [Target.Declared, hargsReader])
  refine enterable_define (by simp [Name.contractLoad, Name.isConstructed_ofType]) ?_
  simpa [Target.Declared, builtins, hreader, hinit, hbind] using hvalues

/-- The functions of a contract that have a part in storing its state: the one that stores it, and
the entry points, which call that one at their very end. Everything before refers to names that any
code may refer to. -/
inductive Storing (table : TypeTable) (contract : String) : Item → Prop where
  | state {signature : Signature} {before : List Target.Stmt} {data : Target.Expr} :
      signature.name = Name.contractStore contract → (∀ n, .methodId n ∉ signature.attributes) →
      (∀ t ∈ before, t.Declared table.Mentions) → data.Declared table.Mentions →
      Storing table contract (signature.define (before ++ [Target.Stmt.expr (call dataWriter [data])]))
  | entryPoint {signature : Signature} {before : List Target.Stmt} :
      signature.name = Name.recvInternal ∨ signature.name = Name.recvExternal →
      (∀ n, .methodId n ∉ signature.attributes) → (∀ t ∈ before, t.Declared table.Mentions) →
      Storing table contract (signature.define (before ++
        [throwUnless ExitCode.invalidMessage (id "handled"),
          .expr (call (Name.contractStore contract) [id Name.self])]))

/-- Only this function calls the one that replaces the data of the contract. -/
theorem storeItem_builds {contract : TypeDecl} :
    Builds true deps (storeItem contract)
      (Enterable fun name => deps name ∨ name = dataWriter) := by
  refine (Builds.used (.ofType (by decide))).bind fun writer => ?_
  refine representation_builds.andThen fun ty => .pure ?_
  rintro ⟨rfl, hwriter⟩
  refine enterable_define (by simp [Name.contractStore, Name.isConstructed_ofType]) ?_
  simp [Target.Declared, builtins, declared_storeFlag, hwriter]

theorem storing_storeItem {contract : TypeDecl} {d d' : Draft} {item : Item}
    (h : storeItem contract env d = .ok item d') : Storing env.program.types contract.name item := by
  simp only [storeItem, used, run_bind, run_modify, run_pure] at h
  obtain ⟨_, _, ⟨_, _, rfl, rfl, rfl⟩, ty, _, -, rfl, -⟩ := h
  have hwriter : env.program.types.Mentions (Name.writer contract.name) := .ofType (by decide)
  change Storing _ _ (Signature.define _ ([_, _, _, _] ++ [_]))
  refine .state (by simp) ?_ ?_ ?_
  · simp [Signature.impure, Signature.inline, Signature.withAttribute, Signature.param]
  · simp [hwriter, declared_storeFlag, Target.Declared, builtins]
  · simp

theorem emitState_emits {contract : TypeDecl} :
    Emits true env (Storing env.program.types contract.name) (emitState contract) fun _ => True := by
  refine (Emits.define fun _ => initItem_builds).bind fun _ _ => ?_
  refine (Emits.define fun _ => loadItem_builds).bind fun _ _ => ?_
  exact .define_special (fun _ _ => storeItem_builds) fun _ _ _ => storing_storeItem

theorem emitChildSupport_emits {contract : TypeDecl} :
    Emits true env special (emitChildSupport contract) fun _ => True := by
  refine Emits.bind (.of_builds fun _ => ofInitArgs_builds) fun args _ => ?_
  refine emitWriter_emits.bind fun _ _ => emitReader_emits.bind fun _ _ => ?_
  exact .define fun _ => initChildItem_builds

/-! ### Entry points and get-methods -/

theorem declared_runMessage {load store router : String} {args : List Target.Expr}
    (hload : deps load) (hstore : deps store) (hrouter : deps router)
    (hargs : ∀ e ∈ args, e.Declared deps) :
    ∀ t ∈ runMessage load store router args, t.Declared deps := by
  simpa [runMessage, Target.Declared, hload, hstore, hrouter] using hargs

theorem recvInternalItem_builds {contract : TypeDecl} (hextra : ∀ name, deps.extra name) :
    Builds true deps (recvInternalItem contract) (Enterable deps) := by
  refine (helper_builds (.internal (by decide))).bind fun verify => ?_
  refine (Builds.used (.ofType (by decide))).bind fun load => ?_
  refine (Builds.used (.inr (hextra _))).bind fun store => ?_
  refine (Builds.used (.ofType (by decide))).bind fun router => .pure ?_
  rintro ⟨rfl, hrouter⟩ ⟨rfl, hstore⟩ ⟨rfl, hload⟩ ⟨rfl, hverify⟩
  refine enterable_define (by simp [Name.isConstructed]) (List.forall_mem_append.2 ⟨?_, ?_⟩)
  · simp [Target.Declared, builtins, hverify]
  · exact declared_runMessage hload hstore hrouter (by simp)

theorem recvExternalItem_builds {contract : TypeDecl} (hextra : ∀ name, deps.extra name) :
    Builds true deps (recvExternalItem contract) (Enterable deps) := by
  refine (Builds.used (.ofType (by decide))).bind fun load => ?_
  refine (Builds.used (.inr (hextra _))).bind fun store => ?_
  refine (Builds.used (.ofType (by decide))).bind fun router => .pure ?_
  rintro ⟨rfl, hrouter⟩ ⟨rfl, hstore⟩ ⟨rfl, hload⟩
  refine enterable_define (by simp [Name.isConstructed]) ?_
  exact declared_runMessage hload hstore hrouter (by simp)

theorem storing_runMessage {signature : Signature} {before : List Target.Stmt} {contract router : String}
    {args : List Target.Expr} (hname : signature.name = Name.recvInternal ∨ signature.name = Name.recvExternal)
    (hattributes : ∀ n, .methodId n ∉ signature.attributes)
    (hbefore : ∀ t ∈ before, t.Declared env.program.types.Mentions)
    (hrouter : env.program.types.Mentions router)
    (hargs : ∀ e ∈ args, e.Declared env.program.types.Mentions) :
    Storing env.program.types contract (signature.define (before ++
      runMessage (Name.contractLoad contract) (Name.contractStore contract) router args)) := by
  have hload : env.program.types.Mentions (Name.contractLoad contract) := .ofType (by decide)
  have hall : ∀ t ∈ before ++ [var (id Name.self) (call (Name.contractLoad contract) []),
      var (id "handled") (Target.modify (id Name.self) router args)],
      t.Declared env.program.types.Mentions :=
    List.forall_mem_append.2 ⟨hbefore, by simpa [Target.Declared, hload, hrouter] using hargs⟩
  have hitem : Storing env.program.types contract _ := .entryPoint hname hattributes hall
  rwa [List.append_assoc] at hitem

theorem storing_recvInternalItem {contract : TypeDecl} {d d' : Draft} {item : Item}
    (h : recvInternalItem contract env d = .ok item d') :
    Storing env.program.types contract.name item := by
  simp only [recvInternalItem, helper, used, run_bind, run_modify, run_pure] at h
  obtain ⟨_, _, ⟨_, _, -, _, _, -, rfl, -⟩, _, _, ⟨_, _, -, rfl, -⟩, _, _, ⟨_, _, -, rfl, -⟩, _, _,
    ⟨_, _, -, rfl, -⟩, rfl, -⟩ := h
  have hverify : env.program.types.Mentions Helper.verifyAddressName := .internal (by decide)
  refine storing_runMessage (.inl (by simp)) ?_ ?_ (.ofType (by decide)) (by simp)
  · simp [Signature.impure, Signature.withAttribute, Signature.param]
  · simp [hverify, Target.Declared, builtins]

theorem storing_recvExternalItem {contract : TypeDecl} {d d' : Draft} {item : Item}
    (h : recvExternalItem contract env d = .ok item d') :
    Storing env.program.types contract.name item := by
  simp only [recvExternalItem, used, run_bind, run_modify, run_pure] at h
  obtain ⟨_, _, ⟨_, _, -, rfl, -⟩, _, _, ⟨_, _, -, rfl, -⟩, _, _, ⟨_, _, -, rfl, -⟩, rfl, -⟩ := h
  have hbody : Storing env.program.types contract.name
      ((Signature.param { name := Name.recvExternal } .slice "in_msg").impure.define ([] ++
        runMessage (Name.contractLoad contract.name) (Name.contractStore contract.name)
          (Name.routerExternal contract.name) [id "in_msg"])) := by
    refine storing_runMessage (.inr (by simp)) ?_ (by simp) (.ofType (by decide)) (by simp)
    simp [Signature.impure, Signature.withAttribute, Signature.param]
  exact hbody

theorem recvInternal_emits {contract : TypeDecl} {place : Emission.Section} :
    Emits true env (Storing env.program.types contract.name) (define place (recvInternalItem contract))
      fun _ => True :=
  .define_special (fun _ hextra => (recvInternalItem_builds hextra).mono fun _ h => h.mono fun _ => .inl)
    fun _ _ _ => storing_recvInternalItem

theorem recvExternal_emits {contract : TypeDecl} {place : Emission.Section} :
    Emits true env (Storing env.program.types contract.name) (define place (recvExternalItem contract))
      fun _ => True :=
  .define_special (fun _ hextra => (recvExternalItem_builds hextra).mono fun _ h => h.mono fun _ => .inl)
    fun _ _ _ => storing_recvExternalItem

theorem getMethodParams_builds {signature : Signature} {params : List CellCompiler.Param} :
    Builds true deps (getMethodParams signature params) fun p =>
      p.1.name = signature.name ∧ ∀ e ∈ p.2, e.Declared deps := by
  induction params generalizing signature with
  | nil => exact .pure (by simp)
  | cons p rest ih =>
    have hrest : ∀ {ty : Ty}, Builds true deps (do
        let arg ← fromOutside p.ty (id (Name.var p.name))
        let below ← getMethodParams (signature.param ty (Name.var p.name)) rest
        return (below.1, arg :: below.2)) fun q =>
        q.1.name = signature.name ∧ ∀ e ∈ q.2, e.Declared deps := by
      intro ty
      refine fromOutside_builds.bind fun arg => ih.bind fun below => .pure fun hs harg => ?_
      exact ⟨hs.1, List.forall_mem_cons.2 ⟨harg declared_id, hs.2⟩⟩
    refine structOf_builds.andThen fun nested? => ?_
    split
    · exact hrest
    · exact representation_builds.andThen fun ty => hrest

theorem getMethodResult_builds {returns : TypeRef} :
    Builds true deps (getMethodResult returns) fun p => p.2.Declared deps := by
  refine structOf_builds.andThen fun nested? => ?_
  split
  · split
    · exact (Builds.callUsed (.ofType (by decide))).bind fun e => .pure fun he => he (by simp)
    · refine externalTy_builds.andThen fun ty => ?_
      refine (Builds.callUsed (.ofType (by decide))).bind fun e => .pure fun he => ?_
      exact he (by simp)
  · exact representation_builds.andThen fun ty => .pure declared_id

theorem getMethodItem_builds {contract : TypeDecl} {f : Function}
    (hf : env.program.types.HasFunction f) :
    Builds true deps (getMethodItem contract f) (Enterable deps) := by
  refine (Builds.used (.ofType (by decide))).bind fun load => ?_
  refine functionName_builds.bind_run fun name _ _ hname => ?_
  have hmentions := (isNameOf_functionName hname).mentions hf
  refine Builds.mono ?_ fun _ h _ => h
  refine (Builds.used (.inl hmentions)).bind fun callee => getMethodParams_builds.bind fun (signature, args) => ?_
  refine getMethodResult_builds.bind fun (ty, value) => .pure ?_
  rintro hvalue ⟨hsignature, hargs⟩ ⟨rfl, hcallee⟩ ⟨rfl, hload⟩
  have hname : signature.name = Name.getterMethod f.name := by simpa using hsignature
  refine enterable_define (by simp [hname, Name.isConstructed_getterMethod]) ?_
  cases f.mutates <;> simpa [Target.Declared, hload, hcallee, hvalue] using hargs

theorem emitGetMethod_emits {contract : TypeDecl} {f : Function}
    (hf : env.program.types.HasFunction f) :
    Emits true env special (emitGetMethod contract f) fun _ => True := by
  unfold emitGetMethod
  split
  · exact .of_builds fun _ => Builds.defect
  · exact (Emits.define fun _ => getMethodItem_builds hf).bind fun _ _ => .pure trivial

/-! ### Everything -/

theorem addHeader_builds {item : Item} :
    Builds true deps (onRegistry (·.addHeader item)) fun _ => True := by
  refine Builds.onRegistry fun r hr => ?_
  unfold Emission.Registry.addHeader
  split
  · exact ⟨.refl _, ⟨[], .refl r⟩, hr⟩
  · exact ⟨Emission.Registry.develops_of_eq rfl rfl fun _ h => h, ⟨[], .keep (.refl r) rfl⟩,
      hr.of_eq rfl (fun _ h => h) hr.globals⟩

theorem emitEntryPoints_emits {contract : TypeDecl} {handlers : List Handler}
    (hmentions : ∀ h ∈ handlers, env.program.types.Mentions h.name) :
    Emits true env (Storing env.program.types contract.name) (emitEntryPoints contract handlers)
      fun _ => True := by
  refine (emitRouter_emits hmentions).bind fun _ _ => recvInternal_emits.bind fun _ _ => ?_
  split
  · exact (emitRouter_emits hmentions).bind fun _ _ => recvExternal_emits.bind fun _ _ => .pure trivial
  · exact .pure trivial

theorem emitStateCodecs_emits {contract : TypeDecl} :
    Emits true env special (emitStateCodecs contract) fun _ => True := by
  refine Emits.bind (.of_builds fun _ => ofDecl_builds) fun state _ => ?_
  exact emitWriter_emits.bind fun _ _ => emitReader_emits

/-- **A contract declares its calls**, and of its own functions only those that store the state
refer to more than any code may refer to. -/
theorem emitContract_emits {contract : TypeDecl} (hcontract : contract ∈ env.program.types.types.values) :
    Emits true env (Storing env.program.types contract.name) (emitContract contract) fun _ => True := by
  have hgetter : ∀ f ∈ contract.getters, env.program.types.HasFunction f := fun f hf =>
    .inr ⟨contract, hcontract, (List.mem_filter.1 hf).1⟩
  have hrest : Emits true env (Storing env.program.types contract.name) (do
      declareContext
      emitStateCodecs contract
      contract.functions.values.forM emitFunction
      emitState contract
      let handlers ← contract.receivers.mapM (emitReceiver contract)
      let entryPoints ← emitEntryPoints contract handlers
      let getMethods ← contract.getters.mapM (emitGetMethod contract)
      return entryPoints ++ getMethods) fun _ => True := by
    refine Emits.bind (.of_builds fun _ => declareContext_builds) fun _ _ => ?_
    refine emitStateCodecs_emits.bind fun _ _ => ?_
    have hfunctions : ∀ f ∈ contract.functions.values, env.program.types.HasFunction f := fun f hf =>
      .inr ⟨contract, hcontract, hf⟩
    refine (Emits.forM fun f hf => emitFunction_emits (hfunctions f hf)).bind fun _ _ => ?_
    refine emitState_emits.bind fun _ _ => ?_
    refine (Emits.mapM fun receiver _ => emitReceiver_emits).bind fun handlers hmentions => ?_
    refine (emitEntryPoints_emits hmentions).bind fun entryPoints _ => ?_
    exact (Emits.mapM fun f hf => emitGetMethod_emits (hgetter f hf)).bind fun _ _ => .pure trivial
  unfold emitContract
  split
  · exact .of_builds fun _ => .throw_bind
  · refine Emits.bind (.of_builds fun _ => Builds.read) fun _ _ => ?_
    split
    · exact Emits.bind (.of_builds fun _ => addHeader_builds) fun _ _ => hrest
    · exact hrest

/-- **What all contracts share declares its calls.** -/
theorem emitShared_emits : Emits true env special emitShared fun _ => True := by
  refine Emits.bind (.of_builds fun _ => Builds.table_value) fun t ht => ?_
  subst ht
  refine (Emits.forM fun decl _ => emitCodecs_emits.bind fun _ _ => emitAccessors_emits).bind fun _ _ => ?_
  refine (Emits.forM fun f hf => emitFunction_emits (.inl hf)).bind fun _ _ => ?_
  refine (Emits.forM fun decl hdecl => Emits.forM fun f hf => emitFunction_emits ?_).bind fun _ _ => ?_
  · exact .inr ⟨decl, List.mem_of_mem_filter hdecl, hf⟩
  exact Emits.forM fun decl _ => emitChildSupport_emits

end Generate

end CellCompiler
