import CellCompiler.Proofs.Generate.Contracts

/-!
# What constructs the functions of a module

A property of all emitted functions is proved generator by generator, once it is known that each
function comes from a generator that is meant for it.

* `Generate.Constructs env declared g` lists the generators that construct the functions of a program,
  with what each is given: a record with a plan, a declared function, a contract. The state is only
  stored where the variables of the message are `declared`;
* `Generate.Constructed env r item`: the function is a result of one of them, a helper or an embedded
  constant, and it has been constructed while no more global variables were declared than in `r`;
* `compileLibrary_madeOf` and `compileContract_madeOf`: a finished module comes from a sound registry whose
  functions are all constructed.
-/

namespace CellCompiler

open Emission (Entry Output Registry Section)
open Target (Item)

namespace Generate

/-! ### Generators of functions -/

/-- The codecs that every record has. -/
inductive CodecOf (r : Record) : Gen Item → Prop where
  | writer {inline : Bool} : CodecOf r (writerItem r inline)
  | writerCell {inline : Bool} : CodecOf r (writerCellItem r inline)
  | reader {inline : Bool} : CodecOf r (readerItem r (Name.reader r.name) false inline)
  | readerNotMut {inline : Bool} : CodecOf r (readerNotMutItem r inline)

/-- The further codecs of a struct: after a bounce, and where it may be absent. -/
inductive FurtherCodecOf (r : Record) : Gen Item → Prop where
  | readerBounced {inline : Bool} : FurtherCodecOf r (readerItem r (Name.readerBounced r.name) true inline)
  | writerOpt : FurtherCodecOf r (writerOptItem r)
  | writerCellOpt : FurtherCodecOf r (writerCellOptItem r)
  | readerOpt : FurtherCodecOf r (readerOptItem r)
  | readerCellOpt : FurtherCodecOf r (readerCellOptItem r)

/-- The conversions of a struct. -/
inductive ConversionOf (r : RecordView) : Gen Item → Prop where
  | getter {field : Field} : field ∈ r.decl.fields → ConversionOf r (r.getterItem field)
  | tensorCast : ConversionOf r (return r.tensorCastItem)
  | notNull : ConversionOf r r.notNullItem
  | asOptional : ConversionOf r r.asOptionalItem
  | toTuple : ConversionOf r r.toTupleItem
  | toOptTuple : ConversionOf r r.toOptTupleItem
  | fromTuple : ConversionOf r r.fromTupleItem
  | fromOptTuple : ConversionOf r r.fromOptTupleItem
  | toExternal : ConversionOf r r.toExternalItem
  | toOptExternal : ConversionOf r r.toOptExternalItem
  | fromExternal : ConversionOf r r.fromExternalItem
  | fromOptExternal : ConversionOf r r.fromOptExternalItem

/-- The functions of a contract other than its codecs, its methods and its handlers. -/
inductive PartOf (contract : TypeDecl) (declared : Prop) : Gen Item → Prop where
  | init : PartOf contract declared (initItem contract)
  | initChild : PartOf contract declared (initChildItem contract)
  | load : PartOf contract declared (loadItem contract)
  | store : declared → PartOf contract declared (storeItem contract)
  | recvInternal : PartOf contract declared (recvInternalItem contract)
  | recvExternal : PartOf contract declared (recvExternalItem contract)

/-- A handler that has been emitted for one of the receivers of a contract. -/
structure Handler.Of (h : Handler) (contract : TypeDecl) : Prop where
  receiver : ∃ r ∈ contract.receivers, r.selector = h.selector
  name_eq : receiverName contract.name h.selector = .ok h.name

/-- The generators that construct the functions of a program. -/
inductive Constructs (env : Env) (declared : Prop) : Gen Item → Prop where
  | codec {decl : TypeDecl} {r : Record} {d d' : Draft} {g : Gen Item} :
      decl ∈ env.program.types.types.values → Record.ofDecl decl env d = .ok r d' → CodecOf r g →
      Constructs env declared g
  | argumentsCodec {contract : TypeDecl} {r : Record} {d d' : Draft} {g : Gen Item} :
      contract ∈ env.program.types.contracts → Record.ofInitArgs contract env d = .ok r d' →
      CodecOf r g → Constructs env declared g
  | furtherCodec {decl : TypeDecl} {r : Record} {d d' : Draft} {g : Gen Item} :
      decl ∈ env.program.types.structs → Record.ofDecl decl env d = .ok r d' → FurtherCodecOf r g →
      Constructs env declared g
  | conversion {decl : TypeDecl} {r : RecordView} {d d' : Draft} {g : Gen Item} :
      decl ∈ env.program.types.structs → recordView decl env d = .ok r d' → ConversionOf r g →
      Constructs env declared g
  | function {f : Function} {stmts : List Stmt} {name : String} {d d' : Draft} :
      env.program.types.HasFunction f → f.body = .statements stmts →
      functionName f env d = .ok name d' → Constructs env declared (functionItem f name stmts)
  | notMut {f : Function} {name : String} {d d' : Draft} :
      env.program.types.HasFunction f → f.mutates = true → f.selfType.isSome = true →
      functionName f env d = .ok name d' → Constructs env declared (notMutItem f name)
  | part {contract : TypeDecl} {g : Gen Item} : contract ∈ env.program.types.contracts →
      PartOf contract declared g → Constructs env declared g
  | receiver {contract : TypeDecl} {receiver : Receiver} {name : String} :
      contract ∈ env.program.types.contracts → receiver ∈ contract.receivers →
      receiverName contract.name receiver.selector = .ok name →
      Constructs env declared (receiverItem contract receiver name)
  | router {contract : TypeDecl} {handlers : List Handler} {direction : Direction} :
      contract ∈ env.program.types.contracts → (∀ h ∈ handlers, h.Of contract) →
      Constructs env declared (routerItem contract handlers direction)
  | getMethod {contract : TypeDecl} {f : Function} : contract ∈ env.program.types.contracts →
      f ∈ contract.getters → Constructs env declared (getMethodItem contract f)

theorem Constructs.mono {env : Env} {declared more : Prop} {g : Gen Item} (h : Constructs env declared g)
    (hmore : declared → more) : Constructs env more g := by
  cases h with
  | codec hdecl hr hg => exact .codec hdecl hr hg
  | argumentsCodec hcontract hr hg => exact .argumentsCodec hcontract hr hg
  | furtherCodec hdecl hr hg => exact .furtherCodec hdecl hr hg
  | conversion hdecl hr hg => exact .conversion hdecl hr hg
  | function hf hbody hname => exact .function hf hbody hname
  | notMut hf hmutates hself hname => exact .notMut hf hmutates hself hname
  | part hcontract hpart =>
    refine .part hcontract ?_
    cases hpart with
    | init => exact .init
    | initChild => exact .initChild
    | load => exact .load
    | store h => exact .store (hmore h)
    | recvInternal => exact .recvInternal
    | recvExternal => exact .recvExternal
  | receiver hcontract hreceiver hname => exact .receiver hcontract hreceiver hname
  | router hcontract hhandlers => exact .router hcontract hhandlers
  | getMethod hcontract hf => exact .getMethod hcontract hf

/-- The function is a helper, an embedded constant, or a result of a generator of functions, which has
been run while no more global variables were declared than in the registry. -/
def Constructed (env : Env) (r : Registry) (item : Item) : Prop :=
  Emission.Auxiliary item ∨ ∃ g d d', Constructs env (r.Declares Helper.contextSys) g ∧
    g env d = .ok item d' ∧ ∀ name, d'.registry.Declares name → r.Declares name

theorem Constructed.mono {env : Env} {r r' : Registry} {item : Item} (h : Constructed env r item)
    (hdeclares : ∀ name, r.Declares name → r'.Declares name) : Constructed env r' item :=
  h.imp_right fun ⟨g, d, d', hg, hrun, hd'⟩ =>
    ⟨g, d, d', hg.mono (hdeclares _), hrun, fun name hname => hdeclares name (hd' name hname)⟩

/-! ### Generators of whole functions -/

/-- What the generators of whole functions do to a registry: it keeps what it has, every new function
is constructed as it should be, and all is done in steps. -/
structure Assembled (env : Env) (r r' : Registry) : Prop where
  develops : r.Develops (fun entry => ∀ item ∈ entry.definition, Constructed env r' item) r'
  history : ∃ es, r.History env.program.types es r'

theorem Assembled.trans {env : Env} {r r' r'' : Registry} (h : Assembled env r r')
    (h' : Assembled env r' r'') : Assembled env r r'' := by
  obtain ⟨es, hes⟩ := h.history
  obtain ⟨es', hes'⟩ := h'.history
  refine ⟨.trans (h.develops.mono fun entry hentry item hitem => ?_) h'.develops, es ++ es', hes.trans hes'⟩
  exact (hentry item hitem).mono h'.develops.declares

theorem Grows.assembled {env : Env} {deps : Deps env} {d d' : Draft} (h : Grows deps d d') :
    Assembled env d.registry d'.registry :=
  ⟨h.registry.mono fun _ hentry item hitem => .inl (hentry.auxiliary item hitem), h.history⟩

/-- The generator assembles functions and keeps the registry sound, and the result satisfies `post`. The
variables of the message may be `declared` before. -/
def Assembles {α : Type} (env : Env) (declared : Prop) (g : Gen α) (post : α → Prop) : Prop :=
  ∀ d a d', g env d = .ok a d' → d.registry.Sound true →
    (declared → d.registry.Declares Helper.contextSys) →
    Assembled env d.registry d'.registry ∧ d'.registry.Sound true ∧ post a

variable {env : Env} {declared : Prop} {r : Record} {contract : TypeDecl}

namespace Assembles

variable {α β : Type} {g : Gen α} {k : α → Gen β} {P : α → Prop} {Q : β → Prop}

theorem of_builds (h : ∀ deps : Deps env, Builds true deps g P) : Assembles env declared g P := by
  intro d a d' hrun hd _
  obtain ⟨hgrows, hsound, hP⟩ := h ⟨fun _ => True, fun _ => False⟩ d a d' hrun hd
  exact ⟨hgrows.assembled, hsound, hP fun _ _ => trivial⟩

/-- What is computed first can be used as the result of its run. -/
theorem bind_run (hg : Assembles env declared g P)
    (hk : ∀ a d d', g env d = .ok a d' → P a → Assembles env declared (k a) Q) :
    Assembles env declared (g >>= k) Q := by
  intro d b d'' h hd hdeclared
  obtain ⟨a, d', hrun, hrest⟩ := run_bind.1 h
  obtain ⟨hassembled, hsound, hP⟩ := hg d a d' hrun hd hdeclared
  obtain ⟨hassembled', hsound', hQ⟩ := hk a d d' hrun hP d' b d'' hrest hsound
    fun h => hassembled.develops.declares _ (hdeclared h)
  exact ⟨hassembled.trans hassembled', hsound', hQ⟩

theorem bind (hg : Assembles env declared g P) (hk : ∀ a, P a → Assembles env declared (k a) Q) :
    Assembles env declared (g >>= k) Q := hg.bind_run fun a _ _ _ => hk a

theorem andThen (hg : Assembles env declared g P) (hk : ∀ a, Assembles env declared (k a) Q) :
    Assembles env declared (g >>= k) Q := hg.bind fun a _ => hk a

theorem builds_bind (hg : ∀ deps : Deps env, Builds true deps g P)
    (hk : ∀ a d d', g env d = .ok a d' → P a → Assembles env declared (k a) Q) :
    Assembles env declared (g >>= k) Q := (of_builds hg).bind_run hk

/-- From here on the variables of the message are declared. -/
theorem declareContext_bind {k : Unit → Gen β} (hk : Assembles env True (k ()) Q) :
    Assembles env declared (declareContext >>= k) Q := by
  intro d b d'' h hd _
  obtain ⟨⟨⟩, d', hrun, hrest⟩ := run_bind.1 h
  have hbuilds : ∀ deps : Deps env, Builds true deps declareContext fun _ => True :=
    fun _ => declareContext_builds
  obtain ⟨hassembled, hsound, -⟩ := of_builds hbuilds d () d' hrun hd False.elim
  obtain ⟨hassembled', hsound', hQ⟩ := hk d' b d'' hrest hsound fun _ => (declareContext_declares hrun).2
  exact ⟨hassembled.trans hassembled', hsound', hQ⟩

theorem pure {a : α} (h : P a) : Assembles env declared (Pure.pure a) P := of_builds fun _ => .pure h

theorem forM {f : α → Gen PUnit} {l : List α} (h : ∀ a ∈ l, Assembles env declared (f a) fun _ => True) :
    Assembles env declared (l.forM f) fun _ => True := by
  induction l with
  | nil => exact pure trivial
  | cons a l ih =>
    exact (h a List.mem_cons_self).andThen fun _ => ih fun x hx => h x (List.mem_cons_of_mem a hx)

theorem mapM {f : α → Gen β} {l : List α} (h : ∀ a ∈ l, Assembles env declared (f a) Q) :
    Assembles env declared (l.mapM f) fun bs => ∀ b ∈ bs, Q b := by
  induction l with
  | nil => exact pure (by simp)
  | cons a l ih =>
    rw [List.mapM_cons]
    refine (h a List.mem_cons_self).bind fun b hb => ?_
    refine (ih fun x hx => h x (List.mem_cons_of_mem a hx)).bind fun bs hbs => pure ?_
    simpa using ⟨hb, hbs⟩

/-- A function is constructed and entered, even one that may replace the data of the contract. -/
theorem define_special {place : Section} {construct : Gen Item}
    (h : ∀ deps : Deps env, (∀ name, deps.extra name) → Builds true deps construct
      (Enterable fun name => deps name ∨ name = Target.dataWriter)) (hc : Constructs env declared construct) :
    Assembles env declared (Generate.define place construct) fun _ => True := by
  intro d a d' hrun hd hdeclared
  obtain ⟨item, d₁, hitem, r, hr, rfl⟩ := run_define.1 hrun
  obtain ⟨hgrows, hsound, hpost⟩ := h ⟨(· ∈ d₁.deps.names), fun _ => True⟩ (fun _ => trivial) _ item d₁
    hitem hd
  have henterable := hpost fun _ h => h
  have hglobals : ∀ name, r.Declares name ↔ d₁.registry.Declares name := fun name => by
    rw [Registry.Declares, Registry.Declares, Registry.globals_of_register hr]
  have hconstructed : Constructed env r item := by
    refine .inr ⟨construct, _, d₁, hc.mono fun h => ?_, hitem, fun name => (hglobals name).2⟩
    exact (hglobals _).2 (hgrows.registry.declares _ (hdeclared h))
  have hnew : ∀ entry : Entry, item.name? = some entry.name → entry.definition = some item →
      ∀ other ∈ entry.definition, Constructed env r other := by
    intro entry _ hentry other hother
    obtain rfl : item = other := by simpa [hentry] using hother
    exact hconstructed
  obtain ⟨hdevelops, hsound'⟩ := Registry.register_sound hsound hr
    (fun _ hname => .inl (henterable.isEmitted hname)) henterable.2 hnew
    fun _ hname => Registry.prepared_of_isEmitted (henterable.isEmitted hname)
  have hnamed : ∀ name, item.name? = some name → ¬ "__gen".toList <+: name.toList :=
    fun name hname => Name.not_isPrefix_of_isConstructed (henterable.1 name hname)
  exact ⟨hgrows.assembled.trans ⟨hdevelops, [], .enter (.refl _) hnamed hr⟩, hsound', trivial⟩

theorem define {place : Section} {construct : Gen Item}
    (h : ∀ deps : Deps env, Builds true deps construct (Enterable deps)) (hc : Constructs env declared construct) :
    Assembles env declared (Generate.define place construct) fun _ => True :=
  define_special (fun deps _ => (h deps).mono fun _ henterable => henterable.mono fun _ => .inl) hc

end Assembles

/-! ### Records -/

theorem emitWriter_assembles {force : Bool} (h : ∀ g, CodecOf r g → Constructs env declared g) :
    Assembles env declared (emitWriter r force) fun _ => True := by
  refine .builds_bind (fun _ => isSmall_builds) fun small _ _ _ _ => ?_
  refine (Assembles.define (fun _ => writerItem_builds) (h _ .writer)).andThen fun _ => ?_
  exact .define (fun _ => writerCellItem_builds) (h _ .writerCell)

theorem emitReader_assembles {force : Bool} (h : ∀ g, CodecOf r g → Constructs env declared g) :
    Assembles env declared (emitReader r force) fun _ => True := by
  refine .builds_bind (fun _ => isSmall_builds) fun small _ _ _ _ => ?_
  refine (Assembles.define (fun _ => readerItem_builds (Name.isConstructed_ofType _ _))
    (h _ .reader)).andThen fun _ => ?_
  exact .define (fun _ => readerNotMutItem_builds) (h _ .readerNotMut)

theorem emitBouncedReader_assembles {force : Bool} (h : ∀ g, FurtherCodecOf r g → Constructs env declared g) :
    Assembles env declared (emitBouncedReader r force) fun _ => True := by
  refine .builds_bind (fun _ => isSmall_builds) fun small _ _ _ _ => ?_
  exact .define (fun _ => readerItem_builds (Name.isConstructed_ofType _ _)) (h _ .readerBounced)

theorem emitOptionalCodecs_assembles (h : ∀ g, FurtherCodecOf r g → Constructs env declared g) :
    Assembles env declared (emitOptionalCodecs r) fun _ => True := by
  refine (Assembles.define (fun _ => writerOptItem_builds) (h _ .writerOpt)).andThen fun _ => ?_
  refine (Assembles.define (fun _ => writerCellOptItem_builds) (h _ .writerCellOpt)).andThen fun _ => ?_
  refine (Assembles.define (fun _ => readerOptItem_builds) (h _ .readerOpt)).andThen fun _ => ?_
  exact .define (fun _ => readerCellOptItem_builds) (h _ .readerCellOpt)

theorem emitCodecs_assembles {decl : TypeDecl} (hdecl : decl ∈ env.program.types.structs) :
    Assembles env declared (emitCodecs decl) fun _ => True := by
  refine .builds_bind (fun _ => ofDecl_builds) fun r _ _ hr _ => ?_
  have hcodec : ∀ g, CodecOf r g → Constructs env declared g := fun _ =>
    .codec (TypeTable.mem_structs.1 hdecl).1 hr
  have hfurther : ∀ g, FurtherCodecOf r g → Constructs env declared g := fun _ => .furtherCodec hdecl hr
  refine (emitWriter_assembles hcodec).andThen fun _ => (emitReader_assembles hcodec).andThen fun _ => ?_
  split
  · exact (emitBouncedReader_assembles hfurther).andThen fun _ => emitOptionalCodecs_assembles hfurther
  · exact emitOptionalCodecs_assembles hfurther

theorem emitAccessors_assembles {decl : TypeDecl} (hdecl : decl ∈ env.program.types.structs) :
    Assembles env declared (emitAccessors decl) fun _ => True := by
  refine .builds_bind (fun _ => recordView_builds) fun view _ _ hrun hview => ?_
  have hc : ∀ g, ConversionOf view g → Constructs env declared g := fun _ => .conversion hdecl hrun
  refine (Assembles.forM fun field hfield => .define (fun _ => getterItem_builds hview)
    (hc _ (.getter hfield))).andThen fun _ => ?_
  refine (Assembles.define (fun _ => .pure tensorCastItem_enterable) (hc _ .tensorCast)).andThen fun _ => ?_
  refine (Assembles.define (fun _ => notNullItem_builds hview) (hc _ .notNull)).andThen fun _ => ?_
  refine (Assembles.define (fun _ => asOptionalItem_builds hview) (hc _ .asOptional)).andThen fun _ => ?_
  refine (Assembles.define (fun _ => toTupleItem_builds hview) (hc _ .toTuple)).andThen fun _ => ?_
  refine (Assembles.define (fun _ => toOptTupleItem_builds) (hc _ .toOptTuple)).andThen fun _ => ?_
  refine (Assembles.define (fun _ => fromTupleItem_builds) (hc _ .fromTuple)).andThen fun _ => ?_
  refine (Assembles.define (fun _ => fromOptTupleItem_builds) (hc _ .fromOptTuple)).andThen fun _ => ?_
  refine (Assembles.define (fun _ => toExternalItem_builds hview) (hc _ .toExternal)).andThen fun _ => ?_
  refine (Assembles.define (fun _ => toOptExternalItem_builds) (hc _ .toOptExternal)).andThen fun _ => ?_
  refine (Assembles.define (fun _ => fromExternalItem_builds) (hc _ .fromExternal)).andThen fun _ => ?_
  exact .define (fun _ => fromOptExternalItem_builds) (hc _ .fromOptExternal)

/-! ### Functions and handlers -/

theorem emitFunction_assembles {f : Function} (hf : env.program.types.HasFunction f) :
    Assembles env declared (emitFunction f) fun _ => True := by
  unfold emitFunction
  split
  · next hbody => exact .of_builds fun _ => Builds.skip (.inl rfl) (.inr ⟨f, hf, hbody⟩)
  · exact .pure trivial
  · next stmts hbody =>
    refine .builds_bind (fun _ => functionName_builds) fun name _ _ hrun hname => ?_
    refine Assembles.bind (.of_builds fun _ => functionSection_builds) fun place _ => ?_
    refine (Assembles.define (fun _ => functionItem_builds hname.isConstructed.1)
      (.function hf hbody hrun)).andThen fun _ => ?_
    split
    · next hself =>
      obtain ⟨hmutates, hself⟩ := Bool.and_eq_true_iff.1 hself
      obtain ⟨owner, rfl⟩ := hname.resolve_left fun h => by simp [h.1] at hself
      exact .define (fun _ => notMutItem_builds TypeTable.mentions_method Name.isConstructed_notMut)
        (.notMut hf hmutates hself hrun)
    · exact .pure trivial

theorem emitReceiver_assembles (hcontract : contract ∈ env.program.types.contracts)
    {receiver : Receiver} (hreceiver : receiver ∈ contract.receivers) :
    Assembles env declared (emitReceiver contract receiver) fun h =>
      h.Of contract ∧ env.program.types.Mentions h.name := by
  refine Assembles.bind (.of_builds fun _ => ofCell_builds) fun name hname => ?_
  obtain ⟨suffix, hsuffix, rfl⟩ := name_of_receiverName hname
  refine (Assembles.define (fun _ => receiverItem_builds (Name.isConstructed_ofType _ _))
    (.receiver hcontract hreceiver hname)).andThen fun _ =>
    .pure ⟨⟨⟨receiver, hreceiver, rfl⟩, hname⟩, .ofType ?_⟩
  rintro rfl
  exact hsuffix (by decide)

theorem emitRouter_assembles (hcontract : contract ∈ env.program.types.contracts)
    {handlers : List Handler} {direction : Direction}
    (hhandlers : ∀ h ∈ handlers, h.Of contract ∧ env.program.types.Mentions h.name) :
    Assembles env declared (emitRouter contract handlers direction) fun _ => True :=
  .define (fun _ => routerItem_builds fun h hh => (hhandlers h hh).2)
    (.router hcontract fun h hh => (hhandlers h hh).1)

/-! ### Contracts -/

theorem emitState_assembles (hcontract : contract ∈ env.program.types.contracts) :
    Assembles env True (emitState contract) fun _ => True := by
  refine (Assembles.define (fun _ => initItem_builds) (.part hcontract .init)).andThen fun _ => ?_
  refine (Assembles.define (fun _ => loadItem_builds) (.part hcontract .load)).andThen fun _ => ?_
  exact .define_special (fun _ _ => storeItem_builds) (.part hcontract (.store trivial))

theorem emitChildSupport_assembles (hcontract : contract ∈ env.program.types.contracts) :
    Assembles env declared (emitChildSupport contract) fun _ => True := by
  refine .builds_bind (fun _ => ofInitArgs_builds) fun r _ _ hr _ => ?_
  have hcodec : ∀ g, CodecOf r g → Constructs env declared g := fun _ => .argumentsCodec hcontract hr
  refine (emitWriter_assembles hcodec).andThen fun _ => (emitReader_assembles hcodec).andThen fun _ => ?_
  exact .define (fun _ => initChildItem_builds) (.part hcontract .initChild)

theorem emitStateCodecs_assembles (hcontract : contract ∈ env.program.types.contracts) :
    Assembles env declared (emitStateCodecs contract) fun _ => True := by
  refine .builds_bind (fun _ => ofDecl_builds) fun r _ _ hr _ => ?_
  have hcodec : ∀ g, CodecOf r g → Constructs env declared g := fun _ =>
    .codec (TypeTable.mem_contracts.1 hcontract).1 hr
  exact (emitWriter_assembles hcodec).andThen fun _ => emitReader_assembles hcodec

theorem emitEntryPoints_assembles (hcontract : contract ∈ env.program.types.contracts)
    {handlers : List Handler}
    (hhandlers : ∀ h ∈ handlers, h.Of contract ∧ env.program.types.Mentions h.name) :
    Assembles env declared (emitEntryPoints contract handlers) fun _ => True := by
  have hinternal : ∀ deps : Deps env, (∀ name, deps.extra name) →
      Builds true deps (recvInternalItem contract) (Enterable fun name => deps name ∨ name = Target.dataWriter) :=
    fun _ hextra => (recvInternalItem_builds hextra).mono fun _ h => h.mono fun _ => .inl
  have hexternal : ∀ deps : Deps env, (∀ name, deps.extra name) →
      Builds true deps (recvExternalItem contract) (Enterable fun name => deps name ∨ name = Target.dataWriter) :=
    fun _ hextra => (recvExternalItem_builds hextra).mono fun _ h => h.mono fun _ => .inl
  refine (emitRouter_assembles hcontract hhandlers).andThen fun _ => ?_
  refine (Assembles.define_special hinternal (.part hcontract .recvInternal)).andThen fun _ => ?_
  split
  · refine (emitRouter_assembles hcontract hhandlers).andThen fun _ => ?_
    exact (Assembles.define_special hexternal (.part hcontract .recvExternal)).andThen
      fun _ => .pure trivial
  · exact .pure trivial

theorem emitGetMethod_assembles (hcontract : contract ∈ env.program.types.contracts) {f : Function}
    (hf : f ∈ contract.getters) : Assembles env declared (emitGetMethod contract f) fun _ => True := by
  have hfunction : env.program.types.HasFunction f :=
    .inr ⟨contract, (TypeTable.mem_contracts.1 hcontract).1, (List.mem_filter.1 hf).1⟩
  unfold emitGetMethod
  split
  · exact .of_builds fun _ => Builds.defect
  · exact (Assembles.define (fun _ => getMethodItem_builds hfunction) (.getMethod hcontract hf)).andThen
      fun _ => .pure trivial

theorem emitContract_assembles (hdecl : contract ∈ env.program.types.types.values) :
    Assembles env declared (emitContract contract) fun _ => True := by
  have hrest : contract ∈ env.program.types.contracts → Assembles env declared (do
      declareContext
      emitStateCodecs contract
      contract.functions.values.forM emitFunction
      emitState contract
      let handlers ← contract.receivers.mapM (emitReceiver contract)
      let entryPoints ← emitEntryPoints contract handlers
      let getMethods ← contract.getters.mapM (emitGetMethod contract)
      return entryPoints ++ getMethods) fun _ => True := by
    intro hcontract
    refine .declareContext_bind ?_
    refine (emitStateCodecs_assembles hcontract).andThen fun _ => ?_
    refine (Assembles.forM fun f hf => emitFunction_assembles (.inr ⟨contract, hdecl, hf⟩)).andThen
      fun _ => ?_
    refine (emitState_assembles hcontract).andThen fun _ => ?_
    refine (Assembles.mapM fun receiver => emitReceiver_assembles hcontract).bind fun handlers hh => ?_
    refine (emitEntryPoints_assembles hcontract hh).andThen fun entryPoints => ?_
    exact (Assembles.mapM fun f hf => emitGetMethod_assembles hcontract hf).andThen
      fun _ => .pure trivial
  unfold emitContract
  split
  · exact .of_builds fun _ => .throw_bind
  · next hkind =>
    have hcontract := TypeTable.mem_contracts.2 ⟨hdecl, by simpa using hkind⟩
    refine Assembles.bind (.of_builds fun _ => Builds.read) fun _ _ => ?_
    split
    · exact Assembles.bind (.of_builds fun _ => addHeader_builds) fun _ _ => hrest hcontract
    · exact hrest hcontract

theorem emitShared_assembles : Assembles env declared emitShared fun _ => True := by
  refine Assembles.bind (.of_builds fun _ => Builds.table_value) fun t ht => ?_
  subst ht
  refine (Assembles.forM fun decl hdecl => (emitCodecs_assembles hdecl).andThen fun _ =>
    emitAccessors_assembles hdecl).andThen fun _ => ?_
  refine (Assembles.forM fun f hf => emitFunction_assembles (.inl hf)).andThen fun _ => ?_
  refine (Assembles.forM fun decl hdecl => Assembles.forM fun f hf => emitFunction_assembles ?_).andThen
    fun _ => ?_
  · exact .inr ⟨decl, List.mem_of_mem_filter hdecl, hf⟩
  exact Assembles.forM fun decl => emitChildSupport_assembles

/-- What is there after a run from the start is sound and has been assembled. -/
theorem Assembles.assembled {α : Type} {g : Gen α} {P : α → Prop} (hg : Assembles env False g P) {a : α}
    {r : Registry} (h : Generate.run env g = .ok (a, r)) : r.Sound true ∧ Assembled env {} r := by
  unfold Generate.run at h
  split at h
  · next d hrun =>
    obtain ⟨rfl, rfl⟩ : _ = a ∧ d.registry = r := by simpa using h
    obtain ⟨hassembled, hsound, -⟩ := hg {} _ d hrun Registry.sound_empty False.elim
    exact ⟨hsound, hassembled⟩
  · simp at h

end Generate

open Generate

/-! ### Finished modules -/

variable {env : Env} {out : Output}

/-- The module comes from a registry that is sound, and whose functions are all constructed as they
should be. -/
structure Emission.Output.MadeOf (out : Output) (env : Env) (r : Registry) : Prop where
  sound : r.Sound true
  constructed : ∀ name entry, r.functions.get? name = some entry → ∀ item ∈ entry.definition,
    Constructed env r item
  output : ∃ order, out = r.output order

theorem Emission.Output.MadeOf.get? {r : Registry} (h : out.MadeOf env r) {f : Entry}
    (hf : f ∈ out.functions) : r.functions.get? f.name = some f := by
  obtain ⟨order, rfl⟩ := h.output
  exact (Registry.get?_of_mem_output h.sound.filed hf).1

/-- Every function of the module comes from a generator that is meant for it. -/
theorem Emission.Output.MadeOf.item {r : Registry} (h : out.MadeOf env r) {f : Entry}
    (hf : f ∈ out.functions) : ∀ item ∈ f.definition, Constructed env r item :=
  h.constructed _ f (h.get? hf)

theorem Generate.Assembles.madeOf {α : Type} {g : Gen α} {P : α → Prop} (hg : Assembles env False g P)
    {a : α} {r : Registry} {order : List String} (h : Generate.run env g = .ok (a, r)) :
    (r.output order).MadeOf env r := by
  obtain ⟨hsound, hassembled⟩ := hg.assembled h
  exact ⟨hsound, fun name entry hget => (hassembled.develops.new name entry hget).resolve_left (by simp),
    order, rfl⟩

/-- **Every function of a library comes from a generator that is meant for it.** -/
theorem compileLibrary_madeOf (h : compileLibrary env = .ok out) : ∃ r, out.MadeOf env r := by
  simp only [compileLibrary, Except.bind_eq_ok] at h
  obtain ⟨⟨⟨⟩, r⟩, hrun, hout⟩ := h
  obtain ⟨order, -, -, rfl⟩ := Registry.finalize_eq_ok hout
  exact ⟨r, emitShared_assembles.madeOf hrun⟩

/-- **Every function of a contract comes from a generator that is meant for it.** -/
theorem compileContract_madeOf {contract : String} (h : compileContract env contract = .ok out) :
    ∃ r, out.MadeOf env r := by
  simp only [compileContract, Except.bind_eq_ok, Layout.declOf_eq_ok] at h
  obtain ⟨decl, hdecl, ⟨roots, r⟩, hrun, hout⟩ := h
  obtain ⟨order, rfl⟩ : ∃ order, out = r.output order := by
    split at hout
    · exact (Registry.finalizeReachable_eq_ok hout).imp fun _ h => h.2.2
    · exact (Registry.finalize_eq_ok hout).imp fun _ h => h.2.2
  exact ⟨r, (emitShared_assembles.andThen fun _ =>
    emitContract_assembles (Dict.mem_values_of_get? hdecl)).madeOf hrun⟩

end CellCompiler
