import CellCompiler.Proofs.Calling.Bodies

/-!
# Calls in codecs and conversions

The functions of a record call each other, those of the records in its fields, and helpers.
`codec_agrees`, `furtherCodec_agrees` and `conversion_agrees` collect the functions of a record.
-/

namespace CellCompiler

open Plan (Op OpKind Chain)
open Target

namespace Generate

variable {env : Env} {name type : String} {ty : TypeRef}

/-! ### Storing -/

theorem everyCall_storeFlag {builder : Target.Expr} {flag : Bool} :
    (storeFlag builder flag).EveryCall env.Accepts ↔ builder.EveryCall env.Accepts := by
  simp [storeFlag, Env.Accepts, builtins]

theorem everyCall_sliceCell {slice : Target.Expr} :
    (sliceCell slice).EveryCall env.Accepts ↔ slice.EveryCall env.Accepts := by
  simp [sliceCell, Env.Accepts, builtins]

theorem storeOp_accepted {builder value : Target.Expr} {kind : OpKind} (hkind : kind.Unmarked)
    (hbuilder : builder.EveryCall env.Accepts) (hvalue : value.EveryCall env.Accepts) :
    Accepted env (storeOp builder value kind) := by
  cases kind with
  | address =>
    exact Yields.callHelper.call (suits_named (h := .storeAddress) (by decide) rfl ⟨rfl, by simp⟩)
      (by simp [hbuilder, hvalue])
  | struct typeName byRef =>
    cases byRef with
    | false =>
      exact Yields.callUsed.call (suits_part (.codec .writer) hkind rfl (by simp))
        (by simp [hbuilder, hvalue])
    | true =>
      refine (Yields.callUsed.call (suits_part (.codec .writerCell) hkind rfl (by simp))
        (by simpa using hvalue)).bind fun cell hcell => .pure ?_
      simp [Env.Accepts, builtins, hbuilder, hcell]
  | cell format | slice format | builder format =>
    cases format <;> exact .pure (by simp [everyCall_sliceCell, Env.Accepts, builtins, hbuilder, hvalue])
  | _ => exact .pure (by simp [everyCall_sliceCell, Env.Accepts, builtins, hbuilder, hvalue])

theorem storeField_accepted {builder value : Target.Expr} {op : Op} (hop : op.kind.Unmarked)
    (hbuilder : builder.EveryCall env.Accepts) (hvalue : value.EveryCall env.Accepts) :
    Accepted env (storeField builder op value) := by
  have hstored : ∀ kind present, kind.Unmarked → present.EveryCall env.Accepts → Accepted env (do
      let stored ← storeOp (storeFlag builder true) present kind
      return .ternary (not (isNull value)) stored (storeFlag builder false)) := by
    intro kind present hkind hpresent
    refine (storeOp_accepted hkind (everyCall_storeFlag.2 hbuilder) hpresent).bind
      fun stored hstored => .pure ?_
    simp [hvalue, hstored, everyCall_storeFlag, hbuilder]
  unfold storeField
  split
  · exact storeOp_accepted hop hbuilder hvalue
  · split
    · next typeName hkind =>
      have htype : '$' ∉ typeName.toList := by simpa [hkind, OpKind.Unmarked] using hop
      exact Yields.callUsed.call (suits_part (.codec .writerOpt) htype rfl (by simp))
        (by simp [hbuilder, hvalue])
    · next kind hnot =>
      split
      · next typeName byRef hkind =>
        have htype : '$' ∉ typeName.toList := by simpa [hkind, OpKind.Unmarked] using hop
        refine (Yields.callUsed.call (suits_part .notNull htype rfl (by simp))
          (by simpa using hvalue)).bind fun present hpresent => hstored _ _ ?_ hpresent
        simpa [hkind] using hop
      · rw [pure_bind]
        exact hstored _ _ hop hvalue

theorem recordPattern_accepted {r : Record} {op : Op} : Accepted env (r.fieldPattern op) := by
  unfold Record.fieldPattern
  split
  · exact unpack_yields
  · exact .defect

theorem writeOps_accepted {r : Record} {builder : Target.Expr} {ops : List Op}
    (hops : ∀ op ∈ ops, op.kind.Unmarked) (hbuilder : builder.EveryCall env.Accepts) :
    AcceptedStmts env (writeOps r builder ops) := by
  induction ops with
  | nil => exact .pure (by simp)
  | cons op rest ih =>
    obtain ⟨hop, hrest⟩ := List.forall_mem_cons.1 hops
    refine recordPattern_accepted.bind fun value hvalue =>
      (storeField_accepted hop hbuilder hvalue).bind fun stored hstored =>
      (ih hrest).bind fun out hout => .pure (List.forall_mem_cons.2 ⟨?_, hout⟩)
    simp [hbuilder, hstored]

theorem writeChain_accepted {r : Record} {generation : Nat} {chain : Chain}
    (hops : ∀ op ∈ chain.ops, op.kind.Unmarked) : AcceptedStmts env (writeChain r generation chain) := by
  induction chain generalizing generation with
  | last ops => exact writeOps_accepted (by simpa [Chain.ops, Chain.cells] using hops) everyCall_id
  | link ops next ih =>
    obtain ⟨hown, hnext⟩ : (∀ op ∈ ops, op.kind.Unmarked) ∧ ∀ op ∈ next.ops, op.kind.Unmarked := by
      simpa [Chain.ops, Chain.cells, or_imp, forall_and] using hops
    refine (writeOps_accepted hown everyCall_id).bind fun own hown => (ih hnext).bind fun below hbelow => .pure ?_
    simp only [List.forall_mem_append]
    exact ⟨⟨⟨hown, by simp⟩, hbelow⟩, by simp [Env.Accepts, builtins]⟩

theorem everyCall_writeHeader {plan : Plan} : ∀ t ∈ writeHeader plan, t.EveryCall env.Accepts := by
  unfold writeHeader
  split <;> simp [Env.Accepts, builtins]

theorem everyCall_openRecord {shape : Layout.Shape} :
    ∀ t ∈ openRecord shape, t.EveryCall env.Accepts := by
  unfold openRecord
  split
  · simpa using shape.everyCall_pattern
  · simp

/-- A codec under its name, of a declared type or of the arguments of a contract. -/
structure Record.Named (r : Record) (env : Env) : Prop where
  signs : ∀ (c : Name.Codec) (s : Signature), s.name = c.name r.name →
    s.params.length = c.convention.arity → (c.convention.threads = true → s.threads = true) →
    env.program.types.Signs s
  suits : ∀ c : Name.Codec, env.program.types.Suits ⟨c.name r.name, c.convention.arity, false⟩
  reader : env.program.types.Suits ⟨Name.reader r.name, 1, true⟩
  plan : r.plan.Unmarked

theorem writerItem_agrees {r : Record} (hr : r.Named env) {inline : Bool} :
    Yields env (writerItem r inline) (Agrees env) := by
  refine .andThen fun shape => (writeChain_accepted hr.plan).bind fun body hbody => .pure ?_
  refine agrees_define (hr.signs .writer _ (by simp [Name.Codec.name]) (by simp [Name.Codec.convention])
    (by simp [Name.Codec.convention])) ?_
  simp only [List.forall_mem_append]
  exact ⟨⟨⟨everyCall_openRecord, everyCall_writeHeader⟩, hbody⟩, by simp⟩

theorem writerCellItem_agrees {r : Record} (hr : r.Named env) {inline : Bool} :
    Yields env (writerCellItem r inline) (Agrees env) := by
  refine .andThen fun shape => (Yields.callUsed.call (hr.suits .writer) (by simp)).bind
    fun stored hstored => .pure ?_
  exact agrees_define (hr.signs .writerCell _ (by simp [Name.Codec.name]) (by simp [Name.Codec.convention])
    (by simp [Name.Codec.convention])) (by simpa using hstored)

/-! ### Loading -/

theorem everyCall_loadReference {slice : Target.Expr} :
    (loadReference slice).EveryCall env.Accepts ↔ slice.EveryCall env.Accepts := by
  simp [loadReference, Env.Accepts, builtins]

theorem loadOp_accepted {slice : Target.Expr} {kind : OpKind} (hkind : kind.Unmarked)
    (hslice : slice.EveryCall env.Accepts) : Accepted env (loadOp slice kind) := by
  cases kind with
  | address =>
    have hload : env.program.types.Suits ⟨Helper.loadAddressName, 1, true⟩ :=
      suits_named (h := .loadAddress) (by decide) rfl (by decide)
    exact .helper_bind (.pure (by simp [Env.Accepts, hload, hslice]))
  | struct typeName byRef =>
    cases byRef with
    | false =>
      have hreader : env.program.types.Suits ⟨Name.reader typeName, 1, true⟩ :=
        suits_part (.codec .reader) hkind rfl fun _ => rfl
      exact .used_bind (.pure (by simp [Env.Accepts, hreader, hslice]))
    | true =>
      exact Yields.callUsed.call (suits_part (.codec .readerNotMut) hkind rfl (by simp))
        (by simpa [everyCall_loadReference] using hslice)
  | _ => exact .pure (by simp [everyCall_loadReference, Env.Accepts, builtins, hslice])

theorem loadOptional_accepted {slice : Target.Expr} {kind : OpKind} (hkind : kind.Unmarked)
    (hslice : slice.EveryCall env.Accepts) : Accepted env (loadOptional slice kind) := by
  have hvalue : ∀ value, value.EveryCall env.Accepts →
      (Target.Expr.ternary (Target.modify slice "load_int" [int 1]) value null).EveryCall env.Accepts := by
    intro value hvalue
    simp [Env.Accepts, builtins, hslice, hvalue]
  unfold loadOptional
  split
  · next typeName =>
    have hreader : env.program.types.Suits ⟨Name.readerOpt typeName, 1, true⟩ :=
      suits_part (.codec .readerOpt) hkind rfl fun _ => rfl
    exact .used_bind (.pure (by simp [Env.Accepts, hreader, hslice]))
  · refine (loadOp_accepted hkind hslice).bind fun loaded hloaded => ?_
    split
    · next typeName byRef =>
      refine (Yields.callUsed.call (suits_part .asOptional hkind rfl (by simp))
        (by simpa using hloaded)).bind fun value h => .pure (hvalue value h)
    · rw [pure_bind]
      exact .pure (hvalue loaded hloaded)

theorem loadField_accepted {slice pattern : Target.Expr} {op : Op} (hop : op.kind.Unmarked)
    (hslice : slice.EveryCall env.Accepts) (hpattern : pattern.EveryCall env.Accepts) :
    AcceptedStmts env (loadField slice op pattern) := by
  have hempty : env.program.types.Suits ⟨Helper.emptySliceName, 0, false⟩ :=
    suits_named (h := .emptySlice) (by decide) rfl (by decide)
  have hremainder : (remainderOf slice op.kind).EveryCall env.Accepts := by
    unfold remainderOf
    split <;> simp [everyCall_sliceCell, Env.Accepts, builtins, hslice]
  have hvalue : ∀ value, value.EveryCall env.Accepts →
      ∀ t ∈ [var pattern value], t.EveryCall env.Accepts := by
    intro value hvalue
    simp [hpattern, hvalue]
  unfold loadField
  split
  · exact .helper_bind (.pure (by simp [Env.Accepts, hempty, hremainder, hpattern, hslice]))
  · split
    · exact (loadOptional_accepted hop hslice).bind fun value h => .pure (hvalue value h)
    · exact (loadOp_accepted hop hslice).bind fun value h => .pure (hvalue value h)

theorem readOps_accepted {r : Record} {slice : Target.Expr} {ops : List Op}
    (hops : ∀ op ∈ ops, op.kind.Unmarked) (hslice : slice.EveryCall env.Accepts) :
    AcceptedStmts env (readOps r slice ops) := by
  induction ops with
  | nil => exact .pure (by simp)
  | cons op rest ih =>
    obtain ⟨hop, hrest⟩ := List.forall_mem_cons.1 hops
    exact recordPattern_accepted.bind fun pattern hpattern =>
      (loadField_accepted hop hslice hpattern).bind fun loaded hloaded =>
      (ih hrest).bind fun out hout => .pure (List.forall_mem_append.2 ⟨hloaded, hout⟩)

theorem readChain_accepted {r : Record} {limit generation : Nat} {chain : Chain}
    (hops : ∀ op ∈ chain.ops, op.kind.Unmarked) : AcceptedStmts env (readChain r limit generation chain) := by
  induction chain generalizing limit generation with
  | last ops =>
    have hall : ∀ op ∈ ops, op.kind.Unmarked := by simpa [Chain.ops, Chain.cells] using hops
    exact readOps_accepted (fun op hop => hall op (List.mem_of_mem_take hop)) everyCall_id
  | link ops next ih =>
    obtain ⟨hown, hnext⟩ : (∀ op ∈ ops, op.kind.Unmarked) ∧ ∀ op ∈ next.ops, op.kind.Unmarked := by
      simpa [Chain.ops, Chain.cells, or_imp, forall_and] using hops
    refine (readOps_accepted (fun op hop => hown op (List.mem_of_mem_take hop)) everyCall_id).bind
      fun own hown => ?_
    split
    · exact .pure hown
    · refine (ih hnext).bind fun below hbelow => .pure ?_
      simp only [List.forall_mem_append]
      exact ⟨⟨hown, by simp [everyCall_loadReference]⟩, hbelow⟩

theorem everyCall_readHeader {plan : Plan} : ∀ t ∈ readHeader plan, t.EveryCall env.Accepts := by
  unfold readHeader
  split <;> simp [Env.Accepts, builtins]

theorem everyCall_recordValue {shape : Layout.Shape} :
    (recordValue shape).EveryCall env.Accepts := by
  unfold recordValue
  split
  · exact shape.everyCall_pattern
  · simp

/-- Readers of whole and of cut messages give back the rest of the slice. -/
theorem readerItem_agrees {r : Record} (hr : r.Named env) {c : Name.Codec} {bounced inline : Bool}
    (hc : c.convention = ⟨1, true⟩) :
    Yields env (readerItem r (c.name r.name) bounced inline) (Agrees env) := by
  refine .andThen fun shape => (readChain_accepted hr.plan).bind fun body hbody => .pure ?_
  refine agrees_define (hr.signs c _ (by simp) (by simp [hc]) fun _ => ?_) ?_
  · simp [Signature.threads]
  · simp only [List.forall_mem_append]
    exact ⟨⟨everyCall_readHeader, hbody⟩, by simp [everyCall_recordValue]⟩

theorem readerNotMutItem_agrees {r : Record} (hr : r.Named env) {inline : Bool} :
    Yields env (readerNotMutItem r inline) (Agrees env) := by
  refine .andThen fun shape => .used_bind (.pure ?_)
  refine agrees_define (hr.signs .readerNotMut _ (by simp [Name.Codec.name])
    (by simp [Name.Codec.convention]) (by simp [Name.Codec.convention])) ?_
  simp [Env.Accepts, builtins, hr.reader]

/-! ### Codecs -/

theorem codec_agrees {r : Record} (hr : r.Named env) {g : Gen Item} (hg : CodecOf r g) :
    Yields env g (Agrees env) := by
  cases hg with
  | writer => exact writerItem_agrees hr
  | writerCell => exact writerCellItem_agrees hr
  | reader => exact readerItem_agrees hr (c := .reader) rfl
  | readerNotMut => exact readerNotMutItem_agrees hr

theorem furtherCodec_agrees {r : Record} (hr : r.Named env) (htype : '$' ∉ r.name.toList) {g : Gen Item}
    (hg : FurtherCodecOf r g) : Yields env g (Agrees env) := by
  have hunbox : env.program.types.Suits ⟨Name.notNull r.name, 1, false⟩ :=
    suits_part .notNull htype rfl (by simp)
  have hbox : env.program.types.Suits ⟨Name.asOptional r.name, 1, false⟩ :=
    suits_part .asOptional htype rfl (by simp)
  cases hg with
  | readerBounced => exact readerItem_agrees hr (c := .readerBounced) rfl
  | writerOpt =>
    have hwriter : env.program.types.Suits ⟨Name.writer r.name, 2, false⟩ := hr.suits .writer
    refine .used_bind (.used_bind (.pure (agrees_define (hr.signs .writerOpt _ (by simp [Name.Codec.name])
      (by simp [Name.Codec.convention]) (by simp [Name.Codec.convention])) ?_)))
    simp [Env.Accepts, everyCall_storeFlag, hwriter, hunbox]
  | writerCellOpt =>
    have hwriter : env.program.types.Suits ⟨Name.writerCell r.name, 1, false⟩ := hr.suits .writerCell
    refine .used_bind (.used_bind (.pure (agrees_define (hr.signs .writerCellOpt _ (by simp [Name.Codec.name])
      (by simp [Name.Codec.convention]) (by simp [Name.Codec.convention])) ?_)))
    simp [Env.Accepts, hwriter, hunbox]
  | readerOpt =>
    refine .used_bind (.used_bind (.pure (agrees_define (hr.signs .readerOpt _ (by simp [Name.Codec.name])
      (by simp [Name.Codec.convention]) fun _ => ?_) ?_)))
    · simp [Signature.threads]
    · simp [Env.Accepts, builtins, hr.reader, hbox]
  | readerCellOpt =>
    have hreader : env.program.types.Suits ⟨Name.readerNotMut r.name, 1, false⟩ := hr.suits .readerNotMut
    refine .used_bind (.used_bind (.pure (agrees_define (hr.signs .readerCellOpt _ (by simp [Name.Codec.name])
      (by simp [Name.Codec.convention]) (by simp [Name.Codec.convention])) ?_)))
    simp [Env.Accepts, hreader, hbox]

/-! ### Conversions -/

/-- The views of a declared record call nothing. -/
structure RecordView.Quiet (r : RecordView) (env : Env) : Prop where
  unmarked : '$' ∉ r.name.toList
  pattern : r.pattern.EveryCall env.Accepts
  leaves : ∀ e ∈ r.leaves, e.EveryCall env.Accepts

theorem recordView_yields {decl : TypeDecl} (hdecl : '$' ∉ decl.name.toList) :
    Yields env (recordView decl) fun r => r.Quiet env ∧ r.decl = decl := by
  refine .table_bind (.andThen fun ty => unpack_yields.bind fun pattern hpattern => .andThen fun shape => ?_)
  refine .pure ⟨⟨hdecl, hpattern, fun e he => ?_⟩, rfl⟩
  obtain ⟨leaf, -, rfl⟩ := List.mem_map.1 he
  exact everyCall_id

theorem fieldPattern_accepted {field : Field} : Accepted env (fieldPattern field) := unpack_yields

theorem everyCall_fieldVars {r : RecordView} : r.fieldVars.EveryCall env.Accepts := by
  simp [RecordView.fieldVars, fieldVar]

theorem everyCall_passNull : RecordView.passNull.EveryCall env.Accepts := by
  simp [RecordView.passNull]

/-- Conversions take one argument and are not applied to variables. -/
theorem agrees_conversion (p : Name.Part) (htype : '$' ∉ type.toList)
    (hp : p.convention (env.program.types.initArity type) = ⟨1, false⟩) {param result : Ty}
    {body : List Target.Stmt} (hbody : ∀ t ∈ body, t.EveryCall env.Accepts) :
    Agrees env (RecordView.conversion (p.name type) param result body) := by
  refine agrees_define (signs_part p htype (by simp) ?_ ?_) hbody <;> simp [hp]

section

variable (h : env.program.Followed)

include h

theorem tupleField_accepted {field : Field} : Accepted env (tupleField field) := by
  refine structOf_yields.bind fun nested? hnested => ?_
  split
  · next nested =>
    have htype := unmarked_of_mem h (hnested nested rfl)
    split
    · exact Yields.callUsed.call (suits_part .toOptTuple htype rfl (by simp)) (by simp [fieldVar])
    · have hconvert : env.program.types.Suits ⟨Name.toTuple nested.name, 1, false⟩ :=
        suits_part .toTuple htype rfl (by simp)
      exact .used_bind (fieldPattern_accepted.bind fun value hvalue =>
        .pure (by simp [Env.Accepts, hconvert, hvalue]))
  · exact fieldPattern_accepted

theorem untupleField_accepted {field : Field} : Accepted env (untupleField field) := by
  refine structOf_yields.bind fun nested? hnested => ?_
  split
  · next nested =>
    have htype := unmarked_of_mem h (hnested nested rfl)
    split
    · exact Yields.callUsed.call (suits_part .fromOptTuple htype rfl (by simp)) (by simp [fieldVar])
    · exact Yields.callUsed.call (suits_part .fromTuple htype rfl (by simp)) (by simp [fieldVar])
  · exact .pure (by simp [fieldVar])

theorem fromOutside_accepted {value : Target.Expr} (hvalue : value.EveryCall env.Accepts) :
    Accepted env (fromOutside ty value) := by
  have hdestroy : ∀ n, env.program.types.Suits ⟨Helper.tupleDestroyName n, 1, false⟩ :=
    fun _ => suits_tupleDestroy
  refine structOf_yields.bind fun nested? hnested => ?_
  split
  · next nested =>
    have htype := unmarked_of_mem h (hnested nested rfl)
    have hconvert : env.program.types.Suits ⟨Name.fromExternal nested.name, 1, false⟩ :=
      suits_part .fromExternal htype rfl (by simp)
    unfold fromExternalValue
    split
    · exact Yields.callUsed.call (suits_part .fromOptExternal htype rfl (by simp)) (by simpa using hvalue)
    · refine .used_bind ?_
      split
      · exact .pure (by simp [Env.Accepts, hconvert, hvalue])
      · exact .helper_bind (.pure (by simp [Env.Accepts, hconvert, hdestroy, hvalue]))
  · refine .andThen fun kind? => ?_
    split
    · refine (Yields.callHelper.call (suits_named (h := .verifyAddress) (by decide) rfl ⟨rfl, by simp⟩)
        (by simpa using hvalue)).bind fun verified hverified => .pure ?_
      split <;> simp [hvalue, hverified]
    · exact .pure hvalue

end

/-! ### One conversion after the other -/

section

variable {r : RecordView} (hr : r.Quiet env)

include hr

theorem everyCall_bindLeaves : r.bindLeaves.EveryCall env.Accepts := by
  simp [RecordView.bindLeaves, hr.pattern]

theorem getterItem_agrees {field : Field} (hfield : '$' ∉ field.name.toList) :
    Yields env (r.getterItem field) (Agrees env) := by
  refine .andThen fun result => fieldPattern_accepted.bind fun value hvalue => .pure ?_
  refine agrees_define (.origin (o := .member r.name (.getter field.name)) ?_ rfl fun c hc => ?_)
    (by simp [everyCall_bindLeaves hr, hvalue])
  · simpa [Name.Origin.IsPlain, Name.Origin.identifiers] using ⟨hr.unmarked, hfield⟩
  · obtain rfl := Option.some.inj hc
    exact ⟨by simp, by simp⟩

theorem tensorCastItem_agrees : Agrees env r.tensorCastItem := by
  refine ⟨Item.everyCall_asm, fun s hs => ?_⟩
  obtain rfl : _ = s := by simpa [RecordView.tensorCastItem, Item.signature?] using hs
  exact signs_part .tensorCast hr.unmarked rfl rfl (by simp [Name.Part.convention])

theorem notNullItem_agrees : Yields env r.notNullItem (Agrees env) := by
  have hdestroy : env.program.types.Suits ⟨Helper.tupleDestroyName r.leaves.length, 1, false⟩ :=
    suits_tupleDestroy
  unfold RecordView.notNullItem
  split
  · exact .pure (agrees_conversion .notNull hr.unmarked rfl (by simp))
  · refine .helper_bind (.pure (agrees_conversion .notNull hr.unmarked rfl ?_))
    simpa [Env.Accepts, hdestroy, hr.pattern] using hr.leaves

theorem asOptionalItem_agrees : Yields env r.asOptionalItem (Agrees env) := by
  have hcreate : env.program.types.Suits ⟨Helper.tupleCreateName r.leaves.length, 1, false⟩ :=
    suits_tupleCreate
  unfold RecordView.asOptionalItem
  split
  · exact .pure (agrees_conversion .asOptional hr.unmarked rfl (by simp))
  · refine .helper_bind (.pure (agrees_conversion .asOptional hr.unmarked rfl ?_))
    simpa [Env.Accepts, hcreate, everyCall_bindLeaves hr] using hr.leaves

theorem toOptTupleItem_agrees : Yields env r.toOptTupleItem (Agrees env) := by
  have hconvert : env.program.types.Suits ⟨Name.toTuple r.name, 1, false⟩ :=
    suits_part .toTuple hr.unmarked rfl (by simp)
  have hunbox : env.program.types.Suits ⟨Name.notNull r.name, 1, false⟩ :=
    suits_part .notNull hr.unmarked rfl (by simp)
  refine .used_bind (.used_bind (.pure (agrees_conversion .toOptTuple hr.unmarked rfl ?_)))
  simp [Env.Accepts, everyCall_passNull, hconvert, hunbox]

theorem fromOptTupleItem_agrees : Yields env r.fromOptTupleItem (Agrees env) := by
  have hconvert : env.program.types.Suits ⟨Name.fromTuple r.name, 1, false⟩ :=
    suits_part .fromTuple hr.unmarked rfl (by simp)
  have hbox : env.program.types.Suits ⟨Name.asOptional r.name, 1, false⟩ :=
    suits_part .asOptional hr.unmarked rfl (by simp)
  refine .used_bind (.used_bind (.pure (agrees_conversion .fromOptTuple hr.unmarked rfl ?_)))
  simp [Env.Accepts, everyCall_passNull, hconvert, hbox]

theorem toOptExternalItem_agrees : Yields env r.toOptExternalItem (Agrees env) := by
  have hconvert : env.program.types.Suits ⟨Name.toOptTuple r.name, 1, false⟩ :=
    suits_part .toOptTuple hr.unmarked rfl (by simp)
  refine .used_bind (.pure (agrees_conversion .toOptExternal hr.unmarked rfl ?_))
  simp [Env.Accepts, hconvert]

theorem fromOptExternalItem_agrees : Yields env r.fromOptExternalItem (Agrees env) := by
  have hdestroy : env.program.types.Suits ⟨Helper.tupleDestroyName r.decl.fields.length, 1, false⟩ :=
    suits_tupleDestroy
  have hconvert : env.program.types.Suits ⟨Name.fromExternal r.name, 1, false⟩ :=
    suits_part .fromExternal hr.unmarked rfl (by simp)
  have hbox : env.program.types.Suits ⟨Name.asOptional r.name, 1, false⟩ :=
    suits_part .asOptional hr.unmarked rfl (by simp)
  unfold RecordView.fromOptExternalItem
  split
  · exact .pure (agrees_conversion .fromOptExternal hr.unmarked rfl (by simp))
  · refine .helper_bind (.used_bind (.used_bind (.pure ?_)))
    refine agrees_conversion .fromOptExternal hr.unmarked rfl ?_
    simp [Env.Accepts, everyCall_passNull, hdestroy, hconvert, hbox]

variable (h : env.program.Followed)

include h

theorem toTupleItem_agrees : Yields env r.toTupleItem (Agrees env) := by
  unfold RecordView.toTupleItem
  split
  · exact .pure (agrees_conversion .toTuple hr.unmarked rfl (by simp))
  · refine (Yields.mapM_all fun field _ => tupleField_accepted h).bind fun items hitems => ?_
    have hcreate : env.program.types.Suits ⟨Helper.tupleCreateName items.length, 1, false⟩ :=
      suits_tupleCreate
    refine .helper_bind (.pure (agrees_conversion .toTuple hr.unmarked rfl ?_))
    simpa [Env.Accepts, hcreate, everyCall_bindLeaves hr] using hitems.2

theorem fromTupleItem_agrees : Yields env r.fromTupleItem (Agrees env) := by
  have hdestroy : env.program.types.Suits ⟨Helper.tupleDestroyName r.decl.fields.length, 1, false⟩ :=
    suits_tupleDestroy
  unfold RecordView.fromTupleItem
  split
  · exact .pure (agrees_conversion .fromTuple hr.unmarked rfl (by simp))
  · refine .helper_bind ((Yields.mapM_all fun field _ => untupleField_accepted h).bind fun items hitems => ?_)
    refine .pure (agrees_conversion .fromTuple hr.unmarked rfl ?_)
    simpa [Env.Accepts, hdestroy, everyCall_fieldVars] using hitems.2

theorem toExternalItem_agrees : Yields env r.toExternalItem (Agrees env) := by
  unfold RecordView.toExternalItem
  split
  · rw [pure_bind]
    exact .andThen fun ty => .pure (agrees_conversion .toExternal hr.unmarked rfl (by simp))
  · refine (Yields.mapM_all fun field _ => tupleField_accepted h).bind fun items hitems => ?_
    rw [pure_bind]
    refine .andThen fun ty => .pure (agrees_conversion .toExternal hr.unmarked rfl ?_)
    simpa [everyCall_bindLeaves hr] using hitems.2

theorem fromExternalItem_agrees : Yields env r.fromExternalItem (Agrees env) := by
  unfold RecordView.fromExternalItem
  split
  · rw [pure_bind]
    exact .andThen fun ty => .pure (agrees_conversion .fromExternal hr.unmarked rfl (by simp))
  · have hfield : ∀ field ∈ r.decl.fields, Accepted env (fromOutside field.ty (fieldVar field)) :=
      fun field _ => fromOutside_accepted h everyCall_id
    refine (Yields.mapM_all hfield).bind fun items hitems => ?_
    rw [pure_bind]
    refine .andThen fun ty => .pure (agrees_conversion .fromExternal hr.unmarked rfl ?_)
    simpa [everyCall_fieldVars] using hitems.2

theorem conversion_agrees (hfields : ∀ field ∈ r.decl.fields, '$' ∉ field.name.toList) {g : Gen Item}
    (hg : ConversionOf r g) : Yields env g (Agrees env) := by
  cases hg with
  | getter hfield => exact getterItem_agrees hr (hfields _ hfield)
  | tensorCast => exact .pure (tensorCastItem_agrees hr)
  | notNull => exact notNullItem_agrees hr
  | asOptional => exact asOptionalItem_agrees hr
  | toTuple => exact toTupleItem_agrees hr h
  | toOptTuple => exact toOptTupleItem_agrees hr
  | fromTuple => exact fromTupleItem_agrees hr h
  | fromOptTuple => exact fromOptTupleItem_agrees hr
  | toExternal => exact toExternalItem_agrees hr h
  | toOptExternal => exact toOptExternalItem_agrees hr
  | fromExternal => exact fromExternalItem_agrees hr h
  | fromOptExternal => exact fromOptExternalItem_agrees hr

end

end Generate

end CellCompiler
