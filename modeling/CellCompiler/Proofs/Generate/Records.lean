import CellCompiler.Generate.Accessor
import CellCompiler.Generate.Codec
import CellCompiler.Proofs.Generate.Lowering

/-!
# Codecs and conversions declare their calls

* `emitWriter_emits`, `emitReader_emits` and `emitCodecs_emits` are about the functions that store
  and load a record, which walk along the chain of cells of its plan;
* `emitAccessors_emits` is about the conversions of a record.
-/

namespace CellCompiler

open Plan (Op OpKind Chain)
open Target

namespace Generate

variable {native : Bool} {env : Env} {deps : Deps env} {special : Item → Prop}

/-! ### Records -/

theorem ofDecl_builds {decl : TypeDecl} : Builds native deps (Record.ofDecl decl) fun _ => True :=
  Builds.read.andThen fun _ => Builds.ofExcept.andThen fun _ => .pure trivial

theorem ofInitArgs_builds {contract : TypeDecl} :
    Builds native deps (Record.ofInitArgs contract) fun _ => True :=
  Builds.read.andThen fun _ => Builds.ofExcept.andThen fun _ => .pure trivial

theorem shape_builds {r : Record} {bounced : Bool} : Builds native deps (r.shape bounced) fun _ => True :=
  Builds.table.andThen fun _ => Builds.ofExcept.mono fun _ _ => trivial

theorem recordPattern_builds {r : Record} {op : Op} :
    Builds native deps (r.fieldPattern op) (Target.Expr.Declared deps) := by
  unfold Record.fieldPattern
  split
  · exact unpack_builds
  · exact .defect

theorem isSmall_builds {r : Record} : Builds native deps r.isSmall fun _ => True :=
  Builds.read.andThen fun _ => .pure trivial

/-! ### Storing -/

theorem declared_sliceCell {slice : Target.Expr} :
    (sliceCell slice).Declared deps ↔ slice.Declared deps := by
  simp [sliceCell, Target.Declared, builtins]

theorem declared_storeFlag {known : String → Prop} {builder : Target.Expr} {flag : Bool} :
    (storeFlag builder flag).Declared known ↔ builder.Declared known := by
  simp [storeFlag, Target.Declared, builtins]

theorem storeOp_builds {builder value : Target.Expr} {kind : OpKind} :
    Builds native deps (storeOp builder value kind) fun e =>
      builder.Declared deps → value.Declared deps → e.Declared deps := by
  cases kind with
  | address =>
    exact (callHelper_builds (.internal (by decide))).mono fun e he hbuilder hvalue =>
        he (by simp [hbuilder, hvalue])
  | struct typeName byReference =>
    cases byReference with
    | false =>
      exact (Builds.callUsed (.ofType (by decide))).mono fun e he hbuilder hvalue =>
        he (by simp [hbuilder, hvalue])
    | true =>
      refine (Builds.callUsed (.ofType (by decide))).bind fun cell => ?_
      refine .pure fun hcell hbuilder hvalue => ?_
      simpa [Target.Declared, builtins, hbuilder] using hcell (by simpa using hvalue)
  | cell format | slice format | builder format =>
    cases format <;> exact .pure fun hbuilder hvalue => by
      simp [Target.Declared, builtins, declared_sliceCell, hbuilder, hvalue]
  | _ =>
    exact .pure fun hbuilder hvalue => by
      simp [Target.Declared, builtins, declared_sliceCell, hbuilder, hvalue]

/-- Store an optional value in place, given how to open it. -/
theorem storeOptional_builds {builder value : Target.Expr} {kind : OpKind} {open_ : Gen Target.Expr}
    (hopen : Builds native deps open_ fun present => value.Declared deps → present.Declared deps) :
    Builds native deps (do
      let present ← open_
      let stored ← storeOp (storeFlag builder true) present kind
      return Target.Expr.ternary (not (isNull value)) stored (storeFlag builder false)) fun e =>
      builder.Declared deps → value.Declared deps → e.Declared deps := by
  refine hopen.bind fun present => storeOp_builds.bind fun stored => .pure ?_
  intro hstored hpresent hbuilder hvalue
  have hstored' := hstored (declared_storeFlag.2 hbuilder) (hpresent hvalue)
  simp [declared_storeFlag, hbuilder, hvalue, hstored']

theorem storeField_builds {builder value : Target.Expr} {op : Op} :
    Builds native deps (storeField builder op value) fun e =>
      builder.Declared deps → value.Declared deps → e.Declared deps := by
  unfold storeField
  split
  · exact storeOp_builds
  · split
    · exact (Builds.callUsed (.ofType (by decide))).mono fun e he hbuilder hvalue =>
        he (by simp [hbuilder, hvalue])
    · split
      · refine storeOptional_builds
          ((Builds.callUsed (.ofType (by decide))).mono fun e he hvalue => he ?_)
        simpa using hvalue
      · exact storeOptional_builds (.pure fun hvalue => hvalue)

theorem writeOps_builds {r : Record} {builder : Target.Expr} (hbuilder : builder.Declared deps)
    {ops : List Op} :
    Builds native deps (writeOps r builder ops) fun out => ∀ t ∈ out, t.Declared deps := by
  induction ops with
  | nil => exact .pure (by simp)
  | cons op rest ih =>
    refine recordPattern_builds.bind fun value => storeField_builds.bind fun stored => ?_
    refine ih.bind fun out => .pure fun hout hstored hvalue => ?_
    simpa using ⟨⟨hbuilder, hstored hbuilder hvalue⟩, hout⟩

theorem writeChain_builds {r : Record} {generation : Nat} {chain : Chain} :
    Builds native deps (writeChain r generation chain) fun out => ∀ t ∈ out, t.Declared deps := by
  induction chain generalizing generation with
  | last ops => exact writeOps_builds declared_id
  | link ops next ih =>
    refine (writeOps_builds declared_id).bind fun own => ih.bind fun below => .pure ?_
    intro hbelow hown
    simp only [List.forall_mem_append]
    refine ⟨⟨⟨hown, by simp⟩, hbelow⟩, ?_⟩
    simp [Target.Declared, builtins]

theorem declared_writeHeader {plan : Plan} : ∀ t ∈ writeHeader plan, t.Declared deps := by
  unfold writeHeader
  split
  · simp [Target.Declared, builtins]
  · simp

theorem declared_openRecord {shape : Layout.Shape} : ∀ t ∈ openRecord shape, t.Declared deps := by
  unfold openRecord
  split
  · simpa using shape.declared_pattern
  · simp

theorem writerItem_builds {r : Record} {inline : Bool} :
    Builds native deps (writerItem r inline) (Enterable deps) := by
  refine shape_builds.andThen fun shape => writeChain_builds.bind fun body => .pure fun hbody => ?_
  refine enterable_define (by simp [Name.writer, Name.isConstructed_ofType]) ?_
  simp only [List.forall_mem_append]
  exact ⟨⟨⟨declared_openRecord, declared_writeHeader⟩, hbody⟩, by simp⟩

theorem writerCellItem_builds {r : Record} {inline : Bool} :
    Builds native deps (writerCellItem r inline) (Enterable deps) := by
  refine shape_builds.andThen fun shape => ?_
  refine (Builds.callUsed (.ofType (by decide))).bind fun stored => .pure fun hstored => ?_
  refine enterable_define (by simp [Name.writerCell, Name.isConstructed_ofType]) ?_
  simpa using hstored (by simp)

theorem emitWriter_emits {r : Record} {forceInline : Bool} :
    Emits native env special (emitWriter r forceInline) fun _ => True := by
  refine Emits.bind (.of_builds fun _ => isSmall_builds) fun small _ => ?_
  refine (Emits.define fun _ => writerItem_builds).bind fun _ _ => ?_
  exact .define fun _ => writerCellItem_builds

/-! ### Loading -/

theorem declared_loadReference {slice : Target.Expr} :
    (loadReference slice).Declared deps ↔ slice.Declared deps := by
  simp [loadReference, Target.Declared, builtins]

theorem loadOp_builds {slice : Target.Expr} {kind : OpKind} :
    Builds native deps (loadOp slice kind) fun e => slice.Declared deps → e.Declared deps := by
  cases kind with
  | address =>
    refine (helper_builds (.internal (by decide))).bind fun name => .pure ?_
    rintro ⟨rfl, hname⟩ hslice
    simp [Target.Declared, hname, hslice]
  | struct typeName byReference =>
    cases byReference with
    | false =>
      refine (Builds.used (.ofType (by decide))).bind fun name => .pure ?_
      rintro ⟨rfl, hname⟩ hslice
      simp [Target.Declared, hname, hslice]
    | true =>
      exact (Builds.callUsed (.ofType (by decide))).mono fun e he hslice =>
        he (by simpa [declared_loadReference] using hslice)
  | _ =>
    exact .pure fun hslice => by
      simp [Target.Declared, builtins, declared_loadReference, hslice]

theorem loadOptional_builds {slice : Target.Expr} {kind : OpKind} :
    Builds native deps (loadOptional slice kind) fun e => slice.Declared deps → e.Declared deps := by
  have hresult : ∀ (loaded : Target.Expr) (close : Gen Target.Expr),
      (Builds native deps close fun value => loaded.Declared deps → value.Declared deps) →
      Builds native deps (do
        let value ← close
        return Target.Expr.ternary (Target.modify slice "load_int" [int 1]) value null) fun e =>
        (slice.Declared deps → loaded.Declared deps) → slice.Declared deps → e.Declared deps := by
    intro loaded close hclose
    refine hclose.bind fun value => .pure fun hvalue hloaded hslice => ?_
    simp [Target.Declared, builtins, hslice, hvalue (hloaded hslice)]
  unfold loadOptional
  split
  · refine (Builds.used (.ofType (by decide))).bind fun name => .pure ?_
    rintro ⟨rfl, hname⟩ hslice
    simp [Target.Declared, hname, hslice]
  · refine loadOp_builds.bind fun loaded => ?_
    split
    · refine hresult loaded _ ((Builds.callUsed (.ofType (by decide))).mono fun e he hloaded =>
        he ?_)
      simpa using hloaded
    · exact hresult loaded _ (.pure fun hloaded => hloaded)

theorem declared_remainderOf {slice : Target.Expr} {kind : OpKind} (hslice : slice.Declared deps) :
    (remainderOf slice kind).Declared deps := by
  cases kind <;> simp [remainderOf, declared_sliceCell, Target.Declared, builtins, hslice]

theorem loadField_builds {slice pattern : Target.Expr} {op : Op} (hslice : slice.Declared deps) :
    Builds native deps (loadField slice op pattern) fun out =>
      pattern.Declared deps → ∀ t ∈ out, t.Declared deps := by
  unfold loadField
  split
  · refine (helper_builds (.internal (by decide))).bind fun empty => .pure ?_
    rintro ⟨rfl, hempty⟩ hpattern
    simp [hpattern, hslice, declared_remainderOf, Target.Declared, hempty]
  · split
    · exact loadOptional_builds.bind fun value => .pure fun hvalue hpattern => by
        simpa using ⟨hpattern, hvalue hslice⟩
    · exact loadOp_builds.bind fun value => .pure fun hvalue hpattern => by
        simpa using ⟨hpattern, hvalue hslice⟩

theorem readOps_builds {r : Record} {slice : Target.Expr} (hslice : slice.Declared deps)
    {ops : List Op} :
    Builds native deps (readOps r slice ops) fun out => ∀ t ∈ out, t.Declared deps := by
  induction ops with
  | nil => exact .pure (by simp)
  | cons op rest ih =>
    refine recordPattern_builds.bind fun pattern => (loadField_builds hslice).bind fun loaded => ?_
    refine ih.bind fun out => .pure fun hout hloaded hpattern => ?_
    exact List.forall_mem_append.2 ⟨hloaded hpattern, hout⟩

theorem readChain_builds {r : Record} {limit generation : Nat} {chain : Chain} :
    Builds native deps (readChain r limit generation chain) fun out => ∀ t ∈ out, t.Declared deps := by
  induction chain generalizing limit generation with
  | last ops => exact readOps_builds declared_id
  | link ops next ih =>
    refine (readOps_builds declared_id).bind fun own => ?_
    split
    · exact .pure fun hown => hown
    · refine ih.bind fun below => .pure fun hbelow hown => ?_
      simp only [List.forall_mem_append]
      exact ⟨⟨hown, by simp [declared_loadReference]⟩, hbelow⟩

theorem declared_readHeader {plan : Plan} : ∀ t ∈ readHeader plan, t.Declared deps := by
  unfold readHeader
  split
  · simp [Target.Declared, builtins]
  · simp

theorem declared_recordValue {shape : Layout.Shape} : (recordValue shape).Declared deps := by
  unfold recordValue
  split
  · exact shape.declared_pattern
  · exact declared_emptyTuple

theorem readerItem_builds {r : Record} {name : String} {bounced inline : Bool}
    (hname : Name.isConstructed name = true) :
    Builds native deps (readerItem r name bounced inline) (Enterable deps) := by
  refine shape_builds.andThen fun shape => readChain_builds.bind fun body => .pure fun hbody => ?_
  refine enterable_define (by simpa using hname) ?_
  simp only [List.forall_mem_append]
  exact ⟨⟨declared_readHeader, hbody⟩, by simpa using declared_recordValue⟩

theorem readerNotMutItem_builds {r : Record} {inline : Bool} :
    Builds native deps (readerNotMutItem r inline) (Enterable deps) := by
  refine shape_builds.andThen fun shape => ?_
  refine (Builds.used (.ofType (by decide))).bind fun reader => .pure ?_
  rintro ⟨rfl, hreader⟩
  refine enterable_define (by simp [Name.readerNotMut, Name.isConstructed_ofType]) ?_
  simp [Target.Declared, builtins, hreader]

theorem emitReader_emits {r : Record} {forceInline : Bool} :
    Emits native env special (emitReader r forceInline) fun _ => True := by
  refine Emits.bind (.of_builds fun _ => isSmall_builds) fun small _ => ?_
  refine (Emits.define fun _ => readerItem_builds (Name.isConstructed_ofType _ _)).bind fun _ _ => ?_
  exact .define fun _ => readerNotMutItem_builds

theorem emitBouncedReader_emits {r : Record} {forceInline : Bool} :
    Emits native env special (emitBouncedReader r forceInline) fun _ => True := by
  refine Emits.bind (.of_builds fun _ => isSmall_builds) fun small _ => ?_
  exact .define fun _ => readerItem_builds (Name.isConstructed_ofType _ _)

/-! ### Optional records -/

theorem writerOptItem_builds {r : Record} : Builds native deps (writerOptItem r) (Enterable deps) := by
  refine (Builds.used (.ofType (by decide))).bind fun writer => ?_
  refine (Builds.used (.ofType (by decide))).bind fun unbox => .pure ?_
  rintro ⟨rfl, hunbox⟩ ⟨rfl, hwriter⟩
  refine enterable_define (by simp [Name.writerOpt, Name.isConstructed_ofType]) ?_
  simp [declared_storeFlag, Target.Declared, hwriter, hunbox]

theorem writerCellOptItem_builds {r : Record} :
    Builds native deps (writerCellOptItem r) (Enterable deps) := by
  refine (Builds.used (.ofType (by decide))).bind fun writer => ?_
  refine (Builds.used (.ofType (by decide))).bind fun unbox => .pure ?_
  rintro ⟨rfl, hunbox⟩ ⟨rfl, hwriter⟩
  refine enterable_define (by simp [Name.writerCellOpt, Name.isConstructed_ofType]) ?_
  simp [Target.Declared, hwriter, hunbox]

theorem readerOptItem_builds {r : Record} : Builds native deps (readerOptItem r) (Enterable deps) := by
  refine (Builds.used (.ofType (by decide))).bind fun reader => ?_
  refine (Builds.used (.ofType (by decide))).bind fun box => .pure ?_
  rintro ⟨rfl, hbox⟩ ⟨rfl, hreader⟩
  refine enterable_define (by simp [Name.readerOpt, Name.isConstructed_ofType]) ?_
  simp [Target.Declared, builtins, hreader, hbox]

theorem readerCellOptItem_builds {r : Record} :
    Builds native deps (readerCellOptItem r) (Enterable deps) := by
  refine (Builds.used (.ofType (by decide))).bind fun reader => ?_
  refine (Builds.used (.ofType (by decide))).bind fun box => .pure ?_
  rintro ⟨rfl, hbox⟩ ⟨rfl, hreader⟩
  refine enterable_define (by simp [Name.readerCellOpt, Name.isConstructed_ofType]) ?_
  simp [Target.Declared, hreader, hbox]

theorem emitOptionalCodecs_emits {r : Record} : Emits native env special (emitOptionalCodecs r) fun _ => True := by
  refine (Emits.define fun _ => writerOptItem_builds).bind fun _ _ => ?_
  refine (Emits.define fun _ => writerCellOptItem_builds).bind fun _ _ => ?_
  refine (Emits.define fun _ => readerOptItem_builds).bind fun _ _ => ?_
  exact .define fun _ => readerCellOptItem_builds

/-- **Codecs declare their calls.** -/
theorem emitCodecs_emits {decl : TypeDecl} : Emits native env special (emitCodecs decl) fun _ => True := by
  refine Emits.bind (.of_builds fun _ => ofDecl_builds) fun r _ => ?_
  refine emitWriter_emits.bind fun _ _ => emitReader_emits.bind fun _ _ => ?_
  split
  · exact emitBouncedReader_emits.bind fun _ _ => emitOptionalCodecs_emits
  · exact emitOptionalCodecs_emits

/-! ### Conversions -/

/-- The views of a record bind and list variables, and call nothing. -/
def RecordView.CallsNothing (r : RecordView) : Prop :=
  ∀ known, r.pattern.Declared known ∧ ∀ e ∈ r.leaves, e.Declared known

theorem recordView_builds {decl : TypeDecl} :
    Builds native deps (recordView decl) RecordView.CallsNothing := by
  refine Builds.table.andThen fun t => representation_builds.andThen fun ty => ?_
  refine unpack_callsNothing.bind fun pattern => Builds.ofExcept.andThen fun shape => .pure ?_
  intro hpattern known
  refine ⟨hpattern known, fun e he => ?_⟩
  obtain ⟨leaf, -, rfl⟩ := List.mem_map.1 he
  exact declared_id

theorem fieldPattern_builds {field : Field} :
    Builds native deps (fieldPattern field) (Target.Expr.Declared deps) := unpack_builds

theorem enterable_conversion {type suffix : String} {param result : Ty} {body : List Target.Stmt}
    (hbody : ∀ t ∈ body, t.Declared deps) :
    Enterable deps (RecordView.conversion (Name.ofType type suffix) param result body) :=
  enterable_define (by simp [Name.isConstructed_ofType]) hbody

theorem tupleField_builds {field : Field} :
    Builds native deps (tupleField field) (Target.Expr.Declared deps) := by
  refine structOf_builds.andThen fun nested? => ?_
  split
  · split
    · exact (Builds.callUsed (.ofType (by decide))).mono fun e he => he (by simp [fieldVar])
    · refine (Builds.used (.ofType (by decide))).bind fun name => ?_
      refine fieldPattern_builds.bind fun pattern => .pure ?_
      rintro hpattern ⟨rfl, hname⟩
      simp [Target.Declared, hname, hpattern]
  · exact fieldPattern_builds

theorem untupleField_builds {field : Field} :
    Builds native deps (untupleField field) (Target.Expr.Declared deps) := by
  refine structOf_builds.andThen fun nested? => ?_
  split
  · split
    · exact (Builds.callUsed (.ofType (by decide))).mono fun e he => he (by simp [fieldVar])
    · exact (Builds.callUsed (.ofType (by decide))).mono fun e he => he (by simp [fieldVar])
  · exact .pure (by simp [fieldVar])

theorem fromExternalValue_builds {decl : TypeDecl} {optional : Bool} {value : Target.Expr} :
    Builds native deps (fromExternalValue decl optional value) fun e =>
      value.Declared deps → e.Declared deps := by
  unfold fromExternalValue
  split
  · exact (Builds.callUsed (.ofType (by decide))).mono fun e he hvalue => he (by simpa using hvalue)
  · refine (Builds.used (.ofType (by decide))).bind fun convert => ?_
    split
    · refine .pure ?_
      rintro ⟨rfl, hconvert⟩ hvalue
      simp [Target.Declared, hconvert, hvalue]
    · refine (helper_builds admits_tupleDestroy).bind fun destroy => .pure ?_
      rintro ⟨rfl, hdestroy⟩ ⟨rfl, hconvert⟩ hvalue
      simp [Target.Declared, hconvert, hdestroy, hvalue]

theorem verifiedAddress_builds {ty : TypeRef} {value : Target.Expr} :
    Builds native deps (verifiedAddress ty value) fun e => value.Declared deps → e.Declared deps := by
  refine (callHelper_builds (.internal (by decide))).bind fun verified => ?_
  refine .pure fun hverified hvalue => ?_
  have hverified' := hverified (by simpa using hvalue)
  split
  · simp [hvalue, hverified']
  · exact hverified'

theorem fromOutside_builds {ty : TypeRef} {value : Target.Expr} :
    Builds native deps (fromOutside ty value) fun e => value.Declared deps → e.Declared deps := by
  refine structOf_builds.andThen fun nested? => ?_
  split
  · exact fromExternalValue_builds
  · refine primitiveOf_builds.andThen fun kind? => ?_
    split
    · exact verifiedAddress_builds
    · exact .pure fun h => h

theorem declared_fieldVars {r : RecordView} : r.fieldVars.Declared deps := by
  simp only [RecordView.fieldVars, Target.Expr.declared_tensor, List.mem_map]
  rintro e ⟨field, -, rfl⟩
  exact declared_id

section Conversions

variable {r : RecordView} (hr : r.CallsNothing)

include hr

theorem declared_bindLeaves : r.bindLeaves.Declared deps := by
  simpa [RecordView.bindLeaves] using (hr deps).1

theorem getterItem_builds {field : Field} :
    Builds native deps (r.getterItem field) (Enterable deps) := by
  refine representation_builds.andThen fun result => fieldPattern_builds.bind fun value => .pure ?_
  intro hvalue
  exact enterable_conversion (by simpa using ⟨declared_bindLeaves hr, hvalue⟩)

theorem notNullItem_builds : Builds native deps r.notNullItem (Enterable deps) := by
  unfold RecordView.notNullItem
  split
  · exact .pure (enterable_conversion (by simp))
  · refine (helper_builds admits_tupleDestroy).bind fun destroy => .pure ?_
    rintro ⟨rfl, hdestroy⟩
    refine enterable_conversion ?_
    simpa [Target.Declared, hdestroy] using ⟨(hr deps).2, (hr deps).1⟩

theorem asOptionalItem_builds : Builds native deps r.asOptionalItem (Enterable deps) := by
  unfold RecordView.asOptionalItem
  split
  · exact .pure (enterable_conversion (by simp))
  · refine (helper_builds admits_tupleCreate).bind fun create => .pure ?_
    rintro ⟨rfl, hcreate⟩
    refine enterable_conversion ?_
    simpa [Target.Declared, hcreate] using ⟨declared_bindLeaves hr, (hr deps).2⟩

theorem toTupleItem_builds : Builds native deps r.toTupleItem (Enterable deps) := by
  unfold RecordView.toTupleItem
  split
  · exact .pure (enterable_conversion (by simp))
  · refine (Builds.mapM fun field _ => tupleField_builds).bind fun items => ?_
    refine (helper_builds admits_tupleCreate).bind fun create => .pure ?_
    rintro ⟨rfl, hcreate⟩ hitems
    refine enterable_conversion ?_
    simpa [Target.Declared, hcreate] using ⟨declared_bindLeaves hr, hitems⟩

theorem toExternalItem_builds : Builds native deps r.toExternalItem (Enterable deps) := by
  unfold RecordView.toExternalItem
  split
  · exact externalTy_builds.andThen fun ty => .pure (enterable_conversion (by simp))
  · refine (Builds.mapM fun field _ => tupleField_builds).bind fun items => ?_
    refine externalTy_builds.andThen fun ty => .pure fun hitems => enterable_conversion ?_
    simpa using ⟨declared_bindLeaves hr, hitems⟩

omit hr

theorem declared_passNull : RecordView.passNull.Declared deps := by simp [RecordView.passNull]

theorem toOptTupleItem_builds : Builds native deps r.toOptTupleItem (Enterable deps) := by
  refine (Builds.used (.ofType (by decide))).bind fun convert => ?_
  refine (Builds.used (.ofType (by decide))).bind fun unbox => .pure ?_
  rintro ⟨rfl, hunbox⟩ ⟨rfl, hconvert⟩
  exact enterable_conversion (by simp [declared_passNull, Target.Declared, hunbox, hconvert])

theorem fromTupleItem_builds : Builds native deps r.fromTupleItem (Enterable deps) := by
  unfold RecordView.fromTupleItem
  split
  · exact .pure (enterable_conversion (by simp))
  · refine (helper_builds admits_tupleDestroy).bind fun destroy => ?_
    refine (Builds.mapM fun field _ => untupleField_builds).bind fun items => .pure ?_
    rintro hitems ⟨rfl, hdestroy⟩
    refine enterable_conversion ?_
    simpa [Target.Declared, hdestroy, declared_fieldVars] using hitems

theorem fromOptTupleItem_builds : Builds native deps r.fromOptTupleItem (Enterable deps) := by
  refine (Builds.used (.ofType (by decide))).bind fun convert => ?_
  refine (Builds.used (.ofType (by decide))).bind fun close => .pure ?_
  rintro ⟨rfl, hclose⟩ ⟨rfl, hconvert⟩
  exact enterable_conversion (by simp [declared_passNull, Target.Declared, hclose, hconvert])

theorem toOptExternalItem_builds : Builds native deps r.toOptExternalItem (Enterable deps) := by
  refine (Builds.used (.ofType (by decide))).bind fun convert => .pure ?_
  rintro ⟨rfl, hconvert⟩
  exact enterable_conversion (by simp [Target.Declared, hconvert])

theorem fromExternalItem_builds : Builds native deps r.fromExternalItem (Enterable deps) := by
  unfold RecordView.fromExternalItem
  split
  · exact externalTy_builds.andThen fun ty => .pure (enterable_conversion (by simp))
  · have hfields : ∀ field ∈ r.decl.fields,
        Builds native deps (fromOutside field.ty (fieldVar field)) (Target.Expr.Declared deps) :=
      fun field _ => fromOutside_builds.mono fun e he => he declared_id
    refine (Builds.mapM hfields).bind fun items => externalTy_builds.andThen fun ty => .pure ?_
    intro hitems
    refine enterable_conversion ?_
    simpa [declared_fieldVars] using hitems

theorem fromOptExternalItem_builds : Builds native deps r.fromOptExternalItem (Enterable deps) := by
  unfold RecordView.fromOptExternalItem
  split
  · exact .pure (enterable_conversion (by simp))
  · refine (helper_builds admits_tupleDestroy).bind fun destroy => ?_
    refine (Builds.used (.ofType (by decide))).bind fun convert => ?_
    refine (Builds.used (.ofType (by decide))).bind fun close => .pure ?_
    rintro ⟨rfl, hclose⟩ ⟨rfl, hconvert⟩ ⟨rfl, hdestroy⟩
    refine enterable_conversion ?_
    simp [declared_passNull, Target.Declared, hclose, hconvert, hdestroy]

theorem tensorCastItem_enterable : Enterable deps r.tensorCastItem := by
  simp [RecordView.tensorCastItem, Enterable, Item.name?, Name.tensorCast, Name.isConstructed_ofType]

end Conversions

/-- The conversions between a record and tuples. -/
theorem emitTuples_emits {r : RecordView} (hr : r.CallsNothing) : Emits native env special (do
    define (.type r.name) r.toTupleItem
    define (.type r.name) r.toOptTupleItem
    define (.type r.name) r.fromTupleItem
    define (.type r.name) r.fromOptTupleItem
    define (.type r.name) r.toExternalItem
    define (.type r.name) r.toOptExternalItem
    define (.type r.name) r.fromExternalItem
    define (.type r.name) r.fromOptExternalItem) fun _ => True := by
  refine (Emits.define fun _ => toTupleItem_builds hr).bind fun _ _ => ?_
  refine (Emits.define fun _ => toOptTupleItem_builds).bind fun _ _ => ?_
  refine (Emits.define fun _ => fromTupleItem_builds).bind fun _ _ => ?_
  refine (Emits.define fun _ => fromOptTupleItem_builds).bind fun _ _ => ?_
  refine (Emits.define fun _ => toExternalItem_builds hr).bind fun _ _ => ?_
  refine (Emits.define fun _ => toOptExternalItem_builds).bind fun _ _ => ?_
  refine (Emits.define fun _ => fromExternalItem_builds).bind fun _ _ => ?_
  exact .define fun _ => fromOptExternalItem_builds

/-- **Conversions declare their calls.** -/
theorem emitAccessors_emits {decl : TypeDecl} : Emits native env special (emitAccessors decl) fun _ => True := by
  refine Emits.bind (.of_builds fun _ => recordView_builds) fun r hr => ?_
  refine (Emits.forM fun field _ => .define fun _ => getterItem_builds hr).bind fun _ _ => ?_
  refine (Emits.define fun _ => .pure tensorCastItem_enterable).bind fun _ _ => ?_
  refine (Emits.define fun _ => notNullItem_builds hr).bind fun _ _ => ?_
  refine (Emits.define fun _ => asOptionalItem_builds hr).bind fun _ _ => ?_
  exact emitTuples_emits hr

end Generate

end CellCompiler
