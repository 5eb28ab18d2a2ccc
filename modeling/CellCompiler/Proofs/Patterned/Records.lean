import CellCompiler.Proofs.Generate.Construction
import CellCompiler.Proofs.Generate.Fields
import CellCompiler.Proofs.Patterned.Bodies

/-!
# Codecs and conversions write to patterns

Codecs assign to builders, load from slices and bind the variables of fields; conversions bind the
variables of records. `codec_patterned`, `furtherCodec_patterned` and `conversion_patterned` collect the
functions of a record.
-/

namespace CellCompiler

open Plan (Op OpKind Chain)
open Target

namespace Generate

variable {env : Env} {r : Record} {ty : TypeRef} {name : String}

theorem callUsed_patterned {args : List Target.Expr} (hargs : ∀ e ∈ args, e.Patterned) :
    PatternedCode env (callUsed name args) := callUsed_inherits hereditary_patterned hargs

theorem recordPattern_isPattern {op : Op} :
    Yields env (r.fieldPattern op) fun e => e.isLValue = true ∧ e.Patterned := by
  unfold Record.fieldPattern
  split
  · exact unpack_isPattern
  · exact .defect

/-! ### Storing -/

theorem patterned_storeFlag {builder : Target.Expr} {flag : Bool} :
    (storeFlag builder flag).Patterned ↔ builder.Patterned := by
  simp [storeFlag]

theorem writeOps_patterned {ops : List Op} : PatternedStmts env (writeOps r (id name) ops) := by
  induction ops with
  | nil => exact .pure trivial
  | cons op rest ih =>
    refine recordPattern_isPattern.bind fun value hvalue => ?_
    refine (storeField_has hereditary_patterned patterned_id hvalue.2).bind fun stored hstored => ?_
    refine ih.bind fun out hout => .pure ?_
    simpa using ⟨hstored, hout⟩

theorem writeChain_patterned {generation : Nat} {chain : Chain} :
    PatternedStmts env (writeChain r generation chain) := by
  induction chain generalizing generation with
  | last ops => exact writeOps_patterned
  | link ops next ih =>
    refine writeOps_patterned.bind fun own hown => ih.bind fun below hbelow => .pure ?_
    simpa using ⟨hown, hbelow⟩

theorem patterned_openRecord {shape : Layout.Shape} : StmtsPatterned (openRecord shape) := by
  unfold openRecord
  split <;> simp [shape.isLValue_pattern]

theorem patterned_writeHeader {plan : Plan} : StmtsPatterned (writeHeader plan) := by
  unfold writeHeader
  split <;> simp

theorem writerItem_patterned {inline : Bool} : PatternedItem env (writerItem r inline) := by
  refine .andThen fun shape => writeChain_patterned.bind fun body hbody => .pure ?_
  simpa using ⟨patterned_openRecord, patterned_writeHeader, hbody⟩

/-! ### Loading -/

theorem patterned_loadReference : (loadReference (id name)).Patterned := by simp [loadReference]

theorem loadField_patterned {op : Op} {pattern : Target.Expr} (hpattern : pattern.isLValue = true) :
    PatternedStmts env (loadField (id name) op pattern) := by
  have hload : ∀ callee args, (∀ e ∈ args, e.Patterned) → (Target.modify (id name) callee args).Patterned :=
    fun callee args hargs => patterned_modify.2 ⟨rfl, patterned_id, hargs⟩
  refine (loadField_has hereditary_patterned hload patterned_id).mono fun out h => ?_
  obtain ⟨value, rest, rfl, hvalue, rfl | ⟨empty, rfl⟩⟩ := h
  · simpa using ⟨hpattern, hvalue⟩
  · simpa using ⟨hpattern, hvalue⟩

theorem readOps_patterned {ops : List Op} : PatternedStmts env (readOps r (id name) ops) := by
  induction ops with
  | nil => exact .pure trivial
  | cons op rest ih =>
    refine recordPattern_isPattern.bind fun pattern hpattern => (loadField_patterned hpattern.1).bind
      fun loaded hloaded => ih.bind fun out hout => .pure (stmtsPatterned_append.2 ⟨hloaded, hout⟩)

theorem readChain_patterned {limit generation : Nat} {chain : Chain} :
    PatternedStmts env (readChain r limit generation chain) := by
  induction chain generalizing limit generation with
  | last ops => exact readOps_patterned
  | link ops next ih =>
    refine readOps_patterned.bind fun own hown => ?_
    split
    · exact .pure hown
    · refine ih.bind fun below hbelow => .pure ?_
      simpa using ⟨hown, patterned_loadReference, hbelow⟩

theorem patterned_readHeader {plan : Plan} : StmtsPatterned (readHeader plan) := by
  unfold readHeader
  split <;> simp

theorem patterned_recordValue {shape : Layout.Shape} : (recordValue shape).Patterned := by
  unfold recordValue
  split
  · exact shape.patterned_pattern
  · exact patterned_emptyTuple

theorem readerItem_patterned {bounced inline : Bool} : PatternedItem env (readerItem r name bounced inline) := by
  refine .andThen fun shape => readChain_patterned.bind fun body hbody => .pure ?_
  simpa using ⟨patterned_readHeader, hbody, patterned_recordValue⟩

/-! ### Codecs -/

theorem codec_patterned {g : Gen Item} (hg : CodecOf r g) : PatternedItem env g := by
  cases hg with
  | writer => exact writerItem_patterned
  | writerCell => exact .andThen fun _ => (callUsed_patterned (by simp)).bind fun e he => .pure (by simpa using he)
  | reader => exact readerItem_patterned
  | readerNotMut => exact .andThen fun _ => .used_bind (.pure (by simp))

theorem furtherCodec_patterned {g : Gen Item} (hg : FurtherCodecOf r g) : PatternedItem env g := by
  cases hg with
  | readerBounced => exact readerItem_patterned
  | writerOpt => exact .used_bind (.used_bind (.pure (by simp [patterned_storeFlag])))
  | writerCellOpt | readerOpt | readerCellOpt => exact .used_bind (.used_bind (.pure (by simp)))

/-! ### Values from outside -/

theorem fieldPattern_isPattern {field : Field} :
    Yields env (fieldPattern field) fun e => e.isLValue = true ∧ e.Patterned := unpack_isPattern

theorem tupleField_patterned {field : Field} : PatternedCode env (tupleField field) :=
  tupleField_has hereditary_patterned (fun _ => patterned_id) env_patterned

theorem untupleField_patterned {field : Field} : PatternedCode env (untupleField field) :=
  untupleField_has hereditary_patterned patterned_id

theorem fromOutside_patterned {value : Target.Expr} (hvalue : value.Patterned) :
    PatternedCode env (fromOutside ty value) := fromOutside_has hereditary_patterned hvalue

/-! ### Conversions -/

/-- What conversions use of a record are patterns and variables. -/
structure RecordView.Patterned (r : RecordView) : Prop where
  binds : r.pattern.isLValue = true
  reads : r.pattern.Patterned
  leaves : ∀ e ∈ r.leaves, e.isLValue = true ∧ e.Patterned

theorem recordView_patterned {decl : TypeDecl} : Yields env (recordView decl) RecordView.Patterned := by
  refine .andThen fun types => .andThen fun ty => unpack_isPattern.bind fun pattern hpattern => ?_
  refine .andThen fun shape => .pure ⟨hpattern.1, hpattern.2, fun e he => ?_⟩
  obtain ⟨leaf, -, rfl⟩ := List.mem_map.1 he
  exact ⟨rfl, trivial⟩

section

variable {r : RecordView}

theorem fromTupleItem_patterned : PatternedItem env r.fromTupleItem := by
  unfold RecordView.fromTupleItem
  split
  · exact .pure (by simp [RecordView.conversion])
  · refine .helper_bind ((Yields.mapM_all fun field _ => untupleField_patterned).bind fun items hitems => .pure ?_)
    simpa [RecordView.conversion, RecordView.fieldVars, fieldVar] using hitems.2

theorem fromExternalItem_patterned : PatternedItem env r.fromExternalItem := by
  unfold RecordView.fromExternalItem
  split
  · rw [pure_bind]
    exact .andThen fun ty => .pure (by simp [RecordView.conversion])
  · have hfield : ∀ field ∈ r.decl.fields, PatternedCode env (fromOutside field.ty (fieldVar field)) :=
      fun field _ => fromOutside_patterned patterned_id
    refine (Yields.mapM_all hfield).bind fun items hitems => ?_
    rw [pure_bind]
    refine .andThen fun ty => .pure ?_
    simpa [RecordView.conversion, RecordView.fieldVars, fieldVar] using hitems.2

theorem fromOptExternalItem_patterned : PatternedItem env r.fromOptExternalItem := by
  unfold RecordView.fromOptExternalItem
  split
  · exact .pure (by simp [RecordView.conversion])
  · exact .helper_bind (.used_bind (.used_bind (.pure (by simp [RecordView.conversion, RecordView.passNull]))))

variable (hr : r.Patterned)

include hr

theorem patterned_bindLeaves : r.bindLeaves.Patterned := by simp [RecordView.bindLeaves, hr.binds]

theorem notNullItem_patterned : PatternedItem env r.notNullItem := by
  unfold RecordView.notNullItem
  split
  · exact .pure (by simp [RecordView.conversion])
  · refine .helper_bind (.pure ?_)
    simpa [RecordView.conversion, hr.reads] using fun e he => (hr.leaves e he).1

theorem asOptionalItem_patterned : PatternedItem env r.asOptionalItem := by
  unfold RecordView.asOptionalItem
  split
  · exact .pure (by simp [RecordView.conversion])
  · refine .helper_bind (.pure ?_)
    simpa [RecordView.conversion, patterned_bindLeaves hr] using fun e he => (hr.leaves e he).2

theorem toTupleItem_patterned : PatternedItem env r.toTupleItem := by
  unfold RecordView.toTupleItem
  split
  · exact .pure (by simp [RecordView.conversion])
  · refine (Yields.mapM_all fun field _ => tupleField_patterned).bind fun items hitems => .helper_bind (.pure ?_)
    simpa [RecordView.conversion, patterned_bindLeaves hr] using hitems.2

theorem toExternalItem_patterned : PatternedItem env r.toExternalItem := by
  unfold RecordView.toExternalItem
  split
  · rw [pure_bind]
    exact .andThen fun ty => .pure (by simp [RecordView.conversion])
  · refine (Yields.mapM_all fun field _ => tupleField_patterned).bind fun items hitems => ?_
    rw [pure_bind]
    exact .andThen fun ty => .pure (by simpa [RecordView.conversion, patterned_bindLeaves hr] using hitems.2)

theorem conversion_patterned {g : Gen Item} (hg : ConversionOf r g) : PatternedItem env g := by
  cases hg with
  | getter =>
    refine .andThen fun ty => fieldPattern_isPattern.bind fun value hvalue => .pure ?_
    simpa [RecordView.conversion] using ⟨patterned_bindLeaves hr, hvalue.2⟩
  | tensorCast => exact .pure trivial
  | notNull => exact notNullItem_patterned hr
  | asOptional => exact asOptionalItem_patterned hr
  | toTuple => exact toTupleItem_patterned hr
  | fromTuple => exact fromTupleItem_patterned
  | toOptTuple | fromOptTuple =>
    exact .used_bind (.used_bind (.pure (by simp [RecordView.conversion, RecordView.passNull])))
  | toExternal => exact toExternalItem_patterned hr
  | toOptExternal => exact .used_bind (.pure (by simp [RecordView.conversion]))
  | fromExternal => exact fromExternalItem_patterned
  | fromOptExternal => exact fromOptExternalItem_patterned

end

end Generate

end CellCompiler
