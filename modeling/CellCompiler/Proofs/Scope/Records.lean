import CellCompiler.Proofs.Codec.Contract
import CellCompiler.Proofs.Generate.Construction
import CellCompiler.Proofs.Generate.Fields
import CellCompiler.Proofs.Scope.Bodies

/-!
# Codecs and conversions read what is bound

Writers bind the variables of a record before they store its fields, and so do conversions. Readers bind
the fields one after the other, as the operations of the plan come, and give back the record as the layout
has it.

* `Opened`: the variables of all fields are available;
* `readChain_binds`: a reader binds the fields of the operations that it walks over;
* `Record.Planned`: there is one operation for each field;
* `codec_within`, `furtherCodec_within` and `conversion_within` collect the functions of a record.
-/

namespace CellCompiler

open Plan (Op OpKind Chain)
open Target

namespace Generate

open Layout (AvailableIn)

variable {env : Env} {r : Record} {ty : TypeRef} {name : String} {bound more : List String}

/-- The function that is made reads only its parameters and what it binds. -/
abbrev ClosedItem (env : Env) (g : Gen Item) : Prop := Yields env g fun item => ∀ globals, item.Within globals

/-! ### Fields of records -/

/-- The variables of some fields of a record in `v` are available. -/
def Opened (env : Env) (fields : List (String × TypeRef)) (bound : List String) : Prop :=
  ∀ f ∈ fields, AvailableIn env.program.types f.2 (Name.tick "v" f.1) bound

theorem Opened.mono {fields : List (String × TypeRef)} (h : Opened env fields bound) (hmore : bound ⊆ more) :
    Opened env fields more := fun f hf => (h f hf).mono hmore

/-- The pattern of a field can be read if the fields are available. -/
theorem fieldPattern_within {op : Op} :
    Yields env (r.fieldPattern op) (ReadsUnder (Opened env r.fields)) := by
  unfold Record.fieldPattern
  split
  · next ty hty =>
    refine (Yields.ofTable (f := fun t => Layout.unpack t ty (Name.tick "v" op.name))).mono ?_
    have hmem : (op.name, ty) ∈ r.fields := Dict.mem_entries_of_get? (d := ⟨r.fields⟩) hty
    exact fun pattern hpattern bound hopened => (hopened _ hmem).within hpattern
  · exact .defect

/-! ### Writable -/

/-- What stores fields starts from: their variables and a builder. -/
def Writable (env : Env) (r : Record) (builder : String) (bound : List String) : Prop :=
  Opened env r.fields bound ∧ builder ∈ bound

theorem Writable.mono {builder : String} (h : Writable env r builder bound) (hmore : bound ⊆ more) :
    Writable env r builder more := ⟨h.1.mono hmore, hmore h.2⟩

theorem writeOps_within {ops : List Op} : Yields env (writeOps r (id name) ops) fun out =>
    ∀ bound, Writable env r name bound → StmtsWithin bound out := by
  induction ops with
  | nil => exact .pure (by simp)
  | cons op rest ih =>
    refine fieldPattern_within.bind fun value hvalue => ?_
    have hstored : Yields env (storeField (id name) op value) (ReadsUnder (Writable env r name)) :=
      storeField_has hereditary_readsUnder (fun bound hb => within_id.2 hb.2) fun bound hb => hvalue bound hb.1
    refine hstored.bind fun stored hstored => ih.bind fun out hout => .pure fun bound hb => ?_
    rw [stmtsWithin_cons]
    exact ⟨Stmt.within_assign.2 (hstored bound hb), hout _ (hb.mono (List.subset_append_left _ _))⟩

theorem writeChain_within {generation : Nat} {chain : Chain} : Yields env (writeChain r generation chain)
    fun out => ∀ bound, Writable env r (builderName generation) bound → StmtsWithin bound out := by
  induction chain generalizing generation with
  | last ops => exact writeOps_within
  | link ops next ih =>
    refine writeOps_within.bind fun own hown => ih.bind fun below hbelow => .pure fun bound hb => ?_
    have hchild : Writable env r (builderName (generation + 1))
        (bound ++ stmtBinds own ++ [builderName (generation + 1)]) :=
      ⟨hb.1.mono (by simp), by simp⟩
    simpa [List.append_assoc, hb.2] using ⟨hown bound hb, by simpa using hbelow _ hchild⟩

/-- Opening a record in `v` makes its fields available. -/
theorem opened_openRecord {shape : Layout.Shape}
    (h : Layout.record env.program.types r.fields "v" = .ok shape) :
    Opened env r.fields (bound ++ stmtBinds (openRecord shape)) := by
  intro f hf
  have hproduct := (Layout.exists_part h hf).1
  refine .of_record h ?_ hf
  rw [openRecord, if_pos hproduct, stmtBinds_cons, Stmt.binds_var, Layout.Shape.boundNames_pattern]
  simp

theorem shape_yields {cut : Bool} : Yields env (r.shape cut) fun shape =>
    Layout.record env.program.types (r.visible cut) "v" = .ok shape :=
  Yields.ofTable (f := fun t => Layout.record t (r.visible cut) "v")

theorem writerItem_within {inline : Bool} : ClosedItem env (writerItem r inline) := by
  refine shape_yields.bind fun shape hshape => writeChain_within.bind fun body hbody => .pure fun globals => ?_
  have hheader : ∀ {bound}, "build_0" ∈ bound → StmtsWithin bound (writeHeader r.plan) := by
    intro bound hbound
    unfold writeHeader
    split <;> simp [hbound]
  have hopen : ∀ {bound}, "v" ∈ bound → StmtsWithin bound (openRecord shape) := by
    intro bound hbound
    unfold openRecord
    split <;> simp [hbound]
  have hfirst : builderName 0 = "build_0" := by decide
  have hwritable : ∀ {bound}, "build_0" ∈ bound → Writable env r (builderName 0)
      (bound ++ stmtBinds (openRecord shape) ++ stmtBinds (writeHeader r.plan)) := fun hbound =>
    ⟨(opened_openRecord hshape).mono (List.subset_append_left _ _), by simp [hfirst, hbound]⟩
  simp only [Item.within_define, Signature.params_inlineIf, Signature.params_returning,
    Signature.params_param, List.map_append, List.map_cons, List.map_nil, List.nil_append,
    stmtsWithin_append, stmtsWithin_cons, stmtsWithin_nil, stmtBinds_append]
  refine ⟨⟨⟨hopen (by simp), hheader (by simp)⟩, ?_⟩, by simp, trivial⟩
  rw [← List.append_assoc]
  exact hbody _ (hwritable (by simp))

/-! ### Loading -/

/-- The fields that operations are about are available. -/
def Loaded (env : Env) (r : Record) (ops : List Op) (bound : List String) : Prop :=
  ∀ op ∈ ops, ∀ ty, r.fields.lookup op.name = some ty →
    AvailableIn env.program.types ty (Name.tick "v" op.name) bound

theorem Loaded.mono {ops : List Op} (h : Loaded env r ops bound) (hmore : bound ⊆ more) :
    Loaded env r ops more := fun op hop ty hty => (h op hop ty hty).mono hmore

theorem Loaded.append {ops others : List Op} (h : Loaded env r ops bound) (hothers : Loaded env r others more) :
    Loaded env r (ops ++ others) (bound ++ more) := by
  intro op hop ty hty
  obtain hop | hop := List.mem_append.1 hop
  · exact h.mono (List.subset_append_left _ _) op hop ty hty
  · exact hothers.mono (List.subset_append_right _ _) op hop ty hty

/-- The statements read only the slice and what they bind, and load the fields of operations. -/
def Loads (env : Env) (r : Record) (slice : String) (ops : List Op) (out : List Target.Stmt) : Prop :=
  (∀ bound, slice ∈ bound → StmtsWithin bound out) ∧ Loaded env r ops (stmtBinds out)

theorem fieldPattern_binds {op : Op} : Yields env (r.fieldPattern op) fun pattern =>
    ∀ ty, r.fields.lookup op.name = some ty →
      Layout.unpack env.program.types ty (Name.tick "v" op.name) = .ok pattern := by
  unfold Record.fieldPattern
  split
  · next ty hty =>
    refine (Yields.ofTable (f := fun t => Layout.unpack t ty (Name.tick "v" op.name))).mono ?_
    intro pattern hpattern ty' hty'
    obtain rfl : ty = ty' := Option.some.inj (hty.symm.trans hty')
    exact hpattern
  · exact .defect

theorem loadField_binds {op : Op} {pattern : Target.Expr} :
    Yields env (loadField (id name) op pattern) fun out =>
      (∀ bound, name ∈ bound → StmtsWithin bound out) ∧ pattern.boundNames ⊆ stmtBinds out := by
  have hload : ∀ callee args, (∀ e ∈ args, ReadsUnder (name ∈ ·) e) →
      ReadsUnder (name ∈ ·) (Target.modify (id name) callee args) := fun callee args hargs bound hb =>
    within_modify.2 ⟨within_id.2 hb, fun e he => hargs e he bound hb⟩
  have hslice : ReadsUnder (name ∈ ·) (id name) := fun bound hb => within_id.2 hb
  refine (loadField_has hereditary_readsUnder hload hslice).mono fun out h => ?_
  obtain ⟨value, rest, rfl, hvalue, rfl | ⟨empty, rfl⟩⟩ := h
  · exact ⟨fun bound hb => by simpa using hvalue bound hb, by simp⟩
  · exact ⟨fun bound hb => by simpa using hvalue bound hb, by simp⟩

theorem readOps_binds {ops : List Op} : Yields env (readOps r (id name) ops) (Loads env r name ops) := by
  induction ops with
  | nil => exact .pure ⟨by simp, by simp [Loaded]⟩
  | cons op rest ih =>
    refine fieldPattern_binds.bind fun pattern hpattern => loadField_binds.bind fun loaded ⟨hreads, hbinds⟩ => ?_
    refine ih.bind fun out ⟨hout, hloaded⟩ => .pure ⟨fun bound hb => ?_, ?_⟩
    · exact stmtsWithin_append.2 ⟨hreads bound hb, hout _ (List.mem_append_left _ hb)⟩
    · have hfirst : Loaded env r [op] (stmtBinds loaded) := by
        rintro _ hop ty hty
        obtain rfl := List.mem_singleton.1 hop
        exact .of_unpack (hpattern ty hty) hbinds
      exact stmtBinds_append ▸ hfirst.append hloaded

/-- A reader binds the fields of the operations that it walks over. -/
theorem readChain_binds {limit generation : Nat} {chain : Chain} : Yields env (readChain r limit generation chain)
    (Loads env r (sliceName generation) (chain.ops.take limit)) := by
  induction chain generalizing limit generation with
  | last ops =>
    rw [Chain.ops_last]
    exact readOps_binds
  | link ops next ih =>
    rw [Chain.ops_link, List.take_append]
    refine readOps_binds.bind fun own ⟨hown, hloaded⟩ => ?_
    split
    · next hlimit =>
      rw [Nat.sub_eq_zero_of_le hlimit, List.take_zero, List.append_nil]
      exact .pure ⟨hown, hloaded⟩
    · refine ih.bind fun below ⟨hbelow, hrest⟩ => .pure ⟨fun bound hb => ?_, ?_⟩
      · have hnext := hbelow (bound ++ stmtBinds own ++ [sliceName (generation + 1)]) (by simp)
        simpa [loadReference, hb] using ⟨hown bound hb, by simpa using hnext⟩
      · rw [stmtBinds_append]
        exact (Loaded.mono hloaded (by simp)).append hrest

/-- There is one operation for each field, and fields of one name have one type. -/
structure Record.Planned (r : Record) : Prop where
  flat : r.plan.root.ops = r.plan.ops
  names : r.plan.ops.map (·.name) = r.fields.map Prod.fst
  lookup : ∀ f ∈ r.fields, r.fields.lookup f.1 = some f.2

/-- The first operations are about the first fields. -/
theorem Record.Planned.opened (h : r.Planned) {limit : Nat}
    (hloaded : Loaded env r (r.plan.root.ops.take limit) bound) : Opened env (r.fields.take limit) bound := by
  intro f hf
  have hname : f.1 ∈ (r.plan.root.ops.take limit).map (·.name) := by
    rw [h.flat, List.map_take, h.names, ← List.map_take]
    exact List.mem_map_of_mem hf
  obtain ⟨op, hop, hname⟩ := List.mem_map.1 hname
  exact hname ▸ hloaded op hop f.2 (hname ▸ h.lookup f (List.mem_of_mem_take hf))

theorem readerItem_within (h : r.Planned) {cut inline : Bool} :
    ClosedItem env (readerItem r name cut inline) := by
  refine shape_yields.bind fun shape hshape => readChain_binds.bind fun body ⟨hreads, hloaded⟩ => ?_
  refine .pure fun globals => ?_
  have hvisible : r.visible cut = r.fields.take (if cut then r.bounceCount else r.plan.ops.length) := by
    have hlength : r.plan.ops.length = r.fields.length := by simpa using congrArg List.length h.names
    unfold Record.visible
    split
    · rfl
    · rw [hlength, List.take_length]
  have hvalue : (recordValue shape).Within (stmtBinds body) := by
    unfold recordValue
    split
    · next hproduct =>
      refine Layout.Shape.within_pattern.2 (AvailableIn.names_subset hshape hproduct ?_)
      rw [hvisible]
      exact h.opened hloaded
    · simp
  have hheader : ∀ {bound}, "sc_0" ∈ bound → StmtsWithin bound (readHeader r.plan) := by
    intro bound hbound
    unfold readHeader
    split <;> simp [hbound]
  have hfirst : sliceName 0 = "sc_0" := by decide
  simp only [Item.within_define, Signature.params_inlineIf, Signature.params_returning,
    Signature.params_param, List.map_cons, List.map_nil, List.nil_append,
    stmtsWithin_append, stmtsWithin_cons, stmtsWithin_nil, Stmt.within_ret, Target.Expr.within_tensor,
    List.forall_mem_cons]
  refine ⟨⟨hheader (by simp), hreads _ (by simp [hfirst])⟩, ⟨by simp, ?_, by simp⟩, trivial⟩
  refine hvalue.mono fun x hx => ?_
  simp [hx]

/-! ### Codecs -/

theorem codec_within (h : r.Planned) {g : Gen Item} (hg : CodecOf r g) : ClosedItem env g := by
  cases hg with
  | writer => exact writerItem_within
  | writerCell =>
    refine .andThen fun shape => Yields.callUsed.bind fun stored hstored => .pure fun globals => ?_
    simp [hstored]
  | reader => exact readerItem_within h
  | readerNotMut => exact .andThen fun shape => .used_bind (.pure fun globals => by simp)

theorem furtherCodec_within (h : r.Planned) {g : Gen Item} (hg : FurtherCodecOf r g) : ClosedItem env g := by
  cases hg with
  | readerBounced => exact readerItem_within h
  | writerOpt => exact .used_bind (.used_bind (.pure fun globals => by simp [storeFlag]))
  | writerCellOpt | readerOpt | readerCellOpt =>
    exact .used_bind (.used_bind (.pure fun globals => by simp))

/-- A plan that stores fields has one operation for each. -/
theorem planned_of_stores {header : Option Plan.Header} {fields : List (String × TypeRef × Option String)}
    (h : Plans.Stores env.program.types env.program.plans header fields r.plan)
    (hfields : r.fields = fields.map fun f => (f.1, f.2.1))
    (hsame : ∀ f ∈ r.fields, ∀ g ∈ r.fields, f.1 = g.1 → f.2 = g.2) : r.Planned := by
  refine ⟨h.sound.flat, ?_, fun f hf => ?_⟩
  · rw [hfields, List.map_map]
    exact List.map_eq_map_of_forall₂ h.settled fun f op ⟨_, hop, hsettles⟩ =>
      hsettles.name_eq.trans hop.name_eq
  · cases hlookup : r.fields.lookup f.1 with
    | none => simpa using List.lookup_eq_none_iff.1 hlookup f hf
    | some ty =>
      have hmem : (f.1, ty) ∈ r.fields := Dict.mem_entries_of_get? (d := ⟨r.fields⟩) hlookup
      exact congrArg some (hsame _ hmem f hf rfl)

/-! ### Conversions -/

@[simp] theorem within_conversion {param result : Ty} {body : List Target.Stmt} {globals : List String} :
    (RecordView.conversion name param result body).Within globals ↔ StmtsWithin (globals ++ ["v"]) body := by
  simp [RecordView.conversion]

/-- What conversions use of a record is what its pattern binds. -/
structure RecordView.Opens (env : Env) (r : RecordView) : Prop where
  pattern : r.pattern.Within r.pattern.boundNames
  leaves : r.leaves = r.pattern.boundNames.map Target.id
  fields : ∀ f ∈ r.decl.fields, AvailableIn env.program.types f.ty (Name.tick "v" f.name) r.pattern.boundNames

theorem recordView_opens {decl : TypeDecl} (hdecl : env.program.types.types.get? decl.name = some decl)
    (hlike : decl.isStructLike = true) : Yields env (recordView decl) (RecordView.Opens env) := by
  refine Yields.table.bind fun types htypes => .andThen fun ty => ?_
  refine (Yields.ofTable (f := fun t => Layout.unpack t (.plain decl.name) "v")).bind fun pattern hpattern => ?_
  refine Yields.ofExcept.bind fun shape hshape => .pure ?_
  subst htypes
  obtain ⟨sh, hsh, rfl⟩ := Except.map_eq_ok.1 hpattern
  have hshape' : Layout.shape env.program.types (.plain decl.name) "v" = .ok shape := hshape
  obtain rfl : sh = shape := Except.ok.inj (hsh.symm.trans hshape')
  have hnames := Layout.Shape.boundNames_pattern sh
  refine ⟨Layout.Shape.within_pattern.2 (by rw [hnames]; exact List.Subset.refl _), ?_, fun f hf => ?_⟩
  · simp [hnames, Layout.Shape.names]
  · have havailable : AvailableIn env.program.types (.plain decl.name) "v" sh.pattern.boundNames :=
      .of_unpack hpattern (List.Subset.refl _)
    exact havailable.field (TypeTable.mem_recordFields.2 ⟨decl, hdecl, hlike, hf⟩)

section

variable {r : RecordView}

/-- Where the fields of a record have been bound as a whole, each of them can be read. -/
theorem fieldVar_reads {field : Field} (hfield : field ∈ r.decl.fields) :
    ReadsUnder (r.fieldVars.boundNames ⊆ ·) (fieldVar field) := by
  intro bound hbound
  refine within_id.2 (hbound ?_)
  simp only [RecordView.fieldVars, boundNames_tensor, List.flatMap_map, List.mem_flatMap]
  exact ⟨field, hfield, by simp [fieldVar]⟩

theorem fromTupleItem_within : ClosedItem env r.fromTupleItem := by
  unfold RecordView.fromTupleItem
  split
  · exact .pure fun globals => by simp
  · have hfield : ∀ field ∈ r.decl.fields, Yields env (untupleField field)
        (ReadsUnder (r.fieldVars.boundNames ⊆ ·)) := fun field hfield =>
      untupleField_has hereditary_readsUnder (fieldVar_reads hfield)
    refine .helper_bind ((Yields.mapM_all hfield).bind fun items ⟨_, hitems⟩ => .pure fun globals => ?_)
    simpa using fun e he => hitems e he _ (by simp)

theorem fromExternalItem_within : ClosedItem env r.fromExternalItem := by
  unfold RecordView.fromExternalItem
  split
  · rw [pure_bind]
    exact .andThen fun ty => .pure fun globals => by simp
  · have hfield : ∀ field ∈ r.decl.fields, Yields env (fromOutside field.ty (fieldVar field))
        (ReadsUnder (r.fieldVars.boundNames ⊆ ·)) := fun field hfield =>
      fromOutside_has hereditary_readsUnder (fieldVar_reads hfield)
    refine (Yields.mapM_all hfield).bind fun items ⟨_, hitems⟩ => ?_
    rw [pure_bind]
    exact .andThen fun ty => .pure fun globals => by simpa using fun e he => hitems e he _ (by simp)

theorem fromOptExternalItem_within : ClosedItem env r.fromOptExternalItem := by
  unfold RecordView.fromOptExternalItem
  split
  · exact .pure fun globals => by simp
  · exact .helper_bind (.used_bind (.used_bind (.pure fun globals => by simp [RecordView.passNull])))

variable (hr : r.Opens env)

include hr

/-- What is put into a tuple is what the pattern of the record binds. -/
theorem tupleFields_read : Yields env (r.decl.fields.mapM tupleField) fun items =>
    ∀ e ∈ items, ReadsUnder (r.pattern.boundNames ⊆ ·) e := by
  have hfield : ∀ field ∈ r.decl.fields, Yields env (tupleField field)
      (ReadsUnder (r.pattern.boundNames ⊆ ·)) := by
    intro field hfield
    have havailable := hr.fields field hfield
    refine tupleField_has hereditary_readsUnder (fun hoptional bound hbound => ?_) ?_
    · exact within_id.2 (hbound (havailable.mem_of_isOptional hoptional))
    · intro pattern hpattern bound hbound
      exact (havailable.mono hbound).within hpattern
  exact (Yields.mapM_all hfield).mono fun items h => h.2

theorem boundNames_leaves : (Target.Expr.tensor r.leaves).boundNames = r.pattern.boundNames := by
  simp [hr.leaves, List.flatMap_map]

theorem within_leaves : ∀ e ∈ r.leaves, e.Within r.pattern.boundNames := by
  rw [hr.leaves]
  exact List.forall_mem_map.2 fun x hx => within_id.2 hx

theorem notNullItem_within : ClosedItem env r.notNullItem := by
  unfold RecordView.notNullItem
  split
  · exact .pure fun globals => by simp
  · refine .helper_bind (.pure fun globals => ?_)
    have hreads : r.pattern.Within (globals ++ "v" :: r.pattern.boundNames) := hr.pattern.mono (by simp)
    simpa [boundNames_leaves hr, -boundNames_tensor] using hreads

theorem asOptionalItem_within : ClosedItem env r.asOptionalItem := by
  unfold RecordView.asOptionalItem
  split
  · exact .pure fun globals => by simp
  · refine .helper_bind (.pure fun globals => ?_)
    simpa [RecordView.bindLeaves] using fun e he => (within_leaves hr e he).mono (by simp)

theorem toTupleItem_within : ClosedItem env r.toTupleItem := by
  unfold RecordView.toTupleItem
  split
  · exact .pure fun globals => by simp
  · refine (tupleFields_read hr).bind fun items hitems => .helper_bind (.pure fun globals => ?_)
    simpa [RecordView.bindLeaves] using fun e he => hitems e he _ (by simp)

theorem toExternalItem_within : ClosedItem env r.toExternalItem := by
  unfold RecordView.toExternalItem
  split
  · rw [pure_bind]
    exact .andThen fun ty => .pure fun globals => by simp
  · refine (tupleFields_read hr).bind fun items hitems => ?_
    rw [pure_bind]
    refine .andThen fun ty => .pure fun globals => ?_
    simpa [RecordView.bindLeaves] using fun e he => hitems e he _ (by simp)

theorem conversion_within {g : Gen Item} (hg : ConversionOf r g) : ClosedItem env g := by
  cases hg with
  | @getter field hfield =>
    refine .andThen fun ty => ?_
    refine (Yields.ofTable (f := fun t => Layout.unpack t field.ty (Name.tick "v" field.name))).bind ?_
    refine fun value hvalue => .pure fun globals => ?_
    have hreads : value.Within (globals ++ "v" :: r.pattern.boundNames) :=
      ((hr.fields field hfield).mono (by simp)).within hvalue
    simpa [RecordView.bindLeaves] using hreads
  | tensorCast => exact .pure fun globals => rfl
  | notNull => exact notNullItem_within hr
  | asOptional => exact asOptionalItem_within hr
  | toTuple => exact toTupleItem_within hr
  | fromTuple => exact fromTupleItem_within
  | toOptTuple | fromOptTuple =>
    exact .used_bind (.used_bind (.pure fun globals => by simp [RecordView.passNull]))
  | toExternal => exact toExternalItem_within hr
  | toOptExternal => exact .used_bind (.pure fun globals => by simp)
  | fromExternal => exact fromExternalItem_within
  | fromOptExternal => exact fromOptExternalItem_within

end

end Generate

end CellCompiler
