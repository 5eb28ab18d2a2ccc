import CellCompiler.Proofs.Generate.Success
import CellCompiler.Proofs.Layout.Existence
import CellCompiler.Proofs.Name

/-!
# Generators of data succeed

Functions of a record depend on functions of the records that it holds, which are lower, and on other
functions of the same record. `Name.Part.level` orders the functions of one record, so that four
times the height of the record and the level together rank all functions.

* `Schedule.Serves` says that the functions of all records are due under these ranks;
* `Record.Plain` is a record whose fields are data, each stored by an operation of its plan;
* the generators of codecs, conversions and of the state of contracts succeed.
-/

namespace CellCompiler

open Plan (Op OpKind Format Chain)

/-! ### Ranks -/

namespace Name

/-- How many steps a codec is above those of lower records. -/
def Codec.level : Codec → Nat
  | writer | reader | readerBounced => 1
  | writerCell | readerNotMut | writerOpt | readerOpt => 2
  | writerCellOpt | readerCellOpt => 3

/-- How many steps a function is above those of lower records. -/
def Part.level : Part → Nat
  | codec c => c.level
  | notNull | asOptional => 0
  | tensorCast | toTuple | fromTuple | toExternal | fromExternal | contractInit | routerInternal
  | routerExternal => 1
  | toOptTuple | fromOptTuple | fromOptExternal | initChild | contractLoad | contractStore => 2
  | toOptExternal => 3

theorem Part.level_le (p : Part) : p.level ≤ 3 := by
  have hall : ∀ p ∈ Part.all, p.level ≤ 3 := by decide
  exact hall p p.mem_all

/-- The functions of a record that are called the same for every record, apart from the one that loads
what is left of a message. -/
def Part.ofRecord : List Part :=
  [.codec .writer, .codec .writerCell, .codec .reader, .codec .readerNotMut, .codec .writerOpt,
    .codec .writerCellOpt, .codec .readerOpt, .codec .readerCellOpt, .tensorCast, .notNull, .asOptional,
    .toTuple, .toOptTuple, .fromTuple, .fromOptTuple, .toExternal, .toOptExternal, .fromExternal,
    .fromOptExternal]

end Name

namespace Schedule

/-- The functions of a record are due. -/
def OffersRecord (s : Schedule) (height : String → Nat) (name : String) : Prop :=
  ∀ p ∈ Name.Part.ofRecord, s.Offers (p.name name) (4 * height name + p.level)

/-- The functions of all records are due. -/
def Serves (s : Schedule) (table : TypeTable) (height : String → Nat) : Prop :=
  ∀ decl ∈ table.structs, s.OffersRecord height decl.name

end Schedule

namespace Generate

open Target (Item isNull)

variable {env : Env} {s : Schedule} {height : String → Nat} {top bound level : Nat} {ty : TypeRef}

/-- A record that the table holds, lower than a bound. -/
structure Lower (env : Env) (height : String → Nat) (bound : Nat) (decl : TypeDecl) : Prop where
  mem : decl ∈ env.program.types.structs
  height_lt : height decl.name < bound

namespace Succeeds

/-- A function of a lower record is used. -/
theorem used_lower (hs : s.Serves env.program.types height) {decl : TypeDecl}
    (hdecl : Lower env height bound decl) (hlevel : 4 * bound + 2 ≤ level) {p : Name.Part}
    (hp : p ∈ Name.Part.ofRecord) :
    Succeeds env s level (Generate.used (p.name decl.name)) fun n => n = p.name decl.name := by
  have hle := p.level_le
  have hlt := hdecl.height_lt
  exact used (hs decl hdecl.mem p hp) (by omega)

theorem callUsed_lower (hs : s.Serves env.program.types height) {decl : TypeDecl}
    (hdecl : Lower env height bound decl) (hlevel : 4 * bound + 2 ≤ level) (p : Name.Part)
    (hp : p ∈ Name.Part.ofRecord) {args : List Target.Expr} :
    Succeeds env s level (Generate.callUsed (p.name decl.name) args) fun _ => True :=
  (used_lower hs hdecl hlevel hp).bind fun _ _ => pure trivial

/-- A function of the same record is used. -/
theorem used_own {name : String} (h : s.OffersRecord height name) {p q : Name.Part}
    (hp : p ∈ Name.Part.ofRecord) (hlt : p.level < q.level) :
    Succeeds env s (4 * height name + q.level + 2) (Generate.used (p.name name))
      fun n => n = p.name name :=
  used (h p hp) (by omega)

end Succeeds

/-! ### Types -/

/-- The record that a type of data names is lower. -/
theorem lower_of_data (hw : env.program.types.WellNamed) {name : String} {optional : Bool}
    {decl : TypeDecl} (hty : env.program.types.Data height bound (.named name optional))
    (hdecl : env.program.types.types.get? name = some decl) (hs : decl.isStructLike = true) :
    Lower env height bound decl := by
  cases hty with
  | named hdecl' hcontract hlt =>
    obtain rfl : decl = _ := by simpa [hdecl] using hdecl'
    obtain rfl := hw.name_eq hdecl
    have hstruct : decl.isStruct = true := by
      cases hstruct : decl.isStruct with
      | true => rfl
      | false => simp [TypeDecl.isContract_of_isStructLike hs hstruct] at hcontract
    exact ⟨TypeTable.mem_structs.2 ⟨Dict.mem_values_of_get? hdecl, hstruct⟩, hlt hstruct⟩

theorem structOf_ok (hl : env.program.types.Layered height top)
    (hty : env.program.types.Data height bound ty) :
    ∃ o, Layout.structOf env.program.types ty = .ok o ∧ ∀ decl ∈ o, Lower env height bound decl := by
  cases hty with
  | map => exact ⟨none, rfl, by simp⟩
  | @named name optional decl hdecl hcontract hlt =>
    refine ⟨if decl.isStructLike then some decl else none, ?_, fun inner hinner => ?_⟩
    · simp [Layout.structOf, TypeRef.name?, Layout.declOf, hdecl]
    · split at hinner
      · next hs =>
        obtain rfl : decl = inner := by simpa using hinner
        have hty : env.program.types.Data height bound (.named name optional) :=
          .named hdecl hcontract hlt
        exact lower_of_data hl.wellNamed hty hdecl hs
      · simp at hinner

namespace Reads

/-- A view of the shape of a type. -/
theorem view {α : Type} (hl : env.program.types.Layered height top)
    (hty : env.program.types.Declares ty) (f : Layout.Shape → α) (base : String) :
    Reads env (Generate.table >>= fun t => Generate.ofExcept (f <$> Layout.shape t ty base))
      fun a => ∃ sh, Layout.shape env.program.types ty base = .ok sh ∧ a = f sh := by
  obtain ⟨sh, hsh⟩ := hl.shapeWith_ok hty {} base
  have hok : f <$> Layout.shape env.program.types ty base = .ok (f sh) := by
    rw [Layout.shape, hsh]
    rfl
  refine (ofTable (f := fun t => f <$> Layout.shape t ty base) ⟨_, hok⟩).mono fun a ha => ?_
  exact ⟨sh, hsh, Except.ok.inj (ha.symm.trans hok)⟩

theorem unpack (hl : env.program.types.Layered height top) (hty : env.program.types.Declares ty)
    (base : String) : Reads env (Generate.unpack ty base) fun e =>
      ∃ sh, Layout.shape env.program.types ty base = .ok sh ∧ e = sh.pattern :=
  view hl hty Layout.Shape.pattern base

theorem representation (hl : env.program.types.Layered height top)
    (hty : env.program.types.Declares ty) : Reads env (Generate.representation ty) fun _ => True :=
  (view hl hty Layout.Shape.ty "").mono fun _ _ => trivial

theorem isUnpacked (hl : env.program.types.Layered height top)
    (hty : env.program.types.Declares ty) : Reads env (Generate.isUnpacked ty) fun _ => True :=
  (view hl hty Layout.Shape.isProduct "").mono fun _ _ => trivial

theorem structOf (hl : env.program.types.Layered height top)
    (hty : env.program.types.Data height bound ty) :
    Reads env (Generate.structOf ty) fun o => ∀ decl ∈ o, Lower env height bound decl := by
  obtain ⟨o, ho, hlower⟩ := structOf_ok hl hty
  refine (ofTable (f := fun t => Layout.structOf t ty) ⟨o, ho⟩).mono fun o' ho' => ?_
  obtain rfl := Except.ok.inj (ho.symm.trans ho')
  exact hlower

theorem primitiveOf (hty : env.program.types.Data height bound ty) :
    Reads env (Generate.primitiveOf ty) fun _ => True := by
  have hok : ∃ o, Layout.primitiveOf env.program.types ty = .ok o := by
    cases hty with
    | map => exact ⟨none, rfl⟩
    | @named name optional decl hdecl _ _ =>
      exact ⟨decl.primitive?, by simp [Layout.primitiveOf, Layout.declOf, hdecl]⟩
  exact (ofTable (f := fun t => Layout.primitiveOf t ty) hok).mono fun _ _ => trivial

/-- How a record is seen from outside. -/
theorem externalTy (hl : env.program.types.Layered height top) {decl : TypeDecl}
    (hfields : ∀ f ∈ decl.fields, env.program.types.Data height bound f.ty) :
    Reads env (Generate.externalTy decl) fun _ => True := by
  have hok : ∃ t, Layout.externalTy env.program.types decl = .ok t := by
    cases hty : Layout.externalTy env.program.types decl with
    | ok t => exact ⟨t, rfl⟩
    | error e =>
      unfold Layout.externalTy at hty
      split at hty
      · simp at hty
      · obtain ⟨f, hf, herror⟩ := List.exists_of_mapM_eq_error (Except.map_eq_error.1 hty)
        obtain ⟨o, ho, -⟩ := structOf_ok hl (hfields f hf)
        obtain ⟨sh, hsh⟩ := hl.shapeWith_ok (hfields f hf).declares {} ""
        have hrepresentation : Layout.representation env.program.types f.ty = .ok sh.ty := by
          rw [Layout.representation, Layout.shape, hsh]
          rfl
        rw [ho] at herror
        cases o with
        | none => exact absurd (hrepresentation.symm.trans herror) (by simp)
        | some nested =>
          change Except.ok Target.Ty.anyTuple = Except.error e at herror
          simp at herror
  exact (ofTable (f := fun t => Layout.externalTy t decl) hok).mono fun _ _ => trivial

end Reads

/-! ### Codecs -/

/-- The record has fields of data, and its plan stores them; records in its fields are lower. -/
structure Record.Plain (env : Env) (height : String → Nat) (bound : Nat) (r : Record) : Prop where
  fields : ∀ f ∈ r.fields, env.program.types.Data height bound f.2
  named : ∀ op ∈ r.plan.root.ops, ∃ ty, (op.name, ty) ∈ r.fields ∧ r.fields.lookup op.name = some ty
  nested : ∀ op ∈ r.plan.root.ops, ∀ typeName byRef, op.kind = .struct typeName byRef →
    ∃ decl, Lower env height bound decl ∧ decl.name = typeName

section Codecs

variable (hl : env.program.types.Layered height top) (hs : s.Serves env.program.types height)
  {r : Record} (hr : r.Plain env height bound) (hlevel : 4 * bound + 2 ≤ level)

theorem entered_storeAddress : Helper.Entered Helper.storeAddressName :=
  ⟨⟨.storeAddress, by decide⟩, by decide, by decide, by decide⟩

theorem entered_loadAddress : Helper.Entered Helper.loadAddressName :=
  ⟨⟨.loadAddress, by decide⟩, by decide, by decide, by decide⟩

theorem entered_verifyAddress : Helper.Entered Helper.verifyAddressName :=
  ⟨⟨.verifyAddress, by decide⟩, by decide, by decide, by decide⟩

theorem entered_emptySlice : Helper.Entered Helper.emptySliceName :=
  ⟨⟨.emptySlice, by decide⟩, by decide, by decide, by decide⟩

theorem entered_dictGetCode : Helper.Entered Helper.dictGetCodeName :=
  ⟨⟨.dictGetCode, by decide⟩, by decide, by decide, by decide⟩

include hs hlevel in
theorem storeOp_succeeds {builder value : Target.Expr} {kind : OpKind}
    (hkind : ∀ typeName byRef, kind = .struct typeName byRef →
      ∃ decl, Lower env height bound decl ∧ decl.name = typeName) :
    Succeeds env s level (storeOp builder value kind) fun _ => True := by
  cases kind with
  | address => exact .callHelper (by omega) entered_storeAddress
  | cell format | slice format | builder format => cases format <;> exact .pure trivial
  | struct typeName byRef =>
    obtain ⟨decl, hdecl, rfl⟩ := hkind typeName byRef rfl
    cases byRef with
    | false => exact .callUsed_lower hs hdecl hlevel (.codec .writer) (by decide)
    | true =>
      exact (Succeeds.callUsed_lower hs hdecl hlevel (.codec .writerCell) (by decide)).bind
        fun _ _ => .pure trivial
  | _ => exact .pure trivial

include hs hlevel in
theorem storeField_succeeds {builder value : Target.Expr} {op : Op}
    (hop : ∀ typeName byRef, op.kind = .struct typeName byRef →
      ∃ decl, Lower env height bound decl ∧ decl.name = typeName) :
    Succeeds env s level (storeField builder op value) fun _ => True := by
  unfold storeField
  split
  · exact storeOp_succeeds hs hlevel hop
  · have hpresent : ∀ close : Gen Target.Expr, Succeeds env s level close (fun _ => True) →
        Succeeds env s level (do
          let present ← close
          let stored ← storeOp (storeFlag builder true) present op.kind
          return Target.Expr.ternary (Target.not (isNull value)) stored (storeFlag builder false))
          fun _ => True := by
      intro close hclose
      refine hclose.bind fun present _ => ?_
      exact (storeOp_succeeds hs hlevel hop).bind fun _ _ => .pure trivial
    split
    · next typeName hkind =>
      obtain ⟨decl, hdecl, rfl⟩ := hop typeName false hkind
      exact .callUsed_lower hs hdecl hlevel (.codec .writerOpt) (by decide)
    · split
      · next typeName byRef hkind =>
        obtain ⟨decl, hdecl, rfl⟩ := hop typeName byRef hkind
        exact hpresent _ (.callUsed_lower hs hdecl hlevel .notNull (by decide))
      · exact hpresent _ (.pure trivial)

include hl hr in
theorem fieldPattern_reads {op : Op} (hop : op ∈ r.plan.root.ops) :
    Reads env (r.fieldPattern op) fun _ => True := by
  obtain ⟨ty, hmem, hlookup⟩ := hr.named op hop
  unfold Record.fieldPattern
  rw [hlookup]
  exact (Reads.unpack hl (hr.fields _ hmem).declares _).mono fun _ _ => trivial

include hl hs hr hlevel in
theorem writeOps_succeeds {builder : Target.Expr} {ops : List Op}
    (hops : ∀ op ∈ ops, op ∈ r.plan.root.ops) :
    Succeeds env s level (writeOps r builder ops) fun _ => True := by
  induction ops with
  | nil => exact .pure trivial
  | cons op ops ih =>
    obtain ⟨hop, hops⟩ := List.forall_mem_cons.1 hops
    refine .read_bind (fieldPattern_reads hl hr hop) fun value _ => ?_
    refine (storeField_succeeds hs hlevel (hr.nested op hop)).bind fun stored _ => ?_
    exact (ih hops).bind fun _ _ => .pure trivial

include hl hs hr hlevel in
theorem writeChain_succeeds {generation : Nat} {chain : Chain}
    (hops : ∀ op ∈ chain.ops, op ∈ r.plan.root.ops) :
    Succeeds env s level (writeChain r generation chain) fun _ => True := by
  induction chain generalizing generation with
  | last ops => exact writeOps_succeeds hl hs hr hlevel (by simpa [Chain.ops, Chain.cells] using hops)
  | link ops next ih =>
    have hsplit : ∀ op, op ∈ ops ∨ op ∈ next.ops → op ∈ r.plan.root.ops := fun op hop =>
      hops op (by simpa [Chain.ops, Chain.cells] using hop)
    refine (writeOps_succeeds hl hs hr hlevel fun op hop => hsplit op (.inl hop)).bind fun own _ => ?_
    exact (ih fun op hop => hsplit op (.inr hop)).bind fun _ _ => .pure trivial

include hl hr in
theorem shape_reads (bounced : Bool) : Reads env (r.shape bounced) fun _ => True := by
  have hvisible : ∀ f ∈ r.visible bounced, env.program.types.Declares f.2 := by
    intro f hf
    unfold Record.visible at hf
    split at hf
    · exact (hr.fields f (List.mem_of_mem_take hf)).declares
    · exact (hr.fields f hf).declares
  exact (Reads.ofTable (f := fun t => Layout.record t (r.visible bounced) "v")
    (hl.record_ok hvisible "v")).mono fun _ _ => trivial

include hl hs hr hlevel in
theorem writerItem_succeeds {inline : Bool} :
    Succeeds env s level (writerItem r inline) (·.Defines (Name.writer r.name)) := by
  refine .read_bind (shape_reads hl hr false) fun shape _ => ?_
  refine (writeChain_succeeds hl hs hr hlevel fun _ h => h).bind fun body _ => .pure ?_
  simp

include hs hlevel in
theorem loadOp_succeeds {slice : Target.Expr} {kind : OpKind}
    (hkind : ∀ typeName byRef, kind = .struct typeName byRef →
      ∃ decl, Lower env height bound decl ∧ decl.name = typeName) :
    Succeeds env s level (loadOp slice kind) fun _ => True := by
  cases kind with
  | address => exact (Succeeds.helper (by omega) entered_loadAddress).bind fun _ _ => .pure trivial
  | struct typeName byRef =>
    obtain ⟨decl, hdecl, rfl⟩ := hkind typeName byRef rfl
    cases byRef with
    | false =>
      exact (Succeeds.used_lower hs hdecl hlevel (p := .codec .reader) (by decide)).bind
        fun _ _ => .pure trivial
    | true => exact .callUsed_lower hs hdecl hlevel (.codec .readerNotMut) (by decide)
  | _ => exact .pure trivial

include hs hlevel in
theorem loadOptional_succeeds {slice : Target.Expr} {kind : OpKind}
    (hkind : ∀ typeName byRef, kind = .struct typeName byRef →
      ∃ decl, Lower env height bound decl ∧ decl.name = typeName) :
    Succeeds env s level (loadOptional slice kind) fun _ => True := by
  unfold loadOptional
  split
  · next typeName =>
    obtain ⟨decl, hdecl, rfl⟩ := hkind typeName false rfl
    exact (Succeeds.used_lower hs hdecl hlevel (p := .codec .readerOpt) (by decide)).bind
      fun _ _ => .pure trivial
  · refine (loadOp_succeeds hs hlevel hkind).bind fun loaded _ => ?_
    split
    · next typeName byRef _ =>
      obtain ⟨decl, hdecl, rfl⟩ := hkind typeName byRef rfl
      exact (Succeeds.callUsed_lower hs hdecl hlevel .asOptional (by decide)).bind
        fun _ _ => .pure trivial
    · exact .pure trivial

include hs hlevel in
theorem loadField_succeeds {slice pattern : Target.Expr} {op : Op}
    (hop : ∀ typeName byRef, op.kind = .struct typeName byRef →
      ∃ decl, Lower env height bound decl ∧ decl.name = typeName) :
    Succeeds env s level (loadField slice op pattern) fun _ => True := by
  unfold loadField
  split
  · exact (Succeeds.helper (by omega) entered_emptySlice).bind fun _ _ => .pure trivial
  · split
    · exact (loadOptional_succeeds hs hlevel hop).bind fun _ _ => .pure trivial
    · exact (loadOp_succeeds hs hlevel hop).bind fun _ _ => .pure trivial

include hl hs hr hlevel in
theorem readOps_succeeds {slice : Target.Expr} {ops : List Op}
    (hops : ∀ op ∈ ops, op ∈ r.plan.root.ops) :
    Succeeds env s level (readOps r slice ops) fun _ => True := by
  induction ops with
  | nil => exact .pure trivial
  | cons op ops ih =>
    obtain ⟨hop, hops⟩ := List.forall_mem_cons.1 hops
    refine .read_bind (fieldPattern_reads hl hr hop) fun pattern _ => ?_
    refine (loadField_succeeds hs hlevel (hr.nested op hop)).bind fun loaded _ => ?_
    exact (ih hops).bind fun _ _ => .pure trivial

include hl hs hr hlevel in
theorem readChain_succeeds {limit generation : Nat} {chain : Chain}
    (hops : ∀ op ∈ chain.ops, op ∈ r.plan.root.ops) :
    Succeeds env s level (readChain r limit generation chain) fun _ => True := by
  induction chain generalizing limit generation with
  | last ops =>
    refine readOps_succeeds hl hs hr hlevel fun op hop => hops op ?_
    simpa [Chain.ops, Chain.cells] using List.mem_of_mem_take hop
  | link ops next ih =>
    have hsplit : ∀ op, op ∈ ops ∨ op ∈ next.ops → op ∈ r.plan.root.ops := fun op hop =>
      hops op (by simpa [Chain.ops, Chain.cells] using hop)
    refine (readOps_succeeds hl hs hr hlevel fun op hop =>
      hsplit op (.inl (List.mem_of_mem_take hop))).bind fun own _ => ?_
    split
    · exact .pure trivial
    · exact (ih fun op hop => hsplit op (.inr hop)).bind fun _ _ => .pure trivial

include hl hs hr hlevel in
theorem readerItem_succeeds {name : String} {bounced inline : Bool} :
    Succeeds env s level (readerItem r name bounced inline) (·.Defines name) := by
  refine .read_bind (shape_reads hl hr bounced) fun shape _ => ?_
  refine (readChain_succeeds hl hs hr hlevel fun _ h => h).bind fun body _ => .pure ?_
  simp

/-! What follows depends on other functions of the same record. -/

include hl hr in
theorem writerCellItem_succeeds {inline : Bool}
    (hwriter : s.Offers (Name.writer r.name) (4 * bound + 1)) :
    Succeeds env s (4 * bound + 2 + 2) (writerCellItem r inline)
      (·.Defines (Name.writerCell r.name)) := by
  refine .read_bind (shape_reads hl hr false) fun shape _ => ?_
  exact (Succeeds.callUsed hwriter (by omega)).bind fun _ _ => .pure (by simp)

include hl hr in
theorem readerNotMutItem_succeeds {inline : Bool}
    (hreader : s.Offers (Name.reader r.name) (4 * bound + 1)) :
    Succeeds env s (4 * bound + 2 + 2) (readerNotMutItem r inline)
      (·.Defines (Name.readerNotMut r.name)) := by
  refine .read_bind (shape_reads hl hr false) fun shape _ => ?_
  exact (Succeeds.used hreader (by omega)).bind fun _ _ => .pure (by simp)

theorem isSmall_reads : Reads env r.isSmall fun _ => True := fun _ => ⟨_, rfl, trivial⟩

include hl hs hr in
theorem emitWriter_delivers (force : Bool) (hwriter : s.Offers (Name.writer r.name) (4 * bound + 1))
    (hcell : s.Offers (Name.writerCell r.name) (4 * bound + 2)) :
    Delivers env s [Name.writer r.name, Name.writerCell r.name] (emitWriter r force)
      fun _ => True := by
  refine .read_bind isSmall_reads fun small _ => ?_
  refine .define_bind hwriter (writerItem_succeeds hl hs hr (by omega)) ?_
  exact .define hcell (writerCellItem_succeeds hl hr hwriter)

include hl hs hr in
theorem emitReader_delivers (force : Bool) (hreader : s.Offers (Name.reader r.name) (4 * bound + 1))
    (hnotMut : s.Offers (Name.readerNotMut r.name) (4 * bound + 2)) :
    Delivers env s [Name.reader r.name, Name.readerNotMut r.name] (emitReader r force)
      fun _ => True := by
  refine .read_bind isSmall_reads fun small _ => ?_
  refine .define_bind hreader (readerItem_succeeds hl hs hr (by omega)) ?_
  exact .define hnotMut (readerNotMutItem_succeeds hl hr hreader)

include hl hs hr in
theorem emitBouncedReader_delivers (force : Bool)
    (hbounced : s.Offers (Name.readerBounced r.name) (4 * bound + 1)) :
    Delivers env s [Name.readerBounced r.name] (emitBouncedReader r force) fun _ => True := by
  refine .read_bind isSmall_reads fun small _ => ?_
  exact .define hbounced (readerItem_succeeds hl hs hr (by omega))

end Codecs

section Optional

variable {r : Record} (h : s.OffersRecord height r.name)

include h

theorem writerOptItem_succeeds : Succeeds env s (4 * height r.name + 2 + 2) (writerOptItem r)
    (·.Defines (Name.writerOpt r.name)) := by
  refine (Succeeds.used_own h (p := .codec .writer) (q := .codec .writerOpt) (by decide)
    (by decide)).bind fun writer _ => ?_
  refine (Succeeds.used_own h (p := .notNull) (q := .codec .writerOpt) (by decide)
    (by decide)).bind fun unbox _ => .pure ?_
  simp

theorem writerCellOptItem_succeeds : Succeeds env s (4 * height r.name + 3 + 2) (writerCellOptItem r)
    (·.Defines (Name.writerCellOpt r.name)) := by
  refine (Succeeds.used_own h (p := .codec .writerCell) (q := .codec .writerCellOpt) (by decide)
    (by decide)).bind fun writer _ => ?_
  refine (Succeeds.used_own h (p := .notNull) (q := .codec .writerCellOpt) (by decide)
    (by decide)).bind fun unbox _ => .pure ?_
  simp

theorem readerOptItem_succeeds : Succeeds env s (4 * height r.name + 2 + 2) (readerOptItem r)
    (·.Defines (Name.readerOpt r.name)) := by
  refine (Succeeds.used_own h (p := .codec .reader) (q := .codec .readerOpt) (by decide)
    (by decide)).bind fun reader _ => ?_
  refine (Succeeds.used_own h (p := .asOptional) (q := .codec .readerOpt) (by decide)
    (by decide)).bind fun box _ => .pure ?_
  simp

theorem readerCellOptItem_succeeds : Succeeds env s (4 * height r.name + 3 + 2) (readerCellOptItem r)
    (·.Defines (Name.readerCellOpt r.name)) := by
  refine (Succeeds.used_own h (p := .codec .readerNotMut) (q := .codec .readerCellOpt) (by decide)
    (by decide)).bind fun reader _ => ?_
  refine (Succeeds.used_own h (p := .asOptional) (q := .codec .readerCellOpt) (by decide)
    (by decide)).bind fun box _ => .pure ?_
  simp

theorem emitOptionalCodecs_delivers : Delivers env s [Name.writerOpt r.name, Name.writerCellOpt r.name,
    Name.readerOpt r.name, Name.readerCellOpt r.name] (emitOptionalCodecs r) fun _ => True := by
  refine .define_bind (h (.codec .writerOpt) (by decide)) (writerOptItem_succeeds h) ?_
  refine .define_bind (h (.codec .writerCellOpt) (by decide)) (writerCellOptItem_succeeds h) ?_
  refine .define_bind (h (.codec .readerOpt) (by decide)) (readerOptItem_succeeds h) ?_
  exact .define (h (.codec .readerCellOpt) (by decide)) (readerCellOptItem_succeeds h)

end Optional

/-! ### Conversions -/

section Conversions

variable (hl : env.program.types.Layered height top) (hs : s.Serves env.program.types height)
  (hword : ∀ decl ∈ env.program.types.structs, decl.fields.length < UInt64.size) {decl : TypeDecl}

/-- The views of a record of the table, whose variables a machine word counts. -/
structure RecordView.Plain (env : Env) (decl : TypeDecl) (view : RecordView) : Prop where
  decl_eq : view.decl = decl
  leaves : view.leaves.length < UInt64.size
  fields : decl.fields.length < UInt64.size

theorem conversion_defines {name : String} {param result : Target.Ty} {body : List Target.Stmt} :
    (RecordView.conversion name param result body).Defines name := by
  simp [RecordView.conversion]

include hl in
theorem fieldPattern_reads' {f : Field} (hf : env.program.types.Data height bound f.ty) :
    Reads env (Generate.fieldPattern f) fun _ => True :=
  (Reads.unpack hl hf.declares _).mono fun _ _ => trivial

include hl in
theorem getterItem_succeeds {view : RecordView} {f : Field}
    (hf : env.program.types.Data height bound f.ty) :
    Succeeds env s level (view.getterItem f) (·.Defines (Name.getter view.name f.name)) := by
  refine .read_bind (Reads.representation hl hf.declares) fun result _ => ?_
  exact .read_bind (fieldPattern_reads' hl hf) fun value _ => .pure conversion_defines

theorem notNullItem_succeeds {view : RecordView} (hview : view.Plain env decl) (hlevel : 1 < level) :
    Succeeds env s level view.notNullItem (·.Defines (Name.notNull view.name)) := by
  unfold RecordView.notNullItem
  dsimp only
  split
  · exact .pure conversion_defines
  · exact (Succeeds.helper hlevel (Helper.entered_tupleDestroy hview.leaves)).bind
      fun destroy _ => .pure conversion_defines

theorem asOptionalItem_succeeds {view : RecordView} (hview : view.Plain env decl) (hlevel : 1 < level) :
    Succeeds env s level view.asOptionalItem (·.Defines (Name.asOptional view.name)) := by
  unfold RecordView.asOptionalItem
  dsimp only
  split
  · exact .pure conversion_defines
  · exact (Succeeds.helper hlevel (Helper.entered_tupleCreate hview.leaves)).bind
      fun create _ => .pure conversion_defines

include hl hs in
theorem tupleField_succeeds {f : Field} (hf : env.program.types.Data height bound f.ty)
    (hlevel : 4 * bound + 2 ≤ level) : Succeeds env s level (tupleField f) fun _ => True := by
  refine .read_bind (Reads.structOf hl hf) fun o ho => ?_
  cases o with
  | none => exact .of_reads (fieldPattern_reads' hl hf)
  | some nested =>
    have hnested := ho nested rfl
    dsimp only
    split
    · exact .callUsed_lower hs hnested hlevel .toOptTuple (by decide)
    · refine (Succeeds.used_lower hs hnested hlevel (p := .toTuple) (by decide)).bind fun name _ => ?_
      exact .read_bind (fieldPattern_reads' hl hf) fun _ _ => .pure trivial

include hl hs in
theorem untupleField_succeeds {f : Field} (hf : env.program.types.Data height bound f.ty)
    (hlevel : 4 * bound + 2 ≤ level) : Succeeds env s level (untupleField f) fun _ => True := by
  refine .read_bind (Reads.structOf hl hf) fun o ho => ?_
  cases o with
  | none => exact .pure trivial
  | some nested =>
    have hnested := ho nested rfl
    dsimp only
    split
    · exact .callUsed_lower hs hnested hlevel .fromOptTuple (by decide)
    · exact .callUsed_lower hs hnested hlevel .fromTuple (by decide)

include hs hword in
theorem fromExternalValue_succeeds {nested : TypeDecl} (hnested : Lower env height bound nested)
    (hlevel : 4 * bound + 2 ≤ level) {optional : Bool} {value : Target.Expr} :
    Succeeds env s level (fromExternalValue nested optional value) fun _ => True := by
  unfold fromExternalValue
  split
  · exact .callUsed_lower hs hnested hlevel .fromOptExternal (by decide)
  · refine (Succeeds.used_lower hs hnested hlevel (p := .fromExternal) (by decide)).bind
      fun convert _ => ?_
    split
    · exact .pure trivial
    · have hfields := Helper.entered_tupleDestroy (hword nested hnested.mem)
      exact (Succeeds.helper (by omega) hfields).bind fun destroy _ => .pure trivial

theorem verifiedAddress_succeeds {value : Target.Expr} (hlevel : 1 < level) :
    Succeeds env s level (verifiedAddress ty value) fun _ => True :=
  (Succeeds.callHelper hlevel entered_verifyAddress).bind fun _ _ => .pure trivial

include hl hs hword in
theorem fromOutside_succeeds (hty : env.program.types.Data height bound ty)
    (hlevel : 4 * bound + 2 ≤ level) {value : Target.Expr} :
    Succeeds env s level (fromOutside ty value) fun _ => True := by
  refine .read_bind (Reads.structOf hl hty) fun o ho => ?_
  cases o with
  | some nested => exact fromExternalValue_succeeds hs hword (ho nested rfl) hlevel
  | none =>
    refine .read_bind (Reads.primitiveOf hty) fun kind _ => ?_
    split
    · exact verifiedAddress_succeeds (by omega)
    · exact .pure trivial

section Items

variable {view : RecordView} (hview : view.Plain env decl)
  (hfields : ∀ f ∈ decl.fields, env.program.types.Data height bound f.ty)
  (hlevel : 4 * bound + 2 ≤ level)

include hl hs hview hfields hlevel

theorem toTupleItem_succeeds :
    Succeeds env s level view.toTupleItem (·.Defines (Name.toTuple view.name)) := by
  unfold RecordView.toTupleItem
  dsimp only
  split
  · exact .pure conversion_defines
  · have hitems := Succeeds.mapM (l := view.decl.fields) fun f hf =>
      tupleField_succeeds hl hs (hfields f (hview.decl_eq ▸ hf)) hlevel
    refine hitems.bind fun items hlength => ?_
    have hcreate : Helper.Entered (Helper.tupleCreateName items.length) :=
      Helper.entered_tupleCreate (hlength ▸ hview.decl_eq ▸ hview.fields)
    exact (Succeeds.helper (by omega) hcreate).bind fun create _ => .pure conversion_defines

theorem fromTupleItem_succeeds :
    Succeeds env s level view.fromTupleItem (·.Defines (Name.fromTuple view.name)) := by
  unfold RecordView.fromTupleItem
  dsimp only
  split
  · exact .pure conversion_defines
  · have hdestroy : Helper.Entered (Helper.tupleDestroyName view.decl.fields.length) :=
      Helper.entered_tupleDestroy (hview.decl_eq ▸ hview.fields)
    refine (Succeeds.helper (by omega) hdestroy).bind fun destroy _ => ?_
    have hitems := Succeeds.mapM (l := view.decl.fields) fun f hf =>
      untupleField_succeeds hl hs (hfields f (hview.decl_eq ▸ hf)) hlevel
    exact hitems.bind fun items _ => .pure conversion_defines

theorem toExternalItem_succeeds :
    Succeeds env s level view.toExternalItem (·.Defines (Name.toExternal view.name)) := by
  have hclose : ∀ body : List Target.Stmt, Succeeds env s level
      (do return RecordView.conversion (Name.toExternal view.name) view.ty (← externalTy view.decl) body)
      (·.Defines (Name.toExternal view.name)) := fun body =>
    .read_bind (Reads.externalTy hl fun f hf => hfields f (hview.decl_eq ▸ hf))
      fun _ _ => .pure conversion_defines
  unfold RecordView.toExternalItem
  dsimp only
  split
  · exact hclose _
  · have hitems := Succeeds.mapM (l := view.decl.fields) fun f hf =>
      tupleField_succeeds hl hs (hfields f (hview.decl_eq ▸ hf)) hlevel
    exact hitems.bind fun items _ => hclose _

include hword in
theorem fromExternalItem_succeeds :
    Succeeds env s level view.fromExternalItem (·.Defines (Name.fromExternal view.name)) := by
  have hclose : ∀ body : List Target.Stmt, Succeeds env s level
      (do return RecordView.conversion (Name.fromExternal view.name) (← externalTy view.decl) view.ty body)
      (·.Defines (Name.fromExternal view.name)) := fun body =>
    .read_bind (Reads.externalTy hl fun f hf => hfields f (hview.decl_eq ▸ hf))
      fun _ _ => .pure conversion_defines
  unfold RecordView.fromExternalItem
  dsimp only
  split
  · exact hclose _
  · have hitems := Succeeds.mapM (f := fun f : Field => fromOutside f.ty (fieldVar f))
      (l := view.decl.fields) fun f hf =>
        fromOutside_succeeds hl hs hword (hfields f (hview.decl_eq ▸ hf)) hlevel
    exact hitems.bind fun items _ => hclose _

end Items

section Own

variable {view : RecordView} (h : s.OffersRecord height view.name)

include h

theorem toOptTupleItem_succeeds : Succeeds env s (4 * height view.name + 2 + 2) view.toOptTupleItem
    (·.Defines (Name.toOptTuple view.name)) := by
  refine (Succeeds.used_own h (p := .toTuple) (q := .toOptTuple) (by decide) (by decide)).bind
    fun convert _ => ?_
  exact (Succeeds.used_own h (p := .notNull) (q := .toOptTuple) (by decide) (by decide)).bind
    fun unbox _ => .pure conversion_defines

theorem fromOptTupleItem_succeeds : Succeeds env s (4 * height view.name + 2 + 2)
    view.fromOptTupleItem (·.Defines (Name.fromOptTuple view.name)) := by
  refine (Succeeds.used_own h (p := .fromTuple) (q := .fromOptTuple) (by decide) (by decide)).bind
    fun convert _ => ?_
  exact (Succeeds.used_own h (p := .asOptional) (q := .fromOptTuple) (by decide) (by decide)).bind
    fun close _ => .pure conversion_defines

theorem toOptExternalItem_succeeds : Succeeds env s (4 * height view.name + 3 + 2)
    view.toOptExternalItem (·.Defines (Name.toOptExternal view.name)) :=
  (Succeeds.used_own h (p := .toOptTuple) (q := .toOptExternal) (by decide) (by decide)).bind
    fun convert _ => .pure conversion_defines

theorem fromOptExternalItem_succeeds (hview : view.Plain env decl) :
    Succeeds env s (4 * height view.name + 2 + 2) view.fromOptExternalItem
      (·.Defines (Name.fromOptExternal view.name)) := by
  unfold RecordView.fromOptExternalItem
  dsimp only
  split
  · exact .pure conversion_defines
  · have hdestroy : Helper.Entered (Helper.tupleDestroyName view.decl.fields.length) :=
      Helper.entered_tupleDestroy (hview.decl_eq ▸ hview.fields)
    refine (Succeeds.helper (by omega) hdestroy).bind fun destroy _ => ?_
    refine (Succeeds.used_own h (p := .fromExternal) (q := .fromOptExternal) (by decide)
      (by decide)).bind fun convert _ => ?_
    exact (Succeeds.used_own h (p := .asOptional) (q := .fromOptExternal) (by decide)
      (by decide)).bind fun close _ => .pure conversion_defines

end Own

/-- The functions of the conversions that are emitted, besides getters. -/
def conversionParts : List Name.Part :=
  [.tensorCast, .notNull, .asOptional, .toTuple, .toOptTuple, .fromTuple, .fromOptTuple, .toExternal,
    .toOptExternal, .fromExternal, .fromOptExternal]

include hl hs hword in
theorem conversions_deliver {view : RecordView} (hview : view.Plain env decl)
    (h : s.OffersRecord height decl.name)
    (hfields : ∀ f ∈ decl.fields, env.program.types.Data height (height decl.name) f.ty)
    (hgetters : ∀ f ∈ decl.fields, s.Offers (Name.getter decl.name f.name) (4 * height decl.name)) :
    Delivers env s (decl.fields.flatMap (fun f => [Name.getter decl.name f.name]) ++
      conversionParts.map (·.name decl.name)) (do
        emitGetters view
        define (.type view.name) (return view.tensorCastItem)
        define (.type view.name) view.notNullItem
        define (.type view.name) view.asOptionalItem
        define (.type view.name) view.toTupleItem
        define (.type view.name) view.toOptTupleItem
        define (.type view.name) view.fromTupleItem
        define (.type view.name) view.fromOptTupleItem
        define (.type view.name) view.toExternalItem
        define (.type view.name) view.toOptExternalItem
        define (.type view.name) view.fromExternalItem
        define (.type view.name) view.fromOptExternalItem) fun _ => True := by
  obtain rfl := hview.decl_eq
  have hget : Delivers env s (view.decl.fields.flatMap fun f => [Name.getter view.decl.name f.name])
      (emitGetters view) fun _ => True :=
    .forM fun f hf => .define (hgetters f hf) (getterItem_succeeds hl (hfields f hf))
  refine hget.bind fun _ _ => ?_
  refine .define_bind (h .tensorCast (by decide)) (.pure (Target.Item.defines_asm.2 rfl)) ?_
  refine .define_bind (h .notNull (by decide)) (notNullItem_succeeds hview (by omega)) ?_
  refine .define_bind (h .asOptional (by decide)) (asOptionalItem_succeeds hview (by omega)) ?_
  refine .define_bind (h .toTuple (by decide)) (toTupleItem_succeeds hl hs hview hfields (by omega)) ?_
  refine .define_bind (h .toOptTuple (by decide)) (toOptTupleItem_succeeds h) ?_
  refine .define_bind (h .fromTuple (by decide)) (fromTupleItem_succeeds hl hs hview hfields (by omega)) ?_
  refine .define_bind (h .fromOptTuple (by decide)) (fromOptTupleItem_succeeds h) ?_
  refine .define_bind (h .toExternal (by decide)) (toExternalItem_succeeds hl hs hview hfields (by omega)) ?_
  refine .define_bind (h .toOptExternal (by decide)) (toOptExternalItem_succeeds h) ?_
  refine .define_bind (h .fromExternal (by decide))
    (fromExternalItem_succeeds hl hs hword hview hfields (by omega)) ?_
  exact .define (h .fromOptExternal (by decide)) (fromOptExternalItem_succeeds h hview)

end Conversions

end Generate

end CellCompiler
