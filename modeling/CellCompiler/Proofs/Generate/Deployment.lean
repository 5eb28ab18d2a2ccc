import CellCompiler.Proofs.Codec.Contract
import CellCompiler.Proofs.Generate.Data
import CellCompiler.Proofs.Plan.Acceptance

/-!
# Generators of records and contracts succeed

A contract without code of its own is emitted with the codecs of its state and of its arguments, with
what makes, loads and stores its state, and with a router that takes no message. None of these
generators fails, nor does that of a record, if the schedule has what they enter.

* `Name.Origin.rank` ranks what data is emitted as;
* `recordOrigins`, `childOrigins` and `contractOrigins` list it, in the order in which it is entered;
* `emitStruct_delivers`, `emitChildSupport_delivers` and `emitContract_delivers` are the main results.
-/

namespace CellCompiler

open Plan (Op OpOf)

namespace Name.Origin

/-- The name, if there is one. -/
def text (o : Origin) : String := o.name.toOption.getD ""

/-- The rank of a function: entry points are above all contracts. -/
def rank (height : String → Nat) (top : Nat) : Origin → Nat
  | member type (.part p) => 4 * height type + p.level
  | member type _ => 4 * height type
  | initCodec contract c => 4 * height contract + c.level
  | recvInternal => 4 * top + 3
  | _ => 0

end Name.Origin

/-- There is data only: no functions, handlers or statements, and no value for a field to start with. -/
structure TypeTable.DataOnly (table : TypeTable) : Prop where
  functions : table.functions.values = []
  methods : ∀ decl ∈ table.types.values, decl.functions.values = []
  receivers : ∀ decl ∈ table.types.values, decl.receivers = []
  defaults : ∀ decl ∈ table.types.values, ∀ f ∈ decl.fields, f.default = none
  initBody : ∀ decl ∈ table.types.values, decl.initBody = []

/-- The functions are due under their ranks. -/
def Schedule.OffersAll (s : Schedule) (height : String → Nat) (top : Nat) (origins : List Name.Origin) :
    Prop :=
  ∀ o ∈ origins, s.Offers o.text (o.rank height top)

/-- A machine word counts the variables that a record is bound to. -/
def TypeTable.Counted (table : TypeTable) : Prop :=
  ∀ decl ∈ table.structs, ∀ sh, Layout.shape table (.plain decl.name) "v" = .ok sh →
    sh.leaves.length < UInt64.size

namespace Generate

open Name (Origin)
open Plans (PlannedProgram Stores storedFields storedParams)

variable {env : Env} {s : Schedule} {height : String → Nat} {top bound level : Nat}

/-! ### What is emitted -/

/-- The codecs of a record. -/
def codecParts (decl : TypeDecl) : List Name.Part :=
  ([.codec .writer, .codec .writerCell, .codec .reader, .codec .readerNotMut] : List Name.Part) ++
    (if decl.header.isSome then [Name.Part.codec .readerBounced] else []) ++
    ([.codec .writerOpt, .codec .writerCellOpt, .codec .readerOpt, .codec .readerCellOpt] : List Name.Part)

/-- What a record is emitted as. -/
def recordOrigins (decl : TypeDecl) : List Origin :=
  (codecParts decl).map (fun p => Origin.member decl.name (.part p)) ++
    (decl.fields.map (fun f => Origin.member decl.name (.getter f.name)) ++
      conversionParts.map fun p => Origin.member decl.name (.part p))

/-- What deploys a contract. -/
def childOrigins (contract : TypeDecl) : List Origin :=
  [.initCodec contract.name .writer, .initCodec contract.name .writerCell,
    .initCodec contract.name .reader, .initCodec contract.name .readerNotMut,
    .member contract.name (.part .initChild)]

/-- What all contracts share. -/
def sharedOrigins (table : TypeTable) : List Origin :=
  table.structs.flatMap recordOrigins ++ table.contracts.flatMap childOrigins

/-- The functions of a contract that have its name. -/
def contractParts : List Name.Part :=
  [.codec .writer, .codec .writerCell, .codec .reader, .codec .readerNotMut, .contractInit,
    .contractLoad, .contractStore, .routerInternal]

/-- What a contract without code of its own is emitted as. -/
def contractOrigins (contract : TypeDecl) : List Origin :=
  contractParts.map (fun p => Origin.member contract.name (.part p)) ++ [Origin.recvInternal]

theorem Delivers.of_eq {α : Type} {g : Gen α} {P : α → Prop} {names names' : List String}
    (h : Delivers env s names g P) (heq : names = names') : Delivers env s names' g P := heq ▸ h

/-! ### Records with plans -/

/-- A record settles as a record of the same type. -/
theorem struct_of_settles {op op' : Op} (h : op.Settles op') {typeName : String} {byRef : Bool}
    (hkind : op'.kind = .struct typeName byRef) : ∃ byRef', op.kind = .struct typeName byRef' := by
  rcases h with rfl | rfl
  · exact ⟨byRef, hkind⟩
  · obtain ⟨name, kind, optional⟩ := op
    cases kind with
    | struct inner byRef' =>
      obtain ⟨rfl, -⟩ : inner = typeName ∧ true = byRef := by
        simpa [Op.behindReference, Plan.OpKind.behindReference] using hkind
      exact ⟨byRef', rfl⟩
    | _ => simp [Op.behindReference, Plan.OpKind.behindReference] at hkind

/-- A record that is planned stores fields of data. -/
theorem plain_of_stores (hw : env.program.types.WellNamed)
    {header : Option Plan.Header} {fields : List (String × TypeRef × Option String)} {r : Record}
    (h : Stores env.program.types env.program.plans header fields r.plan)
    (hfields : r.fields = fields.map fun f => (f.1, f.2.1))
    (hdata : ∀ f ∈ fields, env.program.types.Data height bound f.2.1) :
    r.Plain env height bound := by
  have hop : ∀ op ∈ r.plan.root.ops, ∃ f ∈ fields, ∃ op',
      OpOf env.program.types f.1 f.2.2 f.2.1 op' ∧ op'.Settles op := by
    rw [h.sound.flat]
    exact List.forall_mem_of_forall₂ (P := (· ∈ fields)) h.settled
      (fun f op hop hf => ⟨f, hf, hop⟩) fun _ hf => hf
  refine ⟨?_, fun op hmem => ?_, fun op hmem typeName byRef hkind => ?_⟩
  · rw [hfields]
    exact List.forall_mem_map.2 hdata
  · obtain ⟨f, hf, op', hof, hs⟩ := hop op hmem
    have hfield : (op.name, f.2.1) ∈ r.fields := by
      rw [hs.name_eq, hof.name_eq, hfields]
      exact List.mem_map_of_mem hf
    obtain ⟨ty, hty⟩ : ∃ ty, r.fields.lookup op.name = some ty :=
      Dict.mem_keys_iff (d := ⟨r.fields⟩).1 (List.mem_map_of_mem hfield)
    exact ⟨ty, mem_of_lookup hty, hty⟩
  · obtain ⟨f, hf, op', hof, hs⟩ := hop op hmem
    obtain ⟨byRef', hkind'⟩ := struct_of_settles hs hkind
    obtain ⟨optional, hty⟩ := hof.struct_named hw hkind'
    obtain ⟨decl, hdecl, hlike⟩ := hof.struct hw hkind'
    exact ⟨decl, lower_of_data hw (hty ▸ hdata f hf) hdecl hlike, hw.name_eq hdecl⟩

section Planned

variable (hl : env.program.types.Layered height top)
  (hplanned : PlannedProgram env.program.types env.program.plans)

include hl hplanned

/-- The record of a declared type. -/
theorem ofDecl_reads {decl : TypeDecl} (hdecl : decl ∈ env.program.types.types.values)
    (hs : decl.isStructLike = true) : Reads env (Record.ofDecl decl) fun r =>
      r.name = decl.name ∧ r.Plain env height (height decl.name) := by
  intro d
  obtain ⟨r, hrun⟩ : ∃ r, Record.ofDecl decl env d = .ok r d := by
    obtain ⟨plan, hplan⟩ := hplanned.types decl hdecl hs
    simp [Record.ofDecl, run_bind, run_read, hplan]
  have hr := (ofDecl_eq_ok hrun).2
  have hstores := hr.stores hl.wellNamed hplanned (hl.wellNamed.get?_name hdecl)
  refine ⟨r, hrun, hr.name_eq, plain_of_stores hl.wellNamed hstores ?_ ?_⟩
  · rw [hr.fields_eq, storedFields, List.map_map]
    rfl
  · exact List.forall_mem_map.2 (hl.fields decl hdecl hs)

/-- The record of the arguments of a contract. -/
theorem ofInitArgs_reads {contract : TypeDecl} (hc : contract ∈ env.program.types.contracts) :
    Reads env (Record.ofInitArgs contract) fun r =>
      r.name = Name.initArgs contract.name ∧ r.Plain env height (height contract.name) := by
  intro d
  obtain ⟨r, hrun⟩ : ∃ r, Record.ofInitArgs contract env d = .ok r d := by
    obtain ⟨plan, hplan⟩ := hplanned.initArgs contract hc
    simp [Record.ofInitArgs, run_bind, run_read, hplan]
  have hr := (ofInitArgs_eq_ok hrun).2
  obtain ⟨contract', hc', hname, hstores⟩ := hplanned.storesArgs _ _ hr.plan_eq
  obtain rfl : contract' = contract := by
    have hget := hl.wellNamed.get?_name (TypeTable.mem_contracts.1 hc').1
    rw [hname, hl.wellNamed.get?_name (TypeTable.mem_contracts.1 hc).1] at hget
    exact (Option.some.inj hget).symm
  refine ⟨r, hrun, hr.name_eq, plain_of_stores hl.wellNamed hstores ?_ ?_⟩
  · rw [hr.fields_eq, storedParams, List.map_map]
    rfl
  · rw [hl.contract_eq contract' hc]
    exact List.forall_mem_map.2 (hl.params contract' hc)

end Planned

/-! ### Records -/

theorem length_fields_lt (hl : env.program.types.Layered height top)
    (hcount : env.program.types.Counted) :
    ∀ decl ∈ env.program.types.structs, decl.fields.length < UInt64.size := by
  intro decl hdecl
  obtain ⟨hmem, hstruct⟩ := TypeTable.mem_structs.1 hdecl
  have hget := hl.wellNamed.get?_name hmem
  obtain ⟨sh, hsh⟩ : ∃ sh, Layout.shapeWith env.program.types {} (.plain decl.name) "v" = .ok sh :=
    hl.shapeWith_ok (.named hget) {} "v"
  exact (Layout.length_fields_le hget (TypeDecl.isStructLike_of_isStruct hstruct) hsh).trans_lt
    (hcount decl hdecl sh hsh)

/-- The views of a record of the table. -/
theorem recordView_reads (hl : env.program.types.Layered height top)
    (hcount : env.program.types.Counted) {decl : TypeDecl} (hdecl : decl ∈ env.program.types.structs) :
    Reads env (recordView decl) (RecordView.Plain env decl) := by
  have hty : env.program.types.Declares (.plain decl.name) :=
    .named (hl.wellNamed.get?_name (TypeTable.mem_structs.1 hdecl).1)
  refine Reads.table.bind fun types htypes => ?_
  subst htypes
  refine (Reads.representation hl hty).bind fun ty _ => ?_
  refine (Reads.unpack hl hty _).bind fun pattern _ => ?_
  refine (Reads.ofExcept (hl.shapeWith_ok hty _ _)).bind fun sh hsh =>
    .pure ⟨rfl, ?_, length_fields_lt hl hcount decl hdecl⟩
  rw [List.length_map]
  exact hcount decl hdecl sh hsh

section Records

variable (hl : env.program.types.Layered height top)
  (hplanned : PlannedProgram env.program.types env.program.plans)
  (hs : s.Serves env.program.types height) {decl : TypeDecl} (hdecl : decl ∈ env.program.types.structs)
  (ho : s.OffersAll height top (recordOrigins decl))

include hl hplanned hs hdecl ho

theorem emitCodecs_delivers : Delivers env s ((codecParts decl).map (·.name decl.name))
    (emitCodecs decl) fun _ => True := by
  obtain ⟨hmem, hstruct⟩ := TypeTable.mem_structs.1 hdecl
  refine .read_bind (ofDecl_reads hl hplanned hmem (TypeDecl.isStructLike_of_isStruct hstruct))
    fun r ⟨hname, hr⟩ => ?_
  have hown := hs decl hdecl
  have hbounced : decl.header.isSome = true →
      s.Offers (Name.readerBounced decl.name) (4 * height decl.name + 1) := fun hheader =>
    ho (.member decl.name (.part (.codec .readerBounced))) (by simp [recordOrigins, codecParts, hheader])
  rw [← hname] at hr hown hbounced ⊢
  have hwriter := emitWriter_delivers hl hs hr false (hown (.codec .writer) (by decide))
    (hown (.codec .writerCell) (by decide))
  have hreader := emitReader_delivers hl hs hr false (hown (.codec .reader) (by decide))
    (hown (.codec .readerNotMut) (by decide))
  have hoptional : Delivers env s _ (emitOptionalCodecs r) fun _ => True :=
    emitOptionalCodecs_delivers hown
  unfold codecParts
  cases hheader : decl.header.isSome with
  | false => exact hwriter.bind fun _ _ => hreader.bind fun _ _ => hoptional
  | true =>
    have hcut := emitBouncedReader_delivers hl hs hr false (hbounced hheader)
    exact hwriter.bind fun _ _ => hreader.bind fun _ _ => hcut.bind fun _ _ => hoptional

/-- **Records are emitted**, with all that the schedule has for them. -/
theorem emitStruct_delivers (hcount : env.program.types.Counted) :
    Delivers env s ((recordOrigins decl).map (·.text)) (emitStruct decl) fun _ => True := by
  obtain ⟨hmem, hstruct⟩ := TypeTable.mem_structs.1 hdecl
  have hgetters : ∀ f ∈ decl.fields,
      s.Offers (Name.getter decl.name f.name) (4 * height decl.name) := by
    intro f hf
    refine ho (.member decl.name (.getter f.name)) ?_
    exact List.mem_append_right _ (List.mem_append_left _ (List.mem_map_of_mem hf))
  have hfields := hl.fields decl hmem (TypeDecl.isStructLike_of_isStruct hstruct)
  refine ((emitCodecs_delivers hl hplanned hs hdecl ho).bind fun _ _ =>
    .read_bind (recordView_reads hl hcount hdecl) fun view hview =>
      conversions_deliver hl hs (length_fields_lt hl hcount) hview (hs decl hdecl) hfields hgetters).of_eq ?_
  simp only [recordOrigins, List.map_append, List.map_map, ← List.map_eq_flatMap]
  rfl

end Records

/-! ### Contracts -/

theorem withBindings_reads {bindings : List Binding}
    (hl : env.program.types.Layered height top)
    (h : ∀ b ∈ bindings, env.program.types.Declares b.2) (signature : Target.Signature) :
    Reads env (withBindings signature bindings) fun out => out.name = signature.name := by
  induction bindings generalizing signature with
  | nil => exact .pure rfl
  | cons b bindings ih =>
    obtain ⟨hb, hbindings⟩ := List.forall_mem_cons.1 h
    refine (Reads.representation hl hb).bind fun ty _ => ?_
    exact ih hbindings (signature.param ty b.1)

theorem prologue_reads {bindings : List Binding} (hl : env.program.types.Layered height top)
    (h : ∀ b ∈ bindings, env.program.types.Declares b.2) :
    Reads env (prologue bindings) fun _ => True := by
  induction bindings with
  | nil => exact .pure trivial
  | cons b bindings ih =>
    obtain ⟨hb, hbindings⟩ := List.forall_mem_cons.1 h
    have hrest := ih hbindings
    unfold prologue
    refine (Reads.isUnpacked hl hb).bind fun unpacked _ => ?_
    cases unpacked with
    | false => exact hrest
    | true =>
      refine (Reads.unpack hl hb _).bind fun pattern _ => ?_
      exact hrest.bind fun _ _ => .pure trivial

section Contracts

variable (hl : env.program.types.Layered height top)
  (hplanned : PlannedProgram env.program.types env.program.plans)
  (hs : s.Serves env.program.types height) {contract : TypeDecl}
  (hc : contract ∈ env.program.types.contracts)

include hl hc in
theorem declares_initBindings :
    ∀ b ∈ initBindings contract, env.program.types.Declares b.2 :=
  List.forall_mem_map.2 fun p hp => (hl.params contract hc p hp).declares

include hl hc in
theorem declares_self : env.program.types.Declares (.plain contract.name) :=
  .named (hl.wellNamed.get?_name (TypeTable.mem_contracts.1 hc).1)

include hl hc in
theorem initChildItem_succeeds {rank : Nat}
    (hwriter : s.Offers (Name.writer (Name.initArgs contract.name)) rank) :
    Succeeds env s (rank + 1 + 2) (initChildItem contract) (·.Defines (Name.initChild contract.name)) := by
  refine (Succeeds.helper (by omega) entered_dictGetCode).bind fun getCode _ => ?_
  refine (Succeeds.used hwriter (by omega)).bind fun store _ => ?_
  refine .read_bind (withBindings_reads hl (declares_initBindings hl hc) _) fun signature hname => ?_
  exact .pure (by simp [hname])

include hl hplanned hs hc in
/-- **What deploys a contract is emitted.** -/
theorem emitChildSupport_delivers (ho : s.OffersAll height top (childOrigins contract)) :
    Delivers env s ((childOrigins contract).map (·.text)) (emitChildSupport contract)
      fun _ => True := by
  refine .read_bind (ofInitArgs_reads hl hplanned hc) fun r ⟨hname, hr⟩ => ?_
  have hoffers : ∀ c ∈ [Name.Codec.writer, .writerCell, .reader, .readerNotMut],
      s.Offers (c.name r.name) (4 * height contract.name + c.level) := fun c hmem =>
    hname ▸ ho (.initCodec contract.name c) (by
      revert c
      simp [childOrigins])
  have hchild := ho (.member contract.name (.part .initChild)) (by simp [childOrigins])
  have hwriter := emitWriter_delivers hl hs hr false (hoffers .writer (by decide))
    (hoffers .writerCell (by decide))
  have hreader := emitReader_delivers hl hs hr false (hoffers .reader (by decide))
    (hoffers .readerNotMut (by decide))
  refine (hwriter.bind fun _ _ => hreader.bind fun _ _ => .define hchild
    (initChildItem_succeeds hl hc (hname ▸ hoffers .writer (by decide)))).of_eq ?_
  rw [hname]
  rfl

/-! What a contract without code of its own consists of. -/

section State

variable (hdata : env.program.types.DataOnly)

include hl hc hdata

theorem initialState_succeeds :
    Succeeds env s level (initialState contract) fun _ => True := by
  have hmem := (TypeTable.mem_contracts.1 hc).1
  have hlike := TypeDecl.isStructLike_of_isContract (TypeTable.mem_contracts.1 hc).2
  unfold initialState
  split
  · exact .pure trivial
  · refine (Succeeds.mapM fun f hf => .of_reads ?_).bind fun values _ => .pure trivial
    unfold initialField
    rw [hdata.defaults contract hmem f hf]
    exact (Reads.view hl (hl.fields contract hmem hlike f hf).declares Layout.Shape.nulls "").mono
      fun _ _ => trivial

theorem initItem_succeeds :
    Succeeds env s level (initItem contract) (·.Defines (Name.contractInit contract.name)) := by
  have hbindings := declares_initBindings hl hc
  have hself := Reads.unpack hl (declares_self hl hc) Name.self
  unfold initItem
  rw [hdata.initBody contract (TypeTable.mem_contracts.1 hc).1]
  refine .read_bind (withBindings_reads hl hbindings _) fun signature hname => ?_
  refine .read_bind (prologue_reads hl hbindings) fun opened _ => ?_
  refine (initialState_succeeds hl hc hdata).bind fun initial _ => ?_
  refine .read_bind hself fun self _ => ?_
  refine (Succeeds.pure (P := fun _ => True) trivial).bind fun body _ => ?_
  have hlast : Reads env ((Scope.initOf contract.name).returned none) fun _ => True :=
    hself.mono fun _ _ => trivial
  refine .read_bind hlast fun last _ => .read_bind (.pure (P := fun _ => True) trivial) fun _ _ => ?_
  exact .read_bind (Reads.representation hl (declares_self hl hc)) fun ty _ => .pure (by simp [hname])

end State

include hl hc in
theorem loadArguments_reads (load : Target.Expr) :
    Reads env (loadArguments contract load) fun _ => True := by
  have hparams := hl.params contract hc
  unfold loadArguments
  cases hcases : contract.initParams with
  | nil => exact .pure trivial
  | cons p ps =>
    rw [hcases] at hparams
    have hdeclares : ∀ f ∈ (p :: ps).map fun p => (p.name, p.ty), env.program.types.Declares f.2 :=
      List.forall_mem_map.2 fun p hp => (hparams p hp).declares
    refine (Reads.ofTable (f := fun t => Layout.record t _ "args")
      (hl.record_ok hdeclares "args")).bind fun shape _ => ?_
    refine (Reads.mapM fun p hp => ?_).bind fun values _ => .pure trivial
    exact (Reads.unpack hl (hparams p hp).declares _).mono fun _ _ => trivial

include hl hc in
theorem loadItem_succeeds {rank : Nat} (hreader : s.Offers (Name.reader contract.name) rank)
    (hargs : s.Offers (Name.reader (Name.initArgs contract.name)) rank)
    (hinit : s.Offers (Name.contractInit contract.name) rank) :
    Succeeds env s (rank + 1 + 2) (loadItem contract) (·.Defines (Name.contractLoad contract.name)) := by
  refine (Succeeds.used hreader (by omega)).bind fun reader _ => ?_
  refine (Succeeds.used hargs (by omega)).bind fun argsReader _ => ?_
  refine (Succeeds.used hinit (by omega)).bind fun init _ => ?_
  refine .read_bind (loadArguments_reads hl hc _) fun arguments _ => ?_
  refine .read_bind (Reads.representation hl (declares_self hl hc)) fun ty _ => .pure ?_
  simp

include hl hc in
theorem storeItem_succeeds {rank : Nat} (hwriter : s.Offers (Name.writer contract.name) rank) :
    Succeeds env s (rank + 1 + 2) (storeItem contract) (·.Defines (Name.contractStore contract.name)) := by
  refine (Succeeds.used hwriter (by omega)).bind fun writer _ => ?_
  refine .read_bind (Reads.representation hl (declares_self hl hc)) fun ty _ => .pure ?_
  simp

include hl hc in
theorem routerItem_succeeds : Succeeds env s level (routerItem contract [] .internal)
    (·.Defines (Name.routerInternal contract.name)) := by
  have hbounced : Reads env (bounceStage []) fun _ => True := fun _ => ⟨_, rfl, trivial⟩
  have hbody : Reads env (routerBody (routes [] .internal)) fun _ => True := fun _ => ⟨_, rfl, trivial⟩
  unfold routerItem
  refine (Succeeds.pure (P := fun _ => True) trivial).bind fun _ _ => ?_
  refine .read_bind hbounced fun stage _ => .read_bind (.pure (P := fun _ => True) trivial) fun _ _ => ?_
  refine .read_bind hbody fun body _ => ?_
  exact .read_bind (Reads.representation hl (declares_self hl hc)) fun self _ => .pure (by simp)

theorem recvInternalItem_succeeds {rank : Nat}
    (hload : s.Offers (Name.contractLoad contract.name) rank)
    (hstore : s.Offers (Name.contractStore contract.name) rank) {lower : Nat} (hlower : lower ≤ rank)
    (hrouter : s.Offers (Name.routerInternal contract.name) lower) :
    Succeeds env s (rank + 1 + 2) (recvInternalItem contract) (·.Defines Name.recvInternal) := by
  refine (Succeeds.helper (by omega) entered_verifyAddress).bind fun verify _ => ?_
  refine (Succeeds.used hload (by omega)).bind fun load _ => ?_
  refine (Succeeds.used hstore (by omega)).bind fun store _ => ?_
  exact (Succeeds.used hrouter (by omega)).bind fun router _ => .pure (by simp)

/-! ### Whole modules -/

theorem functions_addHeader (r : Emission.Registry) (item : Target.Item) :
    (r.addHeader item).functions = r.functions := by
  unfold Emission.Registry.addHeader
  split <;> rfl

section Emission

variable (ho : s.OffersAll height top (contractOrigins contract))

include hl hc ho in
theorem offers_recvInternal : s.Offers Name.recvInternal (4 * height contract.name + 3) := by
  rw [hl.contract_eq contract hc]
  exact ho .recvInternal (List.mem_append_right _ (by simp))

include ho in
theorem offers_contractPart {p : Name.Part} (hp : p ∈ contractParts) :
    s.Offers (p.name contract.name) (4 * height contract.name + p.level) :=
  ho (.member contract.name (.part p)) (List.mem_append_left _ (List.mem_map_of_mem hp))

include hl hplanned hs hc ho in
theorem emitStateCodecs_delivers :
    Delivers env s [Name.writer contract.name, Name.writerCell contract.name,
      Name.reader contract.name, Name.readerNotMut contract.name] (emitStateCodecs contract)
      fun _ => True := by
  obtain ⟨hmem, hcontract⟩ := TypeTable.mem_contracts.1 hc
  have hlike := TypeDecl.isStructLike_of_isContract hcontract
  refine .read_bind (ofDecl_reads hl hplanned hmem hlike) fun r ⟨hname, hr⟩ => ?_
  have hown : ∀ c ∈ [Name.Codec.writer, .writerCell, .reader, .readerNotMut],
      s.Offers (c.name r.name) (4 * height contract.name + c.level) := fun c hmem =>
    hname ▸ offers_contractPart ho (p := .codec c) (by
      revert c
      decide)
  rw [← hname]
  exact (emitWriter_delivers hl hs hr false (hown .writer (by decide)) (hown .writerCell (by decide))).bind
    fun _ _ => emitReader_delivers hl hs hr false (hown .reader (by decide))
      (hown .readerNotMut (by decide))

variable (hdata : env.program.types.DataOnly)

include hl hc ho hdata in
theorem emitState_delivers
    (hargs : s.Offers (Name.reader (Name.initArgs contract.name)) (4 * height contract.name + 1)) :
    Delivers env s [Name.contractInit contract.name, Name.contractLoad contract.name,
      Name.contractStore contract.name] (emitState contract) fun _ => True := by
  have hwriter := offers_contractPart ho (p := .codec .writer) (by decide)
  have hreader := offers_contractPart ho (p := .codec .reader) (by decide)
  have hinit := offers_contractPart ho (p := .contractInit) (by decide)
  have hload := offers_contractPart ho (p := .contractLoad) (by decide)
  have hstore := offers_contractPart ho (p := .contractStore) (by decide)
  refine .define_bind hinit (initItem_succeeds hl hc hdata) ?_
  refine .define_bind hload (loadItem_succeeds hl hc hreader hargs hinit) ?_
  exact .define hstore (storeItem_succeeds hl hc hwriter)

include hl hc ho in
theorem emitEntryPoints_delivers :
    Delivers env s [Name.routerInternal contract.name, Name.recvInternal]
      (emitEntryPoints contract []) (· = [Name.recvInternal]) := by
  have hrouter := offers_contractPart ho (p := .routerInternal) (by decide)
  have hload := offers_contractPart ho (p := .contractLoad) (by decide)
  have hstore := offers_contractPart ho (p := .contractStore) (by decide)
  refine .define_bind hrouter (routerItem_succeeds hl hc) ?_
  refine .define_bind (offers_recvInternal hl hc ho)
    (recvInternalItem_succeeds hload hstore (Nat.le_succ _) hrouter) ?_
  exact .pure rfl

include hl hplanned hs hc ho hdata in
/-- **A contract without code of its own is emitted**; only its entry point is called from outside. -/
theorem emitContract_delivers
    (hargs : s.Offers (Name.reader (Name.initArgs contract.name)) (4 * height contract.name + 1)) :
    Delivers env s ((contractOrigins contract).map (·.text)) (emitContract contract)
      (· = [Name.recvInternal]) := by
  obtain ⟨hmem, hcontract⟩ := TypeTable.mem_contracts.1 hc
  have hrest : Delivers env s ((contractOrigins contract).map (·.text)) (do
      declareContext
      emitStateCodecs contract
      contract.functions.values.forM emitFunction
      emitState contract
      let handlers ← contract.receivers.mapM (emitReceiver contract)
      let entryPoints ← emitEntryPoints contract handlers
      let getMethods ← contract.getters.mapM (emitGetMethod contract)
      return entryPoints ++ getMethods) (· = [Name.recvInternal]) := by
    have hgetters : contract.getters = [] := by
      rw [TypeDecl.getters, hdata.methods contract hmem, List.filter_nil]
    rw [hdata.methods contract hmem, hdata.receivers contract hmem, hgetters]
    refine .quiet_bind (P := fun _ => True) (fun d => ⟨(), _, rfl, rfl, trivial⟩) fun _ _ => ?_
    refine (emitStateCodecs_delivers hl hplanned hs hc ho).bind fun _ _ =>
      .read_bind (.pure (P := fun _ => True) trivial) fun _ _ => ?_
    refine (emitState_delivers hl hc ho hdata hargs).bind fun _ _ =>
      .read_bind (.pure (P := (· = [])) rfl) fun handlers hhandlers => ?_
    subst hhandlers
    refine .of_eq ((emitEntryPoints_delivers hl hc ho).bind fun entries hentries =>
      .read_bind (.pure (P := (· = [])) rfl) fun getters hgetters => .pure ?_) (List.append_nil _)
    rw [hentries, hgetters, List.append_nil]
  unfold emitContract
  rw [hcontract]
  refine .read_bind .read fun e he => ?_
  subst he
  dsimp only
  split
  · refine .quiet_bind (P := fun _ => True) (fun d => ⟨(), _, rfl, ?_, trivial⟩) fun _ _ => hrest
    exact functions_addHeader _ _
  · exact hrest

end Emission

end Contracts

/-- The functions of all records are among those that contracts share. -/
theorem serves_of_offersAll (ho : s.OffersAll height top (sharedOrigins env.program.types)) :
    s.Serves env.program.types height := by
  intro decl hdecl p hp
  refine ho (.member decl.name (.part p)) ?_
  refine List.mem_append_left _ (List.mem_flatMap.2 ⟨decl, hdecl, ?_⟩)
  have hparts : ∀ p ∈ Name.Part.ofRecord, p ∈ codecParts decl ∨ p ∈ conversionParts := by
    unfold codecParts
    cases decl.header.isSome <;> decide
  rcases hparts p hp with hp | hp
  · exact List.mem_append_left _ (List.mem_map_of_mem hp)
  · exact List.mem_append_right _ (List.mem_append_right _ (List.mem_map_of_mem hp))

/-- **What all contracts share is emitted.** -/
theorem emitShared_delivers (hl : env.program.types.Layered height top)
    (hplanned : PlannedProgram env.program.types env.program.plans)
    (hcount : env.program.types.Counted) (hdata : env.program.types.DataOnly)
    (ho : s.OffersAll height top (sharedOrigins env.program.types)) :
    Delivers env s ((sharedOrigins env.program.types).map (·.text)) emitShared fun _ => True := by
  have hs := serves_of_offersAll ho
  have hstructs : Delivers env s (env.program.types.structs.flatMap fun decl =>
      (recordOrigins decl).map (·.text)) (env.program.types.structs.forM emitStruct) fun _ => True :=
    .forM fun decl hdecl => emitStruct_delivers hl hplanned hs hdecl
      (fun o hmem => ho o (List.mem_append_left _ (List.mem_flatMap.2 ⟨decl, hdecl, hmem⟩))) hcount
  have hchildren : Delivers env s (env.program.types.contracts.flatMap fun contract =>
      (childOrigins contract).map (·.text)) (env.program.types.contracts.forM emitChildSupport)
      fun _ => True :=
    .forM fun contract hc => emitChildSupport_delivers hl hplanned hs hc
      fun o hmem => ho o (List.mem_append_right _ (List.mem_flatMap.2 ⟨contract, hc, hmem⟩))
  have hmethods : Reads env ((env.program.types.types.values.filter (!·.isContract)).forM fun decl =>
      decl.functions.values.forM emitFunction) fun _ => True := by
    refine Reads.forM fun decl hdecl => ?_
    rw [hdata.methods decl (List.mem_of_mem_filter hdecl)]
    exact .pure trivial
  refine .read_bind .table fun types htypes => ?_
  subst htypes
  rw [hdata.functions]
  refine .of_eq (hstructs.bind fun _ _ => .read_bind (.pure (P := fun _ => True) trivial) fun _ _ =>
    .read_bind hmethods fun _ _ => hchildren) ?_
  simp only [sharedOrigins, List.map_append, List.map_flatMap]

end Generate

end CellCompiler
