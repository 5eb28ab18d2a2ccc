import CellCompiler.Proofs.Generate.Deployment

/-!
# Data compiles

A program that consists of data only compiles as soon as it can be planned, whatever finds constants
and whatever the settings are. The functions that are due are known before any of them is written:
they have different names, each depends on lower ones, and all of them are there in the end.

* `Name.Origin.Regular` says that a function is found by its name, `Schedule.ofOrigins` is the schedule
  of given functions;
* `nodup_dataOrigins` says that data is not emitted twice as the same;
* `data_compiles` is the main result.
-/

namespace CellCompiler

open Name (Origin Part)
open Generate

/-! ### Names of data -/

namespace Name.Origin

/-- The function has a name, which tells what it is emitted for. -/
structure Regular (o : Origin) : Prop where
  name_eq : o.name = .ok o.text
  plain : o.IsPlain
  text?_eq : o.text? = none
  uncut_eq : o.uncut = o
  emitted : Name.isEmitted o.text = true

theorem Regular.text_inj {a b : Origin} (ha : a.Regular) (hb : b.Regular) (h : a.text = b.text) :
    a = b := by
  have htell : a.HashesTellApart b := by
    intro s hs
    simp [ha.text?_eq] at hs
  have huncut := uncut_eq_of_name_eq ha.plain hb.plain htell ha.name_eq (h ▸ hb.name_eq)
  rwa [ha.uncut_eq, hb.uncut_eq] at huncut

theorem regular_part {type : String} (h : '$' ∉ type.toList) (p : Part) :
    (member type (.part p)).Regular := by
  refine ⟨rfl, by simpa [IsPlain, identifiers] using h, rfl, rfl, ?_⟩
  change Name.isEmitted (p.name type) = true
  rw [p.name_eq]
  exact Name.isEmitted_ofType _ _

theorem regular_getter {type field : String} (h : '$' ∉ type.toList) (hfield : '$' ∉ field.toList) :
    (member type (.getter field)).Regular :=
  ⟨rfl, by simp [IsPlain, identifiers, h, hfield], rfl, rfl, Name.isEmitted_ofType _ _⟩

theorem regular_initCodec {contract : String} (h : '$' ∉ contract.toList) (c : Codec) :
    (initCodec contract c).Regular := by
  refine ⟨rfl, by simpa [IsPlain, identifiers] using h, rfl, rfl, ?_⟩
  change Name.isEmitted (c.name (Name.initArgs contract)) = true
  rw [c.name_eq]
  exact Name.isEmitted_ofType _ _

theorem regular_recvInternal : recvInternal.Regular :=
  ⟨rfl, by simp [IsPlain, identifiers], rfl, rfl, by decide⟩

end Name.Origin

/-- The type that a function belongs to. -/
def Name.Origin.owner : Origin → String
  | member type _ | initCodec type _ | notMut type _ => type
  | _ => ""

/-! ### The schedule of given functions -/

namespace Schedule

variable {height : String → Nat} {top : Nat} {origins : List Origin}

/-- The schedule in which these functions are due. -/
def ofOrigins (height : String → Nat) (top : Nat) (origins : List Origin) : Schedule where
  due name := name ∈ origins.map (·.text)
  rank name := ((origins.find? (·.text == name)).map (·.rank height top)).getD 0

theorem offersAll_ofOrigins (height : String → Nat) (top : Nat) (h : ∀ o ∈ origins, o.Regular) :
    (ofOrigins height top origins).OffersAll height top origins := by
  intro o ho
  refine ⟨List.mem_map_of_mem ho, ?_, (h o ho).emitted⟩
  cases hfind : origins.find? (·.text == o.text) with
  | none => simpa using List.find?_eq_none.1 hfind o ho
  | some o' =>
    have htext : o'.text = o.text := by simpa using List.find?_some hfind
    obtain rfl := (h o' (List.mem_of_find?_eq_some hfind)).text_inj (h o ho) htext
    simp [ofOrigins, hfind]

end Schedule

/-! ### What data is emitted as -/

section Data

variable {table : TypeTable} {decl contract : TypeDecl}

theorem member_part_injective (type : String) :
    Function.Injective fun p : Part => Origin.member type (.part p) :=
  fun _ _ h => by simpa using h

theorem nodup_recordOrigins (h : (decl.fields.map (·.name)).Nodup) : (recordOrigins decl).Nodup := by
  have hparts : (codecParts decl).Nodup ∧ conversionParts.Nodup ∧
      ∀ p ∈ codecParts decl, p ∉ conversionParts := by
    unfold codecParts
    cases decl.header.isSome <;> decide
  have hgetters : (decl.fields.map fun f => Origin.member decl.name (.getter f.name)).Nodup := by
    have hmap := h.map (f := fun name => Origin.member decl.name (.getter name)) fun _ _ heq => by
      simpa using heq
    rwa [List.map_map] at hmap
  refine List.nodup_append.2 ⟨hparts.1.map (member_part_injective _), List.nodup_append.2
    ⟨hgetters, hparts.2.1.map (member_part_injective _), ?_⟩, ?_⟩
  · simp
  · intro o ho o' ho'
    obtain ⟨p, hp, rfl⟩ := List.mem_map.1 ho
    rcases List.mem_append.1 ho' with ho' | ho'
    · obtain ⟨f, -, rfl⟩ := List.mem_map.1 ho'
      simp
    · obtain ⟨q, hq, rfl⟩ := List.mem_map.1 ho'
      intro heq
      exact hparts.2.2 p hp (member_part_injective _ heq ▸ hq)

theorem nodup_childOrigins : (childOrigins contract).Nodup := by
  simp [childOrigins]

theorem nodup_contractOrigins : (contractOrigins contract).Nodup := by
  have hparts : contractParts.Nodup := by decide
  refine List.nodup_append.2 ⟨hparts.map (member_part_injective _), by simp, by simp⟩

theorem owner_of_mem_recordOrigins {o : Origin} (h : o ∈ recordOrigins decl) :
    o.owner = decl.name := by
  simp only [recordOrigins, List.mem_append, List.mem_map] at h
  obtain ⟨_, _, rfl⟩ | ⟨_, _, rfl⟩ | ⟨_, _, rfl⟩ := h <;> rfl

theorem owner_of_mem_childOrigins {o : Origin} (h : o ∈ childOrigins contract) :
    o.owner = contract.name := by
  simp only [childOrigins, List.mem_cons, List.not_mem_nil, or_false] at h
  obtain rfl | rfl | rfl | rfl | rfl := h <;> rfl

/-- Functions of different types are different. -/
theorem nodup_flatMap_owner {decls : List TypeDecl} {f : TypeDecl → List Origin}
    (hnames : (decls.map (·.name)).Nodup) (hf : ∀ decl ∈ decls, (f decl).Nodup)
    (howner : ∀ decl, ∀ o ∈ f decl, o.owner = decl.name) : (decls.flatMap f).Nodup := by
  refine List.nodup_flatMap.2 ⟨hf, (List.pairwise_map.1 hnames).imp fun hne o ho ho' => hne ?_⟩
  rw [← howner _ o ho, howner _ o ho']

theorem TypeTable.WellNamed.nodup_names (h : table.WellNamed) :
    (table.types.values.map (·.name)).Nodup := by
  have heq : table.types.values.map (·.name) = table.types.keys := by
    rw [Dict.values, Dict.keys, List.map_map]
    exact List.map_congr_left h.named
  exact heq ▸ h.nodup

theorem name_ne_of_struct (hw : table.WellNamed) (hdecl : decl ∈ table.structs)
    (hc : contract ∈ table.contracts) : decl.name ≠ contract.name := by
  obtain ⟨hmem, hstruct⟩ := TypeTable.mem_structs.1 hdecl
  obtain ⟨hmem', hcontract⟩ := TypeTable.mem_contracts.1 hc
  intro heq
  obtain rfl : decl = contract :=
    Option.some.inj ((hw.get?_name hmem).symm.trans (heq ▸ hw.get?_name hmem'))
  simp [TypeDecl.isContract_of_isStruct hstruct] at hcontract

theorem nodup_sharedOrigins (hw : table.WellNamed)
    (hfields : ∀ decl ∈ table.structs, (decl.fields.map (·.name)).Nodup) :
    (sharedOrigins table).Nodup := by
  have hnames : ∀ p : TypeDecl → Bool, ((table.types.values.filter p).map (·.name)).Nodup := fun p =>
    hw.nodup_names.sublist (List.filter_sublist.map _)
  have hstructs : (table.structs.flatMap recordOrigins).Nodup :=
    nodup_flatMap_owner (hnames _) (fun decl hdecl => nodup_recordOrigins (hfields decl hdecl))
      fun _ _ => owner_of_mem_recordOrigins
  have hchildren : (table.contracts.flatMap childOrigins).Nodup :=
    nodup_flatMap_owner (hnames _) (fun _ _ => nodup_childOrigins) fun _ _ => owner_of_mem_childOrigins
  refine List.nodup_append.2 ⟨hstructs, hchildren, ?_⟩
  rintro o ho o' ho' rfl
  obtain ⟨decl, hdecl, ho⟩ := List.mem_flatMap.1 ho
  obtain ⟨contract, hc, ho'⟩ := List.mem_flatMap.1 ho'
  exact name_ne_of_struct hw hdecl hc
    ((owner_of_mem_recordOrigins ho).symm.trans (owner_of_mem_childOrigins ho'))

/-- **Data is not emitted twice as the same.** -/
theorem nodup_dataOrigins (hw : table.WellNamed)
    (hfields : ∀ decl ∈ table.structs, (decl.fields.map (·.name)).Nodup)
    (hc : contract ∈ table.contracts) :
    (sharedOrigins table ++ contractOrigins contract).Nodup := by
  refine List.nodup_append.2 ⟨nodup_sharedOrigins hw hfields, nodup_contractOrigins, ?_⟩
  rintro o ho o' ho' rfl
  obtain ⟨p, hp, rfl⟩ | rfl : (∃ p ∈ contractParts, Origin.member contract.name (.part p) = o) ∨
      o = .recvInternal := by
    simpa [contractOrigins] using ho'
  · rcases List.mem_append.1 ho with ho | ho
    · obtain ⟨decl, hdecl, ho⟩ := List.mem_flatMap.1 ho
      exact name_ne_of_struct hw hdecl hc (owner_of_mem_recordOrigins ho).symm
    · obtain ⟨other, -, ho⟩ := List.mem_flatMap.1 ho
      obtain ⟨-, rfl⟩ : contract.name = other.name ∧ p = .initChild := by
        simpa [childOrigins] using ho
      exact absurd hp (by decide)
  · simp [sharedOrigins, recordOrigins, childOrigins] at ho

theorem regular_sharedOrigins (hplain : table.Unmarked) : ∀ o ∈ sharedOrigins table, o.Regular := by
  intro o ho
  simp only [sharedOrigins, recordOrigins, childOrigins, List.mem_append, List.mem_flatMap,
    List.mem_map, List.mem_cons, List.not_mem_nil, or_false] at ho
  obtain ⟨decl, hdecl, ho⟩ | ⟨contract, hc, ho⟩ := ho
  · have hmem := (TypeTable.mem_structs.1 hdecl).1
    have htype := hplain.types decl hmem
    obtain ⟨p, -, rfl⟩ | ⟨f, hf, rfl⟩ | ⟨p, -, rfl⟩ := ho
    · exact Origin.regular_part htype p
    · exact Origin.regular_getter htype (hplain.fields decl hmem f hf)
    · exact Origin.regular_part htype p
  · have htype := hplain.types contract (TypeTable.mem_contracts.1 hc).1
    obtain rfl | rfl | rfl | rfl | rfl := ho
    iterate 4 exact Origin.regular_initCodec htype _
    exact Origin.regular_part htype _

theorem regular_dataOrigins (hplain : table.Unmarked) (hc : contract ∈ table.contracts) :
    ∀ o ∈ sharedOrigins table ++ contractOrigins contract, o.Regular := by
  intro o ho
  rcases List.mem_append.1 ho with ho | ho
  · exact regular_sharedOrigins hplain o ho
  · obtain ⟨p, -, rfl⟩ | rfl : (∃ p ∈ contractParts, Origin.member contract.name (.part p) = o) ∨
        o = .recvInternal := by
      simpa [contractOrigins] using ho
    · exact Origin.regular_part (hplain.types contract (TypeTable.mem_contracts.1 hc).1) p
    · exact Origin.regular_recvInternal

end Data

/-! ### Compilation -/

section Compilation

variable {env : Env} {α : Type} {s : Schedule} {height : String → Nat} {top : Nat}
  {origins : List Origin} {g : Gen α} {P : α → Prop}

theorem Schedule.keeps_empty : s.Keeps {} :=
  ⟨⟨List.nodup_nil, fun _ _ h => by simp at h⟩, fun _ _ h => by simp at h⟩

/-- Once everything that is due has been delivered, the registry is complete. -/
theorem exists_run (hnodup : origins.Nodup) (hregular : ∀ o ∈ origins, o.Regular)
    (h : Generate.Delivers env (.ofOrigins height top origins) (origins.map (·.text)) g P) :
    ∃ a registry, Generate.run env g = .ok (a, registry) ∧ P a ∧
      (Schedule.ofOrigins height top origins).Keeps registry ∧
      ∀ name, (Schedule.ofOrigins height top origins).due name → registry.has name = true := by
  have hnames : (origins.map (·.text)).Nodup :=
    hnodup.map_on fun a ha b hb => (hregular a ha).text_inj (hregular b hb)
  have hemitted : ∀ name ∈ origins.map (·.text), Name.isEmitted name = true :=
    List.forall_mem_map.2 fun o ho => (hregular o ho).emitted
  obtain ⟨a, d, hrun, hkeeps, hadds, ha⟩ := h {} Schedule.keeps_empty ⟨hnames, hemitted, fun _ _ => rfl⟩
  refine ⟨a, d.registry, ?_, ha, hkeeps, fun name hdue => ?_⟩
  · rw [Generate.run, hrun]
  · exact (hadds.iff name (hemitted name hdue)).2 (.inr hdue)

/-- The library of a program of data compiles. -/
theorem exists_library {env : Env} {types : TypeTable} (hw : types.WellNamed) (hplain : types.Unmarked)
    (hfields : ∀ decl ∈ types.structs, (decl.fields.map (·.name)).Nodup) (hdata : types.DataOnly)
    (hfree : types.ContractFree) (hcount : types.Counted)
    (hplanned : Program.planned types = .ok env.program) : ∃ out, compileLibrary env = .ok out := by
  simp only [Program.planned, Except.bind_eq_ok, Except.pure_eq_ok] at hplanned
  obtain ⟨plans, hplans, hprogram⟩ := hplanned
  obtain rfl : env.program.types = types := by rw [← hprogram]
  obtain rfl : env.program.plans = plans := by rw [← hprogram]
  obtain ⟨height, top, hl⟩ := TypeTable.exists_layered hw hfree hplans
  have hregular := regular_sharedOrigins hplain
  have hoffers := Schedule.offersAll_ofOrigins height top hregular
  obtain ⟨a, registry, hrun, -, hkeeps, hdue⟩ := exists_run (nodup_sharedOrigins hw hfields) hregular
    (emitShared_delivers hl (Plans.planProgram_planned hw hplans) hcount hdata hoffers)
  obtain ⟨out, hout⟩ := hkeeps.finalize hdue
  exact ⟨out, by rw [compileLibrary, hrun, Except.ok_bind]; exact hout⟩

/-- **Programs of data compile.** Take a table of records and contracts that has no functions, no
handlers, no values for fields to start with and no statements, in which no field and no parameter of
a contract is a contract. If it can be planned, then the library and every contract are compiled,
whatever finds constants and whatever the settings are.

Types are filed under their names, no name has a mark in it and the names of the fields of a record
are distinct. The variables of a record are as many as a machine word can count, which is what the
compiler can hold in a list. -/
theorem data_compiles {env : Env} {types : TypeTable} (hw : types.WellNamed) (hplain : types.Unmarked)
    (hfields : ∀ decl ∈ types.structs, (decl.fields.map (·.name)).Nodup) (hdata : types.DataOnly)
    (hfree : types.ContractFree) (hcount : types.Counted)
    (hplanned : Program.planned types = .ok env.program) :
    (∃ out, compileLibrary env = .ok out) ∧
      ∀ contract ∈ types.contracts, ∃ out, compileContract env contract.name = .ok out := by
  refine ⟨exists_library hw hplain hfields hdata hfree hcount hplanned, fun contract hc => ?_⟩
  simp only [Program.planned, Except.bind_eq_ok, Except.pure_eq_ok] at hplanned
  obtain ⟨plans, hplans, hprogram⟩ := hplanned
  obtain rfl : env.program.types = types := by rw [← hprogram]
  obtain rfl : env.program.plans = plans := by rw [← hprogram]
  obtain ⟨height, top, hl⟩ := TypeTable.exists_layered hw hfree hplans
  have hplanned := Plans.planProgram_planned hw hplans
  have hregular := regular_dataOrigins hplain hc
  have hoffers := Schedule.offersAll_ofOrigins height top hregular
  have hshared := fun o ho => hoffers o (List.mem_append_left _ ho)
  have hargs := hshared (.initCodec contract.name .reader)
    (List.mem_append_right _ (List.mem_flatMap.2 ⟨contract, hc, by simp [childOrigins]⟩))
  have hown := fun o ho => hoffers o (List.mem_append_right _ ho)
  have hemit := emitContract_delivers hl hplanned (serves_of_offersAll hshared) hc hown hdata hargs
  obtain ⟨roots, registry, hrun, rfl, hkeeps, hdue⟩ := exists_run (nodup_dataOrigins hw hfields hc)
    hregular (((emitShared_delivers hl hplanned hcount hdata hshared).bind fun _ _ => hemit).of_eq
      List.map_append.symm)
  have hknows : registry.Knows [Name.recvInternal] := by
    rintro root hroot
    obtain rfl := List.mem_singleton.1 hroot
    have hmem : Origin.recvInternal ∈ sharedOrigins env.program.types ++ contractOrigins contract := by
      simp [contractOrigins]
    exact hdue _ (List.mem_map_of_mem hmem)
  have hdecl := Layout.declOf_eq_ok.2 (hw.get?_name (TypeTable.mem_contracts.1 hc).1)
  have hmodule : compileContract env contract.name = if env.config.pruneUnused then
      registry.finalizeReachable [Name.recvInternal] else registry.finalize := by
    rw [compileContract, hdecl, Except.ok_bind, hrun]
    rfl
  rw [hmodule]
  split
  · exact hkeeps.finalizeReachable hdue hknows
  · exact hkeeps.finalize hdue

/-- The table holds records of data only, by a check that can be run. -/
def TypeTable.IsRecords (types : TypeTable) : Prop :=
  types.functions.values.isEmpty = true ∧ ∀ decl ∈ types.types.values,
    decl.isContract = false ∧ '$' ∉ decl.name.toList ∧ (decl.fields.map (·.name)).Nodup ∧
    decl.functions.values.isEmpty = true ∧ decl.receivers.isEmpty = true ∧ decl.init.isNone = true ∧
    (∀ f ∈ decl.fields, '$' ∉ f.name.toList ∧ f.default.isNone = true) ∧
    (Layout.shape types (.plain decl.name) "v").toOption.all (·.leaves.length < UInt64.size) = true

instance (types : TypeTable) : Decidable types.IsRecords := inferInstanceAs (Decidable (_ ∧ _))

/-- The library of a table of records compiles. -/
theorem TypeTable.IsRecords.exists_library {env : Env} {types : TypeTable} (h : types.IsRecords)
    (hw : types.WellNamed) (hplanned : Program.planned types = .ok env.program) :
    ∃ out, compileLibrary env = .ok out := by
  obtain ⟨hfunctions, hdecls⟩ := h
  have hnone : ∀ inner name, types.types.get? name = some inner → inner.isContract = false :=
    fun inner name hget => (hdecls inner (Dict.mem_values_of_get? hget)).1
  have hinit : ∀ decl ∈ types.types.values, decl.init = none := fun decl hdecl => by
    simpa using (hdecls decl hdecl).2.2.2.2.2.1
  refine CellCompiler.exists_library hw ⟨fun decl hdecl => (hdecls decl hdecl).2.1, ?_⟩ ?_
    ⟨by simpa using hfunctions, ?_, ?_, ?_, ?_⟩ ⟨?_, ?_⟩ ?_ hplanned
  · exact fun decl hdecl f hf => ((hdecls decl hdecl).2.2.2.2.2.2.1 f hf).1
  · exact fun decl hdecl => (hdecls decl (TypeTable.mem_structs.1 hdecl).1).2.2.1
  · exact fun decl hdecl => by simpa using (hdecls decl hdecl).2.2.2.1
  · exact fun decl hdecl => by simpa using (hdecls decl hdecl).2.2.2.2.1
  · exact fun decl hdecl f hf => by simpa using ((hdecls decl hdecl).2.2.2.2.2.2.1 f hf).2
  · exact fun decl hdecl => by simp [TypeDecl.initBody, hinit decl hdecl]
  · exact fun decl hdecl f hf name hname inner hinner => hnone inner name hinner
  · exact fun decl hdecl p hp name hname inner hinner => hnone inner name hinner
  · intro decl hdecl sh hsh
    simpa [hsh, Except.toOption] using (hdecls decl (TypeTable.mem_structs.1 hdecl).1).2.2.2.2.2.2.2

end Compilation

/-! ### A board -/

/-- A point, a message that may hold one, and a contract that starts at one. -/
def boardTypes : TypeTable :=
  let point := TypeDecl.ofFields .struct "Point" [⟨"x", 0, .plain "Int", none, none⟩,
    ⟨"y", 1, .plain "Int", some "uint8", none⟩]
  let move := TypeDecl.ofFields .struct "Move" [⟨"from", 0, .named "Point" true, none, none⟩,
    ⟨"to", 1, .plain "Point", none, none⟩]
  let board := TypeDecl.ofFields .contract "Board" [⟨"at", 0, .plain "Point", none, none⟩,
    ⟨"owner", 1, .plain "Address", none, none⟩]
  ((TypeTable.primitives.addType point).addType { move with header := some 7 }).addType
    { board with init := some ⟨[⟨"start", .plain "Point"⟩], []⟩ }

/-- The table of the board with its plans. -/
def boardEnv : Env where
  program := { types := boardTypes, plans := (planProgram boardTypes).toOption.getD {} }
  evaluate := noConstants

theorem board_compiles : (∃ out, compileLibrary boardEnv = .ok out) ∧
    ∃ out, compileContract boardEnv "Board" = .ok out := by
  have hw : boardTypes.WellNamed := ⟨by decide +kernel, by decide +kernel⟩
  have hmarks : ∀ decl ∈ boardTypes.types.values, '$' ∉ decl.name.toList ∧
      ∀ f ∈ decl.fields, '$' ∉ f.name.toList := by decide +kernel
  have hempty : ∀ decl ∈ boardTypes.types.values, decl.functions.values.length = 0 ∧
      decl.receivers.length = 0 ∧ decl.initBody.length = 0 ∧
        ∀ f ∈ decl.fields, f.default.isNone = true := by decide +kernel
  have hdata : boardTypes.DataOnly :=
    ⟨rfl, fun decl hdecl => List.length_eq_zero_iff.1 (hempty decl hdecl).1,
      fun decl hdecl => List.length_eq_zero_iff.1 (hempty decl hdecl).2.1,
      fun decl hdecl f hf => Option.isNone_iff_eq_none.1 ((hempty decl hdecl).2.2.2 f hf),
      fun decl hdecl => List.length_eq_zero_iff.1 (hempty decl hdecl).2.2.1⟩
  have hnone : ∀ decl ∈ boardTypes.types.values,
      (∀ f ∈ decl.fields, ∀ name ∈ f.ty.name?, (boardTypes.types.get? name).any (·.isContract) = false) ∧
      ∀ p ∈ decl.initParams, ∀ name ∈ p.ty.name?,
        (boardTypes.types.get? name).any (·.isContract) = false := by decide +kernel
  have hfree : boardTypes.ContractFree :=
    ⟨fun decl hdecl f hf name hname inner hinner => by
        simpa [hinner] using (hnone decl hdecl).1 f hf name hname,
      fun decl hdecl p hp name hname inner hinner => by
        simpa [hinner] using (hnone decl hdecl).2 p hp name hname⟩
  have hleaves : ∀ decl ∈ boardTypes.structs, (Layout.shape boardTypes (.plain decl.name) "v").toOption.all
      (·.leaves.length < UInt64.size) = true := by decide +kernel
  have hcount : boardTypes.Counted := fun decl hdecl sh hsh => by
    simpa [hsh, Except.toOption] using hleaves decl hdecl
  have hplanned : Program.planned boardTypes = .ok boardEnv.program := rfl
  obtain ⟨hlibrary, hcontracts⟩ := data_compiles hw
    ⟨fun decl hdecl => (hmarks decl hdecl).1, fun decl hdecl => (hmarks decl hdecl).2⟩
    (by decide +kernel) hdata hfree hcount hplanned
  have hboard : ∃ contract ∈ boardTypes.contracts, contract.name = "Board" := by decide +kernel
  obtain ⟨contract, hc, hname⟩ := hboard
  exact ⟨hlibrary, hname ▸ hcontracts contract hc⟩

end CellCompiler
