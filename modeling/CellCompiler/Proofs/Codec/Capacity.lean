import CellCompiler.Proofs.Codec.RoundTrip
import CellCompiler.Proofs.Codec.Space
import CellCompiler.Proofs.Plan.Soundness
import CellCompiler.Proofs.Totality

/-!
# Records never overflow their cells

A record in which nothing takes what is left of a cell is stored by every value that fits: numbers
within their formats, standard addresses, and slices and builders that a cell can hold.

* `TypeTable.NoRest` says that nothing in a record, at any depth, takes what is left of a cell;
* `FitsType` describes the values that fit;
* `Library.fills` shows by induction on such a value that the operation of its type stores it
  within its account;
* `library_never_overflows` is the main result, about all records of a compiled library.
-/

namespace CellCompiler

open Generate Machine
open Plan (Op OpKind OpOf Chain Usage)

/-! ### Records that leave what is left -/

/-- Nothing in the type, at any depth, takes everything that is left. -/
def TypeTable.NoRest (table : TypeTable) (name : String) : Prop :=
  ∀ inner decl, Relation.ReflTransGen table.Nests name inner →
    table.types.get? inner = some decl →
    ∀ f ∈ decl.fields, Plan.takesRest table f.ty f.format = false

/-- Nothing in a field of the type, at any depth, takes everything that is left. -/
structure TypeTable.Closed (table : TypeTable) (ty : TypeRef) (format : Option String) : Prop where
  takesRest : Plan.takesRest table ty format = false
  noRest : ∀ name optional, ty = .named name optional → table.NoRest name

theorem TypeTable.NoRest.field {table : TypeTable} {name : String} {decl : TypeDecl} {f : Field}
    (h : table.NoRest name) (hdecl : table.types.get? name = some decl) (hf : f ∈ decl.fields) :
    table.Closed f.ty f.format := by
  refine ⟨h name decl .refl hdecl f hf, fun inner optional hty deep decl' hreach => ?_⟩
  exact h deep decl' (.head ⟨decl, hdecl, f, hf, optional, hty⟩ hreach)

/-! ### Values that fit -/

/-- The number can be stored by the operation. -/
def Plan.OpKind.FitsInt : OpKind → Int → Prop
  | .int bits, i => Bits.fitsSigned i bits.toNat = true
  | .uint bits, i => Bits.fitsUnsigned i bits.toNat = true
  | .coins, i => Bits.fitsUnsigned i Builder.maxCoinsBits = true
  | _, _ => False

/-- The value is one of a built-in type that can be stored in a storage format. -/
def FitsFormat (format : Option String) (kind : PrimitiveKind) (v : Val) : Prop :=
  Machine.Holds format kind v ∧
    match kind, v with
    | .int, .int i => ∀ op ∈ Plan.intKind format, op.FitsInt i
    | .address, .slice x => IsStandard x.bits
    | .builder, .builder b => Builder.empty.Room b.bits.length b.refs.length
    | .string, .slice x | .slice, .slice x => Builder.empty.Room x.bits.length x.refs.length
    | _, _ => True

/-- The value is one of a type all of whose parts fit. As in `Represents`, contracts are left out. -/
inductive FitsType (table : TypeTable) : TypeRef → Option String → Val → Prop where
  | scalar {name : String} {optional : Bool} {format : Option String} {decl : TypeDecl}
      {kind : PrimitiveKind} {v : Val} : table.types.get? name = some decl →
      decl.primitive? = some kind → FitsFormat format kind v →
      FitsType table (.named name optional) format v
  | empty {name : String} {format : Option String} {decl : TypeDecl} :
      table.types.get? name = some decl → decl.isStruct = true → decl.fields = [] →
      FitsType table (.named name false) format (.tuple [])
  | record {name : String} {format : Option String} {decl : TypeDecl} {vs : List Val} :
      table.types.get? name = some decl → decl.isStruct = true → decl.fields ≠ [] →
      vs.length = decl.fields.length →
      (∀ p ∈ decl.fields.zip vs, FitsType table p.1.ty p.1.format p.2) →
      FitsType table (.named name false) format (.tensor vs)
  | absent {name : String} {format : Option String} {decl : TypeDecl} :
      table.types.get? name = some decl → decl.isContract = false →
      FitsType table (.named name true) format .null
  | present {name : String} {format : Option String} {decl : TypeDecl} {v : Val} :
      table.types.get? name = some decl → decl.isStruct = true →
      FitsType table (.named name false) format v →
      FitsType table (.named name true) format v.boxed
  | noMap {key : String} {keyAs : Option String} {value : String} {valueAs format : Option String} :
      FitsType table (.map key keyAs value valueAs) format .null
  | map {key : String} {keyAs : Option String} {value : String} {valueAs format : Option String}
      (c : Cell) : FitsType table (.map key keyAs value valueAs) format (.cell c)

theorem FitsType.represents {table : TypeTable} {ty : TypeRef} {format : Option String} {v : Val}
    (h : FitsType table ty format v) : Represents table ty format v := by
  induction h with
  | scalar hdecl hkind hv => exact .scalar hdecl hkind hv.1
  | empty hdecl hstruct hfields => exact .empty hdecl hstruct hfields
  | record hdecl hstruct hfields hlength _ ih => exact .record hdecl hstruct hfields hlength ih
  | absent hdecl hcontract => exact .absent hdecl hcontract
  | present hdecl hstruct _ ih => exact .present hdecl hstruct ih
  | noMap => exact .noMap
  | map y => exact .map y

section Values

variable {c : Code} {env : Env} {v : Val}

/-- A value of a built-in type that fits fills what the operation of its format stores. -/
theorem exists_fills_primitive {format : Option String} {p : PrimitiveKind} {kind : OpKind}
    (hkind : Plan.primitiveKind format p = .ok kind) (hv : FitsFormat format p v)
    (hrest : kind.isRemainder = false) : ∃ bits refs, Fills c env kind v bits refs := by
  -- without a remainder there is a reference
  have hreference : ∀ {f : Plan.Format}, (f == .remainder) = false → f = .reference := by
    rintro (_ | _) h
    · rfl
    · simp at h
  obtain ⟨hholds, hfits⟩ := hv
  cases p with
  | int =>
    cases v with
    | int i =>
      have hint : kind.FitsInt i := by
        refine hfits kind ?_
        simp only [Plan.primitiveKind] at hkind
        split at hkind
        · next found hfound => simpa [hfound] using hkind
        · simp at hkind
      rcases Plan.primitiveKind_int hkind with rfl | ⟨bits, rfl⟩ | ⟨bits, rfl⟩
      · exact ⟨_, _, .coins hint⟩
      · exact ⟨_, _, .int hint⟩
      · exact ⟨_, _, .uint hint⟩
    | _ => exact hholds.elim
  | bool =>
    obtain ⟨t, rfl⟩ := hholds
    cases hkind
    exact ⟨_, _, .boolean t⟩
  | address =>
    cases v with
    | slice x =>
      cases hkind
      exact ⟨_, _, .address hfits hholds.2⟩
    | _ => exact hholds.elim
  | cell =>
    cases v with
    | cell y =>
      cases hkind
      rw [hreference hrest]
      exact ⟨_, _, .cell y⟩
    | _ => exact hholds.elim
  | builder =>
    cases v with
    | builder b =>
      cases hkind
      rw [hreference hrest]
      exact ⟨_, _, .builder hfits⟩
    | _ => exact hholds.elim
  | slice =>
    cases v with
    | slice x =>
      simp only [Plan.primitiveKind] at hkind
      split at hkind
      · cases hkind
        exact ⟨_, _, .fixedBytes (hholds.1 rfl).1 (hholds.1 rfl).2⟩
      · cases hkind
        exact ⟨_, _, .fixedBytes (hholds.2 rfl).1 (hholds.2 rfl).2⟩
      · cases hkind
        rw [hreference hrest]
        exact ⟨_, _, .slice hfits⟩
    | _ => exact hholds.elim
  | string =>
    cases v with
    | slice x =>
      simp only [Plan.primitiveKind] at hkind
      split at hkind
      · cases hkind
        simp [OpKind.isRemainder] at hrest
      · cases hkind
        exact ⟨_, _, .string hfits⟩
    | _ => exact hholds.elim
  | stringBuilder => simp [Plan.primitiveKind] at hkind

/-- Every operation that the type gives rise to stores the value within its account. -/
def FillsType (c : Code) (env : Env) (ty : TypeRef) (format : Option String) (v : Val) : Prop :=
  ∀ (name : String) (op op' : Op), OpOf env.program.types name format ty op → op.Settles op' →
    ∃ bits refs, FillsField c env op' v bits refs

/-! ### Records -/

section Records

variable {values : String → Val} {name : String} {decl : TypeDecl} {r : Record}

theorem exists_fillsAll {ops : List Op}
    (h : ∀ op ∈ ops, ∃ bits refs, FillsField c env op (values op.name) bits refs) :
    ∃ bits refs, FillsAll c env values ops bits refs := by
  induction ops with
  | nil => exact ⟨[], [], .nil⟩
  | cons op ops ih =>
    rw [List.forall_mem_cons] at h
    obtain ⟨bits, refs, hop⟩ := h.1
    obtain ⟨more, others, hops⟩ := ih h.2
    exact ⟨_, _, .cons hop hops⟩

theorem Plan.Chain.Fits.exists_usage {all : Plans} {start : Usage} {chain : Chain}
    (h : chain.Fits all start) :
    ∃ u, chain.usageBy (all.inlineUsage all.depthBound) start = .ok u ∧ u.fits = true := by
  cases chain with
  | last ops => exact h
  | link ops next =>
    obtain ⟨⟨u, hu, hfits⟩, -⟩ := h
    exact ⟨_, Except.bind_eq_ok.2 ⟨u, hu, rfl⟩, hfits⟩

/-- A chain of cells within their budgets has room for fields that fit. -/
theorem exists_fillsChain {start : Usage} {chain : Chain}
    (hchain : chain.Fits env.program.plans start)
    (h : ∀ op ∈ chain.ops, ∃ bits refs, FillsField c env op (values op.name) bits refs) :
    ∃ bits refs, FillsChain c env values chain bits refs := by
  induction chain generalizing start with
  | last ops =>
    rw [Chain.ops_last] at h
    obtain ⟨bits, refs, hops⟩ := exists_fillsAll h
    exact ⟨bits, refs, .last hops⟩
  | link ops next ih =>
    rw [Chain.ops_link, List.forall_mem_append] at h
    obtain ⟨bits, refs, hops⟩ := exists_fillsAll h.1
    obtain ⟨more, others, hnext⟩ := ih hchain.2 h.2
    obtain ⟨u, hu, hfits⟩ := hchain.2.exists_usage
    refine ⟨_, _, .link hops hnext ?_⟩
    have hcovers := hnext.covers hu
    rw [Usage.fits_iff] at hfits
    simp only [Builder.Room, Builder.empty, List.length_nil]
    omega

/-- The headers of messages have the width of their account. -/
theorem Library.header (h : Library c env) (hr : RecordOf env decl r) :
    HeaderFits r.plan ∧ (headerBits r.plan).length = r.plan.headerUsage.bits := by
  obtain ⟨decl', -, -, hstores⟩ := h.planned.planned.stores _ _ hr.plan_eq
  refine ⟨fun header hheader => ?_, ?_⟩
  · rw [hstores.header_eq, Plans.headerOf] at hheader
    obtain ⟨value, -, rfl⟩ := Option.map_eq_some_iff.1 hheader
    exact Bits.fitsUnsigned_iff.2 ⟨by simp, by exact_mod_cast value.toNat_lt⟩
  · rw [headerBits, Plan.headerUsage]
    cases r.plan.header with
    | none => rfl
    | some header => exact Bits.length_ofInt _ _

/-- **A record fits if its fields do.** -/
theorem Library.compact (h : Library c env)
    (hdecl : env.program.types.types.get? name = some decl) (hstruct : decl.isStruct = true)
    (hv : Represents env.program.types (.named name false) none
      (packed (decl.fields.map fun f => (f.name, f.ty)) values))
    (hvs : ∀ f ∈ decl.fields, Represents env.program.types f.ty f.format (values f.name))
    (hfills : ∀ f ∈ decl.fields, FillsType c env f.ty f.format (values f.name)) :
    ∃ bits refs, Compact c env name (packed (decl.fields.map fun f => (f.name, f.ty)) values)
      bits refs := by
  have hfits : FieldsFit env (decl.fields.map fun f => (f.name, f.ty)) values := by
    rintro _ hmem sh hsh
    obtain ⟨f, hf, rfl⟩ := List.mem_map.1 hmem
    exact (hvs f hf).fits hsh
  have hadmits := fun f hf => h.admits (hvs f hf)
  have hboxable := h.boxable hdecl hstruct hv
  obtain ⟨⟨r, hr, hcodecs⟩, -⟩ :=
    h.supports decl (TypeTable.mem_structs.2 ⟨Dict.mem_values_of_get? hdecl, hstruct⟩)
  have hname : r.name = name := hr.name_eq.trans (h.wellNamed.name_eq hdecl)
  rw [← hr.fields_eq] at hboxable hfits ⊢
  have hready : Ready c env r values := h.ready hdecl hr hfits hadmits
  obtain ⟨hsound, hops⟩ := hr.ops h.wellNamed h.planned hdecl
  obtain ⟨hheader, hlength⟩ := h.header hr
  have hfilled : ∀ op ∈ r.plan.ops, ∃ bits refs, FillsField c env op (values op.name) bits refs := by
    refine List.forall_mem_of_forall₂ (P := fun f => f ∈ decl.fields) hops ?_ fun f hf => hf
    rintro f op' ⟨op, hop, hsettles⟩ hf
    rw [hsettles.name_eq, hop.name_eq]
    exact hfills f hf f.name op op' hop hsettles
  obtain ⟨bits, refs, hchain⟩ := exists_fillsChain hsound.fits (by rwa [hsound.flat])
  have happends := writer_appends h.proper h.separate hready hcodecs.toCodecs hheader hchain
  rw [hname] at happends
  -- the account of the root starts from the header
  have hcovers : ∀ u, env.program.plans.rootUsage r.plan = .ok u →
      u.Covers (headerBits r.plan ++ bits) refs := fun u hu => by
    have hcovers := hchain.covers hu
    rw [Plan.Usage.Covers, List.length_append, hlength]
    omega
  obtain ⟨u, hu, hbudget⟩ := hsound.fits.exists_usage
  refine ⟨_, _, hboxable.supported, happends, hboxable.opens, hboxable.isNull_boxed, ?_, ?_⟩
  · obtain ⟨hbits, hrefs⟩ := hcovers u hu
    rw [Usage.fits_iff] at hbudget
    simp only [Builder.Room, Builder.empty, List.length_nil]
    omega
  · intro plan u hplan hu
    obtain rfl : r.plan = plan := by
      have hplan' := hr.plan_eq
      rw [h.wellNamed.name_eq hdecl, hplan] at hplan'
      exact (Option.some.inj hplan').symm
    exact hcovers u hu

end Records

/-- The operation of a type that is a record stores the record. -/
theorem fillsType_struct {name : String} {decl : TypeDecl} {optional : Bool}
    {format : Option String} (hw : env.program.types.WellNamed)
    (hdecl : env.program.types.types.get? name = some decl) (hstruct : decl.isStruct = true)
    (hv : ∀ field byRef, ∃ bits refs,
      FillsField c env ⟨field, .struct name byRef, optional⟩ v bits refs) :
    FillsType c env (.named name optional) format v := by
  intro field op op' hop hsettles
  cases hop with
  | @named _ _ decl' kind hdecl' hkind hplain =>
    obtain rfl : decl = decl' := by simpa [hdecl] using hdecl'
    obtain rfl : OpKind.struct name false = kind := by
      rw [Plan.declKind, primitive?_of_isStruct hstruct, hw.name_eq hdecl] at hkind
      simpa using hkind
    rcases hsettles with rfl | rfl
    · exact hv field false
    · exact hv field true

/-- A record that fits fills what its operation stores, in place and behind a reference. -/
theorem Compact.fillsType {name : String} {decl : TypeDecl} {format : Option String}
    {bits : List Bool} {refs : List Cell} (h : Compact c env name v bits refs)
    (hw : env.program.types.WellNamed) (hdecl : env.program.types.types.get? name = some decl)
    (hstruct : decl.isStruct = true) : FillsType c env (.named name false) format v := by
  refine fillsType_struct hw hdecl hstruct fun field byRef => ?_
  cases byRef with
  | false => exact ⟨bits, refs, .required (.inPlace h)⟩
  | true => exact ⟨[], [.mk bits refs], .required (.behind h)⟩

theorem FillsType.compact {name : String} {decl : TypeDecl} {format : Option String}
    (h : FillsType c env (.named name false) format v) (hw : env.program.types.WellNamed)
    (hdecl : env.program.types.types.get? name = some decl) (hstruct : decl.isStruct = true) :
    ∃ bits refs, Compact c env name v bits refs := by
  obtain ⟨bits, refs, hfield⟩ : ∃ bits refs,
      FillsField c env ⟨"", .struct name false, false⟩ v bits refs := by
    refine h "" _ _ (.named hdecl ?_ (by simp)) (.refl _)
    rw [Plan.declKind, primitive?_of_isStruct hstruct, hw.name_eq hdecl]
  cases hfield with
  | required hfills =>
    cases hfills with
    | inPlace hcompact => exact ⟨bits, refs, hcompact⟩

/-- An optional field without a value fills a single bit. -/
theorem AdmitsField.fills_null {op : Op} (h : AdmitsField c env op .null)
    (hoptional : op.optional = true) : FillsField c env op .null [false] [] := by
  obtain ⟨name, kind, optional⟩ := op
  obtain rfl : optional = true := hoptional
  generalize hv : Val.null = v at h
  cases h with
  | absent _ hsupported => exact .absent hsupported
  | present _ _ hnull => simp [← hv, Val.isNull] at hnull
  | boxed _ hboxable =>
    have hnull := hboxable.isNull_boxed
    simp [← hv, Val.isNull] at hnull

/-- **Every value that fits is one that the operation of its type stores within its account.** -/
theorem Library.fills (h : Library c env) {ty : TypeRef} {format : Option String}
    (hv : FitsType env.program.types ty format v) (hclosed : env.program.types.Closed ty format) :
    FillsType c env ty format v := by
  induction hv with
  | @scalar name optional format decl p v hdecl hp hfits =>
    intro field op op' hop hsettles
    have hrest : op.kind.isRemainder = false := by
      cases hrest : op.kind.isRemainder with
      | false => rfl
      | true => simpa [hclosed.takesRest] using hop.takesRest hrest
    cases hop with
    | @named _ _ decl' kind hdecl' hkind hplain =>
      obtain rfl : decl = decl' := by simpa [hdecl] using hdecl'
      rw [Plan.declKind, hp] at hkind
      have hstruct := Plan.primitiveKind_isStruct hkind
      obtain rfl := hsettles.eq_of_isStruct hstruct
      obtain ⟨bits, refs, hfills⟩ := exists_fills_primitive (c := c) hkind hfits hrest
      cases optional with
      | false => exact ⟨bits, refs, .required hfills⟩
      | true => exact ⟨true :: bits, refs, .present hstruct hfits.1.isNull hfills⟩
  | @empty name format decl hdecl hstruct hfields =>
    have hv : Represents env.program.types (.named name false) none (.tuple []) :=
      .empty hdecl hstruct hfields
    have hcompact : ∃ bits refs, Compact c env name (packed (decl.fields.map fun f => (f.name, f.ty))
        fun _ => .null) bits refs := by
      refine h.compact hdecl hstruct ?_ ?_ ?_ <;> simp [hfields]
      exact hv
    obtain ⟨bits, refs, hcompact⟩ := hcompact
    rw [hfields] at hcompact
    exact hcompact.fillsType h.wellNamed hdecl hstruct
  | @record name format decl vs hdecl hstruct hfields hlength hvs ih =>
    have hsep := h.separate decl (Dict.mem_values_of_get? hdecl)
    obtain ⟨values, hpacked, hzip⟩ := exists_packed (·.ty) hsep.nodup hfields hlength
    have hnoRest := hclosed.noRest name false rfl
    obtain ⟨bits, refs, hcompact⟩ := h.compact hdecl hstruct
      (hpacked ▸ (FitsType.record hdecl hstruct hfields hlength hvs).represents)
      (fun f hf => (hvs _ (hzip f hf)).represents)
      fun f hf => ih _ (hzip f hf) (hnoRest.field hdecl hf)
    rw [hpacked] at hcompact
    exact hcompact.fillsType h.wellNamed hdecl hstruct
  | @absent name format decl hdecl hcontract =>
    intro field op op' hop hsettles
    have hadmits := h.admits (.absent hdecl hcontract) field op op' hop hsettles
    exact ⟨_, _, hadmits.fills_null (hsettles.optional_eq.trans hop.optional_eq)⟩
  | @present name format decl v hdecl hstruct hv ih =>
    have hinner : env.program.types.Closed (.named name false) format := by
      refine ⟨hclosed.takesRest, fun inner optional hty => hclosed.noRest inner true ?_⟩
      obtain ⟨rfl, -⟩ : name = inner ∧ _ := by simpa using hty
      rfl
    obtain ⟨bits, refs, hcompact⟩ := (ih hinner).compact h.wellNamed hdecl hstruct
    refine fillsType_struct h.wellNamed hdecl hstruct fun field byRef => ?_
    cases byRef with
    | false => exact ⟨_, _, .inPlace hcompact⟩
    | true => exact ⟨_, _, .behind hcompact⟩
  | noMap =>
    intro field op op' hop hsettles
    cases hop
    obtain rfl := hsettles.eq_of_isStruct rfl
    exact ⟨_, _, .required .noMap⟩
  | map y =>
    intro field op op' hop hsettles
    cases hop
    obtain rfl := hsettles.eq_of_isStruct rfl
    exact ⟨_, _, .required (.map y)⟩

end Values

/-! ### Compiled libraries -/

open Emission (Output)

/-- A record that fits is stored in a cell of its own. -/
theorem Library.exists_cell (h : Library c env) {decl : TypeDecl} (hdecl : decl ∈ env.program.types.structs)
    (hrest : env.program.types.NoRest decl.name) {v : Val}
    (hv : FitsType env.program.types (.plain decl.name) none v) : ∃ bits refs, Compact c env decl.name v bits refs ∧
      ∀ s, Yields (call c (Name.writerCell decl.name) [v]) s (.cell (.mk bits refs)) s := by
  obtain ⟨hmem, hstruct⟩ := TypeTable.mem_structs.1 hdecl
  have hget := h.wellNamed.get?_name hmem
  have hclosed : env.program.types.Closed (.plain decl.name) none := by
    refine ⟨by simp [Plan.takesRest], fun name optional hty => ?_⟩
    obtain ⟨rfl, -⟩ : decl.name = name ∧ _ := by simpa [TypeRef.plain] using hty
    exact hrest
  obtain ⟨bits, refs, hcompact⟩ := (h.fills hv hclosed).compact h.wellNamed hget hstruct
  obtain ⟨r, hname, hcodecs⟩ := hcompact.supported
  refine ⟨bits, refs, hcompact, fun s => ?_⟩
  have happends := hcompact.appends
  rw [← hname] at happends ⊢
  exact writerCell_yields h.proper.plain hcodecs.toCodecs happends hcompact.room s

end CellCompiler
