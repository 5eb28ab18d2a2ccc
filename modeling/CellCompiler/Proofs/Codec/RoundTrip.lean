import CellCompiler.Proofs.Codec.Record
import CellCompiler.Proofs.Plan.Validity

/-!
# Records survive storage

Whatever a codec stores, the other codec of the pair gives back. By induction on the value of a
type, every value is one that the operation of its type stores and finds again
(`Library.admits`): a record is, once the values of its fields are.

`library_roundTrips` is the main result, about all codecs of all records of a compiled library.
-/

namespace CellCompiler

open Generate Machine
open Plan (Op OpKind OpOf)

namespace Plans

variable {all : Plans} {name : String} {plan : Plan}

/-- Nothing follows an operation that takes everything that is left. -/
theorem isRemainder_of_validate (h : all.validate = .ok ()) (hplan : all.types.get? name = some plan) :
    ∀ op ∈ plan.ops.dropLast, op.kind.isRemainder = false := by
  have hmem : (name, plan) ∈ all.types.entries ++ all.initArgs.entries :=
    List.mem_append_left _ (Dict.mem_entries_of_get? hplan)
  have hvalid := List.forM_eq_ok.1 h (name, plan) hmem
  simp only [validatePlan] at hvalid
  split at hvalid
  · simp at hvalid
  · next hflat =>
    rw [ne_eq, not_not] at hflat
    simp only [Except.bind_eq_ok, hflat] at hvalid
    obtain ⟨⟨⟩, -, hops⟩ := hvalid
    exact isRemainder_of_checkOps hops

/-- The last field of a record that leaves what follows it does so too. -/
theorem closed_of_isOpenEnded (h : all.isOpenEnded plan = .ok false) {op : Op}
    (hop : plan.ops.getLast? = some op) : op.kind.isRemainder = false ∧ op.Closed all := by
  simp only [isOpenEnded, Plan.openEndedBy, hop] at h
  split at h
  · simp at h
  · next hkind =>
    refine ⟨by simpa using hkind, fun type htype => ?_⟩
    rw [htype] at h
    simp only [depthBound, inlineOpenEnded, Except.bind_eq_ok, get_eq_ok] at h
    obtain ⟨nested, hnested, hopen⟩ := h
    refine ⟨nested, hnested, ?_⟩
    exact Plan.openEndedBy_mono (inlineOpenEnded_mono (.refl all) (Nat.le_succ _)) hopen

end Plans

/-! ### Values of fields -/

variable {c : Code} {env : Env}

/-- A value of a built-in type is one that the operation of its format stores. -/
theorem admits_primitive {format : Option String} {p : PrimitiveKind} {kind : OpKind} {v : Val}
    (hkind : Plan.primitiveKind format p = .ok kind) (hv : Machine.Holds format p v) :
    Admits c env kind v := by
  cases p with
  | int =>
    cases v with
    | int i =>
      rcases Plan.primitiveKind_int hkind with rfl | ⟨bits, rfl⟩ | ⟨bits, rfl⟩
      · exact .coins i
      · exact .int bits i
      · exact .uint bits i
    | _ => exact hv.elim
  | bool =>
    obtain ⟨t, rfl⟩ := hv
    cases hkind
    exact .boolean t
  | address =>
    cases v with
    | slice x =>
      cases hkind
      exact .address hv.2
    | _ => exact hv.elim
  | cell =>
    cases v with
    | cell y =>
      cases hkind
      exact .cell _ y
    | _ => exact hv.elim
  | builder =>
    cases v with
    | builder b =>
      cases hkind
      exact .builder _ b
    | _ => exact hv.elim
  | slice =>
    cases v with
    | slice x =>
      simp only [Plan.primitiveKind] at hkind
      split at hkind
      · cases hkind
        exact .fixedBytes (hv.1 rfl).1 (hv.1 rfl).2
      · cases hkind
        exact .fixedBytes (hv.2 rfl).1 (hv.2 rfl).2
      · cases hkind
        exact .slice _ x
    | _ => exact hv.elim
  | string =>
    cases v with
    | slice x =>
      simp only [Plan.primitiveKind] at hkind
      split at hkind
      · cases hkind
        exact .slice _ x
      · cases hkind
        exact .string x
    | _ => exact hv.elim
  | stringBuilder => simp [Plan.primitiveKind] at hkind

/-! ### Records -/

/-- The code of a program whose plans are the planner's and have passed the check. -/
structure Library (c : Code) (env : Env) : Prop where
  proper : c.Proper
  wellNamed : env.program.types.WellNamed
  separate : env.program.types.Separate
  planned : Plans.PlannedProgram env.program.types env.program.plans
  valid : env.program.plans.validate = .ok ()
  supports : ∀ decl ∈ env.program.types.structs, Supports c env decl

/-- Every value of a field is one that the operations of the field store. -/
def AdmitsType (c : Code) (env : Env) (ty : TypeRef) (format : Option String) (v : Val) : Prop :=
  ∀ (name : String) (op op' : Op), OpOf env.program.types name format ty op → op.Settles op' →
    AdmitsField c env op' v

section Records

variable {name : String} {decl : TypeDecl} {r : Record} {values : String → Val}

/-- The operations of a plan, one for each field. -/
theorem Plans.Stores.settled {table : TypeTable} {all : Plans} {header : Option Plan.Header}
    {fields : List (String × TypeRef × Option String)} {plan : Plan}
    (h : Plans.Stores table all header fields plan) :
    List.Forall₂ (fun f op' => ∃ op, OpOf table f.1 f.2.2 f.2.1 op ∧ op.Settles op') fields plan.ops := by
  obtain ⟨ops, hops, hsettles⟩ := h.ops
  generalize plan.ops = settled at hsettles
  clear * - hops hsettles
  induction hsettles generalizing fields with
  | nil =>
    cases hops
    exact .nil
  | cons hop _ ih =>
    cases hops with
    | cons hfield hfields => exact .cons ⟨_, hfield, hop⟩ (ih hfields)

/-- A record is ready for the values of its fields if its plan stores them. -/
theorem Plans.Stores.ready {header : Option Plan.Header}
    {fields : List (String × TypeRef × Option String)}
    (h : Plans.Stores env.program.types env.program.plans header fields r.plan)
    (hfields : r.fields = fields.map fun f => (f.1, f.2.1)) (hnodup : (fields.map Prod.fst).Nodup)
    (hplain : ∀ f ∈ fields, '\'' ∉ f.1.toList)
    (hrest : ∀ op ∈ r.plan.ops.dropLast, op.kind.isRemainder = false)
    (hfits : FieldsFit env r.fields values)
    (hadmits : ∀ f ∈ fields, AdmitsType c env f.2.1 f.2.2 (values f.1)) : Ready c env r values := by
  have hops := h.settled
  have hnames : r.fields.map Prod.fst = fields.map Prod.fst := by
    rw [hfields, List.map_map]
    rfl
  refine ⟨hnames ▸ hnodup, ?_, hfits, ?_, h.sound.flat, h.sound.full,
    fun op hop => ⟨hrest op hop, h.sound.closed op hop⟩, ?_⟩
  · rw [hfields]
    exact List.forall_mem_map.2 hplain
  · rw [hnames]
    exact List.map_eq_map_of_forall₂ hops fun f op ⟨_, hop, hsettles⟩ =>
      hsettles.name_eq.trans hop.name_eq
  · refine List.forall_mem_of_forall₂ (P := fun f => f ∈ fields) hops ?_ fun f hf => hf
    rintro f op' ⟨op, hop, hsettles⟩ hf
    rw [hsettles.name_eq, hop.name_eq]
    exact hadmits f hf f.1 op op' hop hsettles

/-- The plan of a declared record stores its fields. -/
theorem RecordOf.stores (hw : env.program.types.WellNamed)
    (hplanned : Plans.PlannedProgram env.program.types env.program.plans)
    (hdecl : env.program.types.types.get? name = some decl) (hr : RecordOf env decl r) :
    Plans.Stores env.program.types env.program.plans (Plans.headerOf decl) (Plans.storedFields decl)
      r.plan := by
  obtain rfl := hw.name_eq hdecl
  obtain ⟨decl', hdecl', -, hstores⟩ := hplanned.planned.stores _ _ hr.plan_eq
  obtain rfl : decl = decl' := by simpa [hdecl] using hdecl'
  exact hstores

/-- The operations of a plan, one for each field of the type. -/
theorem RecordOf.ops (hw : env.program.types.WellNamed)
    (hplanned : Plans.PlannedProgram env.program.types env.program.plans)
    (hdecl : env.program.types.types.get? name = some decl) (hr : RecordOf env decl r) :
    r.plan.Sound env.program.plans ∧ List.Forall₂ (fun (f : Field) op' => ∃ op,
      OpOf env.program.types f.name f.format f.ty op ∧ op.Settles op') decl.fields r.plan.ops := by
  have hstores := hr.stores hw hplanned hdecl
  have hops := hstores.settled
  rw [Plans.storedFields, List.forall₂_map_left_iff] at hops
  exact ⟨hstores.sound, hops⟩

theorem Library.ready (h : Library c env) (hdecl : env.program.types.types.get? name = some decl)
    (hr : RecordOf env decl r)
    (hfits : FieldsFit env r.fields values)
    (hadmits : ∀ f ∈ decl.fields, AdmitsType c env f.ty f.format (values f.name)) :
    Ready c env r values := by
  have hsep := h.separate decl (Dict.mem_values_of_get? hdecl)
  refine (hr.stores h.wellNamed h.planned hdecl).ready ?_ ?_ (List.forall_mem_map.2 hsep.plain)
    (Plans.isRemainder_of_validate h.valid hr.plan_eq) hfits (List.forall_mem_map.2 hadmits)
  · rw [hr.fields_eq, Plans.storedFields, List.map_map]
    rfl
  · rw [Plans.storedFields, List.map_map]
    exact hsep.nodup

theorem Library.supported (h : Library c env)
    (hdecl : env.program.types.types.get? name = some decl) (hstruct : decl.isStruct = true) :
    SupportedOptional c env name := by
  have hmem : decl ∈ env.program.types.structs :=
    TypeTable.mem_structs.2 ⟨Dict.mem_values_of_get? hdecl, hstruct⟩
  obtain ⟨r, hr, hcodecs⟩ := (h.supports decl hmem).codecs
  exact ⟨r, hr.name_eq.trans (h.wellNamed.name_eq hdecl), hcodecs.toOptionalCodecs⟩

/-- A record that leaves what follows it has only fields that do. -/
theorem Ready.delimits_all (h : Ready c env r values)
    (hplan : env.program.plans.types.get? name = some r.plan)
    (hopen : env.program.plans.Delimited name) : ∀ op ∈ r.plan.ops, Delimits env op := by
  obtain ⟨plan, hget, hopen⟩ := hopen
  obtain rfl : r.plan = plan := by simpa [hplan] using hget
  intro op hop
  cases hlast : r.plan.ops.getLast? with
  | none =>
    rw [List.getLast?_eq_none_iff] at hlast
    simp [hlast] at hop
  | some last =>
    obtain ⟨init, hinit⟩ := List.getLast?_eq_some_iff.1 hlast
    have hdrop := h.delimits
    rw [hinit, List.dropLast_concat] at hdrop
    rw [hinit, List.mem_append, List.mem_singleton] at hop
    rcases hop with hop | rfl
    · exact hdrop op hop
    · exact Plans.closed_of_isOpenEnded hopen hlast

/-- A record whose fields are stored is stored. -/
theorem Ready.storable (h : Ready c env r values) (hc : c.Proper) (hsep : env.program.types.Separate)
    (hcodecs : Codecs c env r) (hplan : env.program.plans.types.get? r.name = some r.plan) :
    Storable c env r.name (packed r.fields values) := by
  have hsupported : Supported c env r.name := ⟨r, rfl, hcodecs⟩
  refine ⟨hsupported, fun hcall => ?_⟩
  obtain ⟨rfl, hheader, bits, refs, hbits, rfl⟩ := writer_encodes hc hsep h hcodecs hcall
  refine ⟨rfl, _, _, rfl, hsupported, fun s x rest others hx hrest => ?_⟩
  have hends := hrest.imp_left (h.delimits_all hplan)
  exact reader_restores hc.plain hsep h hcodecs hheader hbits hends hx s

/-- **A record is stored if its fields are.** -/
theorem Library.storable (h : Library c env)
    (hdecl : env.program.types.types.get? name = some decl) (hstruct : decl.isStruct = true)
    (hfits : FieldsFit env (decl.fields.map fun f => (f.name, f.ty)) values)
    (hadmits : ∀ f ∈ decl.fields, AdmitsType c env f.ty f.format (values f.name)) :
    Storable c env name (packed (decl.fields.map fun f => (f.name, f.ty)) values) := by
  obtain rfl := h.wellNamed.name_eq hdecl
  have hmem : decl ∈ env.program.types.structs :=
    TypeTable.mem_structs.2 ⟨Dict.mem_values_of_get? hdecl, hstruct⟩
  obtain ⟨⟨r, hr, hcodecs⟩, -⟩ := h.supports decl hmem
  rw [← hr.fields_eq] at hfits ⊢
  have hready : Ready c env r values := h.ready hdecl hr hfits hadmits
  have hstorable := hready.storable h.proper h.separate hcodecs.toCodecs (hr.name_eq ▸ hr.plan_eq)
  rwa [hr.name_eq] at hstorable

/-- **A record can be boxed.** -/
theorem Library.boxable {format : Option String} {v : Val} (h : Library c env)
    (hdecl : env.program.types.types.get? name = some decl) (hstruct : decl.isStruct = true)
    (hv : Represents env.program.types (.named name false) format v) : Boxable c env name v := by
  obtain rfl := h.wellNamed.name_eq hdecl
  have hmem : decl ∈ env.program.types.structs :=
    TypeTable.mem_structs.2 ⟨Dict.mem_values_of_get? hdecl, hstruct⟩
  obtain ⟨⟨r, hr, hcodecs⟩, view, sh, hview, hboxes, -⟩ := h.supports decl hmem
  have hnodup : sh.names.Nodup := (Layout.shapeWithin_distinct h.separate hview.shape_eq).nodup
  have hrecord : IsRecord decl sh v := by
    have hshape := hv.fits hview.shape_eq
    cases hv with
    | scalar hdecl' hp _ =>
      obtain rfl : decl = _ := by simpa [hdecl] using hdecl'
      simp [primitive?_of_isStruct hstruct] at hp
    | empty hdecl' _ hfields =>
      obtain rfl : decl = _ := by simpa [hdecl] using hdecl'
      exact .empty hfields
    | record hdecl' _ hfields _ _ =>
      obtain rfl : decl = _ := by simpa [hdecl] using hdecl'
      exact .product hfields hshape
  exact ⟨⟨r, hr.name_eq, hcodecs.toOptionalCodecs⟩, notNull_opens h.proper.plain hview hboxes hnodup hrecord,
    fun s w hw => asOptional_boxes hview hboxes hnodup (hrecord.same hw) s, hrecord.isNull_boxed⟩

end Records

/-- Values in the order of fields can be looked up by the names of the fields. -/
theorem exists_values {α : Type} {name : α → String} {fields : List α} {vs : List Val}
    (hnodup : (fields.map name).Nodup) (hlength : vs.length = fields.length) :
    ∃ values : String → Val, List.Forall₂ (fun f v => values (name f) = v) fields vs := by
  induction fields generalizing vs with
  | nil =>
    obtain rfl : vs = [] := by simpa using hlength
    exact ⟨fun _ => .null, .nil⟩
  | cons f fields ih =>
    obtain ⟨v, vs, rfl⟩ := List.exists_cons_of_length_eq_add_one hlength
    rw [List.map_cons, List.nodup_cons] at hnodup
    obtain ⟨values, hvalues⟩ := ih hnodup.2 (by simpa using hlength)
    refine ⟨fun x => if x = name f then v else values x, .cons (by simp) ?_⟩
    refine List.forall₂_iff_zip.2 ⟨hvalues.length_eq, fun {g w} hmem => ?_⟩
    have hne : name g ≠ name f := fun heq =>
      hnodup.1 (heq ▸ List.mem_map_of_mem (List.of_mem_zip hmem).1)
    simpa [hne] using (List.forall₂_iff_zip.1 hvalues).2 hmem

/-- A product of as many parts as there are fields is a record. -/
theorem exists_packed {α : Type} {name : α → String} (ty : α → TypeRef) {fields : List α} {vs : List Val}
    (hnodup : (fields.map name).Nodup) (hfields : fields ≠ []) (hlength : vs.length = fields.length) :
    ∃ values, packed (fields.map fun f => (name f, ty f)) values = .tensor vs ∧
      ∀ f ∈ fields, (f, values (name f)) ∈ fields.zip vs := by
  obtain ⟨values, hvalues⟩ := exists_values hnodup hlength
  obtain rfl : vs = fields.map fun f => values (name f) := by
    rw [← List.map_id vs]
    exact (List.map_eq_map_of_forall₂ hvalues fun f v hv => hv.symm)
  refine ⟨values, ?_, fun f hf => ?_⟩
  · cases fields with
    | nil => exact absurd rfl hfields
    | cons f fields => simp [packed]
  · rw [← List.map_prod_left_eq_zip]
    exact List.mem_map_of_mem hf

/-- The operation of a type that is not a record stores what operations of its kind store. -/
theorem admitsType_primitive {name : String} {decl : TypeDecl} {p : PrimitiveKind} {optional : Bool}
    {format : Option String} {v : Val} (hdecl : env.program.types.types.get? name = some decl)
    (hp : decl.primitive? = some p)
    (hv : ∀ field kind, Plan.primitiveKind format p = .ok kind →
      (optional = true → kind.isRemainder = false) → AdmitsField c env ⟨field, kind, optional⟩ v) :
    AdmitsType c env (.named name optional) format v := by
  intro field op op' hop hsettles
  cases hop with
  | @named _ _ decl' kind hdecl' hkind hplain =>
    obtain rfl : decl = decl' := by simpa [hdecl] using hdecl'
    rw [Plan.declKind, hp] at hkind
    obtain rfl := hsettles.eq_of_isStruct (Plan.primitiveKind_isStruct hkind)
    refine hv field kind hkind fun hoptional => ?_
    by_contra hrest
    simpa [hoptional] using hplain (by simpa using hrest)

/-- The operation of a type that is a record stores the record. -/
theorem admitsType_struct {name : String} {decl : TypeDecl} {optional : Bool}
    {format : Option String} {v : Val} (hw : env.program.types.WellNamed)
    (hdecl : env.program.types.types.get? name = some decl) (hstruct : decl.isStruct = true)
    (hv : ∀ field byRef, AdmitsField c env ⟨field, .struct name byRef, optional⟩ v) :
    AdmitsType c env (.named name optional) format v := by
  intro field op op' hop hsettles
  cases hop with
  | @named _ _ decl' kind hdecl' hkind hplain =>
    obtain rfl : decl = decl' := by simpa [hdecl] using hdecl'
    obtain rfl : OpKind.struct name false = kind := by
      rw [Plan.declKind, primitive?_of_isStruct hstruct, hw.name_eq hdecl] at hkind
      simpa using hkind
    rcases hsettles with rfl | rfl
    · exact hv field false
    · exact hv field true

theorem storable_of_admitsType {name : String} {decl : TypeDecl} {format : Option String} {v : Val}
    (hw : env.program.types.WellNamed) (hdecl : env.program.types.types.get? name = some decl)
    (hstruct : decl.isStruct = true) (h : AdmitsType c env (.named name false) format v) :
    Storable c env name v := by
  have hfield : AdmitsField c env ⟨"", .struct name false, false⟩ v := by
    refine h "" _ _ (.named hdecl ?_ (by simp)) (.refl _)
    rw [Plan.declKind, primitive?_of_isStruct hstruct, hw.name_eq hdecl]
  cases hfield with
  | required hadmits =>
    cases hadmits with
    | struct _ hstorable => exact hstorable

/-- **Every value of a type is one that the operation of the type stores.** -/
theorem Library.admits (h : Library c env) {ty : TypeRef} {format : Option String} {v : Val}
    (hv : Represents env.program.types ty format v) : AdmitsType c env ty format v := by
  induction hv with
  | @scalar name optional format decl p v hdecl hp hholds =>
    refine admitsType_primitive hdecl hp fun field kind hkind hplain => ?_
    have hadmits : Admits c env kind v := admits_primitive hkind hholds
    cases optional with
    | false => exact .required hadmits
    | true => exact .present (hplain rfl) (Plan.primitiveKind_isStruct hkind) hholds.isNull hadmits
  | @empty name format decl hdecl hstruct hfields =>
    have hstorable : Storable c env name (packed (decl.fields.map fun f => (f.name, f.ty))
        fun _ => .null) := by
      refine h.storable hdecl hstruct ?_ ?_ <;> simp [hfields, FieldsFit]
    rw [hfields] at hstorable
    exact admitsType_struct h.wellNamed hdecl hstruct fun field byRef =>
      .required (.struct byRef hstorable)
  | @record name format decl vs hdecl hstruct hfields hlength hvs ih =>
    have hsep := h.separate decl (Dict.mem_values_of_get? hdecl)
    obtain ⟨values, hpacked, hzip⟩ := exists_packed (·.ty) hsep.nodup hfields hlength
    have hstorable : Storable c env name (packed (decl.fields.map fun f => (f.name, f.ty)) values) := by
      refine h.storable hdecl hstruct ?_ fun f hf => ih _ (hzip f hf)
      rintro _ hmem sh hsh
      obtain ⟨f, hf, rfl⟩ := List.mem_map.1 hmem
      exact (hvs _ (hzip f hf)).fits hsh
    rw [hpacked] at hstorable
    exact admitsType_struct h.wellNamed hdecl hstruct fun field byRef =>
      .required (.struct byRef hstorable)
  | @absent name format decl hdecl hcontract =>
    cases hp : decl.primitive? with
    | some p =>
      refine admitsType_primitive hdecl hp fun field kind hkind hplain => .absent (hplain rfl) ?_
      rintro type byRef rfl
      simpa [OpKind.isStruct] using Plan.primitiveKind_isStruct hkind
    | none =>
      have hstruct : decl.isStruct = true := by
        by_contra hnot
        have hlike := TypeDecl.primitive?_eq_none_iff.1 hp
        simpa [hcontract] using TypeDecl.isContract_of_isStructLike hlike (by simpa using hnot)
      refine admitsType_struct h.wellNamed hdecl hstruct fun field byRef => .absent rfl ?_
      rintro type byRef' heq
      obtain ⟨rfl, -⟩ : name = type ∧ _ := by simpa using heq
      exact h.supported hdecl hstruct
  | @present name format decl v hdecl hstruct hv ih =>
    have hstorable := storable_of_admitsType h.wellNamed hdecl hstruct ih
    have hboxable := h.boxable hdecl hstruct hv
    exact admitsType_struct h.wellNamed hdecl hstruct fun field byRef => .boxed hstorable hboxable
  | noMap =>
    intro field op op' hop hsettles
    cases hop
    obtain rfl := hsettles.eq_of_isStruct rfl
    exact .required .noMap
  | map y =>
    intro field op op' hop hsettles
    cases hop
    obtain rfl := hsettles.eq_of_isStruct rfl
    exact .required (.map y)

/-! ### Compiled libraries -/

open Emission (Output)

/-- Whatever `store` puts into a cell of its own, `load` takes out of it. -/
def RoundTripsInCell (c : Code) (store load : String) (v : Val) : Prop :=
  ∀ {s s' : State} {w : Val}, Yields (call c store [v]) s w s' → s' = s ∧ ∃ y, w = .cell y ∧
    ∀ t, ∃ v', Yields (call c load [.slice y.parse]) t v' t ∧ v'.Same v

/-- Whatever `store` puts into a cell that may be absent, `load` takes out of it. -/
def RoundTripsInOptionalCell (c : Code) (store load : String) (v : Val) : Prop :=
  ∀ {s s' : State} {w : Val}, Yields (call c store [v]) s w s' → s' = s ∧
    ∀ t, ∃ v', Yields (call c load [w]) t v' t ∧ v'.Same v

/-- Whatever `store` appends to a builder, `load` finds at the front of a slice, and leaves what
follows it. Nothing may follow unless `more`. -/
def RoundTripsInPlace (c : Code) (store load : String) (more : Prop) (v : Val) : Prop :=
  ∀ {b : Builder} {s s' : State} {w : Val}, Yields (call c store [.builder b, v]) s w s' →
    s' = s ∧ ∃ bits refs, w = .builder (b.push bits refs) ∧
      ∀ {x : Slice} {rest : List Bool} {others : List Cell}, x.Holds (bits ++ rest) (refs ++ others) →
        more ∨ rest = [] ∧ others = [] →
        ∀ t, ∃ x' v', Yields (call c load [.slice x]) t (.tensor [.slice x', v']) t ∧ v'.Same v ∧
          x'.Holds rest others

/-- A compiled library with the plans of the planner, if these have passed the check. -/
theorem library_ofOutput {types : TypeTable} {program : Program} {out : Output}
    (hw : types.WellNamed) (hsep : types.Separate) (hplanned : Program.planned types = .ok program)
    (hvalid : program.plans.validate = .ok ()) (hprogram : env.program = program)
    (hout : compileLibrary env = .ok out) :
    program.types = types ∧ Library (Code.ofOutput out) env := by
  simp only [Program.planned, Except.bind_eq_ok, Except.pure_eq_ok] at hplanned
  obtain ⟨plans, hplans, rfl⟩ := hplanned
  obtain ⟨hproper, hsupports⟩ := compileLibrary_supports hout
  refine ⟨rfl, hproper, ?_, ?_, ?_, ?_, hsupports⟩
  · rw [hprogram]
    exact hw
  · rw [hprogram]
    exact hsep
  · rw [hprogram]
    exact Plans.planProgram_planned hw hplans
  · rw [hprogram]
    exact hvalid

section

variable {decl : TypeDecl} {v : Val}

theorem Library.roundTrips (h : Library c env) (hdecl : decl ∈ env.program.types.structs)
    (hv : Represents env.program.types (.plain decl.name) none v) :
    RoundTripsInCell c (Name.writerCell decl.name) (Name.readerNotMut decl.name) v ∧
      RoundTripsInPlace c (Name.writer decl.name) (Name.reader decl.name)
        (env.program.plans.Delimited decl.name) v := by
  obtain ⟨hmem, hstruct⟩ := TypeTable.mem_structs.1 hdecl
  have hget := h.wellNamed.get?_name hmem
  have hstorable := storable_of_admitsType h.wellNamed hget hstruct (h.admits hv)
  obtain ⟨r, hr, hcodecs⟩ := hstorable.supported
  constructor
  · intro s s' w hcall
    rw [← hr] at hcall hstorable
    obtain ⟨rfl, bits, refs, rfl, hstored⟩ :=
      writerCell_stores h.proper.plain hcodecs hstorable hcall
    rw [hr] at hstored
    exact ⟨rfl, _, rfl, hstored.readerNotMut h.proper.plain (Slice.holds_parse bits refs)⟩
  · intro b s s' w hcall
    obtain ⟨rfl, bits, refs, rfl, hstored⟩ := hstorable.stores hcall
    refine ⟨rfl, bits, refs, rfl, fun {x rest others} hx hrest t => ?_⟩
    obtain ⟨v', x', hread, hsame, hx'⟩ := hstored.reads t hx hrest
    exact ⟨x', v', hread, hsame, hx'⟩

theorem Library.roundTrips_optional (h : Library c env)
    (hdecl : decl ∈ env.program.types.structs)
    (hv : Represents env.program.types (.named decl.name true) none v) :
    RoundTripsInOptionalCell c (Name.writerCellOpt decl.name) (Name.readerCellOpt decl.name) v ∧
      RoundTripsInPlace c (Name.writerOpt decl.name) (Name.readerOpt decl.name)
        (env.program.plans.Delimited decl.name) v := by
  obtain ⟨hmem, hstruct⟩ := TypeTable.mem_structs.1 hdecl
  have hget := h.wellNamed.get?_name hmem
  have hfield : AdmitsField c env ⟨"", .struct decl.name false, true⟩ v := by
    refine h.admits hv "" _ _ (.named hget ?_ (by simp [OpKind.isRemainder])) (.refl _)
    rw [Plan.declKind, primitive?_of_isStruct hstruct]
  obtain ⟨r, hr, hcodecs⟩ := hfield.supported
  have hboxed : v = .null ∨ ∃ u, v = u.boxed ∧ Storable c env r.name u ∧ Boxable c env r.name u := by
    cases hfield with
    | absent _ _ => exact .inl rfl
    | present _ hkind => simp [OpKind.isStruct] at hkind
    | boxed hstorable hboxable => exact .inr ⟨_, rfl, hr ▸ hstorable, hr ▸ hboxable⟩
  constructor
  · intro s s' w hcall
    rw [← hr] at hcall ⊢
    obtain ⟨rfl, hstored⟩ := writerCellOpt_stores h.proper.plain hcodecs hboxed hcall
    exact ⟨rfl, readerCellOpt_reads h.proper.plain hcodecs hstored⟩
  · intro b s s' w hcall
    rw [← hr] at hcall hfield
    obtain ⟨rfl, bits, refs, rfl, hbits⟩ := writerOpt_encodes h.proper.plain hcodecs hfield hcall
    refine ⟨rfl, bits, refs, rfl, fun {x rest others} hx hrest t => ?_⟩
    rw [hr] at hbits
    obtain ⟨v', x', hread, hsame, hx'⟩ :=
      readerOpt_reads h.proper.plain ⟨r, hr, hcodecs⟩ hbits hx hrest t
    exact ⟨x', v', hread, hsame, hx'⟩

end

/-- **Records survive storage.** Take a table of types whose fields have separate names and whose plans
the planner makes and the check accepts, and run the library that it compiles to. Whatever the codecs
of a record store of one of its values, they load again: from a cell of its own, and, if the
plan is not open-ended, from the front of a slice, of which they leave what follows. The same holds of
the codecs for a record that may be absent. Values that hold the state of a contract, at any depth, are
not among those of a record (`Represents`): a library has no codecs for them. -/
theorem library_roundTrips {types : TypeTable} {program : Program} {env : Env} {out : Output}
    (hw : types.WellNamed) (hsep : types.Separate) (hplanned : Program.planned types = .ok program)
    (hvalid : program.plans.validate = .ok ()) (hprogram : env.program = program)
    (hout : compileLibrary env = .ok out) {decl : TypeDecl} (hdecl : decl ∈ types.structs) :
    (∀ v, Represents types (.plain decl.name) none v →
      RoundTripsInCell (.ofOutput out) (Name.writerCell decl.name) (Name.readerNotMut decl.name) v ∧
      RoundTripsInPlace (.ofOutput out) (Name.writer decl.name) (Name.reader decl.name)
        (program.plans.Delimited decl.name) v) ∧
    (∀ v, Represents types (.named decl.name true) none v →
      RoundTripsInOptionalCell (.ofOutput out) (Name.writerCellOpt decl.name)
        (Name.readerCellOpt decl.name) v ∧
      RoundTripsInPlace (.ofOutput out) (Name.writerOpt decl.name) (Name.readerOpt decl.name)
        (program.plans.Delimited decl.name) v) := by
  obtain ⟨htypes, hlibrary⟩ := library_ofOutput hw hsep hplanned hvalid hprogram hout
  subst hprogram htypes
  exact ⟨fun v hv => hlibrary.roundTrips hdecl hv, fun v hv => hlibrary.roundTrips_optional hdecl hv⟩

/-- A record with a number that may be absent and a slice that takes what is left. -/
def noteDecl : TypeDecl :=
  .ofFields .struct "Note" [⟨"id", 0, .named "Int" true, some "uint64", none⟩,
    ⟨"text", 1, .plain "Slice", some "remaining", none⟩]

/-- The table of notes with its plans. -/
def noteEnv : Env where
  program :=
    let types := TypeTable.primitives.addType noteDecl
    { types, plans := (planProgram types).toOption.getD {} }
  evaluate := noConstants

theorem note_roundTrips : noteEnv.program.types.WellNamed ∧ noteEnv.program.types.Separate ∧
    Program.planned noteEnv.program.types = .ok noteEnv.program ∧
    noteEnv.program.plans.validate = .ok () ∧ noteDecl ∈ noteEnv.program.types.structs ∧
    ∃ out, compileLibrary noteEnv = .ok out ∧ ∀ id text,
      Represents noteEnv.program.types (.plain "Note") none (.tensor [.int id, .slice text]) ∧
      RoundTripsInCell (.ofOutput out) (Name.writerCell "Note") (Name.readerNotMut "Note")
        (.tensor [.int id, .slice text]) := by
  have hw : noteEnv.program.types.WellNamed := ⟨by decide +kernel, by decide +kernel⟩
  have hsep : noteEnv.program.types.Separate := by
    have hall : ∀ decl ∈ noteEnv.program.types.types.values, (decl.fields.map (·.name)).Nodup ∧
        ∀ f ∈ decl.fields, '\'' ∉ f.name.toList := by decide +kernel
    exact fun decl hdecl => ⟨(hall decl hdecl).1, (hall decl hdecl).2⟩
  have hplanned : Program.planned noteEnv.program.types = .ok noteEnv.program := rfl
  have hvalid : noteEnv.program.plans.validate = .ok () := rfl
  have hdecl : noteDecl ∈ noteEnv.program.types.structs := List.mem_of_getLast? rfl
  obtain ⟨out, hout⟩ : ∃ out, compileLibrary noteEnv = .ok out := by
    exact Except.exists_of_toOption_isSome (by decide +kernel)
  refine ⟨hw, hsep, hplanned, hvalid, hdecl, out, hout, fun id text => ?_⟩
  have hv : Represents noteEnv.program.types (.plain "Note") none
      (.tensor [.int id, .slice text]) := by
    have hget : noteEnv.program.types.types.get? "Note" = some noteDecl := rfl
    refine .record hget rfl (List.cons_ne_nil _ _) rfl
      (List.forall_mem_cons.2 ⟨?_, List.forall_mem_singleton.2 ?_⟩)
    · exact .scalar rfl rfl trivial
    · exact .scalar rfl rfl (by simp [Machine.Holds])
  exact ⟨hv, ((library_roundTrips hw hsep hplanned hvalid rfl hout hdecl).1 _ hv).1⟩

end CellCompiler
