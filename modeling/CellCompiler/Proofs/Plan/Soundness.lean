import CellCompiler.Proofs.Descent
import CellCompiler.Proofs.Plan.Placement
import CellCompiler.Proofs.Source.Table

/-!
# Soundness of the planner

Every plan that the planner makes is sound, and it stores every field once, in the order of
declaration:

* `Plan.OpOf` describes the operation that a field gives rise to;
* `Plans.Planned` is the invariant of planning: every plan is sound and stores the fields of its
  type. `Plan.planType_step` shows that planning one type keeps it;
* `Plans.planProgram_planned` is the main result, for all types and the arguments of all contracts;
* `Plan.planProgram_acc`: a record is planned after the records in its fields, so that no record holds
  itself at any depth. This is what inductions along the fields of a planned program go by.
-/

namespace CellCompiler

namespace Plan

variable {table : TypeTable} {owner name : String} {ty : TypeRef} {format : Option String} {op : Op}

/-! ### Operations of fields -/

/-- The operation by which a value of a type is stored under a name. -/
inductive OpOf (table : TypeTable) (name : String) (format : Option String) : TypeRef → Op → Prop
  | map {key keyAs value valueAs} : OpOf table name format (.map key keyAs value valueAs)
      ⟨name, .map, false⟩
  | named {typeName optional decl kind} (hdecl : table.types.get? typeName = some decl)
      (hkind : declKind decl format = .ok kind)
      (hplain : kind.isRemainder = true → optional = false) :
      OpOf table name format (.named typeName optional) ⟨name, kind, optional⟩

theorem typeOp_opOf (h : typeOp table owner name ty format = .ok op) :
    OpOf table name format ty op := by
  cases ty with
  | map key keyAs value valueAs =>
    obtain rfl : Op.mk name .map false = op := by simpa [typeOp] using h
    exact .map
  | named typeName optional =>
    simp only [typeOp] at h
    cases hdecl : table.types.get? typeName with
    | none => simp [hdecl] at h
    | some decl =>
      simp only [hdecl] at h
      cases hkind : declKind decl format with
      | error reason => simp [hkind] at h
      | ok kind =>
        simp only [hkind] at h
        split at h
        · simp at h
        · next hplain =>
          obtain rfl : Op.mk name kind optional = op := by simpa using h
          exact .named hdecl hkind fun hr => by simpa [hr] using hplain
  | _ => simp [typeOp] at h

theorem OpOf.name_eq (h : OpOf table name format ty op) : op.name = name := by
  cases h <;> rfl

theorem OpOf.optional_eq (h : OpOf table name format ty op) : op.optional = ty.isOptional := by
  cases h <;> rfl

theorem OpOf.optional_of_isRemainder (h : OpOf table name format ty op)
    (hr : op.kind.isRemainder = true) : op.optional = false := by
  cases h with
  | map => rfl
  | named _ _ hplain => exact hplain hr

theorem intKind_eq_some {kind : OpKind} (h : intKind format = some kind) :
    kind = .coins ∨ (∃ bits, kind = .int bits) ∨ ∃ bits, kind = .uint bits := by
  cases format with
  | none =>
    obtain rfl : OpKind.int 257 = kind := by simpa [intKind] using h
    exact .inr (.inl ⟨257, rfl⟩)
  | some text =>
    simp only [intKind] at h
    split at h
    · obtain rfl : OpKind.coins = kind := by simpa using h
      exact .inl rfl
    · split at h
      · obtain ⟨bits, -, rfl⟩ := Option.map_eq_some_iff.1 h
        exact .inr (.inr ⟨bits, rfl⟩)
      · split at h
        · obtain ⟨bits, -, rfl⟩ := Option.map_eq_some_iff.1 h
          exact .inr (.inl ⟨bits, rfl⟩)
        · simp at h

theorem primitiveKind_int {kind : OpKind} (h : primitiveKind format .int = .ok kind) :
    kind = .coins ∨ (∃ bits, kind = .int bits) ∨ ∃ bits, kind = .uint bits := by
  simp only [primitiveKind] at h
  split at h
  · next found hfound =>
    obtain rfl : found = kind := by simpa using h
    exact intKind_eq_some hfound
  · simp at h

theorem primitiveKind_isStruct {p : PrimitiveKind} {kind : OpKind}
    (h : primitiveKind format p = .ok kind) : kind.isStruct = false := by
  cases p with
  | int => rcases primitiveKind_int h with rfl | ⟨_, rfl⟩ | ⟨_, rfl⟩ <;> rfl
  | slice => simp only [primitiveKind] at h; split at h <;> cases h <;> rfl
  | string => simp only [primitiveKind] at h; split at h <;> cases h <;> rfl
  | stringBuilder => simp [primitiveKind] at h
  | _ => cases h; rfl

theorem declKind_eq_struct {decl : TypeDecl} {n : String} {byRef : Bool}
    (h : declKind decl format = .ok (.struct n byRef)) :
    decl.isStructLike = true ∧ n = decl.name ∧ byRef = false := by
  rw [← TypeDecl.primitive?_eq_none_iff]
  cases hp : decl.primitive? with
  | none =>
    obtain ⟨rfl, rfl⟩ : decl.name = n ∧ false = byRef := by simpa [declKind, hp] using h
    exact ⟨rfl, rfl, rfl⟩
  | some kind =>
    have := primitiveKind_isStruct (by simpa [declKind, hp] using h)
    simp [OpKind.isStruct] at this

/-- Cells, slices, builders and texts can take everything that is left. -/
def canTakeRest : PrimitiveKind → Bool
  | .cell | .slice | .builder | .string => true
  | _ => false

theorem primitiveKind_isRemainder {p : PrimitiveKind} {kind : OpKind}
    (h : primitiveKind format p = .ok kind) (hr : kind.isRemainder = true) :
    canTakeRest p = true ∧ format = some "remaining" := by
  have rest {f : Format} (hf : remainderFormat format = f) (hr : f = .remainder) :
      format = some "remaining" := by
    by_contra hne
    simp [remainderFormat, hne, hr] at hf
  cases p with
  | int =>
    rcases primitiveKind_int h with rfl | ⟨_, rfl⟩ | ⟨_, rfl⟩ <;> simp [OpKind.isRemainder] at hr
  | cell =>
    cases h
    exact ⟨rfl, rest rfl (by simpa [OpKind.isRemainder] using hr)⟩
  | builder =>
    cases h
    exact ⟨rfl, rest rfl (by simpa [OpKind.isRemainder] using hr)⟩
  | slice =>
    simp only [primitiveKind] at h
    split at h
    · cases h; simp [OpKind.isRemainder] at hr
    · cases h; simp [OpKind.isRemainder] at hr
    · cases h
      exact ⟨rfl, rest rfl (by simpa [OpKind.isRemainder] using hr)⟩
  | string =>
    simp only [primitiveKind] at h
    split at h
    · next hf => exact ⟨rfl, rest hf rfl⟩
    · cases h; simp [OpKind.isRemainder] at hr
  | stringBuilder => simp [primitiveKind] at h
  | _ => cases h; simp [OpKind.isRemainder] at hr

/-- A value of the type takes everything that is left in its cell. -/
def takesRest (table : TypeTable) (ty : TypeRef) (format : Option String) : Bool :=
  format == some "remaining" &&
    match ty with
    | .named typeName _ => ((table.types.get? typeName).bind TypeDecl.primitive?).any canTakeRest
    | _ => false

theorem OpOf.takesRest (h : OpOf table name format ty op) (hr : op.kind.isRemainder = true) :
    takesRest table ty format = true := by
  cases h with
  | map => simp [OpKind.isRemainder] at hr
  | @named typeName optional decl kind hdecl hkind _ =>
    cases hp : decl.primitive? with
    | none =>
      obtain rfl : OpKind.struct decl.name false = kind := by simpa [declKind, hp] using hkind
      simp [OpKind.isRemainder] at hr
    | some p =>
      obtain ⟨hcan, rfl⟩ := primitiveKind_isRemainder (by simpa [declKind, hp] using hkind) hr
      simp [Plan.takesRest, hdecl, hp, hcan]

theorem OpOf.isInPlace (h : OpOf table name format ty op) : op.IsInPlace := by
  intro n hn
  cases h with
  | map => simp at hn
  | named _ hkind _ =>
    cases hn
    exact absurd (declKind_eq_struct hkind).2.2 (by simp)

theorem OpOf.struct (h : OpOf table name format ty op) (hw : table.WellNamed) {n : String}
    {byRef : Bool} (hn : op.kind = .struct n byRef) :
    ∃ decl, table.types.get? n = some decl ∧ decl.isStructLike = true := by
  cases h with
  | map => simp at hn
  | named hdecl hkind _ =>
    cases hn
    obtain ⟨hs, rfl, -⟩ := declKind_eq_struct hkind
    exact ⟨_, hw.name_eq hdecl ▸ hdecl, hs⟩

end Plan

/-! ### The invariant of planning -/

namespace Plans

open Plan (Op OpOf Usage Error)

variable {table : TypeTable} {all more : Plans} {name : String} {plan : Plan}

/-- The plan of a record with these fields, each a name with its type and format. -/
structure Stores (table : TypeTable) (all : Plans) (header : Option Plan.Header)
    (fields : List (String × TypeRef × Option String)) (plan : Plan) : Prop where
  sound : plan.Sound all
  header_eq : plan.header = header
  /-- One operation per field, in the order of declaration. -/
  ops : ∃ ops, List.Forall₂ (fun f op => OpOf table f.1 f.2.2 f.2.1 op) fields ops ∧
    List.Forall₂ Op.Settles ops plan.ops

/-- The header of the messages of a type. -/
def headerOf (decl : TypeDecl) : Option Plan.Header :=
  decl.header.map fun value => ⟨value, Plan.headerBits⟩

/-- The fields of a type as they are stored. -/
def storedFields (decl : TypeDecl) : List (String × TypeRef × Option String) :=
  decl.fields.map fun f => (f.name, f.ty, f.format)

/-- The parameters of a contract as they are stored. -/
def storedParams (decl : TypeDecl) : List (String × TypeRef × Option String) :=
  decl.initParams.map fun p => (p.name, p.ty, none)

/-- Every plan stores the fields of its type. -/
structure Planned (table : TypeTable) (all : Plans) : Prop where
  nodup : all.types.keys.Nodup
  stores : ∀ name plan, all.types.get? name = some plan → ∃ decl,
    table.types.get? name = some decl ∧ decl.isStructLike = true ∧
      Stores table all (headerOf decl) (storedFields decl) plan

theorem Stores.mono {header : Option Plan.Header} {fields : List (String × TypeRef × Option String)}
    (h : all.Extends more) (hp : Stores table all header fields plan) :
    Stores table more header fields plan :=
  ⟨hp.sound.mono h, hp.header_eq, hp.ops⟩

theorem planned_empty : Planned table {} := ⟨List.nodup_nil, fun _ _ h => by simp at h⟩

theorem Planned.insert {decl : TypeDecl} (h : Planned table all)
    (hnew : all.types.get? name = none) (hdecl : table.types.get? name = some decl)
    (hs : decl.isStructLike = true)
    (hp : Stores table all (headerOf decl) (storedFields decl) plan) :
    Planned table { all with types := all.types.insert name plan } := by
  have grow : all.Extends { all with types := all.types.insert name plan } := .insert hnew
  refine ⟨Dict.nodup_keys_insert h.nodup, fun n p hn => ?_⟩
  simp only [Dict.get?_insert] at hn
  split_ifs at hn with heq
  · obtain rfl : plan = p := by simpa using hn
    exact ⟨decl, heq ▸ hdecl, hs, hp.mono grow⟩
  · obtain ⟨d, hd, hds, hstores⟩ := h.stores n p hn
    exact ⟨d, hd, hds, hstores.mono grow⟩

theorem stores_of_ofOps {fields : List (String × TypeRef × Option String)} {ops : List Op}
    {header : Option Plan.Header} (hh : Plan.HeaderFits header)
    (hops : List.Forall₂ (fun f op => OpOf table f.1 f.2.2 f.2.1 op) fields ops)
    (h : Plan.ofOps all name header ops = .ok plan) : Stores table all header fields plan := by
  have hin : ∀ op ∈ ops, op.IsInPlace :=
    List.forall_mem_of_forall₂ (P := fun _ => True) hops (fun _ _ ho _ => ho.isInPlace) (by simp)
  obtain ⟨hsound, hheader, hsettles⟩ := Plan.ofOps_sound hh hin h
  exact ⟨hsound, hheader, ops, hops, hsettles⟩

theorem headerFits_headerOf (decl : TypeDecl) : Plan.HeaderFits (headerOf decl) := by
  intro h hmem
  obtain ⟨value, -, rfl⟩ : ∃ value, decl.header = some value ∧ Plan.Header.mk value 32 = h := by
    simpa [headerOf, Plan.headerBits] using hmem
  change (32 : UInt16).toNat ≤ Cell.maxBits
  decide

end Plans

namespace Plan

open Plans (Planned headerOf storedFields storedParams Stores)

variable {table : TypeTable} {all all' : Plans} {name : String} {pending : List String}

theorem forall₂_opOf_fields {decl : TypeDecl} {ops : List Op}
    (h : decl.fields.mapM (fieldOp table name) = .ok ops) :
    List.Forall₂ (fun f op => OpOf table f.1 f.2.2 f.2.1 op) (storedFields decl) ops := by
  rw [storedFields, List.forall₂_map_left_iff]
  exact (List.mapM_eq_ok.1 h).imp fun f op hop => typeOp_opOf hop

theorem forall₂_opOf_params {decl : TypeDecl} {ops : List Op}
    (h : decl.initParams.mapM (paramOp table name) = .ok ops) :
    List.Forall₂ (fun f op => OpOf table f.1 f.2.2 f.2.1 op) (storedParams decl) ops := by
  rw [storedParams, List.forall₂_map_left_iff]
  exact (List.mapM_eq_ok.1 h).imp fun f op hop => typeOp_opOf hop

/-- What planning a type does to the plans. -/
structure Step (table : TypeTable) (pending : List String) (all all' : Plans) : Prop where
  planned : Planned table all'
  grows : all.Extends all'
  initArgs_eq : all'.initArgs = all.initArgs
  /-- A type that is being planned does not get a plan below itself. -/
  pending_none : ∀ n ∈ pending, all.types.get? n = none → all'.types.get? n = none

theorem nestedTypes_isStructLike (hw : table.WellNamed) {nested : String}
    {fields : List (String × TypeRef × Option String)} {ops : List Op}
    (hops : List.Forall₂ (fun f op => OpOf table f.1 f.2.2 f.2.1 op) fields ops)
    (h : nested ∈ nestedTypes ops) :
    ∃ decl, table.types.get? nested = some decl ∧ decl.isStructLike = true := by
  obtain ⟨op, hop, hkind⟩ := List.mem_filterMap.1 h
  obtain ⟨byRef, hkind⟩ : ∃ byRef, op.kind = .struct nested byRef := by
    split at hkind
    · next n r hn => exact ⟨r, by simpa [hn] using hkind⟩
    · simp at hkind
  have hall : ∀ op ∈ ops, ∀ n byRef, op.kind = .struct n byRef →
      ∃ decl, table.types.get? n = some decl ∧ decl.isStructLike = true :=
    List.forall_mem_of_forall₂ (P := fun _ => True) hops (fun _ _ ho _ _ _ hn => ho.struct hw hn)
      (by simp)
  exact hall op hop nested byRef hkind

/-- What planning a type adds to the plans. -/
structure Adds (pending : List String) (all all' : Plans) : Prop where
  grows : all.Extends all'
  initArgs_eq : all'.initArgs = all.initArgs
  /-- A type that is being planned does not get a plan below itself. -/
  pending_none : ∀ n ∈ pending, all.types.get? n = none → all'.types.get? n = none

theorem Adds.refl (pending : List String) (all : Plans) : Adds pending all all :=
  ⟨.refl all, rfl, fun _ _ hn => hn⟩

theorem Adds.trans {all'' : Plans} (h : Adds pending all all') (h' : Adds pending all' all'') :
    Adds pending all all'' :=
  ⟨h.grows.trans h'.grows, h'.initArgs_eq.trans h.initArgs_eq,
    fun n hn hnone => h'.pending_none n hn (h.pending_none n hn hnone)⟩

/-- Planning a type plans the types of its fields and then the type itself. `Q` holds of every type
that is planned on the way, and `P` is kept as the plan of each is added to those of its fields. -/
theorem planType_keeps {P : Plans → Prop} {Q : String → Prop}
    (hnested : ∀ {name decl ops}, Q name → table.types.get? name = some decl →
      decl.fields.mapM (fieldOp table name) = .ok ops → ∀ nested ∈ nestedTypes ops, Q nested)
    (hadd : ∀ {all name decl ops plan}, Q name → P all → all.types.get? name = none →
      table.types.get? name = some decl → decl.fields.mapM (fieldOp table name) = .ok ops →
      ofOps all name (headerOf decl) ops = .ok plan →
      P { all with types := all.types.insert name plan })
    {fuel : Nat} (hall : P all) (hname : Q name)
    (h : planType table fuel pending all name = .ok all') :
    P all' ∧ Adds pending all all' ∧ ∃ plan, all'.types.get? name = some plan := by
  induction fuel generalizing pending all all' name with
  | zero => simp [planType] at h
  | succ fuel ih =>
    simp only [planType] at h
    split at h
    · next hc =>
      obtain rfl : all = all' := by simpa using h
      exact ⟨hall, .refl pending all, Dict.contains_eq_true_iff.1 hc⟩
    · next hc =>
      have hnew : all.types.get? name = none := by
        rw [← Dict.contains_eq_false_iff]
        simpa using hc
      split at h
      · simp at h
      · next hp =>
        have hpending : name ∉ pending := by simpa using hp
        split at h
        · simp at h
        · next decl hdecl =>
          simp only [Except.bind_eq_ok, Except.pure_eq_ok] at h
          obtain ⟨ops, hops, below, hbelow, plan, hplan, rfl⟩ := h
          -- the types of the fields are planned first, none of them the type itself
          have hstep : P below ∧ Adds (name :: pending) all below := by
            refine List.foldlM_invariant (fun b => P b ∧ Adds (name :: pending) all b) ?_
              ⟨hall, .refl _ all⟩ hbelow
            rintro nested hin b b' ⟨hb, hadds⟩ hb'
            obtain ⟨hP, hadds', -⟩ := ih hb (hnested hname hdecl hops nested hin) hb'
            exact ⟨hP, hadds.trans hadds'⟩
          obtain ⟨hbelowP, hadds⟩ := hstep
          have hnone : below.types.get? name = none :=
            hadds.pending_none name List.mem_cons_self hnew
          refine ⟨hadd hname hbelowP hnone hdecl hops hplan,
            ⟨hadds.grows.trans (.insert hnone), hadds.initArgs_eq, fun n hn hn' => ?_⟩, plan, ?_⟩
          · have hne : n ≠ name := fun heq => hpending (heq ▸ hn)
            simpa [hne] using hadds.pending_none n (List.mem_cons_of_mem name hn) hn'
          · simp

/-- Planning a record of a table keeps that every plan stores the fields of its type. -/
theorem planType_step (hw : table.WellNamed) {fuel : Nat} (hall : Planned table all)
    (hname : ∃ decl, table.types.get? name = some decl ∧ decl.isStructLike = true)
    (h : planType table fuel pending all name = .ok all') :
    Step table pending all all' ∧ ∃ plan, all'.types.get? name = some plan := by
  have hkept : Planned table all' ∧ Adds pending all all' ∧
      ∃ plan, all'.types.get? name = some plan := by
    refine planType_keeps
      (Q := fun name => ∃ decl, table.types.get? name = some decl ∧ decl.isStructLike = true)
      (fun _ _ hops nested hin => nestedTypes_isStructLike hw (forall₂_opOf_fields hops) hin)
      ?_ hall hname h
    rintro all name decl ops plan ⟨decl', hdecl', hs⟩ hall hnone hdecl hops hplan
    obtain rfl : decl' = decl := by simpa [hdecl] using hdecl'.symm
    exact hall.insert hnone hdecl hs (Plans.stores_of_ofOps (Plans.headerFits_headerOf decl')
      (forall₂_opOf_fields hops) hplan)
  obtain ⟨hplanned, hadds, hplan⟩ := hkept
  exact ⟨⟨hplanned, hadds.grows, hadds.initArgs_eq, hadds.pending_none⟩, hplan⟩

end Plan

/-! ### The plans of a program -/

namespace Plans

open Plan (Op OpOf Usage Error Chain)

variable {table : TypeTable} {all plans : Plans} {name : String} {plan : Plan}

/-- Every record and the arguments of every contract have a plan, and there are no other plans. -/
structure PlannedProgram (table : TypeTable) (plans : Plans) : Prop where
  planned : Planned table plans
  nodup : plans.initArgs.keys.Nodup
  /-- Every record has a plan. -/
  types : ∀ decl ∈ table.types.values, decl.isStructLike = true →
    ∃ plan, plans.types.get? decl.name = some plan
  /-- Every contract has a plan of its arguments. -/
  initArgs : ∀ contract ∈ table.contracts, ∃ plan, plans.initArgs.get? contract.name = some plan
  storesArgs : ∀ name plan, plans.initArgs.get? name = some plan → ∃ contract ∈ table.contracts,
    contract.name = name ∧ Stores table plans none (storedParams contract) plan

/-- What holds while the arguments of contracts are planned: the plans of types stay. -/
structure PlansArgs (table : TypeTable) (types : Dict Plan) (all : Plans) : Prop where
  types_eq : all.types = types
  nodup : all.initArgs.keys.Nodup
  storesArgs : ∀ name plan, all.initArgs.get? name = some plan → ∃ contract ∈ table.contracts,
    contract.name = name ∧ Stores table ⟨types, .empty⟩ none (storedParams contract) plan

theorem extends_of_types_eq {a b : Plans} (h : a.types = b.types) : a.Extends b :=
  ⟨fun _ _ hp => h ▸ hp, h ▸ Nat.le_refl _⟩

theorem planInitArgs_step {types : Dict Plan} {contract : TypeDecl} {all' : Plans}
    (hc : contract ∈ table.contracts) (hall : PlansArgs table types all)
    (h : Plan.planInitArgs table all contract = .ok all') :
    PlansArgs table types all' ∧ ∃ plan, all'.initArgs.get? contract.name = some plan := by
  simp only [Plan.planInitArgs, Except.bind_eq_ok, Except.pure_eq_ok] at h
  obtain ⟨ops, hops, plan, hplan, rfl⟩ := h
  have hstores : Stores table all none (storedParams contract) plan :=
    stores_of_ofOps (fun _ hh => by simp at hh) (Plan.forall₂_opOf_params hops) hplan
  refine ⟨⟨hall.types_eq, Dict.nodup_keys_insert hall.nodup, fun n p hn => ?_⟩, plan, by simp⟩
  simp only [Dict.get?_insert] at hn
  split_ifs at hn with heq
  · obtain rfl : plan = p := by simpa using hn
    exact ⟨contract, hc, heq.symm, hstores.mono (extends_of_types_eq hall.types_eq)⟩
  · exact hall.storesArgs n p hn

theorem planProgram_planned (hw : table.WellNamed) (h : planProgram table = .ok plans) :
    PlannedProgram table plans := by
  simp only [planProgram, Except.bind_eq_ok] at h
  obtain ⟨mid, hmid, h⟩ := h
  have hrecord {decl : TypeDecl} (hd : decl ∈ table.types.values.filter TypeDecl.isStructLike) :
      ∃ d, table.types.get? decl.name = some d ∧ d.isStructLike = true := by
    obtain ⟨hmem, hs⟩ := List.mem_filter.1 hd
    exact ⟨decl, hw.get?_name hmem, hs⟩
  -- the records, each after the records in its fields
  have htypes : Planned table mid ∧ mid.initArgs = .empty := by
    refine List.foldlM_invariant (fun all : Plans => Planned table all ∧ all.initArgs = .empty) ?_
      ⟨planned_empty, rfl⟩ hmid
    rintro decl hd b b' ⟨hb, hargs⟩ hb'
    have step := (Plan.planType_step hw hb (hrecord hd) hb').1
    exact ⟨step.planned, step.initArgs_eq.trans hargs⟩
  have hreach : ∀ decl ∈ table.types.values.filter TypeDecl.isStructLike,
      ∃ plan, mid.types.get? decl.name = some plan := by
    refine List.foldlM_reaches (Planned table) (fun decl all => ∃ plan, all.types.get? decl.name =
      some plan) ?_ ?_ planned_empty hmid
    · intro decl hd b b' hb hb'
      obtain ⟨step, hplan⟩ := Plan.planType_step hw hb (hrecord hd) hb'
      exact ⟨step.planned, hplan⟩
    · rintro decl hd x b b' hb ⟨plan, hplan⟩ hb'
      exact ⟨plan, (Plan.planType_step hw hb (hrecord hd) hb').1.grows.kept _ _ hplan⟩
  -- the arguments, which leave the plans of records alone
  have hstart : PlansArgs table mid.types mid :=
    ⟨rfl, by rw [htypes.2]; exact List.nodup_nil, fun n p hn => by simp [htypes.2] at hn⟩
  have hargs := List.foldlM_invariant (PlansArgs table mid.types)
    (fun contract hc b b' hb hb' => (planInitArgs_step hc hb hb').1) hstart h
  have hall : ∀ contract ∈ table.types.values.filter (·.isContract),
      ∃ plan, plans.initArgs.get? contract.name = some plan := by
    refine List.foldlM_reaches (PlansArgs table mid.types) (fun contract all => ∃ plan,
      all.initArgs.get? contract.name = some plan)
      (fun contract hc b b' hb hb' => planInitArgs_step hc hb hb') ?_ hstart h
    rintro contract hc x b b' hb ⟨plan, hplan⟩ hb'
    simp only [Plan.planInitArgs, Except.bind_eq_ok, Except.pure_eq_ok] at hb'
    obtain ⟨ops, -, new, -, rfl⟩ := hb'
    by_cases hx : x.name = contract.name
    · exact ⟨new, by simp [hx]⟩
    · exact ⟨plan, by simpa [hx] using hplan⟩
  have grow : mid.Extends plans := extends_of_types_eq hargs.types_eq.symm
  have grow' : (⟨mid.types, .empty⟩ : Plans).Extends plans :=
    extends_of_types_eq hargs.types_eq.symm
  refine ⟨⟨hargs.types_eq ▸ htypes.1.nodup, fun n p hn => ?_⟩, hargs.nodup, fun decl hd hs => ?_,
    hall, fun n p hn => ?_⟩
  · obtain ⟨decl, hdecl, hs, hstores⟩ := htypes.1.stores n p (hargs.types_eq ▸ hn)
    exact ⟨decl, hdecl, hs, hstores.mono grow⟩
  · obtain ⟨plan, hplan⟩ := hreach decl (List.mem_filter.2 ⟨hd, hs⟩)
    exact ⟨plan, grow.kept _ _ hplan⟩
  · obtain ⟨contract, hc, hname, hstores⟩ := hargs.storesArgs n p hn
    exact ⟨contract, hc, hname, hstores.mono grow'⟩

end Plans

/-! ### Records in records -/

/-- A field of the one type is of the other, which may be absent. -/
def TypeTable.Nests (table : TypeTable) (outer inner : String) : Prop :=
  ∃ decl, table.types.get? outer = some decl ∧
    ∃ f ∈ decl.fields, ∃ optional, f.ty = .named inner optional

/-- A field of the one type holds a record of the other, which may be absent. -/
def TypeTable.Embeds (table : TypeTable) (inner outer : String) : Prop :=
  table.Nests outer inner ∧ ∃ decl, table.types.get? inner = some decl ∧ decl.isStructLike = true

namespace Plan

variable {table : TypeTable} {all all' : Plans} {name : String}

/-- The records in the fields of a record are among those planned before it. -/
theorem mem_nestedTypes (hw : table.WellNamed) {decl inner : TypeDecl} {ops : List Op}
    (hops : decl.fields.mapM (fieldOp table name) = .ok ops) {f : Field} (hf : f ∈ decl.fields)
    {innerName : String} {optional : Bool} (hty : f.ty = .named innerName optional)
    (hinner : table.types.get? innerName = some inner) (hs : inner.isStructLike = true) :
    innerName ∈ nestedTypes ops := by
  obtain ⟨op, hop, hfield⟩ : ∃ op ∈ ops, fieldOp table name f = .ok op := by
    have hall := List.mapM_eq_ok.1 hops
    generalize decl.fields = fields at hf hall
    clear hops
    induction hall with
    | nil => simp at hf
    | cons hg _ ih =>
      rcases List.mem_cons.1 hf with rfl | hf
      · exact ⟨_, List.mem_cons_self, hg⟩
      · obtain ⟨op, hop, hfield⟩ := ih hf
        exact ⟨op, List.mem_cons_of_mem _ hop, hfield⟩
  refine List.mem_filterMap.2 ⟨op, hop, ?_⟩
  have hof := typeOp_opOf hfield
  rw [hty] at hof
  cases hof with
  | named hdecl hkind _ =>
    obtain rfl : inner = _ := by simpa [hinner] using hdecl
    obtain rfl := hw.name_eq hinner
    rw [declKind, TypeDecl.primitive?_eq_none_iff.2 hs] at hkind
    obtain rfl := Except.ok.inj hkind
    rfl

/-- Planned records hold no record that holds itself. -/
theorem planType_acc (hw : table.WellNamed) {fuel : Nat} {pending : List String}
    (hall : ∀ n plan, all.types.get? n = some plan → Acc table.Embeds n)
    (h : planType table fuel pending all name = .ok all') :
    (∀ n plan, all'.types.get? n = some plan → Acc table.Embeds n) ∧ Acc table.Embeds name := by
  induction fuel generalizing pending all all' name with
  | zero => simp [planType] at h
  | succ fuel ih =>
    simp only [planType] at h
    split at h
    · next hc =>
      obtain rfl : all = all' := by simpa using h
      obtain ⟨plan, hplan⟩ := Dict.contains_eq_true_iff.1 hc
      exact ⟨hall, hall name plan hplan⟩
    · split at h
      · simp at h
      · cases hdecl : table.types.get? name with
        | none => simp [hdecl] at h
        | some decl =>
          simp only [hdecl, Except.bind_eq_ok, Except.pure_eq_ok] at h
          obtain ⟨ops, hops, below, hbelow, plan, -, rfl⟩ := h
          have hstep : ∀ nested ∈ nestedTypes ops, ∀ b b' : Plans,
              (∀ n plan, b.types.get? n = some plan → Acc table.Embeds n) →
              planType table fuel (name :: pending) b nested = .ok b' →
              (∀ n plan, b'.types.get? n = some plan → Acc table.Embeds n) ∧
                Acc table.Embeds nested := fun nested _ b b' hb hb' => ih hb hb'
          have hbelowAcc := List.foldlM_invariant
            (fun b : Plans => ∀ n plan, b.types.get? n = some plan → Acc table.Embeds n)
            (fun nested hn b b' hb hb' => (hstep nested hn b b' hb hb').1) hall hbelow
          have hnested := List.foldlM_reaches
            (fun b : Plans => ∀ n plan, b.types.get? n = some plan → Acc table.Embeds n)
            (fun nested _ => Acc table.Embeds nested) hstep (fun _ _ _ _ _ _ hx _ => hx) hall hbelow
          have hname : Acc table.Embeds name := by
            refine .intro name ?_
            rintro innerName ⟨⟨decl', hdecl', f, hf, optional, hty⟩, inner, hinner, hs⟩
            obtain rfl : decl = decl' := by simpa [hdecl] using hdecl'
            exact hnested innerName (mem_nestedTypes hw hops hf hty hinner hs)
          refine ⟨fun n p hn => ?_, hname⟩
          rw [Dict.get?_insert] at hn
          split_ifs at hn with heq
          · exact heq ▸ hname
          · exact hbelowAcc n p hn

/-- **No record holds itself.** -/
theorem planProgram_acc (hw : table.WellNamed) {plans : Plans} (h : planProgram table = .ok plans)
    {decl : TypeDecl} (hdecl : table.types.get? name = some decl) (hs : decl.isStructLike = true) :
    Acc table.Embeds name := by
  simp only [planProgram, Except.bind_eq_ok] at h
  obtain ⟨mid, hmid, -⟩ := h
  have hreach := List.foldlM_reaches
    (fun b : Plans => ∀ n plan, b.types.get? n = some plan → Acc table.Embeds n)
    (fun (decl : TypeDecl) _ => Acc table.Embeds decl.name)
    (fun decl _ b b' hb hb' => planType_acc hw hb hb') (fun _ _ _ _ _ _ hx _ => hx) (by simp) hmid
  have hmem := List.mem_filter.2 ⟨Dict.mem_values_of_get? hdecl, hs⟩
  exact hw.name_eq hdecl ▸ hreach decl hmem

theorem planProgram_not_embeds_self (hw : table.WellNamed) {plans : Plans}
    (h : planProgram table = .ok plans) (name : String) :
    ¬ Relation.TransGen table.Embeds name name := by
  intro hcycle
  obtain ⟨decl, hdecl, hs⟩ : ∃ decl, table.types.get? name = some decl ∧ decl.isStructLike = true := by
    obtain ⟨_, hembeds, -⟩ := Relation.TransGen.head'_iff.1 hcycle
    exact hembeds.2
  exact not_rel_self_of_acc (planProgram_acc hw h hdecl hs).transGen hcycle

end Plan

end CellCompiler
