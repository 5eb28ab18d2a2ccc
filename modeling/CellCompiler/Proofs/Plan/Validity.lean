import CellCompiler.Proofs.Plan.Soundness

/-!
# Plans of the planner are valid

The check of plans (`Plans.validate`) accepts every plan that the planner makes, as long as a field
that takes everything that is left is declared last.

* `Plans.validatePlan_eq_ok` derives the check of one plan from its soundness;
* `planProgram_valid` is the main result, which also says that the operations of a plan are the
  fields of its type, one for one.
-/

namespace CellCompiler

namespace Plans

open Plan (Op OpOf Usage Error Chain)

variable {table : TypeTable} {all plans : Plans} {typeName : String} {plan : Plan}

theorem checkCells_eq_ok {start : Usage} {chain : Chain} (h : chain.Fits all start) (index : Nat) :
    all.checkCells typeName index start chain = .ok () := by
  induction chain generalizing start index with
  | last ops =>
    obtain ⟨u, hu, hfits⟩ := h
    rw [checkCells, Except.bind_eq_ok]
    exact ⟨u, hu, by simp [hfits]⟩
  | link ops next ih =>
    obtain ⟨⟨u, hu, hfits⟩, hnext⟩ := h
    rw [checkCells, Except.bind_eq_ok]
    refine ⟨u.add ⟨0, 1⟩, ?_, ?_⟩
    · rw [Chain.usageBy, Except.bind_eq_ok]
      exact ⟨u, hu, rfl⟩
    · simpa [hfits] using ih hnext (index + 1)

theorem checkOp_eq_ok {op : Op} {isLast : Bool}
    (hlast : op.kind.isRemainder = true → isLast = true)
    (hplain : op.kind.isRemainder = true → op.optional = false) (hknown : op.Known all)
    (hclosed : isLast = false → op.Closed all) : all.checkOp typeName isLast op = .ok () := by
  obtain ⟨name, kind, optional⟩ := op
  dsimp only at hlast hplain
  cases hr : kind.isRemainder with
  | true =>
    -- what takes everything is no record, and both conditions on it hold
    obtain rfl := hlast hr
    obtain rfl := hplain hr
    cases kind with
    | struct n byRef => simp [Plan.OpKind.isRemainder] at hr
    | _ => simp [checkOp]
  | false =>
    cases kind with
    | struct n byRef =>
      obtain ⟨p, hp⟩ := hknown n byRef rfl
      simp only [checkOp, hr, Bool.false_eq_true, ↓reduceIte, Except.bind_eq_ok, get_eq_ok]
      refine ⟨p, hp, ?_⟩
      by_cases hcheck : (!byRef && !isLast) = true
      · obtain ⟨rfl, rfl⟩ : byRef = false ∧ isLast = false := by simpa using hcheck
        obtain ⟨q, hq, hopen⟩ := hclosed rfl n rfl
        obtain rfl : p = q := by simpa [hp] using hq
        simp [hopen]
      · simp [hcheck]
    | _ => simp [checkOp, hr]

theorem checkOps_eq_ok {ops : List Op} (hlast : ∀ op ∈ ops.dropLast, op.kind.isRemainder = false)
    (hplain : ∀ op ∈ ops, op.kind.isRemainder = true → op.optional = false)
    (hknown : ∀ op ∈ ops, op.Known all) (hclosed : ∀ op ∈ ops.dropLast, op.Closed all) :
    all.checkOps typeName ops = .ok () := by
  induction ops with
  | nil => rfl
  | cons op rest ih =>
    rw [List.forall_mem_cons] at hplain hknown
    rw [checkOps, Except.bind_eq_ok]
    cases rest with
    | nil => exact ⟨(), checkOp_eq_ok (fun _ => rfl) hplain.1 hknown.1 (by simp), rfl⟩
    | cons next rest =>
      rw [List.dropLast_cons_cons, List.forall_mem_cons] at hlast hclosed
      refine ⟨(), checkOp_eq_ok ?_ hplain.1 hknown.1 fun _ => hclosed.1,
        ih hlast.2 hplain.2 hknown.2 hclosed.2⟩
      intro hr
      simp [hlast.1] at hr

/-- A sound plan passes the check if only its last operation takes everything that is left. -/
theorem validatePlan_eq_ok (h : plan.Sound all)
    (hlast : ∀ op ∈ plan.ops.dropLast, op.kind.isRemainder = false)
    (hplain : ∀ op ∈ plan.ops, op.kind.isRemainder = true → op.optional = false) :
    all.validatePlan typeName plan = .ok () := by
  simp only [validatePlan, ne_eq, h.flat, not_true_eq_false, ↓reduceIte]
  simp [checkCells_eq_ok h.fits, checkOps_eq_ok hlast hplain h.known h.closed]

/-- In a list of operations that is accepted, nothing follows one that takes everything that is left. -/
theorem isRemainder_of_checkOps {ops : List Op} (h : all.checkOps typeName ops = .ok ()) :
    ∀ op ∈ ops.dropLast, op.kind.isRemainder = false := by
  induction ops with
  | nil => simp
  | cons op rest ih =>
    rw [checkOps, Except.bind_eq_ok] at h
    obtain ⟨⟨⟩, hop, hrest⟩ := h
    cases rest with
    | nil => simp
    | cons next rest =>
      rw [List.dropLast_cons_cons, List.forall_mem_cons]
      refine ⟨?_, ih hrest⟩
      by_contra hr
      have hr : op.kind.isRemainder = true := by simpa using hr
      cases ho : op.optional <;> simp [checkOp, hr, ho] at hop

section Fields

variable {header : Option Plan.Header} {fields : List (String × TypeRef × Option String)}

theorem Stores.optional_of_isRemainder (h : Stores table all header fields plan) :
    ∀ op ∈ plan.ops, op.kind.isRemainder = true → op.optional = false := by
  obtain ⟨ops, hops, hsettles⟩ := h.ops
  have hplain : ∀ op ∈ ops, op.kind.isRemainder = true → op.optional = false :=
    List.forall_mem_of_forall₂ (P := fun _ => True) hops
      (fun _ _ ho _ => ho.optional_of_isRemainder) (by simp)
  refine List.forall_mem_of_forall₂ hsettles (fun op op' hs ho hr => ?_) hplain
  rw [hs.optional_eq]
  exact ho (hs.isRemainder_eq ▸ hr)

theorem Stores.isRemainder_dropLast (h : Stores table all header fields plan)
    (hrest : ∀ f ∈ fields.dropLast, Plan.takesRest table f.2.1 f.2.2 = false) :
    ∀ op ∈ plan.ops.dropLast, op.kind.isRemainder = false := by
  obtain ⟨ops, hops, hsettles⟩ := h.ops
  have hlast : ∀ op ∈ ops.dropLast, op.kind.isRemainder = false := by
    refine List.forall_mem_of_forall₂ (List.forall₂_dropLast hops) (fun f op ho hf => ?_) hrest
    by_contra hr
    simp [ho.takesRest (by simpa using hr)] at hf
  exact List.forall_mem_of_forall₂ (List.forall₂_dropLast hsettles)
    (fun op op' hs ho => hs.isRemainder_eq.trans ho) hlast

/-- The names and optional markers of the operations are those of the fields. -/
theorem Stores.map_ops (h : Stores table all header fields plan) :
    plan.ops.map (fun op => (op.name, op.optional)) =
      fields.map fun f => (f.1, f.2.1.isOptional) := by
  obtain ⟨ops, hops, hsettles⟩ := h.ops
  have hfields : ops.map (fun op => (op.name, op.optional)) =
      fields.map fun f => (f.1, f.2.1.isOptional) :=
    List.map_eq_map_of_forall₂ hops fun f op ho => by rw [ho.name_eq, ho.optional_eq]
  rw [← hfields]
  exact List.map_eq_map_of_forall₂ hsettles fun op op' hs => by rw [hs.name_eq, hs.optional_eq]

end Fields

/-- Only the last field of a type may take everything that is left. -/
def RestIsLast (table : TypeTable) (decl : TypeDecl) : Prop :=
  ∀ f ∈ decl.fields.dropLast, Plan.takesRest table f.ty f.format = false

instance (table : TypeTable) (decl : TypeDecl) : Decidable (RestIsLast table decl) :=
  inferInstanceAs (Decidable (∀ f ∈ decl.fields.dropLast, _))

theorem PlannedProgram.validate_eq_ok (hp : PlannedProgram table plans)
    (hrest : ∀ decl ∈ table.types.values, RestIsLast table decl) : plans.validate = .ok () := by
  rw [validate, List.forM_eq_ok]
  rintro ⟨name, plan⟩ hmem
  rcases List.mem_append.1 hmem with hmem | hmem
  · obtain ⟨decl, hdecl, -, hstores⟩ :=
      hp.planned.stores name plan (Dict.get?_of_mem_entries hp.planned.nodup hmem)
    refine validatePlan_eq_ok hstores.sound (hstores.isRemainder_dropLast ?_)
      hstores.optional_of_isRemainder
    have hlast := hrest decl (Dict.mem_values_of_get? hdecl)
    rw [storedFields, ← List.map_dropLast, List.forall_mem_map]
    exact hlast
  · obtain ⟨contract, -, -, hstores⟩ :=
      hp.storesArgs name plan (Dict.get?_of_mem_entries hp.nodup hmem)
    refine validatePlan_eq_ok hstores.sound (hstores.isRemainder_dropLast ?_)
      hstores.optional_of_isRemainder
    -- parameters have no format
    intro f hf
    obtain ⟨p, -, rfl⟩ := List.mem_map.1 (List.dropLast_subset _ hf)
    simp [Plan.takesRest]

end Plans

open Plans (RestIsLast)

/-- **Soundness of the planner.** If only last fields take everything that is left, the plans that
the planner makes are valid. Exactly the records of the table have a plan, and exactly its contracts
one of their arguments; each has one operation per field (or parameter), of the same name and
optional marker, in the order of declaration. -/
theorem planProgram_valid {table : TypeTable} {plans : Plans} (hw : table.WellNamed)
    (hrest : ∀ decl ∈ table.types.values, RestIsLast table decl)
    (h : planProgram table = .ok plans) :
    plans.validate = .ok () ∧
      (∀ name, (∃ plan, plans.types.get? name = some plan) ↔
        ∃ decl ∈ table.types.values, decl.name = name ∧ decl.isStructLike = true) ∧
      (∀ decl ∈ table.types.values, ∀ plan, plans.types.get? decl.name = some plan →
        plan.ops.map (fun op => (op.name, op.optional)) =
          decl.fields.map fun f => (f.name, f.ty.isOptional)) ∧
      (∀ name, (∃ plan, plans.initArgs.get? name = some plan) ↔
        ∃ contract ∈ table.contracts, contract.name = name) ∧
      (∀ contract ∈ table.contracts, ∀ plan, plans.initArgs.get? contract.name = some plan →
        plan.ops.map (fun op => (op.name, op.optional)) =
          contract.initParams.map fun p => (p.name, p.ty.isOptional)) := by
  have hp := Plans.planProgram_planned hw h
  refine ⟨hp.validate_eq_ok hrest, fun name => ⟨?_, ?_⟩, ?_, fun name => ⟨?_, ?_⟩, ?_⟩
  · rintro ⟨plan, hplan⟩
    obtain ⟨decl, hdecl, hs, -⟩ := hp.planned.stores name plan hplan
    exact ⟨decl, Dict.mem_values_of_get? hdecl, hw.name_eq hdecl, hs⟩
  · rintro ⟨decl, hdecl, rfl, hs⟩
    exact hp.types decl hdecl hs
  · intro decl hdecl plan hplan
    obtain ⟨d, hd, -, hstores⟩ := hp.planned.stores decl.name plan hplan
    obtain rfl : decl = d := by simpa [hw.get?_name hdecl] using hd
    simpa [Plans.storedFields, Function.comp_def] using hstores.map_ops
  · rintro ⟨plan, hplan⟩
    obtain ⟨contract, hc, hname, -⟩ := hp.storesArgs name plan hplan
    exact ⟨contract, hc, hname⟩
  · rintro ⟨contract, hc, rfl⟩
    exact hp.initArgs contract hc
  · intro contract hc plan hplan
    obtain ⟨c, hc', hname, hstores⟩ := hp.storesArgs contract.name plan hplan
    have hget := hw.get?_name (TypeTable.mem_contracts.1 hc).1
    obtain rfl : contract = c := by
      have hget' := hw.get?_name (TypeTable.mem_contracts.1 hc').1
      rw [hname, hget] at hget'
      simpa using hget'
    simpa [Plans.storedParams, Function.comp_def] using hstores.map_ops

/-- A table in which a record is cut into two cells and another goes behind a reference, because it
takes everything that is left and is not the last field. -/
def ordersTable : TypeTable :=
  let note := TypeDecl.ofFields .struct "Note"
    [⟨"kind", 0, .plain "Int", some "uint8", none⟩,
      ⟨"body", 1, .plain "Slice", some "remaining", none⟩]
  let order := TypeDecl.ofFields .struct "Order"
    [⟨"note", 0, .plain "Note", none, none⟩, ⟨"owner", 1, .named "Address" true, none, none⟩,
      ⟨"low", 2, .plain "Int", none, none⟩, ⟨"high", 3, .plain "Int", none, none⟩,
      ⟨"limit", 4, .named "Int" true, none, none⟩, ⟨"items", 5, .map "Int" none "Cell" none, none,
        none⟩]
  let shop := { TypeDecl.ofFields .contract "Shop" [⟨"last", 0, .named "Order" true, none, none⟩]
    with init := some { params := [⟨"owner", .plain "Address"⟩, ⟨"first", .plain "Note"⟩] } }
  ((TypeTable.primitives.addType note).addType order).addType shop

theorem planProgram_valid_orders :
    ordersTable.WellNamed ∧ (∀ decl ∈ ordersTable.types.values, RestIsLast ordersTable decl) ∧
      ∃ plans, planProgram ordersTable = .ok plans ∧ plans.validate = .ok () := by
  have hw : ordersTable.WellNamed := ⟨by decide +kernel, by decide +kernel⟩
  have hrest : ∀ decl ∈ ordersTable.types.values, RestIsLast ordersTable decl := by decide +kernel
  have hok : ∃ plans, planProgram ordersTable = .ok plans := ⟨_, rfl⟩
  obtain ⟨plans, hplans⟩ := hok
  exact ⟨hw, hrest, plans, hplans, (planProgram_valid hw hrest hplans).1⟩

end CellCompiler
