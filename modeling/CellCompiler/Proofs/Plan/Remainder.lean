import CellCompiler.Proofs.Plan.Validity

/-!
# What follows a remainder

An operation that takes everything that is left of its slice leaves nothing for those after it: a
field in the remaining format, or a record in place whose own plan ends with such an operation. The
planner puts a record of that kind behind a reference when something follows it, but it plans a
field in the remaining format wherever it is declared, and does not check the plans it returns.

* `Op.TakesAll` is an operation that takes everything, and `TakesAllLast` a plan in which nothing
  follows one;
* `planProgram_remainders` is the main result, for every table: a plan is of this kind exactly if
  the type declares its remaining field last, records in place never break it, and the check of
  plans refuses exactly the plans that do.
-/

namespace CellCompiler

namespace Plan

variable {table : TypeTable} {all : Plans} {name : String} {ty : TypeRef} {format : Option String}
  {op : Op} {plan : Plan}

/-- Reading the operation takes everything that is left of its slice. -/
def Op.TakesAll (all : Plans) (op : Op) : Prop :=
  op.kind.isRemainder = true ∨
    ∃ n p, op.kind.inline? = some n ∧ all.types.get? n = some p ∧ all.isOpenEnded p = .ok true

/-- Only the last operation of the plan takes everything. -/
def TakesAllLast (all : Plans) (plan : Plan) : Prop :=
  ∀ op ∈ plan.ops.dropLast, ¬ op.TakesAll all

theorem Op.Closed.not_takesAll (hc : op.Closed all) (hr : op.kind.isRemainder = false) :
    ¬ op.TakesAll all := by
  rintro (hrest | ⟨n, p, hn, hp, hopen⟩)
  · simp [hr] at hrest
  · obtain ⟨q, hq, hclosed⟩ := hc n hn
    obtain rfl : p = q := by simpa [hp] using hq
    simp [hopen] at hclosed

/-- In a sound plan only a field in the remaining format can take what is meant for others. -/
theorem Sound.isRemainder_of_takesAll (h : plan.Sound all) (hop : op ∈ plan.ops.dropLast)
    (ht : op.TakesAll all) : op.kind.isRemainder = true := by
  by_contra hr
  exact (h.closed op hop).not_takesAll (by simpa using hr) ht

theorem Sound.takesAllLast_iff (h : plan.Sound all) :
    plan.TakesAllLast all ↔ ∀ op ∈ plan.ops.dropLast, op.kind.isRemainder = false := by
  refine forall₂_congr fun op hop => ⟨fun ht => ?_, fun hr => ?_⟩
  · by_contra hr
    exact ht (.inl (by simpa using hr))
  · exact (h.closed op hop).not_takesAll hr

/-! ### Fields in the remaining format -/

theorem primitiveKind_remaining {p : PrimitiveKind} {kind : OpKind} (hp : canTakeRest p = true)
    (h : primitiveKind (some "remaining") p = .ok kind) : kind.isRemainder = true := by
  cases p with
  | cell | slice | builder | string =>
    cases h
    rfl
  | _ => simp [canTakeRest] at hp

theorem OpOf.isRemainder_iff (h : OpOf table name format ty op) :
    op.kind.isRemainder = true ↔ Plan.takesRest table ty format = true := by
  refine ⟨h.takesRest, fun ht => ?_⟩
  cases h with
  | map => simp [Plan.takesRest] at ht
  | @named typeName optional decl kind hdecl hkind _ =>
    obtain ⟨rfl, p, hp, hcan⟩ : format = some "remaining" ∧ ∃ p, decl.primitive? = some p ∧
        canTakeRest p = true := by
      simpa [Plan.takesRest, hdecl, Option.any_eq_true] using ht
    exact primitiveKind_remaining hcan (by simpa [declKind, hp] using hkind)

end Plan

namespace Plans

open Plan (Op OpOf OpKind Error Chain TakesAllLast)

variable {table : TypeTable} {all plans : Plans} {name typeName : String} {plan : Plan}
  {header : Option Plan.Header} {fields : List (String × TypeRef × Option String)}

theorem Stores.isRemainder_dropLast_iff (h : Stores table all header fields plan) :
    (∀ op ∈ plan.ops.dropLast, op.kind.isRemainder = false) ↔
      ∀ f ∈ fields.dropLast, Plan.takesRest table f.2.1 f.2.2 = false := by
  refine ⟨fun hops => ?_, h.isRemainder_dropLast⟩
  obtain ⟨ops, hopOf, hsettles⟩ := h.ops
  have hplaced : ∀ op ∈ ops.dropLast, op.kind.isRemainder = false :=
    List.forall_mem_of_forall₂ (List.forall₂_dropLast hsettles).flip
      (fun op' op (hs : op.Settles op') hr => hs.isRemainder_eq.symm.trans hr) hops
  refine List.forall_mem_of_forall₂ (List.forall₂_dropLast hopOf).flip
    (fun op f (ho : OpOf table f.1 f.2.2 f.2.1 op) hr => ?_) hplaced
  by_contra ht
  simp [ho.isRemainder_iff.2 (by simpa using ht)] at hr

/-! ### Plans of any table -/

/-- Every plan stores the fields of the type declared under its name. -/
structure Declared (table : TypeTable) (all : Plans) : Prop where
  nodup : all.types.keys.Nodup
  stores : ∀ name plan, all.types.get? name = some plan → ∃ decl,
    table.types.get? name = some decl ∧
      Stores table all (headerOf decl) (storedFields decl) plan

theorem declared_empty : Declared table {} := ⟨List.nodup_nil, fun _ _ h => by simp at h⟩

theorem Declared.insert {decl : TypeDecl} (h : Declared table all)
    (hnew : all.types.get? name = none) (hdecl : table.types.get? name = some decl)
    (hp : Stores table all (headerOf decl) (storedFields decl) plan) :
    Declared table { all with types := all.types.insert name plan } := by
  have grow : all.Extends { all with types := all.types.insert name plan } := .insert hnew
  refine ⟨Dict.nodup_keys_insert h.nodup, fun n p hn => ?_⟩
  simp only [Dict.get?_insert] at hn
  split_ifs at hn with heq
  · obtain rfl : plan = p := by simpa using hn
    exact ⟨decl, heq ▸ hdecl, hp.mono grow⟩
  · obtain ⟨d, hd, hstores⟩ := h.stores n p hn
    exact ⟨d, hd, hstores.mono grow⟩

theorem planType_declared {fuel : Nat} {all' : Plans} (hall : Declared table all)
    (h : Plan.planType table fuel [] all name = .ok all') :
    Declared table all' ∧ all'.initArgs = all.initArgs := by
  have hkept : Declared table all' ∧ Plan.Adds [] all all' ∧
      ∃ plan, all'.types.get? name = some plan := by
    refine Plan.planType_keeps (Q := fun _ => True) (fun _ _ _ _ _ => trivial) ?_ hall trivial h
    intro all name decl ops plan _ hall hnone hdecl hops hplan
    exact hall.insert hnone hdecl
      (stores_of_ofOps (headerFits_headerOf decl) (Plan.forall₂_opOf_fields hops) hplan)
  exact ⟨hkept.1, hkept.2.1.initArgs_eq⟩

/-- The plans of a program store the fields of its types and the parameters of its contracts. -/
theorem planProgram_declared (h : planProgram table = .ok plans) :
    Declared table plans ∧ plans.initArgs.keys.Nodup ∧
      ∀ name plan, plans.initArgs.get? name = some plan → ∃ contract ∈ table.contracts,
        contract.name = name ∧ Stores table plans none (storedParams contract) plan := by
  simp only [planProgram, Except.bind_eq_ok] at h
  obtain ⟨mid, hmid, h⟩ := h
  have htypes : Declared table mid ∧ mid.initArgs = .empty := by
    refine List.foldlM_invariant (fun all : Plans => Declared table all ∧ all.initArgs = .empty) ?_
      ⟨declared_empty, rfl⟩ hmid
    rintro decl - b b' ⟨hb, hargs⟩ hb'
    obtain ⟨hdeclared, hkept⟩ := planType_declared hb hb'
    exact ⟨hdeclared, hkept.trans hargs⟩
  -- the arguments leave the plans of types alone
  have hstart : PlansArgs table mid.types mid :=
    ⟨rfl, by rw [htypes.2]; exact List.nodup_nil, fun n p hn => by simp [htypes.2] at hn⟩
  have hargs := List.foldlM_invariant (PlansArgs table mid.types)
    (fun contract hc b b' hb hb' => (planInitArgs_step hc hb hb').1) hstart h
  have grow : mid.Extends plans := extends_of_types_eq hargs.types_eq.symm
  have grow' : (⟨mid.types, .empty⟩ : Plans).Extends plans :=
    extends_of_types_eq hargs.types_eq.symm
  refine ⟨⟨hargs.types_eq ▸ htypes.1.nodup, fun n p hn => ?_⟩, hargs.nodup, fun n p hn => ?_⟩
  · obtain ⟨decl, hdecl, hstores⟩ := htypes.1.stores n p (hargs.types_eq ▸ hn)
    exact ⟨decl, hdecl, hstores.mono grow⟩
  · obtain ⟨contract, hc, hname, hstores⟩ := hargs.storesArgs n p hn
    exact ⟨contract, hc, hname, hstores.mono grow'⟩

/-! ### The check of plans -/

theorem isRemainder_of_validatePlan (hs : plan.Sound all)
    (h : all.validatePlan typeName plan = .ok ()) :
    ∀ op ∈ plan.ops.dropLast, op.kind.isRemainder = false := by
  simp only [validatePlan, ne_eq, hs.flat, not_true_eq_false, ↓reduceIte, Except.bind_eq_ok] at h
  obtain ⟨_, -, hops⟩ := h
  exact isRemainder_of_checkOps hops

end Plans

open Plan (TakesAllLast)
open Plans (RestIsLast)

/-- **What follows a remainder.** For every table whose types can be planned: a plan has the
operations of its chain in order, and among those that others follow only fields in the remaining
format take everything that is left of their slice. So nothing follows such an operation exactly if
the type declares its remaining field last; this holds of the arguments of contracts always. The
check of plans accepts what the planner returns exactly if it holds of every plan. -/
theorem planProgram_remainders {table : TypeTable} {plans : Plans}
    (h : planProgram table = .ok plans) :
    (∀ name plan, plans.types.get? name = some plan →
      plan.root.ops = plan.ops ∧
        (∀ op ∈ plan.ops.dropLast, op.TakesAll plans → op.kind.isRemainder = true) ∧
        ∃ decl, table.types.get? name = some decl ∧
          (plan.TakesAllLast plans ↔ RestIsLast table decl)) ∧
      (∀ name plan, plans.initArgs.get? name = some plan →
        plan.root.ops = plan.ops ∧ plan.TakesAllLast plans) ∧
      (plans.validate = .ok () ↔
        ∀ name plan, plans.types.get? name = some plan → plan.TakesAllLast plans) := by
  obtain ⟨htypes, hnodup, hargs⟩ := Plans.planProgram_declared h
  have hargsLast : ∀ name plan, plans.initArgs.get? name = some plan →
      plan.root.ops = plan.ops ∧ plan.TakesAllLast plans := by
    intro name plan hplan
    obtain ⟨contract, -, -, hstores⟩ := hargs name plan hplan
    refine ⟨hstores.sound.flat, hstores.sound.takesAllLast_iff.2 (hstores.isRemainder_dropLast ?_)⟩
    -- parameters have no format
    intro f hf
    obtain ⟨p, -, rfl⟩ := List.mem_map.1 (List.dropLast_subset _ hf)
    simp [Plan.takesRest]
  refine ⟨fun name plan hplan => ?_, hargsLast, fun hvalid name plan hplan => ?_, fun hlast => ?_⟩
  · obtain ⟨decl, hdecl, hstores⟩ := htypes.stores name plan hplan
    refine ⟨hstores.sound.flat, fun op hop => hstores.sound.isRemainder_of_takesAll hop,
      decl, hdecl, ?_⟩
    rw [hstores.sound.takesAllLast_iff, hstores.isRemainder_dropLast_iff, Plans.storedFields,
      ← List.map_dropLast, List.forall_mem_map]
    rfl
  · obtain ⟨decl, -, hstores⟩ := htypes.stores name plan hplan
    rw [Plans.validate, List.forM_eq_ok] at hvalid
    have hmem : (name, plan) ∈ plans.types.entries ++ plans.initArgs.entries :=
      List.mem_append_left _ (Dict.mem_entries_of_get? hplan)
    exact hstores.sound.takesAllLast_iff.2
      (Plans.isRemainder_of_validatePlan hstores.sound (hvalid _ hmem))
  · rw [Plans.validate, List.forM_eq_ok]
    rintro ⟨name, plan⟩ hmem
    rcases List.mem_append.1 hmem with hmem | hmem
    · have hplan := Dict.get?_of_mem_entries htypes.nodup hmem
      obtain ⟨decl, -, hstores⟩ := htypes.stores name plan hplan
      exact Plans.validatePlan_eq_ok hstores.sound
        (hstores.sound.takesAllLast_iff.1 (hlast name plan hplan)) hstores.optional_of_isRemainder
    · have hplan := Dict.get?_of_mem_entries hnodup hmem
      obtain ⟨contract, -, -, hstores⟩ := hargs name plan hplan
      exact Plans.validatePlan_eq_ok hstores.sound
        (hstores.sound.takesAllLast_iff.1 (hargsLast name plan hplan).2)
        hstores.optional_of_isRemainder

/-- A record whose first field takes everything that is left. -/
def looseParcelTable : TypeTable :=
  TypeTable.primitives.addType
    (.ofFields .struct "Parcel"
      [⟨"rest", 0, .plain "Slice", some "remaining", none⟩, ⟨"weight", 1, .plain "Int", none, none⟩])

/-- The planner accepts the record and plans the weight after the rest. -/
theorem parcel_reads_past_rest :
    ∃ plans plan, planProgram looseParcelTable = .ok plans ∧ plans.types.get? "Parcel" = some plan ∧
      plan.ops.map (·.name) = ["rest", "weight"] ∧ ¬ plan.TakesAllLast plans ∧
      plans.validate = .error (.invalid "Parcel" (.remainderNotLast "rest")) := by
  obtain ⟨plans, hplans, hvalid, hops⟩ : ∃ plans, planProgram looseParcelTable = .ok plans ∧
      plans.validate = .error (.invalid "Parcel" (.remainderNotLast "rest")) ∧
      ∃ plan, plans.types.get? "Parcel" = some plan ∧
        plan.ops.map (·.name) = ["rest", "weight"] :=
    ⟨_, rfl, rfl, _, rfl, rfl⟩
  obtain ⟨plan, hplan, hnames⟩ := hops
  obtain ⟨-, -, decl, hdecl, hlast⟩ := (planProgram_remainders hplans).1 "Parcel" plan hplan
  refine ⟨plans, plan, hplans, hplan, hnames, fun ht => ?_, hvalid⟩
  have hrest : RestIsLast looseParcelTable decl := hlast.1 ht
  cases hdecl
  exact absurd hrest (by decide)

end CellCompiler
