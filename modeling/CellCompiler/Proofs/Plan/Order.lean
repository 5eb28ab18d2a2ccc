import CellCompiler.Proofs.Plan.Acceptance

/-!
# The order of declarations

A record is planned where it is met first, on its own or in a field of another one, and its plan is
computed from the plans that are there at that time. None of this shows in the result:

* `Plan.ofOps_mono` says that a plan stays what it is while others are added, so that every plan of a
  program is the one that its fields give among all the plans (`Plans.Made`);
* `Plan.planType_within` plans the records of a table among plans that are made for it already, and
  finds nothing new;
* `planProgram_order` is the main result: two tables with the same declarations in different orders
  have plans both or neither, and the plans are the same.
-/

namespace CellCompiler

open Relation (TransGen)

namespace Plan

open Plans (headerOf)

/-! ### Plans among more plans -/

section Mono

variable {all more : Plans} {name typeName : String} {op op' : Op} {ops ops' placed : List Op}
  {used : Usage} {header : Option Header} {plan : Plan} {chain : Chain}

theorem closeOp_mono (h : all.Extends more) (hc : closeOp all op = .ok op') :
    closeOp more op = .ok op' := by
  unfold closeOp at hc ⊢
  cases hinline : op.kind.inline? with
  | none => simpa [hinline] using hc
  | some n =>
    simp only [hinline, Except.bind_eq_ok, Plans.get_eq_ok] at hc ⊢
    obtain ⟨p, hp, isOpen, hopen, hc⟩ := hc
    exact ⟨p, h.kept n p hp, isOpen, Plans.isOpenEnded_mono h hopen, hc⟩

theorem closeOps_mono (h : all.Extends more) (hc : closeOps all ops = .ok ops') :
    closeOps more ops = .ok ops' := by
  induction ops generalizing ops' with
  | nil => exact hc
  | cons op rest ih =>
    cases rest with
    | nil => exact hc
    | cons next rest =>
      simp only [closeOps, Except.bind_eq_ok] at hc ⊢
      obtain ⟨closed, hclosed, others, hothers, hc⟩ := hc
      exact ⟨closed, closeOp_mono h hclosed, others, ih hothers, hc⟩

theorem fit_mono (h : all.Extends more) {isMore : Bool} {result : Option (Op × Usage)}
    (hf : fit all used isMore op = .ok result) : fit more used isMore op = .ok result := by
  simp only [fit, Except.bind_eq_ok] at hf ⊢
  generalize (⟨0, if isMore = true then 1 else 0⟩ : Usage) = reserve at hf ⊢
  obtain ⟨inPlace, hinPlace, hf⟩ := hf
  refine ⟨inPlace, Plans.opUsage_mono h hinPlace, ?_⟩
  split_ifs at hf ⊢ with hfits hstruct
  · exact hf
  · simp only [Except.bind_eq_ok] at hf ⊢
    obtain ⟨behind, hbehind, hf⟩ := hf
    exact ⟨behind, Plans.opUsage_mono h hbehind, hf⟩
  · exact hf

theorem place_mono (h : all.Extends more) (hp : place all typeName used placed ops = .ok chain) :
    place more typeName used placed ops = .ok chain := by
  induction ops generalizing used placed chain with
  | nil => exact hp
  | cons op rest ih =>
    simp only [place, Except.bind_eq_ok] at hp ⊢
    obtain ⟨accepted, hfit, hp⟩ := hp
    refine ⟨accepted, fit_mono h hfit, ?_⟩
    cases accepted with
    | some r => exact ih hp
    | none =>
      by_cases hempty : placed.isEmpty = true
      · simp [hempty] at hp
      · simp only [hempty, Bool.false_eq_true, if_false, Except.bind_eq_ok] at hp ⊢
        obtain ⟨accepted, hfit, hp⟩ := hp
        refine ⟨accepted, fit_mono h hfit, ?_⟩
        cases accepted with
        | none => exact hp
        | some r =>
          simp only [Except.bind_eq_ok] at hp ⊢
          obtain ⟨next, hnext, hp⟩ := hp
          exact ⟨next, ih hnext, hp⟩

/-- **A plan stays what it is** while others are added. -/
theorem ofOps_mono (h : all.Extends more) (hp : ofOps all name header ops = .ok plan) :
    ofOps more name header ops = .ok plan := by
  simp only [ofOps, Except.bind_eq_ok] at hp ⊢
  obtain ⟨closed, hclosed, chain, hchain, hp⟩ := hp
  exact ⟨closed, closeOps_mono h hclosed, chain, place_mono h hchain, hp⟩

end Mono

end Plan

/-! ### Tables with the same declarations -/

namespace TypeTable

variable {table table' : TypeTable}

/-- The tables declare the same types, each under its own name. -/
structure SameTypes (table table' : TypeTable) : Prop where
  wellNamed : table.WellNamed
  wellNamed' : table'.WellNamed
  mem_iff : ∀ decl, decl ∈ table.types.values ↔ decl ∈ table'.types.values

theorem SameTypes.symm (h : table.SameTypes table') : table'.SameTypes table :=
  ⟨h.wellNamed', h.wellNamed, fun decl => (h.mem_iff decl).symm⟩

theorem SameTypes.get? (h : table.SameTypes table') (name : String) :
    table.types.get? name = table'.types.get? name := by
  refine Option.ext fun decl => ⟨fun hdecl => ?_, fun hdecl => ?_⟩
  · rw [← h.wellNamed.name_eq hdecl]
    exact h.wellNamed'.get?_name ((h.mem_iff decl).1 (Dict.mem_values_of_get? hdecl))
  · rw [← h.wellNamed'.name_eq hdecl]
    exact h.wellNamed.get?_name ((h.mem_iff decl).2 (Dict.mem_values_of_get? hdecl))

theorem SameTypes.mem_contracts_iff (h : table.SameTypes table') (decl : TypeDecl) :
    decl ∈ table.contracts ↔ decl ∈ table'.contracts := by
  rw [mem_contracts, mem_contracts, h.mem_iff]

theorem SameTypes.typeOp_eq (h : table.SameTypes table') (owner name : String) (ty : TypeRef)
    (format : Option String) :
    Plan.typeOp table owner name ty format = Plan.typeOp table' owner name ty format := by
  cases ty with
  | named typeName optional => rw [Plan.typeOp, Plan.typeOp, h.get?]
  | _ => rfl

theorem SameTypes.fieldOp_eq (h : table.SameTypes table') (owner : String) :
    Plan.fieldOp table owner = Plan.fieldOp table' owner :=
  funext fun _ => h.typeOp_eq ..

theorem SameTypes.paramOp_eq (h : table.SameTypes table') (owner : String) :
    Plan.paramOp table owner = Plan.paramOp table' owner :=
  funext fun _ => h.typeOp_eq ..

theorem SameTypes.embeds_eq (h : table.SameTypes table') : table.Embeds = table'.Embeds := by
  funext inner outer
  simp only [Embeds, Nests, h.get?]

end TypeTable

/-! ### Plans made for a table -/

namespace Plans

open Plan (Error)

variable {table table' : TypeTable} {all plans plans' : Plans} {name : String} {plan : Plan}

/-- Every plan of a record is the one that its fields give among all the plans. -/
def Made (table : TypeTable) (all : Plans) : Prop :=
  ∀ name plan, all.types.get? name = some plan → ∃ decl ops,
    table.types.get? name = some decl ∧ decl.fields.mapM (Plan.fieldOp table name) = .ok ops ∧
      Plan.ofOps all name (headerOf decl) ops = .ok plan

theorem made_empty : Made table {} := fun _ _ h => by simp at h

theorem Made.of_types_eq (h : Made table all) (heq : all.types = plans.types) : Made table plans := by
  intro name plan hplan
  obtain ⟨decl, ops, hdecl, hops, hmade⟩ := h name plan (heq ▸ hplan)
  exact ⟨decl, ops, hdecl, hops, Plan.ofOps_mono (extends_of_types_eq heq) hmade⟩

theorem Made.insert {decl : TypeDecl} {ops : List Plan.Op} (h : Made table all)
    (hnew : all.types.get? name = none) (hdecl : table.types.get? name = some decl)
    (hops : decl.fields.mapM (Plan.fieldOp table name) = .ok ops)
    (hplan : Plan.ofOps all name (headerOf decl) ops = .ok plan) :
    Made table { all with types := all.types.insert name plan } := by
  have grow : all.Extends { all with types := all.types.insert name plan } := .insert hnew
  intro n p hn
  simp only [Dict.get?_insert] at hn
  split_ifs at hn with heq
  · subst heq
    obtain rfl : plan = p := by simpa using hn
    exact ⟨decl, ops, hdecl, hops, Plan.ofOps_mono grow hplan⟩
  · obtain ⟨d, os, hd, hos, hmade⟩ := h n p hn
    exact ⟨d, os, hd, hos, Plan.ofOps_mono grow hmade⟩

/-- Every plan of arguments is the one that the parameters give among all the plans. -/
def MadeArgs (table : TypeTable) (all : Plans) : Prop :=
  ∀ name plan, all.initArgs.get? name = some plan → ∃ contract ∈ table.contracts,
    contract.name = name ∧ ∃ ops, contract.initParams.mapM (Plan.paramOp table name) = .ok ops ∧
      Plan.ofOps all name none ops = .ok plan

theorem planInitArgs_made {contract : TypeDecl} (hc : contract ∈ table.contracts)
    (hall : MadeArgs table all) (h : Plan.planInitArgs table all contract = .ok plans) :
    MadeArgs table plans ∧ plans.types = all.types := by
  simp only [Plan.planInitArgs, Except.bind_eq_ok, Except.pure_eq_ok] at h
  obtain ⟨ops, hops, plan, hplan, rfl⟩ := h
  refine ⟨fun n p hn => ?_, rfl⟩
  have grow : all.Extends { all with initArgs := all.initArgs.insert contract.name plan } :=
    extends_of_types_eq rfl
  simp only [Dict.get?_insert] at hn
  split_ifs at hn with heq
  · subst heq
    obtain rfl : plan = p := by simpa using hn
    exact ⟨contract, hc, rfl, ops, hops, Plan.ofOps_mono grow hplan⟩
  · obtain ⟨c, hc', hname, os, hos, hmade⟩ := hall n p hn
    exact ⟨c, hc', hname, os, hos, Plan.ofOps_mono grow hmade⟩

/-- The plans of a program are made for it. -/
theorem planProgram_made (h : planProgram table = .ok plans) :
    Made table plans ∧ MadeArgs table plans := by
  simp only [planProgram, Except.bind_eq_ok] at h
  obtain ⟨mid, hmid, h⟩ := h
  have htypes : Made table mid ∧ mid.initArgs = .empty := by
    refine List.foldlM_invariant (fun all : Plans => Made table all ∧ all.initArgs = .empty) ?_
      ⟨made_empty, rfl⟩ hmid
    rintro decl - b b' ⟨hb, hargs⟩ hb'
    obtain ⟨hmade, hadds, -⟩ := Plan.planType_keeps (P := Made table) (Q := fun _ => True)
      (fun _ _ _ _ _ => trivial)
      (fun _ hall hnone hdecl hops hplan => hall.insert hnone hdecl hops hplan) hb trivial hb'
    exact ⟨hmade, hadds.initArgs_eq.trans hargs⟩
  have hargs : MadeArgs table plans ∧ plans.types = mid.types := by
    refine List.foldlM_invariant (fun all : Plans => MadeArgs table all ∧ all.types = mid.types) ?_
      ⟨fun n p hn => by simp [htypes.2] at hn, rfl⟩ h
    rintro contract hc b b' ⟨hb, heq⟩ hb'
    obtain ⟨hmade, heq'⟩ := planInitArgs_made hc hb hb'
    exact ⟨hmade, heq'.trans heq⟩
  exact ⟨htypes.1.of_types_eq hargs.2.symm, hargs.1⟩

/-- Plans with different names are not more than those that have all of them. -/
theorem extends_of_kept (hnodup : all.types.keys.Nodup)
    (h : ∀ name plan, all.types.get? name = some plan → plans.types.get? name = some plan) :
    all.Extends plans := by
  refine ⟨h, ?_⟩
  have hkeys : ∀ name ∈ all.types.keys, name ∈ plans.types.keys := by
    intro name hname
    obtain ⟨plan, hplan⟩ := Dict.mem_keys_iff.1 hname
    exact Dict.mem_keys_iff.2 ⟨plan, h name plan hplan⟩
  have hle := (List.Nodup.subperm hnodup hkeys).length_le
  simpa [Dict.keys, Dict.size] using hle

end Plans

/-! ### Planning among plans that are there -/

namespace Plan

open Plans (Made MadeArgs headerOf)

variable {table table' : TypeTable} {all all' final plans plans' : Plans} {name : String}
  {pending : List String}

/-- Planning a record finds the plans that are made for its table already. -/
theorem planType_within (hsame : table'.SameTypes table) (hmade : Made table final)
    (hfinal : ∀ decl ∈ table.types.values, decl.isStructLike = true →
      ∃ plan, final.types.get? decl.name = some plan) {fuel : Nat}
    (hnodup : all.types.keys.Nodup) (hall : all.Extends final)
    (hname : ∃ decl, table'.types.get? name = some decl ∧ decl.isStructLike = true)
    (h : planType table' fuel pending all name = .ok all') :
    all'.types.keys.Nodup ∧ all'.Extends final := by
  refine (planType_keeps (P := fun b => b.types.keys.Nodup ∧ b.Extends final)
    (Q := fun name => ∃ decl, table'.types.get? name = some decl ∧ decl.isStructLike = true)
    (fun _ _ hops nested hin =>
      nestedTypes_isStructLike hsame.wellNamed (forall₂_opOf_fields hops) hin)
    ?_ ⟨hnodup, hall⟩ hname h).1
  rintro b n decl ops plan ⟨decl', hdecl', hs⟩ ⟨hb, hext⟩ hnone hdecl hops hplan
  obtain rfl : decl' = decl := by simpa [hdecl] using hdecl'.symm
  -- the same fields give the same plan among the plans that are there
  obtain ⟨found, hfound⟩ : ∃ p, final.types.get? n = some p := by
    rw [← hsame.wellNamed.name_eq hdecl]
    exact hfinal decl' ((hsame.mem_iff _).1 (Dict.mem_values_of_get? hdecl)) hs
  obtain ⟨d, os, hd, hos, hofOps⟩ := hmade n found hfound
  obtain rfl : decl' = d := by simpa [hsame.get?, hd] using hdecl.symm
  obtain rfl : ops = os := by simpa [hsame.fieldOp_eq, hos] using hops.symm
  obtain rfl : plan = found := by simpa [hofOps] using (ofOps_mono hext hplan).symm
  refine ⟨Dict.nodup_keys_insert hb,
    Plans.extends_of_kept (Dict.nodup_keys_insert hb) fun m p hm => ?_⟩
  simp only [Dict.get?_insert] at hm
  split_ifs at hm with heq
  · rw [heq, hfound, hm]
  · exact hext.kept m p hm

/-- The plans of a table are among those of a table with the same declarations. -/
theorem planProgram_extends (hsame : table'.SameTypes table) (h : planProgram table = .ok plans)
    (h' : planProgram table' = .ok plans') : plans'.Extends plans := by
  have hmade := (Plans.planProgram_made h).1
  have hfinal := (Plans.planProgram_planned hsame.wellNamed' h).types
  simp only [planProgram, Except.bind_eq_ok] at h'
  obtain ⟨mid, hmid, hargs⟩ := h'
  have hstart : ({} : Plans).types.keys.Nodup := List.nodup_nil
  have hmidExtends : mid.types.keys.Nodup ∧ mid.Extends plans := by
    refine List.foldlM_invariant (fun all : Plans => all.types.keys.Nodup ∧ all.Extends plans) ?_
      ⟨hstart, fun _ _ hn => by simp at hn, Nat.zero_le _⟩ hmid
    rintro decl hd b b' ⟨hnodup, hb⟩ hb'
    obtain ⟨hmem, hs⟩ := List.mem_filter.1 hd
    exact planType_within hsame hmade hfinal hnodup hb
      ⟨decl, hsame.wellNamed.get?_name hmem, hs⟩ hb'
  have htypes : plans'.types = mid.types := by
    refine List.foldlM_invariant (fun all : Plans => all.types = mid.types) ?_ rfl hargs
    intro contract _ b b' hb hb'
    simp only [planInitArgs, Except.bind_eq_ok, Except.pure_eq_ok] at hb'
    obtain ⟨-, -, -, -, rfl⟩ := hb'
    exact hb
  exact (Plans.extends_of_types_eq htypes).trans hmidExtends.2

/-- The plans of arguments are among those of a table with the same declarations. -/
theorem planProgram_keepsArgs (hsame : table'.SameTypes table) (h : planProgram table = .ok plans)
    (h' : planProgram table' = .ok plans') {plan : Plan}
    (hplan : plans'.initArgs.get? name = some plan) : plans.initArgs.get? name = some plan := by
  obtain ⟨contract, hc, rfl, ops, hops, hofOps⟩ := (Plans.planProgram_made h').2 name plan hplan
  have hcontract := (hsame.mem_contracts_iff contract).1 hc
  obtain ⟨found, hfound⟩ :=
    (Plans.planProgram_planned hsame.wellNamed' h).initArgs contract hcontract
  obtain ⟨contract', hc', hname, os, hos, hmade⟩ := (Plans.planProgram_made h).2 _ _ hfound
  obtain rfl : contract' = contract := by
    have hget := hsame.wellNamed'.get?_name (TypeTable.mem_contracts.1 hcontract).1
    have hget' := hsame.wellNamed'.get?_name (TypeTable.mem_contracts.1 hc').1
    simpa [hname, hget] using hget'.symm
  obtain rfl : ops = os := by simpa [hsame.paramOp_eq, hos] using hops.symm
  obtain rfl : plan = found := by
    simpa [hmade] using (ofOps_mono (planProgram_extends hsame h h') hofOps).symm
  exact hfound

/-! ### Refusals -/

/-- A reason to refuse a table is one for every table with the same declarations. -/
theorem Refusal.of_sameTypes {e : Error} (hsame : table'.SameTypes table) (h : Refusal table' e) :
    Refusal table e := by
  cases h with
  | field hdecl hs hf hop =>
    exact .field ((hsame.mem_iff _).1 hdecl) hs hf (hsame.fieldOp_eq _ ▸ hop)
  | param hc hp hop =>
    exact .param ((hsame.mem_contracts_iff _).1 hc) hp (hsame.paramOp_eq _ ▸ hop)
  | circular hcycle => exact .circular (hsame.embeds_eq ▸ hcycle)

/-- A table with a reason to refuse it has no plans. -/
theorem Refusal.not_planned {e : Error} (hw : table.WellNamed) (h : Refusal table e)
    (hplans : planProgram table = .ok plans) : False := by
  have hplanned := Plans.planProgram_planned hw hplans
  cases h with
  | @field decl f _ hdecl hs hf hop =>
    obtain ⟨plan, hplan⟩ := hplanned.types decl hdecl hs
    obtain ⟨d, hd, -, hstores⟩ := hplanned.planned.stores _ _ hplan
    obtain rfl : decl = d := by simpa [hw.get?_name hdecl] using hd
    exact (typeOp_eq_error hop).1 (storable_of_stores hstores _ (List.mem_map_of_mem hf))
  | @param contract p _ hc hp hop =>
    obtain ⟨plan, hplan⟩ := hplanned.initArgs contract hc
    obtain ⟨c, hc', hname, hstores⟩ := hplanned.storesArgs _ _ hplan
    obtain rfl : contract = c := by
      have hget := hw.get?_name (TypeTable.mem_contracts.1 hc).1
      have hget' := hw.get?_name (TypeTable.mem_contracts.1 hc').1
      simpa [hname, hget] using hget'
    exact (typeOp_eq_error hop).1 (storable_of_stores hstores _ (List.mem_map_of_mem hp))
  | circular hcycle => exact planProgram_not_embeds_self hw hplans _ hcycle

/-- A table has plans if one with the same declarations has. -/
theorem exists_planProgram (hsame : table'.SameTypes table) (h : planProgram table = .ok plans) :
    ∃ plans', planProgram table' = .ok plans' := by
  cases h' : planProgram table' with
  | ok plans' => exact ⟨plans', rfl⟩
  | error e =>
    have hrefusal := planProgram_refusal hsame.wellNamed h'
    exact ((hrefusal.of_sameTypes hsame).not_planned hsame.wellNamed' h).elim

end Plan

/-- **Plans do not depend on the order of declarations.** Take two tables of well-named types that
hold the same declarations in different orders. There are plans for both or for neither. If there
are, every name has the same plan in both, and the same plan of arguments; all records and all
contracts have one. -/
theorem planProgram_order {table table' : TypeTable} (hw : table.WellNamed) (hw' : table'.WellNamed)
    (hperm : table.types.values.Perm table'.types.values) :
    ((∃ plans, planProgram table = .ok plans) ↔ ∃ plans, planProgram table' = .ok plans) ∧
      ∀ plans plans', planProgram table = .ok plans → planProgram table' = .ok plans' →
        (∀ name, plans.types.get? name = plans'.types.get? name ∧
          plans.initArgs.get? name = plans'.initArgs.get? name) ∧
        (∀ decl ∈ table.types.values, decl.isStructLike = true →
          ∃ plan, plans.types.get? decl.name = some plan) ∧
        ∀ contract ∈ table.contracts, ∃ plan, plans.initArgs.get? contract.name = some plan := by
  have hsame : table.SameTypes table' := ⟨hw, hw', fun _ => hperm.mem_iff⟩
  refine ⟨⟨fun ⟨_, h⟩ => Plan.exists_planProgram hsame.symm h,
    fun ⟨_, h⟩ => Plan.exists_planProgram hsame h⟩, fun plans plans' h h' => ⟨fun name => ?_, ?_⟩⟩
  · have hkept := Plan.planProgram_extends hsame h' h
    have hkept' := Plan.planProgram_extends hsame.symm h h'
    exact ⟨Option.ext fun plan => ⟨hkept.kept name plan, hkept'.kept name plan⟩,
      Option.ext fun plan => ⟨Plan.planProgram_keepsArgs hsame h' h,
        Plan.planProgram_keepsArgs hsame.symm h h'⟩⟩
  · have hplanned := Plans.planProgram_planned hw h
    exact ⟨hplanned.types, hplanned.initArgs⟩

/-- The declarations of `ordersTable` the other way round, so that every record is met in a field
before it is planned on its own. -/
def reversedOrdersTable : TypeTable :=
  { ordersTable with types := ⟨ordersTable.types.entries.reverse⟩ }

theorem planProgram_order_orders :
    (ordersTable.WellNamed ∧ reversedOrdersTable.WellNamed ∧
      ordersTable.types.values.Perm reversedOrdersTable.types.values) ∧
    ordersTable.types.keys ≠ reversedOrdersTable.types.keys ∧
    ∃ plans plans', planProgram ordersTable = .ok plans ∧
      planProgram reversedOrdersTable = .ok plans' ∧
      ∀ name, plans.types.get? name = plans'.types.get? name ∧
        plans.initArgs.get? name = plans'.initArgs.get? name := by
  have hw : ordersTable.WellNamed := ⟨by decide +kernel, by decide +kernel⟩
  have hw' : reversedOrdersTable.WellNamed := ⟨by decide +kernel, by decide +kernel⟩
  have hperm : ordersTable.types.values.Perm reversedOrdersTable.types.values :=
    (List.reverse_perm _).symm.map _
  obtain ⟨plans, hplans⟩ : ∃ plans, planProgram ordersTable = .ok plans := ⟨_, rfl⟩
  obtain ⟨plans', hplans'⟩ := (planProgram_order hw hw' hperm).1.1 ⟨plans, hplans⟩
  exact ⟨⟨hw, hw', hperm⟩, by decide +kernel, plans, plans', hplans, hplans',
    ((planProgram_order hw hw' hperm).2 plans plans' hplans hplans').1⟩

end CellCompiler
