import CellCompiler.Proofs.Plan.Soundness

/-!
# Room in the data cell of a contract

The data of a contract is one cell. It starts with a reference to the cell of known codes and a bit
that tells whether the contract has started, and goes on with the first cell of the state or, before
the first message, of the arguments. The planner gives that first cell the whole budget of a cell
and sets nothing aside for the start of the data.

* `Plans.dataHead` is the space of that start;
* `Plans.DataRoom` says how the first cell of a plan and the data cell are related;
* `planProgram_dataRoom` is the main result: the first cell of a planned contract always fits a cell
  of its own, and it fits the data cell exactly if it leaves a bit and a reference free.
-/

namespace CellCompiler

namespace Plan

/-- The operations of the first cell. -/
def Chain.firstOps : Chain → List Op
  | .last ops | .link ops _ => ops

/-- The first cell refers to a next one. -/
def Chain.continues : Chain → Bool
  | .last _ => false
  | .link .. => true

end Plan

namespace Plans

open Plan (Usage Chain)

variable {table : TypeTable} {all plans : Plans} {plan : Plan}

/-- What the data cell of a contract holds in front of a plan. -/
def dataHead : Usage := ⟨1, 1⟩

/-- The first cell of a plan takes the header and its own fields, `own`, and a reference to the next
cell if there is one. It is within the budget of a cell, and the data cell is as well exactly if the
fields leave a bit and a reference free. -/
def DataRoom (all : Plans) (plan : Plan) : Prop :=
  ∃ own used : Usage,
    plan.headerUsage.total (plan.root.firstOps.map all.opUsage) = .ok own ∧
      all.rootUsage plan = .ok used ∧
      used.bits = own.bits ∧ used.refs = own.refs + (if plan.root.continues then 1 else 0) ∧
      used.fits = true ∧
      ((used.add dataHead).fits = true ↔
        own.bits < Cell.maxBits ∧
          own.refs + (if plan.root.continues then 1 else 0) < Cell.maxRefs)

theorem dataHead_fits_iff {used : Usage} :
    (used.add dataHead).fits = true ↔ used.bits < Cell.maxBits ∧ used.refs < Cell.maxRefs := by
  rw [Usage.fits_iff]
  simp only [Usage.bits_add, Usage.refs_add, dataHead]
  omega

theorem dataRoom_of_sound (h : plan.Sound all) : DataRoom all plan := by
  have hfits := h.fits
  obtain ⟨header, root, ops⟩ := plan
  cases root with
  | last first =>
    obtain ⟨own, hown, hfits⟩ := hfits
    exact ⟨own, own, hown, hown, rfl, rfl, hfits, dataHead_fits_iff⟩
  | link first next =>
    obtain ⟨⟨own, hown, hfits⟩, -⟩ := hfits
    refine ⟨own, own.add ⟨0, 1⟩, hown, ?_, rfl, rfl, hfits, dataHead_fits_iff⟩
    rw [rootUsage, Chain.usageBy, Except.bind_eq_ok]
    exact ⟨own, hown, rfl⟩

end Plans

open Plans (DataRoom dataHead)

/-- **Room in the data cell.** Every planned contract has a plan of its state and one of its
arguments. The first cell of either is within the budget of a cell, and storing it after the head of
the data cell stays within the budget exactly if it leaves a bit and a reference free. -/
theorem planProgram_dataRoom {table : TypeTable} {plans : Plans} (hw : table.WellNamed)
    (h : planProgram table = .ok plans) {contract : TypeDecl} (hc : contract ∈ table.contracts) :
    ∃ state args, plans.types.get? contract.name = some state ∧
      plans.initArgs.get? contract.name = some args ∧ DataRoom plans state ∧
      DataRoom plans args := by
  have hp := Plans.planProgram_planned hw h
  obtain ⟨hmem, hcontract⟩ := TypeTable.mem_contracts.1 hc
  obtain ⟨state, hstate⟩ := hp.types contract hmem (TypeDecl.isStructLike_of_isContract hcontract)
  obtain ⟨args, hargs⟩ := hp.initArgs contract hc
  obtain ⟨_, _, _, hstores⟩ := hp.planned.stores _ _ hstate
  obtain ⟨_, _, _, hstores'⟩ := hp.storesArgs _ _ hargs
  exact ⟨state, args, hstate, hargs, Plans.dataRoom_of_sound hstores.sound,
    Plans.dataRoom_of_sound hstores'.sound⟩

/-- A contract whose state is four cells and whose argument is a cell. -/
def vaultTable : TypeTable :=
  let field (name : String) (index : UInt64) : Field := ⟨name, index, .plain "Cell", none, none⟩
  TypeTable.primitives.addType
    { TypeDecl.ofFields .contract "Vault" [field "a" 0, field "b" 1, field "c" 2, field "d" 3]
      with init := some { params := [⟨"first", .plain "Cell"⟩] } }

/-- The state of the vault is planned and valid, but it does not fit the data cell. -/
theorem vault_has_no_room :
    ∃ plans state used, planProgram vaultTable = .ok plans ∧ plans.validate = .ok () ∧
      plans.types.get? "Vault" = some state ∧ plans.rootUsage state = .ok used ∧
      (used.add dataHead).fits = false ∧ DataRoom plans state := by
  have hw : vaultTable.WellNamed := ⟨by decide +kernel, by decide +kernel⟩
  obtain ⟨plans, hplans, hvalid, hused⟩ : ∃ plans, planProgram vaultTable = .ok plans ∧
      plans.validate = .ok () ∧ ∀ state, plans.types.get? "Vault" = some state →
        plans.rootUsage state = .ok ⟨0, 4⟩ := by
    refine ⟨_, rfl, rfl, fun state hstate => ?_⟩
    cases hstate
    rfl
  obtain ⟨vault, hvault, hname⟩ : ∃ vault ∈ vaultTable.contracts, vault.name = "Vault" :=
    ⟨_, List.mem_singleton_self _, rfl⟩
  obtain ⟨state, -, hstate, -, hroom, -⟩ := planProgram_dataRoom hw hplans hvault
  rw [hname] at hstate
  exact ⟨plans, state, ⟨0, 4⟩, hplans, hvalid, hstate, hused state hstate, rfl, hroom⟩

end CellCompiler
