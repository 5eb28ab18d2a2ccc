import CellCompiler.Proofs.Descent
import CellCompiler.Proofs.Plan.DataCell

/-!
# Records that hold themselves

The check of plans (`Plans.validate`) follows records that are stored in place: through the first
cells when it counts space, and through the last fields when it asks whether a record takes
everything that is left. Plans may be supplied from outside, so that there can be cycles.

* `Plans.HoldsFirst` and `Plans.EndsWith` are the two relations that the check follows, and
  `Plans.Holds` is about all fields of a record;
* `Plans.Recursion.eq_of_depthBound_le` says that the number of plans is bound enough: an answer that is
  not there by then never comes;
* `Plans.validate_outcomes` is the main result. The check ends if neither relation has a cycle, and
  it accepts no cycle through first cells. A cycle through another cell it may well accept
  (`Plans.loop_accepted`), and one that it follows has no answer (`Plans.knot_endless`).
-/

namespace CellCompiler

open Relation (TransGen)

namespace Plan

/-! ### Answers that do not come -/

section Agreement

variable {α : Type} {f g : String → Except Error α}

/-- Where the first function ends, the second does so in the same way. -/
def Agrees (f g : String → Except Error α) : Prop := ∀ n, f n ≠ .error .endless → g n = f n

end Agreement

variable {f g : String → Except Error Usage} {start : Usage}

theorem OpKind.usageBy_agrees (h : Agrees f g) {kind : OpKind}
    (hk : kind.usageBy f ≠ .error .endless) : kind.usageBy g = kind.usageBy f := by
  cases kind with
  | struct n byRef =>
    cases byRef with
    | true => rfl
    | false => exact h n hk
  | _ => rfl

theorem Op.usageBy_agrees (h : Agrees f g) {op : Op} (ho : op.usageBy f ≠ .error .endless) :
    op.usageBy g = op.usageBy f := by
  have hk : op.kind.usageBy f ≠ .error .endless := fun hk => ho (by rw [Op.usageBy, hk]; rfl)
  rw [Op.usageBy, Op.usageBy, OpKind.usageBy_agrees h hk]

theorem Usage.total_agrees (h : Agrees f g) {ops : List Op}
    (ht : start.total (ops.map (Op.usageBy f)) ≠ .error .endless) :
    start.total (ops.map (Op.usageBy g)) = start.total (ops.map (Op.usageBy f)) := by
  induction ops generalizing start with
  | nil => rfl
  | cons op ops ih =>
    simp only [List.map_cons, Usage.total_cons] at ht ⊢
    have ho : op.usageBy f ≠ .error .endless := fun ho => ht (by rw [ho]; rfl)
    rw [Op.usageBy_agrees h ho]
    cases hop : op.usageBy f with
    | error e => rfl
    | ok u =>
      rw [hop] at ht
      exact ih ht

theorem Chain.usageBy_agrees (h : Agrees f g) {c : Chain}
    (hc : c.usageBy f start ≠ .error .endless) : c.usageBy g start = c.usageBy f start := by
  cases c with
  | last ops => exact Usage.total_agrees h hc
  | link ops next =>
    have ht : start.total (ops.map (Op.usageBy f)) ≠ .error .endless :=
      fun ht => hc (by rw [Chain.usageBy, ht]; rfl)
    rw [Chain.usageBy, Chain.usageBy, Usage.total_agrees h ht]

theorem openEndedBy_agrees {f g : String → Except Error Bool} (h : Agrees f g) {p : Plan}
    (hp : p.openEndedBy f ≠ .error .endless) : p.openEndedBy g = p.openEndedBy f := by
  unfold openEndedBy at hp ⊢
  cases hlast : p.ops.getLast? with
  | none => rfl
  | some op =>
    simp only [hlast] at hp ⊢
    split
    · rfl
    · next hr =>
      cases hi : op.kind.inline? with
      | none => rfl
      | some n => exact h n (by simpa [hr, hi] using hp)

/-- The computation waits for a record in place, and so does one by any other account of records in
place that goes on where this one does. -/
structure Waits (f : String → Except Error Usage) (ops : List Op)
    (compute : (String → Except Error Usage) → Except Error Usage) (n : String) : Prop where
  mem : ∃ op ∈ ops, op.kind.inline? = some n
  endless : f n = .error .endless
  waits : ∀ g, Agrees f g → g n = .error .endless → compute g = .error .endless

theorem OpKind.exists_waits {kind : OpKind} (h : kind.usageBy f = .error .endless) :
    ∃ n, kind.inline? = some n ∧ f n = .error .endless ∧
      ∀ g : String → Except Error Usage, g n = .error .endless → kind.usageBy g = .error .endless := by
  cases kind with
  | struct n byRef =>
    cases byRef with
    | true => cases h
    | false => exact ⟨n, rfl, h, fun g hg => hg⟩
  | _ => cases h

theorem Usage.total_waits {ops : List Op}
    (h : start.total (ops.map (Op.usageBy f)) = .error .endless) :
    ∃ n, Waits f ops (fun g => start.total (ops.map (Op.usageBy g))) n := by
  induction ops generalizing start with
  | nil => cases h
  | cons op ops ih =>
    rw [List.map_cons, Usage.total_cons] at h
    obtain ho | ⟨u, ho, h⟩ := Except.bind_eq_error.1 h
    · obtain hk | ⟨u, -, hu⟩ := Except.bind_eq_error.1 ho
      · obtain ⟨n, hn, hf, hg⟩ := OpKind.exists_waits hk
        refine ⟨n, ⟨op, List.mem_cons_self, hn⟩, hf, fun g _ hgn => ?_⟩
        rw [List.map_cons, Usage.total_cons, Op.usageBy, hg g hgn]
        rfl
      · cases hu
    · obtain ⟨n, ⟨op', hop', hn⟩, hf, hg⟩ := ih h
      refine ⟨n, ⟨op', List.mem_cons_of_mem op hop', hn⟩, hf, fun g hfg hgn => ?_⟩
      have ho' : op.usageBy g = .ok u := by
        rw [Op.usageBy_agrees hfg (by simp [ho]), ho]
      rw [List.map_cons, Usage.total_cons, ho']
      exact hg g hfg hgn

theorem Chain.exists_waits {c : Chain} (h : c.usageBy f start = .error .endless) :
    ∃ n, Waits f c.firstOps (fun g => c.usageBy g start) n := by
  cases c with
  | last ops => exact Usage.total_waits h
  | link ops next =>
    obtain ht | ⟨u, -, hu⟩ := Except.bind_eq_error.1 h
    · obtain ⟨n, hmem, hf, hg⟩ := Usage.total_waits ht
      refine ⟨n, hmem, hf, fun g hfg hgn => ?_⟩
      rw [Chain.usageBy, hg g hfg hgn]
      rfl
    · cases hu

theorem exists_inline_of_openEndedBy {f : String → Except Error Bool} {p : Plan}
    (h : p.openEndedBy f = .error .endless) :
    ∃ op n, p.ops.getLast? = some op ∧ op.kind.inline? = some n ∧ f n = .error .endless ∧
      ∀ g : String → Except Error Bool, g n = .error .endless → p.openEndedBy g = .error .endless := by
  unfold openEndedBy at h
  cases hlast : p.ops.getLast? with
  | none => simp [hlast] at h
  | some op =>
    simp only [hlast] at h
    split at h
    · cases h
    · next hr =>
      cases hi : op.kind.inline? with
      | none => simp [hi] at h
      | some n =>
        refine ⟨op, n, rfl, hi, by simpa [hi] using h, fun g hg => ?_⟩
        simp [openEndedBy, hlast, hr, hi, hg]

end Plan

namespace Plans

open Plan (Op Chain Usage Error Agrees)

variable {all : Plans} {name outer inner : String} {plan : Plan}

/-- The first cell of the one record holds the other. -/
def HoldsFirst (all : Plans) (outer inner : String) : Prop :=
  ∃ plan, all.types.get? outer = some plan ∧
    ∃ op ∈ plan.root.firstOps, op.kind.inline? = some inner

/-- The last field of the one record holds the other in place. -/
def EndsWith (all : Plans) (outer inner : String) : Prop :=
  ∃ plan, all.types.get? outer = some plan ∧
    ∃ op, plan.ops.getLast? = some op ∧ op.kind.inline? = some inner

/-- A field of the one record, in whichever cell, holds the other in place. -/
def Holds (all : Plans) (outer inner : String) : Prop :=
  ∃ plan, all.types.get? outer = some plan ∧ ∃ op ∈ plan.ops, op.kind.inline? = some inner

theorem HoldsFirst.mem_keys (h : all.HoldsFirst outer inner) : outer ∈ all.types.keys := by
  obtain ⟨plan, hplan, -⟩ := h
  exact Dict.mem_keys_iff.2 ⟨plan, hplan⟩

theorem EndsWith.mem_keys (h : all.EndsWith outer inner) : outer ∈ all.types.keys := by
  obtain ⟨plan, hplan, -⟩ := h
  exact Dict.mem_keys_iff.2 ⟨plan, hplan⟩

theorem length_keys (all : Plans) : all.types.keys.length + 1 = all.depthBound := by
  rw [Dict.keys, List.length_map]
  rfl

/-! ### The bound for the depth -/

theorem inlineUsage_agrees (k : Nat) : Agrees (all.inlineUsage k) (all.inlineUsage (k + 1)) := by
  induction k with
  | zero => exact fun n hn => absurd rfl hn
  | succ k ih =>
    intro n hn
    rw [inlineUsage] at hn ⊢
    cases hplan : all.get n with
    | error e => rw [inlineUsage, hplan]; rfl
    | ok plan =>
      rw [hplan] at hn
      rw [inlineUsage, hplan]
      exact Plan.Chain.usageBy_agrees ih hn

theorem inlineOpenEnded_agrees (k : Nat) :
    Agrees (all.inlineOpenEnded k) (all.inlineOpenEnded (k + 1)) := by
  induction k with
  | zero => exact fun n hn => absurd rfl hn
  | succ k ih =>
    intro n hn
    rw [inlineOpenEnded] at hn ⊢
    cases hplan : all.get n with
    | error e => rw [inlineOpenEnded, hplan]; rfl
    | ok plan =>
      rw [hplan] at hn
      rw [inlineOpenEnded, hplan]
      exact Plan.openEndedBy_agrees ih hn

/-- A count that does not come back waits for one below. -/
theorem exists_holdsFirst {k : Nat} (h : all.inlineUsage (k + 1) name = .error .endless) :
    ∃ inner, all.HoldsFirst name inner ∧ all.inlineUsage k inner = .error .endless ∧
      (all.inlineUsage (k + 1) inner = .error .endless →
        all.inlineUsage (k + 2) name = .error .endless) := by
  obtain hget | ⟨plan, hplan, h⟩ := Except.bind_eq_error.1 h
  · rw [get] at hget
    split at hget <;> cases hget
  · obtain ⟨n, ⟨op, hop, hn⟩, hendless, hwaits⟩ := Plan.Chain.exists_waits h
    refine ⟨n, ⟨plan, get_eq_ok.1 hplan, op, hop, hn⟩, hendless, fun hlater => ?_⟩
    rw [inlineUsage, hplan]
    exact hwaits _ (inlineUsage_agrees k) hlater

theorem exists_endsWith {k : Nat} (h : all.inlineOpenEnded (k + 1) name = .error .endless) :
    ∃ inner, all.EndsWith name inner ∧ all.inlineOpenEnded k inner = .error .endless ∧
      (all.inlineOpenEnded (k + 1) inner = .error .endless →
        all.inlineOpenEnded (k + 2) name = .error .endless) := by
  obtain hget | ⟨plan, hplan, h⟩ := Except.bind_eq_error.1 h
  · rw [get] at hget
    split at hget <;> cases hget
  · obtain ⟨op, n, hlast, hn, hendless, hwaits⟩ := Plan.exists_inline_of_openEndedBy h
    refine ⟨n, ⟨plan, get_eq_ok.1 hplan, op, hlast, hn⟩, hendless, fun hlater => ?_⟩
    rw [inlineOpenEnded, hplan]
    exact hwaits _ hlater

/-- A recursion under a bound for its depth that waits only for recursions one step below. -/
structure Recursion {α : Type} (all : Plans) (below : Nat → String → Except Error α)
    (follows : String → String → Prop) : Prop where
  zero : ∀ n, below 0 n = .error .endless
  agrees : ∀ k, Agrees (below k) (below (k + 1))
  mem_keys : ∀ a b, follows a b → a ∈ all.types.keys
  step : ∀ k a, below (k + 1) a = .error .endless → ∃ b, follows a b ∧
    below k b = .error .endless ∧
      (below (k + 1) b = .error .endless → below (k + 2) a = .error .endless)

theorem recursion_inlineUsage (all : Plans) : Recursion all all.inlineUsage all.HoldsFirst :=
  ⟨fun _ => rfl, inlineUsage_agrees, fun _ _ => HoldsFirst.mem_keys, fun _ _ => exists_holdsFirst⟩

theorem recursion_inlineOpenEnded (all : Plans) :
    Recursion all all.inlineOpenEnded all.EndsWith :=
  ⟨fun _ => rfl, inlineOpenEnded_agrees, fun _ _ => EndsWith.mem_keys, fun _ _ => exists_endsWith⟩

section Recursion

variable {α : Type} {below : Nat → String → Except Error α} {follows : String → String → Prop}

theorem Recursion.eq_of_le (h : Recursion all below follows) {m n : Nat} (hmn : m ≤ n)
    (hname : below m name ≠ .error .endless) : below n name = below m name := by
  induction n, hmn using Nat.le_induction with
  | base => rfl
  | succ n _ ih =>
    rw [h.agrees n name (ih.symm ▸ hname), ih]

/-- **The number of plans is bound enough.** Under any larger one the outcome is the same, an
endless recursion included. -/
theorem Recursion.eq_of_depthBound_le (h : Recursion all below follows) {fuel : Nat}
    (hfuel : all.depthBound ≤ fuel) : below fuel name = below all.depthBound name := by
  by_cases hbound : below all.depthBound name = .error .endless
  · by_contra hne
    have hanswer : below fuel name ≠ .error .endless := fun heq => hne (heq.trans hbound.symm)
    let answered (k : Nat) (n : String) : Prop := below k n ≠ .error .endless
    have hkept : ∀ k n, answered k n → answered (k + 1) n := fun k n hn => ne_of_eq_of_ne (h.agrees k n hn) hn
    have hstep : ∀ k a, Late answered (k + 1) a → ∃ b, follows a b ∧ Late answered k b := by
      rintro k a ⟨hanswer, hlate⟩
      obtain ⟨b, hab, hendless, hwaits⟩ := h.step k a (not_not.1 hlate)
      exact ⟨b, hab, fun hb => hanswer (hwaits hb), not_not.2 hendless⟩
    exact answered_of_length hkept h.mem_keys hstep hanswer (by rwa [length_keys])
  · exact h.eq_of_le hfuel hbound

/-- Without cycles every recursion ends. -/
theorem Recursion.ends (h : Recursion all below follows) (hacyclic : ∀ n, ¬ TransGen follows n n) :
    below all.depthBound name ≠ .error .endless := by
  have hdescends : ∀ k n, below k n = .error .endless → Descends follows k n := by
    intro k
    induction k with
    | zero => exact fun _ _ => .zero
    | succ k ih =>
      intro n hn
      obtain ⟨b, hab, hb, -⟩ := h.step k n hn
      exact .succ hab (ih b hb)
  intro hendless
  have hle := (hdescends _ _ hendless).le_length h.mem_keys hacyclic
  rw [← length_keys] at hle
  omega

end Recursion

/-! ### Accepted plans -/

theorem exists_inlineUsage {f : String → Except Error Usage} {start u : Usage} {ops : List Op}
    (h : start.total (ops.map (Op.usageBy f)) = .ok u) :
    ∀ op ∈ ops, ∀ n, op.kind.inline? = some n → ∃ v, f n = .ok v := by
  induction ops generalizing start with
  | nil => simp
  | cons op ops ih =>
    rw [List.map_cons, Usage.total_cons] at h
    obtain ⟨v, hv, h⟩ := Except.bind_eq_ok.1 h
    refine List.forall_mem_cons.2 ⟨fun n hn => ?_, ih h⟩
    obtain ⟨base, hbase, -⟩ := Except.bind_eq_ok.1 hv
    generalize op.kind = kind at hn hbase
    cases kind with
    | struct name byRef =>
      cases byRef with
      | true => cases hn
      | false => exact ⟨base, Option.some.inj hn ▸ hbase⟩
    | _ => cases hn

theorem exists_total_firstOps {f : String → Except Error Usage} {start u : Usage} {c : Chain}
    (h : c.usageBy f start = .ok u) : ∃ v, start.total (c.firstOps.map (Op.usageBy f)) = .ok v := by
  cases c with
  | last ops => exact ⟨u, h⟩
  | link ops next =>
    obtain ⟨v, hv, -⟩ := Except.bind_eq_ok.1 h
    exact ⟨v, hv⟩

/-- What can be counted holds no record that holds itself. -/
theorem acc_of_inlineUsage {k : Nat} {u : Usage} (h : all.inlineUsage k name = .ok u) :
    Acc (fun inner outer => all.HoldsFirst outer inner) name := by
  induction k generalizing name u with
  | zero => cases h
  | succ k ih =>
    refine .intro name ?_
    rintro inner ⟨plan, hplan, op, hop, hinner⟩
    simp only [inlineUsage, Except.bind_eq_ok, get_eq_ok] at h
    obtain ⟨plan', hplan', h⟩ := h
    obtain rfl : plan = plan' := by simpa [hplan] using hplan'
    obtain ⟨v, hv⟩ := exists_total_firstOps h
    obtain ⟨w, hw⟩ := exists_inlineUsage hv op hop inner hinner
    exact ih hw

/-- The first cell of an accepted plan can be counted. -/
theorem exists_usage_of_validate (h : all.validate = .ok ()) (hplan : all.types.get? name = some plan) :
    ∃ u, all.inlineUsage (all.depthBound + 1) name = .ok u := by
  have hvalid := List.forM_eq_ok.1 h (name, plan)
    (List.mem_append_left _ (Dict.mem_entries_of_get? hplan))
  simp only [validatePlan] at hvalid
  split at hvalid
  · cases hvalid
  · obtain ⟨_, hcells, -⟩ := Except.bind_eq_ok.1 hvalid
    unfold checkCells at hcells
    obtain ⟨u, hu, -⟩ := Except.bind_eq_ok.1 hcells
    exact ⟨u, by rw [inlineUsage, get_eq_ok.2 hplan]; exact hu⟩

/-- An accepted collection has no cycle through first cells. -/
theorem acyclic_of_validate (h : all.validate = .ok ()) (name : String) :
    ¬ TransGen all.HoldsFirst name name := by
  intro hcycle
  obtain ⟨next, ⟨plan, hplan, -⟩, -⟩ := TransGen.head'_iff.1 hcycle
  obtain ⟨u, hu⟩ := exists_usage_of_validate h hplan
  exact not_rel_self_of_acc (acc_of_inlineUsage hu).transGen (Relation.transGen_swap.2 hcycle)

/-! ### The check ends -/

theorem checkCells_ne_endless (hacyclic : ∀ n, ¬ TransGen all.HoldsFirst n n) {typeName : String}
    {chain : Chain} {index : Nat} {start : Usage} :
    all.checkCells typeName index start chain ≠ .error .endless := by
  induction chain generalizing index start with
  | last ops =>
    intro h
    rw [checkCells] at h
    obtain h | ⟨u, -, h⟩ := Except.bind_eq_error.1 h
    · obtain ⟨n, hwaits⟩ := Plan.Chain.exists_waits h
      exact (recursion_inlineUsage all).ends hacyclic hwaits.endless
    · split at h <;> cases h
  | link ops next ih =>
    intro h
    rw [checkCells] at h
    obtain h | ⟨u, -, h⟩ := Except.bind_eq_error.1 h
    · obtain ⟨n, hwaits⟩ := Plan.Chain.exists_waits h
      exact (recursion_inlineUsage all).ends hacyclic hwaits.endless
    · split at h
      · exact ih h
      · cases h

theorem isOpenEnded_ne_endless (hacyclic : ∀ n, ¬ TransGen all.EndsWith n n) :
    all.isOpenEnded plan ≠ .error .endless := by
  intro h
  obtain ⟨op, n, -, -, hendless, -⟩ := Plan.exists_inline_of_openEndedBy h
  exact (recursion_inlineOpenEnded all).ends hacyclic hendless

theorem checkOp_ne_endless (hacyclic : ∀ n, ¬ TransGen all.EndsWith n n) {typeName : String}
    {isLast : Bool} {op : Op} : all.checkOp typeName isLast op ≠ .error .endless := by
  intro h
  obtain ⟨opName, kind, optional⟩ := op
  cases hr : kind.isRemainder with
  | true =>
    -- what takes everything that is left is no record
    cases kind with
    | struct n byRef => simp [Plan.OpKind.isRemainder] at hr
    | _ => cases optional <;> cases isLast <;> simp [checkOp, hr] at h <;> cases h
  | false =>
    cases kind with
    | struct n byRef =>
      simp only [checkOp, hr, Bool.false_eq_true, ↓reduceIte] at h
      obtain h | ⟨p, -, h⟩ := Except.bind_eq_error.1 h
      · rw [get] at h
        split at h <;> cases h
      · split at h
        · obtain h | ⟨isOpen, -, h⟩ := Except.bind_eq_error.1 h
          · exact isOpenEnded_ne_endless hacyclic h
          · split at h <;> cases h
        · cases h
    | _ => simp [checkOp, hr] at h; cases h

theorem checkOps_ne_endless (hacyclic : ∀ n, ¬ TransGen all.EndsWith n n) {typeName : String}
    {ops : List Op} : all.checkOps typeName ops ≠ .error .endless := by
  induction ops with
  | nil => simp [checkOps]
  | cons op rest ih =>
    intro h
    obtain h | ⟨-, -, h⟩ := Except.bind_eq_error.1 h
    · exact checkOp_ne_endless hacyclic h
    · exact ih h

theorem validate_ne_endless (hfirst : ∀ n, ¬ TransGen all.HoldsFirst n n)
    (hlast : ∀ n, ¬ TransGen all.EndsWith n n) : all.validate ≠ .error .endless := by
  intro h
  obtain ⟨⟨typeName, plan⟩, -, h⟩ := List.exists_of_forM_eq_error h
  simp only [validatePlan] at h
  split at h
  · cases h
  · obtain h | ⟨-, -, h⟩ := Except.bind_eq_error.1 h
    · exact checkCells_ne_endless hfirst h
    · exact checkOps_ne_endless hlast h

/-- **Outcomes of the check.** The recursions that the check goes through are bounded by the number
of plans: under any larger bound they come to the same, so that one that is endless by then never
ends. If there is no cycle through first cells and none through last fields, the check accepts or
names what is wrong. If there is a cycle through first cells, it does not accept. -/
theorem validate_outcomes (all : Plans) :
    (∀ fuel name, all.depthBound ≤ fuel →
      all.inlineUsage fuel name = all.inlineUsage all.depthBound name ∧
        all.inlineOpenEnded fuel name = all.inlineOpenEnded all.depthBound name) ∧
    ((∀ name, ¬ TransGen all.HoldsFirst name name) → (∀ name, ¬ TransGen all.EndsWith name name) →
      all.validate = .ok () ∨ ∃ e, e ≠ .endless ∧ all.validate = .error e) ∧
    ((∃ name, TransGen all.HoldsFirst name name) → all.validate ≠ .ok ()) := by
  refine ⟨fun fuel name hfuel => ⟨?_, ?_⟩, fun hfirst hlast => ?_, ?_⟩
  · exact (recursion_inlineUsage all).eq_of_depthBound_le hfuel
  · exact (recursion_inlineOpenEnded all).eq_of_depthBound_le hfuel
  · have hends := validate_ne_endless hfirst hlast
    cases hvalid : all.validate with
    | ok => exact .inl rfl
    | error e => exact .inr ⟨e, fun heq => hends (hvalid.trans (heq ▸ rfl)), rfl⟩
  · rintro ⟨name, hcycle⟩ hvalid
    exact acyclic_of_validate hvalid name hcycle

/-- A record that holds itself in place in its second cell. -/
def loopPlans : Plans :=
  let tag : Op := ⟨"tag", .uint 8, false⟩
  let rest : List Op := [⟨"inner", .struct "Loop" false, false⟩, ⟨"mark", .uint 8, false⟩]
  { types := .ofList [("Loop", .ofChain none (.link [tag] (.last rest)))] }

/-- The check accepts a record that holds itself, so that it has no value at all. -/
theorem loop_accepted : loopPlans.Holds "Loop" "Loop" ∧ loopPlans.validate = .ok () :=
  ⟨⟨_, rfl, ⟨"inner", .struct "Loop" false, false⟩, by decide, rfl⟩, rfl⟩

/-- A record that is nothing but itself. -/
def knotPlans : Plans :=
  { types := .ofList [("Knot", .ofChain none (.last [⟨"knot", .struct "Knot" false, false⟩]))] }

/-- The check follows a record in its own first cell for ever. -/
theorem knot_endless :
    knotPlans.validate = .error .endless ∧
      ∀ fuel, knotPlans.inlineUsage fuel "Knot" = .error .endless := by
  refine ⟨rfl, fun fuel => ?_⟩
  induction fuel with
  | zero => rfl
  | succ fuel ih =>
    change Usage.total _ (List.map (Op.usageBy (knotPlans.inlineUsage fuel)) [_]) = _
    rw [List.map_cons, Usage.total_cons, Op.usageBy, Plan.OpKind.usageBy, ih]
    rfl

end Plans

end CellCompiler
