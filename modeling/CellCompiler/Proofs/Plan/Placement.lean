import CellCompiler.Plan.Planner
import CellCompiler.Proofs.Plan.Growth

/-!
# What the placement of operations guarantees

`Plan.place` fills cells greedily. A chain that it makes holds the given operations in their order,
some of them behind a reference, and each of its cells stays within its budget:

* `Op.Settles` relates an operation to the form in which it is placed;
* `Chain.Fits` says that every cell is within its budget, and `Chain.Full` that no cell but the
  first is empty;
* `Plan.Sound` collects what holds of a plan, and `ofOps_sound` is the main result: a plan that the
  planner makes is sound.
-/

namespace CellCompiler

namespace Plan

variable {all more : Plans} {op op' : Op} {ops ops' placed : List Op} {used start : Usage}
  {typeName : String} {chain : Chain}

/-! ### Operations and where they go -/

/-- The operation with a record in a cell of its own. -/
def Op.behindReference (op : Op) : Op := { op with kind := op.kind.behindReference }

/-- The second operation is the first, or the first behind a reference. -/
def Op.Settles (op op' : Op) : Prop := op' = op ∨ op' = op.behindReference

@[simp] theorem OpKind.behindReference_idem (k : OpKind) :
    k.behindReference.behindReference = k.behindReference := by
  cases k <;> rfl

@[simp] theorem OpKind.inline?_behindReference (k : OpKind) : k.behindReference.inline? = none := by
  cases k <;> rfl

theorem OpKind.eq_struct_of_inline? {k : OpKind} {type : String} (h : k.inline? = some type) :
    k = .struct type false := by
  unfold inline? at h
  split at h <;> simp_all

@[simp] theorem OpKind.isRemainder_behindReference (k : OpKind) :
    k.behindReference.isRemainder = k.isRemainder := by
  cases k <;> rfl

theorem Op.Settles.refl (op : Op) : op.Settles op := .inl rfl

theorem Op.Settles.trans {op'' : Op} (h : op.Settles op') (h' : op'.Settles op'') :
    op.Settles op'' := by
  rcases h with rfl | rfl
  · exact h'
  · rcases h' with rfl | rfl
    · exact .inr rfl
    · exact .inr (by simp [behindReference])

/-- Only records settle in another form. -/
theorem Op.Settles.eq_of_isStruct (h : op.Settles op') (hkind : op.kind.isStruct = false) :
    op' = op := by
  rcases h with rfl | rfl
  · rfl
  · obtain ⟨name, kind, optional⟩ := op
    cases kind with
    | struct type byRef => simp [OpKind.isStruct] at hkind
    | _ => rfl

theorem Op.Settles.name_eq (h : op.Settles op') : op'.name = op.name := by
  rcases h with rfl | rfl <;> rfl

theorem Op.Settles.optional_eq (h : op.Settles op') : op'.optional = op.optional := by
  rcases h with rfl | rfl <;> rfl

theorem Op.Settles.isRemainder_eq (h : op.Settles op') :
    op'.kind.isRemainder = op.kind.isRemainder := by
  rcases h with rfl | rfl
  · rfl
  · exact op.kind.isRemainder_behindReference

/-- The record that the operation holds, if any, has a plan. -/
def Op.Known (all : Plans) (op : Op) : Prop :=
  ∀ n byRef, op.kind = .struct n byRef → ∃ p, all.types.get? n = some p

/-- The record that the operation holds in place, if any, does not take everything that is left. -/
def Op.Closed (all : Plans) (op : Op) : Prop :=
  ∀ n, op.kind.inline? = some n → ∃ p, all.types.get? n = some p ∧ all.isOpenEnded p = .ok false

theorem Op.Known.settles (hk : op.Known all) (h : op.Settles op') : op'.Known all := by
  rcases h with rfl | rfl
  · exact hk
  · intro n byRef hn
    cases hkind : op.kind with
    | struct m r =>
      obtain ⟨rfl, -⟩ : m = n ∧ true = byRef := by
        simpa [behindReference, OpKind.behindReference, hkind] using hn
      exact hk m r hkind
    | _ => simp [behindReference, OpKind.behindReference, hkind] at hn

theorem Op.Closed.settles (hc : op.Closed all) (h : op.Settles op') : op'.Closed all := by
  rcases h with rfl | rfl
  · exact hc
  · intro n hn
    simp [behindReference] at hn

theorem Op.Known.mono (h : all.Extends more) (hk : op.Known all) : op.Known more := by
  intro n byRef hn
  obtain ⟨p, hp⟩ := hk n byRef hn
  exact ⟨p, h.kept n p hp⟩

theorem Op.Closed.mono (h : all.Extends more) (hc : op.Closed all) : op.Closed more := by
  intro n hn
  obtain ⟨p, hp, ho⟩ := hc n hn
  exact ⟨p, h.kept n p hp, Plans.isOpenEnded_mono h ho⟩

theorem Op.known_of_usage {u : Usage} (h : all.opUsage op = .ok u)
    (hin : ∀ n, op.kind ≠ .struct n true) : op.Known all := by
  intro n byRef hn
  cases byRef with
  | true => exact absurd hn (hin n)
  | false =>
    simp only [Plans.opUsage, Op.usageBy, hn, OpKind.usageBy, Except.bind_eq_ok, Plans.depthBound,
      Plans.inlineUsage, Plans.get_eq_ok] at h
    obtain ⟨-, ⟨p, hp, -⟩, -⟩ := h
    exact ⟨p, hp⟩

/-! ### Closing records that something follows -/

/-- The operation is as a field's type gives it: a record in place or no record. -/
def Op.IsInPlace (op : Op) : Prop := ∀ n, op.kind ≠ .struct n true

theorem closeOp_settles (h : closeOp all op = .ok op') : op.Settles op' ∧ op'.Closed all := by
  simp only [closeOp] at h
  cases hi : op.kind.inline? with
  | none =>
    obtain rfl : op = op' := by simpa [hi] using h
    exact ⟨.refl op, fun n hn => by simp [hi] at hn⟩
  | some n =>
    simp only [hi, Except.bind_eq_ok, Plans.get_eq_ok] at h
    obtain ⟨p, hp, isOpen, ho, h⟩ := h
    cases isOpen with
    | true =>
      obtain rfl : op.behindReference = op' := by simpa [Op.behindReference] using h
      exact ⟨.inr rfl, fun m hm => by simp [Op.behindReference] at hm⟩
    | false =>
      obtain rfl : op = op' := by simpa using h
      refine ⟨.refl op, fun m hm => ?_⟩
      obtain rfl : n = m := by simpa [hi] using hm
      exact ⟨p, hp, ho⟩

theorem closeOp_known (hin : op.IsInPlace) (h : closeOp all op = .ok op') : op'.Known all := by
  refine Op.Known.settles (fun n byRef hn => ?_) (closeOp_settles h).1
  cases byRef with
  | true => exact absurd hn (hin n)
  | false =>
    simp only [closeOp, hn, OpKind.inline?, Except.bind_eq_ok, Plans.get_eq_ok] at h
    obtain ⟨p, hp, -⟩ := h
    exact ⟨p, hp⟩

theorem closeOps_settles (h : closeOps all ops = .ok ops') :
    List.Forall₂ Op.Settles ops ops' ∧ ∀ op ∈ ops'.dropLast, op.Closed all := by
  induction ops generalizing ops' with
  | nil =>
    obtain rfl : [] = ops' := by simpa [closeOps] using h
    exact ⟨.nil, by simp⟩
  | cons op rest ih =>
    cases rest with
    | nil =>
      obtain rfl : [op] = ops' := by simpa [closeOps] using h
      exact ⟨.cons (.refl op) .nil, by simp⟩
    | cons next rest =>
      simp only [closeOps, Except.bind_eq_ok, Except.pure_eq_ok] at h
      obtain ⟨closed, hclosed, others, hothers, rfl⟩ := h
      obtain ⟨hsettles, hop⟩ := closeOp_settles hclosed
      obtain ⟨hrest, hothers⟩ := ih hothers
      obtain ⟨o, os, -, -, rfl⟩ := List.forall₂_cons_left_iff.1 hrest
      refine ⟨.cons hsettles hrest, ?_⟩
      simp only [List.dropLast_cons_cons, List.mem_cons, forall_eq_or_imp]
      exact ⟨hop, hothers⟩

theorem closeOps_known (hin : ∀ op ∈ ops, op.IsInPlace) (h : closeOps all ops = .ok ops') :
    ∀ op ∈ ops', op.Known all ∨ op.IsInPlace := by
  induction ops generalizing ops' with
  | nil =>
    obtain rfl : [] = ops' := by simpa [closeOps] using h
    simp
  | cons op rest ih =>
    cases rest with
    | nil =>
      obtain rfl : [op] = ops' := by simpa [closeOps] using h
      simpa using Or.inr (hin op List.mem_cons_self)
    | cons next rest =>
      simp only [closeOps, Except.bind_eq_ok, Except.pure_eq_ok] at h
      obtain ⟨closed, hclosed, others, hothers, rfl⟩ := h
      simp only [List.mem_cons, forall_eq_or_imp]
      exact ⟨.inl (closeOp_known (hin op List.mem_cons_self) hclosed),
        ih (fun o ho => hin o (List.mem_cons_of_mem op ho)) hothers⟩

/-! ### Filling cells -/

/-- Every cell of a chain is within its budget; the first holds `start` already. -/
def Chain.Fits (all : Plans) : (start : Usage) → Chain → Prop
  | start, .last ops => ∃ u, start.total (ops.map all.opUsage) = .ok u ∧ u.fits = true
  | start, .link ops next =>
    (∃ u, start.total (ops.map all.opUsage) = .ok u ∧ (u.add ⟨0, 1⟩).fits = true) ∧
      next.Fits all {}

/-- The first cell holds an operation. -/
def Chain.StartsFull : Chain → Prop
  | .last ops | .link ops _ => ops ≠ []

/-- No cell but the first is empty. -/
def Chain.Full : Chain → Prop
  | .last _ => True
  | .link _ next => next.StartsFull ∧ next.Full

@[simp] theorem Chain.ops_last (ops : List Op) : (Chain.last ops).ops = ops := by
  simp [Chain.ops, Chain.cells]

@[simp] theorem Chain.ops_link (ops : List Op) (next : Chain) :
    (Chain.link ops next).ops = ops ++ next.ops := by
  simp [Chain.ops, Chain.cells]

/-- An accepted operation takes its place in the form in which it fits, and leaves a reference free
if more operations follow. -/
theorem fit_eq_some {isMore : Bool} {total : Usage}
    (h : fit all used isMore op = .ok (some (op', total))) :
    op.Settles op' ∧ (∃ u, all.opUsage op = .ok u) ∧
      (∃ u, all.opUsage op' = .ok u ∧ total = used.add u) ∧
      (total.add ⟨0, if isMore then 1 else 0⟩).fits = true := by
  simp only [fit, Except.bind_eq_ok] at h
  generalize (⟨0, if isMore = true then 1 else 0⟩ : Usage) = reserve at h ⊢
  obtain ⟨u, hu, h⟩ := h
  split at h
  · next hfits =>
    obtain ⟨rfl, rfl⟩ : op = op' ∧ used.add u = total := by simpa using h
    exact ⟨.refl op, ⟨u, hu⟩, ⟨u, hu, rfl⟩, hfits⟩
  · split at h
    · simp only [Except.bind_eq_ok] at h
      obtain ⟨u', hu', h⟩ := h
      split at h
      · next hfits =>
        obtain ⟨rfl, rfl⟩ : op.behindReference = op' ∧ used.add u' = total := by
          simpa [Op.behindReference] using h
        exact ⟨.inr rfl, ⟨u, hu⟩, ⟨u', hu', rfl⟩, hfits⟩
      · simp at h
    · simp at h

/-- What holds of a chain that goes on with `ops` after a first cell with `placed`. -/
structure Placed (all : Plans) (start : Usage) (placed ops : List Op) (chain : Chain) : Prop where
  fits : chain.Fits all start
  full : chain.Full
  /-- The first cell keeps what it holds. -/
  startsFull : placed ≠ [] → chain.StartsFull
  settles : ∃ rest, chain.ops = placed ++ rest ∧ List.Forall₂ Op.Settles ops rest
  /-- Every new operation is known. -/
  known : ∀ op ∈ chain.ops, op ∈ placed ∨ op.Known all

/-- The operation in front has been accepted: the account grows and the rest goes on. -/
theorem Placed.cons {rest : List Op} {total : Usage}
    (hop : op.Known all ∨ op.IsInPlace)
    (hfit : fit all used (!rest.isEmpty) op = .ok (some (op', total)))
    (h : Placed all start (placed ++ [op']) rest chain) :
    Placed all start placed (op :: rest) chain := by
  obtain ⟨hsettles, ⟨u, hu⟩, -⟩ := fit_eq_some hfit
  have hknown : op.Known all := hop.elim (fun h => h) fun hin => Op.known_of_usage hu hin
  obtain ⟨others, hops, hothers⟩ := h.settles
  refine ⟨h.fits, h.full, fun _ => h.startsFull (by simp), ⟨op' :: others, ?_, ?_⟩, ?_⟩
  · simp [hops]
  · exact .cons hsettles hothers
  · intro o ho
    rcases h.known o ho with ho | ho
    · rcases List.mem_append.1 ho with ho | ho
      · exact .inl ho
      · obtain rfl : o = op' := by simpa using ho
        exact .inr (hknown.settles hsettles)
    · exact .inr ho

theorem total_of_fit {rest : List Op} {total : Usage}
    (hused : start.total (placed.map all.opUsage) = .ok used)
    (hfit : fit all used (!rest.isEmpty) op = .ok (some (op', total))) :
    start.total ((placed ++ [op']).map all.opUsage) = .ok total ∧
      (total.add ⟨0, if rest.isEmpty then 0 else 1⟩).fits = true := by
  obtain ⟨-, -, ⟨u, hu, rfl⟩, hfits⟩ := fit_eq_some hfit
  refine ⟨?_, ?_⟩
  · simp [Usage.total_append_singleton, hused, hu]
  · cases hr : rest.isEmpty <;> simpa [hr] using hfits

/-- The greedy placement: if the first cell holds `placed`, takes `used` and has a reference free
for a next cell, the chain goes on within the budget. -/
theorem place_placed (h : place all typeName used placed ops = .ok chain)
    (hused : start.total (placed.map all.opUsage) = .ok used)
    (hroom : placed ≠ [] ∨ ops = [] → (used.add ⟨0, if ops.isEmpty then 0 else 1⟩).fits = true)
    (hknown : ∀ op ∈ ops, op.Known all ∨ op.IsInPlace) : Placed all start placed ops chain := by
  induction ops generalizing used placed start chain with
  | nil =>
    obtain rfl : Chain.last placed = chain := by simpa [place] using h
    exact ⟨⟨used, hused, Usage.fits_of_fits_add (hroom (.inr rfl))⟩, trivial, fun hp => hp,
      ⟨[], by simp⟩, fun op hop => .inl (by simpa using hop)⟩
  | cons op rest ih =>
    have hop := hknown op List.mem_cons_self
    have hrest := fun o ho => hknown o (List.mem_cons_of_mem op ho)
    simp only [place, Except.bind_eq_ok] at h
    obtain ⟨accepted, hfit, h⟩ := h
    cases accepted with
    | some r =>
      obtain ⟨op', total⟩ := r
      obtain ⟨htotal, hfits⟩ := total_of_fit hused hfit
      exact .cons hop hfit (ih h htotal (fun _ => hfits) hrest)
    | none =>
      -- the cell is closed with a reference to the next one, which starts empty
      by_cases hp : placed = []
      · simp [hp] at h
      · simp only [List.isEmpty_iff, hp, ↓reduceIte, Except.bind_eq_ok] at h
        obtain ⟨accepted, hfit, h⟩ := h
        cases accepted with
        | none => simp at h
        | some r =>
          obtain ⟨op', total⟩ := r
          simp only [Except.bind_eq_ok, Except.pure_eq_ok] at h
          obtain ⟨next, hnext, rfl⟩ := h
          have hempty : Usage.total {} (([] : List Op).map all.opUsage) = .ok {} := rfl
          obtain ⟨htotal, hfits⟩ := total_of_fit hempty hfit
          have inner := ih hnext htotal (fun _ => hfits) hrest
          have below : Placed all {} [] (op :: rest) next := .cons hop hfit inner
          obtain ⟨others, hops, hothers⟩ := below.settles
          refine ⟨⟨⟨used, hused, hroom (.inl hp)⟩, below.fits⟩,
            ⟨inner.startsFull (by simp), below.full⟩, fun h => h, ⟨others, ?_, hothers⟩, ?_⟩
          · simp [hops]
          · intro o ho
            rw [Chain.ops_link, List.mem_append] at ho
            exact ho.imp_right fun ho => (below.known o ho).resolve_left (by simp)

/-! ### Plans -/

/-- What holds of a plan that the planner makes. -/
structure Sound (all : Plans) (plan : Plan) : Prop where
  /-- The list of operations is that of the chain. -/
  flat : plan.root.ops = plan.ops
  /-- Every cell is within its budget. -/
  fits : plan.root.Fits all plan.headerUsage
  /-- No cell but the first is empty. -/
  full : plan.root.Full
  /-- A record in place that something follows does not take everything that is left. -/
  closed : ∀ op ∈ plan.ops.dropLast, op.Closed all
  /-- Every record that a field holds has a plan. -/
  known : ∀ op ∈ plan.ops, op.Known all

theorem Chain.Fits.mono (h : all.Extends more) (hc : chain.Fits all start) :
    chain.Fits more start := by
  have total {start u : Usage} {ops : List Op} (ht : start.total (ops.map all.opUsage) = .ok u) :
      start.total (ops.map more.opUsage) = .ok u :=
    Usage.total_mono (Plans.inlineUsage_mono h h.depthBound_le) ht
  induction chain generalizing start with
  | last ops =>
    obtain ⟨u, hu, hfits⟩ := hc
    exact ⟨u, total hu, hfits⟩
  | link ops next ih =>
    obtain ⟨⟨u, hu, hfits⟩, hnext⟩ := hc
    exact ⟨⟨u, total hu, hfits⟩, ih hnext⟩

/-- Adding plans keeps a plan sound. -/
theorem Sound.mono {plan : Plan} (h : all.Extends more) (hp : plan.Sound all) : plan.Sound more :=
  ⟨hp.flat, hp.fits.mono h, hp.full, fun op hop => (hp.closed op hop).mono h,
    fun op hop => (hp.known op hop).mono h⟩

theorem settles_trans {ops'' : List Op} (h : List.Forall₂ Op.Settles ops ops')
    (h' : List.Forall₂ Op.Settles ops' ops'') : List.Forall₂ Op.Settles ops ops'' := by
  induction h generalizing ops'' with
  | nil => exact h'
  | cons hop _ ih =>
    obtain ⟨op'', rest'', hop', hrest, rfl⟩ := List.forall₂_cons_left_iff.1 h'
    exact .cons (hop.trans hop') (ih hrest)

/-- The header leaves room for a reference. -/
def HeaderFits (header : Option Header) : Prop := ∀ h ∈ header, h.bits.toNat ≤ Cell.maxBits

/-- A plan that the planner makes is sound and holds the given operations in their order. -/
theorem ofOps_sound {header : Option Header} {plan : Plan} (hh : HeaderFits header)
    (hin : ∀ op ∈ ops, op.IsInPlace) (h : ofOps all typeName header ops = .ok plan) :
    plan.Sound all ∧ plan.header = header ∧ List.Forall₂ Op.Settles ops plan.ops := by
  simp only [ofOps, Except.bind_eq_ok, Except.pure_eq_ok] at h
  obtain ⟨closed, hclosed, chain, hchain, rfl⟩ := h
  obtain ⟨hsettles, hdrop⟩ := closeOps_settles hclosed
  have placed : Placed all (headerUsage ⟨header, chain, chain.ops⟩) [] closed chain := by
    refine place_placed hchain ?_ ?_ (closeOps_known hin hclosed)
    · cases header <;> rfl
    · rintro -
      rw [Usage.fits_iff]
      cases header with
      | none => cases closed.isEmpty <;> decide
      | some h =>
        have hbits : h.bits.toNat ≤ Cell.maxBits := hh h rfl
        cases closed.isEmpty <;> simpa [Cell.maxRefs] using hbits
  obtain ⟨rest, hrest, hplaced⟩ := placed.settles
  rw [List.nil_append] at hrest
  refine ⟨⟨rfl, placed.fits, placed.full, ?_, ?_⟩, rfl, ?_⟩
  · rw [ofChain, hrest]
    exact List.forall_mem_of_forall₂ (List.forall₂_dropLast hplaced)
      (fun _ _ hs hc => hc.settles hs) hdrop
  · exact fun op hop => (placed.known op hop).resolve_left (by simp)
  · rw [ofChain, hrest]
    exact settles_trans hsettles hplaced

end Plan

end CellCompiler
