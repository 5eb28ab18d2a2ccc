import CellCompiler.Proofs.Plan.Endless
import CellCompiler.Proofs.Plan.Soundness
import CellCompiler.Proofs.Plan.Validity

/-!
# What the planner accepts

The planner makes plans unless a field cannot be stored or a record embeds itself. It always ends,
and a cell of its own has room for every field that it can meet.

* `TypeTable.Storable` says which types of fields can be stored;
* `Op.Modest` says that an operation takes little of a cell once a record in it is behind a
  reference, and `Plan.exists_ofOps` that modest operations can always be placed;
* `Plans.Grounded` is the invariant of planning, and what is asked of the plans of other records has
  an answer by it;
* `Plan.Refusal` is why planning fails, and `Plan.planType_refusal` shows that planning a record fails
  for no other reason;
* `planProgram_accepts` is the main result.
-/

namespace CellCompiler

open Relation (TransGen)

/-! ### Fields that can be stored -/

/-- A value of the type can be stored in a format: a map, a record, or a value of a built-in type
that has a storage format. An optional value cannot take everything that is left. -/
inductive TypeTable.Storable (table : TypeTable) (format : Option String) : TypeRef → Prop
  | map {key value : String} {keyAs valueAs : Option String} :
      Storable table format (.map key keyAs value valueAs)
  | record {name : String} {optional : Bool} {decl : TypeDecl} :
      table.types.get? name = some decl → decl.isStructLike = true →
      Storable table format (.named name optional)
  | primitive {name : String} {optional : Bool} {decl : TypeDecl} {kind : PrimitiveKind} :
      table.types.get? name = some decl → decl.primitive? = some kind → kind ≠ .stringBuilder →
      (kind = .int → (Plan.intKind format).isSome = true) →
      ¬ (optional = true ∧ Plan.canTakeRest kind = true ∧ format = some "remaining") →
      Storable table format (.named name optional)

namespace Plan

variable {table : TypeTable} {owner name : String} {ty : TypeRef} {format : Option String} {op : Op}

theorem isRemainder_of_primitiveKind {p : PrimitiveKind} {kind : OpKind}
    (h : primitiveKind format p = .ok kind) (hp : canTakeRest p = true)
    (hf : format = some "remaining") : kind.isRemainder = true := by
  subst hf
  have hrest : remainderFormat (some "remaining") = .remainder := rfl
  cases p with
  | cell | slice | builder | string =>
    simp only [primitiveKind, hrest] at h
    cases h
    rfl
  | _ => cases hp

theorem exists_primitiveKind {p : PrimitiveKind} (hp : p ≠ .stringBuilder)
    (hint : p = .int → (intKind format).isSome = true) :
    ∃ kind, primitiveKind format p = .ok kind := by
  cases p with
  | int =>
    obtain ⟨kind, hkind⟩ := Option.isSome_iff_exists.1 (hint rfl)
    exact ⟨kind, by simp [primitiveKind, hkind]⟩
  | slice => simp only [primitiveKind]; split <;> exact ⟨_, rfl⟩
  | string => simp only [primitiveKind]; split <;> exact ⟨_, rfl⟩
  | stringBuilder => exact absurd rfl hp
  | _ => exact ⟨_, rfl⟩

theorem isSome_intKind_of_primitiveKind {kind : OpKind} (h : primitiveKind format .int = .ok kind) :
    (intKind format).isSome = true := by
  rw [primitiveKind] at h
  split at h
  · next hkind => simp [hkind]
  · cases h

theorem OpOf.storable (h : OpOf table name format ty op) : table.Storable format ty := by
  cases h with
  | map => exact .map
  | @named typeName optional decl kind hdecl hkind hplain =>
    cases hp : decl.primitive? with
    | none => exact .record hdecl (TypeDecl.primitive?_eq_none_iff.1 hp)
    | some p =>
      have hprimitive : primitiveKind format p = .ok kind := by simpa [declKind, hp] using hkind
      refine .primitive hdecl hp ?_ ?_ ?_
      · rintro rfl
        cases hprimitive
      · rintro rfl
        exact isSome_intKind_of_primitiveKind hprimitive
      · rintro ⟨rfl, hcan, hformat⟩
        simpa using hplain (isRemainder_of_primitiveKind hprimitive hcan hformat)

/-- What can be stored has an operation. -/
theorem exists_typeOp (h : table.Storable format ty) : ∃ op, typeOp table owner name ty format = .ok op := by
  cases h with
  | map => exact ⟨_, rfl⟩
  | @record typeName optional decl hdecl hs =>
    have hkind : declKind decl format = .ok (.struct decl.name false) := by
      simp [declKind, TypeDecl.primitive?_eq_none_iff.2 hs]
    exact ⟨⟨name, .struct decl.name false, optional⟩, by simp [typeOp, hdecl, hkind, OpKind.isRemainder]⟩
  | @primitive typeName optional decl p hdecl hp hne hint hplain =>
    obtain ⟨kind, hkind⟩ := exists_primitiveKind hne hint
    have hdeclKind : declKind decl format = .ok kind := by simp [declKind, hp, hkind]
    refine ⟨⟨name, kind, optional⟩, ?_⟩
    have hrest : ¬ (optional = true ∧ kind.isRemainder = true) := by
      rintro ⟨hoptional, hr⟩
      exact hplain ⟨hoptional, primitiveKind_isRemainder hkind hr⟩
    simp [typeOp, hdecl, hdeclKind, hrest]

/-! ### Operations that always find a place -/

/-- Once a record in it is behind a reference, the operation takes at most half a cell and one
reference. -/
structure Op.Modest (all : Plans) (op : Op) : Prop where
  usage : ∃ u, all.opUsage op = .ok u
  behind : ∃ u, all.opUsage op.behindReference = .ok u ∧ u.bits ≤ 513 ∧ u.refs ≤ 1

variable {all : Plans} {ops placed : List Op} {used : Usage} {typeName : String}

theorem Op.usageBy_eq {f : String → Except Error Usage} {u : Usage} (h : op.kind.usageBy f = .ok u) :
    op.usageBy f = .ok (if op.optional then u.add ⟨1, 0⟩ else u) := by
  rw [Op.usageBy, h]
  rfl

theorem OpKind.behindReference_of_isStruct {kind : OpKind} (h : kind.isStruct = false) :
    kind.behindReference = kind := by
  cases kind with
  | struct => simp [isStruct] at h
  | _ => rfl

theorem Op.behindReference_of_isStruct (h : op.kind.isStruct = false) : op.behindReference = op := by
  rw [Op.behindReference, OpKind.behindReference_of_isStruct h]

/-- The bit for the presence of a value adds little. -/
theorem Op.exists_usage_le (op : Op) {f : String → Except Error Usage} {u : Usage}
    (h : op.kind.usageBy f = .ok u) (hbits : u.bits ≤ 512) (hrefs : u.refs ≤ 1) :
    ∃ v, op.usageBy f = .ok v ∧ v.bits ≤ 513 ∧ v.refs ≤ 1 := by
  refine ⟨_, Op.usageBy_eq h, ?_⟩
  split
  · simp only [Usage.bits_add, Usage.refs_add]
    omega
  · omega

theorem width?_le {most : Nat} {text : String} {bits : UInt16} (h : width? most text = some bits)
    (hmost : most < UInt16.size) : bits.toNat ≤ most := by
  unfold width? at h
  split at h
  · next n _ =>
    split at h
    · next hn =>
      obtain rfl := Option.some.inj h
      have hlt : n < UInt16.size := by omega
      rw [UInt16.toNat_ofNat_of_lt' hlt]
      exact hn.2
    · cases h
  · cases h

theorem usage_of_intKind {f : String → Except Error Usage} {kind : OpKind}
    (h : intKind format = some kind) :
    ∃ u, kind.usageBy f = .ok u ∧ u.bits ≤ 512 ∧ u.refs ≤ 1 := by
  have hbits : ∀ {most : Nat} {text : String} {bits : UInt16}, width? most text = some bits →
      most ≤ 512 → bits.toNat ≤ 512 := fun h hmost =>
    Nat.le_trans (width?_le h (Nat.lt_of_le_of_lt hmost (by decide))) hmost
  cases format with
  | none =>
    obtain rfl : OpKind.int 257 = kind := Option.some.inj h
    exact ⟨_, rfl, by decide, by decide⟩
  | some text =>
    simp only [intKind] at h
    split at h
    · obtain rfl := Option.some.inj h
      exact ⟨_, rfl, by decide, by decide⟩
    · split at h
      · obtain ⟨bits, hwidth, rfl⟩ := Option.map_eq_some_iff.1 h
        exact ⟨_, rfl, hbits hwidth (by decide), Nat.zero_le _⟩
      · split at h
        · obtain ⟨bits, hwidth, rfl⟩ := Option.map_eq_some_iff.1 h
          exact ⟨_, rfl, hbits hwidth (by decide), Nat.zero_le _⟩
        · cases h

theorem Format.usage_le (f : Format) : f.usage.bits ≤ 512 ∧ f.usage.refs ≤ 1 := by
  cases f <;> decide

/-- A value that is no record takes at most half a cell. -/
theorem usage_of_primitiveKind {f : String → Except Error Usage} {p : PrimitiveKind} {kind : OpKind}
    (h : primitiveKind format p = .ok kind) :
    ∃ u, kind.usageBy f = .ok u ∧ u.bits ≤ 512 ∧ u.refs ≤ 1 := by
  cases p with
  | int =>
    simp only [primitiveKind] at h
    split at h
    · next found hfound =>
      obtain rfl := Except.ok.inj h
      exact usage_of_intKind hfound
    · cases h
  | bool => cases h; exact ⟨_, rfl, by decide, by decide⟩
  | address => cases h; exact ⟨_, rfl, by decide, by decide⟩
  | cell => cases h; exact ⟨_, rfl, Format.usage_le _⟩
  | builder => cases h; exact ⟨_, rfl, Format.usage_le _⟩
  | slice =>
    simp only [primitiveKind] at h
    split at h <;> cases h
    exacts [⟨_, rfl, by decide, by decide⟩, ⟨_, rfl, by decide, by decide⟩,
      ⟨_, rfl, Format.usage_le _⟩]
  | string =>
    simp only [primitiveKind] at h
    split at h <;> cases h <;> exact ⟨_, rfl, by decide, by decide⟩
  | stringBuilder => cases h

/-- The operation of a field is modest, if the record that it holds can be counted. -/
theorem OpOf.modest (h : OpOf table name format ty op)
    (hnested : ∀ n, op.kind = .struct n false → ∃ u, all.inlineUsage all.depthBound n = .ok u) :
    op.Modest all := by
  cases h with
  | map =>
    have hu : OpKind.map.usageBy (all.inlineUsage all.depthBound) = .ok ⟨1, 1⟩ := rfl
    have husage := Op.exists_usage_le ⟨name, .map, false⟩ hu (by decide) (by decide)
    exact ⟨husage.imp fun _ hu => hu.1, husage⟩
  | @named typeName optional decl kind hdecl hkind _ =>
    cases hp : decl.primitive? with
    | none =>
      obtain rfl : OpKind.struct decl.name false = kind := by simpa [declKind, hp] using hkind
      obtain ⟨u, hu⟩ := hnested decl.name rfl
      exact ⟨⟨_, Op.usageBy_eq hu⟩, Op.exists_usage_le _ rfl (Nat.zero_le _) (Nat.le_refl 1)⟩
    | some p =>
      have hprimitive : primitiveKind format p = .ok kind := by simpa [declKind, hp] using hkind
      obtain ⟨u, hu, hbits, hrefs⟩ := usage_of_primitiveKind (f := all.inlineUsage all.depthBound) hprimitive
      have husage := Op.exists_usage_le ⟨name, kind, optional⟩ hu hbits hrefs
      refine ⟨husage.imp fun _ hu => hu.1, ?_⟩
      rwa [Op.behindReference_of_isStruct (primitiveKind_isStruct hprimitive)]

theorem Op.Modest.settles {op' : Op} (h : op.Modest all) (hop : op.Settles op') : op'.Modest all := by
  rcases hop with rfl | rfl
  · exact h
  · have hidem : op.behindReference.behindReference = op.behindReference := by
      simp [Op.behindReference]
    exact ⟨h.behind.imp fun _ hu => hu.1, by rw [hidem]; exact h.behind⟩

/-- Whether a modest operation fits is known, and it does in a cell with little else in it. -/
theorem Op.Modest.fit (h : op.Modest all) (used : Usage) (more : Bool) :
    ∃ r, Plan.fit all used more op = .ok r ∧ (used.bits ≤ 510 → used.refs ≤ 2 → r.isSome = true) := by
  obtain ⟨u, hu⟩ := h.usage
  obtain ⟨v, hv, hbits, hrefs⟩ := h.behind
  have hroom : used.bits ≤ 510 → used.refs ≤ 2 →
      ((used.add v).add ⟨0, if more = true then 1 else 0⟩).fits = true := by
    intro hb hr
    rw [Usage.fits_iff]
    simp only [Usage.bits_add, Usage.refs_add, Cell.maxBits, Cell.maxRefs]
    split <;> omega
  simp only [Plan.fit, hu, Except.ok_bind]
  generalize (⟨0, if more = true then 1 else 0⟩ : Usage) = reserve at hroom ⊢
  split
  · exact ⟨_, rfl, fun _ _ => rfl⟩
  · next hinPlace =>
    split
    · have hv' : all.opUsage { op with kind := op.kind.behindReference } = .ok v := hv
      simp only [hv', Except.ok_bind]
      split
      · exact ⟨_, rfl, fun _ _ => rfl⟩
      · next hbehind => exact ⟨_, rfl, fun hb hr => absurd (hroom hb hr) hbehind⟩
    · next hstruct =>
      rw [Op.behindReference_of_isStruct (by simpa using hstruct), hu] at hv
      obtain rfl := Except.ok.inj hv
      exact ⟨_, rfl, fun hb hr => absurd (hroom hb hr) hinPlace⟩

/-- Modest operations can be placed after a header. -/
theorem exists_place (hops : ∀ op ∈ ops, op.Modest all)
    (hused : placed = [] → used.bits ≤ 510 ∧ used.refs ≤ 2) :
    ∃ chain, place all typeName used placed ops = .ok chain := by
  induction ops generalizing used placed with
  | nil => exact ⟨_, rfl⟩
  | cons op rest ih =>
    obtain ⟨hop, hrest⟩ := List.forall_mem_cons.1 hops
    obtain ⟨accepted, hfit, hsome⟩ := hop.fit used (!rest.isEmpty)
    simp only [place, hfit, Except.ok_bind]
    cases accepted with
    | some r => exact ih hrest (by simp)
    | none =>
      have hplaced : placed ≠ [] := fun hp => by simpa using hsome (hused hp).1 (hused hp).2
      obtain ⟨accepted, hfit', hsome'⟩ := hop.fit {} (!rest.isEmpty)
      obtain ⟨⟨op', used'⟩, rfl⟩ := Option.isSome_iff_exists.1 (hsome' (Nat.zero_le _) (Nat.zero_le _))
      obtain ⟨next, hnext⟩ : ∃ next, place all typeName used' [op'] rest = .ok next :=
        ih hrest (by simp)
      exact ⟨.link placed next, by simp [hplaced, hfit', hnext]⟩

/-- What closing records needs: of those in place it is known whether they take everything. -/
def Op.Decided (all : Plans) (op : Op) : Prop :=
  ∀ n, op.kind.inline? = some n → ∃ plan b, all.types.get? n = some plan ∧ all.isOpenEnded plan = .ok b

theorem exists_closeOp (h : op.Decided all) : ∃ op', closeOp all op = .ok op' := by
  unfold closeOp
  cases hi : op.kind.inline? with
  | none => exact ⟨op, rfl⟩
  | some n =>
    obtain ⟨plan, b, hplan, hb⟩ := h n hi
    simp only [Plans.get_eq_ok.2 hplan, hb, Except.ok_bind]
    cases b <;> exact ⟨_, rfl⟩

theorem exists_closeOps (h : ∀ op ∈ ops, op.Decided all) : ∃ ops', closeOps all ops = .ok ops' := by
  induction ops with
  | nil => exact ⟨_, rfl⟩
  | cons op rest ih =>
    obtain ⟨hop, hrest⟩ := List.forall_mem_cons.1 h
    cases rest with
    | nil => exact ⟨_, rfl⟩
    | cons next rest =>
      obtain ⟨closed, hclosed⟩ := exists_closeOp hop
      obtain ⟨others, hothers⟩ := ih hrest
      exact ⟨closed :: others, by simp [closeOps, hclosed, hothers]⟩

/-- **Modest operations have a plan.** -/
theorem exists_ofOps {header : Option Header} (hheader : ∀ h ∈ header, h.bits.toNat ≤ 510)
    (hmodest : ∀ op ∈ ops, op.Modest all) (hdecided : ∀ op ∈ ops, op.Decided all) :
    ∃ plan, ofOps all name header ops = .ok plan := by
  obtain ⟨closed, hclosed⟩ := exists_closeOps hdecided
  have hmodest' : ∀ op ∈ closed, op.Modest all :=
    List.forall_mem_of_forall₂ (closeOps_settles hclosed).1 (fun _ _ hs hm => hm.settles hs) hmodest
  have hused : (header.map (·.bits.toNat)).getD 0 ≤ 510 := by
    cases header with
    | none => decide
    | some h => exact hheader h rfl
  obtain ⟨chain, hchain⟩ : ∃ chain,
      place all name ⟨(header.map (·.bits.toNat)).getD 0, 0⟩ [] closed = .ok chain :=
    exists_place hmodest' fun _ => ⟨hused, Nat.zero_le _⟩
  exact ⟨.ofChain header chain, by simp [ofOps, hclosed, hchain]⟩

/-- A record that is stored is of the type of its field. -/
theorem OpOf.struct_named (h : OpOf table name format ty op) (hw : table.WellNamed) {n : String}
    {byRef : Bool} (hn : op.kind = .struct n byRef) : ∃ optional, ty = .named n optional := by
  cases h with
  | map => simp at hn
  | @named typeName optional decl kind hdecl hkind _ =>
    cases hn
    obtain ⟨-, rfl, -⟩ := declKind_eq_struct hkind
    exact ⟨optional, hw.name_eq hdecl ▸ rfl⟩

theorem mem_nestedTypes_of_kind {n : String} {byRef : Bool} (hop : op ∈ ops)
    (hn : op.kind = .struct n byRef) : n ∈ nestedTypes ops :=
  List.mem_filterMap.2 ⟨op, hop, by rw [hn]⟩

/-- A record that the fields of another hold is embedded in it. -/
theorem embeds_of_mem_nestedTypes (hw : table.WellNamed) {decl : TypeDecl} {nested : String}
    (hdecl : table.types.get? name = some decl)
    (hops : List.Forall₂ (fun f op => OpOf table f.1 f.2.2 f.2.1 op) (Plans.storedFields decl) ops)
    (h : nested ∈ nestedTypes ops) : table.Embeds nested name := by
  obtain ⟨op, hop, hkind⟩ := List.mem_filterMap.1 h
  obtain ⟨byRef, hkind⟩ : ∃ byRef, op.kind = .struct nested byRef := by
    split at hkind
    · next n r hn => exact ⟨r, by simpa [hn] using hkind⟩
    · cases hkind
  obtain ⟨_, hmem, hof⟩ : ∃ f ∈ Plans.storedFields decl, OpOf table f.1 f.2.2 f.2.1 op :=
    List.forall_mem_of_forall₂ (P := (· ∈ Plans.storedFields decl))
      (Q := fun op => ∃ f ∈ Plans.storedFields decl, OpOf table f.1 f.2.2 f.2.1 op) hops
      (fun f _ hof hf => ⟨f, hf, hof⟩) (fun _ hf => hf) op hop
  obtain ⟨f, hf, rfl⟩ := List.mem_map.1 hmem
  exact ⟨⟨decl, hdecl, f, hf, hof.struct_named hw hkind⟩, hof.struct hw hkind⟩

end Plan

/-! ### Plans of records that hold no record again -/

namespace Plans

open Plan (Op OpOf Usage Error)

variable {table : TypeTable} {all : Plans} {name : String}

/-- What holds while records are planned. -/
structure Grounded (table : TypeTable) (all : Plans) : Prop where
  planned : Planned table all
  acc : ∀ name plan, all.types.get? name = some plan → Acc table.Embeds name

theorem Grounded.of_types_eq {all' : Plans} (h : Grounded table all) (heq : all.types = all'.types) :
    Grounded table all' := by
  refine ⟨⟨heq ▸ h.planned.nodup, fun n plan hplan => ?_⟩, fun n plan hplan => h.acc n plan (heq ▸ hplan)⟩
  obtain ⟨decl, hdecl, hs, hstores⟩ := h.planned.stores n plan (heq ▸ hplan)
  exact ⟨decl, hdecl, hs, hstores.mono (extends_of_types_eq heq)⟩

theorem grounded_empty : Grounded table {} := ⟨planned_empty, fun _ _ h => by simp at h⟩

namespace Grounded

theorem embeds_of_endsWith (h : Grounded table all) (hw : table.WellNamed) {outer inner : String}
    (hends : all.EndsWith outer inner) : table.Embeds inner outer := by
  obtain ⟨plan, hplan, op, hlast, hinline⟩ := hends
  obtain ⟨decl, hdecl, -, hstores⟩ := h.planned.stores outer plan hplan
  obtain ⟨ops, hops, hsettles⟩ := hstores.ops
  obtain ⟨origin, hmem, hsettled⟩ : ∃ origin ∈ ops, origin.Settles op :=
    List.forall_mem_of_forall₂ (P := (· ∈ ops)) (Q := fun op => ∃ origin ∈ ops, origin.Settles op)
      hsettles (fun o _ hs ho => ⟨o, ho, hs⟩) (fun _ ho => ho) op (List.mem_of_getLast? hlast)
  have hkind : origin.kind = .struct inner false := by
    rcases hsettled with rfl | rfl
    · exact Plan.OpKind.eq_struct_of_inline? hinline
    · simp [Op.behindReference] at hinline
  exact Plan.embeds_of_mem_nestedTypes hw hdecl hops (Plan.mem_nestedTypes_of_kind hmem hkind)

theorem not_endsWith_self (h : Grounded table all) (hw : table.WellNamed) (name : String) :
    ¬ TransGen all.EndsWith name name := by
  intro hcycle
  obtain ⟨_, ⟨plan, hplan, -⟩, -⟩ := TransGen.head'_iff.1 hcycle
  have hdown : TransGen (fun outer inner => table.Embeds inner outer) name name :=
    TransGen.lift (p := fun outer inner => table.Embeds inner outer) id
      (fun _ _ hends => h.embeds_of_endsWith hw hends) _ _ hcycle
  have hback : TransGen table.Embeds name name := Relation.transGen_swap.1 hdown
  exact not_rel_self_of_acc (h.acc name plan hplan).transGen hback

/-- The space of a planned record is known. -/
theorem exists_inlineUsage (h : Grounded table all) {plan : Plan}
    (hplan : all.types.get? name = some plan) :
    ∃ u, all.inlineUsage all.depthBound name = .ok u := by
  obtain ⟨_, _, _, hstores⟩ := h.planned.stores name plan hplan
  obtain ⟨-, u, -, hroot, -⟩ := dataRoom_of_sound hstores.sound
  have hmore : all.inlineUsage (all.depthBound + 1) name = .ok u := by
    rw [inlineUsage, get_eq_ok.2 hplan]
    exact hroot
  exact ⟨u, (recursion_inlineUsage all).eq_of_depthBound_le (Nat.le_succ _) ▸ hmore⟩

/-- A recursion over the last fields of planned records goes wrong only by not ending. -/
theorem inlineOpenEnded_cases (h : Grounded table all) (fuel : Nat) {plan : Plan}
    (hplan : all.types.get? name = some plan) :
    (∃ b, all.inlineOpenEnded fuel name = .ok b) ∨
      all.inlineOpenEnded fuel name = .error .endless := by
  induction fuel generalizing name plan with
  | zero => exact .inr rfl
  | succ fuel ih =>
    obtain ⟨_, _, _, hstores⟩ := h.planned.stores name plan hplan
    rw [inlineOpenEnded, get_eq_ok.2 hplan, Except.ok_bind]
    unfold Plan.openEndedBy
    cases hlast : plan.ops.getLast? with
    | none => exact .inl ⟨false, rfl⟩
    | some op =>
      dsimp only
      split
      · exact .inl ⟨true, rfl⟩
      · cases hinline : op.kind.inline? with
        | none => exact .inl ⟨false, rfl⟩
        | some n =>
          obtain ⟨inner, hinner⟩ := hstores.sound.known op (List.mem_of_getLast? hlast) n false
            (Plan.OpKind.eq_struct_of_inline? hinline)
          exact ih hinner

/-- Whether a planned record takes everything that is left is known. -/
theorem exists_isOpenEnded (h : Grounded table all) (hw : table.WellNamed) {plan : Plan}
    (hplan : all.types.get? name = some plan) : ∃ b, all.isOpenEnded plan = .ok b := by
  have hrec := recursion_inlineOpenEnded all
  have hends : all.inlineOpenEnded all.depthBound name ≠ .error .endless :=
    hrec.ends (h.not_endsWith_self hw)
  obtain ⟨b, hb⟩ := (h.inlineOpenEnded_cases all.depthBound hplan).resolve_right hends
  have hmore : all.inlineOpenEnded (all.depthBound + 1) name = .ok b :=
    (hrec.eq_of_depthBound_le (Nat.le_succ _)).trans hb
  rw [inlineOpenEnded, get_eq_ok.2 hplan] at hmore
  exact ⟨b, hmore⟩

/-- **Operations of fields have a plan** once the records in them do. -/
theorem exists_ofOps (h : Grounded table all) (name : String) (hw : table.WellNamed)
    {fields : List (String × TypeRef × Option String)} {ops : List Op} {header : Option Plan.Header}
    (hheader : ∀ h ∈ header, h.bits.toNat ≤ 510)
    (hops : List.Forall₂ (fun f op => OpOf table f.1 f.2.2 f.2.1 op) fields ops)
    (hnested : ∀ n ∈ Plan.nestedTypes ops, ∃ plan, all.types.get? n = some plan) :
    ∃ plan, Plan.ofOps all name header ops = .ok plan := by
  have hplanned : ∀ op ∈ ops, ∀ n, op.kind = .struct n false →
      ∃ plan, all.types.get? n = some plan := fun op hop n hn =>
    hnested n (Plan.mem_nestedTypes_of_kind hop hn)
  have hof : ∀ op ∈ ops, ∃ f : String × TypeRef × Option String, OpOf table f.1 f.2.2 f.2.1 op :=
    List.forall_mem_of_forall₂ (P := fun _ => True) hops (fun f _ hof _ => ⟨f, hof⟩) (by simp)
  refine Plan.exists_ofOps hheader (fun op hop => ?_) fun op hop n hinline => ?_
  · obtain ⟨f, hf⟩ := hof op hop
    refine hf.modest fun n hn => ?_
    obtain ⟨plan, hplan⟩ := hplanned op hop n hn
    exact h.exists_inlineUsage hplan
  · obtain ⟨plan, hplan⟩ := hplanned op hop n (Plan.OpKind.eq_struct_of_inline? hinline)
    obtain ⟨b, hb⟩ := h.exists_isOpenEnded hw hplan
    exact ⟨plan, b, hplan, hb⟩

end Grounded

end Plans

/-! ### Why planning fails -/

namespace Plan

open Plans (Grounded Planned storedFields storedParams headerOf)

variable {table : TypeTable} {all : Plans} {name : String} {pending : List String} {e : Error}

/-- Why there are no plans: a field or a parameter cannot be stored, or a record holds itself. -/
inductive Refusal (table : TypeTable) : Error → Prop
  | field {decl : TypeDecl} {f : Field} {e : Error} : decl ∈ table.types.values →
      decl.isStructLike = true → f ∈ decl.fields → fieldOp table decl.name f = .error e →
      Refusal table e
  | param {contract : TypeDecl} {p : Param} {e : Error} : contract ∈ table.contracts →
      p ∈ contract.initParams → paramOp table contract.name p = .error e → Refusal table e
  | circular {name : String} : TransGen table.Embeds name name →
      Refusal table (.invalid name .embedsItself)

theorem bits_of_headerOf (decl : TypeDecl) : ∀ h ∈ headerOf decl, h.bits.toNat ≤ 510 := by
  intro h hmem
  obtain ⟨value, -, rfl⟩ := Option.map_eq_some_iff.1 hmem
  change (32 : UInt16).toNat ≤ 510
  decide

/-- A record that has been planned has a plan, and those planned before keep theirs. -/
theorem planType_grounded (hw : table.WellNamed) {fuel : Nat} {all' : Plans}
    (hall : Grounded table all)
    (hname : ∃ decl, table.types.get? name = some decl ∧ decl.isStructLike = true)
    (h : planType table fuel pending all name = .ok all') :
    Grounded table all' ∧ all.Extends all' ∧ ∃ plan, all'.types.get? name = some plan := by
  obtain ⟨step, hplan⟩ := planType_step hw hall.planned hname h
  exact ⟨⟨step.planned, (planType_acc hw hall.acc h).1⟩, step.grows, hplan⟩

/-- Planning a record fails for no other reason. A record that is met again while it is planned holds
itself, and there are more steps left than records that are not being planned. -/
theorem planType_refusal (hw : table.WellNamed) {fuel : Nat} (hall : Grounded table all)
    (hname : ∃ decl, table.types.get? name = some decl ∧ decl.isStructLike = true)
    (hnodup : pending.Nodup) (hpending : ∀ p ∈ pending, TransGen table.Embeds name p)
    (hfuel : table.types.size < fuel + pending.length)
    (h : planType table fuel pending all name = .error e) : Refusal table e := by
  induction fuel generalizing pending all name with
  | zero =>
    have hkeys : ∀ p ∈ pending, p ∈ table.types.keys := by
      intro p hp
      obtain ⟨_, -, ⟨⟨decl, hdecl, -⟩, -⟩⟩ := TransGen.tail'_iff.1 (hpending p hp)
      exact Dict.mem_keys_iff.2 ⟨decl, hdecl⟩
    have hle : pending.length ≤ table.types.keys.length :=
      (List.Nodup.subperm hnodup hkeys).length_le
    rw [Dict.keys, List.length_map] at hle
    have hsize : table.types.size = table.types.entries.length := rfl
    omega
  | succ fuel ih =>
    obtain ⟨decl, hdecl, hs⟩ := hname
    obtain rfl := hw.name_eq hdecl
    simp only [planType] at h
    split at h
    · cases h
    · split at h
      · next hp =>
        cases h
        exact .circular (hpending _ (by simpa using hp))
      · next hp =>
        have hfresh : decl.name ∉ pending := by simpa using hp
        simp only [hdecl] at h
        obtain hops | ⟨ops, hops, h⟩ := Except.bind_eq_error.1 h
        · obtain ⟨f, hf, hop⟩ := List.exists_of_mapM_eq_error hops
          exact .field (Dict.mem_values_of_get? hdecl) hs hf hop
        have hopOf := forall₂_opOf_fields hops
        have hembeds : ∀ nested ∈ nestedTypes ops, table.Embeds nested decl.name := fun nested hn =>
          embeds_of_mem_nestedTypes hw hdecl hopOf hn
        have hstep : ∀ nested ∈ nestedTypes ops, ∀ b b', Grounded table b →
            planType table fuel (decl.name :: pending) b nested = .ok b' →
            Grounded table b' ∧ b.Extends b' ∧ ∃ plan, b'.types.get? nested = some plan :=
          fun nested hn b b' hb hb' => planType_grounded hw hb (hembeds nested hn).2 hb'
        obtain hbelow | ⟨below, hbelow, h⟩ := Except.bind_eq_error.1 h
        · obtain ⟨nested, hn, b, hb, herror⟩ := List.exists_of_foldlM_eq_error (Grounded table)
            (fun nested hn b b' hb hb' => (hstep nested hn b b' hb hb').1) hall hbelow
          have hembedded := hembeds nested hn
          refine ih hb hembedded.2 (List.nodup_cons.2 ⟨hfresh, hnodup⟩) ?_
            (by simpa [Nat.add_right_comm, Nat.add_assoc] using hfuel) herror
          exact List.forall_mem_cons.2 ⟨.single hembedded, fun p hp => .head hembedded (hpending p hp)⟩
        · -- with the records in it planned, the record itself has a plan
          have hground := List.foldlM_invariant (Grounded table)
            (fun nested hn b b' hb hb' => (hstep nested hn b b' hb hb').1) hall hbelow
          have hnested := List.foldlM_reaches (Grounded table)
            (fun nested b => ∃ plan, b.types.get? nested = some plan)
            (fun nested hn b b' hb hb' => (hstep nested hn b b' hb hb').imp_right And.right)
            (fun nested hn x b b' hb hx hb' => hx.imp ((hstep nested hn b b' hb hb').2.1.kept x))
            hall hbelow
          obtain ⟨plan, hplan⟩ :=
            hground.exists_ofOps decl.name hw (bits_of_headerOf decl) hopOf hnested
          obtain h | ⟨plan', -, h⟩ := Except.bind_eq_error.1 h
          · cases hplan.symm.trans h
          · cases h

/-- **Why planning fails.** -/
theorem planProgram_refusal (hw : table.WellNamed) (h : planProgram table = .error e) :
    Refusal table e := by
  rw [planProgram] at h
  have hrecord : ∀ decl ∈ table.types.values.filter TypeDecl.isStructLike,
      ∃ d, table.types.get? decl.name = some d ∧ d.isStructLike = true := by
    intro decl hd
    obtain ⟨hmem, hs⟩ := List.mem_filter.1 hd
    exact ⟨decl, hw.get?_name hmem, hs⟩
  obtain h | ⟨mid, hmid, h⟩ := Except.bind_eq_error.1 h
  · obtain ⟨decl, hd, all, hall, h⟩ := List.exists_of_foldlM_eq_error (Grounded table)
      (fun decl hd b b' hb hb' => (planType_grounded hw hb (hrecord decl hd) hb').1)
      Plans.grounded_empty h
    exact planType_refusal hw hall (hrecord decl hd) List.nodup_nil (by simp) (by simp) h
  · have hground := List.foldlM_invariant (Grounded table)
      (fun decl hd b b' hb hb' => (planType_grounded hw hb (hrecord decl hd) hb').1)
      Plans.grounded_empty hmid
    have hreach := List.foldlM_reaches (Grounded table)
      (fun (decl : TypeDecl) b => ∃ plan, b.types.get? decl.name = some plan)
      (fun decl hd b b' hb hb' => (planType_grounded hw hb (hrecord decl hd) hb').imp_right And.right)
      (fun decl hd x b b' hb hx hb' =>
        hx.imp ((planType_grounded hw hb (hrecord decl hd) hb').2.1.kept x.name))
      Plans.grounded_empty hmid
    have hkeep : ∀ contract ∈ table.contracts, ∀ b b' : Plans, mid.types = b.types →
        planInitArgs table b contract = .ok b' → mid.types = b'.types := by
      intro contract _ b b' hb hb'
      simp only [planInitArgs, Except.bind_eq_ok, Except.pure_eq_ok] at hb'
      obtain ⟨-, -, -, -, rfl⟩ := hb'
      exact hb
    obtain ⟨contract, hc, all, heq, h⟩ :=
      List.exists_of_foldlM_eq_error (fun b : Plans => mid.types = b.types) hkeep rfl h
    obtain hops | ⟨ops, hops, h⟩ := Except.bind_eq_error.1 h
    · obtain ⟨p, hp, hop⟩ := List.exists_of_mapM_eq_error hops
      exact .param hc hp hop
    · have hopOf := forall₂_opOf_params hops
      have hnested : ∀ n ∈ nestedTypes ops, ∃ plan, all.types.get? n = some plan := by
        intro n hn
        obtain ⟨decl, hdecl, hs⟩ := nestedTypes_isStructLike hw hopOf hn
        rw [← heq, ← hw.name_eq hdecl]
        exact hreach decl (List.mem_filter.2 ⟨Dict.mem_values_of_get? hdecl, hs⟩)
      obtain ⟨plan, hplan⟩ : ∃ plan, ofOps all contract.name none ops = .ok plan :=
        (hground.of_types_eq heq).exists_ofOps contract.name hw (by simp) hopOf hnested
      rw [hplan] at h
      cases h

/-- What cannot be stored has no operation, and this is reported of the type or the field. -/
theorem typeOp_eq_error {owner : String} {ty : TypeRef} {format : Option String}
    (h : typeOp table owner name ty format = .error e) :
    ¬ table.Storable format ty ∧ e ≠ .endless ∧ ∀ t f, e ≠ .invalid t (.doesNotFit f) := by
  refine ⟨fun hstorable => ?_, ?_⟩
  · obtain ⟨op, hop⟩ : ∃ op, typeOp table owner name ty format = .ok op := exists_typeOp hstorable
    simp [hop] at h
  · unfold typeOp at h
    cases ty with
    | map => cases h
    | named typeName optional =>
      cases hdecl : table.types.get? typeName with
      | none =>
        simp only [hdecl] at h
        cases h
        simp
      | some decl =>
        simp only [hdecl] at h
        cases hkind : declKind decl format with
        | error reason =>
          simp only [hkind] at h
          cases h
          simp
        | ok kind =>
          simp only [hkind] at h
          split at h
          · cases h
            simp
          · cases h
    | _ =>
      cases h
      simp

/-- Planning does not fail because it has no end or because a field has no room. -/
theorem Refusal.ne_endless_and_ne_doesNotFit (h : Refusal table e) :
    e ≠ .endless ∧ ∀ t f, e ≠ .invalid t (.doesNotFit f) := by
  cases h with
  | field _ _ _ hop => exact (typeOp_eq_error hop).2
  | param _ _ hop => exact (typeOp_eq_error hop).2
  | circular => simp

/-- The fields of a record with a plan can be stored. -/
theorem storable_of_stores {plan : Plan} {header : Option Header}
    {fields : List (String × TypeRef × Option String)} (h : Plans.Stores table all header fields plan) :
    ∀ f ∈ fields, table.Storable f.2.2 f.2.1 := by
  obtain ⟨ops, hops, -⟩ := h.ops
  exact List.forall_mem_of_forall₂ (P := fun _ => True) hops.flip (fun _ _ hof _ => hof.storable)
    (by simp)

end Plan

/-- **What the planner accepts.** The planner ends. It makes plans if and only if every field of
every record and every parameter of every contract can be stored and no record holds itself, be it
through others. It never finds that a field does not fit in a cell of its own. -/
theorem planProgram_accepts {table : TypeTable} (hw : table.WellNamed) :
    ((∃ plans, planProgram table = .ok plans) ↔
      ((∀ decl ∈ table.types.values, decl.isStructLike = true →
          ∀ f ∈ decl.fields, table.Storable f.format f.ty) ∧
        ∀ contract ∈ table.contracts, ∀ p ∈ contract.initParams, table.Storable none p.ty) ∧
      ∀ name, ¬ TransGen table.Embeds name name) ∧
    planProgram table ≠ .error .endless ∧
    ∀ name field, planProgram table ≠ .error (.invalid name (.doesNotFit field)) := by
  refine ⟨⟨?_, ?_⟩, fun h => ?_, fun name field h => ?_⟩
  · rintro ⟨plans, hplans⟩
    have hplanned := Plans.planProgram_planned hw hplans
    refine ⟨⟨fun decl hdecl hs f hf => ?_, fun contract hc p hp => ?_⟩,
      Plan.planProgram_not_embeds_self hw hplans⟩
    · obtain ⟨plan, hplan⟩ := hplanned.types decl hdecl hs
      obtain ⟨decl', hdecl', -, hstores⟩ := hplanned.planned.stores _ _ hplan
      obtain rfl : decl = decl' := by simpa [hw.get?_name hdecl] using hdecl'
      exact Plan.storable_of_stores hstores _ (List.mem_map_of_mem hf)
    · obtain ⟨plan, hplan⟩ := hplanned.initArgs contract hc
      obtain ⟨contract', hc', hname, hstores⟩ := hplanned.storesArgs _ _ hplan
      obtain rfl : contract = contract' := by
        have hget := hw.get?_name (TypeTable.mem_contracts.1 hc).1
        have hget' := hw.get?_name (TypeTable.mem_contracts.1 hc').1
        simpa [hname, hget] using hget'
      exact Plan.storable_of_stores hstores _ (List.mem_map_of_mem hp)
  · rintro ⟨⟨hfields, hparams⟩, hacyclic⟩
    cases hplans : planProgram table with
    | ok plans => exact ⟨plans, rfl⟩
    | error e =>
      cases Plan.planProgram_refusal hw hplans with
      | field hdecl hs hf hop => exact absurd (hfields _ hdecl hs _ hf) (Plan.typeOp_eq_error hop).1
      | param hc hp hop => exact absurd (hparams _ hc _ hp) (Plan.typeOp_eq_error hop).1
      | circular hcycle => exact absurd hcycle (hacyclic _)
  · exact (Plan.planProgram_refusal hw h).ne_endless_and_ne_doesNotFit.1 rfl
  · exact (Plan.planProgram_refusal hw h).ne_endless_and_ne_doesNotFit.2 name field rfl

theorem planProgram_accepts_orders :
    ordersTable.WellNamed ∧ (∃ plans, planProgram ordersTable = .ok plans) ∧
      ∀ name, ¬ TransGen ordersTable.Embeds name name := by
  have hw : ordersTable.WellNamed := ⟨by decide +kernel, by decide +kernel⟩
  have hok : ∃ plans, planProgram ordersTable = .ok plans := ⟨_, rfl⟩
  exact ⟨hw, hok, ((planProgram_accepts hw).1.1 hok).2⟩

end CellCompiler
