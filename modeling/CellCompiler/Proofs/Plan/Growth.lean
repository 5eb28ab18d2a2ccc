import CellCompiler.Plan.Usage
import CellCompiler.Proofs.Dict
import CellCompiler.Proofs.Failure

/-!
# Accounts of space while plans are added

Plans are made one after the other, and the space that a record takes is computed from the plans
that are there. Adding plans never changes an answer that has been given:

* `Plans.Extends` says that all plans are kept;
* `Plans.opUsage_mono` and `Plans.isOpenEnded_mono` carry answers over.
-/

namespace CellCompiler

namespace Plan

variable {α : Type} {f g : String → Except Error Usage} {u start : Usage}

/-- Where the first function has an answer, the second has the same. -/
def Refines (f g : String → Except Error α) : Prop := ∀ n a, f n = .ok a → g n = .ok a

theorem OpKind.usageBy_mono (h : Refines f g) {kind : OpKind} (hk : kind.usageBy f = .ok u) :
    kind.usageBy g = .ok u := by
  cases kind with
  | struct n byRef =>
    cases byRef with
    | true => exact hk
    | false => exact h n u hk
  | _ => exact hk

theorem Op.usageBy_mono (h : Refines f g) {op : Op} (ho : op.usageBy f = .ok u) :
    op.usageBy g = .ok u := by
  simp only [Op.usageBy, Except.bind_eq_ok] at ho ⊢
  obtain ⟨base, hbase, ho⟩ := ho
  exact ⟨base, OpKind.usageBy_mono h hbase, ho⟩

@[simp] theorem Usage.bits_add (a b : Usage) : (a.add b).bits = a.bits + b.bits := rfl

@[simp] theorem Usage.refs_add (a b : Usage) : (a.add b).refs = a.refs + b.refs := rfl

theorem Usage.fits_iff : u.fits = true ↔ u.bits ≤ Cell.maxBits ∧ u.refs ≤ Cell.maxRefs := by
  simp [Usage.fits]

theorem Usage.fits_of_fits_add {v : Usage} (h : (u.add v).fits = true) : u.fits = true := by
  rw [Usage.fits_iff] at h ⊢
  simp only [Usage.bits_add, Usage.refs_add] at h
  omega

theorem Usage.total_cons (start : Usage) (x : Except Error Usage) (xs : List (Except Error Usage)) :
    start.total (x :: xs) = x >>= fun a => (start.add a).total xs := by
  cases x <;> rfl

theorem Usage.total_append_singleton (start : Usage) (xs : List (Except Error Usage))
    (x : Except Error Usage) :
    start.total (xs ++ [x]) = start.total xs >>= fun used => used.add <$> x := by
  simp [Usage.total]

theorem Usage.total_mono (h : Refines f g) {ops : List Op}
    (ht : start.total (ops.map (Op.usageBy f)) = .ok u) :
    start.total (ops.map (Op.usageBy g)) = .ok u := by
  induction ops generalizing start with
  | nil => exact ht
  | cons op ops ih =>
    simp only [List.map_cons, Usage.total_cons, Except.bind_eq_ok] at ht ⊢
    obtain ⟨a, ha, ht⟩ := ht
    exact ⟨a, Op.usageBy_mono h ha, ih ht⟩

theorem Chain.usageBy_mono (h : Refines f g) {c : Chain} (hc : c.usageBy f start = .ok u) :
    c.usageBy g start = .ok u := by
  cases c with
  | last ops => exact Usage.total_mono h hc
  | link ops next =>
    simp only [Chain.usageBy, Except.bind_eq_ok] at hc ⊢
    obtain ⟨used, hused, hc⟩ := hc
    exact ⟨used, Usage.total_mono h hused, hc⟩

theorem openEndedBy_mono {f g : String → Except Error Bool} (h : Refines f g) {p : Plan} {b : Bool}
    (hp : p.openEndedBy f = .ok b) : p.openEndedBy g = .ok b := by
  unfold openEndedBy at hp ⊢
  cases hlast : p.ops.getLast? with
  | none => simpa [hlast] using hp
  | some op =>
    simp only [hlast] at hp ⊢
    split at hp
    · next hr => simpa [hr] using hp
    · next hr =>
      simp only [hr, Bool.false_eq_true, ↓reduceIte]
      cases hi : op.kind.inline? with
      | none => simpa [hi] using hp
      | some n => exact h n b (by simpa [hi] using hp)

end Plan

namespace Plans

open Plan (Op Chain Usage Error)

variable {a b c all : Plans} {name : String} {plan : Plan}

@[simp] theorem get_eq_ok : all.get name = .ok plan ↔ all.types.get? name = some plan := by
  rw [get]
  cases all.types.get? name <;> simp

@[simp] theorem getInitArgs_eq_ok :
    all.getInitArgs name = .ok plan ↔ all.initArgs.get? name = some plan := by
  rw [getInitArgs]
  cases all.initArgs.get? name <;> simp

/-- The second collection has every plan of the first. -/
structure Extends (a b : Plans) : Prop where
  /-- A plan that is there stays. -/
  kept : ∀ name plan, a.types.get? name = some plan → b.types.get? name = some plan
  size_le : a.types.size ≤ b.types.size

theorem Extends.refl (a : Plans) : a.Extends a := ⟨fun _ _ h => h, Nat.le_refl _⟩

theorem Extends.trans (h : a.Extends b) (h' : b.Extends c) : a.Extends c :=
  ⟨fun n p hp => h'.kept n p (h.kept n p hp), Nat.le_trans h.size_le h'.size_le⟩

theorem Extends.insert (hn : all.types.get? name = none) :
    all.Extends { all with types := all.types.insert name plan } := by
  refine ⟨fun n p hp => ?_, Dict.size_le_insert⟩
  have hne : n ≠ name := by
    rintro rfl
    simp [hn] at hp
  simpa [hne] using hp

theorem Extends.depthBound_le (h : a.Extends b) : a.depthBound ≤ b.depthBound :=
  Nat.succ_le_succ h.size_le

theorem inlineUsage_mono (h : a.Extends b) {m n : Nat} (hmn : m ≤ n) :
    Plan.Refines (a.inlineUsage m) (b.inlineUsage n) := by
  induction m generalizing n with
  | zero => intro name u hu; simp [inlineUsage] at hu
  | succ m ih =>
    obtain ⟨n, rfl⟩ : ∃ k, n = k + 1 := ⟨n - 1, by omega⟩
    intro name u hu
    simp only [inlineUsage, Except.bind_eq_ok, get_eq_ok] at hu ⊢
    obtain ⟨plan, hplan, hu⟩ := hu
    exact ⟨plan, h.kept name plan hplan, Plan.Chain.usageBy_mono (ih (by omega)) hu⟩

theorem inlineOpenEnded_mono (h : a.Extends b) {m n : Nat} (hmn : m ≤ n) :
    Plan.Refines (a.inlineOpenEnded m) (b.inlineOpenEnded n) := by
  induction m generalizing n with
  | zero => intro name u hu; simp [inlineOpenEnded] at hu
  | succ m ih =>
    obtain ⟨n, rfl⟩ : ∃ k, n = k + 1 := ⟨n - 1, by omega⟩
    intro name u hu
    simp only [inlineOpenEnded, Except.bind_eq_ok, get_eq_ok] at hu ⊢
    obtain ⟨plan, hplan, hu⟩ := hu
    exact ⟨plan, h.kept name plan hplan, Plan.openEndedBy_mono (ih (by omega)) hu⟩

theorem opUsage_mono (h : a.Extends b) {op : Op} {u : Usage} (hu : a.opUsage op = .ok u) :
    b.opUsage op = .ok u :=
  Plan.Op.usageBy_mono (inlineUsage_mono h h.depthBound_le) hu

theorem isOpenEnded_mono (h : a.Extends b) {r : Bool} (hr : a.isOpenEnded plan = .ok r) :
    b.isOpenEnded plan = .ok r :=
  Plan.openEndedBy_mono (inlineOpenEnded_mono h h.depthBound_le) hr

end Plans

end CellCompiler
