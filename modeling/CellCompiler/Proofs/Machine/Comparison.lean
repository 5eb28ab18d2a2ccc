import CellCompiler.Proofs.Bag.Accepted
import CellCompiler.Proofs.Cell.Hash
import CellCompiler.Proofs.Machine.Helpers

/-!
# Comparing values that may be absent

Values are compared by helpers, one for each way of comparing and for each choice of operands that
may be null. A helper looks at an operand only after it has found it to be there.

* `Comparison.equal` is equality of values: null is equal to itself alone;
* `Comparison.Allows` says which values are compared, `Absence.Admits` which of them may be null and
  `Comparison.Apart` that the hashes of two values that are compared by their hashes do not collide;
* `means_compareBy` is about values that are there, and `means_equal` about the helpers.
-/

namespace CellCompiler

open Machine

/-! ### Hashes as numbers -/

theorem Bits.ofBigEndian_inj : ∀ {as bs : List UInt8}, as.length = bs.length →
    ofBigEndian as = ofBigEndian bs → as = bs
  | [], [], _, _ => rfl
  | a :: as, b :: bs, hlength, h => by
    rw [List.length_cons, List.length_cons, Nat.add_right_cancel_iff] at hlength
    rw [ofBigEndian_cons, ofBigEndian_cons, hlength, Nat.mul_comm, Nat.mul_comm b.toNat] at h
    have ha := hlength ▸ Bag.ofBigEndian_lt as
    have hb := Bag.ofBigEndian_lt bs
    have hquotient := congrArg (· / 256 ^ bs.length) h
    simp only [Nat.mul_add_div (Nat.pos_of_ne_zero (by omega : 256 ^ bs.length ≠ 0)),
      Nat.div_eq_of_lt ha, Nat.div_eq_of_lt hb, Nat.add_zero] at hquotient
    rw [hquotient, Nat.add_left_cancel_iff] at h
    rw [UInt8.toNat_inj.1 hquotient, ofBigEndian_inj hlength h]

namespace Cell

/-- The two cells are not different cells of one hash. -/
def Apart (a b : Cell) : Prop := a.hash = b.hash → a = b

theorem Apart.symm {a b : Cell} (h : a.Apart b) : b.Apart a := fun hhash => (h hhash.symm).symm

theorem Apart.hashNumber_beq {a b : Cell} (h : a.Apart b) :
    ((a.hashNumber : Int) == b.hashNumber) = (a == b) := by
  rw [Bool.eq_iff_iff, beq_iff_eq, beq_iff_eq, Int.ofNat_inj]
  refine ⟨fun hnumber => h ?_, fun heq => heq ▸ rfl⟩
  exact Bits.ofBigEndian_inj (by rw [length_hash, length_hash]) hnumber

end Cell

/-! ### Equality of values -/

namespace Comparison

/-- Two values are the same: both are absent, or both are there and have the same content. -/
def equal (mode : Comparison) : Val → Val → Bool
  | .null, .null => true
  | .int m, .int n => m == n
  | .cell a, .cell b => a == b
  | .slice x, .slice y => if mode = .bits then x.bits == y.bits else x.toCell == y.toCell
  | _, _ => false

theorem equal_comm {mode : Comparison} {v w : Val} : mode.equal v w = mode.equal w v := by
  cases v <;> cases w <;> simp only [equal, BEq.comm]

theorem equal_null {mode : Comparison} {v : Val} : mode.equal .null v = v.isNull := by
  cases v <;> rfl

/-- The values that are there and can be compared. -/
inductive Takes : Comparison → Val → Prop where
  | int (n : Int) : Takes .int (.int n)
  | cell (a : Cell) : Takes .cell (.cell a)
  | slice (x : Slice) : Takes .slice (.slice x)
  | bits (x : Slice) : Takes .bits (.slice x)

theorem Takes.isNull {mode : Comparison} {v : Val} (h : mode.Takes v) : v.isNull = false := by
  cases h <;> rfl

/-- The values that can be compared, the absent one included. -/
def Allows (mode : Comparison) (v : Val) : Prop := v = .null ∨ mode.Takes v

theorem Allows.takes {mode : Comparison} {v : Val} (h : mode.Allows v) (hv : v.isNull = false) :
    mode.Takes v :=
  h.resolve_left (by rintro rfl; simp [Val.isNull] at hv)

/-- The hashes by which two values are compared do not collide. -/
def Apart (mode : Comparison) : Val → Val → Prop
  | .cell a, .cell b => a.Apart b
  | .slice x, .slice y => mode = .slice → x.toCell.Apart y.toCell
  | _, _ => True

theorem Apart.symm {mode : Comparison} {v w : Val} (h : mode.Apart v w) : mode.Apart w v := by
  cases v with
  | cell a =>
    cases w with
    | cell b => exact Cell.Apart.symm h
    | _ => trivial
  | slice x =>
    cases w with
    | slice y => exact fun hmode => (h hmode).symm
    | _ => trivial
  | _ => cases w <;> trivial

end Comparison

/-- The values that are there, apart from those that may be absent. -/
def Absence.Admits : Absence → Val → Val → Prop
  | .neither, v, w => v.isNull = false ∧ w.isNull = false
  | .first, _, w => w.isNull = false
  | .both, _, _ => True

/-! ### Helpers -/

variable {c : Code} {s : State} {v w : Val} {mode : Comparison} {absence : Absence}
  {l r : Target.Expr}

/-- Values that are there are compared by their content. -/
theorem means_compareBy (hc : c.Plain) (hl : Means c s l v) (hr : Means c s r w)
    (hv : mode.Takes v) (hw : mode.Takes w) (hapart : mode.Apart v w) :
    Means c s (Helper.compareBy l r mode) (.bool (mode.equal v w)) := by
  cases hv with
  | int m => cases hw with | int n => exact hl.eq hr
  | cell a =>
    cases hw with
    | cell b =>
      have hhash : Means c s (Helper.compareBy l r .cell)
          (.bool ((a.hashNumber : Int) == b.hashNumber)) :=
        (Means.primitive hc (by decide) (.cons hl .nil) rfl).eq (.primitive hc (by decide) (.cons hr .nil) rfl)
      rwa [Cell.Apart.hashNumber_beq hapart] at hhash
  | slice x =>
    cases hw with
    | slice y =>
      have hhash : Means c s (Helper.compareBy l r .slice)
          (.bool ((x.toCell.hashNumber : Int) == y.toCell.hashNumber)) :=
        (Means.primitive hc (by decide) (.cons hl .nil) rfl).eq (.primitive hc (by decide) (.cons hr .nil) rfl)
      rwa [Cell.Apart.hashNumber_beq (hapart rfl)] at hhash
  | bits x => cases hw with | bits y => exact .primitiveCall hc (by decide) (.cons hl (.cons hr .nil)) rfl

/-- A comparison of which the first operand may be absent. -/
theorem means_unlessNull {test e : Target.Expr} (htest : Means c s test (.bool v.isNull))
    (he : mode.Takes v → Means c s e (.bool (mode.equal v w))) (hv : mode.Allows v)
    (hw : w.isNull = false) :
    Means c s (.ternary test (.bool false) e) (.bool (mode.equal v w)) := by
  refine htest.ternary ?_
  rcases hv with rfl | hv
  · rw [Comparison.equal_null, hw]
    exact means_bool
  · rw [hv.isNull]
    exact he hv

/-- A comparison of which both operands may be absent. -/
theorem means_unlessNulls {test test' e : Target.Expr} (htest : Means c s test (.bool v.isNull))
    (htest' : Means c s test' (.bool w.isNull))
    (he : mode.Takes v → mode.Takes w → Means c s e (.bool (mode.equal v w)))
    (hv : mode.Allows v) (hw : mode.Allows w) :
    Means c s (.ternary (.binary .and test test') (.bool true)
      (.ternary (.binary .and (Target.not test) (Target.not test')) e (.bool false)))
      (.bool (mode.equal v w)) := by
  have hpresent := htest.not.and htest'.not
  refine (htest.and htest').ternary ?_
  rcases hv with rfl | hv <;> rcases hw with rfl | hw
  · exact means_bool
  · rw [Comparison.equal_null, hw.isNull]
    exact hpresent.ternary (by rw [hw.isNull]; exact means_bool)
  · rw [Comparison.equal_comm, Comparison.equal_null, hv.isNull]
    exact hpresent.ternary (by rw [hv.isNull]; exact means_bool)
  · rw [hv.isNull]
    exact hpresent.ternary (by rw [hv.isNull, hw.isNull]; exact he hv hw)

/-- **A helper compares two values**, either of which is absent only where the helper allows for it. -/
theorem means_equal (hc : c.Plain) (h : c.Helps (Helper.equalName mode absence) (.equal mode absence))
    (hl : Means c s l v) (hr : Means c s r w) (hv : mode.Allows v) (hw : mode.Allows w)
    (hadmits : absence.Admits v w) (hapart : mode.Apart v w) :
    Means c s (Target.call (Helper.equalName mode absence) [l, r]) (.bool (mode.equal v w)) := by
  refine (yields_call_means (.cons hl (.cons hr .nil))).2 ?_
  have hhas : c.Has (Helper.equalName mode absence) ["a", "b"] (Helper.equalBody mode absence) :=
    ⟨_, h, rfl⟩
  generalize hu : s.enter ["a", "b"] [v, w] = u
  have ha : u.get? "a" = some v := by simp [← hu, State.enter, State.get?, Dict.ofList]
  have hb : u.get? "b" = some w := by simp [← hu, State.enter, State.get?, Dict.ofList]
  have hnull : Means c u (Target.isNull (Target.id "a")) (.bool v.isNull) :=
    means_isNull hc (means_id ha)
  cases absence with
  | neither =>
    have hresult : Means c u (Helper.compareBy (Target.id "a") (Target.id "b") mode)
        (.bool (mode.equal v w)) :=
      means_compareBy hc (means_id ha) (means_id hb) (hv.takes hadmits.1) (hw.takes hadmits.2) hapart
    refine hhas.returns (t := u) rfl ?_ (by rw [← hu]; rfl) (by rw [← hu]; rfl)
    rw [hu]
    exact (yields_ret_means hresult).2 ⟨rfl, rfl⟩
  | first =>
    have hresult : Means c u (.ternary (Target.isNull (Target.id "a")) (.bool false)
        (Helper.compareBy (Target.id "a") (Target.id "b") mode)) (.bool (mode.equal v w)) :=
      means_unlessNull hnull (fun hv =>
        means_compareBy hc (means_id ha) (means_id hb) hv (hw.takes hadmits) hapart) hv hadmits
    refine hhas.returns (t := u) rfl ?_ (by rw [← hu]; rfl) (by rw [← hu]; rfl)
    rw [hu]
    exact (yields_ret_means hresult).2 ⟨rfl, rfl⟩
  | both =>
    generalize ht₁ : u.set "a_is_null" (.bool v.isNull) = t₁
    have hsecond : Means c t₁ (Target.isNull (Target.id "b")) (.bool w.isNull) :=
      means_isNull hc (means_id (by simp [← ht₁, hb]))
    generalize ht : t₁.set "b_is_null" (.bool w.isNull) = t
    have ha' : Means c t (Target.id "a") v := means_id (by simp [← ht, ← ht₁, ha])
    have hb' : Means c t (Target.id "b") w := means_id (by simp [← ht, ← ht₁, hb])
    have hfirst' : Means c t (Target.id "a_is_null") (.bool v.isNull) := means_id (by simp [← ht, ← ht₁])
    have hsecond' : Means c t (Target.id "b_is_null") (.bool w.isNull) := means_id (by simp [← ht])
    have hresult := means_unlessNulls hfirst' hsecond' (fun hv hw => means_compareBy hc ha' hb' hv hw hapart) hv hw
    refine hhas.returns (t := t) rfl ?_ (by rw [← ht, ← ht₁, ← hu]; rfl)
      (by rw [← ht, ← ht₁, ← hu]; rfl)
    rw [hu, Helper.equalBody, yields_var_means hnull, ht₁, yields_var_means hsecond, ht]
    exact (yields_ret_means hresult).2 ⟨rfl, rfl⟩

end CellCompiler
