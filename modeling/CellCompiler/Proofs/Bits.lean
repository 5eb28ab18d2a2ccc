import CellCompiler.Bits
import Mathlib.Data.Nat.Log
import Mathlib.Tactic.Ring
import Mathlib.Tactic.Linarith
import Mathlib.Tactic.Positivity

/-!
# Numbers and their digits

* `Bits.fitsUnsigned_iff` and `Bits.fitsSigned_succ_iff` give the range of a width;
* `Bits.toNat_ofInt` and `Bits.toInt_ofInt` read a number back that fits its width.
-/

namespace CellCompiler

namespace Bits

theorem toNat_append (as bs : List Bool) :
    toNat (as ++ bs) = toNat as * 2 ^ bs.length + toNat bs := by
  have hfold : ∀ (bs : List Bool) (acc : Nat),
      bs.foldl (fun acc b => 2 * acc + b.toNat) acc = acc * 2 ^ bs.length + toNat bs := by
    intro bs
    induction bs with
    | nil => simp [toNat]
    | cons b bs ih =>
      intro acc
      rw [toNat, List.foldl_cons, List.foldl_cons, ih, ih (2 * 0 + b.toNat), List.length_cons,
        Nat.pow_succ]
      ring
  rw [toNat, List.foldl_append, hfold]
  rfl

theorem toNat_cons (b : Bool) (bs : List Bool) :
    toNat (b :: bs) = b.toNat * 2 ^ bs.length + toNat bs := by
  have h := toNat_append [b] bs
  simpa [toNat] using h

theorem toNat_ofNat (w n : Nat) : toNat (ofNat w n) = n % 2 ^ w := by
  induction w with
  | zero => simp [ofNat, toNat, Nat.mod_one]
  | succ w ih =>
    rw [ofNat, toNat_cons, length_ofNat, ih, Nat.pow_succ, Nat.mod_mul, Nat.testBit_eq_decide_div_mod_eq]
    rcases Nat.mod_two_eq_zero_or_one (n / 2 ^ w) with h | h
    · simp [h]
    · simp [h]
      omega

theorem bitLength_le_iff {n w : Nat} : bitLength n ≤ w ↔ n < 2 ^ w := by
  unfold bitLength
  split
  · next h => simp [h]
  · next h => rw [Nat.succ_le_iff, Nat.log2_lt h]

theorem fitsUnsigned_iff {v : Int} {w : Nat} : fitsUnsigned v w = true ↔ 0 ≤ v ∧ v < 2 ^ w := by
  cases v with
  | ofNat n =>
    have : ((n : Int) < 2 ^ w) ↔ n < 2 ^ w := by exact_mod_cast Iff.rfl
    simp [fitsUnsigned, bitLength_le_iff, this]
  | negSucc n => simp [fitsUnsigned]

theorem fitsSigned_succ_iff {v : Int} {w : Nat} :
    fitsSigned v (w + 1) = true ↔ -2 ^ w ≤ v ∧ v < 2 ^ w := by
  have hpos : (0 : Int) < 2 ^ w := by positivity
  cases v with
  | ofNat n =>
    have : ((n : Int) < 2 ^ w) ↔ n < 2 ^ w := by exact_mod_cast Iff.rfl
    have hn : (0 : Int) ≤ n := Int.natCast_nonneg n
    simp only [fitsSigned, bitLength_le_iff, Int.ofNat_eq_natCast, decide_eq_true_eq, this]
    constructor
    · intro h
      exact ⟨by omega, h⟩
    · exact fun h => h.2
  | negSucc n =>
    have : ((n : Int) < 2 ^ w) ↔ n < 2 ^ w := by exact_mod_cast Iff.rfl
    simp only [fitsSigned, bitLength_le_iff, decide_eq_true_eq, ← this]
    omega

theorem natCast_toNat_ofInt {v : Int} {w : Nat} : (toNat (ofInt w v) : Int) = v % 2 ^ w := by
  have hpos : (0 : Int) < 2 ^ w := by positivity
  have hcast : ((twoPow w : Nat) : Int) = 2 ^ w := by simp [twoPow]
  have hnonneg := Int.emod_nonneg v (ne_of_gt hpos)
  have hlt := Int.emod_lt_of_pos v hpos
  rw [ofInt, toNat_ofNat, Int.natCast_emod, hcast, Int.toNat_of_nonneg hnonneg]
  push_cast
  exact Int.emod_eq_of_lt hnonneg hlt

/-- A natural number is read back from its digits. -/
theorem toNat_ofInt {v : Int} {w : Nat} (h : fitsUnsigned v w = true) :
    (toNat (ofInt w v) : Int) = v := by
  obtain ⟨hnonneg, hlt⟩ := fitsUnsigned_iff.1 h
  rw [natCast_toNat_ofInt, Int.emod_eq_of_lt hnonneg hlt]

theorem toInt_cons (b : Bool) (bs : List Bool) :
    toInt (b :: bs) = toNat bs - b.toNat * 2 ^ bs.length := by
  cases b with
  | false => simp [toInt, toNat_cons]
  | true =>
    simp only [toInt, toNat_cons, twoPow, Bool.toNat_true]
    push_cast [Nat.pow_eq, Nat.pow_succ]
    ring

theorem toInt_eq (bs : List Bool) :
    toInt bs = (toNat bs : Int) ∨ toInt bs = toNat bs - 2 ^ bs.length := by
  cases bs with
  | nil => exact .inl rfl
  | cons b bs =>
    rw [toInt_cons, toNat_cons]
    cases b with
    | false => exact .inl (by simp)
    | true =>
      refine .inr ?_
      push_cast [Nat.pow_succ, Bool.toNat_true, List.length_cons]
      ring

theorem toNat_lt (bs : List Bool) : toNat bs < 2 ^ bs.length := by
  induction bs with
  | nil => simp [toNat]
  | cons b bs ih =>
    rw [toNat_cons, List.length_cons, Nat.pow_succ]
    cases b <;> simp <;> omega

/-- Two's complement of `w + 1` digits reaches from `-2 ^ w` to `2 ^ w - 1`. -/
theorem toInt_bounds {bs : List Bool} {w : Nat} (h : bs.length = w + 1) :
    -2 ^ w ≤ toInt bs ∧ toInt bs < 2 ^ w := by
  obtain ⟨b, bs, rfl⟩ := List.exists_cons_of_length_eq_add_one h
  obtain rfl : bs.length = w := by simpa using h
  have hlt : (toNat bs : Int) < 2 ^ bs.length := by exact_mod_cast toNat_lt bs
  have hnonneg := Int.natCast_nonneg (toNat bs)
  rw [toInt_cons]
  cases b <;> simp <;> omega

/-- An integer is read back from its two's complement. -/
theorem toInt_ofInt {v : Int} {w : Nat} (h : fitsSigned v w = true) : toInt (ofInt w v) = v := by
  cases w with
  | zero =>
    obtain rfl : v = 0 := by simpa [fitsSigned] using h
    rfl
  | succ w =>
    have hv := fitsSigned_succ_iff.1 h
    have hbounds := toInt_bounds (length_ofInt (w + 1) v)
    -- both agree modulo the number of digit strings and lie in an interval of that length
    have hdvd : (2 : Int) ^ (w + 1) ∣ toInt (ofInt (w + 1) v) - v := by
      have hmod : (2 : Int) ^ (w + 1) ∣ v % 2 ^ (w + 1) - v :=
        ⟨-(v / 2 ^ (w + 1)), by have := Int.emod_add_mul_ediv v (2 ^ (w + 1)); linarith⟩
      rcases toInt_eq (ofInt (w + 1) v) with heq | heq
      · rw [heq, natCast_toNat_ofInt]
        exact hmod
      · rw [heq, natCast_toNat_ofInt, length_ofInt, sub_right_comm]
        exact Int.dvd_sub hmod (Int.dvd_refl _)
    obtain ⟨k, hk⟩ := hdvd
    have hpow : (2 : Int) ^ (w + 1) = 2 * 2 ^ w := by ring
    have hpos : (0 : Int) < 2 ^ w := by positivity
    have hzero : k = 0 := by
      have hlt : k < 1 := by by_contra hge; nlinarith
      have hgt : -1 < k := by by_contra hle; nlinarith
      omega
    rw [hzero, mul_zero] at hk
    omega

theorem fitsUnsigned_natCast {n w : Nat} : fitsUnsigned n w = true ↔ bitLength n ≤ w := by
  simp [fitsUnsigned]

/-- Widths of fields are widths that the machine can handle. -/
theorem toNat_lt_size (w : UInt16) : w.toNat < UInt64.size :=
  Nat.lt_trans w.toNat_lt (by decide)

end Bits

end CellCompiler
