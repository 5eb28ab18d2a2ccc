import CellCompiler.ExitCode
import CellCompiler.Proofs.Bag.Accepted
import Mathlib.RingTheory.AdjoinRoot
import Mathlib.Algebra.Field.ZMod
import Mathlib.Algebra.CharP.Two
import Mathlib.Data.Nat.Bitwise
import Mathlib.Tactic.LinearCombination

/-!
# Checks are remainders

A bit string is read as a polynomial over the field of two elements, its first bit as the highest
coefficient. Appending is then shifting and exclusive disjunction is addition.

* `Crc16.register_shift` is one step of the register: a multiplication by `X` from which the generator
  is taken off when a one leaves at the top;
* `Crc16.residue_foldl` is what a byte string does to any register, up to multiples of the generator;
* `defaultMethodId_remainder` is the main result: the check is a remainder, and names of one length
  have the same method number exactly if the generator divides their difference.
-/

namespace CellCompiler

open Polynomial

/-! ### Bit strings as polynomials -/

namespace Bits

/-- The polynomial whose coefficients are the bits, the highest one first. -/
noncomputable def polynomial : List Bool → (ZMod 2)[X]
  | [] => 0
  | b :: bits => (if b then X ^ bits.length else 0) + polynomial bits

@[simp] theorem polynomial_nil : polynomial [] = 0 := rfl

theorem polynomial_cons (b : Bool) (bits : List Bool) :
    polynomial (b :: bits) = (if b then X ^ bits.length else 0) + polynomial bits := rfl

theorem polynomial_append (as bs : List Bool) :
    polynomial (as ++ bs) = polynomial as * X ^ bs.length + polynomial bs := by
  induction as with
  | nil => simp
  | cons a as ih =>
    rw [List.cons_append, polynomial_cons, polynomial_cons, ih, List.length_append]
    cases a
    · simp
    · simp only [if_true]
      ring

@[simp] theorem polynomial_replicate_false (n : Nat) :
    polynomial (List.replicate n false) = 0 := by
  induction n with
  | zero => rfl
  | succ n ih => simp [List.replicate_succ, polynomial_cons, ih]

/-- Exclusive disjunction bit by bit is addition. -/
theorem polynomial_zipWith_xor {as bs : List Bool} (h : as.length = bs.length) :
    polynomial (List.zipWith xor as bs) = polynomial as + polynomial bs := by
  induction as generalizing bs with
  | nil =>
    obtain rfl : bs = [] := List.length_eq_zero_iff.1 h.symm
    simp
  | cons a as ih =>
    obtain ⟨b, bs, rfl⟩ := List.exists_cons_of_length_eq_add_one h.symm
    have htail : as.length = bs.length := by simpa using h
    rw [List.zipWith_cons_cons, polynomial_cons, polynomial_cons, polynomial_cons, ih htail,
      List.length_zipWith, ← htail, Nat.min_self]
    have htwice : (X ^ as.length + X ^ as.length : (ZMod 2)[X]) = 0 := CharTwo.add_self_eq_zero _
    cases a <;> cases b
    · simp
    · simp [add_left_comm]
    · simp [add_assoc]
    · simp only [bne_self_eq_false, Bool.false_eq_true, if_false, if_true]
      linear_combination -htwice

theorem degree_polynomial_lt (bits : List Bool) : (polynomial bits).degree < bits.length := by
  induction bits with
  | nil => simp
  | cons b bits ih =>
    have hlt : ((bits.length : Nat) : WithBot Nat) < ((b :: bits).length : Nat) := by
      exact_mod_cast Nat.lt_succ_self bits.length
    refine lt_of_le_of_lt (degree_add_le _ _) (max_lt ?_ (ih.trans hlt))
    cases b with
    | false => simp
    | true => simpa only [if_true, degree_X_pow] using hlt

/-- Bit strings of one length are told apart by their polynomials. -/
theorem eq_of_polynomial_eq {as bs : List Bool} (hlength : as.length = bs.length)
    (h : polynomial as = polynomial bs) : as = bs := by
  induction as generalizing bs with
  | nil => exact (List.length_eq_zero_iff.1 hlength.symm).symm
  | cons a as ih =>
    obtain ⟨b, bs, rfl⟩ := List.exists_cons_of_length_eq_add_one hlength.symm
    have htail : as.length = bs.length := by simpa using hlength
    rw [polynomial_cons, polynomial_cons, ← htail] at h
    -- the coefficient above those of the rest
    have htop := congrArg (fun p => p.coeff as.length) h
    have has := coeff_eq_zero_of_degree_lt (degree_polynomial_lt as)
    have hbs := coeff_eq_zero_of_degree_lt (htail ▸ degree_polynomial_lt bs)
    simp only [coeff_add, has, hbs, add_zero] at htop
    have hhead : a = b := by
      cases a <;> cases b <;> simp at htop ⊢
    subst hhead
    rw [ih htail (add_left_cancel h)]

theorem ofNat_xor (w m n : Nat) : ofNat w (m ^^^ n) = List.zipWith xor (ofNat w m) (ofNat w n) := by
  induction w with
  | zero => rfl
  | succ w ih => simp [ofNat, ih]

theorem ofNat_shiftLeft (w k n : Nat) :
    ofNat (w + k) (n <<< k) = ofNat w n ++ List.replicate k false := by
  induction w with
  | zero =>
    have hzero : ∀ j ≤ k, ofNat j (n <<< k) = List.replicate j false := by
      intro j hj
      induction j with
      | zero => rfl
      | succ j ih =>
        have hbit : (n <<< k).testBit j = false := by
          rw [Nat.testBit_shiftLeft, decide_eq_false (by omega), Bool.false_and]
        rw [ofNat, ih (by omega), hbit, List.replicate_succ]
    simpa [ofNat] using hzero k le_rfl
  | succ w ih =>
    have hbit : (n <<< k).testBit (w + k) = n.testBit w := by simp [Nat.testBit_shiftLeft]
    rw [Nat.add_right_comm, ofNat, ih, hbit, ofNat, List.cons_append]

theorem polynomial_ofNat_xor (w m n : Nat) :
    polynomial (ofNat w (m ^^^ n)) = polynomial (ofNat w m) + polynomial (ofNat w n) := by
  rw [ofNat_xor, polynomial_zipWith_xor (by simp)]

theorem polynomial_ofNat_shiftLeft (w k n : Nat) :
    polynomial (ofNat (w + k) (n <<< k)) = polynomial (ofNat w n) * X ^ k := by
  rw [ofNat_shiftLeft, polynomial_append, List.length_replicate, polynomial_replicate_false,
    add_zero]

theorem eq_of_polynomial_ofNat_eq {w m n : Nat} (hm : m < 2 ^ w) (hn : n < 2 ^ w)
    (h : polynomial (ofNat w m) = polynomial (ofNat w n)) : m = n := by
  have hbits := congrArg toNat (eq_of_polynomial_eq (by simp) h)
  rwa [toNat_ofNat, toNat_ofNat, Nat.mod_eq_of_lt hm, Nat.mod_eq_of_lt hn] at hbits

/-- Exclusive disjunction byte by byte is addition. -/
theorem polynomial_ofBytes_xor {as bs : List UInt8} (h : as.length = bs.length) :
    polynomial (ofBytes (List.zipWith (· ^^^ ·) as bs)) =
      polynomial (ofBytes as) + polynomial (ofBytes bs) := by
  have hbits : ofBytes (List.zipWith (· ^^^ ·) as bs) =
      List.zipWith xor (ofBytes as) (ofBytes bs) := by
    induction as generalizing bs with
    | nil => rfl
    | cons a as ih =>
      obtain ⟨b, bs, rfl⟩ := List.exists_cons_of_length_eq_add_one h.symm
      have hbyte : ofByte (a ^^^ b) = List.zipWith xor (ofByte a) (ofByte b) := by
        rw [ofByte, UInt8.toNat_xor, ofNat_xor]
        rfl
      have htail := @ih bs (by simpa using h)
      simp only [ofBytes] at htail
      simp only [ofBytes, List.zipWith_cons_cons, List.flatMap_cons, htail, hbyte]
      rw [List.zipWith_append (by simp [ofByte])]
  rw [hbits, polynomial_zipWith_xor (by rw [Bag.length_ofBytes, Bag.length_ofBytes, h])]

end Bits

/-! ### The register -/

namespace Crc16

/-- What a byte string is divided by. -/
noncomputable def generator : (ZMod 2)[X] := X ^ 16 + X ^ 12 + X ^ 5 + 1

/-- The polynomial in the register. -/
noncomputable def register (crc : UInt16) : (ZMod 2)[X] :=
  Bits.polynomial (Bits.ofNat 16 crc.toNat)

theorem degree_generator : generator.degree = 16 := by
  unfold generator
  compute_degree!

theorem generator_ne_zero : generator ≠ 0 := by
  intro h
  simpa [h] using degree_generator

theorem degree_register_lt (crc : UInt16) : (register crc).degree < generator.degree := by
  have hlt := Bits.degree_polynomial_lt (Bits.ofNat 16 crc.toNat)
  rw [Bits.length_ofNat] at hlt
  rw [degree_generator]
  exact hlt

theorem eq_of_register_eq {a b : UInt16} (h : register a = register b) : a = b :=
  UInt16.toNat_inj.1 (Bits.eq_of_polynomial_ofNat_eq a.toNat_lt b.toNat_lt h)

@[simp] theorem register_zero : register 0 = 0 := Bits.polynomial_replicate_false 16

theorem register_xor (a b : UInt16) : register (a ^^^ b) = register a + register b := by
  rw [register, UInt16.toNat_xor, Bits.polynomial_ofNat_xor]
  rfl

theorem register_tail : register 0x1021 = X ^ 12 + X ^ 5 + 1 := by
  have hbits : Bits.ofNat 16 (0x1021 : UInt16).toNat = [false, false, false, true, false, false,
      false, false, false, false, true, false, false, false, false, true] := by decide
  rw [register, hbits]
  simp [Bits.polynomial_cons, add_assoc]

theorem register_shiftLeft (crc : UInt16) :
    register (crc <<< 1) = Bits.polynomial (Bits.ofNat 15 crc.toNat) * X := by
  have hnat : (crc <<< 1).toNat = crc.toNat <<< 1 % 2 ^ 16 := by
    rw [UInt16.toNat_shiftLeft]
    rfl
  rw [register, hnat, ← pow_one (X : (ZMod 2)[X]), ← Bits.polynomial_ofNat_shiftLeft 15 1]
  exact congrArg Bits.polynomial (Bits.ofNat_congr (Nat.mod_mod _ _))

theorem highest_ne_zero (crc : UInt16) : (crc &&& 0x8000 != 0) = crc.toNat.testBit 15 := by
  have hnat : (crc &&& 0x8000).toNat = (crc.toNat.testBit 15).toNat * 2 ^ 15 := by
    rw [UInt16.toNat_and]
    exact Nat.and_two_pow crc.toNat 15
  rw [Bool.eq_iff_iff, bne_iff_ne, ne_eq, ← UInt16.toNat_inj, hnat]
  cases crc.toNat.testBit 15 <;> simp

/-- A step multiplies by `X` and takes off the generator when a one leaves at the top. -/
theorem register_shift (crc : UInt16) : register crc * X =
    register (shift crc) + if crc.toNat.testBit 15 then generator else 0 := by
  have hregister : register crc = (if crc.toNat.testBit 15 then X ^ 15 else 0) +
      Bits.polynomial (Bits.ofNat 15 crc.toNat) := by
    rw [register, Bits.ofNat, Bits.polynomial_cons, Bits.length_ofNat]
  rw [hregister, shift, highest_ne_zero]
  cases crc.toNat.testBit 15 with
  | false => simp [register_shiftLeft]
  | true =>
    simp only [if_true, register_xor, register_shiftLeft, register_tail, generator]
    -- The generator without its highest term is there twice.
    linear_combination -CharTwo.add_self_eq_zero (X ^ 12 + X ^ 5 + 1 : (ZMod 2)[X])

/-! ### Residues -/

/-- Polynomials up to multiples of the generator. -/
noncomputable abbrev residue : (ZMod 2)[X] →+* AdjoinRoot generator := AdjoinRoot.mk generator

theorem residue_shift (crc : UInt16) : residue (register (shift crc)) =
    residue (register crc) * residue X := by
  rw [← map_mul, register_shift, map_add]
  split_ifs <;> simp

theorem residue_shifts (n : Nat) (crc : UInt16) : residue (register (Nat.repeat shift n crc)) =
    residue (register crc) * residue X ^ n := by
  induction n with
  | zero => simp [Nat.repeat]
  | succ n ih => rw [Nat.repeat, residue_shift, ih, pow_succ, mul_assoc]

theorem register_byte (byte : UInt8) :
    register (byte.toUInt16 <<< 8) = Bits.polynomial (Bits.ofByte byte) * X ^ 8 := by
  have hnat : (byte.toUInt16 <<< 8).toNat = byte.toNat <<< 8 % 2 ^ 16 := by
    rw [UInt16.toNat_shiftLeft, UInt8.toNat_toUInt16]
    rfl
  rw [register, hnat, Bits.ofByte, ← Bits.polynomial_ofNat_shiftLeft 8 8]
  exact congrArg Bits.polynomial (Bits.ofNat_congr (Nat.mod_mod _ _))

theorem residue_absorb (crc : UInt16) (byte : UInt8) : residue (register (absorb crc byte)) =
    residue (register crc) * residue X ^ 8 +
      residue (Bits.polynomial (Bits.ofByte byte)) * residue X ^ 16 := by
  rw [absorb, residue_shifts, register_xor, register_byte, map_add, map_mul, map_pow]
  ring

/-- A byte string moves the register up by its length and is added behind the register. -/
theorem residue_foldl (data : List UInt8) (crc : UInt16) :
    residue (register (data.foldl absorb crc)) =
      residue (register crc) * residue X ^ (8 * data.length) +
        residue (Bits.polynomial (Bits.ofBytes data)) * residue X ^ 16 := by
  induction data generalizing crc with
  | nil => simp [Bits.ofBytes]
  | cons byte data ih =>
    have hbits : Bits.ofBytes (byte :: data) = Bits.ofByte byte ++ Bits.ofBytes data := rfl
    rw [List.foldl_cons, ih, residue_absorb, hbits, Bits.polynomial_append, Bag.length_ofBytes,
      map_add, map_mul, map_pow, List.length_cons, mul_add, pow_add]
    ring

theorem residue_crc16 (data : List UInt8) : residue (register (crc16 data)) =
    residue (Bits.polynomial (Bits.ofBytes data) * X ^ 16) := by
  rw [crc16, residue_foldl, register_zero, map_zero, zero_mul, zero_add, map_mul, map_pow]

theorem register_crc16 (data : List UInt8) :
    register (crc16 data) = Bits.polynomial (Bits.ofBytes data) * X ^ 16 % generator := by
  rw [← (mod_eq_self_iff generator_ne_zero).2 (degree_register_lt (crc16 data))]
  exact mod_eq_of_dvd_sub (AdjoinRoot.mk_eq_mk.1 (residue_crc16 data))

/-- Powers of `X` have no factor in common with the generator. -/
theorem generator_dvd_mul_iff {p : (ZMod 2)[X]} {n : Nat} :
    generator ∣ p * X ^ n ↔ generator ∣ p := by
  have hcoprime : IsCoprime generator (X ^ n) := by
    refine IsCoprime.pow_right ⟨1, -(X ^ 15 + X ^ 11 + X ^ 4), ?_⟩
    rw [generator]
    ring
  exact ⟨hcoprime.dvd_of_dvd_mul_right, fun h => h.mul_right _⟩

/-- Byte strings of one length have the same check exactly if the generator divides their
difference. -/
theorem crc16_eq_iff {as bs : List UInt8} (h : as.length = bs.length) : crc16 as = crc16 bs ↔
    generator ∣ Bits.polynomial (Bits.ofBytes (List.zipWith (· ^^^ ·) as bs)) := by
  have hregister : crc16 as = crc16 bs ↔ generator ∣
      Bits.polynomial (Bits.ofBytes as) * X ^ 16 - Bits.polynomial (Bits.ofBytes bs) * X ^ 16 := by
    refine ⟨fun heq => AdjoinRoot.mk_eq_mk.1 ?_, fun hdvd => eq_of_register_eq ?_⟩
    · rw [← residue_crc16, ← residue_crc16, heq]
    · rw [register_crc16, register_crc16, mod_eq_of_dvd_sub hdvd]
  rw [hregister, ← sub_mul, generator_dvd_mul_iff, CharTwo.sub_eq_add,
    Bits.polynomial_ofBytes_xor h]

end Crc16

theorem toNat_defaultMethodId (name : String) :
    (defaultMethodId name).toNat = 0x10000 + (crc16 (utf8 name)).toNat := by
  rw [defaultMethodId, UInt32.toNat_or, UInt16.toNat_toUInt32, Nat.or_comm]
  exact (Nat.two_pow_add_eq_or_of_lt (crc16 (utf8 name)).toNat_lt 1).symm

/-- **Method numbers are remainders.** The check of a byte string is the remainder of the string,
moved up by sixteen places, when it is divided by `X ^ 16 + X ^ 12 + X ^ 5 + 1`. A method that does
not declare a number has the check of its name above `0x10000`, and two names of one length have the
same number exactly if that polynomial divides the exclusive disjunction of their bytes. -/
theorem defaultMethodId_remainder :
    (∀ data : List UInt8, Bits.polynomial (Bits.ofNat 16 (crc16 data).toNat) =
      Bits.polynomial (Bits.ofBytes data) * X ^ 16 % (X ^ 16 + X ^ 12 + X ^ 5 + 1)) ∧
    (∀ name : String, (defaultMethodId name).toNat = 0x10000 + (crc16 (utf8 name)).toNat ∧
      0x10000 ≤ defaultMethodId name ∧ defaultMethodId name ≤ 0x1ffff) ∧
    ∀ a b : String, (utf8 a).length = (utf8 b).length →
      (defaultMethodId a = defaultMethodId b ↔ X ^ 16 + X ^ 12 + X ^ 5 + 1 ∣
        Bits.polynomial (Bits.ofBytes (List.zipWith (· ^^^ ·) (utf8 a) (utf8 b)))) := by
  refine ⟨Crc16.register_crc16, fun name => ⟨toNat_defaultMethodId name, ?_, ?_⟩, fun a b h => ?_⟩
  · rw [UInt32.le_iff_toNat_le, toNat_defaultMethodId]
    exact Nat.le_add_right _ _
  · have hlt := (crc16 (utf8 name)).toNat_lt
    rw [UInt32.le_iff_toNat_le, toNat_defaultMethodId]
    change _ ≤ 0x1ffff
    omega
  · have hcheck : defaultMethodId a = defaultMethodId b ↔ crc16 (utf8 a) = crc16 (utf8 b) := by
      rw [← UInt32.toNat_inj, toNat_defaultMethodId, toNat_defaultMethodId, Nat.add_left_cancel_iff,
        UInt16.toNat_inj]
    exact hcheck.trans (Crc16.crc16_eq_iff h)

/-- Two names whose difference the generator divides. -/
theorem deposit_meets_rate : (utf8 "get_deposit").length = (utf8 "refund_rate").length ∧
    defaultMethodId "get_deposit" = defaultMethodId "refund_rate" ∧
    X ^ 16 + X ^ 12 + X ^ 5 + 1 ∣ Bits.polynomial (Bits.ofBytes
      (List.zipWith (· ^^^ ·) (utf8 "get_deposit") (utf8 "refund_rate"))) := by
  have hlength : (utf8 "get_deposit").length = (utf8 "refund_rate").length := by decide +kernel
  have hsame : defaultMethodId "get_deposit" = defaultMethodId "refund_rate" := by decide +kernel
  exact ⟨hlength, hsame, (defaultMethodId_remainder.2.2 _ _ hlength).1 hsame⟩

example : crc16 (utf8 "123456789") = 0x31c3 := by decide +kernel

end CellCompiler
