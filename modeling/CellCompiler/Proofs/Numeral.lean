import CellCompiler.Numeral
import CellCompiler.Proofs.Failure

/-!
# Reading numbers back

A number is read back from its decimal digits, and different numbers have different digits.
-/

namespace CellCompiler

namespace Numeral

theorem digit?_of_isDigit {c : Char} (h : c.isDigit = true) :
    digit? 10 c = some (c.toNat - '0'.toNat) := by
  have hrange : '0' ≤ c ∧ c ≤ '9' := by
    simpa [Char.isDigit, Char.le_def] using h
  have hle : c.toNat ≤ '9'.toNat := hrange.2
  have hlt : c.toNat - '0'.toNat < 10 := by
    simp only [Char.reduceToNat] at hle ⊢
    omega
  unfold digit?
  rw [if_pos hrange]
  simpa using hlt

theorem le_ofDigitChars (cs : List Char) (acc : Nat) : acc ≤ Nat.ofDigitChars 10 cs acc := by
  rw [Nat.ofDigitChars_eq_ofDigitChars_zero]
  have hpos : 0 < 10 ^ cs.length := Nat.pow_pos (by decide)
  have hmul : acc ≤ 10 ^ cs.length * acc := Nat.le_mul_of_pos_left acc hpos
  omega

/-- Reading digits goes on to the end unless the number gets too large. -/
theorem readDigits_eq {cs : List Char} {acc hi : Nat} (hdigits : ∀ c ∈ cs, c.isDigit = true)
    (hacc : acc ≤ hi) : readDigits 10 0 hi false acc cs =
      if Nat.ofDigitChars 10 cs acc ≤ hi then .ok (Nat.ofDigitChars 10 cs acc : Int)
      else .error .tooLarge := by
  induction cs generalizing acc with
  | nil => simp [readDigits, hacc]
  | cons c cs ih =>
    rw [List.forall_mem_cons] at hdigits
    have hnext : (acc : Int) * (10 : Nat) + (c.toNat - '0'.toNat : Nat) =
        (10 * acc + (c.toNat - '0'.toNat) : Nat) := by
      push_cast
      omega
    have hle := le_ofDigitChars cs (10 * acc + (c.toNat - '0'.toNat))
    have hnonneg : ¬ ((10 * acc + (c.toNat - '0'.toNat) : Nat) : Int) < 0 := by omega
    simp only [readDigits, digit?_of_isDigit hdigits.1, Bool.false_eq_true, if_false, hnext,
      if_neg hnonneg, Nat.ofDigitChars_cons]
    by_cases hlarge : (hi : Int) < (10 * acc + (c.toNat - '0'.toNat) : Nat)
    · rw [if_pos hlarge, if_neg (by omega)]
    · rw [if_neg hlarge, ih hdigits.2 (by omega)]

/-- A text that begins with a digit has no sign. -/
theorem read_of_isDigit {c : Char} {cs : List Char} {lo hi : Int} (h : c.isDigit = true) :
    read 10 lo hi (c :: cs) = readDigits 10 lo hi false 0 (c :: cs) := by
  have hplus : c ≠ '+' := by rintro rfl; simp [Char.isDigit] at h
  have hminus : c ≠ '-' := by rintro rfl; simp [Char.isDigit] at h
  unfold read
  split <;> simp_all

/-- Numbers are written with at least one digit. -/
theorem exists_toDigits (n : Nat) : ∃ c cs, Nat.toDigits 10 n = c :: cs ∧ c.isDigit = true := by
  obtain ⟨c, cs, hcs⟩ := List.exists_cons_of_ne_nil (Nat.toDigits_ne_nil (n := n) (b := 10))
  exact ⟨c, cs, hcs, Nat.isDigit_of_mem_toDigits (by decide) (by decide) (hcs ▸ List.mem_cons_self)⟩

/-- **Numbers are read back from their digits.** -/
theorem readNat_repr {bound n m : Nat} (hbound : 0 < bound) :
    readNat bound n.repr = .ok m ↔ m = n ∧ n < bound := by
  have hdigits : ∀ c ∈ Nat.toDigits 10 n, c.isDigit = true := fun c hc =>
    Nat.isDigit_of_mem_toDigits (by decide) (by decide) hc
  have hread : read 10 0 ((bound : Int) - 1) (Nat.toDigits 10 n) =
      readDigits 10 0 ((bound - 1 : Nat) : Int) false ((0 : Nat) : Int) (Nat.toDigits 10 n) := by
    obtain ⟨c, cs, hcs, hfirst⟩ := exists_toDigits n
    have hhi : ((bound - 1 : Nat) : Int) = (bound : Int) - 1 := by omega
    rw [hcs, hhi, read_of_isDigit hfirst]
    rfl
  rw [readNat, Nat.toList_repr, hread, readDigits_eq hdigits (Nat.zero_le _),
    Nat.ofDigitChars_ten_toDigits]
  by_cases h : n ≤ bound - 1
  · have hlt : n < bound := by omega
    simp [h, hlt, Except.map, eq_comm]
  · have hlt : ¬ n < bound := by omega
    simp [h, hlt, Except.map]

/-- A number or its negative. -/
def signed (negative : Bool) (n : Nat) : Int := if negative then -(n : Int) else n

/-- One more digit, down from zero for a negative number. -/
theorem signed_next (negative : Bool) (n d : Nat) :
    (if negative then signed negative n * (10 : Nat) - d else signed negative n * (10 : Nat) + d) =
      signed negative (10 * n + d) := by
  cases negative <;> simp only [signed, if_true, Bool.false_eq_true, if_false] <;> push_cast <;> omega

theorem digit?_eq_some {c : Char} {d : Nat} :
    digit? 10 c = some d ↔ c.isDigit = true ∧ d = c.toNat - '0'.toNat := by
  refine ⟨fun h => ?_, fun ⟨hdigit, hd⟩ => hd ▸ digit?_of_isDigit hdigit⟩
  suffices hdigit : c.isDigit = true by simpa [hdigit, digit?_of_isDigit hdigit, eq_comm] using h
  simp only [digit?, Option.filter_eq_some_iff, decide_eq_true_eq] at h
  obtain ⟨hvalue, hlt⟩ := h
  -- letters are worth ten or more
  split at hvalue
  · next hrange => simpa [Char.isDigit, Char.le_def] using hrange
  · split at hvalue
    · obtain rfl := Option.some.inj hvalue
      omega
    · split at hvalue
      · obtain rfl := Option.some.inj hvalue
        omega
      · simp at hvalue

/-- Digits are read, down from zero for a negative number, if there are only digits and the number is
in the range. -/
theorem readDigits_eq_ok {cs : List Char} {n : Nat} {lo hi v : Int} (negative : Bool) (hlo : lo ≤ 0)
    (hhi : 0 ≤ hi) (hleast : lo ≤ signed negative n) (hmost : signed negative n ≤ hi) :
    readDigits 10 lo hi negative (signed negative n) cs = .ok v ↔
      (∀ c ∈ cs, c.isDigit = true) ∧ v = signed negative (Nat.ofDigitChars 10 cs n) ∧
        lo ≤ v ∧ v ≤ hi := by
  induction cs generalizing n with
  | nil =>
    rw [readDigits, Except.ok.injEq, Nat.ofDigitChars_nil, eq_comm]
    exact ⟨fun h => ⟨by simp, h, h ▸ ⟨hleast, hmost⟩⟩, fun h => h.2.1⟩
  | cons c cs ih =>
    rw [readDigits, Nat.ofDigitChars_cons, List.forall_mem_cons]
    split
    · next hnone =>
      have hdigit : ¬ c.isDigit = true := fun h => by simp [digit?_of_isDigit h] at hnone
      simp [hdigit]
    · next d hd =>
      obtain ⟨hdigit, rfl⟩ := digit?_eq_some.1 hd
      have hle := le_ofDigitChars cs (10 * n + (c.toNat - '0'.toNat))
      simp only [hdigit, true_and, signed_next]
      -- what has been read lies between zero and the number
      have hbetween : lo ≤ signed negative (Nat.ofDigitChars 10 cs (10 * n + (c.toNat - '0'.toNat))) →
          signed negative (Nat.ofDigitChars 10 cs (10 * n + (c.toNat - '0'.toNat))) ≤ hi →
          lo ≤ signed negative (10 * n + (c.toNat - '0'.toNat)) ∧
            signed negative (10 * n + (c.toNat - '0'.toNat)) ≤ hi := by
        cases negative <;> simp only [signed, if_true, Bool.false_eq_true, if_false] <;> omega
      split
      · next hlow =>
        simp only [reduceCtorEq, false_iff, not_and]
        rintro - rfl hleast' hmost'
        exact absurd (hbetween hleast' hmost').1 (Int.not_le.2 hlow)
      · next hlow =>
        split
        · next hhigh =>
          simp only [reduceCtorEq, false_iff, not_and]
          rintro - rfl hleast' hmost'
          exact absurd (hbetween hleast' hmost').2 (Int.not_le.2 hhigh)
        · next hhigh => exact ih (Int.not_lt.1 hlow) (Int.not_lt.1 hhigh)

/-- **Integers of the range are read back from their text.** -/
theorem read_repr {v lo hi : Int} (hlo : lo ≤ v) (hhi : v ≤ hi) (hzero : lo ≤ 0 ∧ 0 ≤ hi) :
    read 10 lo hi v.repr.toList = .ok v := by
  have hdigits (n : Nat) : ∀ c ∈ Nat.toDigits 10 n, c.isDigit = true := fun c hc =>
    Nat.isDigit_of_mem_toDigits (by decide) (by decide) hc
  have hvalue (n : Nat) : Nat.ofDigitChars 10 (Nat.toDigits 10 n) 0 = n :=
    Nat.ofDigitChars_ten_toDigits
  cases v with
  | ofNat n =>
    have hread : readDigits 10 lo hi false 0 (Nat.toDigits 10 n) = .ok (n : Int) :=
      (readDigits_eq_ok (n := 0) false hzero.1 hzero.2 hzero.1 hzero.2).2
        ⟨hdigits n, by rw [hvalue]; rfl, hlo, hhi⟩
    obtain ⟨c, cs, hcs, hfirst⟩ := exists_toDigits n
    simp only [Int.repr, Nat.toList_repr, hcs] at hread ⊢
    rwa [read_of_isDigit hfirst]
  | negSucc n =>
    have hread : readDigits 10 lo hi true 0 (Nat.toDigits 10 (n + 1)) = .ok (Int.negSucc n) :=
      (readDigits_eq_ok (n := 0) true hzero.1 hzero.2 hzero.1 hzero.2).2
        ⟨hdigits (n + 1), by rw [hvalue]; rfl, hlo, hhi⟩
    obtain ⟨c, cs, hcs, -⟩ := exists_toDigits (n + 1)
    have hneg : lo < 0 := by omega
    have htext : (Int.negSucc n).repr.toList = '-' :: c :: cs := by simp [Int.repr, hcs]
    rw [htext, read, if_pos hneg, ← hcs]
    · exact hread
    · simp

/-- The text of an integer has digits only, perhaps after a sign. -/
theorem mem_repr {v : Int} {c : Char} (h : c ∈ v.repr.toList) : c = '-' ∨ c.isDigit = true := by
  have hdigits {n : Nat} (hc : c ∈ Nat.toDigits 10 n) : c.isDigit = true :=
    Nat.isDigit_of_mem_toDigits (by decide) (by decide) hc
  cases v with
  | ofNat n =>
    rw [Int.repr, Nat.toList_repr] at h
    exact .inr (hdigits h)
  | negSucc n =>
    have hcons : c = '-' ∨ c ∈ Nat.toDigits 10 (n + 1) := by simpa [Int.repr] using h
    exact hcons.imp_right hdigits

theorem repr_injective {m n : Nat} (h : m.repr = n.repr) : m = n := by
  have hdigits : Nat.toDigits 10 m = Nat.toDigits 10 n := by
    rw [← Nat.toList_repr, h, Nat.toList_repr]
  rw [← Nat.ofDigitChars_ten_toDigits (n := m), hdigits, Nat.ofDigitChars_ten_toDigits]

end Numeral

end CellCompiler
