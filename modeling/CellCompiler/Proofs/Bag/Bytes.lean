import CellCompiler.Numeral
import CellCompiler.Proofs.Bits

/-!
# Bytes and their digits

* `Bits.ofBytes_toBytes` reads bits back from bytes, with the zeros that fill up the last one;
* `Bits.ofBigEndian_bigEndian` reads a number back from its bytes;
* `Hex.decode_encodeUpper` and `Hex.decode_encode` read bytes back from hexadecimal text in capital
  and in small digits, and `Hex.encode_injective` says that different bytes are different text.
-/

namespace CellCompiler

namespace Bits

/-! ### Bits in bytes -/

/-- Digits depend on the number modulo a power of two only. -/
theorem ofNat_congr {w m n : Nat} (h : m % 2 ^ w = n % 2 ^ w) : ofNat w m = ofNat w n := by
  induction w with
  | zero => rfl
  | succ w ih =>
    have hlow : m % 2 ^ w = n % 2 ^ w := by
      have hmod := congrArg (· % 2 ^ w) h
      simpa [Nat.pow_succ, Nat.mod_mul_right_mod] using hmod
    have hbit : m.testBit w = n.testBit w := by
      have htest := congrArg (Nat.testBit · w) h
      simpa [Nat.testBit_mod_two_pow] using htest
    rw [ofNat, ofNat, hbit, ih hlow]

/-- A bit string is read back from the number that it spells. -/
theorem ofNat_toNat (bits : List Bool) : ofNat bits.length (toNat bits) = bits := by
  induction bits with
  | nil => rfl
  | cons b bits ih =>
    rw [List.length_cons, ofNat, toNat_cons, Nat.mul_comm]
    congr 1
    · rw [Nat.testBit_two_pow_mul_add _ (toNat_lt bits)]
      cases b <;> simp
    · rw [ofNat_congr (n := toNat bits) (by simp), ih]

theorem ofByte_byte {bits : List Bool} (h : bits.length ≤ 8) :
    ofByte (byte bits) = bits ++ List.replicate (8 - bits.length) false := by
  generalize hfull : bits ++ List.replicate (8 - bits.length) false = full
  have hlength : full.length = 8 := by
    rw [← hfull, List.length_append, List.length_replicate]
    omega
  have hlt : toNat full < 2 ^ 8 := hlength ▸ toNat_lt full
  rw [byte, hfull, ofByte, UInt8.toNat_ofNat', Nat.mod_eq_of_lt hlt, ← hlength, ofNat_toNat]

theorem length_toBytes : (bits : List Bool) → (toBytes bits).length = (bits.length + 7) / 8
  | _ :: _ :: _ :: _ :: _ :: _ :: _ :: _ :: rest => by
    simp only [toBytes, List.length_cons, length_toBytes rest]
    omega
  | [] | [_] | [_, _] | [_, _, _] | [_, _, _, _] | [_, _, _, _, _] | [_, _, _, _, _, _]
  | [_, _, _, _, _, _, _] => by simp [toBytes]

/-- Bits are read back from their bytes, with zeros up to the end of the last byte. -/
theorem ofBytes_toBytes : (bits : List Bool) →
    ofBytes (toBytes bits) = bits ++ List.replicate ((8 - bits.length % 8) % 8) false
  | b7 :: b6 :: b5 :: b4 :: b3 :: b2 :: b1 :: b0 :: rest => by
    have hfirst := @ofByte_byte [b7, b6, b5, b4, b3, b2, b1, b0] (by simp)
    have hrest := ofBytes_toBytes rest
    rw [ofBytes] at hrest
    simp only [toBytes, ofBytes, List.flatMap_cons, hfirst, hrest]
    simp
    omega
  | [] => rfl
  | [_] | [_, _] | [_, _, _] | [_, _, _, _] | [_, _, _, _, _] | [_, _, _, _, _, _]
  | [_, _, _, _, _, _, _] => by
    simp [toBytes, ofBytes, ofByte_byte]

/-! ### Numbers in bytes -/

theorem ofBigEndian_cons (b : UInt8) (bytes : List UInt8) :
    ofBigEndian (b :: bytes) = b.toNat * 256 ^ bytes.length + ofBigEndian bytes := by
  have hfold : ∀ (bytes : List UInt8) (acc : Nat), bytes.foldl (fun acc b => 256 * acc + b.toNat) acc =
      acc * 256 ^ bytes.length + ofBigEndian bytes := by
    intro bytes
    induction bytes with
    | nil => simp [ofBigEndian]
    | cons b bytes ih =>
      intro acc
      rw [ofBigEndian, List.foldl_cons, List.foldl_cons, ih, ih (256 * 0 + b.toNat),
        List.length_cons, Nat.pow_succ]
      ring
  rw [ofBigEndian, List.foldl_cons, hfold]
  simp

/-- A number is read back from its low bytes, up to what these leave out. -/
theorem ofBigEndian_bigEndian_mod (w n : Nat) : ofBigEndian (bigEndian w n) = n % 256 ^ w := by
  induction w with
  | zero => simp [bigEndian, ofBigEndian, Nat.mod_one]
  | succ w ih =>
    have hpow : 2 ^ (8 * w) = 256 ^ w := by rw [Nat.pow_mul]
    rw [bigEndian, ofBigEndian_cons, length_bigEndian, ih, Nat.pow_succ, Nat.mod_mul,
      UInt8.toNat_ofNat', Nat.shiftRight_eq_div_pow, hpow]
    ring

theorem ofBigEndian_bigEndian {w n : Nat} (h : n < 256 ^ w) : ofBigEndian (bigEndian w n) = n := by
  rw [ofBigEndian_bigEndian_mod, Nat.mod_eq_of_lt h]

end Bits

/-! ### Hexadecimal text -/

/-- The bytes of a text of ASCII characters. -/
theorem utf8_ofList {cs : List Char} (h : ∀ c ∈ cs, c.toNat ≤ 127) :
    utf8 (String.ofList cs) = cs.map fun c => UInt8.ofNat c.toNat := by
  have hencode : cs.flatMap String.utf8EncodeChar = cs.map fun c => UInt8.ofNat c.toNat := by
    induction cs with
    | nil => rfl
    | cons c cs ih =>
      rw [List.forall_mem_cons] at h
      have hc : String.utf8EncodeChar c = [UInt8.ofNat c.toNat] := if_pos h.1
      rw [List.flatMap_cons, hc, ih h.2, List.map_cons, List.singleton_append]
  rw [utf8, String.toUTF8, String.toByteArray_ofList, List.utf8Encode, hencode, List.data_toByteArray]

namespace Hex

/-- The way in which digits are spelled can be read. -/
def Readable (spell : Nat → Char) : Prop := ∀ n < 16, Numeral.digit? 16 (spell n) = some n ∧
  spell n ≠ '+' ∧ spell n ≠ '-' ∧ (spell n).toNat ≤ 127

theorem readable_digit : Readable digit := by
  unfold Readable
  decide

theorem readable_upperDigit : Readable fun n => upperDigit (digit n) := by
  unfold Readable
  decide

/-- Two digits are read. -/
theorem read_pair {c c' : Char} {m n : Nat} (hc : Numeral.digit? 16 c = some m)
    (hc' : Numeral.digit? 16 c' = some n) (hplus : c ≠ '+') (hminus : c ≠ '-') (hm : m < 16)
    (hn : n < 16) : Numeral.read 16 0 255 [c, c'] = .ok ((16 * m + n : Nat) : Int) := by
  have hread : Numeral.read 16 0 255 [c, c'] = Numeral.readDigits 16 0 255 false 0 [c, c'] := by
    unfold Numeral.read
    split <;> simp_all
  have hfirst : ¬ ((m : Int) < 0) ∧ ¬ (255 < (m : Int)) := by omega
  have hsecond : ¬ ((m : Int) * 16 + n < 0) ∧ ¬ (255 < (m : Int) * 16 + n) := by omega
  simp [hread, Numeral.readDigits, hc, hc', hfirst, hsecond, Int.mul_comm]

theorem read_digits {spell : Nat → Char} (hspell : Readable spell) {m n : Nat} (hm : m < 16)
    (hn : n < 16) :
    Numeral.read 16 0 255 [spell m, spell n] = .ok ((16 * m + n : Nat) : Int) := by
  obtain ⟨hdigit, hplus, hminus, -⟩ := hspell m hm
  exact read_pair hdigit (hspell n hn).1 hplus hminus hm hn

/-- A character is read back from its byte. -/
theorem ofNat_ofNat_toNat {c : Char} (h : c.toNat ≤ 127) :
    Char.ofNat (UInt8.ofNat c.toNat).toNat = c := by
  rw [UInt8.toNat_ofNat', Nat.mod_eq_of_lt (by omega), Char.ofNat_toNat]

theorem digits_lt (b : UInt8) : b.toNat / 16 < 16 ∧ b.toNat % 16 < 16 := by
  have hlt := b.toNat_lt
  omega

/-- Bytes are read back from their digits, however these are spelled. -/
theorem decode_spelled {spell : Nat → Char} (hspell : Readable spell) (bytes : List UInt8) :
    let text := bytes.flatMap fun b => [spell (b.toNat / 16), spell (b.toNat % 16)]
    decode (utf8 (String.ofList text)) = .ok bytes ∧
      (utf8 (String.ofList text)).length = 2 * bytes.length := by
  have hascii : ∀ c ∈ bytes.flatMap fun b => [spell (b.toNat / 16), spell (b.toNat % 16)],
      c.toNat ≤ 127 := by
    simp only [List.mem_flatMap]
    rintro c ⟨b, -, hc⟩
    rcases List.mem_pair.1 hc with rfl | rfl
    · exact (hspell _ (digits_lt b).1).2.2.2
    · exact (hspell _ (digits_lt b).2).2.2.2
  intro text
  rw [utf8_ofList hascii]
  clear hascii
  induction bytes with
  | nil => exact ⟨rfl, rfl⟩
  | cons b bytes ih =>
    have hread := read_digits hspell (digits_lt b).1 (digits_lt b).2
    rw [Nat.div_add_mod] at hread
    have hhigh := ofNat_ofNat_toNat (hspell _ (digits_lt b).1).2.2.2
    have hlow := ofNat_ofNat_toNat (hspell _ (digits_lt b).2).2.2.2
    simp only [List.flatMap_cons, List.map_cons, List.cons_append, List.nil_append, decode,
      hhigh, hlow, hread, ih.1, List.length_cons, ih.2]
    refine ⟨?_, by omega⟩
    change Except.ok (UInt8.ofNat ((b.toNat : Int).toNat) :: bytes) = _
    rw [Int.toNat_natCast, UInt8.ofNat_toNat]

/-- Bytes are read back from their capital digits. -/
theorem decode_encodeUpper (bytes : List UInt8) :
    decode (utf8 (encodeUpper bytes)) = .ok bytes ∧
      (utf8 (encodeUpper bytes)).length = 2 * bytes.length := by
  have hspelled := decode_spelled readable_upperDigit bytes
  rwa [encodeUpper, List.map_flatMap]

/-- Bytes are read back from their small digits. -/
theorem decode_encode (bytes : List UInt8) :
    decode (utf8 (encode bytes)) = .ok bytes ∧
      (utf8 (encode bytes)).length = 2 * bytes.length :=
  decode_spelled readable_digit bytes

/-! ### Lower-case text -/

theorem digit_ne_mark : ∀ n < 16, digit n ≠ '$' := by decide

theorem digit_injective : ∀ m < 16, ∀ n < 16, digit m = digit n → m = n := by decide

theorem byte_injective : Function.Injective byte := by
  intro a b h
  simp only [byte, List.cons.injEq, and_true] at h
  have hhigh := digit_injective _ (digits_lt a).1 _ (digits_lt b).1 h.1
  have hlow := digit_injective _ (digits_lt a).2 _ (digits_lt b).2 h.2
  rw [← UInt8.toNat_inj, ← Nat.div_add_mod a.toNat 16, hhigh, hlow, Nat.div_add_mod]

theorem length_encode (bytes : List UInt8) : (encode bytes).toList.length = 2 * bytes.length := by
  induction bytes with
  | nil => rfl
  | cons b bytes ih =>
    simp only [encode, String.toList_ofList] at ih
    simp only [encode, String.toList_ofList, List.flatMap_cons, List.length_append, ih, byte,
      List.length_cons, List.length_nil]
    omega

theorem encode_injective : Function.Injective encode := by
  intro as bs h
  have hlists : as.flatMap byte = bs.flatMap byte := String.ofList_injective h
  clear h
  induction as generalizing bs with
  | nil =>
    cases bs with
    | nil => rfl
    | cons b bs => simp [byte] at hlists
  | cons a as ih =>
    cases bs with
    | nil => simp [byte] at hlists
    | cons b bs =>
      rw [List.flatMap_cons, List.flatMap_cons] at hlists
      obtain ⟨hfirst, hrest⟩ := List.append_inj hlists (by simp [byte])
      rw [byte_injective hfirst, ih hrest]

theorem mark_not_mem_encode (bytes : List UInt8) : '$' ∉ (encode bytes).toList := by
  simp only [encode, String.toList_ofList, List.mem_flatMap, byte, not_exists, not_and]
  intro b _ hmark
  rcases List.mem_pair.1 hmark with h | h
  · exact digit_ne_mark _ (digits_lt b).1 h.symm
  · exact digit_ne_mark _ (digits_lt b).2 h.symm

end Hex

end CellCompiler
