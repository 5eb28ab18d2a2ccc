import CellCompiler.Address
import CellCompiler.Proofs.Bag.Accepted
import CellCompiler.Proofs.Literal
import CellCompiler.Proofs.Json.Value

/-!
# Addresses in cells

An address takes 267 bits: a tag, a zero, the workchain and the account (`Address.cellBits`).

* `Address.store_eq_ok` says that it is stored exactly if there is room for them;
* `Address.load_holds` reads it from the front of a slice.
-/

namespace CellCompiler

namespace Bits

/-- Bytes are read back from their bits. -/
theorem toBytes_ofBytes (bytes : List UInt8) : toBytes (ofBytes bytes) = bytes := by
  refine ofBytes_injective ?_
  have hwhole : (8 - (ofBytes bytes).length % 8) % 8 = 0 := by
    rw [Bag.length_ofBytes]
    omega
  rw [ofBytes_toBytes, hwhole, List.replicate_zero, List.append_nil]

end Bits

theorem Builder.storeBytes_eq_ok {b b' : Builder} {bytes : List UInt8} :
    storeBytes bytes b = .ok () b' ↔
      b.Room (Bits.ofBytes bytes).length 0 ∧ b' = b.push (Bits.ofBytes bytes) [] :=
  append_eq_ok

namespace Address

variable {a : Address} {b b' : Builder} {s : Slice} {rest : List Bool} {refs : List Cell}

/-- An address in digits: its tag, a zero, the workchain and the account. -/
def cellBits (a : Address) : List Bool :=
  [true, false, false] ++ Bits.ofInt 8 a.workchain.toInt ++ Bits.ofBytes a.account

theorem length_account_bits (a : Address) : (Bits.ofBytes a.account).length = 256 := by
  rw [Bag.length_ofBytes, a.account_length]

@[simp] theorem length_cellBits (a : Address) : a.cellBits.length = bitLength := by
  simp [cellBits, length_account_bits, bitLength]

theorem fitsSigned_workchain (a : Address) : Bits.fitsSigned a.workchain.toInt 8 = true := by
  have hlow := a.workchain.le_toInt
  have hhigh := a.workchain.toInt_lt
  exact Bits.fitsSigned_succ_iff.2 ⟨by omega, by omega⟩

theorem store_eq_ok : a.store b = .ok () b' ↔
    b.Room bitLength 0 ∧ b' = b.push a.cellBits [] := by
  have htag : Bits.fitsUnsigned 2 2 = true := by decide
  have htagBits : Bits.ofInt 2 2 = [true, false] := by decide
  simp only [store, Builder.andThen_eq_ok, Builder.storeUint_eq_ok, Builder.storeBit_eq_ok,
    Builder.storeInt_eq_ok, Builder.storeBytes_eq_ok, htag, true_and,
    fitsSigned_workchain, htagBits]
  constructor
  · rintro ⟨_, ⟨-, rfl⟩, _, ⟨-, rfl⟩, _, ⟨-, rfl⟩, hroom, rfl⟩
    refine ⟨?_, by simp [cellBits]⟩
    simp only [Builder.Room, Builder.push_push, Builder.bits_push, Builder.refs_push,
      List.length_append, Bits.length_ofInt, length_account_bits, List.length_cons,
      List.length_nil, bitLength] at hroom ⊢
    omega
  · rintro ⟨hroom, rfl⟩
    refine ⟨_, ⟨?_, rfl⟩, _, ⟨?_, rfl⟩, _, ⟨?_, rfl⟩, ?_, by simp [cellBits]⟩ <;>
    · simp only [Builder.Room, Builder.push_push, Builder.bits_push, Builder.refs_push,
        List.length_append, Bits.length_ofInt, length_account_bits, List.length_cons,
        List.length_nil, bitLength] at hroom ⊢
      omega

/-- Every address has a cell. -/
theorem exists_toCell (a : Address) : ∃ cell, a.toCell = .ok cell := by
  have hroom : Builder.empty.Room bitLength 0 := by
    simp [Builder.Room, Builder.empty, bitLength, Cell.maxBits]
  have hbudget : (Builder.empty.push a.cellBits []).Room 0 0 :=
    (Builder.room_append.2 (by simpa using hroom)).2
  exact ⟨_, Builder.buildWith_eq_ok.2
    ⟨_, store_eq_ok.2 ⟨hroom, rfl⟩, Builder.build_eq_ok.2 ⟨hbudget, rfl⟩⟩⟩

theorem ofParts?_eq (a : Address) : ofParts? a.workchain.toInt a.account = some a := by
  simp [ofParts?, a.account_length]

/-- A part of an address that can be read. -/
theorem adapt_bind_ok {α β : Type} {load : Slice.Load α} {f : α → EStateM LoadError Slice β} {x : α}
    {s' : Slice} (h : load s = .ok x s') :
    (EStateM.adaptExcept LoadError.cell load >>= f) s = f x s' := by
  change EStateM.bind (EStateM.adaptExcept LoadError.cell load) f s = _
  simp only [EStateM.bind, EStateM.adaptExcept, h]

/-- An address is read back. -/
theorem load_holds (h : s.Holds (a.cellBits ++ rest) refs) :
    ∃ s', load s = .ok a s' ∧ s'.Holds rest refs := by
  have hbits : a.cellBits ++ rest = [true, false] ++ (false :: (Bits.ofInt 8 a.workchain.toInt ++
      (Bits.ofBytes a.account ++ rest))) := by simp [cellBits]
  rw [hbits] at h
  obtain ⟨s₁, hload₁, hs₁⟩ := Slice.loadUint_holds h (n := 2) rfl
  obtain ⟨s₂, hload₂, hs₂⟩ := Slice.loadBit_holds hs₁
  obtain ⟨s₃, hload₃, hs₃⟩ := Slice.loadInt_holds hs₂ (Bits.length_ofInt 8 _)
  obtain ⟨s₄, hload₄, hs₄⟩ := Slice.loadBits_holds hs₃ (length_account_bits a)
  rw [Bits.toInt_ofInt a.fitsSigned_workchain] at hload₃
  have hload₄' := Slice.load_map (f := Bits.toBytes) hload₄
  rw [Bits.toBytes_ofBytes] at hload₄'
  have haccount : Slice.loadBytes 32 s₃ = .ok a.account s₄ := hload₄'
  refine ⟨s₄, ?_, hs₄⟩
  rw [load, adapt_bind_ok hload₁, adapt_bind_ok hload₂, if_neg (by decide)]
  dsimp only
  rw [adapt_bind_ok hload₃, adapt_bind_ok haccount, ofParts?_eq]
  rfl

end Address

end CellCompiler

/-!
## The text of an address

An address is written as a decimal integer, a colon, and a group of two characters for each byte of
the account.

* `Numeral.Spells` is the grammar of decimal integers, and `Numeral.read_eq_ok` says that they are what
  is read;
* `Hex.Pair` is a byte as two digits in radix sixteen, and `Hex.Group` is what a byte is read from: a
  plus and one digit will do as well (`Hex.decode_eq_ok`);
* `Address.read_accepts` says which texts are read as addresses.
-/

namespace CellCompiler

/-! ### Decimal integers -/

namespace Numeral

/-- A decimal integer: one or more digits, perhaps after a sign. -/
inductive Spells : List Char → Int → Prop
  | plain {digits : List Char} : digits ≠ [] → (∀ c ∈ digits, c.isDigit = true) →
      Spells digits (Nat.ofDigitChars 10 digits 0)
  | plus {digits : List Char} : digits ≠ [] → (∀ c ∈ digits, c.isDigit = true) →
      Spells ('+' :: digits) (Nat.ofDigitChars 10 digits 0)
  | minus {digits : List Char} : digits ≠ [] → (∀ c ∈ digits, c.isDigit = true) →
      Spells ('-' :: digits) (-Nat.ofDigitChars 10 digits 0)

variable {text : List Char} {v lo hi : Int}

/-- **What is read is a decimal integer of the range.** -/
theorem read_eq_ok (hlo : lo < 0) (hhi : 0 ≤ hi) :
    read 10 lo hi text = .ok v ↔ Spells text v ∧ lo ≤ v ∧ v ≤ hi := by
  have hdigits : ∀ (negative : Bool) (digits : List Char), readDigits 10 lo hi negative 0 digits = .ok v ↔
      (∀ c ∈ digits, c.isDigit = true) ∧ v = signed negative (Nat.ofDigitChars 10 digits 0) ∧
        lo ≤ v ∧ v ≤ hi := fun negative digits => by
    have hzero : signed negative 0 = 0 := by cases negative <;> rfl
    have hread : readDigits 10 lo hi negative (signed negative 0) digits = .ok v ↔ _ :=
      readDigits_eq_ok negative (Int.le_of_lt hlo) hhi (by omega) (by omega)
    rwa [hzero] at hread
  constructor
  · intro h
    unfold read at h
    split at h
    · simp at h
    · simp at h
    · simp at h
    · next digits hne =>
      obtain ⟨hall, rfl, hrange⟩ := (hdigits _ _).1 h
      exact ⟨.plus (by rintro rfl; exact hne rfl) hall, hrange⟩
    · next digits hne =>
      rw [if_pos hlo] at h
      obtain ⟨hall, rfl, hrange⟩ := (hdigits _ _).1 h
      exact ⟨.minus (by rintro rfl; exact hne rfl) hall, hrange⟩
    · next hne _ _ _ _ =>
      obtain ⟨hall, rfl, hrange⟩ := (hdigits _ _).1 h
      exact ⟨.plain (by rintro rfl; exact hne rfl) hall, hrange⟩
  · rintro ⟨hspells, hrange⟩
    cases hspells with
    | plain hne hall =>
      obtain ⟨c, cs, rfl⟩ := List.exists_cons_of_ne_nil hne
      rw [read_of_isDigit (hall c List.mem_cons_self)]
      exact (hdigits _ _).2 ⟨hall, rfl, hrange⟩
    | plus hne hall =>
      obtain ⟨c, cs, rfl⟩ := List.exists_cons_of_ne_nil hne
      exact (hdigits _ _).2 ⟨hall, rfl, hrange⟩
    | minus hne hall =>
      obtain ⟨c, cs, rfl⟩ := List.exists_cons_of_ne_nil hne
      rw [read, if_pos hlo]
      · exact (hdigits _ _).2 ⟨hall, rfl, hrange⟩
      · simp

theorem Spells.colon_not_mem (h : Spells text v) : ':' ∉ text := by
  have hdigit : ∀ digits : List Char, (∀ c ∈ digits, c.isDigit = true) → ':' ∉ digits :=
    fun _ hall hmem => absurd (hall ':' hmem) (by decide)
  cases h with
  | plain _ hall => exact hdigit _ hall
  | plus _ hall | minus _ hall => simpa using hdigit _ hall

end Numeral

/-! ### Bytes in radix sixteen -/

namespace Hex

/-- The character is the digit of a value below sixteen, as a small or a capital letter from ten on. -/
def Denotes (c : Char) (v : Nat) : Prop :=
  "0123456789abcdef".toList[v]? = some c ∨ "0123456789ABCDEF".toList[v]? = some c

instance (c : Char) (v : Nat) : Decidable (Denotes c v) := inferInstanceAs (Decidable (_ ∨ _))

/-- The two digits of a byte. -/
inductive Pair (b : UInt8) : List Char → Prop
  | digits {high low : Char} {m n : Nat} : Denotes high m → Denotes low n → b.toNat = 16 * m + n →
      Pair b [high, low]

/-- What a byte is read from: its two digits, or a plus and one digit. -/
inductive Group (b : UInt8) : List Char → Prop
  | pair {cs : List Char} : Pair b cs → Group b cs
  | plus {low : Char} : Denotes low b.toNat → Group b ['+', low]

variable {c c' : Char} {v : Nat} {b : UInt8} {bytes bs : List UInt8} {cs : List Char}

theorem Denotes.lt (h : Denotes c v) : v < 16 := by
  rcases h with h | h <;> exact (List.getElem?_eq_some_iff.1 h).1

/-- Digits are ASCII characters and no signs. -/
theorem Denotes.ascii (h : Denotes c v) : c.toNat ≤ 127 ∧ c ≠ '+' ∧ c ≠ '-' := by
  have hall : ∀ c ∈ "0123456789abcdef".toList ++ "0123456789ABCDEF".toList,
      c.toNat ≤ 127 ∧ c ≠ '+' ∧ c ≠ '-' := by simp
  rcases h with h | h
  · exact hall c (List.mem_append_left _ (List.mem_of_getElem? h))
  · exact hall c (List.mem_append_right _ (List.mem_of_getElem? h))

theorem digit?_eq_some : Numeral.digit? 16 c = some v ↔ Denotes c v := by
  constructor
  · have hascii : ∀ n < 128, ∀ v ∈ Numeral.digit? 16 (Char.ofNat n), Denotes (Char.ofNat n) v := by
      decide +kernel
    intro h
    suffices hlt : c.toNat < 128 by
      have hdenotes := hascii c.toNat hlt v
      rw [Char.ofNat_toNat] at hdenotes
      exact hdenotes h
    simp only [Numeral.digit?, Option.filter_eq_some_iff] at h
    obtain ⟨hvalue, -⟩ := h
    have hle : ∀ d : Char, d.toNat < 128 → c ≤ d → c.toNat < 128 := fun d hd hcd =>
      Nat.lt_of_le_of_lt (UInt32.le_iff_toNat_le.1 hcd) hd
    split at hvalue
    · next hrange => exact hle '9' (by decide) hrange.2
    · split at hvalue
      · next hrange => exact hle 'z' (by decide) hrange.2
      · split at hvalue
        · next hrange => exact hle 'Z' (by decide) hrange.2
        · simp at hvalue
  · have hsmall : ∀ v < 16, "0123456789abcdef".toList[v]?.bind (Numeral.digit? 16) = some v := by decide
    have hcapital : ∀ v < 16, "0123456789ABCDEF".toList[v]?.bind (Numeral.digit? 16) = some v := by decide
    intro h
    have hlt := h.lt
    rcases h with h | h
    · rw [← hsmall v hlt, h, Option.bind_some]
    · rw [← hcapital v hlt, h, Option.bind_some]

/-- One more digit is read. -/
theorem readDigits_cons {n : Nat} {v : Int}
    (h : Numeral.readDigits 16 0 255 false n (c :: cs) = .ok v) :
    ∃ d, Denotes c d ∧ Numeral.readDigits 16 0 255 false ((16 * n + d : Nat) : Int) cs = .ok v := by
  rw [Numeral.readDigits] at h
  split at h
  · simp at h
  · next d hd =>
    have hnext : (n : Int) * (16 : Nat) + d = (16 * n + d : Nat) := by
      push_cast
      omega
    simp only [Bool.false_eq_true, if_false, hnext] at h
    refine ⟨d, digit?_eq_some.1 hd, ?_⟩
    split at h
    · simp at h
    · split at h
      · simp at h
      · exact h

/-- A byte is read from its two digits, or from a plus and one digit. -/
theorem read_eq_ok {v : Int} : Numeral.read 16 0 255 [c, c'] = .ok v ↔
    ∃ b : UInt8, v = (b.toNat : Int) ∧ Group b [c, c'] := by
  constructor
  · intro h
    unfold Numeral.read at h
    split at h
    · simp at h
    · simp at h
    · simp at h
    · next digits hne heq =>
      obtain ⟨rfl, rfl⟩ : c = '+' ∧ [c'] = digits := by simpa using heq
      obtain ⟨n, hn, hv⟩ := readDigits_cons (n := 0) h
      obtain rfl : (n : Int) = v := by simpa [Numeral.readDigits] using hv
      have hlt := hn.lt
      have hbyte : (UInt8.ofNat n).toNat = n := by
        rw [UInt8.toNat_ofNat', Nat.mod_eq_of_lt (by omega)]
      exact ⟨UInt8.ofNat n, by rw [hbyte], .plus (hbyte.symm ▸ hn)⟩
    · simp at h
    · obtain ⟨m, hm, h⟩ := readDigits_cons (n := 0) h
      obtain ⟨n, hn, hv⟩ := readDigits_cons h
      have hlt := hm.lt
      have hlt' := hn.lt
      obtain rfl : ((16 * m + n : Nat) : Int) = v := by simpa [Numeral.readDigits] using hv
      have hbyte : (UInt8.ofNat (16 * m + n)).toNat = 16 * m + n := by
        rw [UInt8.toNat_ofNat', Nat.mod_eq_of_lt (by omega)]
      exact ⟨UInt8.ofNat (16 * m + n), by rw [hbyte], .pair (.digits hm hn hbyte)⟩
  · rintro ⟨b, rfl, hgroup⟩
    cases hgroup with
    | pair hpair =>
      cases hpair with
      | digits hhigh hlow hb =>
        rw [read_pair (digit?_eq_some.2 hhigh) (digit?_eq_some.2 hlow) hhigh.ascii.2.1 hhigh.ascii.2.2
          hhigh.lt hlow.lt, hb]
    | plus hlow =>
      have hlt := hlow.lt
      have hrange : ¬ ((b.toNat : Int) < 0) ∧ ¬ (255 < (b.toNat : Int)) := by omega
      simp [Numeral.read, Numeral.readDigits, digit?_eq_some.2 hlow, hrange]

/-- A group has two characters. -/
theorem Group.exists_eq (h : Group b cs) : ∃ c c', cs = [c, c'] ∧ c.toNat ≤ 127 ∧ c'.toNat ≤ 127 := by
  cases h with
  | pair hpair =>
    cases hpair with
    | digits hhigh hlow => exact ⟨_, _, rfl, hhigh.ascii.1, hlow.ascii.1⟩
  | plus hlow => exact ⟨_, _, rfl, by decide, hlow.ascii.1⟩

variable {groups : List (List Char)}

theorem ascii_of_groups (h : List.Forall₂ Group bytes groups) : ∀ c ∈ groups.flatten, c.toNat ≤ 127 := by
  induction h with
  | nil => simp
  | cons hgroup _ ih =>
    obtain ⟨c, c', rfl, hc, hc'⟩ := hgroup.exists_eq
    simpa [hc, hc'] using ih

/-- The byte of an ASCII character. -/
def ofChar (c : Char) : UInt8 := UInt8.ofNat c.toNat

theorem decode_groups (h : List.Forall₂ Group bytes groups) :
    decode (groups.flatten.map ofChar) = .ok bytes ∧
      (groups.flatten.map ofChar).length = 2 * bytes.length := by
  induction h with
  | nil => exact ⟨rfl, rfl⟩
  | @cons b cs bytes groups hgroup _ ih =>
    obtain ⟨c, c', rfl, hc, hc'⟩ := hgroup.exists_eq
    have hread := read_eq_ok.2 ⟨b, rfl, hgroup⟩
    have hfirst : Char.ofNat (ofChar c).toNat = c := ofNat_ofNat_toNat hc
    have hsecond : Char.ofNat (ofChar c').toNat = c' := ofNat_ofNat_toNat hc'
    simp only [List.flatten_cons, List.cons_append, List.nil_append, List.map_cons, decode, hfirst,
      hsecond, hread, ih.1, List.length_cons, ih.2]
    refine ⟨?_, by omega⟩
    rw [Except.ok_bind, Except.ok_bind, Int.toNat_natCast, UInt8.ofNat_toNat]
    rfl

theorem exists_groups : {bs bytes : List UInt8} → decode bs = .ok bytes → bs.length = 2 * bytes.length →
    ∃ groups, bs = groups.flatten.map ofChar ∧ List.Forall₂ Group bytes groups
  | [], bytes, h, _ => by
    obtain rfl : [] = bytes := Except.ok.inj h
    exact ⟨[], rfl, .nil⟩
  | [_], bytes, h, hlength => by
    obtain rfl : [] = bytes := Except.ok.inj h
    simp at hlength
  | x :: y :: rest, bytes, h, hlength => by
    simp only [decode, Except.bind_eq_ok, Except.pure_eq_ok] at h
    obtain ⟨value, hread, tail, htail, rfl⟩ := h
    obtain ⟨b, rfl, hgroup⟩ := read_eq_ok.1 hread
    obtain ⟨groups, rfl, hgroups⟩ := exists_groups htail (by simp at hlength; omega)
    have hback : ∀ x : UInt8, ofChar (Char.ofNat x.toNat) = x := fun x => by
      have hvalid : ∀ n < 256, (Char.ofNat n).toNat = n := by decide +kernel
      rw [ofChar, hvalid _ x.toNat_lt, UInt8.ofNat_toNat]
    refine ⟨_ :: groups, ?_, .cons (by simpa using hgroup) hgroups⟩
    simp [hback]

/-- **What is read as bytes is one group for each of them.** -/
theorem decode_eq_ok : decode (utf8 (String.ofList cs)) = .ok bytes ∧
    (utf8 (String.ofList cs)).length = 2 * bytes.length ↔
      ∃ groups, cs = groups.flatten ∧ List.Forall₂ Group bytes groups := by
  constructor
  · rintro ⟨hdecode, hlength⟩
    obtain ⟨groups, htext, hgroups⟩ := exists_groups hdecode hlength
    refine ⟨groups, ?_, hgroups⟩
    have hbytes : utf8 (String.ofList cs) = utf8 (String.ofList groups.flatten) :=
      htext.trans (utf8_ofList (ascii_of_groups hgroups)).symm
    exact String.ofList_injective (utf8_injective hbytes)
  · rintro ⟨groups, rfl, hgroups⟩
    rw [utf8_ofList (ascii_of_groups hgroups)]
    exact decode_groups hgroups

/-- A group without a plus is two digits. -/
theorem pair_iff : Pair b cs ↔ Group b cs ∧ '+' ∉ cs := by
  constructor
  · intro h
    refine ⟨.pair h, ?_⟩
    cases h with
    | digits hhigh hlow => simpa using ⟨hhigh.ascii.2.1.symm, hlow.ascii.2.1.symm⟩
  · rintro ⟨h, hplus⟩
    cases h with
    | pair hpair => exact hpair
    | plus => simp at hplus

theorem pairs_iff : List.Forall₂ Pair bytes groups ↔
    List.Forall₂ Group bytes groups ∧ '+' ∉ groups.flatten := by
  induction bytes generalizing groups with
  | nil => simpa using fun h => by simp [h]
  | cons b bytes ih =>
    cases groups with
    | nil => simp
    | cons cs groups =>
      simp only [List.forall₂_cons, pair_iff, ih, List.flatten_cons, List.mem_append, not_or]
      exact and_and_and_comm

end Hex

/-! ### Addresses -/

namespace Address

/-- The text is a decimal integer, a colon and a group of characters for each byte of the account. -/
def Spelled (group : UInt8 → List Char → Prop) (text : String) (a : Address) : Prop :=
  ∃ workchain groups, text.toList = workchain ++ ':' :: groups.flatten ∧
    Numeral.Spells workchain a.workchain.toInt ∧ List.Forall₂ group a.account groups

variable {text : String} {a : Address}

theorem ne_colon {cs : List Char} (h : ':' ∉ cs) : ∀ c ∈ cs, (c != ':') = true := by
  intro c hc
  rw [bne_iff_ne]
  rintro rfl
  exact h hc

/-- The two sides of the first colon. -/
theorem read_eq_readParts {workchain account : List Char}
    (htext : text.toList = workchain ++ ':' :: account) (hcolon : ':' ∉ workchain) :
    read text = readParts workchain account := by
  have hne := ne_colon hcolon
  rw [read, htext, List.span_eq_takeWhile_dropWhile, List.takeWhile_append_of_pos hne,
    List.dropWhile_append_of_pos hne]
  simp

/-- A text that is read has a colon in it. -/
theorem exists_parts_of_read (h : read text = .ok a) :
    ∃ workchain account, text.toList = workchain ++ ':' :: account ∧ ':' ∉ workchain := by
  have hsplit := List.takeWhile_append_dropWhile (p := (· != ':')) (l := text.toList)
  rw [read, List.span_eq_takeWhile_dropWhile] at h
  split at h
  · next workchain c account heq =>
    obtain ⟨rfl, hrest⟩ := Prod.mk.inj heq
    have hcolon : (c != ':') = false := by
      have hhead := List.head?_dropWhile_not (p := (· != ':')) text.toList
      simpa [hrest] using hhead
    obtain rfl : c = ':' := by simpa using hcolon
    refine ⟨_, account, hrest ▸ hsplit.symm, fun hmem => ?_⟩
    simpa using List.all_eq_true.1 List.all_takeWhile _ hmem
  · simp at h

/-- The parts that are read, and what they are read as. -/
theorem readParts_eq_ok {workchain account : List Char} : readParts workchain account = .ok a ↔
    Numeral.Spells workchain a.workchain.toInt ∧
      ∃ groups, account = groups.flatten ∧ List.Forall₂ Hex.Group a.account groups := by
  rw [← Hex.decode_eq_ok, a.account_length, readParts]
  have hlow := a.workchain.le_toInt
  have hhigh := a.workchain.toInt_lt
  constructor
  · intro h
    split at h
    · simp at h
    · next wc hwc =>
      obtain ⟨hspells, hrange⟩ := (Numeral.read_eq_ok (by decide) (by decide)).1 hwc
      dsimp only at h
      split at h
      · simp at h
      · next hlength =>
        split at h
        · simp at h
        · next bytes hbytes =>
          split at h
          · next found hfound =>
            obtain rfl := Except.ok.inj h
            simp only [ofParts?, Option.dite_none_right_eq_some, Option.some.injEq] at hfound
            obtain ⟨hcount, rfl⟩ := hfound
            refine ⟨?_, hbytes, by simpa using hlength⟩
            rwa [Int8.toInt_ofInt_of_le (by simpa using hrange.1) (by simpa using Int.lt_add_one_of_le hrange.2)]
          · simp at h
  · rintro ⟨hspells, hdecode, hlength⟩
    have hwc : Numeral.read 10 (-128) 127 workchain = .ok a.workchain.toInt :=
      (Numeral.read_eq_ok (by decide) (by decide)).2 ⟨hspells, hlow, Int.le_of_lt_add_one hhigh⟩
    simp [hwc, hdecode, hlength, ofParts?_eq]

theorem read_eq_ok : read text = .ok a ↔ a.Spelled Hex.Group text := by
  constructor
  · intro h
    obtain ⟨workchain, account, htext, hcolon⟩ := exists_parts_of_read h
    rw [read_eq_readParts htext hcolon] at h
    obtain ⟨hspells, groups, rfl, hgroups⟩ := readParts_eq_ok.1 h
    exact ⟨workchain, groups, htext, hspells, hgroups⟩
  · rintro ⟨workchain, groups, htext, hspells, hgroups⟩
    rw [read_eq_readParts htext hspells.colon_not_mem]
    exact readParts_eq_ok.2 ⟨hspells, groups, rfl, hgroups⟩

/-- The texts of sixty-four digits are those that are read and have no plus after the colon. -/
theorem spelled_pair_iff : a.Spelled Hex.Pair text ↔
    read text = .ok a ∧ '+' ∉ text.toList.dropWhile (· != ':') := by
  have hrest : ∀ {workchain account : List Char}, text.toList = workchain ++ ':' :: account →
      Numeral.Spells workchain a.workchain.toInt → text.toList.dropWhile (· != ':') = ':' :: account := by
    intro workchain account htext hspells
    rw [htext, List.dropWhile_append_of_pos (ne_colon hspells.colon_not_mem)]
    rfl
  rw [read_eq_ok]
  constructor
  · rintro ⟨workchain, groups, htext, hspells, hpairs⟩
    obtain ⟨hgroups, hplus⟩ := Hex.pairs_iff.1 hpairs
    refine ⟨⟨workchain, groups, htext, hspells, hgroups⟩, ?_⟩
    simpa [hrest htext hspells] using hplus
  · rintro ⟨⟨workchain, groups, htext, hspells, hgroups⟩, hplus⟩
    refine ⟨workchain, groups, htext, hspells, Hex.pairs_iff.2 ⟨hgroups, ?_⟩⟩
    simpa [hrest htext hspells] using hplus

/-- **Which texts are addresses.** What is read is a decimal integer, a colon and for each byte of the
account two digits, or a plus and one digit. Without a plus after the colon these are just the texts of
sixty-four digits, and the text that an address is written as is among them. -/
theorem read_accepts (text : String) (a : Address) :
    (read text = .ok a ↔ a.Spelled Hex.Group text) ∧
      (a.Spelled Hex.Pair text ↔ read text = .ok a ∧ '+' ∉ text.toList.dropWhile (· != ':')) ∧
      read a.text = .ok a :=
  ⟨read_eq_ok, spelled_pair_iff, read_text a⟩

/-- An account that is written with a plus for the first digit of its first byte. -/
def signedText : String := "0:+f" ++ String.ofList (List.replicate 62 '0')

/-- **A sign passes for a digit.** The text is read as an address, although its account is not written in
sixty-four digits. -/
theorem signedText_read : (∃ a, read signedText = .ok a ∧ a.account = 15 :: List.replicate 31 0) ∧
    ∀ a : Address, ¬ a.Spelled Hex.Pair signedText := by
  refine ⟨?_, fun a ha => (spelled_pair_iff.1 ha).2 (by decide +kernel)⟩
  have hread : (read signedText).toOption.any (fun a => a.account = 15 :: List.replicate 31 0) = true := by
    decide +kernel
  obtain ⟨a, ha, haccount⟩ := Except.exists_of_toOption_any hread
  exact ⟨a, ha, by simpa using haccount⟩

end Address

end CellCompiler
