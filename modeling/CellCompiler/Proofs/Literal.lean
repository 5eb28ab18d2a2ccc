import CellCompiler.Literal
import CellCompiler.Proofs.Bag.Bytes
import CellCompiler.Proofs.Cell

/-!
# Cells of texts

A text is stored as the bytes that fit and a chain of cells for the others. The bytes can be taken
from the cells again, so that different texts have different cells.

* `Builder.storeStringTail_eq_ok` says what a stored text adds to a builder;
* `Builder.stored_injective` says that the same addition to the same builder is the same text;
* `stringCell_injective` and `commentCell_injective` say so of whole cells.
-/

namespace CellCompiler

namespace Bits

theorem ofByte_injective : Function.Injective ofByte := by
  intro a b h
  have hnat := congrArg toNat h
  rw [ofByte, ofByte, toNat_ofNat, toNat_ofNat, Nat.mod_eq_of_lt a.toNat_lt,
    Nat.mod_eq_of_lt b.toNat_lt] at hnat
  exact UInt8.toNat_inj.1 hnat

theorem ofBytes_injective : Function.Injective ofBytes := by
  intro as
  induction as with
  | nil =>
    intro bs h
    cases bs with
    | nil => rfl
    | cons b bs => simp [ofBytes, ofByte, ofNat] at h
  | cons a as ih =>
    intro bs h
    cases bs with
    | nil => simp [ofBytes, ofByte, ofNat] at h
    | cons b bs =>
      rw [ofBytes, ofBytes, List.flatMap_cons, List.flatMap_cons] at h
      obtain ⟨hfirst, hrest⟩ := List.append_inj h (by simp [ofByte])
      rw [ofByte_injective hfirst, ih hrest]

end Bits

theorem utf8_injective : Function.Injective utf8 := by
  intro s t h
  have harray : s.toByteArray.data = t.toByteArray.data := Array.toList_inj.1 h
  exact String.toByteArray_inj.1 (ByteArray.ext harray)

namespace Builder

variable {b b' : Builder} {as bs bytes : List UInt8}

/-- The bytes of a chain can be read off it, however long it was allowed to be. -/
theorem tailChain_injective {m n : Nat} (h : tailChain m as = tailChain n bs) : as = bs := by
  induction m generalizing n as bs with
  | zero =>
    cases n with
    | zero => exact Bits.ofBytes_injective (by simpa [tailChain] using h)
    | succ n =>
      by_cases hb : bs.length ≤ maxBytes
      · exact Bits.ofBytes_injective (by simpa [tailChain, hb] using h)
      · simp [tailChain, hb] at h
  | succ m ih =>
    by_cases ha : as.length ≤ maxBytes
    · cases n with
      | zero => exact Bits.ofBytes_injective (by simpa [tailChain, ha] using h)
      | succ n =>
        by_cases hb : bs.length ≤ maxBytes
        · exact Bits.ofBytes_injective (by simpa [tailChain, ha, hb] using h)
        · simp [tailChain, ha, hb] at h
    · cases n with
      | zero => simp [tailChain, ha] at h
      | succ n =>
        by_cases hb : bs.length ≤ maxBytes
        · simp [tailChain, ha, hb] at h
        · obtain ⟨hbits, hnext⟩ := by simpa [tailChain, ha, hb] using h
          rw [← List.take_append_drop maxBytes as, ← List.take_append_drop maxBytes bs,
            Bits.ofBytes_injective hbits, ih hnext]

/-- The cells for the bytes that do not fit. -/
def overhang (fit : Nat) (bytes : List UInt8) : List Cell :=
  if fit < bytes.length then [tailCell (bytes.drop fit)] else []

/-- A text adds the bytes that fit and a reference to the others. -/
theorem storeStringTail_eq_ok (h : storeStringTail bytes b = .ok () b') :
    b' = b.push (Bits.ofBytes (bytes.take (b.availableBits / 8)))
      (overhang (b.availableBits / 8) bytes) := by
  unfold storeStringTail at h
  cases bytes with
  | nil =>
    obtain rfl : b = b' := by simpa [pure, EStateM.pure] using h
    simp [overhang, Bits.ofBytes]
  | cons byte bytes =>
    simp only [List.isEmpty_cons, Bool.false_eq_true, if_false, bind, EStateM.bind, get,
      getThe, MonadStateOf.get] at h
    rw [show EStateM.get b = EStateM.Result.ok b b from rfl] at h
    dsimp only at h
    generalize byte :: bytes = bytes at h
    generalize b.availableBits / 8 = fit at h ⊢
    by_cases hfit : fit < bytes.length
    · rw [if_pos hfit] at h
      obtain ⟨mid, hmid, hb'⟩ := andThen_eq_ok.1 h
      obtain ⟨-, rfl⟩ := append_eq_ok.1 hmid
      obtain ⟨-, rfl⟩ := storeRef_eq_ok.1 hb'
      simp [overhang, hfit]
    · rw [if_neg hfit] at h
      obtain ⟨-, rfl⟩ := append_eq_ok.1 h
      rw [List.take_of_length_le (by omega)]
      simp [overhang, hfit]

/-- The same addition to the same builder is the same text. -/
theorem stored_injective (ha : storeStringTail as b = .ok () b')
    (hb : storeStringTail bs b = .ok () b') : as = bs := by
  have heq := (storeStringTail_eq_ok ha).symm.trans (storeStringTail_eq_ok hb)
  generalize b.availableBits / 8 = fit at heq
  simp only [push, Builder.mk.injEq, List.append_cancel_left_eq] at heq
  have hfront := Bits.ofBytes_injective heq.1
  have hback : as.drop fit = bs.drop fit := by
    have hrefs := heq.2
    unfold overhang at hrefs
    split_ifs at hrefs with h h'
    · exact tailChain_injective (by simpa [tailCell] using hrefs)
    · rw [List.drop_eq_nil_of_le (by omega), List.drop_eq_nil_of_le (by omega)]
  rw [← List.take_append_drop fit as, hfront, hback, List.take_append_drop]

theorem buildWith_eq_ok {store : Store} {c : Cell} :
    buildWith store = .ok c ↔ ∃ b, store empty = .ok () b ∧ b.build = .ok c := by
  unfold buildWith
  cases store empty <;> simp

/-- The cell tells what has been stored. -/
theorem eq_of_build_eq_ok {c : Cell} (h : b.build = .ok c) (h' : b'.build = .ok c) : b = b' := by
  obtain ⟨-, hc⟩ := build_eq_ok.1 h
  obtain ⟨-, hc'⟩ := build_eq_ok.1 h'
  obtain ⟨bits, refs⟩ := b
  obtain ⟨bits', refs'⟩ := b'
  obtain ⟨rfl, rfl⟩ := Cell.mk.inj (hc.symm.trans hc')
  rfl

end Builder

/-- Different texts have different cells. -/
theorem stringCell_injective {s t : String} {c : Cell} (hs : stringCell s = .ok c)
    (ht : stringCell t = .ok c) : s = t := by
  obtain ⟨b, hb, hbuild⟩ := Builder.buildWith_eq_ok.1 hs
  obtain ⟨b', hb', hbuild'⟩ := Builder.buildWith_eq_ok.1 ht
  obtain rfl := Builder.eq_of_build_eq_ok hbuild hbuild'
  exact utf8_injective (Builder.stored_injective hb hb')

/-- Different text messages have different cells. -/
theorem commentCell_injective {s t : String} {c : Cell} (hs : commentCell s = .ok c)
    (ht : commentCell t = .ok c) : s = t := by
  obtain ⟨b, hb, hbuild⟩ := Builder.buildWith_eq_ok.1 hs
  obtain ⟨b', hb', hbuild'⟩ := Builder.buildWith_eq_ok.1 ht
  obtain rfl := Builder.eq_of_build_eq_ok hbuild hbuild'
  obtain ⟨mid, hmid, hb⟩ := Builder.andThen_eq_ok.1 hb
  obtain ⟨mid', hmid', hb'⟩ := Builder.andThen_eq_ok.1 hb'
  obtain rfl : mid = mid' := by simpa using hmid.symm.trans hmid'
  exact utf8_injective (Builder.stored_injective hb hb')

end CellCompiler
