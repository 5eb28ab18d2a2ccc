import CellCompiler.Cell.Builder
import CellCompiler.Proofs.Bits

/-!
# Filling and reading cells

What builders hold after a store, and what reads find in a slice.

* `Builder.push` appends bits and references, and a store that succeeds is such a step within the
  budget (`Builder.Room`);
* `Slice.Holds` says what is left in a slice. Reads take what they ask for from the front of it.
-/

namespace CellCompiler

namespace Builder

variable {b b' : Builder} {bits more : List Bool} {refs others : List Cell}

/-- The builder with bits and references appended. -/
def push (b : Builder) (bits : List Bool) (refs : List Cell) : Builder :=
  ⟨b.bits ++ bits, b.refs ++ refs⟩

@[simp] theorem bits_push : (b.push bits refs).bits = b.bits ++ bits := rfl

@[simp] theorem refs_push : (b.push bits refs).refs = b.refs ++ refs := rfl

@[simp] theorem push_nil : b.push [] [] = b := by simp [push]

@[simp] theorem push_push :
    (b.push bits refs).push more others = b.push (bits ++ more) (refs ++ others) := by
  simp [push]

@[simp] theorem push_empty : empty.push bits refs = ⟨bits, refs⟩ := by simp [push, empty]

/-- There is room for so many further bits and references. -/
def Room (b : Builder) (bits refs : Nat) : Prop :=
  b.bits.length + bits ≤ Cell.maxBits ∧ b.refs.length + refs ≤ Cell.maxRefs

/-- What has been appended fits in a cell of its own. -/
theorem Room.empty {m n : Nat} (h : b.Room m n) : Builder.empty.Room m n := by
  unfold Room at h ⊢
  simp only [Builder.empty, List.length_nil]
  omega

theorem ensure_eq_ok {m n : Nat} : b.ensure m n = .ok () ↔ b.Room m n := by
  unfold ensure Room
  split
  · next h =>
    simp only [reduceCtorEq, false_iff]
    omega
  · next h =>
    simp only [true_iff]
    omega

theorem append_eq_ok :
    append bits refs b = .ok () b' ↔ b.Room bits.length refs.length ∧ b' = b.push bits refs := by
  rw [← ensure_eq_ok]
  unfold append
  split
  · next h => simp [h, push, eq_comm]
  · next h => simp [h]

theorem storeBit_eq_ok {bit : Bool} :
    storeBit bit b = .ok () b' ↔ b.Room 1 0 ∧ b' = b.push [bit] [] := append_eq_ok

theorem storeRef_eq_ok {c : Cell} :
    storeRef c b = .ok () b' ↔ b.Room 0 1 ∧ b' = b.push [] [c] := append_eq_ok

theorem storeSlice_eq_ok {s : Slice} : storeSlice s b = .ok () b' ↔
    b.Room s.bits.length s.refs.length ∧ b' = b.push s.bits s.refs := append_eq_ok

theorem storeBuilder_eq_ok {other : Builder} : storeBuilder other b = .ok () b' ↔
    b.Room other.bits.length other.refs.length ∧ b' = b.push other.bits other.refs := append_eq_ok

theorem throw_ne_ok {e : Cell.Error} : (throw e : Store) b ≠ .ok () b' := by
  change EStateM.Result.error e b ≠ _
  simp

theorem storeRaw_eq_ok {v : Int} {w : Nat} :
    storeRaw v w b = .ok () b' ↔ b.Room w 0 ∧ b' = b.push (Bits.ofInt w v) [] := by
  rw [← ensure_eq_ok]
  unfold storeRaw
  split
  · next h => simp [h, push, eq_comm]
  · next h => simp [h]

theorem storeUint_eq_ok {v : Int} {w : Nat} : storeUint v w b = .ok () b' ↔
    Bits.fitsUnsigned v w = true ∧ b.Room w 0 ∧ b' = b.push (Bits.ofInt w v) [] := by
  unfold storeUint
  split
  · next h => simp [h, storeRaw_eq_ok]
  · next h => simp [h, throw_ne_ok]

theorem storeInt_eq_ok {v : Int} {w : Nat} : storeInt v w b = .ok () b' ↔
    Bits.fitsSigned v w = true ∧ b.Room w 0 ∧ b' = b.push (Bits.ofInt w v) [] := by
  unfold storeInt
  split
  · next h => simp [h, storeRaw_eq_ok]
  · next h => simp [h, throw_ne_ok]

theorem andThen_eq_ok {first second : Store} : (do first; second : Store) b = .ok () b' ↔
    ∃ mid, first b = .ok () mid ∧ second mid = .ok () b' := by
  change EStateM.bind first (fun _ => second) b = _ ↔ _
  unfold EStateM.bind
  cases first b <;> simp

/-- An amount in digits: the number of its bytes, then the bytes. -/
def coinsBits (v : Int) : List Bool :=
  let size := (Bits.bitLength v.toNat + 7) / 8
  Bits.ofInt 4 size ++ Bits.ofInt (size * 8) v

theorem room_append {m n : Nat} : b.Room bits.length refs.length ∧ (b.push bits refs).Room m n ↔
    b.Room (bits.length + m) (refs.length + n) := by
  simp only [Room, bits_push, refs_push, List.length_append]
  omega

theorem fitsUnsigned_coinsSize {v : Int} (hv : Bits.fitsUnsigned v maxCoinsBits = true) :
    Bits.fitsUnsigned ((Bits.bitLength v.toNat + 7) / 8 : Nat) 4 = true ∧
      Bits.fitsUnsigned v ((Bits.bitLength v.toNat + 7) / 8 * 8) = true := by
  obtain ⟨n, rfl⟩ := Int.eq_ofNat_of_zero_le (Bits.fitsUnsigned_iff.1 hv).1
  have hlength : Bits.bitLength n ≤ maxCoinsBits := Bits.fitsUnsigned_natCast.1 hv
  simp only [maxCoinsBits] at hlength
  rw [Int.toNat_natCast]
  exact ⟨Bits.fitsUnsigned_iff.2 ⟨by omega, by omega⟩, Bits.fitsUnsigned_natCast.2 (by omega)⟩

theorem length_coinsBits (v : Int) :
    (coinsBits v).length = 4 + (Bits.bitLength v.toNat + 7) / 8 * 8 := by
  simp [coinsBits, Bits.length_ofInt]

theorem storeCoins_eq_ok {v : Int} : storeCoins v b = .ok () b' ↔
    Bits.fitsUnsigned v maxCoinsBits = true ∧ b.Room (coinsBits v).length 0 ∧
      b' = b.push (coinsBits v) [] := by
  unfold storeCoins
  split
  · next hv =>
    obtain ⟨hsize, hvalue⟩ := fitsUnsigned_coinsSize hv
    have hroom : ∀ size : Nat, b.Room (4 + size * 8) 0 ↔
        b.Room 4 0 ∧ (b.push (Bits.ofInt 4 size) []).Room (size * 8) 0 := by
      intro size
      simp only [Room, bits_push, refs_push, List.length_append, List.length_nil, Bits.length_ofInt]
      omega
    simp only [andThen_eq_ok, storeUint_eq_ok, hsize, hvalue, true_and, hv, length_coinsBits, hroom]
    constructor
    · rintro ⟨_, ⟨hroom₁, rfl⟩, hroom₂, rfl⟩
      exact ⟨⟨hroom₁, hroom₂⟩, by simp [coinsBits]⟩
    · rintro ⟨⟨hroom₁, hroom₂⟩, rfl⟩
      exact ⟨_, ⟨hroom₁, rfl⟩, hroom₂, by simp [coinsBits]⟩
  · next hv => simp [hv, throw_ne_ok]

theorem build_eq_ok {c : Cell} : b.build = .ok c ↔ b.Room 0 0 ∧ c = .mk b.bits b.refs := by
  rw [← ensure_eq_ok]
  unfold build
  split
  · next h => simp [h, eq_comm]
  · next h => simp [h]

end Builder

namespace Slice

variable {s : Slice} {bits rest : List Bool} {refs : List Cell}

/-- These bits and references are left in the slice. -/
structure Holds (s : Slice) (bits : List Bool) (refs : List Cell) : Prop where
  bits_eq : s.bits = bits
  refs_eq : s.refs = refs

theorem holds_self (s : Slice) : s.Holds s.bits s.refs := ⟨rfl, rfl⟩

theorem holds_parse (bits : List Bool) (refs : List Cell) : (Cell.mk bits refs).parse.Holds bits refs :=
  ⟨rfl, rfl⟩

theorem remainingBits_eq (s : Slice) : s.remainingBits = s.bits.length := by
  simp [remainingBits, bits]

theorem remainingRefs_eq (s : Slice) : s.remainingRefs = s.refs.length := by
  simp [remainingRefs, refs]

theorem endParse_holds (h : s.Holds [] []) : s.endParse = .ok () := by
  simp [endParse, isEmpty, remainingBits_eq, remainingRefs_eq, h.bits_eq, h.refs_eq]

theorem loadBits_holds {n : Nat} (h : s.Holds (bits ++ rest) refs) (hn : bits.length = n) :
    ∃ s', loadBits n s = .ok bits s' ∧ s'.Holds rest refs := by
  subst hn
  have hle : bits.length ≤ s.remainingBits := by simp [remainingBits_eq, h.bits_eq]
  refine ⟨{ s with bitPos := s.bitPos + bits.length }, ?_, ?_, h.refs_eq⟩
  · simp [loadBits, hle, h.bits_eq]
  · have hdrop := congrArg (List.drop bits.length) h.bits_eq
    simpa [Slice.bits] using hdrop

theorem loadRef_holds {c : Cell} (h : s.Holds bits (c :: refs)) :
    ∃ s', loadRef s = .ok c s' ∧ s'.Holds bits refs := by
  refine ⟨{ s with refPos := s.refPos + 1 }, by simp [loadRef, h.refs_eq], h.bits_eq, ?_⟩
  have hdrop := congrArg (List.drop 1) h.refs_eq
  simpa [Slice.refs] using hdrop

/-- What is left after the next `n` bits. -/
def dropBits (s : Slice) (n : Nat) : Slice := { s with bitPos := s.bitPos + n }

theorem skipBits_eq {n : Nat} : skipBits n s = if n ≤ s.bits.length then .ok () (s.dropBits n)
    else .error (.bitUnderflow n s.bits.length) s := by
  change EStateM.bind (loadBits n) (fun _ => pure ()) s = _
  rw [EStateM.bind, loadBits, ← remainingBits_eq]
  by_cases h : n ≤ s.remainingBits
  · simp only [h, if_true]
    rfl
  · simp only [h, if_false]

theorem dropBits_holds (h : s.Holds (bits ++ rest) refs) : (s.dropBits bits.length).Holds rest refs := by
  refine ⟨?_, h.refs_eq⟩
  have hdrop := congrArg (List.drop bits.length) h.bits_eq
  simpa [Slice.bits, dropBits] using hdrop

/-- A read that maps the result of another one. -/
theorem load_map {α β : Type} {load : Load α} {f : α → β} {a : α} {s s' : Slice}
    (h : load s = .ok a s') : (do return f (← load) : Load β) s = .ok (f a) s' := by
  change EStateM.bind load (fun a => EStateM.pure (f a)) s = _
  simp [EStateM.bind, h, EStateM.pure]

theorem loadUint_holds {n : Nat} (h : s.Holds (bits ++ rest) refs) (hn : bits.length = n) :
    ∃ s', loadUint n s = .ok (Bits.toNat bits : Int) s' ∧ s'.Holds rest refs := by
  obtain ⟨s', hload, hs'⟩ := loadBits_holds h hn
  exact ⟨s', load_map (f := fun bits => (Bits.toNat bits : Int)) hload, hs'⟩

theorem loadInt_holds {n : Nat} (h : s.Holds (bits ++ rest) refs) (hn : bits.length = n) :
    ∃ s', loadInt n s = .ok (Bits.toInt bits) s' ∧ s'.Holds rest refs := by
  obtain ⟨s', hload, hs'⟩ := loadBits_holds h hn
  exact ⟨s', load_map (f := Bits.toInt) hload, hs'⟩

theorem loadSlice_holds {n : Nat} (h : s.Holds (bits ++ rest) refs) (hn : bits.length = n) :
    ∃ s', loadSlice n s = .ok (Cell.mk bits []).parse s' ∧ s'.Holds rest refs := by
  obtain ⟨s', hload, hs'⟩ := loadBits_holds h hn
  exact ⟨s', load_map (f := fun bits => (Cell.mk bits []).parse) hload, hs'⟩

theorem loadBit_holds {bit : Bool} (h : s.Holds (bit :: rest) refs) :
    ∃ s', loadBit s = .ok bit s' ∧ s'.Holds rest refs := by
  have hone : s.Holds ([bit] ++ rest) refs := h
  obtain ⟨s', hload, hs'⟩ := loadBits_holds hone (n := 1) rfl
  exact ⟨s', load_map (f := fun bits : List Bool => bits.headD false) hload, hs'⟩

theorem preloadUint_holds {n : Nat} (h : s.Holds (bits ++ rest) refs) (hn : bits.length = n) :
    s.preloadUint n = .ok (Bits.toNat bits : Int) := by
  obtain ⟨s', hload, -⟩ := loadUint_holds h hn
  simp [preloadUint, hload]

/-- An amount is read back. -/
theorem loadCoins_holds {v : Int} (hv : Bits.fitsUnsigned v Builder.maxCoinsBits = true)
    (h : s.Holds (Builder.coinsBits v ++ rest) refs) :
    ∃ s', loadCoins s = .ok v s' ∧ s'.Holds rest refs := by
  obtain ⟨hnonneg, hlt⟩ := Bits.fitsUnsigned_iff.1 hv
  obtain ⟨n, rfl⟩ := Int.eq_ofNat_of_zero_le hnonneg
  simp only [Builder.coinsBits, Int.toNat_natCast, List.append_assoc] at h
  have hlength : Bits.bitLength n ≤ Builder.maxCoinsBits := Bits.fitsUnsigned_natCast.1 hv
  simp only [Builder.maxCoinsBits] at hlength
  obtain ⟨s₁, hload, hs₁⟩ := loadUint_holds h (Bits.length_ofInt _ _)
  have hsize : (Bits.toNat (Bits.ofInt 4 (((Bits.bitLength n + 7) / 8 : Nat) : Int)) : Int) =
      ((Bits.bitLength n + 7) / 8 : Nat) := by
    refine Bits.toNat_ofInt (Bits.fitsUnsigned_iff.2 ⟨by omega, ?_⟩)
    omega
  obtain ⟨s₂, hload', hs₂⟩ := loadUint_holds hs₁ (Bits.length_ofInt _ _)
  refine ⟨s₂, ?_, hs₂⟩
  rw [hsize] at hload
  rw [Bits.toNat_ofInt (Bits.fitsUnsigned_natCast.2 (by omega))] at hload'
  change EStateM.bind (loadUint 4) (fun size => loadUint (size.toNat * 8)) s = _
  simp only [EStateM.bind, hload, Int.toNat_natCast, hload']

end Slice

end CellCompiler
