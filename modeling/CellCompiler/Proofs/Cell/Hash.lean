import CellCompiler.Proofs.Bag.RoundTrip

/-!
# Hashes identify cells

The bytes that a cell is hashed from are put together without separators. They can be taken apart
nevertheless: the first descriptor counts the references, the second one gives the length of the
data and tells whether its last byte has been filled up.

* `Cell.hashInput` is what a cell is hashed from, and `Cell.hashInput_inj` takes it apart;
* `Cell.Collides` says that the hash function itself confuses two subcells;
* `Cell.eq_of_hash_eq_or_collides` is the main result, an induction over both trees that stops at
  the first collision.
-/

namespace CellCompiler

namespace Cell

/-- The bytes that a cell is hashed from. -/
def hashInput (c : Cell) : List UInt8 := preimage c.bits c.refs (hashAll c.refs)

theorem hash_eq_digest (c : Cell) : c.hash = Sha256.digest c.hashInput := by
  cases c
  rfl

theorem length_hash (c : Cell) : c.hash.length = 32 := by
  rw [hash_eq_digest, Sha256.length_digest]

theorem length_depthBytes (refs : List Cell) : (depthBytes refs).length = 2 * refs.length := by
  simp [depthBytes, List.length_flatMap, Nat.mul_comm]

/-- The cell keeps to the budget of an ordinary cell. -/
def Ordinary (c : Cell) : Prop := c.bits.length ≤ maxBits ∧ c.refs.length ≤ maxRefs

instance (c : Cell) : Decidable c.Ordinary := inferInstanceAs (Decidable (_ ∧ _))

/-! ### Taking the input apart -/

/-- Bits are known from the filled up bytes and the descriptor that says whether they had to be
filled up. -/
theorem bits_inj {bits bits' : List Bool}
    (hdescriptor : bits.length / 8 + (bits.length + 7) / 8 = bits'.length / 8 + (bits'.length + 7) / 8)
    (hdata : paddedData bits = paddedData bits') : bits = bits' := by
  have hread := Bag.ofBytes_paddedData bits
  rw [hdescriptor, hdata, Bag.ofBytes_paddedData] at hread
  exact hread.symm

/-- **The input of the hash determines** the bits, the number of references and the hashes of what
is referred to. -/
theorem hashInput_inj {a b : Cell} (ha : a.Ordinary) (hb : b.Ordinary)
    (h : a.hashInput = b.hashInput) :
    a.bits = b.bits ∧ a.refs.length = b.refs.length ∧ hashAll a.refs = hashAll b.refs := by
  obtain ⟨habits, harefs⟩ := ha
  obtain ⟨hbbits, hbrefs⟩ := hb
  unfold maxBits at habits hbbits
  unfold maxRefs at harefs hbrefs
  simp only [hashInput, preimage, descriptors, List.append_assoc, List.cons_append,
    List.nil_append, List.cons.injEq] at h
  obtain ⟨hcount, hdescriptor, hrest⟩ := h
  have hrefs : a.refs.length = b.refs.length := by
    have hnat := congrArg UInt8.toNat hcount
    rwa [UInt8.toNat_ofNat', UInt8.toNat_ofNat', Nat.mod_eq_of_lt (by omega),
      Nat.mod_eq_of_lt (by omega)] at hnat
  have hsize : a.bits.length / 8 + (a.bits.length + 7) / 8 =
      b.bits.length / 8 + (b.bits.length + 7) / 8 := by
    have hnat := congrArg UInt8.toNat hdescriptor
    rwa [UInt8.toNat_ofNat', UInt8.toNat_ofNat', Nat.mod_eq_of_lt (by omega),
      Nat.mod_eq_of_lt (by omega)] at hnat
  -- every part has as many bytes on both sides, so that the parts agree one by one
  obtain ⟨hdata, hrest⟩ := List.append_inj hrest (by
    rw [Bag.length_paddedData, Bag.length_paddedData]
    omega)
  obtain ⟨-, hhashes⟩ := List.append_inj hrest (by rw [length_depthBytes, length_depthBytes, hrefs])
  exact ⟨bits_inj hsize hdata, hrefs, hhashes⟩

/-! ### Equal hashes -/

/-- A subcell of the one and a subcell of the other are hashed from different bytes to the same
digest. -/
def Collides (as bs : List Cell) : Prop :=
  ∃ x ∈ subcellsAll as, ∃ y ∈ subcellsAll bs,
    x.hashInput ≠ y.hashInput ∧ Sha256.digest x.hashInput = Sha256.digest y.hashInput

theorem Collides.mono {as bs as' bs' : List Cell} (h : Collides as bs)
    (ha : subcellsAll as ⊆ subcellsAll as') (hb : subcellsAll bs ⊆ subcellsAll bs') :
    Collides as' bs' := by
  obtain ⟨x, hx, y, hy, hne, heq⟩ := h
  exact ⟨x, ha hx, y, hb hy, hne, heq⟩

theorem subcellsAll_singleton (c : Cell) : subcellsAll [c] = c.subcells := by
  simp [subcellsAll]

mutual

theorem eq_or_collides : (a b : Cell) → (∀ d ∈ a.subcells, d.Ordinary) →
    (∀ d ∈ b.subcells, d.Ordinary) → a.hash = b.hash → a = b ∨ Collides [a] [b]
  | .mk abits arefs, .mk bbits brefs, ha, hb, h => by
    by_cases hinput : (mk abits arefs).hashInput = (mk bbits brefs).hashInput
    · obtain ⟨hbits, hlength, hhashes⟩ :=
        hashInput_inj (ha _ (mem_subcells_self _)) (hb _ (mem_subcells_self _)) hinput
      simp only [subcells, List.forall_mem_cons] at ha hb
      rcases eqAll_or_collides arefs brefs ha.2 hb.2 hlength hhashes with hrefs | hcollides
      · exact .inl (congrArg₂ mk hbits hrefs)
      · refine .inr (hcollides.mono ?_ ?_) <;>
          exact fun d hd => by simp [subcellsAll, subcells, hd]
    · rw [hash_eq_digest, hash_eq_digest] at h
      refine .inr ⟨_, ?_, _, ?_, hinput, h⟩ <;>
        exact subcellsAll_singleton _ ▸ mem_subcells_self _

theorem eqAll_or_collides : (as bs : List Cell) → (∀ d ∈ subcellsAll as, d.Ordinary) →
    (∀ d ∈ subcellsAll bs, d.Ordinary) → as.length = bs.length → hashAll as = hashAll bs →
    as = bs ∨ Collides as bs
  | [], [], _, _, _, _ => .inl rfl
  | a :: as, b :: bs, ha, hb, hlength, h => by
    rw [subcellsAll, List.forall_mem_append] at ha hb
    rw [List.length_cons, List.length_cons, Nat.add_right_cancel_iff] at hlength
    obtain ⟨hfirst, hrest⟩ := List.append_inj h (by rw [length_hash, length_hash])
    rcases eq_or_collides a b ha.1 hb.1 hfirst with heq | hcollides
    · rcases eqAll_or_collides as bs ha.2 hb.2 hlength hrest with heqs | hcollides
      · exact .inl (congrArg₂ _ heq heqs)
      · refine .inr (hcollides.mono ?_ ?_) <;>
          exact fun d hd => by simp [subcellsAll, hd]
    · rw [Collides, subcellsAll_singleton, subcellsAll_singleton] at hcollides
      obtain ⟨x, hx, y, hy, hne, heq⟩ := hcollides
      exact .inr ⟨x, List.mem_append_left _ hx, y, List.mem_append_left _ hy, hne, heq⟩

end

/-- **Hashes identify cells.** Two cells of the same hash whose subcells keep to the budget are the
same cell, unless a subcell of the one and a subcell of the other are hashed from different bytes to
the same digest, which is a collision of the hash function on byte strings. As everywhere, the cells are
meant to be at most `maxDepth` deep; here the depths that are hashed are not needed to tell cells
apart. -/
theorem eq_of_hash_eq_or_collides (a b : Cell)
    (ha : ∀ d ∈ a.subcells, d.bits.length ≤ maxBits ∧ d.refs.length ≤ maxRefs)
    (hb : ∀ d ∈ b.subcells, d.bits.length ≤ maxBits ∧ d.refs.length ≤ maxRefs)
    (h : a.hash = b.hash) :
    a = b ∨ ∃ x ∈ a.subcells, ∃ y ∈ b.subcells,
      x.hashInput ≠ y.hashInput ∧ Sha256.digest x.hashInput = Sha256.digest y.hashInput := by
  have hcases := eq_or_collides a b ha hb h
  rwa [Collides, subcellsAll_singleton, subcellsAll_singleton] at hcases

theorem fork_eq_of_hash_eq_or_collides :
    let twin := Cell.mk [true] (List.replicate 2 (.mk [true, false, true] []))
    (∀ d ∈ Bag.fork.subcells, d.bits.length ≤ maxBits ∧ d.refs.length ≤ maxRefs) ∧
      (∀ d ∈ twin.subcells, d.bits.length ≤ maxBits ∧ d.refs.length ≤ maxRefs) ∧
      Bag.fork.hash = twin.hash ∧
      (Bag.fork = twin ∨ ∃ x ∈ Bag.fork.subcells, ∃ y ∈ twin.subcells,
        x.hashInput ≠ y.hashInput ∧ Sha256.digest x.hashInput = Sha256.digest y.hashInput) := by
  intro twin
  have hbudget : ∀ d ∈ Bag.fork.subcells, d.bits.length ≤ maxBits ∧ d.refs.length ≤ maxRefs := by
    decide
  exact ⟨hbudget, hbudget, rfl, eq_of_hash_eq_or_collides Bag.fork twin hbudget hbudget rfl⟩

end Cell

end CellCompiler
