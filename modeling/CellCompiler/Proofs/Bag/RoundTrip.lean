import CellCompiler.Proofs.Bag.Bytes
import CellCompiler.Proofs.Bag.Order
import CellCompiler.Proofs.Failure
import Mathlib.Data.List.Dedup

/-!
# Bags are read back

* `Bag.Reads x bytes a` says that a reader takes these bytes off the front and gives `a`;
* `Bag.reads_rawCells` is about all cells of a bag, whose references are still positions, and
  `Bag.resolve_cells` turns these into cells again;
* `bag_roundTrips` is the main result.
-/

namespace CellCompiler

namespace Bag

/-! ### Readers -/

/-- The reader takes exactly these bytes off the front. -/
def Reads {α : Type} (x : Reader α) (bytes : List UInt8) (a : α) : Prop :=
  ∀ rest, x (bytes ++ rest) = .ok (a, rest)

section Readers

variable {α β : Type} {x : Reader α} {f : α → Reader β} {bytes more : List UInt8} {a : α} {b : β}

theorem reads_pure : Reads (pure a) [] a := fun _ => rfl

theorem Reads.bind (hx : Reads x bytes a) (hf : Reads (f a) more b) :
    Reads (x >>= f) (bytes ++ more) b := by
  intro rest
  change (x (bytes ++ more ++ rest)).bind (fun p => f p.1 p.2) = _
  rw [List.append_assoc, hx]
  exact hf rest

/-- The last step of a reader gives its result. -/
theorem Reads.map {g : α → β} (hx : Reads x bytes a) : Reads (do return g (← x)) bytes (g a) := by
  have hbind : Reads (x >>= fun a => pure (g a)) (bytes ++ []) (g a) := hx.bind reads_pure
  simpa using hbind

theorem Reads.run (hx : Reads x bytes a) : x bytes = .ok (a, []) := by
  have hread := hx []
  rwa [List.append_nil] at hread

theorem reads_take {n : Nat} (h : bytes.length = n) : Reads (take n) bytes bytes := by
  intro rest
  simp [take, ← h]

theorem reads_takeByte (b : UInt8) : Reads takeByte [b] b := by
  have hread : Reads (take 1) [b] [b] := reads_take rfl
  exact hread.map

theorem reads_number {w n : Nat} (h : n < 256 ^ w) : Reads (number w) (Bits.bigEndian w n) n := by
  have hread : Reads (number w) (Bits.bigEndian w n) (Bits.ofBigEndian (Bits.bigEndian w n)) :=
    (reads_take (Bits.length_bigEndian w n)).map
  rwa [Bits.ofBigEndian_bigEndian h] at hread

theorem reads_numbers {w : Nat} {ns : List Nat} (h : ∀ n ∈ ns, n < 256 ^ w) :
    Reads (numbers w ns.length) (ns.flatMap (Bits.bigEndian w)) ns := by
  induction ns with
  | nil => exact reads_pure
  | cons n ns ih =>
    rw [List.forall_mem_cons] at h
    exact (reads_number h.1).bind (ih h.2).map

end Readers

/-! ### Cells -/

/-- Most references that a bag can tell the number of. -/
def maxRefs : Nat := 7

/-- The cell with the positions of what it refers to. -/
def raw (hashes : List (List UInt8)) (c : Cell) : RawCell :=
  ⟨c.bits, c.refs.map fun r => hashes.idxOf r.hash⟩

theorem dropCompletion_append {bits : List Bool} (n : Nat) :
    dropCompletion (bits ++ true :: List.replicate n false) = bits := by
  have hdrop : (List.replicate n false ++ true :: bits.reverse).dropWhile (· == false) =
      true :: bits.reverse := by
    induction n with
    | zero => rfl
    | succ n ih => exact ih
  rw [dropCompletion, List.reverse_append, List.reverse_cons, List.reverse_replicate,
    List.append_assoc, List.singleton_append, hdrop, List.drop_one, List.tail_cons,
    List.reverse_reverse]

theorem length_paddedData (bits : List Bool) :
    (Cell.paddedData bits).length = (bits.length + 7) / 8 := by
  unfold Cell.paddedData
  split
  · rw [Bits.length_toBytes]
  · rw [Bits.length_toBytes, List.length_append, List.length_singleton]
    omega

/-- The bits of a cell are read back; the second descriptor is odd if they had to be filled up. -/
theorem ofBytes_paddedData (bits : List Bool) :
    (if (bits.length / 8 + (bits.length + 7) / 8) % 2 = 1
      then dropCompletion (Bits.ofBytes (Cell.paddedData bits))
      else Bits.ofBytes (Cell.paddedData bits)) = bits := by
  by_cases hwhole : bits.length % 8 = 0
  · rw [if_neg (by omega), Cell.paddedData, if_pos hwhole, Bits.ofBytes_toBytes, hwhole]
    simp
  · rw [if_pos (by omega), Cell.paddedData, if_neg hwhole, Bits.ofBytes_toBytes, List.append_assoc,
      List.singleton_append, dropCompletion_append]

theorem reads_rawCell {hashes : List (List UInt8)} {w : Nat} {c : Cell}
    (hbits : c.bits.length ≤ Cell.maxBits) (hrefs : c.refs.length ≤ maxRefs)
    (hwidth : ∀ r ∈ c.refs, hashes.idxOf r.hash < 256 ^ w) :
    Reads (rawCell w) (encodeCell hashes w c) (raw hashes c) := by
  unfold Cell.maxBits at hbits
  unfold maxRefs at hrefs
  have hd : (UInt8.ofNat (c.bits.length / 8 + (c.bits.length + 7) / 8)).toNat =
      c.bits.length / 8 + (c.bits.length + 7) / 8 := by
    rw [UInt8.toNat_ofNat', Nat.mod_eq_of_lt (by omega)]
  have hcount : (UInt8.ofNat c.refs.length).toNat % 8 =
      (c.refs.map fun r => hashes.idxOf r.hash).length := by
    rw [UInt8.toNat_ofNat', List.length_map]
    omega
  have hdata : (Cell.paddedData c.bits).length =
      ((UInt8.ofNat (c.bits.length / 8 + (c.bits.length + 7) / 8)).toNat + 1) / 2 := by
    rw [length_paddedData, hd]
    omega
  -- the descriptors give the number of bytes and of references that follow
  have hpositions : ∀ n ∈ c.refs.map fun r => hashes.idxOf r.hash, n < 256 ^ w := by
    simpa using hwidth
  have hnumbers := reads_numbers hpositions
  rw [← hcount, List.flatMap_map] at hnumbers
  have hread : Reads (rawCell w) _ _ :=
    (reads_takeByte _).bind ((reads_takeByte _).bind ((reads_take hdata).bind hnumbers.map))
  rw [hd, ofBytes_paddedData] at hread
  simpa [encodeCell, Cell.descriptors, raw] using hread

theorem reads_rawCells {hashes : List (List UInt8)} {w : Nat} {cells : List Cell}
    (hbudget : ∀ c ∈ cells, c.bits.length ≤ Cell.maxBits ∧ c.refs.length ≤ maxRefs)
    (hwidth : ∀ c ∈ cells, ∀ r ∈ c.refs, hashes.idxOf r.hash < 256 ^ w) :
    Reads (rawCells w cells.length) (cells.flatMap (encodeCell hashes w)) (cells.map (raw hashes)) := by
  induction cells with
  | nil => exact reads_pure
  | cons c cells ih =>
    rw [List.forall_mem_cons] at hbudget hwidth
    exact (reads_rawCell hbudget.1.1 hbudget.1.2 hwidth.1).bind (ih hbudget.2 hwidth.2).map

/-- Positions are turned back into cells, as all of them are positions of later cells. -/
theorem resolve_cells {all front cells : List Cell} (hall : all = front ++ cells)
    (hnodup : all.Nodup) (hdistinct : ∀ a ∈ all, ∀ b ∈ all, a.hash = b.hash → a = b)
    (h : ParentsFirst cells) :
    resolve front.length (cells.map (raw (all.map Cell.hash))) = .ok cells := by
  induction h generalizing front with
  | nil => rfl
  | @cons c cells hnew hrefs _ ih =>
    -- the cells behind `c` are built first, and `c` refers to them only
    have hall' : all = (front ++ [c]) ++ cells := by rw [hall, List.append_assoc, List.singleton_append]
    have hlater := ih hall'
    rw [List.length_append, List.length_singleton] at hlater
    have hlookup : ∀ r ∈ c.refs,
        lookup (front.length + 1) cells ((all.map Cell.hash).idxOf r.hash) = .ok r := by
      intro r hr
      have hmem : r ∈ cells := hrefs r hr
      -- positions are counted over all cells, and no cell in front has this hash
      have hfront : r.hash ∉ (front ++ [c]).map Cell.hash := by
        intro hhash
        obtain ⟨d, hd, heq⟩ := List.mem_map.1 hhash
        obtain rfl := hdistinct d (hall' ▸ List.mem_append_left _ hd) r
          (hall' ▸ List.mem_append_right _ hmem) heq
        rw [hall', List.nodup_append] at hnodup
        exact hnodup.2.2 _ hd _ hmem rfl
      have hposition : (all.map Cell.hash).idxOf r.hash =
          front.length + 1 + (cells.map Cell.hash).idxOf r.hash := by
        rw [hall', List.map_append, List.idxOf_append_of_notMem hfront]
        simp
      have hlt : (cells.map Cell.hash).idxOf r.hash < (cells.map Cell.hash).length :=
        List.idxOf_lt_length_of_mem (List.mem_map_of_mem hmem)
      have hget := List.getElem_idxOf hlt
      rw [List.getElem_map] at hget
      have hcell := hdistinct _ (hall' ▸ List.mem_append_right _ (List.getElem_mem _)) r
        (hall' ▸ List.mem_append_right _ hmem) hget
      rw [List.length_map] at hlt
      rw [lookup, hposition, if_neg (by omega), Nat.add_sub_cancel_left, List.getElem?_eq_getElem hlt,
        hcell]
    have hchildren : ((raw (all.map Cell.hash) c).refs).mapM (lookup (front.length + 1) cells) =
        .ok c.refs := by
      rw [List.mapM_eq_ok, raw, List.forall₂_map_left_iff]
      exact List.forall₂_same.2 hlookup
    rw [List.map_cons, resolve, hlater]
    simp only [Except.bind_eq_ok, Except.pure_eq_ok]
    exact ⟨cells, rfl, c.refs, hchildren, by simp [raw]⟩

/-! ### Widths -/

theorem lt_bytesFor (n : Nat) : n < 256 ^ bytesFor n := by
  unfold bytesFor
  split
  · next h => simp [h]
  · next h =>
    have hpow : 256 ^ (n.log2 / 8 + 1) = 2 ^ (8 * (n.log2 / 8 + 1)) := by rw [Nat.pow_mul]
    rw [hpow]
    exact Nat.lt_of_lt_of_le Nat.lt_log2_self (Nat.pow_le_pow_right (by decide) (by omega))

theorem bytesFor_pos (n : Nat) : 0 < bytesFor n := by
  unfold bytesFor
  split <;> omega

theorem bytesFor_le {n w : Nat} (h : n < 256 ^ (w + 1)) : bytesFor n ≤ w + 1 := by
  unfold bytesFor
  split
  · omega
  · next hn =>
    have hpow : 256 ^ (w + 1) = 2 ^ (8 * (w + 1)) := by rw [Nat.pow_mul]
    have hlog := (Nat.log2_lt hn).2 (hpow ▸ h)
    omega

/-- A cell takes at most 179 bytes: two descriptors, its data and seven positions. -/
theorem length_encodeCell_le (hashes : List (List UInt8)) {w : Nat} {c : Cell}
    (hbits : c.bits.length ≤ Cell.maxBits) (hrefs : c.refs.length ≤ maxRefs) (hw : w ≤ 7) :
    (encodeCell hashes w c).length ≤ 179 := by
  have hmul : c.refs.length * w ≤ 7 * 7 := Nat.mul_le_mul hrefs hw
  have hlength : (encodeCell hashes w c).length =
      2 + (c.bits.length + 7) / 8 + c.refs.length * w := by
    simp [encodeCell, Cell.descriptors, length_paddedData, List.length_flatMap]
    omega
  unfold Cell.maxBits at hbits
  omega

theorem length_flatMap_encodeCell_le (hashes : List (List UInt8)) {w : Nat} {cells : List Cell}
    (hbudget : ∀ c ∈ cells, c.bits.length ≤ Cell.maxBits ∧ c.refs.length ≤ maxRefs)
    (hw : w ≤ 7) : (cells.flatMap (encodeCell hashes w)).length ≤ cells.length * 179 := by
  rw [List.length_flatMap, ← List.length_map (fun c => (encodeCell hashes w c).length)]
  refine List.sum_le_card_nsmul _ 179 fun n hn => ?_
  obtain ⟨c, hc, rfl⟩ := List.mem_map.1 hn
  exact length_encodeCell_le _ (hbudget c hc).1 (hbudget c hc).2 hw

/-! ### Bags -/

/-- The header is read; the root is the first cell. -/
theorem reads_header {w o count size : Nat} (hw : 0 < w) (hw' : w < 8) (ho : o < 256)
    (hcount : count < 256 ^ w) (hsize : size < 256 ^ o) :
    Reads header (magic ++ [UInt8.ofNat w, UInt8.ofNat o] ++ Bits.bigEndian w count ++
      Bits.bigEndian w 1 ++ Bits.bigEndian w 0 ++ Bits.bigEndian o size ++ Bits.bigEndian w 0)
      ⟨w, count, 0⟩ := by
  have hwidth : (UInt8.ofNat w).toNat % 8 = w := by
    rw [UInt8.toNat_ofNat']
    omega
  have hoffset : (UInt8.ofNat o).toNat = o := by
    rw [UInt8.toNat_ofNat']
    omega
  have hzero : 0 < 256 ^ w := Nat.pow_pos (by decide)
  have hone : 1 < 256 ^ w := Nat.one_lt_pow (by omega) (by decide)
  rw [← List.singleton_append (l := [_])]
  simp only [List.append_assoc]
  unfold header
  have hmagic : Reads (take 4) magic magic := reads_take rfl
  refine hmagic.bind ?_
  rw [bne_self_eq_false, if_neg Bool.false_ne_true]
  refine (reads_takeByte _).bind ((reads_takeByte _).bind ?_)
  rw [hwidth, hoffset]
  refine (reads_number hcount).bind ((reads_number hone).bind ?_)
  rw [bne_self_eq_false, if_neg Bool.false_ne_true]
  have hroot : Reads (do return ⟨w, count, ← number w⟩ : Reader Header) (Bits.bigEndian w 0)
      ⟨w, count, 0⟩ := (reads_number hzero).map
  exact (reads_number hzero).bind ((reads_number hsize).bind hroot)

theorem reads_reserve {memory : Memory} {count : Nat} (h : memory.grants (cellSize * count) = true) :
    Reads (reserve memory count) [] () := by
  rw [reserve, if_pos h]
  exact reads_pure

/-- A bag gives back its cells, their references as positions, if there is memory for them. -/
theorem contents_encode {memory : Memory} {c : Cell}
    (hbudget : ∀ d ∈ order c, d.bits.length ≤ Cell.maxBits ∧ d.refs.length ≤ maxRefs)
    (hrefs : ∀ d ∈ order c, ∀ r ∈ d.refs, r ∈ order c) (hcount : (order c).length < 2 ^ 56)
    (hmemory : memory.grants (cellSize * (order c).length) = true) :
    contents memory (encode c) = .ok ((0, (order c).map (raw ((order c).map Cell.hash))), []) := by
  have hwidth : bytesFor (order c).length ≤ 7 := bytesFor_le (w := 6) (by omega)
  -- the width of offsets is written in one byte, for which there is room by far
  have hoffset : bytesFor (((order c).flatMap
      (encodeCell ((order c).map Cell.hash) (bytesFor (order c).length))).length) < 256 := by
    have hdata := (length_flatMap_encodeCell_le ((order c).map Cell.hash) hbudget hwidth).trans_lt
      (Nat.mul_lt_mul_of_pos_right hcount (by decide))
    have hle := bytesFor_le (w := 8) (hdata.trans (by decide))
    exact hle.trans_lt (by decide)
  have hposition : ∀ d ∈ order c, ∀ r ∈ d.refs,
      ((order c).map Cell.hash).idxOf r.hash < 256 ^ bytesFor (order c).length := by
    intro d hd r hr
    have hlt := List.idxOf_lt_length_of_mem (List.mem_map_of_mem (f := Cell.hash) (hrefs d hd r hr))
    rw [List.length_map] at hlt
    exact hlt.trans (lt_bytesFor _)
  have hheader := reads_header (bytesFor_pos _) (Nat.lt_succ_of_le hwidth) hoffset (lt_bytesFor _)
    (lt_bytesFor _)
  have hread : Reads (contents memory) (encode c) _ :=
    hheader.bind ((reads_reserve hmemory).bind (reads_rawCells hbudget hposition).map)
  exact hread.run

theorem Memory.grants_mono {memory : Memory} {m n : Nat} (h : memory.grants n = true) (hle : m ≤ n) :
    memory.grants m = true := by
  cases memory with
  | none => rfl
  | some limit =>
    simp only [grants, Option.all_some, decide_eq_true_eq] at h ⊢
    exact hle.trans h

/-- A bag is read back as its root if there is memory for its cells, also if these have more
references than an ordinary cell, as long as the number of references can be told. -/
theorem decode_encode {memory : Memory} {c : Cell}
    (hbudget : ∀ d ∈ c.subcells, d.bits.length ≤ Cell.maxBits ∧ d.refs.length ≤ maxRefs)
    (hcount : c.subcells.dedup.length < 2 ^ 56) (hdistinct : c.Distinguished)
    (hmemory : memory.grants (cellSize * c.subcells.dedup.length) = true) :
    decode (encode c) memory = .ok c := by
  obtain ⟨⟨rest, hroot⟩, hsub, hfirst⟩ := order_parentsFirst hdistinct
  have hlength : (order c).length ≤ c.subcells.dedup.length :=
    (hfirst.nodup.subperm fun d hd => List.mem_dedup.2 (hsub d hd)).length_le
  have hcontents := contents_encode (fun d hd => hbudget d (hsub d hd)) hfirst.mem_of_mem_refs
    (hlength.trans_lt hcount) (Memory.grants_mono hmemory (Nat.mul_le_mul_left cellSize hlength))
  have hresolve := resolve_cells (List.nil_append (order c)).symm hfirst.nodup
    (fun a ha b hb => hdistinct a (hsub a ha) b (hsub b hb)) hfirst
  rw [List.length_nil] at hresolve
  simp only [decode, StateT.run, hcontents, Except.bind_eq_ok]
  refine ⟨_, rfl, _, hresolve, ?_⟩
  rw [hroot]
  rfl

/-- Hexadecimal digits are read back as the bytes that they spell. -/
theorem decodeHex_encodeHex (c : Cell) (memory : Memory) :
    decodeHex (encodeHex c) memory = decode (encode c) memory := by
  obtain ⟨hhex, hlen⟩ := Hex.decode_encodeUpper (encode c)
  rw [decodeHex, encodeHex, hhex, hlen, if_neg (by omega)]

/-- **Bags round trip.** If every subcell keeps to the budget, there are fewer than `2 ^ 56`
different ones and different ones have different hashes, then the bag of a cell is read back as the
cell, from its bytes and from their hexadecimal digits; as everywhere, the cell is meant to be at most
`Cell.maxDepth` deep. Memory is taken to be granted, see `decode_encode` for how much it is. -/
theorem bag_roundTrips (c : Cell)
    (hbudget : ∀ d ∈ c.subcells, d.bits.length ≤ Cell.maxBits ∧ d.refs.length ≤ Cell.maxRefs)
    (hcount : c.subcells.dedup.length < 2 ^ 56) (hdistinct : c.Distinguished) :
    decode (encode c) = .ok c ∧ decodeHex (encodeHex c) = .ok c := by
  have hmemory : Memory.grants none (cellSize * c.subcells.dedup.length) = true := rfl
  have hdecode := decode_encode
    (fun d hd => (hbudget d hd).imp_right fun hrefs => hrefs.trans (by decide)) hcount hdistinct hmemory
  exact ⟨hdecode, (decodeHex_encodeHex c none).trans hdecode⟩

/-- A cell that refers to the same cell twice. -/
def fork : Cell := .mk [true] [.mk [true, false, true] [], .mk [true, false, true] []]

theorem fork_roundTrips :
    (∀ d ∈ fork.subcells, d.bits.length ≤ Cell.maxBits ∧ d.refs.length ≤ Cell.maxRefs) ∧
      fork.subcells.dedup.length < 2 ^ 56 ∧ fork.Distinguished ∧
      decode (encode fork) = .ok fork ∧ decodeHex (encodeHex fork) = .ok fork := by
  have hbudget : ∀ d ∈ fork.subcells, d.bits.length ≤ Cell.maxBits ∧ d.refs.length ≤ Cell.maxRefs := by
    decide
  have hcount : fork.subcells.dedup.length < 2 ^ 56 := by decide
  have hdistinct : fork.Distinguished := by
    unfold Cell.Distinguished
    decide +kernel
  exact ⟨hbudget, hcount, hdistinct, bag_roundTrips fork hbudget hcount hdistinct⟩

end Bag

end CellCompiler
