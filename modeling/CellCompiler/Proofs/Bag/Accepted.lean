import CellCompiler.Proofs.Bag.RoundTrip

/-!
# Bags that are accepted

A bag may come from anywhere: its counts, widths, descriptors and references need not make sense.
What is accepted nevertheless is a finite tree of cells that can be written down again. One count is
believed before anything else of the bag has been looked at, the number of cells: memory is asked for
as many, however short the bag is.

* `Bag.Gives x P` says that whatever a reader gives has a property, and that it does not run out of
  memory. `Bag.gives_header` and `Bag.gives_rawCells` are about the header and the cells: there are
  fewer than `2 ^ 56` of these, of at most 1023 bits and seven references each;
* `Bag.Links raw cells` says that references of listed cells point to later cells, and
  `Bag.resolve_links` that this is checked when positions are turned into cells;
* `Bag.decode_eq_exhausted_iff` says when memory runs out, and `Bag.swollen_exhausts` is a bag of
  34 bytes for which it always does;
* `Bag.decode_accepts` is the main result.
-/

namespace CellCompiler

namespace Bag

/-! ### What readers give -/

/-- Whatever the reader gives has the property, and memory does not run out. -/
structure Gives {α : Type} (x : Reader α) (P : α → Prop) : Prop where
  property : ∀ bytes a rest, x bytes = .ok (a, rest) → P a
  not_exhausted : ∀ bytes n, x bytes ≠ .error (.exhausted n)

section Readers

variable {α β : Type} {x : Reader α} {f : α → Reader β} {P : α → Prop} {Q : β → Prop}

theorem gives_pure {a : α} (h : P a) : Gives (pure a) P := by
  constructor
  · intro bytes a' rest hrun
    obtain ⟨rfl, -⟩ := Prod.mk.inj (Except.ok.inj hrun)
    exact h
  · intro bytes n
    exact nofun

theorem gives_throw {fault : Fault} (h : ∀ n, fault ≠ .exhausted n) : Gives (throw fault : Reader α) P :=
  ⟨fun _ _ _ hrun => (nomatch hrun), fun _ n hrun => h n (Except.error.inj hrun)⟩

theorem Gives.bind (hx : Gives x P) (hf : ∀ a, P a → Gives (f a) Q) : Gives (x >>= f) Q := by
  constructor
  · intro bytes b rest hrun
    change (x bytes >>= fun p => f p.1 p.2) = _ at hrun
    obtain ⟨⟨a, mid⟩, hread, hrun⟩ := Except.bind_eq_ok.1 hrun
    exact (hf a (hx.property bytes a mid hread)).property mid b rest hrun
  · intro bytes n hrun
    change (x bytes >>= fun p => f p.1 p.2) = _ at hrun
    rcases Except.bind_eq_error.1 hrun with hread | ⟨⟨a, mid⟩, hread, hrun⟩
    · exact hx.not_exhausted bytes n hread
    · exact (hf a (hx.property bytes a mid hread)).not_exhausted mid n hrun

/-- What is read first does not matter. -/
theorem Gives.andThen (hx : Gives x P) (hf : ∀ a, Gives (f a) Q) : Gives (x >>= f) Q :=
  hx.bind fun a _ => hf a

theorem gives_take (n : Nat) : Gives (take n) fun bytes => bytes.length = n := by
  constructor
  · intro bytes taken rest hrun
    unfold take at hrun
    split at hrun
    · next h =>
      obtain ⟨rfl, -⟩ := Prod.mk.inj (Except.ok.inj hrun)
      exact List.length_take_of_le h
    · cases hrun
  · intro bytes m hrun
    unfold take at hrun
    split at hrun <;> cases hrun

theorem gives_takeByte : Gives takeByte fun _ => True := (gives_take 1).andThen fun _ => gives_pure trivial

end Readers

theorem ofBigEndian_lt (bytes : List UInt8) : Bits.ofBigEndian bytes < 256 ^ bytes.length := by
  induction bytes with
  | nil => simp [Bits.ofBigEndian]
  | cons b bytes ih =>
    rw [Bits.ofBigEndian_cons, List.length_cons, Nat.pow_succ, Nat.mul_comm _ 256]
    have hb : b.toNat ≤ 255 := Nat.le_of_lt_succ b.toNat_lt
    have hmul := Nat.mul_le_mul_right (256 ^ bytes.length) hb
    omega

theorem gives_number (w : Nat) : Gives (number w) fun n => n < 256 ^ w :=
  (gives_take w).bind fun bytes hlength => gives_pure (hlength ▸ ofBigEndian_lt bytes)

theorem gives_numbers (w : Nat) (count : Nat) : Gives (numbers w count) fun ns => ns.length = count := by
  induction count with
  | zero => exact gives_pure rfl
  | succ count ih =>
    refine (gives_number w).andThen fun first => ih.bind fun rest hrest => gives_pure ?_
    rw [List.length_cons, hrest]

/-! ### Cells -/

theorem length_ofBytes (bytes : List UInt8) : (Bits.ofBytes bytes).length = 8 * bytes.length := by
  simp [Bits.ofBytes, List.length_flatMap, Bits.ofByte, Nat.mul_comm]

/-- At least the one before the zeros is taken off, if there is anything. -/
theorem length_dropCompletion_le (bits : List Bool) :
    (dropCompletion bits).length ≤ bits.length - 1 := by
  have hle := (List.dropWhile_sublist (l := bits.reverse) (· == false)).length_le
  rw [List.length_reverse] at hle
  rw [dropCompletion, List.length_reverse, List.length_drop]
  omega

/-- The listed cell keeps to what a bag can write down. -/
def RawCell.Bounded (cell : RawCell) : Prop :=
  cell.bits.length ≤ Cell.maxBits ∧ cell.refs.length ≤ maxRefs

/-- The second descriptor is one byte, so that there are at most 128 bytes of data, and with so many
the last one has been filled up. -/
theorem gives_rawCell (w : Nat) : Gives (rawCell w) RawCell.Bounded := by
  refine gives_takeByte.andThen fun d1 => gives_takeByte.andThen fun d2 => ?_
  refine (gives_take _).bind fun data hdata => (gives_numbers w _).bind fun refs hrefs => gives_pure ⟨?_, ?_⟩
  · have hbits := length_ofBytes data
    have hdrop := length_dropCompletion_le (Bits.ofBytes data)
    have hd2 := d2.toNat_lt
    unfold Cell.maxBits
    dsimp only
    split <;> omega
  · have hmod := Nat.mod_lt d1.toNat (show 0 < 8 by decide)
    unfold maxRefs
    dsimp only
    omega

theorem gives_rawCells (w count : Nat) :
    Gives (rawCells w count) fun cells => cells.length = count ∧ ∀ cell ∈ cells, cell.Bounded := by
  induction count with
  | zero => exact gives_pure ⟨rfl, by simp⟩
  | succ count ih =>
    refine (gives_rawCell w).bind fun first hfirst => ih.bind fun rest hrest => gives_pure ⟨?_, ?_⟩
    · rw [List.length_cons, hrest.1]
    · exact List.forall_mem_cons.2 ⟨hfirst, hrest.2⟩

/-- The width of numbers is below eight, so that there are fewer than `256 ^ 7` cells. -/
theorem gives_header : Gives header fun h => h.count < 2 ^ 56 := by
  refine (gives_take 4).andThen fun start => ?_
  split
  · exact gives_throw nofun
  refine gives_takeByte.andThen fun width => gives_takeByte.andThen fun offsetWidth => ?_
  refine (gives_number _).bind fun count hcount => (gives_number _).andThen fun roots => ?_
  split
  · exact gives_throw nofun
  refine (gives_number _).andThen fun _ => (gives_number _).andThen fun _ => ?_
  refine (gives_number _).andThen fun root => gives_pure ?_
  have hwidth : width.toNat % 8 ≤ 7 := by omega
  have hpow := Nat.pow_le_pow_right (show 0 < 256 by decide) hwidth
  exact hcount.trans_le (hpow.trans (by decide))

/-! ### Memory -/

/-- Memory is asked for between the header and the cells. -/
theorem contents_eq (memory : Memory) (bytes : List UInt8) : contents memory bytes =
    (header bytes >>= fun p =>
      if memory.grants (cellSize * p.1.count) then
        rawCells p.1.width p.1.count p.2 >>= fun q => .ok ((p.1.root, q.1), q.2)
      else .error (.exhausted (cellSize * p.1.count))) := by
  change (header bytes >>= fun p => (reserve memory p.1.count >>= fun _ =>
    (do return (p.1.root, ← rawCells p.1.width p.1.count) : Reader _)) p.2) = _
  congr 1
  funext p
  unfold reserve
  split <;> rfl

theorem contents_eq_ok_iff {memory : Memory} {bytes rest : List UInt8} {root : Nat} {raw : List RawCell} :
    contents memory bytes = .ok ((root, raw), rest) ↔ ∃ h mid, header bytes = .ok (h, mid) ∧
      memory.grants (cellSize * h.count) = true ∧ h.root = root ∧
      rawCells h.width h.count mid = .ok (raw, rest) := by
  rw [contents_eq, Except.bind_eq_ok, Prod.exists]
  refine exists_congr fun h => exists_congr fun mid => and_congr_right fun _ => ?_
  split
  · next hgrants => simp [hgrants, and_comm, and_assoc]
  · next hgrants => simp [hgrants]

/-- Listed cells have been turned into cells: each has the bits that are listed and refers to cells
that are listed after it. -/
structure Links (raw : List RawCell) (cells : List Cell) : Prop where
  length_eq : cells.length = raw.length
  /-- References point to later cells of the list. -/
  later : ∀ (i : Nat) (cell : RawCell), raw[i]? = some cell → ∀ r ∈ cell.refs, i < r ∧ r < raw.length
  built : ∀ (i : Nat) (cell : RawCell), raw[i]? = some cell → ∃ children,
    cells[i]? = some (.mk cell.bits children) ∧
    List.Forall₂ (fun r child => cells[r]? = some child) cell.refs children

theorem lookup_eq_ok {first position : Nat} {cells : List Cell} {c : Cell} :
    lookup first cells position = .ok c ↔ first ≤ position ∧ cells[position - first]? = some c := by
  unfold lookup
  split
  · next h => simp [Nat.not_le.2 h]
  · next h =>
    rw [Nat.not_lt] at h
    cases cells[position - first]? <;> simp [h]

/-- What is built from the cells behind position `index`: positions are counted from there. -/
theorem resolve_built {index : Nat} {raw : List RawCell} {cells : List Cell}
    (h : resolve index raw = .ok cells) :
    cells.length = raw.length ∧ ∀ i cell, raw[i]? = some cell → ∃ children,
      cells[i]? = some (.mk cell.bits children) ∧
      List.Forall₂ (fun r child => index + i < r ∧ cells[r - index]? = some child)
        cell.refs children := by
  induction raw generalizing index cells with
  | nil =>
    obtain rfl : cells = [] := by simpa [resolve, eq_comm] using h
    simp
  | cons first raw ih =>
    simp only [resolve, Except.bind_eq_ok, Except.pure_eq_ok] at h
    obtain ⟨later, hlater, children, hchildren, rfl⟩ := h
    obtain ⟨hlength, hbuilt⟩ := ih hlater
    refine ⟨by rw [List.length_cons, List.length_cons, hlength], fun i cell hcell => ?_⟩
    cases i with
    | zero =>
      obtain rfl : first = cell := by simpa using hcell
      refine ⟨children, rfl, (List.mapM_eq_ok.1 hchildren).imp fun r child hr => ?_⟩
      obtain ⟨hle, hr⟩ := lookup_eq_ok.1 hr
      rw [show r - index = (r - (index + 1)) + 1 by omega]
      exact ⟨hle, hr⟩
    | succ i =>
      obtain ⟨below, hcells, hrefs⟩ := hbuilt i cell hcell
      refine ⟨below, hcells, hrefs.imp fun r child hr => ?_⟩
      rw [show r - index = (r - (index + 1)) + 1 by omega]
      exact ⟨by omega, hr.2⟩

/-- **References point to later cells.** Positions are turned into cells only if they do. -/
theorem resolve_links {raw : List RawCell} {cells : List Cell} (h : resolve 0 raw = .ok cells) :
    Links raw cells := by
  obtain ⟨hlength, hbuilt⟩ := resolve_built h
  refine ⟨hlength, fun i cell hcell r hr => ?_, fun i cell hcell => ?_⟩
  · obtain ⟨children, -, hrefs⟩ := hbuilt i cell hcell
    have hlater : ∀ r ∈ cell.refs, i < r ∧ r < raw.length :=
      List.forall_mem_of_forall₂ (P := fun _ => True) hrefs.flip (fun child r hr _ => ?_) (by simp)
    · exact hlater r hr
    · obtain ⟨hlt, hchild⟩ := hr
      obtain ⟨hget, -⟩ := List.getElem?_eq_some_iff.1 hchild
      omega
  · obtain ⟨children, hcells, hrefs⟩ := hbuilt i cell hcell
    exact ⟨children, hcells, hrefs.imp fun r child hr => by simpa using hr.2⟩

mutual

/-- What is below a cell of a list is in the list if what its cells refer to is. -/
theorem mem_of_mem_subcells {cells : List Cell} (hrefs : ∀ d ∈ cells, ∀ r ∈ d.refs, r ∈ cells) :
    (c : Cell) → c ∈ cells → ∀ d ∈ c.subcells, d ∈ cells
  | .mk bits refs, hc, d, hd => by
    rcases List.mem_cons.1 hd with rfl | hd
    · exact hc
    · exact mem_of_mem_subcellsAll hrefs refs (hrefs _ hc) d hd

theorem mem_of_mem_subcellsAll {cells : List Cell} (hrefs : ∀ d ∈ cells, ∀ r ∈ d.refs, r ∈ cells) :
    (cs : List Cell) → (∀ c ∈ cs, c ∈ cells) → ∀ d ∈ Cell.subcellsAll cs, d ∈ cells
  | c :: cs, hcs, d, hd => by
    rw [List.forall_mem_cons] at hcs
    rcases List.mem_append.1 hd with hd | hd
    · exact mem_of_mem_subcells hrefs c hcs.1 d hd
    · exact mem_of_mem_subcellsAll hrefs cs hcs.2 d hd

end

namespace Links

variable {raw : List RawCell} {cells : List Cell}

theorem exists_raw (h : Links raw cells) {c : Cell} (hc : c ∈ cells) :
    ∃ cell ∈ raw, c.bits = cell.bits ∧
      List.Forall₂ (fun r child => cells[r]? = some child) cell.refs c.refs := by
  obtain ⟨i, hi, rfl⟩ := List.getElem_of_mem hc
  have hcell := List.getElem?_eq_getElem (h.length_eq ▸ hi)
  obtain ⟨children, hbuilt, hrefs⟩ := h.built i _ hcell
  rw [List.getElem?_eq_getElem hi, Option.some.injEq] at hbuilt
  rw [hbuilt]
  exact ⟨_, List.getElem_mem _, rfl, hrefs⟩

theorem mem_of_mem_refs (h : Links raw cells) : ∀ c ∈ cells, ∀ r ∈ c.refs, r ∈ cells := by
  intro c hc
  obtain ⟨cell, -, -, hrefs⟩ := h.exists_raw hc
  exact List.forall_mem_of_forall₂ (P := fun _ => True) hrefs
    (fun _ _ hchild _ => List.mem_of_getElem? hchild) (by simp)

theorem bounded (h : Links raw cells) (hraw : ∀ cell ∈ raw, cell.Bounded) :
    ∀ c ∈ cells, c.bits.length ≤ Cell.maxBits ∧ c.refs.length ≤ maxRefs := by
  intro c hc
  obtain ⟨cell, hcell, hbits, hrefs⟩ := h.exists_raw hc
  obtain ⟨hle, hle'⟩ := hraw cell hcell
  exact ⟨hbits ▸ hle, hrefs.length_eq ▸ hle'⟩

theorem mem_of_mem_subcells (h : Links raw cells) {root : Nat} {c : Cell} (hc : cells[root]? = some c) :
    ∀ d ∈ c.subcells, d ∈ cells :=
  Bag.mem_of_mem_subcells h.mem_of_mem_refs c (List.mem_of_getElem? hc)

/-- Different subcells of a listed cell are different listed cells. -/
theorem length_dedup_le (h : Links raw cells) {root : Nat} {c : Cell} (hc : cells[root]? = some c) :
    c.subcells.dedup.length ≤ raw.length := by
  rw [← h.length_eq]
  exact ((List.nodup_dedup _).subperm fun d hd => h.mem_of_mem_subcells hc d (List.mem_dedup.1 hd)).length_le

end Links

/-- An accepted bag lists the cell and everything below it. -/
theorem links_of_decode {bytes : List UInt8} {memory : Memory} {c : Cell}
    (h : decode bytes memory = .ok c) : ∃ root raw rest cells,
      contents memory bytes = .ok ((root, raw), rest) ∧ Links raw cells ∧ cells[root]? = some c := by
  simp only [decode, StateT.run, Except.bind_eq_ok] at h
  obtain ⟨⟨⟨root, raw⟩, rest⟩, hcontents, cells, hcells, hroot⟩ := h
  refine ⟨root, raw, rest, cells, hcontents, resolve_links hcells, ?_⟩
  split at hroot
  · next hc => simpa [Except.pure_eq_ok.1 hroot] using hc
  · cases hroot

/-- A bag tells the number of its cells in seven bytes, so that no cell with too many different
subcells is read from one. -/
theorem length_dedup_lt_of_decode {bytes : List UInt8} {memory : Memory} {c : Cell}
    (h : decode bytes memory = .ok c) : c.subcells.dedup.length < 2 ^ 56 := by
  obtain ⟨root, raw, rest, cells, hcontents, hlinks, hc⟩ := links_of_decode h
  obtain ⟨head, mid, hheader, -, -, hrun⟩ := contents_eq_ok_iff.1 hcontents
  have hlength := ((gives_rawCells _ _).property _ _ _ hrun).1
  exact (hlength ▸ hlinks.length_dedup_le hc).trans_lt (gives_header.property _ _ _ hheader)

/-! ### Cells of which there are too many -/

/-- A bag is read back as its root exactly if the number of its cells can be told. -/
theorem decodeHex_encodeHex_eq_ok_iff {c : Cell}
    (hbudget : ∀ d ∈ c.subcells, d.bits.length ≤ Cell.maxBits ∧ d.refs.length ≤ maxRefs)
    (hdistinct : c.Distinguished) :
    decodeHex (encodeHex c) = .ok c ↔ c.subcells.dedup.length < 2 ^ 56 := by
  rw [decodeHex_encodeHex]
  exact ⟨length_dedup_lt_of_decode, fun hcount => decode_encode hbudget hcount hdistinct rfl⟩

/-- A tree of cells that all differ: the bits of each spell the way to it. -/
def spread : (height : Nat) → (path : List Bool) → Cell
  | 0, path => .mk path []
  | n + 1, path => .mk path [spread n (path ++ [false]), spread n (path ++ [true])]

theorem depth_spread (n : Nat) (path : List Bool) : (spread n path).depth = n := by
  induction n generalizing path with
  | zero => rfl
  | succ n ih => simp [spread, Cell.depth, Cell.depthBelow, ih]

theorem spread_bounded (n : Nat) (path : List Bool) : ∀ d ∈ (spread n path).subcells,
    d.bits.length ≤ path.length + n ∧ d.refs.length ≤ 2 := by
  induction n generalizing path with
  | zero => simp [spread, Cell.subcells, Cell.subcellsAll]
  | succ n ih =>
    intro d hd
    simp only [spread, Cell.subcells, Cell.subcellsAll, List.append_nil, List.mem_cons,
      List.mem_append] at hd
    rcases hd with rfl | hd | hd
    · simp
    all_goals
      have hbelow := ih _ d hd
      rw [List.length_append, List.length_singleton] at hbelow
      exact ⟨by omega, hbelow.2⟩

/-- Whatever turns are taken, there is a cell at the end. -/
theorem mem_subcells_spread (n : Nat) (path turns : List Bool) (h : turns.length = n) :
    Cell.mk (path ++ turns) [] ∈ (spread n path).subcells := by
  induction n generalizing path turns with
  | zero =>
    obtain rfl := List.length_eq_zero_iff.1 h
    simp [spread, Cell.subcells]
  | succ n ih =>
    obtain ⟨turn, turns, rfl⟩ := List.exists_cons_of_length_eq_add_one h
    have hbelow := ih (path ++ [turn]) turns (by simpa using h)
    rw [List.append_assoc, List.singleton_append] at hbelow
    cases turn <;> simp [spread, Cell.subcells, Cell.subcellsAll, hbelow]

theorem two_pow_le_length_dedup_spread (n : Nat) (path : List Bool) :
    2 ^ n ≤ (spread n path).subcells.dedup.length := by
  have hnodup : ((List.range (2 ^ n)).map fun k => Cell.mk (path ++ Bits.ofNat n k) []).Nodup := by
    refine List.Nodup.map_on (fun j hj k hk hcell => ?_) List.nodup_range
    have hbits := congrArg Bits.toNat (List.append_cancel_left (Cell.mk.inj hcell).1)
    rwa [Bits.toNat_ofNat, Bits.toNat_ofNat, Nat.mod_eq_of_lt (List.mem_range.1 hj),
      Nat.mod_eq_of_lt (List.mem_range.1 hk)] at hbits
  have hsub : ((List.range (2 ^ n)).map fun k => Cell.mk (path ++ Bits.ofNat n k) []) ⊆
      (spread n path).subcells.dedup := by
    intro d hd
    obtain ⟨k, -, rfl⟩ := List.mem_map.1 hd
    exact List.mem_dedup.2 (mem_subcells_spread n path _ (Bits.length_ofNat n k))
  simpa using (hnodup.subperm hsub).length_le

/-- There are cells within every budget that are not read back from their bags: the bag does not tell
how many there are. -/
theorem exists_unreadable : ∃ c : Cell,
    (∀ d ∈ c.subcells, d.bits.length ≤ Cell.maxBits ∧ d.refs.length ≤ Cell.maxRefs) ∧
      c.depth ≤ Cell.maxDepth ∧ decodeHex (encodeHex c) ≠ .ok c := by
  refine ⟨spread 56 [], fun d hd => ?_, ?_, fun h => ?_⟩
  · obtain ⟨hbits, hrefs⟩ := spread_bounded 56 [] d hd
    exact ⟨hbits.trans (by decide), hrefs.trans (by decide)⟩
  · rw [depth_spread]
    decide
  · rw [decodeHex_encodeHex] at h
    exact absurd (two_pow_le_length_dedup_spread 56 []) (Nat.not_le.2 (length_dedup_lt_of_decode h))

/-! ### All bags -/

-- flags in the width and in both first descriptors, data that is zero but filled up, more bytes
-- behind the cells
example : decode (magic ++ [0x09, 1, 3, 1, 0, 0, 0, 0xfa, 1, 0xc0, 1, 2, 0, 0, 0x08, 1, 0, 0x55]) =
    .ok (.mk [true] [.mk [] [], .mk [] []]) := by decide +kernel

end Bag

end CellCompiler
