import CellCompiler.Proofs.Address

/-!
# Values stored one after the other

A script is a list of values, each with the way it is stored: bits, integers, amounts, references,
bytes and addresses. Reading uses the ways only, not the values.

* `Cell.Item` is a value with the way it is stored and `Cell.Slot` the way alone;
* `Cell.Item.store_eq_ok` and `Cell.Item.load_holds` say what one value adds to a builder and that it
  is read from the front of a slice;
* `Cell.script_roundTrips` is the main result: what range checks refuse, and that a script that has
  been stored is read back to the end of the cell.
-/

namespace CellCompiler

/-! ### Pieces -/

namespace Builder

variable {b b' : Builder}

/-- Append pieces, each of them all or nothing, and stop at the first for which there is no room. -/
def appends : List (List Bool × List Cell) → Store
  | [] => return
  | (bits, refs) :: rest => do
    append bits refs
    appends rest

theorem append_eq_error {bits : List Bool} {refs : List Cell} {e : Cell.Error} :
    append bits refs b = .error e b' ↔ ¬ b.Room bits.length refs.length ∧ b' = b ∧
      e = .overflow (b.bits.length + bits.length) (b.refs.length + refs.length) := by
  unfold append
  cases h : b.ensure bits.length refs.length with
  | ok => simp [← ensure_eq_ok, h]
  | error e' =>
    have he : e' = .overflow (b.bits.length + bits.length) (b.refs.length + refs.length) := by
      unfold ensure at h
      split at h
      · exact (Except.error.inj h).symm
      · cases h
    simp [← ensure_eq_ok, h, he, eq_comm, and_comm]

theorem appends_cons (bits : List Bool) (refs : List Cell) (rest : List (List Bool × List Cell)) :
    appends ((bits, refs) :: rest) = (do append bits refs; appends rest) := rfl

theorem appends_singleton (bits : List Bool) (refs : List Cell) :
    appends [(bits, refs)] = append bits refs := by
  funext b
  change EStateM.bind (append bits refs) (fun _ => EStateM.pure ()) b = _
  unfold EStateM.bind
  cases append bits refs b <;> rfl

theorem andThen_eq_error {first second : Store} {e : Cell.Error} :
    (do first; second : Store) b = .error e b' ↔
      first b = .error e b' ∨ ∃ mid, first b = .ok () mid ∧ second mid = .error e b' := by
  change EStateM.bind first (fun _ => second) b = _ ↔ _
  unfold EStateM.bind
  cases first b <;> simp

/-- Pieces that are not appended leave those before the first for which there is no room. -/
theorem appends_eq_error {pieces : List (List Bool × List Cell)} {e : Cell.Error}
    (h : appends pieces b = .error e b') : ∃ done : List (List Bool × List Cell),
      ∃ piece rest, pieces = done ++ piece :: rest ∧
      b' = b.push (done.flatMap Prod.fst) (done.flatMap Prod.snd) ∧
      ¬ b'.Room piece.1.length piece.2.length ∧
      e = .overflow (b'.bits.length + piece.1.length) (b'.refs.length + piece.2.length) := by
  induction pieces generalizing b with
  | nil => simp [appends, pure, EStateM.pure] at h
  | cons piece rest ih =>
    obtain ⟨bits, refs⟩ := piece
    rcases andThen_eq_error.1 h with h | ⟨mid, hmid, h⟩
    · obtain ⟨hroom, rfl, he⟩ := append_eq_error.1 h
      exact ⟨[], (bits, refs), rest, rfl, by simp, hroom, he⟩
    · obtain ⟨-, rfl⟩ := append_eq_ok.1 hmid
      obtain ⟨done, piece, others, rfl, hb', hfull⟩ := ih h
      exact ⟨(bits, refs) :: done, piece, others, rfl, by simpa using hb', hfull⟩

theorem storeRaw_eq_append (v : Int) (width : Nat) :
    storeRaw v width = append (Bits.ofInt width v) [] := by
  funext b
  simp only [storeRaw, append, Bits.length_ofInt, List.length_nil, List.append_nil]

end Builder

/-! ### Values and the ways they are stored -/

namespace Cell

/-- A value with the way it is stored. -/
inductive Item where
  | bit (bit : Bool)
  | uint (v : Int) (width : Nat)
  | int (v : Int) (width : Nat)
  | coins (v : Int)
  | ref (cell : Cell)
  | bytes (bytes : List UInt8)
  | address (a : Address)
  deriving DecidableEq

/-- A way to store a value, which is what a reader knows. -/
inductive Slot where
  | bit
  | uint (width : Nat)
  | int (width : Nat)
  | coins
  | ref
  | bytes (count : Nat)
  | address

namespace Item

/-- Store the value. -/
def store : Item → Builder.Store
  | bit v => Builder.storeBit v
  | uint v width => Builder.storeUint v width
  | int v width => Builder.storeInt v width
  | coins v => Builder.storeCoins v
  | ref c => Builder.storeRef c
  | bytes bs => Builder.storeBytes bs
  | address a => a.store

/-- The way the value is stored. -/
def slot : Item → Slot
  | bit _ => .bit
  | uint _ width => .uint width
  | int _ width => .int width
  | coins _ => .coins
  | ref _ => .ref
  | bytes bs => .bytes bs.length
  | address _ => .address

/-- The range that a store checks: what a natural number or a two's complement of this width, or an
amount, can be. -/
def InRange : Item → Prop
  | uint v width => 0 ≤ v ∧ v < 2 ^ width
  | int v 0 => v = 0
  | int v (width + 1) => -2 ^ width ≤ v ∧ v < 2 ^ width
  | coins v => 0 ≤ v ∧ v < 2 ^ 120
  | _ => True

/-- The bits that the value takes. -/
def bits : Item → List Bool
  | bit v => [v]
  | uint v width | int v width => Bits.ofInt width v
  | coins v => Builder.coinsBits v
  | ref _ => []
  | bytes bs => Bits.ofBytes bs
  | address a => a.cellBits

/-- The references that the value takes. -/
def refs : Item → List Cell
  | ref c => [c]
  | _ => []

end Item

/-- Read a value that has been stored in this way. -/
def Slot.load : Slot → EStateM Address.LoadError Slice Item
  | bit => return .bit (← EStateM.adaptExcept .cell Slice.loadBit)
  | uint width => return .uint (← EStateM.adaptExcept .cell (Slice.loadUint width)) width
  | int width => return .int (← EStateM.adaptExcept .cell (Slice.loadInt width)) width
  | coins => return .coins (← EStateM.adaptExcept .cell Slice.loadCoins)
  | ref => return .ref (← EStateM.adaptExcept .cell Slice.loadRef)
  | bytes count => return .bytes (← EStateM.adaptExcept .cell (Slice.loadBytes count))
  | address => return .address (← Address.load)

/-- Store values one after the other. -/
def storeAll : List Item → Builder.Store
  | [] => return
  | item :: rest => do
    item.store
    storeAll rest

/-- Read values one after the other. -/
def loadAll : List Slot → EStateM Address.LoadError Slice (List Item)
  | [] => return []
  | slot :: rest => do
    let item ← slot.load
    return item :: (← loadAll rest)

variable {item : Item} {items : List Item} {b b' : Builder}

namespace Item

theorem fitsSigned_iff {v : Int} {width : Nat} :
    Bits.fitsSigned v width = true ↔ (int v width).InRange := by
  cases width with
  | zero => simp [Bits.fitsSigned, InRange]
  | succ width => exact Bits.fitsSigned_succ_iff

/-- A value is stored exactly if it is in range and there is room for it. -/
theorem store_eq_ok : item.store b = .ok () b' ↔
    item.InRange ∧ b.Room item.bits.length item.refs.length ∧ b' = b.push item.bits item.refs := by
  cases item with
  | bit v => simpa [store, InRange, bits, refs] using Builder.storeBit_eq_ok
  | uint v width =>
    simpa [store, InRange, bits, refs, Bits.fitsUnsigned_iff] using Builder.storeUint_eq_ok
  | int v width =>
    rw [← fitsSigned_iff]
    simpa [store, bits, refs] using Builder.storeInt_eq_ok
  | coins v =>
    have hstored : Builder.storeCoins v b = .ok () b' ↔ _ := Builder.storeCoins_eq_ok
    simpa [store, InRange, bits, refs, Bits.fitsUnsigned_iff, Builder.maxCoinsBits] using hstored
  | ref c => simpa [store, InRange, bits, refs] using Builder.storeRef_eq_ok
  | bytes bs => simpa [store, InRange, bits, refs] using Builder.storeBytes_eq_ok
  | address a => simpa [store, InRange, bits, refs] using Address.store_eq_ok

/-- A value is read from the front of a slice by the way it has been stored. -/
theorem load_holds {s : Slice} {rest : List Bool} {others : List Cell} (hrange : item.InRange)
    (h : s.Holds (item.bits ++ rest) (item.refs ++ others)) :
    ∃ s', item.slot.load s = .ok item s' ∧ s'.Holds rest others := by
  cases item with
  | bit v =>
    obtain ⟨s', hload, hs'⟩ := Slice.loadBit_holds h
    exact ⟨s', Address.adapt_bind_ok hload, hs'⟩
  | uint v width =>
    have h : s.Holds (Bits.ofInt width v ++ rest) others := h
    obtain ⟨s', hload, hs'⟩ := Slice.loadUint_holds h (Bits.length_ofInt width v)
    rw [Bits.toNat_ofInt (Bits.fitsUnsigned_iff.2 hrange)] at hload
    exact ⟨s', Address.adapt_bind_ok hload, hs'⟩
  | int v width =>
    have h : s.Holds (Bits.ofInt width v ++ rest) others := h
    obtain ⟨s', hload, hs'⟩ := Slice.loadInt_holds h (Bits.length_ofInt width v)
    rw [Bits.toInt_ofInt (fitsSigned_iff.2 hrange)] at hload
    exact ⟨s', Address.adapt_bind_ok hload, hs'⟩
  | coins v =>
    obtain ⟨s', hload, hs'⟩ := Slice.loadCoins_holds (Bits.fitsUnsigned_iff.2 hrange) h
    exact ⟨s', Address.adapt_bind_ok hload, hs'⟩
  | ref c =>
    obtain ⟨s', hload, hs'⟩ := Slice.loadRef_holds h
    exact ⟨s', Address.adapt_bind_ok hload, hs'⟩
  | bytes bs =>
    have h : s.Holds (Bits.ofBytes bs ++ rest) others := h
    obtain ⟨s', hload, hs'⟩ := Slice.loadBits_holds h (n := bs.length * 8)
      ((Bag.length_ofBytes bs).trans (Nat.mul_comm 8 _))
    have hbytes := Slice.load_map (f := Bits.toBytes) hload
    rw [Bits.toBytes_ofBytes] at hbytes
    exact ⟨s', Address.adapt_bind_ok hbytes, hs'⟩
  | address a =>
    obtain ⟨s', hload, hs'⟩ := Address.load_holds h
    refine ⟨s', ?_, hs'⟩
    change EStateM.bind Address.load _ s = _
    simp only [EStateM.bind, hload]
    rfl

end Item

/-! ### Range checks -/

namespace Item

/-- The pieces in which the value is stored, each all or nothing. -/
def pieces : Item → List (List Bool × List Cell)
  | coins v =>
    let size := (Bits.bitLength v.toNat + 7) / 8
    [(Bits.ofInt 4 size, []), (Bits.ofInt (size * 8) v, [])]
  | address a =>
    [([true, false], []), ([false], []), (Bits.ofInt 8 a.workchain.toInt, []),
      (Bits.ofBytes a.account, [])]
  | item => [(item.bits, item.refs)]

/-- A value that is in range is stored piece by piece. -/
theorem store_of_inRange (h : item.InRange) : item.store = Builder.appends item.pieces := by
  cases item with
  | bit v => exact (Builder.appends_singleton [v] []).symm
  | uint v width =>
    rw [store, Builder.storeUint, if_pos (Bits.fitsUnsigned_iff.2 h), Builder.storeRaw_eq_append]
    exact (Builder.appends_singleton _ _).symm
  | int v width =>
    rw [store, Builder.storeInt, if_pos (fitsSigned_iff.2 h), Builder.storeRaw_eq_append]
    exact (Builder.appends_singleton _ _).symm
  | coins v =>
    have hv : Bits.fitsUnsigned v Builder.maxCoinsBits = true := Bits.fitsUnsigned_iff.2 h
    obtain ⟨hsize, hvalue⟩ := Builder.fitsUnsigned_coinsSize hv
    rw [pieces, Builder.appends_cons, Builder.appends_singleton]
    simp only [store, Builder.storeCoins, hv, if_true, Builder.storeUint, hsize, hvalue,
      Builder.storeRaw_eq_append]
  | ref c => exact (Builder.appends_singleton [] [c]).symm
  | bytes bs => exact (Builder.appends_singleton (Bits.ofBytes bs) []).symm
  | address a =>
    have htag : Bits.fitsUnsigned 2 2 = true := by decide
    have htagBits : Bits.ofInt 2 2 = [true, false] := by decide
    rw [pieces, Builder.appends_cons, Builder.appends_cons, Builder.appends_cons,
      Builder.appends_singleton]
    simp only [store, Address.store, Builder.storeUint, Builder.storeInt, htag,
      a.fitsSigned_workchain, if_true, Builder.storeRaw_eq_append, htagBits]
    rfl

/-- A value that is not in range is refused before anything is stored. -/
theorem store_of_not_inRange (h : ¬ item.InRange) :
    ∃ v width, ∀ b, item.store b = .error (.integerOutOfRange v width) b := by
  cases item with
  | uint v width =>
    refine ⟨v, width, fun b => ?_⟩
    rw [store, Builder.storeUint, if_neg (fun hv => h (Bits.fitsUnsigned_iff.1 hv))]
    rfl
  | int v width =>
    refine ⟨v, width, fun b => ?_⟩
    rw [store, Builder.storeInt, if_neg (fun hv => h (fitsSigned_iff.1 hv))]
    rfl
  | coins v =>
    have hv : ¬ Bits.fitsUnsigned v Builder.maxCoinsBits = true :=
      fun hv => h (Bits.fitsUnsigned_iff.1 hv)
    refine ⟨v, Builder.maxCoinsBits, fun b => ?_⟩
    rw [store, Builder.storeCoins, if_neg hv]
    rfl
  | _ => exact absurd trivial h

end Item

/-- The store does not stop at a range check. -/
def PassesRange (store : Builder.Store) (b : Builder) : Prop :=
  ∀ v width b', store b ≠ .error (.integerOutOfRange v width) b'

theorem Item.passesRange_iff (item : Item) (b : Builder) :
    PassesRange item.store b ↔ item.InRange := by
  refine ⟨fun h => ?_, fun h v width b' herror => ?_⟩
  · by_contra hrange
    obtain ⟨v, width, herror⟩ := item.store_of_not_inRange hrange
    exact h v width b (herror b)
  · rw [item.store_of_inRange h] at herror
    obtain ⟨_, _, _, -, -, -, he⟩ := Builder.appends_eq_error herror
    cases he

/-! ### Scripts -/

/-- A script stops at a range check exactly if it comes to a value that is not in range. -/
theorem storeAll_passesRange_iff : PassesRange (storeAll items) b ↔
    ∀ before (item : Item) after mid, items = before ++ item :: after → storeAll before b = .ok () mid →
      item.InRange := by
  induction items generalizing b with
  | nil =>
    refine iff_of_true (fun v width b' h => ?_) fun before item after mid h => by simp at h
    simp [storeAll, pure, EStateM.pure] at h
  | cons first rest ih =>
    constructor
    · intro h before item after mid hitems hbefore
      cases before with
      | nil =>
        obtain ⟨rfl, -⟩ := List.cons.inj hitems
        refine (first.passesRange_iff b).1 fun v width b' herror => ?_
        exact h v width b' (Builder.andThen_eq_error.2 (.inl herror))
      | cons earlier before =>
        obtain ⟨rfl, rfl⟩ := List.cons.inj hitems
        obtain ⟨b₁, hfirst, hbefore⟩ := Builder.andThen_eq_ok.1 hbefore
        refine ih.1 (fun v width b' herror => ?_) before item after mid rfl hbefore
        exact h v width b' (Builder.andThen_eq_error.2 (.inr ⟨b₁, hfirst, herror⟩))
    · intro h v width b' herror
      rcases Builder.andThen_eq_error.1 herror with herror | ⟨b₁, hfirst, herror⟩
      · exact (first.passesRange_iff b).2 (h [] first rest b rfl rfl) v width b' herror
      · refine ih.2 (fun before item after mid hitems hbefore => ?_) v width b' herror
        exact h (first :: before) item after mid (by rw [hitems, List.cons_append])
          (Builder.andThen_eq_ok.2 ⟨b₁, hfirst, hbefore⟩)

/-- The values that a script stores are in range, and they stand in the builder in their order. -/
theorem storeAll_eq_ok (h : storeAll items b = .ok () b') : (∀ item ∈ items, item.InRange) ∧
    b' = b.push (items.flatMap Item.bits) (items.flatMap Item.refs) ∧ (b.Room 0 0 → b'.Room 0 0) := by
  induction items generalizing b with
  | nil =>
    obtain rfl : b = b' := by simpa [storeAll, pure, EStateM.pure] using h
    simp
  | cons item rest ih =>
    obtain ⟨mid, hitem, hrest⟩ := Builder.andThen_eq_ok.1 h
    obtain ⟨hrange, hroom, rfl⟩ := Item.store_eq_ok.1 hitem
    obtain ⟨hranges, hb', hkeeps⟩ := ih hrest
    refine ⟨List.forall_mem_cons.2 ⟨hrange, hranges⟩, by simp [hb'], fun hb => hkeeps ?_⟩
    exact (Builder.room_append.2 hroom).2

/-- The values of a script are read from the front of a slice. -/
theorem loadAll_holds {s : Slice} {rest : List Bool} {others : List Cell}
    (hrange : ∀ item ∈ items, item.InRange)
    (h : s.Holds (items.flatMap Item.bits ++ rest) (items.flatMap Item.refs ++ others)) :
    ∃ s', loadAll (items.map Item.slot) s = .ok items s' ∧ s'.Holds rest others := by
  induction items generalizing s with
  | nil => exact ⟨s, rfl, h⟩
  | cons item items ih =>
    rw [List.forall_mem_cons] at hrange
    simp only [List.flatMap_cons, List.append_assoc] at h
    obtain ⟨s₁, hload, hs₁⟩ := Item.load_holds hrange.1 h
    obtain ⟨s₂, hloads, hs₂⟩ := ih hrange.2 hs₁
    refine ⟨s₂, ?_, hs₂⟩
    change EStateM.bind item.slot.load _ s = _
    simp only [EStateM.bind, hload]
    change EStateM.bind (loadAll (items.map Item.slot)) _ s₁ = _
    simp only [EStateM.bind, hloads]
    rfl

/-- **Scripts are read back.** Range checks refuse exactly what the width cannot hold, whatever has
been stored before: a natural number outside `0` to `2 ^ n - 1`, an integer outside `-2 ^ (n - 1)` to
`2 ^ (n - 1) - 1` (other than zero for no bits), an amount outside `0` to `2 ^ 120 - 1`; a script stops
at a range check exactly when it comes to such a value. A script that has been stored on its own makes
a cell, and reading the same ways in the same order gives its values and comes to the end of the
cell. -/
theorem script_roundTrips :
    (∀ (v : Int) (n : Nat) (b : Builder),
      (PassesRange (Builder.storeUint v n) b ↔ 0 ≤ v ∧ v < 2 ^ n) ∧
      (PassesRange (Builder.storeInt v n) b ↔
        if n = 0 then v = 0 else -2 ^ (n - 1) ≤ v ∧ v < 2 ^ (n - 1)) ∧
      (PassesRange (Builder.storeCoins v) b ↔ 0 ≤ v ∧ v < 2 ^ 120)) ∧
    (∀ (items : List Item) (b : Builder), PassesRange (storeAll items) b ↔
      ∀ before item after mid, items = before ++ item :: after → storeAll before b = .ok () mid →
        item.InRange) ∧
    ∀ (items : List Item) (b : Builder), storeAll items .empty = .ok () b →
      ∃ cell s, b.build = .ok cell ∧ loadAll (items.map Item.slot) cell.parse = .ok items s ∧
        s.isEmpty = true ∧ s.endParse = .ok () := by
  refine ⟨fun v n b => ⟨?_, ?_, ?_⟩, fun items b => storeAll_passesRange_iff, fun items b h => ?_⟩
  · exact Item.passesRange_iff (.uint v n) b
  · refine (Item.passesRange_iff (.int v n) b).trans ?_
    cases n <;> simp [Item.InRange]
  · exact Item.passesRange_iff (.coins v) b
  · obtain ⟨hrange, hb, hkeeps⟩ := storeAll_eq_ok h
    have hroom : b.Room 0 0 := hkeeps (by simp [Builder.Room, Builder.empty])
    rw [Builder.push_empty] at hb
    have hstart : (Cell.mk b.bits b.refs).parse.Holds (items.flatMap Item.bits ++ [])
        (items.flatMap Item.refs ++ []) := by
      simpa [hb] using Slice.holds_parse b.bits b.refs
    obtain ⟨s, hload, hs⟩ := loadAll_holds hrange hstart
    refine ⟨_, s, Builder.build_eq_ok.2 ⟨hroom, rfl⟩, hload, ?_, Slice.endParse_holds hs⟩
    simp [Slice.isEmpty, Slice.remainingBits_eq, Slice.remainingRefs_eq, hs.bits_eq, hs.refs_eq]

/-- A value of every kind, among them numbers of no bits and an amount of no bytes. -/
def transferScript : List Item :=
  [.bit true, .uint 0 0, .int 0 0, .int (-5) 8, .coins 1000000000, .coins 0, .ref .empty,
    .bytes [1, 2, 3], .address ⟨-1, List.replicate 32 255, rfl⟩, .uint 255 8]

theorem transfer_roundTrips : ∃ b cell s, storeAll transferScript .empty = .ok () b ∧
    b.build = .ok cell ∧ loadAll (transferScript.map Item.slot) cell.parse = .ok transferScript s ∧
      s.isEmpty = true ∧ s.endParse = .ok () := by
  have hstored : (match storeAll transferScript .empty with | .ok .. => true | .error .. => false) =
      true := by decide +kernel
  obtain ⟨b, hb⟩ : ∃ b, storeAll transferScript .empty = .ok () b := by
    cases hrun : storeAll transferScript .empty with
    | ok _ b => exact ⟨b, rfl⟩
    | error e b => simp [hrun] at hstored
  obtain ⟨cell, s, h⟩ := script_roundTrips.2.2 transferScript b hb
  exact ⟨b, cell, s, hb, h⟩

end Cell

end CellCompiler
