import CellCompiler.Proofs.Cell.Trace

/-!
# Texts in cells

A text is stored in the whole bytes that a builder has left and, where they do not suffice, in a chain
of cells behind a reference. Storing the rest is storing a text again, in a new builder.

* `Builder.Stores` is that recursion step by step; it ends for every text and every builder, and with
  what `Builder.storeStringTail` gives;
* `Builder.Reachable` says which builders there can be, and `Cell.Chain` what a chain of cells holds;
* `stringTail_lossless` is the main result: when a text is refused, and that nothing of it is lost.
-/

namespace CellCompiler

namespace Builder

variable {b b' : Builder} {bytes : List UInt8}

/-! ### The recursion -/

/-- What storing a text in a builder comes to. The rest of a text is stored in a new builder, and the
cell it makes is referred to. -/
inductive Stores : List UInt8 → Builder → EStateM.Result Cell.Error Builder Unit → Prop where
  | nothing (b : Builder) : Stores [] b (.ok () b)
  | whole {bytes : List UInt8} {b : Builder} : bytes ≠ [] → bytes.length ≤ b.availableBits / 8 →
      Stores bytes b (storeBytes bytes b)
  | headFails {bytes : List UInt8} {b b' : Builder} {e : Cell.Error} :
      b.availableBits / 8 < bytes.length →
      storeBytes (bytes.take (b.availableBits / 8)) b = .error e b' → Stores bytes b (.error e b')
  | restFails {bytes : List UInt8} {b mid next : Builder} {e : Cell.Error} :
      b.availableBits / 8 < bytes.length →
      storeBytes (bytes.take (b.availableBits / 8)) b = .ok () mid →
      Stores (bytes.drop (b.availableBits / 8)) empty (.error e next) → Stores bytes b (.error e mid)
  | buildFails {bytes : List UInt8} {b mid next : Builder} {e : Cell.Error} :
      b.availableBits / 8 < bytes.length →
      storeBytes (bytes.take (b.availableBits / 8)) b = .ok () mid →
      Stores (bytes.drop (b.availableBits / 8)) empty (.ok () next) →
      next.build = .error e → Stores bytes b (.error e mid)
  | chained {bytes : List UInt8} {b mid next : Builder} {cell : Cell} :
      b.availableBits / 8 < bytes.length →
      storeBytes (bytes.take (b.availableBits / 8)) b = .ok () mid →
      Stores (bytes.drop (b.availableBits / 8)) empty (.ok () next) →
      next.build = .ok cell → Stores bytes b (storeRef cell mid)

/-- The chain does not depend on the bound of its length, once that suffices. -/
theorem tailChain_eq_tailChain {m n : Nat} (hm : bytes.length ≤ m) (hn : bytes.length ≤ n) :
    tailChain m bytes = tailChain n bytes := by
  induction m generalizing n bytes with
  | zero =>
    obtain rfl : bytes = [] := List.length_eq_zero_iff.1 (by omega)
    cases n <;> rfl
  | succ m ih =>
    cases n with
    | zero =>
      obtain rfl : bytes = [] := List.length_eq_zero_iff.1 (by omega)
      rfl
    | succ n =>
      rw [tailChain, tailChain]
      split_ifs with hfits
      · rfl
      · have hpos : 0 < maxBytes := by decide
        rw [ih (n := n)] <;> rw [List.length_drop] <;> omega

theorem tailCell_of_le (h : bytes.length ≤ maxBytes) : tailCell bytes = .mk (Bits.ofBytes bytes) [] := by
  unfold tailCell
  cases bytes.length with
  | zero => rfl
  | succ n => rw [tailChain, if_pos h]

theorem tailCell_of_lt (h : maxBytes < bytes.length) : tailCell bytes =
    .mk (Bits.ofBytes (bytes.take maxBytes)) [tailCell (bytes.drop maxBytes)] := by
  have hpos : 0 < maxBytes := by decide
  obtain ⟨n, hn⟩ : ∃ n, bytes.length = n + 1 := ⟨bytes.length - 1, by omega⟩
  rw [tailCell, hn, tailChain, if_neg (by omega), tailCell]
  rw [tailChain_eq_tailChain (n := (bytes.drop maxBytes).length) _ le_rfl]
  rw [List.length_drop]
  omega

theorem room_empty : empty.Room 0 0 := by simp [Room, empty]

theorem availableBits_empty : empty.availableBits / 8 = maxBytes := by decide

/-! ### One step -/

theorem storeStringTail_of_le (hne : bytes ≠ []) (h : bytes.length ≤ b.availableBits / 8) :
    storeStringTail bytes b = storeBytes bytes b := by
  rw [storeStringTail_eq_appends, tailPieces, if_neg (by simpa using hne), if_neg (by omega),
    appends_singleton]
  rfl

theorem storeStringTail_of_lt (h : b.availableBits / 8 < bytes.length) :
    storeStringTail bytes b = (do
      storeBytes (bytes.take (b.availableBits / 8))
      storeRef (tailCell (bytes.drop (b.availableBits / 8))) : Store) b := by
  have hne : ¬ bytes.isEmpty = true := by
    rw [List.isEmpty_iff_length_eq_zero]
    omega
  rw [storeStringTail_eq_appends, tailPieces, if_neg hne, if_pos h, appends_cons, appends_singleton]
  rfl

/-- The whole bytes that a builder within its budget has left can be filled. -/
theorem exists_storeBytes (hb : b.Room 0 0) (h : bytes.length ≤ b.availableBits / 8) :
    ∃ mid, storeBytes bytes b = .ok () mid ∧ mid = b.push (Bits.ofBytes bytes) [] ∧ mid.Room 0 0 := by
  have hroom : b.Room (Bits.ofBytes bytes).length 0 := by
    simp only [Room, availableBits, Bag.length_ofBytes] at hb h ⊢
    omega
  exact ⟨_, storeBytes_eq_ok.2 ⟨hroom, rfl⟩, rfl, (room_append.2 hroom).2⟩

/-- A text is refused exactly if the bytes that are left do not suffice and there is no reference for
the others. -/
theorem exists_storeStringTail_iff (hb : b.Room 0 0) :
    (∃ b', storeStringTail bytes b = .ok () b' ∧ b'.Room 0 0) ↔
      ¬ (b.availableBits / 8 < bytes.length ∧ b.refs.length = Cell.maxRefs) := by
  by_cases hfit : b.availableBits / 8 < bytes.length
  · have hhead : (bytes.take (b.availableBits / 8)).length ≤ b.availableBits / 8 := by simp
    obtain ⟨mid, hmid, rfl, hroom⟩ := exists_storeBytes hb hhead
    rw [storeStringTail_of_lt hfit]
    constructor
    · rintro ⟨b', hb', -⟩ ⟨-, hfull⟩
      obtain ⟨mid, hmid', href⟩ := andThen_eq_ok.1 hb'
      obtain ⟨-, rfl⟩ := EStateM.Result.ok.inj (hmid.symm.trans hmid')
      have hspare := (storeRef_eq_ok.1 href).1.2
      rw [refs_push, List.append_nil] at hspare
      omega
    · intro hspare
      have href : (b.push (Bits.ofBytes (bytes.take (b.availableBits / 8))) []).Room 0 1 := by
        refine ⟨hroom.1, ?_⟩
        have hbudget := hb.2
        rw [refs_push, List.append_nil]
        omega
      exact ⟨_, andThen_eq_ok.2 ⟨_, hmid, storeRef_eq_ok.2 ⟨href, rfl⟩⟩, (room_append.2 href).2⟩
  · refine iff_of_true ?_ fun h => hfit h.1
    by_cases hne : bytes = []
    · exact ⟨b, by rw [hne]; rfl, hb⟩
    · obtain ⟨mid, hmid, -, hroom⟩ := exists_storeBytes hb (Nat.le_of_not_lt hfit)
      exact ⟨mid, by rw [storeStringTail_of_le hne (Nat.le_of_not_lt hfit), hmid], hroom⟩

/-- A text that begins a cell is stored, and the cell is the first of its chain. -/
theorem exists_storeStringTail_empty (bytes : List UInt8) :
    ∃ next, storeStringTail bytes empty = .ok () next ∧ next.build = .ok (tailCell bytes) := by
  obtain ⟨next, hnext, hroom⟩ : ∃ next, storeStringTail bytes empty = .ok () next ∧ next.Room 0 0 :=
    (exists_storeStringTail_iff room_empty).2 fun h => by simp [empty, Cell.maxRefs] at h
  refine ⟨next, hnext, build_eq_ok.2 ⟨hroom, ?_⟩⟩
  rw [storeStringTail_eq_ok hnext, availableBits_empty, push_empty, overhang]
  split_ifs with hfit
  · exact tailCell_of_lt hfit
  · rw [List.take_of_length_le (Nat.le_of_not_lt hfit)]
    exact tailCell_of_le (Nat.le_of_not_lt hfit)

/-! ### The whole recursion -/

theorem storeStringTail_of_stores {r : EStateM.Result Cell.Error Builder Unit}
    (h : Stores bytes b r) : storeStringTail bytes b = r := by
  induction h with
  | nothing b => rfl
  | whole hne hfit => exact storeStringTail_of_le hne hfit
  | headFails hfit hhead =>
    rw [storeStringTail_of_lt hfit]
    exact andThen_eq_error.2 (.inl hhead)
  | @restFails bytes b _ _ _ _ _ _ ih =>
    obtain ⟨next, hnext, -⟩ := exists_storeStringTail_empty (bytes.drop (b.availableBits / 8))
    cases hnext.symm.trans ih
  | @buildFails bytes b _ _ _ _ _ _ hbuild ih =>
    obtain ⟨next, hnext, hcell⟩ := exists_storeStringTail_empty (bytes.drop (b.availableBits / 8))
    obtain ⟨-, rfl⟩ := EStateM.Result.ok.inj (hnext.symm.trans ih)
    cases hcell.symm.trans hbuild
  | @chained bytes b _ _ _ hfit hhead _ hbuild ih =>
    obtain ⟨next, hnext, hcell⟩ := exists_storeStringTail_empty (bytes.drop (b.availableBits / 8))
    obtain ⟨-, rfl⟩ := EStateM.Result.ok.inj (hnext.symm.trans ih)
    obtain rfl := Except.ok.inj (hcell.symm.trans hbuild)
    rw [storeStringTail_of_lt hfit]
    change EStateM.bind _ _ b = _
    simp only [EStateM.bind, hhead]

/-- A text is stored if the rest of it is. -/
theorem exists_stores_of_rest
    (h : b.availableBits / 8 < bytes.length →
      ∃ r, Stores (bytes.drop (b.availableBits / 8)) empty r) : ∃ r, Stores bytes b r := by
  by_cases hfit : b.availableBits / 8 < bytes.length
  · cases hhead : storeBytes (bytes.take (b.availableBits / 8)) b with
    | error e b' => exact ⟨_, .headFails hfit hhead⟩
    | ok _ mid =>
      obtain ⟨r, hrest⟩ := h hfit
      cases r with
      | error e next => exact ⟨_, .restFails hfit hhead hrest⟩
      | ok _ next =>
        cases hbuild : next.build with
        | error e => exact ⟨_, .buildFails hfit hhead hrest hbuild⟩
        | ok cell => exact ⟨_, .chained hfit hhead hrest hbuild⟩
  · by_cases hne : bytes = []
    · exact ⟨_, hne ▸ Stores.nothing b⟩
    · exact ⟨_, .whole hne (Nat.le_of_not_lt hfit)⟩

/-- The first step may take no byte at all, but every later one begins a cell. -/
theorem exists_stores (bytes : List UInt8) (b : Builder) : ∃ r, Stores bytes b r := by
  have hempty : ∀ n, ∀ bytes : List UInt8, bytes.length ≤ n → ∃ r, Stores bytes empty r := by
    intro n
    induction n with
    | zero =>
      intro bytes hbytes
      exact exists_stores_of_rest fun hfit => by omega
    | succ n ih =>
      intro bytes hbytes
      refine exists_stores_of_rest fun hfit => ih _ ?_
      rw [List.length_drop, availableBits_empty, maxBytes]
      have : 0 < Cell.maxBits / 8 := by decide
      omega
  exact exists_stores_of_rest fun _ => hempty _ _ le_rfl

/-- Storing a text ends, with what the chain of cells gives. -/
theorem stores_iff {r : EStateM.Result Cell.Error Builder Unit} :
    Stores bytes b r ↔ storeStringTail bytes b = r := by
  refine ⟨storeStringTail_of_stores, ?_⟩
  rintro rfl
  obtain ⟨r, h⟩ := exists_stores bytes b
  rwa [storeStringTail_of_stores h]

/-! ### Builders there can be -/

theorem appends_room {pieces : List (List Bool × List Cell)} (hb : b.Room 0 0) :
    (∀ b', appends pieces b = .ok () b' → b'.Room 0 0) ∧
      ∀ e b', appends pieces b = .error e b' → b'.Room 0 0 := by
  induction pieces generalizing b with
  | nil =>
    refine ⟨fun b' h => ?_, fun e b' h => by cases h⟩
    obtain ⟨-, rfl⟩ := EStateM.Result.ok.inj h
    exact hb
  | cons piece rest ih =>
    have hmid : ∀ mid, append piece.1 piece.2 b = .ok () mid → mid.Room 0 0 := by
      intro mid h
      obtain ⟨hroom, rfl⟩ := append_eq_ok.1 h
      exact (room_append.2 hroom).2
    refine ⟨fun b' h => ?_, fun e b' h => ?_⟩
    · obtain ⟨mid, hfirst, hrest⟩ := andThen_eq_ok.1 h
      exact (ih (hmid mid hfirst)).1 b' hrest
    · rcases andThen_eq_error.1 h with hfirst | ⟨mid, hfirst, hrest⟩
      · rwa [(append_eq_error.1 hfirst).2.1]
      · exact (ih (hmid mid hfirst)).2 e b' hrest

/-- A builder that operations lead to from the empty one, also by failing. -/
inductive Reachable : Builder → Prop where
  | empty : Reachable .empty
  | stored (op : Cell.StoreOp) {b b' : Builder} : Reachable b → op.store b = .ok () b' → Reachable b'
  | failed (op : Cell.StoreOp) {b b' : Builder} {e : Cell.Error} : Reachable b →
      op.store b = .error e b' → Reachable b'

/-- Operations stay within the budget. -/
theorem Reachable.room (h : Reachable b) : b.Room 0 0 := by
  induction h with
  | empty => exact room_empty
  | @stored op b _ _ hstore ih =>
    by_cases hrange : op.InRange
    · rw [op.store_of_inRange b hrange] at hstore
      exact (appends_room ih).1 _ hstore
    · obtain ⟨e, herror⟩ := op.store_of_not_inRange hrange
      cases (herror b).symm.trans hstore
  | @failed op b _ _ _ hstore ih =>
    by_cases hrange : op.InRange
    · rw [op.store_of_inRange b hrange] at hstore
      exact (appends_room ih).2 _ _ hstore
    · obtain ⟨e, herror⟩ := op.store_of_not_inRange hrange
      obtain ⟨-, rfl⟩ := EStateM.Result.error.inj ((herror b).symm.trans hstore)
      exact ih

end Builder

/-! ### Chains of cells -/

namespace Cell

/-- The cell is the first of a chain that holds these bytes: 127 in each cell but the last, which has
some and no reference. -/
inductive Chain : Cell → List UInt8 → Prop where
  | last {bytes : List UInt8} : 1 ≤ bytes.length → bytes.length ≤ 127 →
      Chain (.mk (Bits.ofBytes bytes) []) bytes
  | link {bytes rest : List UInt8} {next : Cell} : bytes.length = 127 → Chain next rest →
      Chain (.mk (Bits.ofBytes bytes) [next]) (bytes ++ rest)

theorem chain_tailCell {bytes : List UInt8} (h : bytes ≠ []) :
    (Builder.tailCell bytes).Chain bytes := by
  have hmax : Builder.maxBytes = 127 := rfl
  generalize hn : bytes.length = n
  induction n using Nat.strong_induction_on generalizing bytes with
  | h n ih =>
    by_cases hfits : bytes.length ≤ Builder.maxBytes
    · rw [Builder.tailCell_of_le hfits]
      exact .last (List.length_pos_iff.2 h) hfits
    · have hlong : Builder.maxBytes < bytes.length := Nat.lt_of_not_le hfits
      have hlength : (bytes.drop Builder.maxBytes).length = n - 127 := by
        rw [List.length_drop, hn, hmax]
      have hrest : (Builder.tailCell (bytes.drop Builder.maxBytes)).Chain
          (bytes.drop Builder.maxBytes) :=
        ih (n - 127) (by omega) (by rw [← List.length_pos_iff]; omega) hlength
      have hhead : (bytes.take Builder.maxBytes).length = 127 := by
        rw [List.length_take]
        omega
      have hchain := Chain.link hhead hrest
      rwa [List.take_append_drop, ← Builder.tailCell_of_lt hlong] at hchain

end Cell

/-! ### Texts -/

theorem exists_stringCell (text : String) : ∃ cell, stringCell text = .ok cell := by
  obtain ⟨next, hnext, hcell⟩ := Builder.exists_storeStringTail_empty (utf8 text)
  exact ⟨_, Builder.buildWith_eq_ok.2 ⟨next, hnext, hcell⟩⟩

theorem exists_commentCell (text : String) : ∃ cell, commentCell text = .ok cell := by
  have hopcode : Builder.empty.Room 32 0 := by simp [Builder.Room, Builder.empty, Cell.maxBits]
  have hstart : (Builder.empty.push (Bits.ofInt 32 0) []).Room 0 0 :=
    (Builder.room_append.2 (by simpa using hopcode)).2
  obtain ⟨next, hnext, hroom⟩ : ∃ next, Builder.storeStringTail (utf8 text)
      (Builder.empty.push (Bits.ofInt 32 0) []) = .ok () next ∧ next.Room 0 0 :=
    (Builder.exists_storeStringTail_iff hstart).2 fun h => by
      simp [Builder.empty, Cell.maxRefs] at h
  have hstore := Builder.andThen_eq_ok.2
    ⟨_, Builder.storeUint_eq_ok.2 ⟨by decide, hopcode, rfl⟩, hnext⟩
  exact ⟨_, Builder.buildWith_eq_ok.2 ⟨next, hstore, Builder.build_eq_ok.2 ⟨hroom, rfl⟩⟩⟩

/-- What a stored text adds holds all of it. -/
theorem Builder.exists_of_storeStringTail {b b' : Builder} {bytes : List UInt8}
    (h : storeStringTail bytes b = .ok () b') : ∃ head rest tail,
      b' = b.push (Bits.ofBytes head) tail ∧ head ++ rest = bytes ∧
        (tail = [] ∧ rest = [] ∨ ∃ cell, tail = [cell] ∧ cell.Chain rest) := by
  refine ⟨_, _, _, storeStringTail_eq_ok h, List.take_append_drop _ bytes, ?_⟩
  unfold overhang
  split_ifs with hfit
  · refine .inr ⟨_, rfl, Cell.chain_tailCell ?_⟩
    rw [← List.length_pos_iff, List.length_drop]
    omega
  · exact .inl ⟨rfl, List.drop_eq_nil_of_le (Nat.le_of_not_lt hfit)⟩

/-- **Texts are stored without loss.** Storing a text ends, whatever the builder. In a builder that
operations have led to it fails exactly if the text does not fit in the whole bytes that are left and
there are four references already; otherwise the bytes added to the builder, followed by those of the
chain of cells behind the reference added, are the text. Every text has a cell of its own and one of a
message, and different texts have different ones. -/
theorem stringTail_lossless :
    (∀ (bytes : List UInt8) (b : Builder), (∃ r, Builder.Stores bytes b r) ∧
      ∀ r, Builder.Stores bytes b r ↔ Builder.storeStringTail bytes b = r) ∧
    (∀ (bytes : List UInt8) (b : Builder), b.Reachable →
      ((∃ e b', Builder.storeStringTail bytes b = .error e b') ↔
        b.availableBits / 8 < bytes.length ∧ b.refs.length = 4) ∧
      ∀ b', Builder.storeStringTail bytes b = .ok () b' → ∃ head rest tail,
        b' = b.push (Bits.ofBytes head) tail ∧ head ++ rest = bytes ∧
          (tail = [] ∧ rest = [] ∨ ∃ cell, tail = [cell] ∧ cell.Chain rest)) ∧
    ((∀ text, ∃ cell, stringCell text = .ok cell) ∧ Function.Injective stringCell) ∧
    (∀ text, ∃ cell, commentCell text = .ok cell) ∧ Function.Injective commentCell := by
  refine ⟨fun bytes b => ⟨Builder.exists_stores bytes b, fun _ => Builder.stores_iff⟩,
    fun bytes b hb => ⟨?_, fun b' h => Builder.exists_of_storeStringTail h⟩,
    ⟨exists_stringCell, fun s t h => ?_⟩, exists_commentCell, fun s t h => ?_⟩
  · constructor
    · rintro ⟨e, b', herror⟩
      by_contra hfits
      obtain ⟨_, hok, -⟩ := (Builder.exists_storeStringTail_iff hb.room).2 hfits
      cases herror.symm.trans hok
    · intro hfull
      cases hrun : Builder.storeStringTail bytes b with
      | error e b' => exact ⟨e, b', rfl⟩
      | ok _ b' =>
        have hroom : b'.Room 0 0 := (Builder.Reachable.stored (.tail bytes) hb hrun).room
        exact absurd hfull ((Builder.exists_storeStringTail_iff hb.room).1 ⟨b', hrun, hroom⟩)
  · obtain ⟨cell, hcell⟩ := exists_stringCell s
    exact stringCell_injective hcell (h ▸ hcell)
  · obtain ⟨cell, hcell⟩ := exists_commentCell s
    exact commentCell_injective hcell (h ▸ hcell)

/-- Two hundred bytes in a builder that holds a bit: 127 of them fit, and the others have a cell. -/
theorem twoHundred_lossless : ∃ b b' head rest tail, Builder.storeBit true .empty = .ok () b ∧
    Builder.storeStringTail (List.replicate 200 97) b = .ok () b' ∧
    b' = b.push (Bits.ofBytes head) tail ∧ head ++ rest = List.replicate 200 97 ∧
      (tail = [] ∧ rest = [] ∨ ∃ cell, tail = [cell] ∧ cell.Chain rest) := by
  have hb : Builder.storeBit true .empty = .ok () ⟨[true], []⟩ := rfl
  have hreachable : (Builder.mk [true] []).Reachable := .stored (.item (.bit true)) .empty hb
  have hstores := stringTail_lossless.2.1 (List.replicate 200 97) _ hreachable
  cases hrun : Builder.storeStringTail (List.replicate 200 97) ⟨[true], []⟩ with
  | error e b' => simpa using (hstores.1.1 ⟨e, b', hrun⟩).2
  | ok _ b' =>
    obtain ⟨head, rest, tail, h⟩ := hstores.2 b' hrun
    exact ⟨_, b', head, rest, tail, hb, hrun, h⟩

end CellCompiler
