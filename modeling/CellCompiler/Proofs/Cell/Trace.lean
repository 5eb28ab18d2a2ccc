import CellCompiler.Proofs.Cell.Script

/-!
# What failed operations leave

Storing and reading look at the budget and at what is left before they touch anything. Some of them
are made of several such steps, and what an earlier step has done stays when a later one fails.

* `Cell.StoreOp` and `Cell.LoadOp` are the operations on builders and on slices;
* `StoreOp.Torn` and `LoadOp.Torn` say when one of them stops halfway: an amount whose length fits and
  whose bytes do not, an address whose tag fits and whose account does not, a text in a builder that
  has no reference to spare;
* `Cell.failed_changes_iff` is the main result: a failure is seen afterwards exactly then.
-/

/-! ### Steps that fail -/

namespace EStateM

variable {ε ε' σ α β : Type} {step : EStateM ε σ α} {next : α → EStateM ε σ β} {s s' : σ}

theorem bind_eq_ok {b : β} : (step >>= next) s = .ok b s' ↔
    ∃ a mid, step s = .ok a mid ∧ next a mid = .ok b s' := by
  change EStateM.bind step next s = _ ↔ _
  unfold EStateM.bind
  cases step s <;> simp

theorem bind_eq_error {e : ε} : (step >>= next) s = .error e s' ↔
    step s = .error e s' ∨ ∃ a mid, step s = .ok a mid ∧ next a mid = .error e s' := by
  change EStateM.bind step next s = _ ↔ _
  unfold EStateM.bind
  cases step s <;> simp

theorem map_eq_error {f : α → β} {e : ε} :
    (do return f (← step) : EStateM ε σ β) s = .error e s' ↔ step s = .error e s' := by
  refine bind_eq_error.trans (or_iff_left ?_)
  rintro ⟨a, mid, -, h⟩
  cases h

theorem adaptExcept_eq_ok {f : ε → ε'} {a : α} :
    EStateM.adaptExcept f step s = .ok a s' ↔ step s = .ok a s' := by
  unfold EStateM.adaptExcept
  cases step s <;> simp

theorem adaptExcept_eq_error {f : ε → ε'} {e' : ε'} :
    EStateM.adaptExcept f step s = .error e' s' ↔ ∃ e, step s = .error e s' ∧ f e = e' := by
  unfold EStateM.adaptExcept
  cases step s <;> simp [and_comm]

/-- The step fails, and the state is not as it was before. -/
def LeavesTrace (step : EStateM ε σ α) (s : σ) : Prop :=
  ∃ e s', step s = .error e s' ∧ s' ≠ s

theorem leavesTrace_map {f : α → β} :
    LeavesTrace (do return f (← step) : EStateM ε σ β) s ↔ LeavesTrace step s := by
  simp only [LeavesTrace, map_eq_error]

theorem leavesTrace_adaptExcept {f : ε → ε'} :
    LeavesTrace (EStateM.adaptExcept f step) s ↔ LeavesTrace step s := by
  simp only [LeavesTrace, adaptExcept_eq_error]
  grind

end EStateM

namespace CellCompiler

open EStateM (LeavesTrace)

namespace Builder

variable {b b' : Builder} {bits : List Bool} {refs : List Cell}

/-- Pieces are appended exactly if there is room for all of them. -/
theorem appends_cons_eq_ok {rest : List (List Bool × List Cell)} :
    appends ((bits, refs) :: rest) b = .ok () b' ↔
      b.Room (bits ++ rest.flatMap Prod.fst).length (refs ++ rest.flatMap Prod.snd).length ∧
        b' = b.push (bits ++ rest.flatMap Prod.fst) (refs ++ rest.flatMap Prod.snd) := by
  induction rest generalizing b bits refs with
  | nil => simp [appends_singleton, append_eq_ok]
  | cons piece rest ih =>
    rw [appends_cons, andThen_eq_ok]
    simp only [append_eq_ok, ih, List.flatMap_cons]
    constructor
    · rintro ⟨_, ⟨hroom, rfl⟩, hroom', rfl⟩
      refine ⟨?_, by simp⟩
      simpa only [List.length_append] using room_append.1 ⟨hroom, hroom'⟩
    · rintro ⟨hroom, rfl⟩
      simp only [List.length_append] at hroom
      obtain ⟨hroom, hroom'⟩ := room_append.2 hroom
      exact ⟨_, ⟨hroom, rfl⟩, by simpa only [List.length_append] using hroom', by simp⟩

/-- Pieces of which the first is not empty leave something behind exactly if there is room for the
first and not for all. -/
theorem appends_torn_iff {rest : List (List Bool × List Cell)} (hne : bits ≠ []) :
    LeavesTrace (appends ((bits, refs) :: rest)) b ↔ b.Room bits.length refs.length ∧
        ¬ b.Room (bits ++ rest.flatMap Prod.fst).length (refs ++ rest.flatMap Prod.snd).length := by
  constructor
  · rintro ⟨e, b', herror, hne⟩
    refine ⟨?_, fun hroom => ?_⟩
    · by_contra hfull
      rcases andThen_eq_error.1 herror with h | ⟨mid, hmid, -⟩
      · exact hne (append_eq_error.1 h).2.1
      · exact hfull (append_eq_ok.1 hmid).1
    · cases herror.symm.trans (appends_cons_eq_ok.2 ⟨hroom, rfl⟩)
  · rintro ⟨hroom, hfull⟩
    cases h : appends ((bits, refs) :: rest) b with
    | ok _ b' => exact absurd (appends_cons_eq_ok.1 h).1 hfull
    | error e b' =>
      refine ⟨e, b', h, ?_⟩
      rcases andThen_eq_error.1 h with hfirst | ⟨mid, hmid, hrest⟩
      · exact absurd hroom (append_eq_error.1 hfirst).1
      obtain ⟨-, rfl⟩ := append_eq_ok.1 hmid
      obtain ⟨done, _, _, -, rfl, -⟩ := appends_eq_error hrest
      intro hsame
      have hlength := congrArg (fun b : Builder => b.bits.length) hsame
      simp only [push_push, bits_push, List.length_append] at hlength
      have hpos : 0 < bits.length := List.length_pos_of_ne_nil hne
      omega

/-- A single piece is all or nothing. -/
theorem appends_singleton_not_torn :
    ¬ LeavesTrace (appends [(bits, refs)]) b := by
  rintro ⟨e, b', h, hne⟩
  rw [appends_singleton] at h
  exact hne (append_eq_error.1 h).2.1

/-- The pieces of a text: the bytes that fit, and a reference to the others. -/
def tailPieces (bytes : List UInt8) (b : Builder) : List (List Bool × List Cell) :=
  let fit := b.availableBits / 8
  if bytes.isEmpty then []
  else if fit < bytes.length then
    [(Bits.ofBytes (bytes.take fit), []), ([], [tailCell (bytes.drop fit)])]
  else [(Bits.ofBytes bytes, [])]

theorem storeStringTail_eq_appends (bytes : List UInt8) (b : Builder) :
    storeStringTail bytes b = appends (tailPieces bytes b) b := by
  unfold storeStringTail tailPieces
  by_cases hempty : bytes.isEmpty = true
  · simp only [hempty, if_true]
    rfl
  simp only [hempty, Bool.false_eq_true, if_false]
  change (if b.availableBits / 8 < bytes.length then
      (do
        storeBytes (bytes.take (b.availableBits / 8))
        storeRef (tailCell (bytes.drop (b.availableBits / 8))) : Store)
    else storeBytes bytes) b = _
  by_cases hfit : b.availableBits / 8 < bytes.length
  · rw [if_pos hfit, if_pos hfit, appends_cons, appends_singleton]
    rfl
  · rw [if_neg hfit, if_neg hfit, appends_singleton]
    rfl

end Builder

namespace Cell

/-! ### Stores -/

/-- An operation that stores. -/
inductive StoreOp where
  | item (item : Item)
  | slice (s : Slice)
  | builder (other : Builder)
  | tail (bytes : List UInt8)

namespace StoreOp

/-- Run the operation. -/
def store : StoreOp → Builder.Store
  | item i => i.store
  | slice s => Builder.storeSlice s
  | builder other => Builder.storeBuilder other
  | tail bytes => Builder.storeStringTail bytes

/-- What is stored passes the range check. -/
def InRange : StoreOp → Prop
  | item i => i.InRange
  | _ => True

/-- The pieces in which a builder takes what is stored, each all or nothing. -/
def pieces (b : Builder) : StoreOp → List (List Bool × List Cell)
  | item i => i.pieces
  | slice s => [(s.bits, s.refs)]
  | builder other => [(other.bits, other.refs)]
  | tail bytes => Builder.tailPieces bytes b

/-- The bits that the operation adds to this builder. -/
def bits (b : Builder) : StoreOp → List Bool
  | item i => i.bits
  | slice s => s.bits
  | builder other => other.bits
  | tail bytes => Bits.ofBytes (bytes.take (b.availableBits / 8))

/-- The operation stops halfway in this builder. -/
def Torn (b : Builder) : StoreOp → Prop
  | item (.coins v) =>
    (Item.coins v).InRange ∧ b.Room 4 0 ∧ ¬ b.Room (Builder.coinsBits v).length 0
  | item (.address _) => b.Room 2 0 ∧ ¬ b.Room Address.bitLength 0
  | tail bytes =>
    8 ≤ b.availableBits ∧ b.availableBits / 8 < bytes.length ∧ b.refs.length = maxRefs
  | _ => False

variable {op : StoreOp} {b b' : Builder} {e : Error}

theorem store_of_inRange (op : StoreOp) (b : Builder) (h : op.InRange) :
    op.store b = Builder.appends (op.pieces b) b := by
  cases op with
  | item i => exact congrFun (i.store_of_inRange h) b
  | slice s => exact (congrFun (Builder.appends_singleton s.bits s.refs) b).symm
  | builder other => exact (congrFun (Builder.appends_singleton other.bits other.refs) b).symm
  | tail bytes => exact Builder.storeStringTail_eq_appends bytes b

theorem leavesTrace_of_inRange (op : StoreOp) (b : Builder) (h : op.InRange) :
    LeavesTrace op.store b ↔ LeavesTrace (Builder.appends (op.pieces b)) b := by
  rw [LeavesTrace, LeavesTrace, op.store_of_inRange b h]

theorem store_of_not_inRange (h : ¬ op.InRange) :
    ∃ e, ∀ b, op.store b = .error e b := by
  cases op with
  | item i =>
    obtain ⟨v, width, herror⟩ := i.store_of_not_inRange h
    exact ⟨_, herror⟩
  | _ => exact absurd trivial h

/-- The pieces together are the bits that the operation adds. -/
theorem flatMap_pieces : (op.pieces b).flatMap Prod.fst = op.bits b := by
  cases op with
  | item i =>
    cases i <;> simp [pieces, Item.pieces, bits, Item.bits, Builder.coinsBits, Address.cellBits]
  | tail bytes =>
    rw [pieces, Builder.tailPieces, bits]
    split_ifs with hempty hfit
    · simp [List.isEmpty_iff.1 hempty, Bits.ofBytes]
    · simp
    · simp [List.take_of_length_le (Nat.le_of_not_lt hfit)]
  | _ => simp [pieces, bits]

/-- Only the last piece can have a reference. -/
theorem refs_dropLast_pieces : (op.pieces b).dropLast.flatMap Prod.snd = [] := by
  cases op with
  | item i => cases i <;> simp [pieces, Item.pieces]
  | tail bytes =>
    rw [pieces, Builder.tailPieces]
    split_ifs <;> rfl
  | _ => rfl

/-- A store that fails leaves some of its bits behind and no reference. -/
theorem left_of_error (h : op.store b = .error e b') :
    ∃ left, left <+: op.bits b ∧ b' = b.push left [] := by
  by_cases hrange : op.InRange
  · rw [op.store_of_inRange b hrange] at h
    obtain ⟨done, piece, rest, hpieces, rfl, -⟩ := Builder.appends_eq_error h
    have hrefs := op.refs_dropLast_pieces (b := b)
    rw [hpieces, List.dropLast_append_of_ne_nil (List.cons_ne_nil _ _), List.flatMap_append,
      List.append_eq_nil_iff] at hrefs
    refine ⟨done.flatMap Prod.fst, ?_, by rw [hrefs.1]⟩
    rw [← flatMap_pieces, hpieces, List.flatMap_append]
    exact List.prefix_append _ _
  · obtain ⟨e', herror⟩ := store_of_not_inRange hrange
    obtain ⟨-, rfl⟩ := EStateM.Result.error.inj ((herror b).symm.trans h)
    exact ⟨[], List.nil_prefix, by simp⟩

theorem coins_torn_iff {v : Int} (h : (Item.coins v).InRange) :
    LeavesTrace (item (.coins v)).store b ↔ (item (.coins v)).Torn b := by
  have hfirst : Bits.ofInt 4 ((Bits.bitLength v.toNat + 7) / 8 : Nat) ≠ [] := by
    simp [← List.length_pos_iff, Bits.length_ofInt]
  rw [leavesTrace_of_inRange (item (.coins v)) b h]
  refine (Builder.appends_torn_iff hfirst).trans ?_
  simp [Torn, h, Builder.coinsBits, Bits.length_ofInt]

theorem address_torn_iff {a : Address} :
    LeavesTrace (item (.address a)).store b ↔ (item (.address a)).Torn b := by
  rw [leavesTrace_of_inRange (item (.address a)) b trivial]
  refine (Builder.appends_torn_iff (by simp)).trans ?_
  simp [Torn, Bits.length_ofInt, Address.length_account_bits, Address.bitLength]

theorem tail_torn_iff {bytes : List UInt8} :
    LeavesTrace (tail bytes).store b ↔ (tail bytes).Torn b := by
  by_cases hfit : 8 ≤ b.availableBits ∧ b.availableBits / 8 < bytes.length
  · -- The bytes that fit are some, so that they are seen when there is no reference to spare.
    obtain ⟨hsome, hmore⟩ := hfit
    have hpieces : Builder.tailPieces bytes b =
        [(Bits.ofBytes (bytes.take (b.availableBits / 8)), []),
          ([], [Builder.tailCell (bytes.drop (b.availableBits / 8))])] := by
      have hbytes : ¬ bytes.isEmpty = true := by
        rw [List.isEmpty_iff_length_eq_zero]
        omega
      rw [Builder.tailPieces, if_neg hbytes, if_pos hmore]
    have hlength : (Bits.ofBytes (bytes.take (b.availableBits / 8))).length =
        8 * (b.availableBits / 8) := by
      rw [Bag.length_ofBytes, List.length_take, Nat.min_eq_left hmore.le]
    have hbits : Bits.ofBytes (bytes.take (b.availableBits / 8)) ≠ [] := by
      rw [← List.length_pos_iff, hlength]
      omega
    rw [leavesTrace_of_inRange (tail bytes) b trivial, pieces, hpieces]
    refine (Builder.appends_torn_iff hbits).trans ?_
    simp only [List.flatMap_cons, List.flatMap_nil, List.append_nil, List.nil_append, hlength]
    simp only [Torn, Builder.Room, Builder.availableBits, maxRefs, List.length_nil,
      List.length_cons] at hsome hmore ⊢
    omega
  · refine iff_of_false ?_ fun h => hfit ⟨h.1, h.2.1⟩
    rintro ⟨e, b', herror, hne⟩
    by_cases hmore : b.availableBits / 8 < bytes.length
    · -- No byte fits.
      have hnone : b.availableBits / 8 = 0 := by omega
      obtain ⟨left, hleft, rfl⟩ := left_of_error herror
      rw [bits, hnone, List.take_zero] at hleft
      rw [List.prefix_nil.1 hleft] at hne
      exact hne Builder.push_nil
    · rw [store_of_inRange (tail bytes) b trivial, pieces, Builder.tailPieces] at herror
      split_ifs at herror with hempty
      · cases herror
      · exact Builder.appends_singleton_not_torn ⟨e, b', herror, hne⟩

/-- A store that fails changes the builder exactly if it stops halfway. -/
theorem leavesTrace_iff : LeavesTrace op.store b ↔ op.Torn b := by
  have hsingle (hrange : op.InRange) {bits : List Bool} {refs : List Cell}
      (hpieces : op.pieces b = [(bits, refs)]) :
      ¬ LeavesTrace op.store b := by
    rw [op.leavesTrace_of_inRange b hrange, hpieces]
    exact Builder.appends_singleton_not_torn
  by_cases hrange : op.InRange
  · cases op with
    | item i =>
      cases i with
      | coins v => exact coins_torn_iff hrange
      | address a => exact address_torn_iff
      | _ => exact iff_of_false (hsingle hrange rfl) id
    | tail bytes => exact tail_torn_iff
    | _ => exact iff_of_false (hsingle hrange rfl) id
  · obtain ⟨e, herror⟩ := store_of_not_inRange hrange
    refine iff_of_false ?_ fun h => ?_
    · rintro ⟨e', b', h, hne⟩
      simp only [herror b, EStateM.Result.error.injEq] at h
      exact hne h.2.symm
    · cases op with
      | item i =>
        cases i with
        | coins v => exact hrange h.1
        | address a => exact hrange trivial
        | _ => exact h
      | tail bytes => exact hrange trivial
      | _ => exact h

end StoreOp

end Cell

/-! ### Reads -/

namespace Slice

variable {ε ε' α β : Type} {s s' : Slice}

@[simp] theorem bits_dropBits (s : Slice) (n : Nat) : (s.dropBits n).bits = s.bits.drop n := by
  simp [bits, dropBits]

@[simp] theorem dropBits_dropBits (s : Slice) (m n : Nat) :
    (s.dropBits m).dropBits n = s.dropBits (m + n) := by
  simp [dropBits, Nat.add_assoc]

theorem dropBits_eq_self {n : Nat} : s.dropBits n = s ↔ n = 0 := by
  obtain ⟨cell, bitPos, refPos⟩ := s
  simp [dropBits]

/-- Reading `n` bits and mapping them is all or nothing. -/
theorem map_loadBits_eq (f : List Bool → α) (n : Nat) (s : Slice) :
    (do return f (← loadBits n) : Load α) s =
      if n ≤ s.bits.length then .ok (f (s.bits.take n)) (s.dropBits n)
      else .error (.bitUnderflow n s.bits.length) s := by
  change EStateM.bind (loadBits n) (fun bits => EStateM.pure (f bits)) s = _
  rw [EStateM.bind, loadBits, ← remainingBits_eq]
  by_cases h : n ≤ s.remainingBits
  · simp only [h, if_true]
    rfl
  · simp only [h, if_false]

theorem map_loadBits_eq_ok {f : List Bool → α} {n : Nat} {a : α} :
    (do return f (← loadBits n) : Load α) s = .ok a s' ↔
      n ≤ s.bits.length ∧ a = f (s.bits.take n) ∧ s' = s.dropBits n := by
  rw [map_loadBits_eq]
  split_ifs with h <;> simp [h, eq_comm]

theorem not_leavesTrace_map_loadBits (f : List Bool → α) (n : Nat) (s : Slice) :
    ¬ LeavesTrace (do return f (← loadBits n) : Load α) s := by
  rintro ⟨e, s', h, hne⟩
  rw [map_loadBits_eq] at h
  split_ifs at h
  exact hne (EStateM.Result.error.inj h).2.symm

theorem not_leavesTrace_loadRef (s : Slice) : ¬ LeavesTrace loadRef s := by
  rintro ⟨e, s', h, hne⟩
  unfold loadRef at h
  split at h
  · cases h
  · exact hne (EStateM.Result.error.inj h).2.symm

/-- A read that passes over some of the bits that are left, also if it fails. -/
def Advances (step : EStateM ε Slice α) : Prop :=
  ∀ s, ∃ n ≤ s.bits.length,
    match step s with
    | .ok _ s' | .error _ s' => s' = s.dropBits n

theorem advances_pure (a : α) : Advances (pure a : EStateM ε Slice α) :=
  fun _ => ⟨0, Nat.zero_le _, rfl⟩

theorem advances_throw (e : ε) : Advances (throw e : EStateM ε Slice α) :=
  fun _ => ⟨0, Nat.zero_le _, rfl⟩

theorem advances_map_loadBits (f : List Bool → α) (n : Nat) :
    Advances (do return f (← loadBits n) : Load α) := by
  intro s
  rw [map_loadBits_eq]
  split_ifs with h
  · exact ⟨n, h, rfl⟩
  · exact ⟨0, Nat.zero_le _, rfl⟩

theorem Advances.adaptExcept {f : ε → ε'} {step : EStateM ε Slice α} (h : Advances step) :
    Advances (EStateM.adaptExcept f step) := by
  intro s
  obtain ⟨n, hn, hstep⟩ := h s
  refine ⟨n, hn, ?_⟩
  unfold EStateM.adaptExcept
  cases hrun : step s <;> simpa [hrun] using hstep

theorem Advances.bind {step : EStateM ε Slice α} {next : α → EStateM ε Slice β}
    (hstep : Advances step) (hnext : ∀ a, Advances (next a)) : Advances (step >>= next) := by
  intro s
  obtain ⟨m, hm, hs⟩ := hstep s
  change ∃ n ≤ s.bits.length, match EStateM.bind step next s with
    | .ok _ s' | .error _ s' => s' = s.dropBits n
  unfold EStateM.bind
  cases hrun : step s with
  | ok a mid =>
    obtain rfl : mid = s.dropBits m := by simpa [hrun] using hs
    obtain ⟨n, hn, hs'⟩ := hnext a (s.dropBits m)
    rw [bits_dropBits, List.length_drop] at hn
    rw [dropBits_dropBits] at hs'
    exact ⟨m + n, by omega, hs'⟩
  | error e s' => exact ⟨m, hm, by simpa [hrun] using hs⟩

theorem Advances.of_error {step : EStateM ε Slice α} {e : ε} (h : Advances step)
    (herror : step s = .error e s') : ∃ n ≤ s.bits.length, s' = s.dropBits n := by
  obtain ⟨n, hn, hs'⟩ := h s
  exact ⟨n, hn, by simpa [herror] using hs'⟩

/-- A read that begins with `n` bits leaves its trace exactly if these are there and it fails. -/
theorem leavesTrace_bind_iff {step : EStateM ε Slice α} {next : α → EStateM ε Slice β} {n : Nat}
    {a : α} {e : ε} (hn : 0 < n)
    (hstep : step s = if n ≤ s.bits.length then .ok a (s.dropBits n) else .error e s)
    (hnext : Advances (next a)) :
    LeavesTrace (step >>= next) s ↔
      n ≤ s.bits.length ∧ ¬ ∃ b s', (step >>= next) s = .ok b s' := by
  constructor
  · rintro ⟨e', s', herror, hne⟩
    refine ⟨?_, fun ⟨b, _, hok⟩ => by cases herror.symm.trans hok⟩
    by_contra hshort
    rw [if_neg hshort] at hstep
    rcases EStateM.bind_eq_error.1 herror with h | ⟨_, _, h, -⟩
    · exact hne (EStateM.Result.error.inj (hstep.symm.trans h)).2.symm
    · cases hstep.symm.trans h
  · rintro ⟨henough, hfails⟩
    rw [if_pos henough] at hstep
    cases hrun : (step >>= next) s with
    | ok b s' => exact absurd ⟨b, s', hrun⟩ hfails
    | error e' s' =>
      refine ⟨e', s', hrun, ?_⟩
      rcases EStateM.bind_eq_error.1 hrun with h | ⟨_, _, h, hlater⟩
      · cases hstep.symm.trans h
      · obtain ⟨rfl, rfl⟩ := EStateM.Result.ok.inj (hstep.symm.trans h)
        obtain ⟨m, -, rfl⟩ := hnext.of_error hlater
        rw [dropBits_dropBits, ne_eq, dropBits_eq_self]
        omega

theorem loadBit_eq_ok {bit : Bool} : loadBit s = .ok bit s' ↔
    1 ≤ s.bits.length ∧ bit = (s.bits.take 1).headD false ∧ s' = s.dropBits 1 :=
  map_loadBits_eq_ok

theorem loadUint_eq_ok {n : Nat} {v : Int} : loadUint n s = .ok v s' ↔
    n ≤ s.bits.length ∧ v = Bits.toNat (s.bits.take n) ∧ s' = s.dropBits n :=
  map_loadBits_eq_ok (f := fun bits => (Bits.toNat bits : Int))

theorem loadInt_eq_ok {n : Nat} {v : Int} : loadInt n s = .ok v s' ↔
    n ≤ s.bits.length ∧ v = Bits.toInt (s.bits.take n) ∧ s' = s.dropBits n :=
  map_loadBits_eq_ok

theorem loadBytes_eq_ok {n : Nat} {bytes : List UInt8} : loadBytes n s = .ok bytes s' ↔
    n * 8 ≤ s.bits.length ∧ bytes = Bits.toBytes (s.bits.take (n * 8)) ∧ s' = s.dropBits (n * 8) :=
  map_loadBits_eq_ok

theorem advances_loadCoins : Advances loadCoins :=
  (advances_map_loadBits _ 4).bind fun _ => advances_map_loadBits _ _

theorem exists_loadCoins_iff : (∃ v s', loadCoins s = .ok v s') ↔
    4 ≤ s.bits.length ∧ 4 + Bits.toNat (s.bits.take 4) * 8 ≤ s.bits.length := by
  simp only [loadCoins, EStateM.bind_eq_ok, loadUint_eq_ok]
  constructor
  · rintro ⟨v, s', _, _, ⟨hlength, rfl, rfl⟩, hbytes, -⟩
    rw [Int.toNat_natCast, bits_dropBits, List.length_drop] at hbytes
    exact ⟨hlength, by omega⟩
  · rintro ⟨hlength, hbytes⟩
    refine ⟨_, _, _, _, ⟨hlength, rfl, rfl⟩, ?_, rfl, rfl⟩
    rw [Int.toNat_natCast, bits_dropBits, List.length_drop]
    omega

theorem leavesTrace_loadCoins : LeavesTrace loadCoins s ↔
    4 ≤ s.bits.length ∧ s.bits.length < 4 + Bits.toNat (s.bits.take 4) * 8 := by
  have hstep := map_loadBits_eq (fun bits => (Bits.toNat bits : Int)) 4 s
  refine (leavesTrace_bind_iff (by omega) hstep (advances_map_loadBits _ _)).trans ?_
  refine and_congr_right fun henough => (not_congr exists_loadCoins_iff).trans ?_
  omega

end Slice

namespace Address

variable {s : Slice}

/-- The tag and the zero, as they are read. -/
theorem standard_iff {bits : List Bool} (h : 3 ≤ bits.length) :
    ((Bits.toNat (bits.take 2) : Int) != 2 || ((bits.drop 2).take 1).headD false) = false ↔
      bits.take 3 = [true, false, false] := by
  obtain ⟨x, y, z, rest, rfl⟩ : ∃ x y z rest, bits = x :: y :: z :: rest := by
    match bits, h with
    | x :: y :: z :: rest, _ => exact ⟨x, y, z, rest, rfl⟩
  cases x <;> cases y <;> cases z <;> simp [Bits.toNat]

theorem advances_afterTag (tag : Int) : Slice.Advances (do
    let anycast ← EStateM.adaptExcept LoadError.cell Slice.loadBit
    if tag != 2 || anycast then throw (.fault .notStandard)
    let workchain ← EStateM.adaptExcept LoadError.cell (Slice.loadInt 8)
    let account ← EStateM.adaptExcept LoadError.cell (Slice.loadBytes 32)
    match ofParts? workchain account with
    | some a => pure a
    | none => throw (.fault .notStandard)) := by
  refine (Slice.advances_map_loadBits _ 1).adaptExcept.bind fun anycast => ?_
  have haccount : Slice.Advances (do
      let workchain ← EStateM.adaptExcept LoadError.cell (Slice.loadInt 8)
      let account ← EStateM.adaptExcept LoadError.cell (Slice.loadBytes 32)
      match ofParts? workchain account with
      | some a => pure a
      | none => throw (.fault .notStandard)) := by
    refine (Slice.advances_map_loadBits _ 8).adaptExcept.bind fun workchain => ?_
    refine (Slice.advances_map_loadBits _ 256).adaptExcept.bind fun account => ?_
    split
    · exact Slice.advances_pure _
    · exact Slice.advances_throw _
  split
  · exact (Slice.advances_throw _).bind fun _ => haccount
  · exact haccount

theorem advances_load : Slice.Advances load :=
  (Slice.advances_map_loadBits _ 2).adaptExcept.bind advances_afterTag

theorem exists_load_iff : (∃ a s', load s = .ok a s') ↔
    bitLength ≤ s.bits.length ∧ s.bits.take 3 = [true, false, false] := by
  simp only [load, EStateM.bind_eq_ok, EStateM.adaptExcept_eq_ok, Slice.loadUint_eq_ok,
    Slice.loadBit_eq_ok]
  constructor
  · rintro ⟨a, s', _, _, ⟨htag, rfl, rfl⟩, _, _, ⟨hanycast, rfl, rfl⟩, h⟩
    rw [Slice.bits_dropBits] at hanycast h
    rw [List.length_drop] at hanycast
    split_ifs at h with hstandard
    · cases h
    · rw [Bool.not_eq_true, standard_iff (by omega)] at hstandard
      simp only [EStateM.bind_eq_ok, EStateM.adaptExcept_eq_ok, Slice.loadInt_eq_ok,
        Slice.loadBytes_eq_ok] at h
      obtain ⟨_, _, ⟨-, -, rfl⟩, _, _, ⟨haccount, -, -⟩, -⟩ := h
      simp only [Slice.dropBits_dropBits, Slice.bits_dropBits, List.length_drop] at haccount
      exact ⟨by unfold bitLength; omega, hstandard⟩
  · rintro ⟨hlength, hstandard⟩
    unfold bitLength at hlength
    obtain ⟨a, ha⟩ : ∃ a, ofParts? (Bits.toInt ((s.bits.drop 3).take 8))
        (Bits.toBytes ((s.bits.drop 11).take 256)) = some a := by
      refine ⟨_, dif_pos ?_⟩
      rw [Bits.length_toBytes, List.length_take, List.length_drop]
      omega
    refine ⟨a, s.dropBits 267, _, _, ⟨by omega, rfl, rfl⟩, _, _, ⟨?_, rfl, rfl⟩, ?_⟩
    · rw [Slice.bits_dropBits, List.length_drop]
      omega
    rw [Slice.bits_dropBits, if_neg (by rw [(standard_iff (by omega)).2 hstandard]; decide)]
    simp only [EStateM.bind_eq_ok, EStateM.adaptExcept_eq_ok, Slice.loadInt_eq_ok,
      Slice.loadBytes_eq_ok]
    refine ⟨_, _, ⟨?_, rfl, rfl⟩, _, _, ⟨?_, rfl, rfl⟩, ?_⟩
    · simp only [Slice.dropBits_dropBits, Slice.bits_dropBits, List.length_drop]
      omega
    · simp only [Slice.dropBits_dropBits, Slice.bits_dropBits, List.length_drop]
      omega
    · simp only [Slice.dropBits_dropBits, Slice.bits_dropBits, Nat.reduceAdd, Nat.reduceMul, ha]
      rfl

theorem leavesTrace_load : LeavesTrace load s ↔ 2 ≤ s.bits.length ∧
    ¬ (bitLength ≤ s.bits.length ∧ s.bits.take 3 = [true, false, false]) := by
  have hstep : EStateM.adaptExcept LoadError.cell (Slice.loadUint 2) s =
      if 2 ≤ s.bits.length then .ok (Bits.toNat (s.bits.take 2) : Int) (s.dropBits 2)
      else .error (.cell (.bitUnderflow 2 s.bits.length)) s := by
    have hload : Slice.loadUint 2 s = _ :=
      Slice.map_loadBits_eq (fun bits => (Bits.toNat bits : Int)) 2 s
    unfold EStateM.adaptExcept
    rw [hload]
    split_ifs <;> rfl
  refine (Slice.leavesTrace_bind_iff (by omega) hstep (advances_afterTag _)).trans ?_
  exact and_congr_right' (not_congr exists_load_iff)

end Address

namespace Cell

/-- An operation that reads. -/
inductive LoadOp where
  | slot (slot : Slot)
  | split (count : Nat)
  | skip (count : Nat)

namespace LoadOp

/-- Run the operation and forget what it reads. -/
def load : LoadOp → EStateM Address.LoadError Slice Unit
  | slot way => do let _ ← way.load
  | split count => do let _ ← EStateM.adaptExcept .cell (Slice.loadSlice count)
  | skip count => EStateM.adaptExcept .cell (Slice.skipBits count)

/-- The operation stops halfway in this slice. -/
def Torn (s : Slice) : LoadOp → Prop
  | slot .coins => 4 ≤ s.bits.length ∧ s.bits.length < 4 + Bits.toNat (s.bits.take 4) * 8
  | slot .address => 2 ≤ s.bits.length ∧
    ¬ (Address.bitLength ≤ s.bits.length ∧ s.bits.take 3 = [true, false, false])
  | _ => False

variable {op : LoadOp} {s s' : Slice}

/-- A read that fails changes the slice exactly if it stops halfway. -/
theorem leavesTrace_iff : LeavesTrace op.load s ↔ op.Torn s := by
  cases op with
  | slot way =>
    refine EStateM.leavesTrace_map.trans ?_
    cases way with
    | bit =>
      refine (EStateM.leavesTrace_map.trans EStateM.leavesTrace_adaptExcept).trans ?_
      exact iff_of_false (Slice.not_leavesTrace_map_loadBits _ 1 s) id
    | coins =>
      refine (EStateM.leavesTrace_map.trans EStateM.leavesTrace_adaptExcept).trans ?_
      exact Slice.leavesTrace_loadCoins
    | address => exact EStateM.leavesTrace_map.trans Address.leavesTrace_load
    | ref =>
      refine (EStateM.leavesTrace_map.trans EStateM.leavesTrace_adaptExcept).trans ?_
      exact iff_of_false (Slice.not_leavesTrace_loadRef s) id
    | _ =>
      refine (EStateM.leavesTrace_map.trans EStateM.leavesTrace_adaptExcept).trans ?_
      exact iff_of_false (Slice.not_leavesTrace_map_loadBits _ _ s) id
  | split count =>
    refine (EStateM.leavesTrace_map.trans EStateM.leavesTrace_adaptExcept).trans ?_
    exact iff_of_false (Slice.not_leavesTrace_map_loadBits _ count s) id
  | skip count =>
    refine EStateM.leavesTrace_adaptExcept.trans ?_
    exact iff_of_false (Slice.not_leavesTrace_map_loadBits _ count s) id

theorem passed_of_error {e : Address.LoadError} (h : op.load s = .error e s') :
    ∃ n ≤ s.bits.length, s' = s.dropBits n := by
  by_cases hsame : s' = s
  · exact ⟨0, Nat.zero_le _, hsame⟩
  have htorn : op.Torn s := leavesTrace_iff.1 ⟨e, s', h, hsame⟩
  match op, htorn with
  | slot .coins, _ =>
    obtain ⟨_, hload, -⟩ :=
      EStateM.adaptExcept_eq_error.1 (EStateM.map_eq_error.1 (EStateM.map_eq_error.1 h))
    exact Slice.advances_loadCoins.of_error hload
  | slot .address, _ =>
    exact Address.advances_load.of_error (EStateM.map_eq_error.1 (EStateM.map_eq_error.1 h))

end LoadOp

/-! ### What failures leave -/

/-- **What a failure leaves.** A store that fails changes the builder exactly if it stops halfway: an
amount of which the length fits and the bytes do not, an address of which the tag fits and not all of
it, a text of which some bytes fit, the others do not and there are four references already. Then some
of its bits are left and never a reference. A read that fails changes the slice exactly if it is one of
an amount whose length is there and whose bytes are not, or of an address whose tag is there and that
is cut short or not a standard one. Then it has passed over some of the bits that were left. -/
theorem failed_changes_iff (op : StoreOp) (b : Builder) (read : LoadOp) (s : Slice) :
    (LeavesTrace op.store b ↔ op.Torn b) ∧
    (∀ (b' : Builder) (e : Error), op.store b = .error e b' →
      ∃ left, left <+: op.bits b ∧ b' = b.push left []) ∧
    (LeavesTrace read.load s ↔ read.Torn s) ∧
    ∀ (s' : Slice) (e : Address.LoadError), read.load s = .error e s' →
      ∃ n ≤ s.bits.length, s' = s.dropBits n :=
  ⟨StoreOp.leavesTrace_iff, fun _ _ => StoreOp.left_of_error,
    LoadOp.leavesTrace_iff, fun _ _ => LoadOp.passed_of_error⟩

/-- Ten bytes for a builder with four references and room for five of them. -/
theorem note_torn : ∃ e b' left,
    (StoreOp.tail (List.replicate 10 65)).store
      ⟨List.replicate 983 false, List.replicate 4 .empty⟩ = .error e b' ∧
    b' ≠ ⟨List.replicate 983 false, List.replicate 4 .empty⟩ ∧
    b' = Builder.push ⟨List.replicate 983 false, List.replicate 4 .empty⟩ left [] := by
  obtain ⟨htorn, hleft, -⟩ := failed_changes_iff (.tail (List.replicate 10 65))
    ⟨List.replicate 983 false, List.replicate 4 .empty⟩ (.slot .coins) (Cell.mk [] []).parse
  obtain ⟨e, b', herror, hne⟩ := htorn.2 (by
    simp only [StoreOp.Torn, Builder.availableBits, List.length_replicate]
    decide)
  obtain ⟨left, -, hb'⟩ := hleft _ _ herror
  exact ⟨e, b', left, herror, hne, hb'⟩

/-- An amount for a builder with room for four bits leaves its length, and one that is cut short is
read up to its length. -/
theorem coins_torn :
    Builder.storeCoins 1 ⟨List.replicate 1019 false, []⟩ =
      .error (.overflow 1031 0) ⟨List.replicate 1022 false ++ [true], []⟩ ∧
    Slice.loadCoins (Cell.mk [true, true, true, true] []).parse =
      .error (.bitUnderflow 120 0) ⟨Cell.mk [true, true, true, true] [], 4, 0⟩ := by
  refine ⟨?_, rfl⟩
  have hfits : Builder.append [false, false, false, true] [] ⟨List.replicate 1019 false, []⟩ =
      .ok () ⟨List.replicate 1022 false ++ [true], []⟩ :=
    Builder.append_eq_ok.2 ⟨by
      simp only [Builder.Room, List.length_replicate]
      decide, by decide +kernel⟩
  have hfull : Builder.append (Bits.ofInt 8 1) [] ⟨List.replicate 1022 false ++ [true], []⟩ =
      .error (.overflow 1031 0) ⟨List.replicate 1022 false ++ [true], []⟩ :=
    Builder.append_eq_error.2 ⟨by
      simp only [Builder.Room, List.length_append, List.length_replicate]
      decide, rfl, by
      simp only [List.length_append, List.length_replicate, Bits.length_ofInt]
      rfl⟩
  have hpieces : (Item.coins 1).pieces =
      [([false, false, false, true], []), (Bits.ofInt 8 1, [])] := by decide +kernel
  have hstore : Builder.storeCoins 1 = Builder.appends (Item.coins 1).pieces :=
    (Item.coins 1).store_of_inRange (by simp [Item.InRange])
  rw [hstore, hpieces, Builder.appends_cons, Builder.appends_singleton]
  exact Builder.andThen_eq_error.2 (.inr ⟨_, hfits, hfull⟩)

end Cell

end CellCompiler
