import CellCompiler.Cell.Bag
import CellCompiler.Proofs.Cell.Tail
import CellCompiler.Proofs.Dict

/-!
# Builders and slices in registers

Builders, cells and slices are kept under names and worked on step by step. A step that fails is not
the end: the next one finds what it has left. Cells may come from builders, from slices, from bags or
from anywhere else, so they need not keep to the budget themselves.

* `Slice.Takes` says which bits a read takes, also if it fails: pieces of certain lengths, one after
  the other, up to the first that is not there. `Cell.LoadOp.stateAfter_fetch` says it for every read;
* `Cell.Reading` is a slice with a record of all that has been taken from it;
* `Cell.Registers.InBounds` is kept by every step (`Registers.InBounds.step`);
* `Cell.registers_inBounds` is the main result.
-/

namespace EStateM

variable {ε ε' σ α β : Type} {step : EStateM ε σ α} {s : σ}

/-- The state that a step leaves, whether it succeeds or fails. -/
def stateAfter (step : EStateM ε σ α) (s : σ) : σ :=
  match step s with
  | .ok _ s' | .error _ s' => s'

theorem stateAfter_bind {next : α → EStateM ε σ β} : stateAfter (step >>= next) s =
    match step s with
    | .ok a mid => stateAfter (next a) mid
    | .error _ mid => mid := by
  change stateAfter (EStateM.bind step next) s = _
  unfold stateAfter EStateM.bind
  cases step s <;> rfl

theorem stateAfter_map {f : α → β} :
    stateAfter (do return f (← step) : EStateM ε σ β) s = stateAfter step s := by
  rw [stateAfter_bind, stateAfter]
  cases step s <;> rfl

theorem stateAfter_adaptExcept {f : ε → ε'} :
    stateAfter (EStateM.adaptExcept f step) s = stateAfter step s := by
  unfold stateAfter EStateM.adaptExcept
  cases step s <;> rfl

theorem run'_eq_some {a : α} : step.run' s = some a ↔ ∃ s', step s = .ok a s' := by
  unfold EStateM.run' EStateM.run
  cases step s <;> simp

end EStateM

namespace CellCompiler

open EStateM (stateAfter)

/-! ### What reads take -/

namespace Slice

variable {ε ε' α β : Type}

/-- What is taken in pieces of these lengths, up to the first piece that is not there. -/
def taken : List Nat → List Bool → List Bool
  | [], _ => []
  | n :: widths, bits =>
    if n ≤ bits.length then bits.take n ++ taken widths (bits.drop n) else []

theorem taken_append_drop (widths : List Nat) (bits : List Bool) :
    taken widths bits ++ bits.drop (taken widths bits).length = bits := by
  induction widths generalizing bits with
  | nil => rfl
  | cons n widths ih =>
    rw [taken]
    split_ifs with h
    · have hrest := ih (bits.drop n)
      rw [List.drop_drop] at hrest
      rw [List.length_append, List.length_take, Nat.min_eq_left h, List.append_assoc, hrest,
        List.take_append_drop]
    · rfl

/-- A read that takes pieces of lengths given by the bits that are left. -/
def Takes (step : EStateM ε Slice α) (widths : List Bool → List Nat) : Prop :=
  ∀ s, stateAfter step s = s.dropBits (taken (widths s.bits) s.bits).length

/-- A read of `n` bits, all or nothing, and the value that they have. -/
def Asks (step : EStateM ε Slice α) (n : Nat) (value : List Bool → α) : Prop :=
  ∀ s, ∃ e, step s =
    if n ≤ s.bits.length then .ok (value (s.bits.take n)) (s.dropBits n) else .error e s

theorem asks_map_loadBits (f : List Bool → α) (n : Nat) :
    Asks (do return f (← loadBits n) : Load α) n f :=
  fun s => ⟨_, map_loadBits_eq f n s⟩

theorem Asks.adaptExcept {f : ε → ε'} {step : EStateM ε Slice α} {n : Nat} {value : List Bool → α}
    (h : Asks step n value) : Asks (EStateM.adaptExcept f step) n value := by
  intro s
  obtain ⟨e, he⟩ := h s
  refine ⟨f e, ?_⟩
  unfold EStateM.adaptExcept
  rw [he]
  split_ifs <;> rfl

theorem takes_pure (a : α) : Takes (pure a : EStateM ε Slice α) fun _ => [] := fun _ => rfl

theorem takes_throw (e : ε) : Takes (throw e : EStateM ε Slice α) fun _ => [] := fun _ => rfl

theorem Takes.adaptExcept {f : ε → ε'} {step : EStateM ε Slice α} {widths : List Bool → List Nat}
    (h : Takes step widths) : Takes (EStateM.adaptExcept f step) widths :=
  fun s => EStateM.stateAfter_adaptExcept.trans (h s)

theorem Takes.map {f : α → β} {step : EStateM ε Slice α} {widths : List Bool → List Nat}
    (h : Takes step widths) : Takes (do return f (← step) : EStateM ε Slice β) widths :=
  fun s => EStateM.stateAfter_map.trans (h s)

/-- A read goes on behind what it has asked for first. -/
theorem Takes.bind {step : EStateM ε Slice α} {next : α → EStateM ε Slice β} {n : Nat}
    {value : List Bool → α} (widths : List Bool → List Bool → List Nat) (hstep : Asks step n value)
    (hnext : ∀ bits, Takes (next (value bits)) (widths bits)) :
    Takes (step >>= next) fun bits => n :: widths (bits.take n) (bits.drop n) := by
  intro s
  obtain ⟨e, he⟩ := hstep s
  rw [EStateM.stateAfter_bind, he, taken]
  split_ifs with h
  · have hrest := hnext (s.bits.take n) (s.dropBits n)
    rw [bits_dropBits, dropBits_dropBits] at hrest
    rw [List.length_append, List.length_take, Nat.min_eq_left h]
    exact hrest
  · exact (dropBits_eq_self.2 rfl).symm

theorem Asks.takes {step : EStateM ε Slice α} {n : Nat} {value : List Bool → α}
    (h : Asks step n value) : Takes step fun _ => [n] := by
  intro s
  obtain ⟨e, he⟩ := h s
  rw [stateAfter, he, taken]
  split_ifs with hn
  · simp [taken, hn]
  · exact (dropBits_eq_self.2 rfl).symm

theorem takes_map_loadBits (f : List Bool → α) (n : Nat) :
    Takes (do return f (← loadBits n) : Load α) fun _ => [n] :=
  (asks_map_loadBits f n).takes

theorem takes_loadCoins : Takes loadCoins fun bits => [4, Bits.toNat (bits.take 4) * 8] :=
  .bind (fun bits _ => [Bits.toNat bits * 8])
    (asks_map_loadBits (fun bits => (Bits.toNat bits : Int)) 4) fun _ => takes_map_loadBits _ _

end Slice

theorem Address.takes_load : Slice.Takes load fun bits =>
    if bits.take 3 = [true, false, false] then [2, 1, 8, 256] else [2, 1] := by
  have hload : Slice.Takes load fun bits => 2 :: 1 ::
      if (Bits.toNat (bits.take 2) : Int) != 2 || ((bits.drop 2).take 1).headD false then []
      else [8, 256] := by
    refine .bind (fun tag rest => 1 ::
        if (Bits.toNat tag : Int) != 2 || (rest.take 1).headD false then [] else [8, 256])
      (Slice.asks_map_loadBits (fun bits => (Bits.toNat bits : Int)) 2).adaptExcept fun tag => ?_
    refine .bind (fun bit _ =>
        if (Bits.toNat tag : Int) != 2 || bit.headD false then [] else [8, 256])
      (Slice.asks_map_loadBits (fun bits => bits.headD false) 1).adaptExcept fun bit => ?_
    split
    · exact fun _ => rfl
    · refine .bind (fun _ _ => [256])
        (Slice.asks_map_loadBits _ 8).adaptExcept fun workchain => ?_
      refine .bind (fun _ _ => [])
        (Slice.asks_map_loadBits _ 256).adaptExcept fun account => ?_
      split
      · exact Slice.takes_pure _
      · exact Slice.takes_throw _
  have hwidths (bits : List Bool) : Slice.taken (2 :: 1 ::
      if (Bits.toNat (bits.take 2) : Int) != 2 || ((bits.drop 2).take 1).headD false then []
      else [8, 256]) bits =
      Slice.taken (if bits.take 3 = [true, false, false] then [2, 1, 8, 256] else [2, 1]) bits := by
    obtain _ | ⟨x, _ | ⟨y, _ | ⟨z, rest⟩⟩⟩ := bits
    · simp [Slice.taken]
    · simp [Slice.taken]
    · simp [Slice.taken]
    · cases x <;> cases y <;> cases z <;> simp [Bits.toNat]
  intro s
  rw [hload s, hwidths]

/-! ### Readings -/

namespace Cell

/-- What a read gives. -/
inductive Loaded where
  | item (item : Item)
  | piece (s : Slice)
  | nothing

namespace LoadOp

/-- Run the operation. -/
def fetch : LoadOp → EStateM Address.LoadError Slice Loaded
  | slot way => return .item (← way.load)
  | split count => return .piece (← EStateM.adaptExcept .cell (Slice.loadSlice count))
  | skip count => do
    EStateM.adaptExcept .cell (Slice.skipBits count)
    return .nothing

/-- The lengths of the pieces that the operation takes, given the bits that are left. -/
def widths (bits : List Bool) : LoadOp → List Nat
  | slot .bit => [1]
  | slot (.uint width) | slot (.int width) => [width]
  | slot .coins => [4, Bits.toNat (bits.take 4) * 8]
  | slot .ref => []
  | slot (.bytes count) => [count * 8]
  | slot .address => if bits.take 3 = [true, false, false] then [2, 1, 8, 256] else [2, 1]
  | split count | skip count => [count]

/-- The bits that the operation takes from a slice, also if it fails. -/
def bits (s : Slice) (op : LoadOp) : List Bool := Slice.taken (op.widths s.bits) s.bits

/-- The references that the operation takes from a slice. -/
def refs (s : Slice) : LoadOp → List Cell
  | slot .ref => s.refs.take 1
  | _ => []

/-- A read moves the positions behind what it takes. -/
theorem stateAfter_fetch (op : LoadOp) (s : Slice) : stateAfter op.fetch s =
    { s with bitPos := s.bitPos + (op.bits s).length, refPos := s.refPos + (op.refs s).length } := by
  have htakes {step : EStateM Address.LoadError Slice Loaded} (hrefs : op.refs s = [])
      (h : Slice.Takes step fun bits => op.widths bits) : stateAfter step s =
      { s with bitPos := s.bitPos + (op.bits s).length, refPos := s.refPos + (op.refs s).length } := by
    rw [h s, hrefs]
    rfl
  cases op with
  | slot way =>
    cases way with
    | ref =>
      refine EStateM.stateAfter_map.trans (EStateM.stateAfter_map.trans
        (EStateM.stateAfter_adaptExcept.trans ?_))
      unfold stateAfter Slice.loadRef refs
      cases hleft : s.refs <;> rfl
    | coins => exact htakes rfl Slice.takes_loadCoins.adaptExcept.map.map
    | address => exact htakes rfl Address.takes_load.map.map
    | bit => exact htakes rfl (Slice.takes_map_loadBits _ 1).adaptExcept.map.map
    | uint width => exact htakes rfl (Slice.takes_map_loadBits _ width).adaptExcept.map.map
    | int width => exact htakes rfl (Slice.takes_map_loadBits _ width).adaptExcept.map.map
    | bytes count => exact htakes rfl (Slice.takes_map_loadBits _ (count * 8)).adaptExcept.map.map
  | split count => exact htakes rfl (Slice.takes_map_loadBits _ count).adaptExcept.map
  | skip count =>
    exact htakes rfl (.map (f := fun _ => Loaded.nothing)
      (Slice.takes_map_loadBits (fun _ => ()) count).adaptExcept)

theorem refs_append_drop (op : LoadOp) (s : Slice) :
    op.refs s ++ s.refs.drop (op.refs s).length = s.refs := by
  unfold refs
  split
  · cases hleft : s.refs <;> rfl
  · rfl

/-- A piece of a slice has not been read yet. -/
theorem exists_parse_of_piece {op : LoadOp} {s p : Slice} (h : op.fetch.run' s = some (.piece p)) :
    ∃ c : Cell, p = c.parse := by
  obtain ⟨s', h⟩ := EStateM.run'_eq_some.1 h
  cases op with
  | slot way =>
    obtain ⟨_, _, -, h⟩ := EStateM.bind_eq_ok.1 h
    cases h
  | split count =>
    obtain ⟨piece, _, hpiece, h⟩ := EStateM.bind_eq_ok.1 h
    cases h
    obtain ⟨-, rfl, -⟩ := Slice.map_loadBits_eq_ok.1 (EStateM.adaptExcept_eq_ok.1 hpiece)
    exact ⟨_, rfl⟩
  | skip count =>
    obtain ⟨_, _, -, h⟩ := EStateM.bind_eq_ok.1 h
    cases h

end LoadOp

/-- A slice with all that has been taken from it since it was made. -/
structure Reading where
  /-- The slice. -/
  slice : Slice
  /-- The bits taken so far. -/
  bits : List Bool := []
  /-- The references taken so far. -/
  refs : List Cell := []
  deriving DecidableEq

namespace Reading

/-- The reading after an operation, whether it succeeds or fails. -/
def load (op : LoadOp) (r : Reading) : Reading where
  slice := stateAfter op.fetch r.slice
  bits := r.bits ++ op.bits r.slice
  refs := r.refs ++ op.refs r.slice

/-- The positions are within the cell, and the cell is what has been taken and then what is left. -/
structure InBounds (r : Reading) : Prop where
  bitPos_le : r.slice.bitPos ≤ r.slice.cell.bits.length
  refPos_le : r.slice.refPos ≤ r.slice.cell.refs.length
  bits_eq : r.slice.cell.bits = r.bits ++ r.slice.bits
  refs_eq : r.slice.cell.refs = r.refs ++ r.slice.refs

variable {r : Reading}

theorem inBounds_parse (c : Cell) : InBounds ⟨c.parse, [], []⟩ :=
  ⟨Nat.zero_le _, Nat.zero_le _, rfl, rfl⟩

theorem InBounds.load (h : r.InBounds) (op : LoadOp) : (r.load op).InBounds := by
  obtain ⟨slice, bits, refs⟩ := r
  obtain ⟨hbitPos, hrefPos, hbits, hrefs⟩ := h
  have htaken : op.bits slice ++ slice.bits.drop (op.bits slice).length = slice.bits :=
    Slice.taken_append_drop _ _
  have hreferred : op.refs slice ++ slice.refs.drop (op.refs slice).length = slice.refs :=
    op.refs_append_drop slice
  have hbitsLe : (op.bits slice).length ≤ slice.cell.bits.length - slice.bitPos := by
    have hle := congrArg List.length htaken
    simp only [List.length_append, Slice.bits, List.length_drop] at hle
    omega
  have hrefsLe : (op.refs slice).length ≤ slice.cell.refs.length - slice.refPos := by
    have hle := congrArg List.length hreferred
    simp only [List.length_append, Slice.refs, List.length_drop] at hle
    omega
  constructor
  all_goals simp only [Reading.load, LoadOp.stateAfter_fetch]
  · dsimp only at hbitPos
    omega
  · dsimp only at hrefPos
    omega
  · rw [Slice.bits, ← List.drop_drop, List.append_assoc]
    exact hbits.trans (congrArg (bits ++ ·) htaken.symm)
  · rw [Slice.refs, ← List.drop_drop, List.append_assoc]
    exact hrefs.trans (congrArg (refs ++ ·) hreferred.symm)

end Reading

/-! ### Registers -/

/-- A store keeps to the budget, whether it succeeds or fails. -/
theorem StoreOp.room_stateAfter {b : Builder} (op : StoreOp) (h : b.Room 0 0) :
    (stateAfter op.store b).Room 0 0 := by
  by_cases hrange : op.InRange
  · rw [stateAfter, op.store_of_inRange b hrange]
    cases hrun : Builder.appends (op.pieces b) b with
    | ok _ b' => exact (Builder.appends_room h).1 b' hrun
    | error e b' => exact (Builder.appends_room h).2 e b' hrun
  · obtain ⟨e, herror⟩ := op.store_of_not_inRange hrange
    rw [stateAfter, herror b]
    exact h

/-- Builders, cells and slices under their names. -/
structure Registers where
  builders : Dict Builder := .empty
  cells : Dict Cell := .empty
  slices : Dict Reading := .empty

/-- What is stored: a value, or what is in a register. -/
inductive Source where
  | item (item : Item)
  | tail (bytes : List UInt8)
  | cell (name : String)
  | slice (name : String)
  | builder (name : String)

/-- An operation on registers. Those that only look at a register are left out. -/
inductive Step where
  | new (b : String)
  | store (b : String) (source : Source)
  | build (b c : String)
  | make (c : String) (bits : List Bool) (refs : List String)
  | decode (c : String) (bag : List UInt8)
  | parse (c s : String)
  | load (s : String) (op : LoadOp) (into : String)
  | rest (s c : String)
  | copyBuilder (b into : String)
  | copySlice (s into : String)

namespace Registers

def setBuilder (r : Registers) (name : String) (b : Builder) : Registers :=
  { r with builders := r.builders.insert name b }

def setCell (r : Registers) (name : String) (c : Cell) : Registers :=
  { r with cells := r.cells.insert name c }

def setSlice (r : Registers) (name : String) (s : Reading) : Registers :=
  { r with slices := r.slices.insert name s }

/-- Put what a read gives into a register. -/
def keep (r : Registers) (name : String) : Loaded → Registers
  | .item (.ref c) => r.setCell name c
  | .piece s => r.setSlice name ⟨s, [], []⟩
  | _ => r

/-- The operation that stores what is meant, if that is there. -/
def storeOp? (r : Registers) : Source → Option StoreOp
  | .item i => some (.item i)
  | .tail bytes => some (.tail bytes)
  | .cell name => (r.cells.get? name).map fun c => .item (.ref c)
  | .slice name => (r.slices.get? name).map fun s => .slice s.slice
  | .builder name => (r.builders.get? name).map .builder

/-- Go on with what is there; nothing happens if it is not. -/
def given {α : Type} (r : Registers) (found : Option α) (next : α → Registers) : Registers :=
  (found.map next).getD r

/-- The registers after an operation, whether it succeeds or fails. -/
def step (r : Registers) : Step → Registers
  | .new b => r.setBuilder b .empty
  | .store b source =>
    r.given (r.builders.get? b) fun builder =>
      r.given (r.storeOp? source) fun op => r.setBuilder b (stateAfter op.store builder)
  | .build b c => r.given ((r.builders.get? b).bind fun builder => builder.build.toOption) (r.setCell c)
  | .make c bits refs => r.given (refs.mapM r.cells.get?) fun refs => r.setCell c (.mk bits refs)
  | .decode c bag => r.given (Bag.decode bag).toOption (r.setCell c)
  | .parse c s => r.given (r.cells.get? c) fun cell => r.setSlice s ⟨cell.parse, [], []⟩
  | .load s op into =>
    r.given (r.slices.get? s) fun reading =>
      let after := r.setSlice s (reading.load op)
      after.given (op.fetch.run' reading.slice) (after.keep into)
  | .rest s c => r.given (r.slices.get? s) fun reading => r.setCell c reading.slice.toCell
  | .copyBuilder b into => r.given (r.builders.get? b) (r.setBuilder into)
  | .copySlice s into => r.given (r.slices.get? s) (r.setSlice into)

/-- The registers after several operations, the first one on empty registers. -/
def run (steps : List Step) : Registers := steps.foldl step {}

/-- Every builder is within the budget of a cell, and every slice within its cell. -/
structure InBounds (r : Registers) : Prop where
  room : ∀ name b, r.builders.get? name = some b → b.Room 0 0
  inBounds : ∀ name s, r.slices.get? name = some s → s.InBounds

variable {r : Registers}

theorem inBounds_empty : InBounds {} := ⟨nofun, nofun⟩

theorem InBounds.setBuilder {b : Builder} (h : r.InBounds) (name : String) (hb : b.Room 0 0) :
    (r.setBuilder name b).InBounds := by
  refine ⟨fun other b' hget => ?_, h.inBounds⟩
  rw [Registers.setBuilder, Dict.get?_insert] at hget
  split_ifs at hget
  · exact Option.some.inj hget ▸ hb
  · exact h.room other b' hget

theorem InBounds.setCell (h : r.InBounds) (name : String) (c : Cell) :
    (r.setCell name c).InBounds :=
  ⟨h.room, h.inBounds⟩

theorem InBounds.setSlice {s : Reading} (h : r.InBounds) (name : String) (hs : s.InBounds) :
    (r.setSlice name s).InBounds := by
  refine ⟨h.room, fun other s' hget => ?_⟩
  rw [Registers.setSlice, Dict.get?_insert] at hget
  split_ifs at hget
  · exact Option.some.inj hget ▸ hs
  · exact h.inBounds other s' hget

theorem InBounds.given {α : Type} {found : Option α} {next : α → Registers} (h : r.InBounds)
    (hnext : ∀ a, found = some a → (next a).InBounds) : (r.given found next).InBounds := by
  cases found with
  | none => exact h
  | some a => exact hnext a rfl

/-- What a read gives is kept in bounds. -/
theorem InBounds.keep {op : LoadOp} {s : Slice} {value : Loaded} (h : r.InBounds)
    (hvalue : op.fetch.run' s = some value) (name : String) : (r.keep name value).InBounds := by
  cases value with
  | item i =>
    cases i with
    | ref c => exact h.setCell name c
    | _ => exact h
  | piece p =>
    obtain ⟨c, rfl⟩ := LoadOp.exists_parse_of_piece hvalue
    exact h.setSlice name (Reading.inBounds_parse c)
  | nothing => exact h

/-- Every operation keeps the registers in bounds, whether it succeeds or fails. -/
theorem InBounds.step (h : r.InBounds) (op : Step) : (r.step op).InBounds := by
  cases op with
  | new b => exact h.setBuilder b Builder.room_empty
  | store b source =>
    refine h.given fun builder hbuilder => h.given fun op _ => ?_
    exact h.setBuilder b (op.room_stateAfter (h.room b builder hbuilder))
  | build b c => exact h.given fun cell _ => h.setCell c cell
  | make c bits refs => exact h.given fun refs _ => h.setCell c (.mk bits refs)
  | decode c bag => exact h.given fun cell _ => h.setCell c cell
  | parse c s => exact h.given fun cell _ => h.setSlice s (Reading.inBounds_parse cell)
  | load s op into =>
    refine h.given fun reading hreading => ?_
    have hafter := h.setSlice s ((h.inBounds s reading hreading).load op)
    exact hafter.given fun value hvalue => hafter.keep hvalue into
  | rest s c => exact h.given fun reading _ => h.setCell c reading.slice.toCell
  | copyBuilder b into =>
    exact h.given fun builder hbuilder => h.setBuilder into (h.room b builder hbuilder)
  | copySlice s into =>
    exact h.given fun reading hreading => h.setSlice into (h.inBounds s reading hreading)

theorem inBounds_run (steps : List Step) : (run steps).InBounds := by
  have hfold : ∀ r : Registers, r.InBounds → (steps.foldl Registers.step r).InBounds := by
    induction steps with
    | nil => exact fun _ h => h
    | cons op steps ih => exact fun r h => ih _ (h.step op)
  exact hfold {} inBounds_empty

end Registers

open Registers (run)

/-- **Builders and slices stay in bounds.** After any operations on registers that are empty at first,
failing ones among them, a builder has at most 1023 bits and four references, the bits it has and those
that still fit are 1023 together, and it can be built. The positions of a slice are within its cell,
what is passed and what is left are as long as the cell together, and the bits and references of the
cell are those taken so far and then those left. An amount, an address and a text are stored and read
in several steps. These are operations of their own, so that all this holds between them, too. -/
theorem registers_inBounds (steps : List Step) :
    (∀ name b, (run steps).builders.get? name = some b →
      b.bits.length ≤ 1023 ∧ b.refs.length ≤ 4 ∧ b.bits.length + b.availableBits = 1023 ∧
        b.build = .ok (.mk b.bits b.refs)) ∧
    ∀ name s, (run steps).slices.get? name = some s →
      s.slice.bitPos ≤ s.slice.cell.bits.length ∧ s.slice.refPos ≤ s.slice.cell.refs.length ∧
        s.slice.bitPos + s.slice.remainingBits = s.slice.cell.bits.length ∧
        s.slice.refPos + s.slice.remainingRefs = s.slice.cell.refs.length ∧
        s.slice.cell.bits = s.bits ++ s.slice.bits ∧ s.slice.cell.refs = s.refs ++ s.slice.refs := by
  have hbounds := Registers.inBounds_run steps
  refine ⟨fun name b hget => ?_, fun name s hget => ?_⟩
  · have hroom := hbounds.room name b hget
    have hbits : b.bits.length ≤ 1023 := hroom.1
    refine ⟨hbits, hroom.2, ?_, Builder.build_eq_ok.2 ⟨hroom, rfl⟩⟩
    rw [Builder.availableBits, maxBits]
    omega
  · obtain ⟨hbitPos, hrefPos, hbits, hrefs⟩ := hbounds.inBounds name s hget
    exact ⟨hbitPos, hrefPos, Nat.add_sub_cancel' hbitPos, Nat.add_sub_cancel' hrefPos, hbits, hrefs⟩

/-- A bag brings a cell with five references, which no builder takes, and an amount of fifteen bytes is
looked for where there are four bits. -/
def crowded : List Step :=
  [.decode "five" [0xb5, 0xee, 0x9c, 0x72, 1, 1, 2, 1, 0, 10, 0, 5, 1, 0xf8, 1, 1, 1, 1, 1, 0, 0],
    .parse "five" "s", .new "b", .store "b" (.item (.uint 5 3)), .store "b" (.slice "s"),
    .store "b" (.item (.uint 8 3)), .load "s" (.slot .coins) "", .load "s" (.slot .ref) "leaf",
    .store "b" (.cell "leaf"), .store "b" (.cell "bough")]

theorem crowded_inBounds : ∃ b s, (run crowded).builders.get? "b" = some b ∧
    (run crowded).slices.get? "s" = some s ∧ b = ⟨[true, false, true], [.empty]⟩ ∧
    s.bits = [true, true, true, true] ∧ s.refs = [.empty] ∧ b.build = .ok (.mk b.bits b.refs) ∧
    s.slice.refPos + s.slice.remainingRefs = 5 ∧ s.slice.cell.bits = s.bits ++ s.slice.bits ∧
    s.slice.cell.refs = s.refs ++ s.slice.refs := by
  have hb : (run crowded).builders.get? "b" = some ⟨[true, false, true], [.empty]⟩ := by
    decide +kernel
  have hs : (run crowded).slices.get? "s" =
      some ⟨⟨.mk [true, true, true, true] (List.replicate 5 .empty), 4, 1⟩,
        [true, true, true, true], [.empty]⟩ := by
    decide +kernel
  obtain ⟨-, -, -, hbuild⟩ := (registers_inBounds crowded).1 _ _ hb
  obtain ⟨-, -, -, hleft, hbits, hrefs⟩ := (registers_inBounds crowded).2 _ _ hs
  exact ⟨_, _, hb, hs, rfl, rfl, rfl, hbuild, hleft, hbits, hrefs⟩

end Cell

end CellCompiler
