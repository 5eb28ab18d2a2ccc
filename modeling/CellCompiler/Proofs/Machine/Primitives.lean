import CellCompiler.Generate.Helper
import CellCompiler.Proofs.Cell
import CellCompiler.Proofs.Machine.Rules
import CellCompiler.Proofs.Numeral
import CellCompiler.Proofs.Target.Callees

/-!
# What functions of the target do

* `Code.Plain` says that a module does not define the functions of the target anew; then calls of
  them are `Primitive.call` (`yields_builtin`);
* one lemma per function says when it gives a result and which one;
* `asm_tuple` and `asm_untuple` are about instructions that make tuples and take them apart.
-/

namespace CellCompiler

namespace Machine

variable {host : Host} {v : Val} {b : Builder}

/-! ### Calls -/

/-- The module does not define the functions of the target. -/
def Code.Plain (c : Code) : Prop := ∀ name ∈ Target.builtins, c.functions.get? name = none

/-- A function of the target that neither reads nor replaces the data of the contract. -/
def Computes (name : String) : Prop :=
  name ∈ Target.builtins ∧ name ≠ "get_data" ∧ name ≠ "set_data"

instance : DecidablePred Computes := fun _ => inferInstanceAs (Decidable (_ ∧ _ ∧ _))

theorem yields_builtin {c : Code} {s s' : State} {name : String} {args : List Val} (hc : c.Plain)
    (hname : Computes name) :
    Yields (call c name args) s v s' ↔ Primitive.call c.host name args = .ok v ∧ s' = s :=
  yields_primitive (hc name hname.1) hname.2.1 hname.2.2

/-! ### Arguments -/

@[simp] theorem asInt_int {n : Int} : (Val.int n).asInt = .ok n := rfl

@[simp] theorem truthy_bool {t : Bool} : (Val.bool t).truthy = .ok t := by cases t <;> rfl

theorem width_int {n : Nat} (h : n < UInt64.size) : (Val.int n).width = .ok n := by
  have hrange : (0 : Int) ≤ n ∧ (n : Int) < UInt64.size := by omega
  have hwidth : ∀ m : Int, (Val.int m).width = if 0 ≤ m ∧ m < UInt64.size then .ok m.toNat
      else .error (.bug (.width (.int m))) := fun _ => rfl
  rw [hwidth, if_pos hrange, Int.toNat_natCast]

theorem unary_not_bool {t : Bool} : Primitive.unary .bitNot (.bool t) = .ok (.bool (!t)) := by
  cases t <;> rfl

theorem binary_and_bool {t u : Bool} :
    Primitive.binary .and (.bool t) (.bool u) = .ok (.bool (t && u)) := by
  cases t <;> cases u <;> rfl

theorem binary_eq_int {m n : Int} :
    Primitive.binary .eq (.int m) (.int n) = .ok (.bool (m == n)) := rfl

theorem call_throw_unless {code : Nat} {w : Val} :
    Primitive.call host "throw_unless" [.int code, w] = .ok v ↔
      w.truthy = .ok true ∧ v = .unit := by
  have hcall : ∀ code : Val, Primitive.call host "throw_unless" [code, w] = (do
      if ← w.truthy then return .unit else throw (.exit (← code.exitCode))) := fun _ => rfl
  rw [hcall, Except.bind_eq_ok]
  constructor
  · rintro ⟨t, ht, hv⟩
    cases t with
    | true => exact ⟨ht, (by simpa using hv : Val.unit = v).symm⟩
    | false => simp at hv
  · rintro ⟨ht, rfl⟩
    exact ⟨true, ht, rfl⟩

theorem call_throw_if {code : Nat} {w : Val} :
    Primitive.call host "throw_if" [.int code, w] = .ok v ↔ w.truthy = .ok false ∧ v = .unit := by
  have hcall : ∀ code : Val, Primitive.call host "throw_if" [code, w] = (do
      if ← w.truthy then throw (.exit (← code.exitCode)) else return .unit) := fun _ => rfl
  rw [hcall, Except.bind_eq_ok]
  constructor
  · rintro ⟨t, ht, hv⟩
    cases t with
    | false => exact ⟨ht, (by simpa using hv : Val.unit = v).symm⟩
    | true => simp at hv
  · rintro ⟨ht, rfl⟩
    exact ⟨false, ht, rfl⟩

/-! ### Storing -/

theorem stored_eq_ok {store : Builder.Store} : Primitive.stored b store = .ok v ↔
    ∃ b', store b = .ok () b' ∧ v = .builder b' := by
  unfold Primitive.stored
  split
  · next h => simp [h, eq_comm]
  · next h => simp [h]

theorem call_store_int {x : Int} {n : Nat} (hn : n < UInt64.size) :
    Primitive.call host "store_int" [.builder b, .int x, .int n] = .ok v ↔
      Bits.fitsSigned x n = true ∧ b.Room n 0 ∧ v = .builder (b.push (Bits.ofInt n x) []) := by
  have hcall : ∀ width, Primitive.call host "store_int" [.builder b, .int x, width] =
      (do Primitive.stored b (Builder.storeInt x (← width.width))) := fun _ => rfl
  rw [hcall]
  simp only [width_int hn, Except.bind_eq_ok, Except.ok.injEq, exists_eq_left', stored_eq_ok,
    Builder.storeInt_eq_ok]
  constructor
  · rintro ⟨_, ⟨hx, hroom, rfl⟩, hv⟩
    exact ⟨hx, hroom, hv⟩
  · rintro ⟨hx, hroom, hv⟩
    exact ⟨_, ⟨hx, hroom, rfl⟩, hv⟩

/-- A truth value is stored as a single bit. -/
theorem call_store_flag {t : Bool} :
    Primitive.call host "store_int" [.builder b, .bool t, .int 1] = .ok v ↔
      b.Room 1 0 ∧ v = .builder (b.push [t] []) := by
  cases t with
  | false => exact (call_store_int (n := 1) (x := 0) (by decide)).trans (and_iff_right (by decide))
  | true => exact (call_store_int (n := 1) (x := -1) (by decide)).trans (and_iff_right (by decide))

theorem call_store_uint {x : Int} {n : Nat} (hn : n < UInt64.size) :
    Primitive.call host "store_uint" [.builder b, .int x, .int n] = .ok v ↔
      Bits.fitsUnsigned x n = true ∧ b.Room n 0 ∧ v = .builder (b.push (Bits.ofInt n x) []) := by
  have hcall : ∀ width, Primitive.call host "store_uint" [.builder b, .int x, width] =
      (do Primitive.stored b (Builder.storeUint x (← width.width))) := fun _ => rfl
  rw [hcall]
  simp only [width_int hn, Except.bind_eq_ok, Except.ok.injEq, exists_eq_left', stored_eq_ok,
    Builder.storeUint_eq_ok]
  constructor
  · rintro ⟨_, ⟨hx, hroom, rfl⟩, hv⟩
    exact ⟨hx, hroom, hv⟩
  · rintro ⟨hx, hroom, hv⟩
    exact ⟨_, ⟨hx, hroom, rfl⟩, hv⟩

theorem call_store_coins {x : Int} :
    Primitive.call host "store_coins" [.builder b, .int x] = .ok v ↔
      Bits.fitsUnsigned x Builder.maxCoinsBits = true ∧
        b.Room (Builder.coinsBits x).length 0 ∧ v = .builder (b.push (Builder.coinsBits x) []) := by
  change Primitive.stored b (Builder.storeCoins x) = _ ↔ _
  simp only [stored_eq_ok, Builder.storeCoins_eq_ok]
  exact ⟨fun ⟨_, ⟨hx, hroom, hb⟩, hv⟩ => ⟨hx, hroom, hb ▸ hv⟩,
    fun ⟨hx, hroom, hv⟩ => ⟨_, ⟨hx, hroom, rfl⟩, hv⟩⟩

theorem call_store_ref {x : Cell} :
    Primitive.call host "store_ref" [.builder b, .cell x] = .ok v ↔
      b.Room 0 1 ∧ v = .builder (b.push [] [x]) := by
  change Primitive.stored b (Builder.storeRef x) = _ ↔ _
  simp only [stored_eq_ok, Builder.storeRef_eq_ok]
  exact ⟨fun ⟨_, ⟨hroom, hb⟩, hv⟩ => ⟨hroom, hb ▸ hv⟩, fun ⟨hroom, hv⟩ => ⟨_, ⟨hroom, rfl⟩, hv⟩⟩

theorem call_store_slice {x : Slice} :
    Primitive.call host "store_slice" [.builder b, .slice x] = .ok v ↔
      b.Room x.bits.length x.refs.length ∧ v = .builder (b.push x.bits x.refs) := by
  change Primitive.stored b (Builder.storeSlice x) = _ ↔ _
  simp only [stored_eq_ok, Builder.storeSlice_eq_ok]
  exact ⟨fun ⟨_, ⟨hroom, hb⟩, hv⟩ => ⟨hroom, hb ▸ hv⟩, fun ⟨hroom, hv⟩ => ⟨_, ⟨hroom, rfl⟩, hv⟩⟩

theorem call_store_builder {x : Builder} :
    Primitive.call host "store_builder" [.builder b, .builder x] = .ok v ↔
      b.Room x.bits.length x.refs.length ∧ v = .builder (b.push x.bits x.refs) := by
  change Primitive.stored b (Builder.storeBuilder x) = _ ↔ _
  simp only [stored_eq_ok, Builder.storeBuilder_eq_ok]
  exact ⟨fun ⟨_, ⟨hroom, hb⟩, hv⟩ => ⟨hroom, hb ▸ hv⟩, fun ⟨hroom, hv⟩ => ⟨_, ⟨hroom, rfl⟩, hv⟩⟩

theorem call_store_dict_null : Primitive.call host "store_dict" [.builder b, .null] = .ok v ↔
    b.Room 1 0 ∧ v = .builder (b.push [false] []) := by
  change Primitive.stored b (Builder.storeBit false) = _ ↔ _
  simp only [stored_eq_ok, Builder.storeBit_eq_ok]
  exact ⟨fun ⟨_, ⟨hroom, hb⟩, hv⟩ => ⟨hroom, hb ▸ hv⟩, fun ⟨hroom, hv⟩ => ⟨_, ⟨hroom, rfl⟩, hv⟩⟩

theorem call_store_dict_cell {x : Cell} :
    Primitive.call host "store_dict" [.builder b, .cell x] = .ok v ↔
      b.Room 1 1 ∧ v = .builder (b.push [true] [x]) := by
  change Primitive.stored b (do Builder.storeBit true; Builder.storeRef x) = _ ↔ _
  have hroom : b.Room 1 0 ∧ (b.push [true] []).Room 0 1 ↔ b.Room 1 1 :=
    @Builder.room_append b [true] [] 0 1
  simp only [stored_eq_ok, Builder.andThen_eq_ok, Builder.storeBit_eq_ok, Builder.storeRef_eq_ok]
  constructor
  · rintro ⟨_, ⟨_, ⟨hbit, rfl⟩, href, rfl⟩, hv⟩
    exact ⟨hroom.1 ⟨hbit, href⟩, by simpa using hv⟩
  · rintro ⟨hall, hv⟩
    obtain ⟨hbit, href⟩ := hroom.2 hall
    exact ⟨_, ⟨_, ⟨hbit, rfl⟩, href, rfl⟩, by simpa using hv⟩

theorem call_end_cell : Primitive.call host "end_cell" [.builder b] = .ok v ↔
    b.Room 0 0 ∧ v = .cell (.mk b.bits b.refs) := by
  change (do return Val.cell (← Primitive.ofCell b.build)) = _ ↔ _
  cases h : b.build with
  | error e =>
    have hroom : ¬ b.Room 0 0 := fun hroom => by
      simp [Builder.build_eq_ok.2 ⟨hroom, rfl⟩] at h
    simp [Primitive.ofCell, hroom]
  | ok x =>
    obtain ⟨hroom, rfl⟩ := Builder.build_eq_ok.1 h
    simp [Primitive.ofCell, hroom, eq_comm]

/-! ### Reading -/

theorem loaded_eq_ok {α : Type} {x : Slice} {load : Slice.Load α} {value : α → Val} {a : α}
    {x' : Slice} (h : load x = .ok a x') : Primitive.loaded x load value = .ok (x', value a) := by
  simp [Primitive.loaded, h]

section Reading

variable {x : Slice} {bits rest : List Bool} {refs : List Cell}

theorem modify_of_read {name : String} {args : List Val} {x' : Slice}
    (h : Primitive.read name x args = .ok (x', v)) :
    Primitive.modify name (.slice x :: args) = .ok (.slice x', v) := by
  change (do
    let p ← Primitive.read name x args
    return (Val.slice p.1, p.2)) = _
  simp [h]

theorem read_load_int {i : Int} {n : Nat} (hn : n < UInt64.size)
    (hi : Bits.fitsSigned i n = true) (h : x.Holds (Bits.ofInt n i ++ rest) refs) :
    ∃ x', Primitive.read "load_int" x [.int n] = .ok (x', .int i) ∧ x'.Holds rest refs := by
  have hread : ∀ width, Primitive.read "load_int" x [width] =
      (do Primitive.loaded x (Slice.loadInt (← width.width)) .int) := fun _ => rfl
  obtain ⟨x', hload, hx'⟩ := Slice.loadInt_holds h (Bits.length_ofInt n i)
  refine ⟨x', ?_, hx'⟩
  rw [hread, width_int hn]
  change Primitive.loaded x (Slice.loadInt n) .int = _
  rw [loaded_eq_ok hload, Bits.toInt_ofInt hi]

theorem read_load_uint {i : Int} {n : Nat} (hn : n < UInt64.size)
    (hi : Bits.fitsUnsigned i n = true) (h : x.Holds (Bits.ofInt n i ++ rest) refs) :
    ∃ x', Primitive.read "load_uint" x [.int n] = .ok (x', .int i) ∧ x'.Holds rest refs := by
  have hread : ∀ width, Primitive.read "load_uint" x [width] =
      (do Primitive.loaded x (Slice.loadUint (← width.width)) .int) := fun _ => rfl
  obtain ⟨x', hload, hx'⟩ := Slice.loadUint_holds h (Bits.length_ofInt n i)
  refine ⟨x', ?_, hx'⟩
  rw [hread, width_int hn]
  change Primitive.loaded x (Slice.loadUint n) .int = _
  rw [loaded_eq_ok hload, Bits.toNat_ofInt hi]

/-- A single bit is read as a truth value. -/
theorem read_load_flag {t : Bool} (h : x.Holds (t :: rest) refs) :
    ∃ x', Primitive.read "load_int" x [.int 1] = .ok (x', .bool t) ∧ x'.Holds rest refs := by
  cases t with
  | false => exact read_load_int (n := 1) (i := 0) (by decide) (by decide) h
  | true => exact read_load_int (n := 1) (i := -1) (by decide) (by decide) h

theorem read_load_bits {n : Nat} (hn : n < UInt64.size) (hbits : bits.length = n)
    (h : x.Holds (bits ++ rest) refs) :
    ∃ x', Primitive.read "load_bits" x [.int n] = .ok (x', .slice (Cell.mk bits []).parse) ∧
      x'.Holds rest refs := by
  have hread : ∀ width, Primitive.read "load_bits" x [width] =
      (do Primitive.loaded x (Slice.loadSlice (← width.width)) .slice) := fun _ => rfl
  obtain ⟨x', hload, hx'⟩ := Slice.loadSlice_holds h hbits
  refine ⟨x', ?_, hx'⟩
  rw [hread, width_int hn]
  change Primitive.loaded x (Slice.loadSlice n) .slice = _
  rw [loaded_eq_ok hload]

theorem read_load_coins {i : Int} (hi : Bits.fitsUnsigned i Builder.maxCoinsBits = true)
    (h : x.Holds (Builder.coinsBits i ++ rest) refs) :
    ∃ x', Primitive.read "load_coins" x [] = .ok (x', .int i) ∧ x'.Holds rest refs := by
  obtain ⟨x', hload, hx'⟩ := Slice.loadCoins_holds hi h
  exact ⟨x', loaded_eq_ok hload, hx'⟩

theorem read_load_ref {y : Cell} (h : x.Holds bits (y :: refs)) :
    ∃ x', Primitive.read "load_ref" x [] = .ok (x', .cell y) ∧ x'.Holds bits refs := by
  obtain ⟨x', hload, hx'⟩ := Slice.loadRef_holds h
  exact ⟨x', loaded_eq_ok hload, hx'⟩

theorem read_load_dict_null (h : x.Holds (false :: rest) refs) :
    ∃ x', Primitive.read "load_dict" x [] = .ok (x', .null) ∧ x'.Holds rest refs := by
  obtain ⟨x', hload, hx'⟩ := Slice.loadBit_holds h
  have hdict : Primitive.loadDict x = .ok none x' := by
    change EStateM.bind Slice.loadBit _ x = _
    simp [EStateM.bind, hload, pure, EStateM.pure]
  exact ⟨x', loaded_eq_ok hdict, hx'⟩

theorem read_load_dict_cell {y : Cell} (h : x.Holds (true :: rest) (y :: refs)) :
    ∃ x', Primitive.read "load_dict" x [] = .ok (x', .cell y) ∧ x'.Holds rest refs := by
  obtain ⟨x₁, hbit, hx₁⟩ := Slice.loadBit_holds h
  obtain ⟨x', hload, hx'⟩ := Slice.loadRef_holds hx₁
  have hdict : Primitive.loadDict x = .ok (some y) x' := by
    change EStateM.bind Slice.loadBit _ x = _
    simp [EStateM.bind, hbit, Functor.map, EStateM.map, hload]
  exact ⟨x', loaded_eq_ok hdict, hx'⟩

/-- An address of two bits of tag and 265 further bits. -/
theorem read_load_msg_addr (hbits : bits.length = Address.bitLength)
    (htag : Bits.toNat (bits.take 2) = 2) (h : x.Holds (bits ++ rest) refs) :
    ∃ x', Primitive.read "load_msg_addr" x [] = .ok (x', .slice (Cell.mk bits []).parse) ∧
      x'.Holds rest refs := by
  obtain ⟨x', hload, hx'⟩ := Slice.loadSlice_holds h hbits
  have hsplit : x.Holds (bits.take 2 ++ (bits.drop 2 ++ rest)) refs := by
    rwa [← List.append_assoc, List.take_append_drop]
  have hpeek : x.preloadUint 2 = .ok 2 := by
    have hlength : (bits.take 2).length = 2 := by simp [hbits, Address.bitLength]
    rw [Slice.preloadUint_holds hsplit hlength, htag]
    rfl
  refine ⟨x', ?_, hx'⟩
  change Primitive.loadMsgAddr x = _
  simp [Primitive.loadMsgAddr, hpeek, Primitive.ofCell, loaded_eq_ok hload]

theorem loaded_skipBits {n : Nat} : Primitive.loaded x (Slice.skipBits n) (fun _ => Val.unit) =
    if n ≤ x.bits.length then .ok (x.dropBits n, .unit) else .error (.exit 9) := by
  rw [Primitive.loaded, Slice.skipBits_eq]
  by_cases h : n ≤ x.bits.length
  · simp only [h, if_true]
  · simp only [h, if_false]
    rfl

theorem read_skip_bits {n : Nat} (hn : n < UInt64.size) :
    Primitive.read "skip_bits" x [.int n] =
      if n ≤ x.bits.length then .ok (x.dropBits n, .unit) else .error (.exit 9) := by
  have hread : ∀ width, Primitive.read "skip_bits" x [width] =
      (do Primitive.loaded x (Slice.skipBits (← width.width)) fun _ => Val.unit) := fun _ => rfl
  rw [hread, width_int hn, ← loaded_skipBits]
  rfl

end Reading

/-! ### Looking at slices -/

theorem call_skip_bits {x : Slice} {n : Nat} (hn : n < UInt64.size) (hbits : n ≤ x.bits.length) :
    Primitive.call host "skip_bits" [.slice x, .int n] = .ok (.slice (x.dropBits n)) := by
  have hcall : ∀ width, Primitive.call host "skip_bits" [.slice x, width] = (do
      let read ← Primitive.loaded x (Slice.skipBits (← width.width)) fun _ => Val.unit
      return .slice read.1) := fun _ => rfl
  have hloaded : Primitive.loaded x (Slice.skipBits n) (fun _ => Val.unit) =
      .ok (x.dropBits n, .unit) := by rw [loaded_skipBits, if_pos hbits]
  rw [hcall, width_int hn]
  simp only [Except.bind_eq_ok]
  exact ⟨_, rfl, _, hloaded, rfl⟩

theorem call_slice_bits {x : Slice} : Primitive.call host "slice_bits" [.slice x] = .ok v ↔
    v = .int x.bits.length := by
  change Except.ok (Val.int x.remainingBits) = _ ↔ _
  rw [Slice.remainingBits_eq]
  simp [eq_comm]

theorem call_preload_uint {x : Slice} {n : Nat} (hn : n < UInt64.size) (hbits : n ≤ x.bits.length) :
    Primitive.call host "preload_uint" [.slice x, .int n] = .ok v ↔
      v = .int (Bits.toNat (x.bits.take n)) := by
  have hcall : ∀ width, Primitive.call host "preload_uint" [.slice x, width] =
      (do return Val.int (← Primitive.ofCell (x.preloadUint (← width.width)))) := fun _ => rfl
  have hsplit : x.Holds (x.bits.take n ++ x.bits.drop n) x.refs := by
    rw [List.take_append_drop]
    exact x.holds_self
  have hlength : (x.bits.take n).length = n := by simp [hbits]
  rw [hcall, width_int hn, Except.bind_eq_ok]
  simp [Slice.preloadUint_holds hsplit hlength, Primitive.ofCell, eq_comm]

theorem call_begin_parse {y : Cell} : Primitive.call host "begin_parse" [.cell y] = .ok v ↔
    v = .slice y.parse := by
  change Except.ok (Val.slice y.parse) = _ ↔ _
  simp [eq_comm]

theorem call_end_parse {x : Slice} (h : x.Holds [] []) :
    Primitive.call host "end_parse" [.slice x] = .ok .unit := by
  change (do Primitive.ofCell x.endParse; return Val.unit) = _
  rw [Slice.endParse_holds h]
  rfl

theorem call_begin_cell : Primitive.call host "begin_cell" [] = .ok v ↔ v = .builder .empty := by
  change Except.ok (Val.builder .empty) = _ ↔ _
  simp [eq_comm]

theorem call_empty_tuple : Primitive.call host "empty_tuple" [] = .ok v ↔ v = .tuple [] := by
  change Except.ok (Val.tuple []) = _ ↔ _
  simp [eq_comm]

theorem call_null : Primitive.call host "null" [] = .ok v ↔ v = .null := by
  change Except.ok Val.null = _ ↔ _
  simp [eq_comm]

theorem call_is_null {w : Val} : Primitive.call host "null?" [w] = .ok v ↔ v = .bool w.isNull := by
  change Except.ok (Val.bool w.isNull) = _ ↔ _
  simp [eq_comm]

/-! ### Expressions -/

section Expressions

variable {c : Code} {s s' : State} {name : String} {vs : List Val} {e cond : Target.Expr}
  {es : List Target.Expr} {body : List Target.Stmt} {r : Option Val} {t : Bool}

/-- A function of the target applied to arguments that have values. -/
theorem Means.primitive (hc : c.Plain) (hname : Computes name)
    (h : List.Forall₂ (Means c s) (e :: es) vs) (hv : Primitive.call c.host name vs = .ok v) :
    Means c s (Target.method e name es) v :=
  (yields_method_means h).2 ((yields_builtin hc hname).2 ⟨hv, rfl⟩)

theorem Means.primitiveCall (hc : c.Plain) (hname : Computes name)
    (h : List.Forall₂ (Means c s) es vs) (hv : Primitive.call c.host name vs = .ok v) :
    Means c s (Target.call name es) v :=
  (yields_call_means h).2 ((yields_builtin hc hname).2 ⟨hv, rfl⟩)

theorem means_null (hc : c.Plain) : Means c s Target.null .null :=
  .primitiveCall hc (by decide) .nil (call_null.2 rfl)

theorem means_beginCell (hc : c.Plain) : Means c s Target.beginCell (.builder .empty) :=
  .primitiveCall hc (by decide) .nil (call_begin_cell.2 rfl)

theorem means_emptyTuple (hc : c.Plain) : Means c s Target.emptyTuple (.tuple []) :=
  .primitiveCall hc (by decide) .nil (call_empty_tuple.2 rfl)

theorem means_isNull (hc : c.Plain) (h : Means c s e v) :
    Means c s (Target.isNull e) (.bool v.isNull) :=
  .primitiveCall hc (by decide) (.cons h .nil) (call_is_null.2 rfl)

theorem Means.eq {m n : Int} {rhs : Target.Expr} (h : Means c s e (.int m))
    (h' : Means c s rhs (.int n)) : Means c s (Target.eq e rhs) (.bool (m == n)) :=
  .binary h h' binary_eq_int

theorem Means.ternary {onTrue onFalse : Target.Expr} (h : Means c s cond (.bool t))
    (h' : Means c s (if t then onTrue else onFalse) v) :
    Means c s (.ternary cond onTrue onFalse) v :=
  yields_ternary.2 ⟨_, s, h, t, truthy_bool, h'⟩

theorem Means.not (h : Means c s e (.bool t)) : Means c s (Target.not e) (.bool !t) :=
  .unary h unary_not_bool

theorem Means.and {u : Bool} {rhs : Target.Expr} (h : Means c s e (.bool t))
    (h' : Means c s rhs (.bool u)) : Means c s (.binary .and e rhs) (.bool (t && u)) :=
  .binary h h' binary_and_bool

theorem yields_throwUnless (hc : c.Plain) {code : Nat} (h : Means c s cond (.bool t)) :
    Yields (block c (Target.throwUnless code cond :: body)) s r s' ↔
      t = true ∧ Yields (block c body) s r s' := by
  have hargs : List.Forall₂ (Means c s) [Target.int code, cond] [.int code, .bool t] :=
    .cons means_int (.cons h .nil)
  rw [Target.throwUnless, yields_block_expr]
  simp (disch := decide) only [yields_call_means hargs, yields_builtin hc, call_throw_unless,
    truthy_bool, Except.ok.injEq]
  constructor
  · rintro ⟨w, s₁, ⟨⟨rfl, -⟩, rfl⟩, hbody⟩
    exact ⟨rfl, hbody⟩
  · rintro ⟨rfl, hbody⟩
    exact ⟨_, s, ⟨⟨rfl, rfl⟩, rfl⟩, hbody⟩

theorem yields_throwIf (hc : c.Plain) {code : Nat} (h : Means c s cond (.bool t)) :
    Yields (block c (Target.throwIf code cond :: body)) s r s' ↔
      t = false ∧ Yields (block c body) s r s' := by
  have hargs : List.Forall₂ (Means c s) [Target.int code, cond] [.int code, .bool t] :=
    .cons means_int (.cons h .nil)
  rw [Target.throwIf, yields_block_expr]
  simp (disch := decide) only [yields_call_means hargs, yields_builtin hc, call_throw_if,
    truthy_bool, Except.ok.injEq]
  constructor
  · rintro ⟨w, s₁, ⟨⟨rfl, -⟩, rfl⟩, hbody⟩
    exact ⟨rfl, hbody⟩
  · rintro ⟨rfl, hbody⟩
    exact ⟨_, s, ⟨⟨rfl, rfl⟩, rfl⟩, hbody⟩

/-- A function of the target, of whose arguments only the first may stop the run. -/
theorem Returns.primitive {P Q : Val → Prop} (hc : c.Plain) (hname : Computes name)
    (he : Returns c s e P) (hargs : List.Forall₂ (Means c s) es vs)
    (h : ∀ v w, P v → Primitive.call c.host name (v :: vs) = .ok w → Q w) :
    Returns c s (Target.method e name es) Q := by
  intro w s' hw
  rw [Target.method, yields_method] at hw
  obtain ⟨_, s₂, hall, hcall⟩ := hw
  obtain ⟨v, s₁, hv, rest, hrest, rfl⟩ := yields_evalAll_cons.1 hall
  obtain ⟨rfl, hP⟩ := he v s₁ hv
  obtain ⟨rfl, rfl⟩ := (means_evalAll hargs).eq hrest
  obtain ⟨hprim, rfl⟩ := (yields_builtin hc hname).1 hcall
  exact ⟨rfl, h v w hP hprim⟩

/-- A function of the target, of whose two arguments both may stop the run. -/
theorem Returns.primitive₂ {a : Target.Expr} {P Q R : Val → Prop} (hc : c.Plain)
    (hname : Computes name) (he : Returns c s e P) (ha : Returns c s a Q)
    (h : ∀ u v w, P u → Q v → Primitive.call c.host name [u, v] = .ok w → R w) :
    Returns c s (Target.method e name [a]) R := by
  intro w s' hw
  rw [Target.method, yields_method] at hw
  obtain ⟨_, s₂, hall, hcall⟩ := hw
  simp only [yields_evalAll_cons, yields_evalAll_nil] at hall
  obtain ⟨u, s₁, hu, _, ⟨v, s₃, hv, _, ⟨rfl, rfl⟩, rfl⟩, rfl⟩ := hall
  obtain ⟨rfl, hP⟩ := he u s₁ hu
  obtain ⟨rfl, hQ⟩ := ha v _ hv
  obtain ⟨hprim, rfl⟩ := (yields_builtin hc hname).1 hcall
  exact ⟨rfl, h u v w hP hQ hprim⟩

/-- A builder that is finished. -/
theorem returns_endCell {P : Val → Prop} (hc : c.Plain) (he : Returns c s e P)
    (hP : ∀ v, P v → v = .builder b) :
    Returns c s (Target.endCell e) fun w => b.Room 0 0 ∧ w = .cell (.mk b.bits b.refs) := by
  refine he.primitive hc (by decide) .nil fun v w hv hw => ?_
  rw [hP v hv] at hw
  exact call_end_cell.1 hw

theorem yields_ifThen_means (h : Means c s cond (.bool t)) {more : List Target.Stmt} :
    Yields (block c (Target.ifThen cond body :: more)) s r s' ↔
      Yields (block c (if t then body ++ more else more)) s r s' := by
  rw [yields_block_ifThen]
  simp only [h.iff]
  constructor
  · rintro ⟨_, _, ⟨rfl, rfl⟩, hit, hhit, hbranch⟩
    obtain rfl : t = hit := by simpa using hhit
    cases t <;> simpa using hbranch
  · intro hbranch
    refine ⟨_, s, ⟨rfl, rfl⟩, t, truthy_bool, ?_⟩
    cases t <;> simpa using hbranch

/-- Reading from a variable by a function of the target. -/
theorem yields_read (hc : c.Plain) (hname : name ∈ Target.builtins) {slice : String} {x x' : Slice}
    (hs : s.get? slice = some (.slice x)) (hargs : List.Forall₂ (Means c s) es vs)
    (hread : Primitive.read name x vs = .ok (x', v)) :
    Yields (eval c (Target.modify (Target.id slice) name es)) s v (s.set slice (.slice x')) := by
  rw [Target.modify, yields_modify_primitive (hc name hname)]
  refine ⟨.slice x :: vs, s, means_evalAll (.cons (means_id hs) hargs), .slice x',
    modify_of_read hread, ?_⟩
  rw [Target.id, yields_bind_set hs]

/-- Reading from a variable by a function of the module. -/
theorem yields_reader {slice : String} {x x' : Slice} {item : Target.Item}
    (hget : c.functions.get? name = some item) (hs : s.get? slice = some (.slice x))
    (hcall : Yields (call c name [.slice x]) s (.tensor [.slice x', v]) s) :
    Yields (eval c (Target.modify (Target.id slice) name [])) s v (s.set slice (.slice x')) := by
  rw [Target.modify, yields_modify_function hget]
  refine ⟨[.slice x], s, means_evalAll (.cons (means_id hs) .nil), _, s, hcall, .slice x', rfl, ?_⟩
  rw [Target.id, yields_bind_set hs]

end Expressions

/-! ### Instructions -/

theorem wordsFrom_append {word cs rest : List Char} (hcs : ∀ c ∈ cs, Primitive.isSpace c = false)
    (hne : word ++ cs ≠ []) :
    Primitive.wordsFrom word (cs ++ ' ' :: rest) = (word ++ cs) :: Primitive.wordsFrom [] rest := by
  induction cs generalizing word with
  | nil =>
    have hword : word.isEmpty = false := by simpa using hne
    have hspace : Primitive.isSpace ' ' = true := by decide
    simp [Primitive.wordsFrom, hspace, hword]
  | cons c cs ih =>
    rw [List.forall_mem_cons] at hcs
    rw [List.cons_append, Primitive.wordsFrom]
    simp only [hcs.1, Bool.not_false, if_true]
    rw [ih hcs.2 (by simp), List.append_assoc, List.singleton_append]

theorem isSpace_of_isDigit {c : Char} (h : c.isDigit = true) : Primitive.isSpace c = false := by
  have hrange : 48 ≤ c.toNat ∧ c.toNat ≤ 57 := by
    simpa [Char.isDigit, Char.le_def, UInt32.le_iff_toNat_le] using h
  simp [Primitive.isSpace]
  omega

theorem words_numbered {n : Nat} {word : String} {rest : List String}
    (h : Primitive.words word = rest) : Primitive.words (n.repr ++ (" " ++ word)) = n.repr :: rest := by
  have hdigits : ∀ c ∈ n.repr.toList, Primitive.isSpace c = false := by
    intro c hc
    rw [Nat.toList_repr] at hc
    exact isSpace_of_isDigit (Nat.isDigit_of_mem_toDigits (by decide) (by decide) hc)
  have hne : [] ++ n.repr.toList ≠ [] := by simp
  unfold Primitive.words at h ⊢
  rw [String.toList_append, String.toList_append]
  change List.map String.ofList (Primitive.wordsFrom [] (n.repr.toList ++ ' ' :: word.toList)) = _
  rw [wordsFrom_append hdigits hne, List.map_cons, h, List.nil_append, String.ofList_toList]

theorem arity_repr {program : String} {n : Nat} (hn : n < UInt64.size) :
    Primitive.arity program n.repr = .ok n := by
  have hread : Numeral.readNat UInt64.size n.repr = .ok n :=
    (Numeral.readNat_repr (by decide)).2 ⟨rfl, hn⟩
  simp [Primitive.arity, hread]

theorem asm_numbered {n : Nat} {word : String} {args : List Val} {rest : List String}
    (h : Primitive.words word = rest) : Primitive.asm [n.repr ++ (" " ++ word)] args =
      Primitive.runWords (n.repr ++ (" " ++ word)) args (n.repr :: rest) := by
  have hprogram : " ".intercalate [n.repr ++ (" " ++ word)] = n.repr ++ (" " ++ word) := rfl
  rw [Primitive.asm, hprogram, words_numbered h]

/-- Making a tuple of as many values as the instruction is for. -/
theorem asm_tuple_eq_ok {n : Nat} {args : List Val} {v : Val} (hn : n < UInt64.size) :
    Primitive.asm [s!"{n} TUPLE"] args = .ok v ↔
      (Val.flattenAll args).length = n ∧ v = .tuple (Val.flattenAll args) := by
  have hrun : ∀ (program word : String), Primitive.runWords program args [word, "TUPLE"] = (do
      let n ← Primitive.arity program word
      if (Val.flattenAll args).length = n then return .tuple (Val.flattenAll args)
      else throw (.bug (.tupleSize program (Val.flattenAll args).length))) := by
    intro program word
    rw [Primitive.runWords, Val.flatten]
  have hprogram : s!"{n} TUPLE" = n.repr ++ (" " ++ "TUPLE") := rfl
  have hwords : Primitive.words "TUPLE" = ["TUPLE"] := by decide
  rw [hprogram, asm_numbered hwords, hrun, arity_repr hn, Except.bind_eq_ok]
  by_cases hargs : (Val.flattenAll args).length = n
  · simp [hargs, @eq_comm _ v]
  · simp [hargs]

theorem asm_tuple {n : Nat} {args : List Val} (hn : n < UInt64.size)
    (hargs : (Val.flattenAll args).length = n) :
    Primitive.asm [s!"{n} TUPLE"] args = .ok (.tuple (Val.flattenAll args)) :=
  (asm_tuple_eq_ok hn).2 ⟨hargs, rfl⟩

/-- Taking a tuple apart that has as many entries as the instruction is for. -/
theorem asm_untuple_eq_ok {n : Nat} {args : List Val} {v : Val} (hn : n < UInt64.size) :
    Primitive.asm [s!"{n} UNTUPLE"] args = .ok v ↔
      ∃ items, Primitive.single args = .tuple items ∧ items.length = n ∧ v = .tensor items := by
  have hrun : ∀ (program word : String), Primitive.runWords program args [word, "UNTUPLE"] = .ok v ↔
      ∃ k, Primitive.arity program word = .ok k ∧ ∃ items, Primitive.single args = .tuple items ∧
        items.length = k ∧ v = .tensor items := by
    intro program word
    rw [Primitive.runWords, Except.bind_eq_ok]
    refine exists_congr fun k => and_congr_right fun _ => ?_
    cases Primitive.single args with
    | tuple items =>
      by_cases hitems : items.length = k
      · simp [hitems, @eq_comm _ v]
      · simp [hitems]
    | _ => simp
  have hprogram : s!"{n} UNTUPLE" = n.repr ++ (" " ++ "UNTUPLE") := rfl
  have hwords : Primitive.words "UNTUPLE" = ["UNTUPLE"] := by decide
  rw [hprogram, asm_numbered hwords, hrun, arity_repr hn]
  simp only [Except.ok.injEq, exists_eq_left']

theorem asm_untuple {n : Nat} {items : List Val} (hn : n < UInt64.size) (hitems : items.length = n) :
    Primitive.asm [s!"{n} UNTUPLE"] [.tuple items] = .ok (.tensor items) :=
  (asm_untuple_eq_ok hn).2 ⟨items, rfl, hitems, rfl⟩

theorem asm_emptySlice : Primitive.asm ["<b b> <s PUSHSLICE"] [] = .ok (.slice Cell.empty.parse) := by
  have hwords : Primitive.words "<b b> <s PUSHSLICE" = ["<b", "b>", "<s", "PUSHSLICE"] := by decide
  have hprogram : " ".intercalate ["<b b> <s PUSHSLICE"] = "<b b> <s PUSHSLICE" := rfl
  rw [Primitive.asm, hprogram, hwords]
  rfl

end Machine

end CellCompiler
