import CellCompiler.Proofs.Codec.Capacity
import CellCompiler.Proofs.Codec.State

/-!
# Messages

A message is a record with an opcode in front of its fields. It is read as a whole where it arrives, and when
it comes back after a bounce only its first fields are read, whatever follows them.

* `Val.leading` is what these first fields hold;
* `HoldsFirst` and `HoldsMessage` say of a cell that a message can be read from it in these ways;
* `Library.holdsMessage` is the result: so it is with every cell in which a message has been stored.
-/

namespace CellCompiler

open Generate Machine

variable {c : Code} {env : Env} {decl : TypeDecl} {r : Record} {values : String → Val} {s s' : State} {v w : Val}

/-! ### The first fields -/

/-- The first fields of a record. A record without any is an empty tuple. -/
def Machine.Val.leading (n : Nat) : Val → Val
  | .tensor vs => if n = 0 then .tuple [] else .tensor (vs.take n)
  | v => v

theorem packed_take {fields : List (String × TypeRef)} (n : Nat) :
    packed (fields.take n) values = (packed fields values).leading n := by
  cases fields with
  | nil => simp [packed, Val.leading]
  | cons f fields =>
    cases n with
    | zero => simp [packed, Val.leading]
    | succ n => simp [packed, Val.leading, List.map_take]

/-- The messages of a type have opcodes of this width. -/
def Plans.HasOpcodeWidth (all : Plans) (type : String) (width : Nat) : Prop :=
  ∃ plan header, all.types.get? type = some plan ∧ plan.header = some header ∧ header.bits.toNat = width

/-! ### What is read of a message -/

/-- The function reads the value from the slice and leaves the rest of it. -/
def ReadsFrom (c : Code) (name : String) (x : Slice) (v : Val) (rest : List Bool) (others : List Cell) : Prop :=
  ∀ t, ∃ x' v', Yields (call c name [.slice x]) t (.tensor [.slice x', v']) t ∧ v'.Same v ∧ x'.Holds rest others

/-- These many bits and references of the cell are what its reader takes for the first fields of a message, and
for no more than them: what follows is left. If these are all fields, then nothing else may follow. -/
structure HoldsFirst (c : Code) (decl : TypeDecl) (v : Val) (y : Cell) (bits refs : Nat) : Prop where
  bits_le : bits ≤ y.bits.length
  refs_le : refs ≤ y.refs.length
  reads : ∀ (x : Slice) (rest : List Bool) (others : List Cell),
    x.Holds (y.bits.take bits ++ rest) (y.refs.take refs ++ others) →
    decl.bounceCount < decl.fields.length ∨ rest = y.bits.drop bits ∧ others = y.refs.drop refs →
    ReadsFrom c (Name.readerBounced decl.name) x (v.leading decl.bounceCount) rest others

/-- A message can be read from the cell: as a whole, and its first fields. Its opcode is in front of both. -/
structure HoldsMessage (c : Code) (env : Env) (decl : TypeDecl) (v : Val) (y : Cell) : Prop where
  whole : ∀ x : Slice, x.Holds y.bits y.refs → ReadsFrom c (Name.reader decl.name) x v [] []
  first : ∃ bits refs, HoldsFirst c decl v y bits refs ∧
    ∀ width, env.program.plans.HasOpcodeWidth decl.name width → width ≤ bits ∧
      decl.header.map UInt32.toNat = some (Bits.toNat (y.bits.take width))

/-- The opcode of a type is at the front of its messages. -/
theorem Plans.HasOpcodeWidth.header (hw : env.program.types.WellNamed)
    (hplanned : Plans.PlannedProgram env.program.types env.program.plans)
    (hdecl : env.program.types.types.get? decl.name = some decl) (hr : RecordOf env decl r)
    (hfits : HeaderFits r.plan) {width : Nat} (h : env.program.plans.HasOpcodeWidth decl.name width) :
    (headerBits r.plan).length = width ∧
      decl.header.map UInt32.toNat = some (Bits.toNat (headerBits r.plan)) := by
  obtain ⟨plan, header, hplan, hheader, rfl⟩ := h
  obtain rfl : r.plan = plan := by simpa [hr.plan_eq] using hplan
  have hvalue : (Bits.toNat (headerBits r.plan) : Int) = header.value.toNat := by
    rw [headerBits, hheader]
    exact Bits.toNat_ofInt (hfits header hheader)
  have hopcode : decl.header.map UInt32.toNat = some header.value.toNat := by
    have heq := (hr.stores hw hplanned hdecl).header_eq
    rw [hheader, Plans.headerOf, eq_comm] at heq
    obtain ⟨opcode, hopcode, rfl⟩ := Option.map_eq_some_iff.1 heq
    rw [hopcode]
    rfl
  refine ⟨?_, hopcode.trans (congrArg some (by exact_mod_cast hvalue.symm))⟩
  rw [headerBits, hheader]
  exact Bits.length_ofInt _ _

/-- A value of a record is a product of its fields. -/
theorem Machine.Represents.isState {format : Option String}
    (hdecl : env.program.types.types.get? decl.name = some decl) (hstruct : decl.isStruct = true)
    (hv : Represents env.program.types (.plain decl.name) format v) : IsState env.program.types decl v := by
  cases hv with
  | scalar hdecl' hp _ =>
    obtain rfl : decl = _ := by simpa [hdecl] using hdecl'
    simp [primitive?_of_isStruct hstruct] at hp
  | empty hdecl' _ hfields =>
    obtain rfl : decl = _ := by simpa [hdecl] using hdecl'
    exact .empty hfields
  | record hdecl' _ hfields hlength hvs =>
    obtain rfl : decl = _ := by simpa [hdecl] using hdecl'
    exact .record hfields hlength hvs

/-- What is left of a message after a bounce. -/
theorem Ready.reads_first (h : Ready c env r values) (hc : c.Plain) (hsep : env.program.types.Separate)
    (hr : RecordOf env decl r)
    (hreader : ∃ inline, Runs c env (readerItem r (Name.readerBounced r.name) true inline))
    (hheader : HeaderFits r.plan) {bits : List Bool} {refs : List Cell}
    (hbits : EncodesChain c env values r.plan.root bits refs) :
    ∃ front rest own others, bits = front ++ rest ∧ refs = own ++ others ∧
      ∀ (x : Slice) (rest' : List Bool) (others' : List Cell),
        x.Holds (headerBits r.plan ++ front ++ rest') (own ++ others') →
        decl.bounceCount < decl.fields.length ∨ rest' = rest ∧ others' = others →
        ReadsFrom c (Name.readerBounced decl.name) x ((packed r.fields values).leading decl.bounceCount)
          rest' others' := by
  obtain ⟨inline, hruns⟩ := hreader
  obtain ⟨front, rest, own, others, rfl, rfl, hfront, hall⟩ :=
    hbits.front h.full (by rw [h.flat]; exact h.delimits) decl.bounceCount
  refine ⟨front, rest, own, others, rfl, rfl, fun x rest' others' hx hrest t => ?_⟩
  have hlength : r.plan.ops.length = decl.fields.length := by rw [h.length_eq, hr.fields_eq, List.length_map]
  have hcount : loadedCount r true = decl.bounceCount := hr.bounceCount_eq
  -- either some field is left out, or nothing follows the fields
  have hends : (∀ op ∈ r.plan.ops.take (loadedCount r true), Delimits env op) ∨ rest' = [] ∧ others' = [] := by
    rw [hcount]
    by_cases hlt : decl.bounceCount < decl.fields.length
    · exact .inl (delimits_take h.delimits (hlength ▸ hlt))
    · obtain ⟨rfl, rfl⟩ := hrest.resolve_left hlt
      exact .inr (hall (by rw [h.flat, hlength]; exact not_lt.1 hlt))
  obtain ⟨v', x', hread, hsame, hx'⟩ :=
    readerItem_restores hc hsep h hruns hheader (hcount.symm ▸ hfront) hends hx t
  rw [h.visible_eq, hcount, packed_take] at hsame
  rw [hr.name_eq] at hread
  exact ⟨x', v', hread, hsame, hx'⟩

/-- A record is stored in a cell as its plan lays it out, behind the header. -/
theorem Library.packs (h : Library c env) (hdecl : decl ∈ env.program.types.structs)
    (hr : RecordOf env decl r) (hcodecs : Codecs c env r)
    (hv : Represents env.program.types (.plain decl.name) none v)
    (hcall : Yields (call c (Name.writerCell decl.name) [v]) s w s') :
    s' = s ∧ ∃ values bits refs, packed r.fields values = v ∧ Ready c env r values ∧ HeaderFits r.plan ∧
      EncodesChain c env values r.plan.root bits refs ∧ w = .cell (.mk (headerBits r.plan ++ bits) refs) := by
  obtain ⟨hmem, hstruct⟩ := TypeTable.mem_structs.1 hdecl
  have hget := h.wellNamed.get?_name hmem
  obtain ⟨values, rfl, hready⟩ := h.exists_state hget hr (hv.isState hget hstruct)
  rw [← hr.name_eq] at hcall
  obtain ⟨rfl, _, refs, rfl, hfits, bits, hbits, rfl⟩ := writerCell_packs h.proper.plain hcodecs
    (P := fun all refs => HeaderFits r.plan ∧ ∃ bits, EncodesChain c env values r.plan.root bits refs ∧
      all = headerBits r.plan ++ bits) (fun hwriter => by
        obtain ⟨rfl, hfits, bits, refs, hbits, rfl⟩ :=
          writer_encodes h.proper h.separate hready hcodecs hwriter
        exact ⟨rfl, _, refs, rfl, hfits, bits, hbits, rfl⟩) hcall
  exact ⟨rfl, values, bits, refs, rfl, hready, hfits, hbits, rfl⟩

/-- **A message is read from the cell in which it has been stored.** -/
theorem Library.holdsMessage (h : Library c env) (hdecl : decl ∈ env.program.types.structs)
    (hmessage : decl.header.isSome = true) (hv : Represents env.program.types (.plain decl.name) none v)
    (hcall : Yields (call c (Name.writerCell decl.name) [v]) s w s') :
    s' = s ∧ ∃ y, w = .cell y ∧ HoldsMessage c env decl v y := by
  obtain ⟨r, hr, hcodecs⟩ := (h.supports decl hdecl).codecs
  obtain ⟨rfl, values, bits, refs, rfl, hready, hfits, hbits, rfl⟩ :=
    h.packs hdecl hr hcodecs.toCodecs hv hcall
  have hget := h.wellNamed.get?_name (TypeTable.mem_structs.1 hdecl).1
  refine ⟨rfl, _, rfl, fun x hx t => ?_, ?_⟩
  · obtain ⟨v', x', hread, hsame, hx'⟩ := reader_restores h.proper.plain h.separate hready hcodecs.toCodecs hfits
      hbits (.inr ⟨rfl, rfl⟩) (by simpa using hx) t
    exact ⟨x', v', hr.name_eq ▸ hread, hsame, hx'⟩
  · obtain ⟨front, rest, own, others, rfl, rfl, hfirst⟩ :=
      hready.reads_first h.proper.plain h.separate hr (hcodecs.bounced hmessage) hfits hbits
    refine ⟨(headerBits r.plan ++ front).length, own.length, ⟨by simp, by simp, ?_⟩, fun width hwidth => ?_⟩
    · intro x rest' others' hx hrest
      refine hfirst x rest' others' ?_ ?_
      · simpa [← List.append_assoc] using hx
      · simpa [← List.append_assoc] using hrest
    · obtain ⟨rfl, hopcode⟩ := hwidth.header h.wellNamed h.planned hget hr hfits
      exact ⟨by simp, by simpa using hopcode⟩

end CellCompiler
