import CellCompiler.Proofs.Codec.Link
import CellCompiler.Proofs.Plan.Placement

/-!
# What codecs put into cells

Storing and loading meet at a description of the bits and references that a value turns into.

* `Encodes` describes the value of one operation, `EncodesField` that of a field, which may be
  absent, and `EncodesAll` and `EncodesChain` those of a cell and of a chain of cells;
* `Admits` and `AdmitsField` say which values an operation stores;
* `Stored` and `Storable` are the same two notions for records. They are stated by what the functions
  of the record do, so that a record can be described once the records in its fields are.
-/

namespace CellCompiler

open Generate Machine
open Plan (Op OpKind Format Chain)

variable (c : Code) (env : Env)

/-! ### Records -/

/-- The code has the codecs of the record. -/
def Supported (name : String) : Prop := ∃ r, r.name = name ∧ Codecs c env r

/-- The code has the codecs of the record, also those for one that may be absent. -/
def SupportedOptional (name : String) : Prop := ∃ r, r.name = name ∧ OptionalCodecs c env r

/-- Loading the record leaves what follows it. -/
def Plans.Delimited (plans : Plans) (name : String) : Prop :=
  ∃ plan, plans.types.get? name = some plan ∧ plans.isOpenEnded plan = .ok false

/-- The record is stored as these bits and references: its reader finds it at the front of every slice
that holds them. -/
structure Stored (name : String) (v : Val) (bits : List Bool) (refs : List Cell) : Prop where
  supported : Supported c env name
  reads : ∀ (s : State) {x : Slice} {rest : List Bool} {others : List Cell},
    x.Holds (bits ++ rest) (refs ++ others) →
    (env.program.plans.Delimited name ∨ rest = [] ∧ others = []) →
    ∃ w x', Yields (call c (Name.reader name) [.slice x]) s (.tensor [.slice x', w]) s ∧
      w.Same v ∧ x'.Holds rest others

/-- The record is stored whenever its writer returns. -/
structure Storable (name : String) (v : Val) : Prop where
  supported : Supported c env name
  stores : ∀ {b : Builder} {s s' : State} {w : Val},
    Yields (call c (Name.writer name) [.builder b, v]) s w s' →
    s' = s ∧ ∃ bits refs, w = .builder (b.push bits refs) ∧ Stored c env name v bits refs

/-- The record can be boxed, and opened again. -/
structure Boxable (name : String) (v : Val) : Prop where
  supported : SupportedOptional c env name
  opens : ∀ s : State, Yields (call c (Name.notNull name) [v.boxed]) s v s
  boxes : ∀ (s : State) {w : Val}, w.Same v →
    Yields (call c (Name.asOptional name) [w]) s w.boxed s
  isNull_boxed : v.boxed.isNull = false

/-! ### Operations -/

/-- The values that are stored by a kind of operation. -/
inductive Admits : OpKind → Val → Prop where
  | int (bits : UInt16) (i : Int) : Admits (.int bits) (.int i)
  | uint (bits : UInt16) (i : Int) : Admits (.uint bits) (.int i)
  | coins (i : Int) : Admits .coins (.int i)
  | boolean (t : Bool) : Admits .boolean (.bool t)
  | address {x : Slice} : x.refs = [] → Admits .address (.slice x)
  | cell (format : Format) (y : Cell) : Admits (.cell format) (.cell y)
  | slice (format : Format) (x : Slice) : Admits (.slice format) (.slice x)
  | builder (format : Format) (b : Builder) : Admits (.builder format) (.builder b)
  | string (x : Slice) : Admits .string (.slice x)
  | fixedBytes {bytes : UInt16} {x : Slice} : x.bits.length = bytes.toNat * 8 → x.refs = [] →
      Admits (.fixedBytes bytes) (.slice x)
  | noMap : Admits .map .null
  | map (y : Cell) : Admits .map (.cell y)
  | struct {name : String} {v : Val} (byRef : Bool) : Storable c env name v →
      Admits (.struct name byRef) v

/-- The value of a field, which may be absent. A record that may be absent is boxed. -/
inductive AdmitsField : Op → Val → Prop where
  | required {name : String} {kind : OpKind} {v : Val} : Admits c env kind v →
      AdmitsField ⟨name, kind, false⟩ v
  | absent {name : String} {kind : OpKind} : kind.isRemainder = false →
      (∀ type byRef, kind = .struct type byRef → SupportedOptional c env type) →
      AdmitsField ⟨name, kind, true⟩ .null
  | present {name : String} {kind : OpKind} {v : Val} : kind.isRemainder = false →
      kind.isStruct = false → v.isNull = false → Admits c env kind v →
      AdmitsField ⟨name, kind, true⟩ v
  | boxed {name type : String} {byRef : Bool} {v : Val} : Storable c env type v →
      Boxable c env type v → AdmitsField ⟨name, .struct type byRef, true⟩ v.boxed

variable {c env} in
theorem AdmitsField.supported {name type : String} {byRef : Bool} {v : Val}
    (h : AdmitsField c env ⟨name, .struct type byRef, true⟩ v) : SupportedOptional c env type := by
  cases h with
  | absent _ hsupported => exact hsupported type byRef rfl
  | present _ hstruct => simp [OpKind.isStruct] at hstruct
  | boxed _ hbox => exact hbox.supported

/-- A value as bits and references. -/
inductive Encodes : OpKind → Val → List Bool → List Cell → Prop where
  | int {bits : UInt16} {i : Int} : Bits.fitsSigned i bits.toNat = true →
      Encodes (.int bits) (.int i) (Bits.ofInt bits.toNat i) []
  | uint {bits : UInt16} {i : Int} : Bits.fitsUnsigned i bits.toNat = true →
      Encodes (.uint bits) (.int i) (Bits.ofInt bits.toNat i) []
  | coins {i : Int} : Bits.fitsUnsigned i Builder.maxCoinsBits = true →
      Encodes .coins (.int i) (Builder.coinsBits i) []
  | boolean (t : Bool) : Encodes .boolean (.bool t) [t] []
  /-- Addresses are stored only where they can be checked again. -/
  | address {x : Slice} : c.Helps Helper.verifyAddressName .verifyAddress → IsStandard x.bits →
      x.refs = [] → Encodes .address (.slice x) x.bits []
  | cell (y : Cell) : Encodes (.cell .reference) (.cell y) [] [y]
  | cellRest {bits : List Bool} {refs : List Cell} : Builder.empty.Room bits.length refs.length →
      Encodes (.cell .remainder) (.cell (.mk bits refs)) bits refs
  | slice (x : Slice) : Encodes (.slice .reference) (.slice x) [] [.mk x.bits x.refs]
  | sliceRest (x : Slice) : Encodes (.slice .remainder) (.slice x) x.bits x.refs
  | builder {b : Builder} : Builder.empty.Room b.bits.length b.refs.length →
      Encodes (.builder .reference) (.builder b) [] [.mk b.bits b.refs]
  | builderRest {b : Builder} : Builder.empty.Room b.bits.length b.refs.length →
      Encodes (.builder .remainder) (.builder b) b.bits b.refs
  | string (x : Slice) : Encodes .string (.slice x) [] [.mk x.bits x.refs]
  | fixedBytes {bytes : UInt16} {x : Slice} : x.bits.length = bytes.toNat * 8 → x.refs = [] →
      Encodes (.fixedBytes bytes) (.slice x) x.bits []
  | noMap : Encodes .map .null [false] []
  | map (y : Cell) : Encodes .map (.cell y) [true] [y]
  | inPlace {name : String} {v : Val} {bits : List Bool} {refs : List Cell} :
      Stored c env name v bits refs → Encodes (.struct name false) v bits refs
  | behind {name : String} {v : Val} {bits : List Bool} {refs : List Cell} :
      Stored c env name v bits refs → Encodes (.struct name true) v [] [.mk bits refs]

/-- A field as bits and references: a bit in front tells whether an optional one is present. -/
inductive EncodesField : Op → Val → List Bool → List Cell → Prop where
  | required {name : String} {kind : OpKind} {v : Val} {bits : List Bool} {refs : List Cell} :
      Encodes c env kind v bits refs → EncodesField ⟨name, kind, false⟩ v bits refs
  | absent {name : String} {kind : OpKind} : kind.isRemainder = false →
      (∀ type byRef, kind = .struct type byRef → SupportedOptional c env type) →
      EncodesField ⟨name, kind, true⟩ .null [false] []
  | present {name : String} {kind : OpKind} {v : Val} {bits : List Bool} {refs : List Cell} :
      kind.isRemainder = false → kind.isStruct = false → Encodes c env kind v bits refs →
      EncodesField ⟨name, kind, true⟩ v (true :: bits) refs
  | boxed {name type : String} {byRef : Bool} {v : Val} {bits : List Bool} {refs : List Cell} :
      Encodes c env (.struct type byRef) v bits refs → Boxable c env type v →
      EncodesField ⟨name, .struct type byRef, true⟩ v.boxed (true :: bits) refs

section

variable {c env}

theorem EncodesField.supported {name type : String} {byRef : Bool} {v : Val} {bits : List Bool}
    {refs : List Cell} (h : EncodesField c env ⟨name, .struct type byRef, true⟩ v bits refs) :
    SupportedOptional c env type := by
  cases h with
  | absent _ hsupported => exact hsupported type byRef rfl
  | present _ hstruct => simp [OpKind.isStruct] at hstruct
  | boxed _ hbox => exact hbox.supported

end

/-! ### Cells -/

variable (value : String → Val)

/-- The fields of a cell one after the other, given the values of fields by their names. -/
inductive EncodesAll : List Op → List Bool → List Cell → Prop where
  | nil : EncodesAll [] [] []
  | cons {op : Op} {ops : List Op} {bits more : List Bool} {refs others : List Cell} :
      EncodesField c env op (value op.name) bits refs → EncodesAll ops more others →
      EncodesAll (op :: ops) (bits ++ more) (refs ++ others)

/-- A chain of cells; the last reference of a cell leads to the next one. -/
inductive EncodesChain : Chain → List Bool → List Cell → Prop where
  | last {ops : List Op} {bits : List Bool} {refs : List Cell} :
      EncodesAll c env value ops bits refs → EncodesChain (.last ops) bits refs
  | link {ops : List Op} {next : Chain} {bits more : List Bool} {refs others : List Cell} :
      EncodesAll c env value ops bits refs → EncodesChain next more others →
      EncodesChain (.link ops next) bits (refs ++ [Cell.mk more others])

end CellCompiler
