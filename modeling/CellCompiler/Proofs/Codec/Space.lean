import CellCompiler.Proofs.Codec.Record

/-!
# Space that stores take

What a value is stored as does not depend on the builder that it goes to, and it is stored in every
builder with room for it. The accounts of the planner bound how much room that is.

* `Appends` says of an expression that it appends certain bits and references to a builder, and
  `AppendsBy` the same of a function;
* `Fills` and `FillsField` describe the bits and references of a value that fits its operation, and
  `FillsAll` and `FillsChain` those of a cell and of a chain of cells. `Fills.covers` and its
  successors bound them by the accounts of the planner;
* `storeOp_appends`, `storeField_appends`, `writeOps_appends`, `writeChain_appends` and
  `writer_appends` say that the code that stores a value appends them.
-/

namespace CellCompiler

open Generate Machine
open Plan (Op OpKind Format Chain Usage)

/-! ### Appending to builders -/

section Appends

variable {c : Code} {s s' : State} {e a : Target.Expr} {es : List Target.Expr} {v : Val}
  {vs : List Val} {b : Builder} {bits more : List Bool} {refs others : List Cell} {name : String}

/-- The expression appends bits and references to a builder, if there is room for them. -/
structure Appends (c : Code) (s : State) (e : Target.Expr) (b : Builder) (bits : List Bool)
    (refs : List Cell) : Prop where
  returns : Returns c s e (· = .builder (b.push bits refs))
  means : b.Room bits.length refs.length → Means c s e (.builder (b.push bits refs))

/-- The function appends bits and references for a value to every builder with room for them. -/
structure AppendsBy (c : Code) (name : String) (v : Val) (bits : List Bool) (refs : List Cell) :
    Prop where
  returns : ∀ {b : Builder} {s s' : State} {w : Val},
    Yields (call c name [.builder b, v]) s w s' → s' = s ∧ w = .builder (b.push bits refs)
  yields : ∀ {b : Builder} (s : State), b.Room bits.length refs.length →
    Yields (call c name [.builder b, v]) s (.builder (b.push bits refs)) s

theorem Machine.Means.appends (h : Means c s e (.builder b)) : Appends c s e b [] [] :=
  ⟨by simpa using h.returns, fun _ => by simpa using h⟩

/-- A function of the target that appends to what has been appended. -/
theorem Appends.primitive (hc : c.Plain) (hname : Computes name) (he : Appends c s e b bits refs)
    (hargs : List.Forall₂ (Means c s) es vs)
    (hcall : ∀ (b : Builder) w, Primitive.call c.host name (.builder b :: vs) = .ok w ↔
      b.Room more.length others.length ∧ w = .builder (b.push more others)) :
    Appends c s (Target.method e name es) b (bits ++ more) (refs ++ others) := by
  constructor
  · refine he.returns.primitive hc hname hargs ?_
    rintro _ w rfl hw
    rw [((hcall _ w).1 hw).2, Builder.push_push]
  · intro hroom
    rw [List.length_append, List.length_append] at hroom
    obtain ⟨hroom, hmore⟩ := Builder.room_append.2 hroom
    rw [← Builder.push_push]
    exact .primitive hc hname (.cons (he.means hroom) hargs) ((hcall _ _).2 ⟨hmore, rfl⟩)

/-- A function of the module that appends to what has been appended. -/
theorem Appends.call (he : Appends c s e b bits refs) (ha : Means c s a v)
    (h : AppendsBy c name v more others) :
    Appends c s (Target.call name [e, a]) b (bits ++ more) (refs ++ others) := by
  constructor
  · intro w s' hw
    rw [Target.call, yields_call] at hw
    obtain ⟨ws, s₁, hargs, hcall⟩ := hw
    simp only [yields_evalAll_cons, yields_evalAll_nil] at hargs
    obtain ⟨u, s₂, hu, _, ⟨y, s₃, hy, _, ⟨rfl, rfl⟩, rfl⟩, rfl⟩ := hargs
    obtain ⟨rfl, rfl⟩ := he.returns u s₂ hu
    obtain ⟨rfl, rfl⟩ := ha.iff.1 hy
    obtain ⟨rfl, rfl⟩ := h.returns hcall
    exact ⟨rfl, by rw [Builder.push_push]⟩
  · intro hroom
    rw [List.length_append, List.length_append] at hroom
    obtain ⟨hroom, hmore⟩ := Builder.room_append.2 hroom
    rw [← Builder.push_push]
    exact (yields_call_means (.cons (he.means hroom) (.cons ha .nil))).2 (h.yields s hmore)

theorem Appends.flag (hc : c.Plain) (he : Appends c s e b bits refs) (t : Bool) :
    Appends c s (storeFlag e t) b (bits ++ [t]) refs := by
  have hargs : List.Forall₂ (Means c s) [.bool t, Target.int 1] [.bool t, .int 1] :=
    .cons means_bool (.cons means_int .nil)
  have hflag : Appends c s (storeFlag e t) b (bits ++ [t]) (refs ++ []) :=
    he.primitive hc (by decide) hargs fun b w => call_store_flag
  simpa using hflag

end Appends

/-! ### Values that fit -/

/-- The bits and references are within an account. -/
def Plan.Usage.Covers (u : Usage) (bits : List Bool) (refs : List Cell) : Prop :=
  bits.length ≤ u.bits ∧ refs.length ≤ u.refs

variable (c : Code) (env : Env)

/-- The record is stored as these bits and references, which are within the account of its plan and
have room in a cell of their own. -/
structure Compact (name : String) (v : Val) (bits : List Bool) (refs : List Cell) : Prop where
  supported : SupportedOptional c env name
  appends : AppendsBy c (Name.writer name) v bits refs
  opens : ∀ s : State, Yields (call c (Name.notNull name) [v.boxed]) s v s
  isNull_boxed : v.boxed.isNull = false
  room : Builder.empty.Room bits.length refs.length
  covers : ∀ plan u, env.program.plans.types.get? name = some plan →
    env.program.plans.rootUsage plan = .ok u → u.Covers bits refs

/-- A value that fits its operation, and the bits and references that it fills. -/
inductive Fills : OpKind → Val → List Bool → List Cell → Prop where
  | int {bits : UInt16} {i : Int} : Bits.fitsSigned i bits.toNat = true →
      Fills (.int bits) (.int i) (Bits.ofInt bits.toNat i) []
  | uint {bits : UInt16} {i : Int} : Bits.fitsUnsigned i bits.toNat = true →
      Fills (.uint bits) (.int i) (Bits.ofInt bits.toNat i) []
  | coins {i : Int} : Bits.fitsUnsigned i Builder.maxCoinsBits = true →
      Fills .coins (.int i) (Builder.coinsBits i) []
  | boolean (t : Bool) : Fills .boolean (.bool t) [t] []
  | address {x : Slice} : IsStandard x.bits → x.refs = [] → Fills .address (.slice x) x.bits []
  | cell (y : Cell) : Fills (.cell .reference) (.cell y) [] [y]
  | slice {x : Slice} : Builder.empty.Room x.bits.length x.refs.length →
      Fills (.slice .reference) (.slice x) [] [.mk x.bits x.refs]
  | builder {b : Builder} : Builder.empty.Room b.bits.length b.refs.length →
      Fills (.builder .reference) (.builder b) [] [.mk b.bits b.refs]
  | string {x : Slice} : Builder.empty.Room x.bits.length x.refs.length →
      Fills .string (.slice x) [] [.mk x.bits x.refs]
  | fixedBytes {bytes : UInt16} {x : Slice} : x.bits.length = bytes.toNat * 8 → x.refs = [] →
      Fills (.fixedBytes bytes) (.slice x) x.bits []
  | noMap : Fills .map .null [false] []
  | map (y : Cell) : Fills .map (.cell y) [true] [y]
  | inPlace {name : String} {v : Val} {bits : List Bool} {refs : List Cell} :
      Compact c env name v bits refs → Fills (.struct name false) v bits refs
  | behind {name : String} {v : Val} {bits : List Bool} {refs : List Cell} :
      Compact c env name v bits refs → Fills (.struct name true) v [] [.mk bits refs]

/-- A field that fits its operation: a bit in front tells whether an optional one is present. -/
inductive FillsField : Op → Val → List Bool → List Cell → Prop where
  | required {name : String} {kind : OpKind} {v : Val} {bits : List Bool} {refs : List Cell} :
      Fills c env kind v bits refs → FillsField ⟨name, kind, false⟩ v bits refs
  | absent {name : String} {kind : OpKind} :
      (∀ type byRef, kind = .struct type byRef → SupportedOptional c env type) →
      FillsField ⟨name, kind, true⟩ .null [false] []
  | present {name : String} {kind : OpKind} {v : Val} {bits : List Bool} {refs : List Cell} :
      kind.isStruct = false → v.isNull = false → Fills c env kind v bits refs →
      FillsField ⟨name, kind, true⟩ v (true :: bits) refs
  | inPlace {name type : String} {v : Val} {bits : List Bool} {refs : List Cell} :
      Compact c env type v bits refs →
      FillsField ⟨name, .struct type false, true⟩ v.boxed (true :: bits) refs
  | behind {name type : String} {v : Val} {bits : List Bool} {refs : List Cell} :
      Compact c env type v bits refs →
      FillsField ⟨name, .struct type true, true⟩ v.boxed [true] [.mk bits refs]

variable (value : String → Val)

/-- The fields of a cell, given the values of fields by their names. -/
inductive FillsAll : List Op → List Bool → List Cell → Prop where
  | nil : FillsAll [] [] []
  | cons {op : Op} {ops : List Op} {bits more : List Bool} {refs others : List Cell} :
      FillsField c env op (value op.name) bits refs → FillsAll ops more others →
      FillsAll (op :: ops) (bits ++ more) (refs ++ others)

/-- The fields of a chain of cells, each but the first of which has room in a cell of its own. -/
inductive FillsChain : Chain → List Bool → List Cell → Prop where
  | last {ops : List Op} {bits : List Bool} {refs : List Cell} :
      FillsAll c env value ops bits refs → FillsChain (.last ops) bits refs
  | link {ops : List Op} {next : Chain} {bits more : List Bool} {refs others : List Cell} :
      FillsAll c env value ops bits refs → FillsChain next more others →
      Builder.empty.Room more.length others.length →
      FillsChain (.link ops next) bits (refs ++ [Cell.mk more others])

variable {c env value}

theorem FillsField.supported {name type : String} {byRef : Bool} {v : Val} {bits : List Bool}
    {refs : List Cell} (h : FillsField c env ⟨name, .struct type byRef, true⟩ v bits refs) :
    SupportedOptional c env type := by
  cases h with
  | absent hsupported => exact hsupported type byRef rfl
  | present hstruct => simp [OpKind.isStruct] at hstruct
  | inPlace h | behind h => exact h.supported

/-! ### Accounts -/

section Accounts

variable {kind : OpKind} {op : Op} {ops : List Op} {chain : Chain} {v : Val} {bits : List Bool}
  {refs : List Cell} {u start : Usage} {inline : String → Except Plan.Error Usage}

theorem Builder.length_coinsBits_le {i : Int} (h : Bits.fitsUnsigned i Builder.maxCoinsBits = true) :
    (Builder.coinsBits i).length ≤ Plan.coinsBits := by
  obtain ⟨n, rfl⟩ := Int.eq_ofNat_of_zero_le (Bits.fitsUnsigned_iff.1 h).1
  have hlength : Bits.bitLength n ≤ Builder.maxCoinsBits := Bits.fitsUnsigned_natCast.1 h
  rw [Builder.length_coinsBits, Int.toNat_natCast]
  simp only [Plan.coinsBits, Builder.maxCoinsBits] at hlength ⊢
  omega

theorem Plan.OpKind.covers_inline {name : String} (h : Compact c env name v bits refs)
    (hu : env.program.plans.inlineUsage env.program.plans.depthBound name = .ok u) :
    u.Covers bits refs := by
  simp only [Plans.depthBound, Plans.inlineUsage, Except.bind_eq_ok, Plans.get_eq_ok] at hu
  obtain ⟨plan, hplan, hu⟩ := hu
  refine h.covers plan u hplan (Plan.Chain.usageBy_mono ?_ hu)
  exact Plans.inlineUsage_mono (.refl _) (Nat.le_succ _)

theorem Fills.covers (h : Fills c env kind v bits refs)
    (hu : kind.usageBy (env.program.plans.inlineUsage env.program.plans.depthBound) = .ok u) :
    u.Covers bits refs := by
  cases h with
  | inPlace h => exact Plan.OpKind.covers_inline h hu
  | coins h =>
    obtain rfl := Except.ok.inj hu
    exact ⟨Builder.length_coinsBits_le h, by simp⟩
  | int | uint =>
    obtain rfl := Except.ok.inj hu
    exact ⟨by rw [Bits.length_ofInt], by simp⟩
  | address h =>
    obtain rfl := Except.ok.inj hu
    exact ⟨h.length_eq.le, by simp⟩
  | fixedBytes hlength =>
    obtain rfl := Except.ok.inj hu
    exact ⟨hlength.le, by simp⟩
  | _ =>
    obtain rfl := Except.ok.inj hu
    simp [Plan.Usage.Covers, Plan.Format.usage]

theorem FillsField.covers (h : FillsField c env op v bits refs)
    (hu : env.program.plans.opUsage op = .ok u) : u.Covers bits refs := by
  simp only [Plans.opUsage, Plan.Op.usageBy, Except.bind_eq_ok] at hu
  obtain ⟨base, hbase, hu⟩ := hu
  obtain rfl := Except.pure_eq_ok.1 hu
  -- an optional field takes one more bit than its value
  have hflag : ∀ {more : List Bool} {others : List Cell}, base.Covers more others →
      (base.add ⟨1, 0⟩).Covers (true :: more) others := by
    rintro more others ⟨hbits, hrefs⟩
    simp only [Plan.Usage.Covers, Plan.Usage.bits_add, Plan.Usage.refs_add, List.length_cons]
    omega
  cases h with
  | required h => exact h.covers hbase
  | absent _ => simp [Plan.Usage.Covers]
  | present _ _ h => exact hflag (h.covers hbase)
  | inPlace h => exact hflag ((Fills.inPlace h).covers hbase)
  | behind h => exact hflag ((Fills.behind h).covers hbase)

/-- The account of several operations starts from what the cell already holds. -/
theorem FillsAll.covers (h : FillsAll c env value ops bits refs)
    (hu : start.total (ops.map env.program.plans.opUsage) = .ok u) :
    start.bits + bits.length ≤ u.bits ∧ start.refs + refs.length ≤ u.refs := by
  induction h generalizing start with
  | nil =>
    obtain rfl := Except.ok.inj hu
    simp
  | cons hop _ ih =>
    simp only [List.map_cons, Plan.Usage.total_cons, Except.bind_eq_ok] at hu
    obtain ⟨a, ha, hu⟩ := hu
    obtain ⟨hbits, hrefs⟩ := hop.covers ha
    have hrest := ih hu
    simp only [Plan.Usage.bits_add, Plan.Usage.refs_add, List.length_append] at hrest ⊢
    omega

theorem FillsChain.covers (h : FillsChain c env value chain bits refs)
    (hu : chain.usageBy (env.program.plans.inlineUsage env.program.plans.depthBound) start = .ok u) :
    start.bits + bits.length ≤ u.bits ∧ start.refs + refs.length ≤ u.refs := by
  cases h with
  | last hall => exact hall.covers hu
  | link hall _ _ =>
    simp only [Plan.Chain.usageBy, Except.bind_eq_ok] at hu
    obtain ⟨used, hused, hu⟩ := hu
    obtain rfl := Except.pure_eq_ok.1 hu
    have hcovers := hall.covers hused
    simp only [Plan.Usage.bits_add, Plan.Usage.refs_add, List.length_append, List.length_cons,
      List.length_nil]
    omega

end Accounts

/-! ### Code of operations -/

section Operations

variable {d d' : Draft} {s : State} {builder target e : Target.Expr} {b : Builder}
  {kind : OpKind} {op : Op} {v : Val} {bits before : List Bool} {refs others : List Cell}

/-- A record is stored in a cell of its own. -/
theorem writerCell_yields {r : Record} (hc : c.Plain) (h : Codecs c env r)
    (hv : AppendsBy c (Name.writer r.name) v bits refs)
    (hroom : Builder.empty.Room bits.length refs.length) (s : State) :
    Yields (call c (Name.writerCell r.name) [v]) s (.cell (.mk bits refs)) s := by
  obtain ⟨inline, d, item, d', hrun, -, -, hget⟩ := h.writerCell
  simp only [writerCellItem, callUsed, used, run_bind, run_modify, run_pure] at hrun
  obtain ⟨shape, _, -, _, _, ⟨_, _, ⟨_, _, rfl, rfl, rfl⟩, rfl, rfl⟩, rfl, rfl⟩ := hrun
  have hhas : c.Has (Name.writerCell r.name) ["v"] _ := ⟨_, hget _ (by simp), by simp⟩
  generalize hu : s.enter ["v"] [v] = u
  have hvar : u.get? "v" = some v := by simp [← hu, State.enter, State.get?, Dict.ofList]
  have hstored : Appends c u (Target.call (Name.writer r.name) [Target.beginCell, Target.id "v"])
      .empty bits refs := (means_beginCell hc).appends.call (means_id hvar) hv
  have hfull : (Builder.mk bits refs).Room 0 0 := by
    simpa [Builder.Room, Builder.empty] using hroom
  have hmeans := hstored.means hroom
  rw [Builder.push_empty] at hmeans
  have hend : Means c u (Target.endCell (Target.call (Name.writer r.name)
      [Target.beginCell, Target.id "v"])) (.cell (.mk bits refs)) :=
    .primitive hc (by decide) (.cons hmeans .nil) (call_end_cell.2 ⟨hfull, rfl⟩)
  refine hhas.returns (t := u) rfl ?_ (by rw [← hu]; rfl) (by rw [← hu]; rfl)
  rw [hu]
  exact (yields_ret_means hend).2 ⟨rfl, rfl⟩

/-- The contents of a slice have room in a cell. -/
theorem means_sliceCell (hc : c.Plain) {x : Slice} (h : Means c s target (.slice x))
    (hroom : Builder.empty.Room x.bits.length x.refs.length) :
    Means c s (sliceCell target) (.cell (.mk x.bits x.refs)) := by
  have hslice : Means c s (Target.method Target.beginCell "store_slice" [target])
      (.builder ⟨x.bits, x.refs⟩) :=
    .primitive hc (by decide) (.cons (means_beginCell hc) (.cons h .nil)) (call_store_slice.2 ⟨hroom, by simp⟩)
  refine .primitive hc (by decide) (.cons hslice .nil) (call_end_cell.2 ⟨?_, rfl⟩)
  simpa [Builder.Room, Builder.empty] using hroom

/-- A cell is appended by a reference. -/
theorem Appends.ref (hc : c.Plain) (hb : Appends c s builder b before others) {y : Cell}
    (he : Means c s e (.cell y)) :
    Appends c s (Target.method builder "store_ref" [e]) b (before ++ []) (others ++ [y]) :=
  hb.primitive hc (by decide) (.cons he .nil) fun _ _ => call_store_ref

/-- **A value that fits is appended**, whatever the builder. -/
theorem storeOp_appends (hc : c.Proper) (hrun : storeOp builder target kind env d = .ok e d')
    (hsound : d.registry.Sound true) (hback : Underlies c d'.registry)
    (hv : Fills c env kind v bits refs) (hb : Appends c s builder b before others)
    (hvalue : Means c s target v) : Appends c s e b (before ++ bits) (others ++ refs) := by
  have hplain := hc.plain
  cases hv with
  | @int bits i hfits =>
    obtain ⟨rfl, rfl⟩ := run_pure.1 hrun
    refine hb.primitive hplain (by decide) (.cons hvalue (.cons means_int .nil)) fun b w => ?_
    rw [call_store_int (Bits.toNat_lt_size bits), Bits.length_ofInt]
    exact and_iff_right hfits
  | @uint bits i hfits =>
    obtain ⟨rfl, rfl⟩ := run_pure.1 hrun
    refine hb.primitive hplain (by decide) (.cons hvalue (.cons means_int .nil)) fun b w => ?_
    rw [call_store_uint (Bits.toNat_lt_size bits), Bits.length_ofInt]
    exact and_iff_right hfits
  | coins hfits =>
    obtain ⟨rfl, rfl⟩ := run_pure.1 hrun
    exact hb.primitive hplain (by decide) (.cons hvalue .nil) fun b w =>
      call_store_coins.trans (and_iff_right hfits)
  | boolean t =>
    obtain ⟨rfl, rfl⟩ := run_pure.1 hrun
    exact hb.primitive hplain (by decide) (.cons hvalue (.cons means_int .nil)) fun b w => call_store_flag
  | @address x hstandard hrefs =>
    simp only [storeOp, callHelper, run_bind, run_pure] at hrun
    obtain ⟨n, _, hhelper, rfl, rfl⟩ := hrun
    have hname : Helper.ofName? Helper.storeAddressName = some .storeAddress := by decide
    have hverify := helper_verifies hhelper hsound hback hname rfl
    obtain ⟨rfl, helper, hof, hhelps⟩ := helper_helps hhelper hsound hback (by decide) (by decide)
    obtain rfl : Helper.storeAddress = helper := by simpa [hname] using hof
    refine hb.call hvalue ⟨fun hcall => ?_, fun s hroom => ?_⟩
    · obtain ⟨-, -, rfl, rfl⟩ := yields_storeAddress hc hhelps hcall
      exact ⟨rfl, by rw [hrefs]⟩
    · have hstored := storeAddress_yields (s := s) hplain hhelps hverify hstandard
        (by rw [hrefs]; exact hroom)
      rwa [hrefs] at hstored
  | cell y =>
    obtain ⟨rfl, rfl⟩ := run_pure.1 hrun
    exact hb.ref hplain hvalue
  | slice hroom | string hroom =>
    obtain ⟨rfl, rfl⟩ := run_pure.1 hrun
    exact hb.ref hplain (means_sliceCell hplain hvalue hroom)
  | builder hroom =>
    obtain ⟨rfl, rfl⟩ := run_pure.1 hrun
    refine hb.ref hplain (.primitive hplain (by decide) (.cons hvalue .nil) (call_end_cell.2 ⟨?_, rfl⟩))
    simpa [Builder.Room, Builder.empty] using hroom
  | @fixedBytes bytes x hlength hrefs =>
    obtain ⟨rfl, rfl⟩ := run_pure.1 hrun
    refine hb.primitive hplain (by decide) (.cons hvalue .nil) fun b w => ?_
    rw [call_store_slice, hrefs]
  | noMap =>
    obtain ⟨rfl, rfl⟩ := run_pure.1 hrun
    exact hb.primitive hplain (by decide) (.cons hvalue .nil) fun b w => call_store_dict_null
  | map y =>
    obtain ⟨rfl, rfl⟩ := run_pure.1 hrun
    exact hb.primitive hplain (by decide) (.cons hvalue .nil) fun b w => call_store_dict_cell
  | inPlace hv =>
    simp only [storeOp, callUsed, used, run_bind, run_modify, run_pure] at hrun
    obtain ⟨_, _, ⟨_, _, rfl, rfl, rfl⟩, rfl, rfl⟩ := hrun
    exact hb.call hvalue hv.appends
  | behind hv =>
    simp only [storeOp, callUsed, used, run_bind, run_modify, run_pure] at hrun
    obtain ⟨_, _, ⟨_, _, ⟨_, _, rfl, rfl, rfl⟩, rfl, rfl⟩, rfl, rfl⟩ := hrun
    obtain ⟨r, rfl, hcodecs⟩ := hv.supported
    refine hb.ref hplain ((yields_call_means (.cons hvalue .nil)).2 ?_)
    exact writerCell_yields hplain hcodecs.toCodecs hv.appends hv.room s

/-! ### Code of fields -/

/-- A record that may be absent, after a bit. -/
theorem writerOpt_appends {r : Record} {field : String} (hc : c.Plain) (h : OptionalCodecs c env r)
    (hv : FillsField c env ⟨field, .struct r.name false, true⟩ v bits refs) :
    AppendsBy c (Name.writerOpt r.name) v bits refs := by
  obtain ⟨d, item, d', hrun, -, -, hget⟩ := h.writerOpt
  simp only [writerOptItem, used, run_bind, run_modify, run_pure] at hrun
  obtain ⟨_, _, ⟨_, _, rfl, rfl, rfl⟩, _, _, ⟨_, _, rfl, rfl, rfl⟩, rfl, rfl⟩ := hrun
  have hhas : c.Has (Name.writerOpt r.name) ["b", "v"] _ := ⟨_, hget _ (by simp), by simp⟩
  have hb : ∀ (s : State) (b : Builder), Means c (s.enter ["b", "v"] [.builder b, v])
      (Target.id "b") (.builder b) := fun s b =>
    means_id (by simp [State.enter, State.get?, Dict.ofList])
  have hvar : ∀ (s : State) (b : Builder),
      (s.enter ["b", "v"] [.builder b, v]).get? "v" = some v := fun s b => by
    simp [State.enter, State.get?, Dict.ofList]
  cases hv with
  | absent _ =>
    have hflag : ∀ (s : State) (b : Builder), Appends c (s.enter ["b", "v"] [.builder b, .null])
        (storeFlag (Target.id "b") false) b [false] [] := fun s b =>
      (hb s b).appends.flag hc false
    constructor
    · intro b s s' w hcall
      obtain ⟨-, q, t, hbody, rfl, rfl⟩ := hhas.yields.1 hcall
      rw [yields_ifThen_means (means_isNull hc (means_id (hvar s b)))] at hbody
      obtain ⟨rfl, w, rfl, rfl⟩ := (hflag s b).returns.of_ret hbody
      exact ⟨rfl, rfl⟩
    · intro b s hroom
      refine hhas.returns (t := s.enter ["b", "v"] [.builder b, .null]) rfl ?_ rfl rfl
      rw [yields_ifThen_means (means_isNull hc (means_id (hvar s b)))]
      exact (yields_ret_means ((hflag s b).means hroom)).2 ⟨rfl, rfl⟩
  | present hstruct => simp [OpKind.isStruct] at hstruct
  | @inPlace _ _ v bits _ hv =>
    have hset : ∀ (s : State) (b b' : Builder), (State.set (s.enter ["b", "v"] [.builder b, v.boxed])
        "b" (.builder b')).get? "v" = some v.boxed := fun s b b' => by simp [hvar s b]
    -- the bit goes to the builder first, and then the record
    have hstore : ∀ (s : State) (b b' : Builder), Appends c
        (State.set (s.enter ["b", "v"] [.builder b, v.boxed]) "b" (.builder b'))
        (Target.call (Name.writer r.name) [Target.id "b",
          Target.call (Name.notNull r.name) [Target.id "v"]]) b' bits refs := fun s b b' => by
      have hb' : Means c (State.set (s.enter ["b", "v"] [.builder b, v.boxed]) "b" (.builder b'))
          (Target.id "b") (.builder b') := means_id (by simp)
      refine hb'.appends.call ?_ hv.appends
      exact (yields_call_means (.cons (means_id (hset s b b')) .nil)).2 (hv.opens _)
    have hget : ∀ (s : State) (b : Builder),
        (s.enter ["b", "v"] [.builder b, v.boxed]).get? "b" = some (.builder b) := fun s b => by
      simp [State.enter, State.get?, Dict.ofList]
    have hflag : ∀ (s : State) (b : Builder), Appends c (s.enter ["b", "v"] [.builder b, v.boxed])
        (storeFlag (Target.id "b") true) b [true] [] := fun s b => (hb s b).appends.flag hc true
    constructor
    · intro b s s' w hcall
      obtain ⟨-, q, t, hbody, rfl, rfl⟩ := hhas.yields.1 hcall
      rw [yields_ifThen_means (means_isNull hc (means_id (hvar s b))), hv.isNull_boxed] at hbody
      obtain ⟨_, rfl, hbody⟩ := (hflag s b).returns.of_assign (hget s b) hbody
      obtain ⟨rfl, w, rfl, rfl⟩ := (hstore s b _).returns.of_ret hbody
      exact ⟨rfl, by simp⟩
    · intro b s hroom
      rw [List.length_cons, Nat.add_comm] at hroom
      obtain ⟨hroom, hmore⟩ := (@Builder.room_append b [true] [] _ _).2 (by simpa using hroom)
      refine hhas.returns (t := State.set (s.enter ["b", "v"] [.builder b, v.boxed]) "b"
        (.builder (b.push [true] []))) rfl ?_ rfl rfl
      rw [yields_ifThen_means (means_isNull hc (means_id (hvar s b))), hv.isNull_boxed]
      refine (yields_assign_means (hget s b) ((hflag s b).means hroom)).2 ?_
      refine (yields_ret_means ((hstore s b _).means hmore)).2 ⟨?_, rfl⟩
      simp

/-- A bit, and then a value if there is one. -/
theorem Appends.optional (hc : c.Plain) (hb : Means c s builder (.builder b))
    (hvalue : Means c s target v) {stored : Target.Expr}
    (hpresent : v.isNull = false → Appends c s stored b bits refs)
    (habsent : v.isNull = true → bits = [false] ∧ refs = []) :
    Appends c s (.ternary (Target.not (Target.isNull target)) stored (storeFlag builder false)) b
      bits refs := by
  have hcond : Means c s (Target.not (Target.isNull target)) (.bool (!v.isNull)) :=
    (means_isNull hc hvalue).not
  have hflag := hb.appends.flag hc false
  cases hnull : v.isNull with
  | false =>
    rw [hnull] at hcond
    refine ⟨fun w s' hw => ?_, fun hroom => .ternary hcond ((hpresent hnull).means hroom)⟩
    rw [yields_ternary] at hw
    obtain ⟨u, s₁, hu, hit, htruthy, hbranch⟩ := hw
    obtain ⟨rfl, rfl⟩ := hcond.iff.1 hu
    obtain rfl : true = hit := by simpa using htruthy
    exact (hpresent hnull).returns w s' hbranch
  | true =>
    obtain ⟨rfl, rfl⟩ := habsent hnull
    rw [hnull] at hcond
    refine ⟨fun w s' hw => ?_, fun hroom => .ternary hcond (hflag.means hroom)⟩
    rw [yields_ternary] at hw
    obtain ⟨u, s₁, hu, hit, htruthy, hbranch⟩ := hw
    obtain ⟨rfl, rfl⟩ := hcond.iff.1 hu
    obtain rfl : false = hit := by simpa using htruthy
    exact hflag.returns w s' hbranch

/-- A field that fits is appended, after a bit if it may be absent. -/
theorem storeField_appends (hc : c.Proper) (hrun : storeField builder op target env d = .ok e d')
    (hsound : d.registry.Sound true) (hback : Underlies c d'.registry)
    (hv : FillsField c env op v bits refs) (hb : Means c s builder (.builder b))
    (hvalue : Means c s target v) : Appends c s e b bits refs := by
  have hplain := hc.plain
  have hflag : Appends c s (storeFlag builder true) b [true] [] := hb.appends.flag hplain true
  obtain ⟨name, kind, optional⟩ := op
  cases optional with
  | false =>
    cases hv with
    | required hv => exact storeOp_appends hc hrun hsound hback hv hb.appends hvalue
  | true =>
    cases hkind : kind.inline? with
    | some type =>
      obtain rfl := OpKind.eq_struct_of_inline? hkind
      simp only [storeField, callUsed, used, Bool.not_true, Bool.false_eq_true, if_false, run_bind,
        run_modify, run_pure] at hrun
      obtain ⟨_, _, ⟨_, _, rfl, rfl, rfl⟩, rfl, rfl⟩ := hrun
      obtain ⟨r, rfl, hcodecs⟩ := hv.supported
      exact hb.appends.call hvalue (writerOpt_appends hplain hcodecs hv)
    | none =>
      obtain ⟨present, d₁, stored, hstored, hregistry, rfl, hvalue', hopen⟩ :=
        storeField_eq_ok hkind hrun
      rw [← hregistry] at hsound
      cases hv with
      | absent _ => exact .optional hplain hb hvalue (by simp [Val.isNull]) fun _ => ⟨rfl, rfl⟩
      | present hstruct hnull hv =>
        refine .optional hplain hb hvalue (fun _ => ?_) (by simp [hnull])
        obtain rfl := hvalue' hstruct
        exact storeOp_appends hc hstored hsound hback hv hflag hvalue
      | inPlace _ => simp [OpKind.inline?] at hkind
      | @behind _ type v bits refs hv =>
        refine .optional hplain hb hvalue (fun _ => ?_) (by simp [hv.isNull_boxed])
        have hpresent : Means c s present v := by
          rw [hopen type true rfl]
          exact (yields_call_means (.cons hvalue .nil)).2 (hv.opens s)
        exact storeOp_appends hc hstored hsound hback (.behind hv) hflag hpresent

end Operations

/-! ### Code of cells -/

section Cells

variable {d d' : Draft} {r : Record} {values : String → Val} {s : State} {b : Builder}
  {stmts : List Target.Stmt} {bits : List Bool} {refs : List Cell} {n : Nat}

/-- The statements append bits and references to the builder in a variable, if there is room for
them, and change only variables among `changed`. -/
structure BlockAppends (c : Code) (s : State) (stmts : List Target.Stmt) (builder : String)
    (changed : String → Prop) (b : Builder) (bits : List Bool) (refs : List Cell) : Prop where
  after : ∀ {q : Option Val} {s' : State}, Yields (block c stmts) s q s' →
    q = none ∧ s.Frames changed s' ∧ s'.get? builder = some (.builder (b.push bits refs))
  runs : b.Room bits.length refs.length → ∃ s', Yields (block c stmts) s none s'

theorem BlockAppends.mono {builder : String} {changed changed' : String → Prop}
    (h : BlockAppends c s stmts builder changed b bits refs) (himp : ∀ x, changed x → changed' x) :
    BlockAppends c s stmts builder changed' b bits refs := by
  refine ⟨fun hrun => ?_, h.runs⟩
  obtain ⟨rfl, hframes, hb⟩ := h.after hrun
  exact ⟨rfl, hframes.mono himp, hb⟩

/-- Statements append after each other. -/
theorem BlockAppends.append {builder : String} {changed : String → Prop} {next : List Target.Stmt}
    {more : List Bool} {others : List Cell} (h : BlockAppends c s stmts builder changed b bits refs)
    (hnext : ∀ s₁, s.Frames changed s₁ → s₁.get? builder = some (.builder (b.push bits refs)) →
      BlockAppends c s₁ next builder changed (b.push bits refs) more others) :
    BlockAppends c s (stmts ++ next) builder changed b (bits ++ more) (refs ++ others) := by
  constructor
  · intro q s' hrun
    obtain ⟨_, s₁, hfirst, hrest⟩ := yields_block_append.1 hrun
    obtain ⟨rfl, hframes₁, hb₁⟩ := h.after hfirst
    obtain ⟨rfl, hframes, hb⟩ := (hnext s₁ hframes₁ hb₁).after hrest
    exact ⟨rfl, hframes₁.trans hframes, by rw [hb, Builder.push_push]⟩
  · intro hroom
    rw [List.length_append, List.length_append] at hroom
    obtain ⟨hroom, hmore⟩ := Builder.room_append.2 hroom
    obtain ⟨s₁, hfirst⟩ := h.runs hroom
    obtain ⟨-, hframes₁, hb₁⟩ := h.after hfirst
    obtain ⟨s', hrest⟩ := (hnext s₁ hframes₁ hb₁).runs hmore
    exact ⟨s', yields_block_append.2 ⟨none, s₁, hfirst, hrest⟩⟩

/-- A builder is set to what an expression appends to it. -/
theorem assign_appends {builder : String} (hb : s.get? builder = some (.builder b))
    (h : Appends c s e b bits refs) :
    BlockAppends c s [Target.assign (Target.id builder) e] builder (· = builder) b bits refs := by
  refine ⟨fun hrun => ?_, fun hroom => ?_⟩
  · obtain ⟨w, rfl, hrest⟩ := h.returns.of_assign hb hrun
    obtain ⟨rfl, rfl⟩ := yields_block_nil.1 hrest
    exact ⟨rfl, State.frames_set, by simp⟩
  · exact ⟨_, (yields_assign_means hb (h.means hroom)).2 (yields_block_nil.2 ⟨rfl, rfl⟩)⟩

/-- The fields of a cell are appended in order. -/
theorem writeOps_appends (hc : c.Proper) (hsep : env.program.types.Separate) {ops : List Op}
    (hrun : writeOps r (Target.id (builderName n)) ops env d = .ok stmts d')
    (hsound : d.registry.Sound true) (hback : Underlies c d'.registry)
    (hfills : FillsAll c env values ops bits refs)
    (hlies : ∀ op ∈ ops, Lies env r s op (values op.name))
    (hb : s.get? (builderName n) = some (.builder b)) :
    BlockAppends c s stmts (builderName n) (· = builderName n) b bits refs := by
  induction hfills generalizing d s b stmts with
  | nil =>
    obtain ⟨rfl, rfl⟩ := run_pure.1 hrun
    refine ⟨fun h => ?_, fun _ => ⟨s, yields_block_nil.2 ⟨rfl, rfl⟩⟩⟩
    obtain ⟨rfl, rfl⟩ := yields_block_nil.1 h
    exact ⟨rfl, .refl _, by simpa using hb⟩
  | @cons op ops bits more refs others hop _ ih =>
    rw [List.forall_mem_cons] at hlies
    simp only [writeOps, run_bind, run_pure] at hrun
    obtain ⟨value, _, hpattern, stored, d₁, hstored, rest, d₂, hrest, rfl, rfl⟩ := hrun
    obtain ⟨rfl, ty, sh, hty, hsh, rfl⟩ := fieldPattern_eq_ok hpattern
    obtain ⟨-, hsound₁⟩ := storeField_builds.keeps hstored hsound
    have hextends := ((writeOps_builds Target.declared_id).keeps hrest hsound₁).1
    have hvalue : Means c s sh.pattern (values op.name) := (hlies.1 ty sh hty hsh).yields
    have hstore : Appends c s stored b bits refs :=
      storeField_appends hc hstored hsound (hback.mono hextends) hop (means_id hb) hvalue
    refine (assign_appends hb hstore).append fun s₁ hframes hb₁ => ih hrest hsound₁ (fun o ho => ?_) hb₁
    exact (hlies.2 o ho).frames hsep hframes fun x hx => hx.ne_builderName n

/-- A finished cell hangs from the cell before it. -/
theorem link_appends (hc : c.Plain) {below : String} {more : List Bool} {others : List Cell}
    (hb : s.get? (builderName n) = some (.builder b))
    (hbelow : s.get? below = some (.builder ⟨more, others⟩))
    (hroom : Builder.empty.Room more.length others.length) :
    Appends c s (Target.method (Target.id (builderName n)) "store_ref"
      [Target.endCell (Target.id below)]) b [] [.mk more others] := by
  have hfull : (Builder.mk more others).Room 0 0 := by
    simpa [Builder.Room, Builder.empty] using hroom
  have hend : Means c s (Target.endCell (Target.id below)) (.cell (.mk more others)) :=
    .primitive hc (by decide) (.cons (means_id hbelow) .nil) (call_end_cell.2 ⟨hfull, rfl⟩)
  exact (means_id hb).appends.ref hc hend

/-- A cell is filled in a builder of its own and then hangs from the cell before it, whose builder is
left alone in the meantime. -/
theorem nextCell_appends (hc : c.Plain) {below : List Target.Stmt} {more : List Bool} {others : List Cell}
    (hb : s.get? (builderName n) = some (.builder b))
    (hbelow : BlockAppends c (s.set (builderName (n + 1)) (.builder .empty)) below (builderName (n + 1))
      (fun x => ∃ k ≥ n + 1, x = builderName k) .empty more others)
    (hroom : Builder.empty.Room more.length others.length) :
    BlockAppends c s (Target.var (Target.id (builderName (n + 1))) Target.beginCell :: below ++
      [Target.assign (Target.id (builderName n)) (Target.method (Target.id (builderName n)) "store_ref"
        [Target.endCell (Target.id (builderName (n + 1)))])])
      (builderName n) (fun x => ∃ k ≥ n, x = builderName k) b [] [.mk more others] := by
  generalize hs₁ : s.set (builderName (n + 1)) (.builder .empty) = s₁ at hbelow
  have hframes₁ : s.Frames (· = builderName (n + 1)) s₁ := hs₁ ▸ State.frames_set
  have hne : ∀ k ≥ n + 1, builderName n ≠ builderName k := by
    intro k hk heq
    have := builderName_inj heq
    omega
  -- what holds once the next cell has been filled
  have hfilled : ∀ {q s₂}, Yields (block c below) s₁ q s₂ → q = none ∧
      s.Frames (fun x => ∃ k ≥ n, x = builderName k) s₂ ∧
      BlockAppends c s₂ [Target.assign (Target.id (builderName n)) (Target.method
        (Target.id (builderName n)) "store_ref" [Target.endCell (Target.id (builderName (n + 1)))])]
        (builderName n) (· = builderName n) b [] [.mk more others] := by
    intro q s₂ hrun
    obtain ⟨rfl, hframes₂, hb₂⟩ := hbelow.after hrun
    rw [Builder.push_empty] at hb₂
    have hkept : s₂.get? (builderName n) = some (.builder b) := by
      rw [hframes₂.kept _ (by simpa using hne), hframes₁.kept _ (hne (n + 1) (le_refl _)), hb]
    refine ⟨rfl, ?_, assign_appends hkept (link_appends hc hkept hb₂ hroom)⟩
    refine (hframes₁.mono fun x hx => ⟨n + 1, by omega, hx⟩).trans (hframes₂.mono fun x hx => ?_)
    obtain ⟨k, hk, hx⟩ := hx
    exact ⟨k, by omega, hx⟩
  constructor
  · intro q s' hrun
    rw [List.cons_append, yields_var_means (means_beginCell hc), hs₁] at hrun
    obtain ⟨_, s₂, hfirst, hlast⟩ := yields_block_append.1 hrun
    obtain ⟨rfl, hframes, hlink⟩ := hfilled hfirst
    obtain ⟨rfl, hframes', hb'⟩ := hlink.after hlast
    exact ⟨rfl, hframes.trans (hframes'.mono fun x hx => ⟨n, le_refl n, hx⟩), hb'⟩
  · intro hall
    obtain ⟨s₂, hfirst⟩ := hbelow.runs hroom
    obtain ⟨-, -, hlink⟩ := hfilled hfirst
    obtain ⟨s', hlast⟩ := hlink.runs hall
    refine ⟨s', ?_⟩
    rw [List.cons_append, yields_var_means (means_beginCell hc), hs₁]
    exact yields_block_append.2 ⟨none, s₂, hfirst, hlast⟩

/-- The fields of a chain of cells are appended, each further cell behind a reference. -/
theorem writeChain_appends (hc : c.Proper) (hsep : env.program.types.Separate) {chain : Chain}
    (hrun : writeChain r n chain env d = .ok stmts d') (hsound : d.registry.Sound true)
    (hback : Underlies c d'.registry) (hfills : FillsChain c env values chain bits refs)
    (hlies : ∀ op ∈ chain.ops, Lies env r s op (values op.name))
    (hb : s.get? (builderName n) = some (.builder b)) :
    BlockAppends c s stmts (builderName n) (fun x => ∃ k ≥ n, x = builderName k) b bits refs := by
  induction hfills generalizing n d d' s b stmts with
  | last hops =>
    rw [Plan.Chain.ops_last] at hlies
    exact (writeOps_appends hc hsep hrun hsound hback hops hlies hb).mono fun x hx => ⟨n, le_refl n, hx⟩
  | @link ops next bits more refs others hops hnext hroom ih =>
    simp only [Plan.Chain.ops_link, List.forall_mem_append] at hlies
    simp only [writeChain, run_bind, run_pure] at hrun
    obtain ⟨own, d₁, hrun₁, below, d₂, hrun₂, rfl, rfl⟩ := hrun
    obtain ⟨-, hsound₁⟩ := (writeOps_builds Target.declared_id).keeps hrun₁ hsound
    have hextends := (writeChain_builds.keeps hrun₂ hsound₁).1
    have hown : BlockAppends c s own (builderName n) (fun x => ∃ k ≥ n, x = builderName k) b bits refs :=
      (writeOps_appends hc hsep hrun₁ hsound (hback.mono hextends) hops hlies.1 hb).mono
        fun x hx => ⟨n, le_refl n, hx⟩
    have hboth := hown.append fun s₁ hframes hb₁ => nextCell_appends hc.plain hb₁
      (ih hrun₂ hsound₁ hback (fun op hop => ?_) (by simp)) hroom
    · simpa using hboth
    · have hlies₁ := (hlies.2 op hop).frames hsep hframes fun x hx => by
        rintro ⟨k, -, heq⟩
        exact hx.ne_builderName k heq
      exact hlies₁.frames hsep State.frames_set fun x hx => hx.ne_builderName (n + 1)

end Cells

/-! ### Code of records -/

section Records

variable {r : Record} {values : String → Val} {s : State} {bits : List Bool} {refs : List Cell}

/-- Opening a record comes to an end. -/
theorem openRecord_runs {fields : List (String × TypeRef)} {sh : Layout.Shape}
    (hsh : Layout.record env.program.types fields "v" = .ok sh) (hfits : FieldsFit env fields values)
    (hv : s.get? "v" = some (packed fields values)) :
    ∃ s', Yields (block c (openRecord sh)) s none s' := by
  unfold openRecord
  split
  · refine ⟨s.setAll (sh.names.zip (packed fields values).flatten), yields_block_var.2
      ⟨_, s, means_id hv, _, (yields_bind_pattern (fits_packed hsh hfits)).2 rfl, ?_⟩⟩
    exact yields_block_nil.2 ⟨rfl, rfl⟩
  · exact ⟨s, yields_block_nil.2 ⟨rfl, rfl⟩⟩

/-- The header is appended. -/
theorem header_appends (hc : c.Plain) {plan : Plan} (hfits : HeaderFits plan) {b : Builder}
    (hb : s.get? "build_0" = some (.builder b)) :
    BlockAppends c s (writeHeader plan) "build_0" (· = "build_0") b (headerBits plan) [] := by
  constructor
  · intro q s' hrun
    obtain ⟨rfl, -, hframes, hb'⟩ := writeHeader_appends hc hb hrun
    exact ⟨rfl, hframes, hb'⟩
  · intro hroom
    cases hheader : plan.header with
    | none =>
      rw [writeHeader, hheader]
      exact ⟨s, yields_block_nil.2 ⟨rfl, rfl⟩⟩
    | some header =>
      rw [headerBits, hheader, Bits.length_ofInt] at hroom
      have hstore : Means c s (Target.method (Target.id "build_0") "store_uint"
          [Target.int header.value.toNat, Target.int header.bits.toNat])
          (.builder (b.push (Bits.ofInt header.bits.toNat header.value.toNat) [])) := by
        refine .primitive hc (by decide) (.cons (means_id hb) (.cons means_int (.cons means_int .nil))) ?_
        exact (call_store_uint (Bits.toNat_lt_size header.bits)).2 ⟨hfits header hheader, hroom, rfl⟩
      rw [writeHeader, hheader]
      exact ⟨_, (yields_assign_means hb hstore).2 (yields_block_nil.2 ⟨rfl, rfl⟩)⟩

/-- **The writer of a record appends its header and then its first cell**, whatever the builder. -/
theorem writer_appends (hc : c.Proper) (hsep : env.program.types.Separate)
    (h : Ready c env r values) (hcodecs : Codecs c env r) (hheader : HeaderFits r.plan)
    (hfills : FillsChain c env values r.plan.root bits refs) :
    AppendsBy c (Name.writer r.name) (packed r.fields values) (headerBits r.plan ++ bits) refs := by
  obtain ⟨inline, d, item, d', hrun, hsound, hback, hget⟩ := hcodecs.writer
  simp only [writerItem, Record.shape, Record.visible, Bool.false_eq_true, if_false, table, run_bind,
    run_read, run_pure, run_ofExcept] at hrun
  obtain ⟨sh, _, ⟨_, _, ⟨_, _, ⟨rfl, rfl⟩, rfl, rfl⟩, hsh, rfl⟩, body, _, hbody, rfl, rfl⟩ := hrun
  have hhas : c.Has (Name.writer r.name) ["build_0", "v"] _ := ⟨_, hget _ (by simp), by simp⟩
  have hv : ∀ (s : State) (b : Builder), (s.enter ["build_0", "v"] [.builder b,
      packed r.fields values]).get? "v" = some (packed r.fields values) := fun s b => by
    simp [State.enter, State.get?, Dict.ofList]
  -- once the record is open, the header and the chain are stored from the variables of the fields
  have hstores : ∀ {s u : State} {b : Builder} {q : Option Val}, Yields (block c (openRecord sh))
      (s.enter ["build_0", "v"] [.builder b, packed r.fields values]) q u →
      q = none ∧ (s.enter ["build_0", "v"] [.builder b, packed r.fields values]).Frames (fun _ => True) u ∧
        BlockAppends c u (writeHeader r.plan ++ body) "build_0" (fun x => ∃ k ≥ 0, x = builderName k) b
          (headerBits r.plan ++ bits) ([] ++ refs) := by
    intro s u b q hopen
    obtain ⟨rfl, hframes, hbound⟩ := openRecord_lies ⟨h.nodup, h.plain⟩ hsep hsh h.fits (hv s b) hopen
    have hb : u.get? "build_0" = some (.builder b) := by
      rw [hframes.kept "build_0" fields_ne_builder]
      simp [State.enter, State.get?, Dict.ofList]
    refine ⟨rfl, hframes.mono fun _ _ => trivial,
      ((header_appends hc.plain hheader hb).mono fun x hx => ⟨0, le_refl 0, hx⟩).append
        fun u₁ hframes₁ hb₁ => writeChain_appends hc hsep hbody hsound hback hfills (fun op _ => ?_) hb₁⟩
    have hlies : Lies env r u op (values op.name) := fun ty sh hty hsh =>
      hbound (op.name, ty) (mem_of_lookup hty) sh hsh
    refine hlies.frames hsep hframes₁ fun y hy => ?_
    rintro ⟨k, -, heq⟩
    exact hy.ne_builderName k heq
  constructor
  · intro b s s' w hcall
    obtain ⟨-, q, t, hyields, rfl, rfl⟩ := hhas.yields.1 hcall
    simp only [List.append_assoc] at hyields
    obtain ⟨_, u, hopen, hyields⟩ := yields_block_append.1 hyields
    obtain ⟨rfl, hframes, hstore⟩ := hstores hopen
    rw [← List.append_assoc] at hyields
    obtain ⟨_, t, hstored, hyields⟩ := yields_block_append.1 hyields
    obtain ⟨rfl, hframes', hb⟩ := hstore.after hstored
    obtain ⟨rfl, rfl⟩ := (yields_ret_means (means_id hb)).1 hyields
    exact ⟨(hframes.trans (hframes'.mono fun _ _ => trivial)).restored _, rfl⟩
  · intro b s hroom
    obtain ⟨u, hopen⟩ := openRecord_runs (c := c) hsh h.fits (hv s b)
    obtain ⟨-, hframes, hstore⟩ := hstores hopen
    obtain ⟨t, hstored⟩ := hstore.runs hroom
    obtain ⟨-, hframes', hb⟩ := hstore.after hstored
    have hkept := hframes.trans (hframes'.mono fun _ _ => trivial)
    refine hhas.returns (t := t) rfl ?_ hkept.globals hkept.data
    rw [List.append_assoc, List.append_assoc]
    refine yields_block_append.2 ⟨none, u, hopen, ?_⟩
    rw [← List.append_assoc]
    exact yields_block_append.2 ⟨none, t, hstored, (yields_ret_means (means_id hb)).2 ⟨rfl, rfl⟩⟩

end Records

end CellCompiler
