import CellCompiler.Proofs.Codec.Variables
import CellCompiler.Proofs.Codec.Wrappers

/-!
# Storing

What is in a builder after the code of a plan has run: by induction on the chain of cells, if the
run comes to an end, then the values of the fields have been appended in the form that `EncodesChain`
describes.
-/

namespace CellCompiler

open Generate Machine
open Plan (Op OpKind Format Chain)

variable {c : Code} {env : Env} {d d' : Draft} {s s' : State} {v : Val} {b : Builder}
  {builder value e : Target.Expr}

/-- The contents of a slice in a cell. -/
theorem returns_sliceCell (hc : c.Plain) {x : Slice} (h : Means c s value (.slice x)) :
    Returns c s (sliceCell value) (· = .cell (.mk x.bits x.refs)) := by
  have hslice : Returns c s (Target.method Target.beginCell "store_slice" [value])
      (· = .builder ⟨x.bits, x.refs⟩) := by
    refine (means_beginCell hc).returns.primitive hc (by decide) (.cons h .nil) ?_
    rintro _ w rfl hw
    simpa using (call_store_slice.1 hw).2
  exact fun w s' hw => (returns_endCell hc hslice (fun _ h => h) w s' hw).imp_right And.right

/-- Storing a reference to a cell. -/
theorem returns_storeRef (hc : c.Plain) (hb : Returns c s builder (· = .builder b)) {y : Cell}
    (he : Returns c s e (· = .cell y)) :
    Returns c s (Target.method builder "store_ref" [e]) (· = .builder (b.push [] [y])) := by
  refine hb.primitive₂ hc (by decide) he ?_
  rintro _ _ w rfl rfl hw
  exact (call_store_ref.1 hw).2

/-- An address is stored by the helper. -/
theorem storeOp_address_eq_ok (hrun : storeOp builder value .address env d = .ok e d')
    (hsound : d.registry.Sound true) (hback : Underlies c d'.registry) :
    e = Target.call Helper.storeAddressName [builder, value] ∧
      c.Helps Helper.storeAddressName .storeAddress := by
  simp only [storeOp, callHelper, run_bind, run_pure] at hrun
  obtain ⟨n, _, hhelper, rfl, rfl⟩ := hrun
  obtain ⟨rfl, helper, hof, hhelps⟩ := helper_helps hhelper hsound hback (by decide) (by decide)
  obtain rfl : Helper.storeAddress = helper := by
    have hstore : Helper.ofName? Helper.storeAddressName = some .storeAddress := by decide
    simpa [hstore] using hof
  exact ⟨rfl, hhelps⟩

/-- An address is appended if it passes the check, with all that the slice holds. -/
theorem returns_storeOp_address (hc : c.Proper) (hrun : storeOp builder value .address env d = .ok e d')
    (hsound : d.registry.Sound true) (hback : Underlies c d'.registry) {x : Slice}
    (hb : Returns c s builder (· = .builder b)) (hvalue : Means c s value (.slice x)) :
    Returns c s e fun w => w = .builder (b.push x.bits x.refs) ∧
      c.Helps Helper.verifyAddressName .verifyAddress ∧ IsStandard x.bits := by
  obtain ⟨rfl, hhelps⟩ := storeOp_address_eq_ok hrun hsound hback
  intro w s' hw
  rw [Target.call, yields_call] at hw
  obtain ⟨ws, s₁, hargs, hcall⟩ := hw
  simp only [yields_evalAll_cons, yields_evalAll_nil] at hargs
  obtain ⟨u, s₂, hu, _, ⟨y, s₃, hy, _, ⟨rfl, rfl⟩, rfl⟩, rfl⟩ := hargs
  obtain ⟨rfl, rfl⟩ := hb u s₂ hu
  obtain ⟨rfl, rfl⟩ := hvalue.iff.1 hy
  obtain ⟨hverify, hstandard, rfl, rfl⟩ := yields_storeAddress hc hhelps hcall
  exact ⟨rfl, rfl, hverify, hstandard⟩

/-! ### Values -/

/-- The code appends a value to a builder, in the form of its kind. -/
def Puts (c : Code) (env : Env) (s : State) (b : Builder) (e : Target.Expr) (kind : OpKind) (v : Val) : Prop :=
  Returns c s e fun w => ∃ bits refs, w = .builder (b.push bits refs) ∧ Encodes c env kind v bits refs

section Puts

variable {width : UInt16} {i : Int} {x : Slice} {y : Cell} {inner : Builder} {type : String}

theorem puts_int (hc : c.Plain) (hb : Returns c s builder (· = .builder b))
    (hvalue : Means c s value (.int i)) :
    Puts c env s b (Target.method builder "store_int" [value, Target.int width.toNat]) (.int width)
      (.int i) := by
  refine hb.primitive hc (by decide) (.cons hvalue (.cons means_int .nil)) ?_
  rintro _ w rfl hw
  obtain ⟨hfits, -, rfl⟩ := (call_store_int (Bits.toNat_lt_size width)).1 hw
  exact ⟨_, _, rfl, .int hfits⟩

theorem puts_uint (hc : c.Plain) (hb : Returns c s builder (· = .builder b))
    (hvalue : Means c s value (.int i)) :
    Puts c env s b (Target.method builder "store_uint" [value, Target.int width.toNat]) (.uint width)
      (.int i) := by
  refine hb.primitive hc (by decide) (.cons hvalue (.cons means_int .nil)) ?_
  rintro _ w rfl hw
  obtain ⟨hfits, -, rfl⟩ := (call_store_uint (Bits.toNat_lt_size width)).1 hw
  exact ⟨_, _, rfl, .uint hfits⟩

theorem puts_coins (hc : c.Plain) (hb : Returns c s builder (· = .builder b))
    (hvalue : Means c s value (.int i)) :
    Puts c env s b (Target.method builder "store_coins" [value]) .coins (.int i) := by
  refine hb.primitive hc (by decide) (.cons hvalue .nil) ?_
  rintro _ w rfl hw
  obtain ⟨hfits, -, rfl⟩ := call_store_coins.1 hw
  exact ⟨_, _, rfl, .coins hfits⟩

theorem puts_boolean (hc : c.Plain) (hb : Returns c s builder (· = .builder b)) {t : Bool}
    (hvalue : Means c s value (.bool t)) :
    Puts c env s b (Target.method builder "store_int" [value, Target.int 1]) .boolean (.bool t) := by
  refine hb.primitive hc (by decide) (.cons hvalue (.cons means_int .nil)) ?_
  rintro _ w rfl hw
  exact ⟨[t], [], (call_store_flag.1 hw).2, .boolean t⟩

/-- An address is appended if it passes the check. -/
theorem puts_address (hc : c.Proper) (hrun : storeOp builder value .address env d = .ok e d')
    (hsound : d.registry.Sound true) (hback : Underlies c d'.registry)
    (hb : Returns c s builder (· = .builder b)) (hvalue : Means c s value (.slice x)) (hrefs : x.refs = []) :
    Puts c env s b e .address (.slice x) := by
  refine (returns_storeOp_address hc hrun hsound hback hb hvalue).mono ?_
  rintro _ ⟨rfl, hverify, hstandard⟩
  exact ⟨x.bits, [], by rw [hrefs], .address hverify hstandard hrefs⟩

theorem puts_cell (hc : c.Plain) (hb : Returns c s builder (· = .builder b))
    (hvalue : Means c s value (.cell y)) :
    Puts c env s b (Target.method builder "store_ref" [value]) (.cell .reference) (.cell y) :=
  (returns_storeRef hc hb hvalue.returns).mono fun _ hw => ⟨_, _, hw, .cell y⟩

theorem puts_cellRest (hc : c.Plain) (hb : Returns c s builder (· = .builder b))
    (hvalue : Means c s value (.cell y)) :
    Puts c env s b (Target.method builder "store_slice" [Target.beginParse value]) (.cell .remainder)
      (.cell y) := by
  have hparse : Means c s (Target.beginParse value) (.slice y.parse) :=
    .primitive hc (by decide) (.cons hvalue .nil) (call_begin_parse.2 rfl)
  refine hb.primitive hc (by decide) (.cons hparse .nil) ?_
  rintro _ w rfl hw
  obtain ⟨bits, refs⟩ := y
  obtain ⟨hroom, rfl⟩ := call_store_slice.1 hw
  exact ⟨bits, refs, rfl, .cellRest hroom.empty⟩

/-- The contents of a slice behind a reference. -/
theorem returns_storeSliceCell (hc : c.Plain) (hb : Returns c s builder (· = .builder b))
    (hvalue : Means c s value (.slice x)) :
    Returns c s (Target.method builder "store_ref" [sliceCell value])
      (· = .builder (b.push [] [.mk x.bits x.refs])) :=
  returns_storeRef hc hb (returns_sliceCell hc hvalue)

theorem puts_sliceRest (hc : c.Plain) (hb : Returns c s builder (· = .builder b))
    (hvalue : Means c s value (.slice x)) :
    Puts c env s b (Target.method builder "store_slice" [value]) (.slice .remainder) (.slice x) := by
  refine hb.primitive hc (by decide) (.cons hvalue .nil) ?_
  rintro _ w rfl hw
  exact ⟨_, _, (call_store_slice.1 hw).2, .sliceRest x⟩

theorem puts_fixedBytes (hc : c.Plain) (hb : Returns c s builder (· = .builder b))
    (hvalue : Means c s value (.slice x)) (hlength : x.bits.length = width.toNat * 8) (hrefs : x.refs = []) :
    Puts c env s b (Target.method builder "store_slice" [value]) (.fixedBytes width) (.slice x) := by
  refine hb.primitive hc (by decide) (.cons hvalue .nil) ?_
  rintro _ w rfl hw
  obtain ⟨-, rfl⟩ := call_store_slice.1 hw
  exact ⟨x.bits, [], by rw [hrefs], .fixedBytes hlength hrefs⟩

theorem puts_builder (hc : c.Plain) (hb : Returns c s builder (· = .builder b))
    (hvalue : Means c s value (.builder inner)) :
    Puts c env s b (Target.method builder "store_ref" [Target.endCell value]) (.builder .reference)
      (.builder inner) := by
  have hend := returns_endCell hc hvalue.returns fun _ h => h
  refine hb.primitive₂ hc (by decide) hend ?_
  rintro _ _ w rfl ⟨hroom, rfl⟩ hw
  have hempty : Builder.empty.Room inner.bits.length inner.refs.length := by
    simpa [Builder.Room, Builder.empty] using hroom
  exact ⟨_, _, (call_store_ref.1 hw).2, .builder hempty⟩

theorem puts_builderRest (hc : c.Plain) (hb : Returns c s builder (· = .builder b))
    (hvalue : Means c s value (.builder inner)) :
    Puts c env s b (Target.method builder "store_builder" [value]) (.builder .remainder) (.builder inner) := by
  refine hb.primitive hc (by decide) (.cons hvalue .nil) ?_
  rintro _ w rfl hw
  obtain ⟨hroom, rfl⟩ := call_store_builder.1 hw
  exact ⟨_, _, rfl, .builderRest hroom.empty⟩

theorem puts_noMap (hc : c.Plain) (hb : Returns c s builder (· = .builder b))
    (hvalue : Means c s value .null) :
    Puts c env s b (Target.method builder "store_dict" [value]) .map .null := by
  refine hb.primitive hc (by decide) (.cons hvalue .nil) ?_
  rintro _ w rfl hw
  exact ⟨_, _, (call_store_dict_null.1 hw).2, .noMap⟩

theorem puts_map (hc : c.Plain) (hb : Returns c s builder (· = .builder b))
    (hvalue : Means c s value (.cell y)) :
    Puts c env s b (Target.method builder "store_dict" [value]) .map (.cell y) := by
  refine hb.primitive hc (by decide) (.cons hvalue .nil) ?_
  rintro _ w rfl hw
  exact ⟨_, _, (call_store_dict_cell.1 hw).2, .map y⟩

/-- A record in place is appended by its writer. -/
theorem puts_inPlace (hb : Returns c s builder (· = .builder b)) (hvalue : Means c s value v)
    (hv : Storable c env type v) :
    Puts c env s b (Target.call (Name.writer type) [builder, value]) (.struct type false) v := by
  intro w s' hw
  rw [Target.call, yields_call] at hw
  obtain ⟨ws, s₁, hargs, hcall⟩ := hw
  simp only [yields_evalAll_cons, yields_evalAll_nil] at hargs
  obtain ⟨u, s₂, hu, _, ⟨y, s₃, hy, _, ⟨rfl, rfl⟩, rfl⟩, rfl⟩ := hargs
  obtain ⟨rfl, rfl⟩ := hb u s₂ hu
  obtain ⟨rfl, rfl⟩ := hvalue.iff.1 hy
  obtain ⟨rfl, bits, refs, rfl, hstored⟩ := hv.stores hcall
  exact ⟨rfl, bits, refs, rfl, .inPlace hstored⟩

/-- A record behind a reference has a cell of its own. -/
theorem puts_behind (hc : c.Plain) (hb : Returns c s builder (· = .builder b)) (hvalue : Means c s value v)
    (hv : Storable c env type v) :
    Puts c env s b (Target.method builder "store_ref" [Target.call (Name.writerCell type) [value]])
      (.struct type true) v := by
  obtain ⟨r, rfl, hcodecs⟩ := hv.supported
  have hcell : Returns c s (Target.call (Name.writerCell r.name) [value])
      fun w => ∃ bits refs, w = .cell (.mk bits refs) ∧ Stored c env r.name v bits refs := by
    intro w s' hw
    rw [yields_call_means (.cons hvalue .nil)] at hw
    exact writerCell_stores hc hcodecs hv hw
  refine hb.primitive₂ hc (by decide) hcell ?_
  rintro _ _ w rfl ⟨bits, refs, rfl, hstored⟩ hw
  exact ⟨_, _, (call_store_ref.1 hw).2, .behind hstored⟩

end Puts

/-- The code of a record calls its writer. -/
theorem storeOp_struct_eq_ok {type : String} {byRef : Bool}
    (hrun : storeOp builder value (.struct type byRef) env d = .ok e d') :
    e = if byRef then Target.method builder "store_ref" [Target.call (Name.writerCell type) [value]]
      else Target.call (Name.writer type) [builder, value] := by
  cases byRef with
  | false =>
    simp only [storeOp, callUsed, used, run_bind, run_modify, run_pure] at hrun
    obtain ⟨_, _, ⟨_, _, rfl, rfl, rfl⟩, rfl, rfl⟩ := hrun
    rfl
  | true =>
    simp only [storeOp, callUsed, used, run_bind, run_modify, run_pure] at hrun
    obtain ⟨_, _, ⟨_, _, ⟨_, _, rfl, rfl, rfl⟩, rfl, rfl⟩, rfl, rfl⟩ := hrun
    rfl

/-- A present value is appended. -/
theorem storeOp_encodes (hc : c.Proper) {kind : OpKind}
    (hrun : storeOp builder value kind env d = .ok e d') (hsound : d.registry.Sound true)
    (hback : Underlies c d'.registry) (hv : Admits c env kind v)
    (hb : Returns c s builder (· = .builder b)) (hvalue : Means c s value v) :
    Puts c env s b e kind v := by
  have hplain := hc.plain
  cases hv with
  | int => exact (run_pure.1 hrun).1 ▸ puts_int hplain hb hvalue
  | uint => exact (run_pure.1 hrun).1 ▸ puts_uint hplain hb hvalue
  | coins => exact (run_pure.1 hrun).1 ▸ puts_coins hplain hb hvalue
  | boolean => exact (run_pure.1 hrun).1 ▸ puts_boolean hplain hb hvalue
  | address hrefs => exact puts_address hc hrun hsound hback hb hvalue hrefs
  | cell format =>
    cases format with
    | reference => exact (run_pure.1 hrun).1 ▸ puts_cell hplain hb hvalue
    | remainder => exact (run_pure.1 hrun).1 ▸ puts_cellRest hplain hb hvalue
  | slice format x =>
    cases format with
    | reference =>
      exact (run_pure.1 hrun).1 ▸ (returns_storeSliceCell hplain hb hvalue).mono fun _ hw =>
        ⟨_, _, hw, .slice x⟩
    | remainder => exact (run_pure.1 hrun).1 ▸ puts_sliceRest hplain hb hvalue
  | builder format =>
    cases format with
    | reference => exact (run_pure.1 hrun).1 ▸ puts_builder hplain hb hvalue
    | remainder => exact (run_pure.1 hrun).1 ▸ puts_builderRest hplain hb hvalue
  | string x =>
    exact (run_pure.1 hrun).1 ▸ (returns_storeSliceCell hplain hb hvalue).mono fun _ hw =>
      ⟨_, _, hw, .string x⟩
  | fixedBytes hlength hrefs => exact (run_pure.1 hrun).1 ▸ puts_fixedBytes hplain hb hvalue hlength hrefs
  | noMap => exact (run_pure.1 hrun).1 ▸ puts_noMap hplain hb hvalue
  | map => exact (run_pure.1 hrun).1 ▸ puts_map hplain hb hvalue
  | struct byRef hv =>
    cases byRef with
    | false => exact storeOp_struct_eq_ok hrun ▸ puts_inPlace hb hvalue hv
    | true => exact storeOp_struct_eq_ok hrun ▸ puts_behind hplain hb hvalue hv

/-! ### Fields -/

/-- The code of a field that may be absent, if it is not a record in place. -/
theorem storeField_eq_ok {name : String} {kind : OpKind} (hkind : kind.inline? = none)
    (hrun : storeField builder ⟨name, kind, true⟩ value env d = .ok e d') :
    ∃ present d₁ stored, storeOp (storeFlag builder true) present kind env d₁ = .ok stored d' ∧
      d₁.registry = d.registry ∧
      e = .ternary (Target.not (Target.isNull value)) stored (storeFlag builder false) ∧
      (kind.isStruct = false → present = value) ∧
      ∀ type byRef, kind = .struct type byRef →
        present = Target.call (Name.notNull type) [value] := by
  cases kind with
  | struct type byRef =>
    cases byRef with
    | false => simp [OpKind.inline?] at hkind
    | true =>
      simp only [storeField, callUsed, used, Bool.not_true, Bool.false_eq_true, if_false, run_bind,
        run_modify, run_pure] at hrun
      obtain ⟨_, _, ⟨_, _, ⟨_, _, rfl, rfl, rfl⟩, rfl, rfl⟩, stored, _, hstored, rfl, rfl⟩ := hrun
      exact ⟨_, _, stored, hstored, rfl, rfl, by simp [OpKind.isStruct], by simp⟩
  | _ =>
    simp only [storeField, Bool.not_true, Bool.false_eq_true, if_false, run_bind, run_pure] at hrun
    obtain ⟨_, _, ⟨rfl, rfl⟩, stored, _, hstored, rfl, rfl⟩ := hrun
    exact ⟨_, _, stored, hstored, rfl, rfl, fun _ => rfl, by simp⟩

/-- A bit, and then a value if there is one. -/
theorem returns_optional (hc : c.Plain) (hb : Means c s builder (.builder b))
    (hvalue : Means c s value v) {stored : Target.Expr} {P : Val → Prop}
    (hpresent : v.isNull = false → Returns c s stored P)
    (habsent : v.isNull = true → P (.builder (b.push [false] []))) :
    Returns c s (.ternary (Target.not (Target.isNull value)) stored (storeFlag builder false)) P := by
  have hcond : Means c s (Target.not (Target.isNull value)) (.bool (!v.isNull)) :=
    .unary (means_isNull hc hvalue) unary_not_bool
  intro w s' hw
  rw [yields_ternary] at hw
  obtain ⟨u, s₁, hu, hit, htruthy, hbranch⟩ := hw
  obtain ⟨rfl, rfl⟩ := hcond.iff.1 hu
  obtain rfl : (!v.isNull) = hit := by simpa using htruthy
  cases hnull : v.isNull with
  | false => exact hpresent hnull w s' (by simpa [hnull] using hbranch)
  | true =>
    obtain ⟨rfl, rfl⟩ := returns_storeFlag hc hb w s' (by simpa [hnull] using hbranch)
    exact ⟨rfl, habsent hnull⟩

/-- A field is appended, after a bit if it may be absent. -/
theorem storeField_encodes (hc : c.Proper) {op : Op}
    (hrun : storeField builder op value env d = .ok e d') (hsound : d.registry.Sound true)
    (hback : Underlies c d'.registry) (hv : AdmitsField c env op v) (hb : Means c s builder (.builder b))
    (hvalue : Means c s value v) :
    Returns c s e fun w => ∃ bits refs, w = .builder (b.push bits refs) ∧
      EncodesField c env op v bits refs := by
  have hplain := hc.plain
  have hflag : Returns c s (storeFlag builder true) (· = .builder (b.push [true] [])) :=
    returns_storeFlag hplain hb
  obtain ⟨name, kind, optional⟩ := op
  cases optional with
  | false =>
    cases hv with
    | required hv =>
      exact (storeOp_encodes hc hrun hsound hback hv hb.returns hvalue).mono
        fun w ⟨bits, refs, hw, hbits⟩ => ⟨bits, refs, hw, .required hbits⟩
  | true =>
    cases hkind : kind.inline? with
    | some type =>
      obtain rfl := OpKind.eq_struct_of_inline? hkind
      simp only [storeField, callUsed, used, Bool.not_true, Bool.false_eq_true, if_false, run_bind,
        run_modify, run_pure] at hrun
      obtain ⟨_, _, ⟨_, _, rfl, rfl, rfl⟩, rfl, rfl⟩ := hrun
      obtain ⟨r, rfl, hcodecs⟩ := hv.supported
      intro w s' hw
      rw [yields_call_means (.cons hb (.cons hvalue .nil))] at hw
      exact writerOpt_encodes hplain hcodecs hv hw
    | none =>
      obtain ⟨present, d₁, stored, hstored, hregistry, rfl, hvalue', hopen⟩ :=
        storeField_eq_ok hkind hrun
      rw [← hregistry] at hsound
      cases hv with
      | absent hrest hsupported =>
        refine returns_optional hplain hb hvalue (fun hnull => by simp [Val.isNull] at hnull) ?_
        exact fun _ => ⟨_, _, rfl, .absent hrest hsupported⟩
      | present hrest hstruct hnull hv =>
        refine returns_optional hplain hb hvalue (fun _ => ?_) (by simp [hnull])
        obtain rfl := hvalue' hstruct
        refine (storeOp_encodes hc hstored hsound hback hv hflag hvalue).mono ?_
        rintro w ⟨bits, refs, rfl, hbits⟩
        exact ⟨true :: bits, refs, by simp, .present hrest hstruct hbits⟩
      | @boxed _ type byRef v hv hbox =>
        refine returns_optional hplain hb hvalue (fun _ => ?_) (by simp [hbox.isNull_boxed])
        have hpresent : Means c s present v := by
          rw [hopen type byRef rfl]
          exact (yields_call_means (.cons hvalue .nil)).2 (hbox.opens s)
        refine (storeOp_encodes hc hstored hsound hback (.struct byRef hv) hflag hpresent).mono ?_
        rintro w ⟨bits, refs, rfl, hbits⟩
        exact ⟨true :: bits, refs, by simp, .boxed hbits hbox⟩

/-! ### Cells -/

section Cells

variable {r : Record} {values : String → Val} {stmts : List Target.Stmt} {q : Option Val}

/-- The fields of a cell are appended in order. -/
theorem writeOps_encodes (hc : c.Proper) (hsep : env.program.types.Separate) {n : Nat}
    {ops : List Op} (hrun : writeOps r (Target.id (builderName n)) ops env d = .ok stmts d')
    (hsound : d.registry.Sound true) (hback : Underlies c d'.registry)
    (hvalues : ∀ op ∈ ops, AdmitsField c env op (values op.name))
    (hlies : ∀ op ∈ ops, Lies env r s op (values op.name))
    (hb : s.get? (builderName n) = some (.builder b)) (h : Yields (block c stmts) s q s') :
    q = none ∧ ∃ bits refs, EncodesAll c env values ops bits refs ∧
      s.Frames (· = builderName n) s' ∧
      s'.get? (builderName n) = some (.builder (b.push bits refs)) := by
  induction ops generalizing d s b stmts with
  | nil =>
    obtain ⟨rfl, rfl⟩ := run_pure.1 hrun
    obtain ⟨rfl, rfl⟩ := yields_block_nil.1 h
    exact ⟨rfl, [], [], .nil, .refl _, by simpa using hb⟩
  | cons op ops ih =>
    rw [List.forall_mem_cons] at hvalues hlies
    simp only [writeOps, run_bind, run_pure] at hrun
    obtain ⟨value, _, hpattern, stored, d₁, hstored, rest, d₂, hrest, rfl, rfl⟩ := hrun
    obtain ⟨rfl, ty, sh, hty, hsh, rfl⟩ := fieldPattern_eq_ok hpattern
    obtain ⟨-, hsound₁⟩ := storeField_builds.keeps hstored hsound
    have hextends := ((writeOps_builds Target.declared_id).keeps hrest hsound₁).1
    have hvalue : Means c s sh.pattern (values op.name) := (hlies.1 ty sh hty hsh).yields
    have hstore := storeField_encodes hc hstored hsound (hback.mono hextends) hvalues.1
      (means_id hb) hvalue
    obtain ⟨w, ⟨bits, refs, rfl, hbits⟩, h⟩ := hstore.of_assign hb h
    have hframes : s.Frames (· = builderName n) (s.set (builderName n) (.builder (b.push bits refs))) :=
      State.frames_set
    have hlies' : ∀ op ∈ ops, Lies env r _ op (values op.name) := fun op hop =>
      (hlies.2 op hop).frames hsep hframes fun x hx => hx.ne_builderName n
    have hset : (s.set (builderName n) (.builder (b.push bits refs))).get? (builderName n) =
        some (.builder (b.push bits refs)) := by simp
    obtain ⟨rfl, more, others, hmore, hframes', hb'⟩ := ih hrest hsound₁ hvalues.2 hlies' hset h
    refine ⟨rfl, bits ++ more, refs ++ others, .cons hbits hmore, hframes.trans hframes', ?_⟩
    rw [hb', Builder.push_push]

/-- The fields of a chain of cells are appended, each further cell behind a reference. -/
theorem writeChain_encodes (hc : c.Proper) (hsep : env.program.types.Separate) {n : Nat}
    {chain : Chain} (hrun : writeChain r n chain env d = .ok stmts d')
    (hsound : d.registry.Sound true) (hback : Underlies c d'.registry)
    (hvalues : ∀ op ∈ chain.ops, AdmitsField c env op (values op.name))
    (hlies : ∀ op ∈ chain.ops, Lies env r s op (values op.name))
    (hb : s.get? (builderName n) = some (.builder b)) (h : Yields (block c stmts) s q s') :
    q = none ∧ ∃ bits refs, EncodesChain c env values chain bits refs ∧
      s.Frames (fun x => ∃ k ≥ n, x = builderName k) s' ∧
      s'.get? (builderName n) = some (.builder (b.push bits refs)) := by
  induction chain generalizing n d d' s s' b stmts q with
  | last ops =>
    rw [Chain.ops_last] at hvalues hlies
    obtain ⟨rfl, bits, refs, hbits, hframes, hb'⟩ :=
      writeOps_encodes hc hsep hrun hsound hback hvalues hlies hb h
    exact ⟨rfl, bits, refs, .last hbits, hframes.mono fun x hx => ⟨n, le_refl n, hx⟩, hb'⟩
  | link ops next ih =>
    simp only [Chain.ops_link, List.forall_mem_append] at hvalues hlies
    simp only [writeChain, run_bind, run_pure] at hrun
    obtain ⟨own, d₁, hown, below, d₂, hbelow, rfl, rfl⟩ := hrun
    obtain ⟨-, hsound₁⟩ := (writeOps_builds Target.declared_id).keeps hown hsound
    have hextends := (writeChain_builds.keeps hbelow hsound₁).1
    simp only [List.append_assoc] at h
    obtain ⟨_, s₁, hown', h⟩ := yields_block_append.1 h
    obtain ⟨rfl, bits, refs, hbits, hframes₁, hb₁⟩ :=
      writeOps_encodes hc hsep hown hsound (hback.mono hextends) hvalues.1 hlies.1 hb hown'
    -- the next cell is filled in a builder of its own
    rw [List.singleton_append, yields_var_means (means_beginCell hc.plain)] at h
    generalize hs₂ : s₁.set (builderName (n + 1)) (.builder .empty) = s₂ at h
    have hframes₂ : s₁.Frames (· = builderName (n + 1)) s₂ := hs₂ ▸ State.frames_set
    have hlies₂ : ∀ op ∈ next.ops, Lies env r s₂ op (values op.name) := fun op hop =>
      ((hlies.2 op hop).frames hsep hframes₁ fun x hx => hx.ne_builderName n).frames hsep hframes₂
        fun x hx => hx.ne_builderName (n + 1)
    have hb₂ : s₂.get? (builderName (n + 1)) = some (.builder .empty) := by simp [← hs₂]
    obtain ⟨_, s₃, hbelow', h⟩ := yields_block_append.1 h
    obtain ⟨rfl, more, others, hmore, hframes₃, hb₃⟩ :=
      ih hbelow hsound₁ hback hvalues.2 hlies₂ hb₂ hbelow'
    rw [Builder.push_empty] at hb₃
    -- and hangs from this one in the end
    have hne : ∀ k ≥ n + 1, builderName n ≠ builderName k := by
      intro k hk heq
      have := builderName_inj heq
      omega
    have hkept : s₃.get? (builderName n) = some (.builder (b.push bits refs)) := by
      rw [hframes₃.kept _ (by simpa using hne), ← hs₂, State.get?_set,
        if_neg (hne (n + 1) (le_refl _)), hb₁]
    have hend := returns_endCell hc.plain (means_id hb₃).returns fun _ h => h
    have hlink : Returns c s₃ (Target.method (Target.id (builderName n)) "store_ref"
        [Target.endCell (Target.id (builderName (n + 1)))])
        (· = .builder ((b.push bits refs).push [] [.mk more others])) :=
      returns_storeRef hc.plain (means_id hkept).returns (hend.mono fun _ h => h.2)
    obtain ⟨w, rfl, h⟩ := hlink.of_assign hkept h
    obtain ⟨rfl, rfl⟩ := yields_block_nil.1 h
    refine ⟨rfl, bits, refs ++ [Cell.mk more others], .link hbits hmore, ?_, by simp⟩
    refine (hframes₁.mono fun x hx => ⟨n, le_refl n, hx⟩).trans ?_
    refine (hframes₂.mono fun x hx => ⟨n + 1, by omega, hx⟩).trans ?_
    refine (hframes₃.mono fun x hx => ?_).trans ?_
    · obtain ⟨k, hk, hx⟩ := hx
      exact ⟨k, by omega, hx⟩
    exact State.frames_set.mono fun x hx => ⟨n, le_refl n, hx⟩

end Cells

end CellCompiler
