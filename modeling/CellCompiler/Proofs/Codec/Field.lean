import CellCompiler.Proofs.Codec.Load
import CellCompiler.Proofs.Codec.Store
import CellCompiler.Proofs.Machine.Ending
import CellCompiler.Proofs.Machine.Sameness

/-!
# Fields one by one

A field is stored by an expression and loaded by a statement, and these are about any value that a
variable of the field can hold, also one that does not fit.

* `OpKind.Takes` and `Op.Takes` say which values these are, and `OpKind.Measures` which of them have the
  size that is read back. Only addresses and byte strings of a fixed length come in other sizes;
* `Recovers` says that a statement finds a value in front of anything;
* `storeField_recovers`: storing stops the run or appends something, from which the value is found
  again if and only if it has the right size.
-/

namespace CellCompiler

open Generate Machine

/-! ### Values of fields -/

namespace Plan

/-- What a variable for an operation of the kind holds. -/
inductive OpKind.Takes : OpKind → Val → Prop where
  | int (bits : UInt16) (i : Int) : Takes (.int bits) (.int i)
  | uint (bits : UInt16) (i : Int) : Takes (.uint bits) (.int i)
  | coins (i : Int) : Takes .coins (.int i)
  | boolean (i : Int) : Takes .boolean (.int i)
  | address (x : Slice) : Takes .address (.slice x)
  | cell (format : Format) (y : Cell) : Takes (.cell format) (.cell y)
  | slice (format : Format) (x : Slice) : Takes (.slice format) (.slice x)
  | builder (format : Format) (b : Builder) : Takes (.builder format) (.builder b)
  | string (x : Slice) : Takes .string (.slice x)
  | fixedBytes (bytes : UInt16) (x : Slice) : Takes (.fixedBytes bytes) (.slice x)
  | noMap : Takes .map .null
  | map (y : Cell) : Takes .map (.cell y)

/-- What a variable for the operation holds. -/
def Op.Takes (op : Op) (v : Val) : Prop := op.kind.Takes v ∨ op.optional = true ∧ v = .null

/-- The slice is as long as what is read back, and has no references where none are. -/
def OpKind.Measures : OpKind → Val → Prop
  | .address, .slice x => x.refs = []
  | .fixedBytes bytes, .slice x => x.bits.length = bytes.toNat * 8 ∧ x.refs = []
  | _, _ => True

end Plan

open Plan (Op OpKind Format)

variable {c : Code} {env : Env} {d d' : Draft} {s : State} {v : Val} {b : Builder}
  {builder value e : Target.Expr} {kind : OpKind} {bits : List Bool} {refs : List Cell}

/-! ### Storing ends -/

theorem settles_storeFlag (hc : c.Plain) (hb : Settles c s builder) (flag : Bool) :
    Settles c s (storeFlag builder flag) :=
  hb.primitive hc (by decide) (by simp [means_bool.settles, means_int.settles])

/-- Storing a present value ends. -/
theorem storeOp_settles (hc : c.Proper) (hrun : storeOp builder value kind env d = .ok e d')
    (hsound : d.registry.Sound true) (hback : Underlies c d'.registry) (hv : kind.Takes v)
    (hb : Settles c s builder) (hreturns : Returns c s builder (· = .builder b))
    (hvalue : Means c s value v) : Settles c s e := by
  have hplain := hc.plain
  have hval := hvalue.settles
  have hbegin : Settles c s Target.beginCell := (means_beginCell hplain).settles
  have hslice : Settles c s (sliceCell value) :=
    (hbegin.primitive hplain (by decide) (by simp [hval])).primitive hplain (by decide) (by simp)
  have hparse : Settles c s (Target.beginParse value) := hval.primitive hplain (by decide) (by simp)
  have hend : Settles c s (Target.endCell value) := hval.primitive hplain (by decide) (by simp)
  cases hv with
  | int bits i | uint bits i | boolean i =>
    obtain ⟨rfl, rfl⟩ := run_pure.1 hrun
    exact hb.primitive hplain (by decide) (by simp [hval, means_int.settles])
  | coins i | fixedBytes bytes x | noMap | map y =>
    obtain ⟨rfl, rfl⟩ := run_pure.1 hrun
    exact hb.primitive hplain (by decide) (by simp [hval])
  | address x =>
    obtain ⟨rfl, hhelps⟩ := storeOp_address_eq_ok hrun hsound hback
    refine .call (by simp [hb, hval]) fun vs hvs => ?_
    obtain _ | ⟨hu, _ | ⟨hx, ⟨⟩⟩⟩ := hvs
    obtain ⟨-, rfl⟩ := hreturns _ _ hu
    obtain ⟨rfl, -⟩ := hvalue.iff.1 hx
    exact call_storeAddress_cases hc hhelps b x
  | cell format y =>
    cases format <;> obtain ⟨rfl, rfl⟩ := run_pure.1 hrun
    · exact hb.primitive hplain (by decide) (by simp [hval])
    · exact hb.primitive hplain (by decide) (by simp [hparse])
  | slice format x =>
    cases format <;> obtain ⟨rfl, rfl⟩ := run_pure.1 hrun
    · exact hb.primitive hplain (by decide) (by simp [hslice])
    · exact hb.primitive hplain (by decide) (by simp [hval])
  | builder format x =>
    cases format <;> obtain ⟨rfl, rfl⟩ := run_pure.1 hrun
    · exact hb.primitive hplain (by decide) (by simp [hend])
    · exact hb.primitive hplain (by decide) (by simp [hval])
  | string x =>
    obtain ⟨rfl, rfl⟩ := run_pure.1 hrun
    exact hb.primitive hplain (by decide) (by simp [hslice])

/-! ### What is appended -/

/-- The bits and references begin with those of another value, and what follows that value is not
what follows them. -/
def Strays (c : Code) (env : Env) (kind : OpKind) (bits : List Bool) (refs : List Cell) : Prop :=
  ∃ w own further rest, Encodes c env kind w own [] ∧ bits ++ further = own ++ rest ∧
    ¬ (rest = further ∧ refs = [])

/-- Bytes are read from the front of whatever was stored. -/
theorem strays_fixedBytes {bytes : UInt16} {x : Slice}
    (h : ¬ (x.bits.length = bytes.toNat * 8 ∧ x.refs = [])) :
    Strays c env (.fixedBytes bytes) x.bits x.refs := by
  -- as many bits follow as are read, so that the reader always finds enough
  generalize hn : bytes.toNat * 8 = n at h
  generalize hfurther : List.replicate n false = further
  have hlength : further.length = n := by simp [← hfurther]
  let front : Slice := (Cell.mk ((x.bits ++ further).take n) []).parse
  have hfront : front.Holds ((x.bits ++ further).take n) [] := Slice.holds_parse _ _
  refine ⟨.slice front, front.bits, further, (x.bits ++ further).drop n,
    .fixedBytes ?_ hfront.refs_eq, ?_, fun ⟨hrest, hrefs⟩ => h ⟨?_, hrefs⟩⟩
  · rw [hfront.bits_eq, List.length_take, List.length_append, hn]
    omega
  · rw [hfront.bits_eq, List.take_append_drop]
  · have := congrArg List.length hrest
    rw [List.length_drop, List.length_append] at this
    omega

/-- Only the bits of an address are read. -/
theorem strays_address {x : Slice} (hverify : c.Helps Helper.verifyAddressName .verifyAddress)
    (hx : IsStandard x.bits) (hrefs : x.refs ≠ []) : Strays c env .address x.bits x.refs := by
  let front : Slice := (Cell.mk x.bits []).parse
  have hfront : front.Holds x.bits [] := Slice.holds_parse _ _
  refine ⟨.slice front, front.bits, [], [], .address hverify ?_ hfront.refs_eq, ?_, fun h => hrefs h.2⟩
  · rwa [hfront.bits_eq]
  · rw [hfront.bits_eq]

/-- A value of the right size is one that operations store. -/
theorem Plan.OpKind.Takes.admits (h : kind.Takes v) (hv : kind.Measures v)
    (hbool : kind ≠ .boolean) : Admits c env kind v := by
  cases h with
  | int bits i => exact .int bits i
  | uint bits i => exact .uint bits i
  | coins i => exact .coins i
  | boolean i => exact absurd rfl hbool
  | address x => exact .address hv
  | cell format y => exact .cell format y
  | slice format x => exact .slice format x
  | builder format x => exact .builder format x
  | string x => exact .string x
  | fixedBytes bytes x => exact .fixedBytes hv.1 hv.2
  | noMap => exact .noMap
  | map y => exact .map y

/-- What is appended is what the value is stored as if that has the right size, and strays otherwise. -/
theorem storeOp_measures (hc : c.Proper) (hrun : storeOp builder value kind env d = .ok e d')
    (hsound : d.registry.Sound true) (hback : Underlies c d'.registry) (hv : kind.Takes v)
    (hb : Returns c s builder (· = .builder b)) (hvalue : Means c s value v) :
    Returns c s e fun w => ∃ bits refs, w = .builder (b.push bits refs) ∧
      (kind.Measures v ∧ Encodes c env kind v bits refs ∨
        ¬ kind.Measures v ∧ Strays c env kind bits refs) := by
  by_cases hsize : kind.Measures v
  · by_cases hbool : kind = .boolean
    · subst hbool
      cases hv with | boolean i =>
      obtain ⟨rfl, rfl⟩ := run_pure.1 hrun
      refine hb.primitive hc.plain (by decide) (.cons hvalue (.cons means_int .nil)) ?_
      rintro _ w rfl hw
      obtain ⟨hfits, -, rfl⟩ := (call_store_int (n := 1) (by decide)).1 hw
      rw [Bits.fitsSigned_succ_iff] at hfits
      obtain rfl | rfl : i = 0 ∨ i = -1 := by omega
      · exact ⟨_, _, rfl, .inl ⟨trivial, .boolean false⟩⟩
      · exact ⟨_, _, rfl, .inl ⟨trivial, .boolean true⟩⟩
    · refine (storeOp_encodes hc hrun hsound hback (hv.admits hsize hbool) hb hvalue).mono ?_
      rintro w ⟨bits, refs, rfl, hbits⟩
      exact ⟨bits, refs, rfl, .inl ⟨hsize, hbits⟩⟩
  · cases hv with
    | address x =>
      refine (returns_storeOp_address hc hrun hsound hback hb hvalue).mono ?_
      rintro _ ⟨rfl, hverify, hstandard⟩
      exact ⟨_, _, rfl, .inr ⟨hsize, strays_address hverify hstandard hsize⟩⟩
    | fixedBytes bytes x =>
      obtain ⟨rfl, rfl⟩ := run_pure.1 hrun
      refine hb.primitive hc.plain (by decide) (.cons hvalue .nil) ?_
      rintro _ w rfl hw
      exact ⟨_, _, (call_store_slice.1 hw).2, .inr ⟨hsize, strays_fixedBytes hsize⟩⟩
    | _ => exact absurd trivial hsize

/-! ### Fields -/

section Fields

variable {op : Op}

theorem inline?_eq_none (h : kind.isStruct = false) : kind.inline? = none := by
  cases kind with
  | struct => simp [OpKind.isStruct] at h
  | _ => rfl

/-- A value that is there is one for the operation. -/
theorem Plan.Op.Takes.present (hv : op.Takes v) (hnull : v.isNull = false) : op.kind.Takes v := by
  refine hv.resolve_right ?_
  rintro ⟨-, rfl⟩
  simp [Val.isNull] at hnull

/-- Storing a field ends. -/
theorem storeField_settles (hc : c.Proper) (hrun : storeField builder op value env d = .ok e d')
    (hsound : d.registry.Sound true) (hback : Underlies c d'.registry)
    (hstruct : op.kind.isStruct = false) (hv : op.Takes v) (hb : Means c s builder (.builder b))
    (hvalue : Means c s value v) : Settles c s e := by
  have hplain := hc.plain
  obtain ⟨name, kind, optional⟩ := op
  cases optional with
  | false =>
    have hkind : kind.Takes v := hv.resolve_right (by simp)
    exact storeOp_settles hc hrun hsound hback hkind hb.settles hb.returns hvalue
  | true =>
    obtain ⟨present, d₁, stored, hstored, hregistry, rfl, hpresent, -⟩ :=
      storeField_eq_ok (inline?_eq_none hstruct) hrun
    obtain rfl := hpresent hstruct
    rw [← hregistry] at hsound
    refine .ternary (.unary (means_isNull hplain hvalue) unary_not_bool) ?_
    cases hnull : v.isNull with
    | false =>
      exact storeOp_settles hc hstored hsound hback (hv.present hnull)
        (settles_storeFlag hplain hb.settles true) (returns_storeFlag hplain hb) hvalue
    | true => exact settles_storeFlag hplain hb.settles false

/-- What is in front of the contents of a field leads to another value. -/
def StraysField (c : Code) (env : Env) (op : Op) (bits : List Bool) (refs : List Cell) : Prop :=
  ∃ w own further rest, EncodesField c env op w own [] ∧ bits ++ further = own ++ rest ∧
    ¬ (rest = further ∧ refs = [])

theorem Strays.field {name : String} (h : Strays c env kind bits refs) (optional : Bool)
    (hstruct : kind.isStruct = false) (hrest : kind.isRemainder = false) :
    StraysField c env ⟨name, kind, optional⟩ (if optional then true :: bits else bits) refs := by
  obtain ⟨w, own, further, rest, hown, heq, hne⟩ := h
  cases optional with
  | false => exact ⟨w, own, further, rest, .required hown, heq, hne⟩
  | true => exact ⟨w, true :: own, further, rest, .present hrest hstruct hown, by simp [heq], hne⟩

/-- A field is appended as what it is stored as if its value has the right size, and strays otherwise. -/
theorem storeField_measures (hc : c.Proper) (hrun : storeField builder op value env d = .ok e d')
    (hsound : d.registry.Sound true) (hback : Underlies c d'.registry)
    (hstruct : op.kind.isStruct = false) (hrest : op.kind.isRemainder = false) (hv : op.Takes v)
    (hb : Means c s builder (.builder b)) (hvalue : Means c s value v) :
    Returns c s e fun w => ∃ bits refs, w = .builder (b.push bits refs) ∧
      (op.kind.Measures v ∧ EncodesField c env op v bits refs ∨
        ¬ op.kind.Measures v ∧ StraysField c env op bits refs) := by
  have hplain := hc.plain
  obtain ⟨name, kind, optional⟩ := op
  cases optional with
  | false =>
    have hkind : kind.Takes v := hv.resolve_right (by simp)
    refine (storeOp_measures hc hrun hsound hback hkind hb.returns hvalue).mono ?_
    rintro w ⟨bits, refs, rfl, ⟨hsize, hbits⟩ | ⟨hsize, hbits⟩⟩
    · exact ⟨bits, refs, rfl, .inl ⟨hsize, .required hbits⟩⟩
    · exact ⟨bits, refs, rfl, .inr ⟨hsize, hbits.field false hstruct hrest⟩⟩
  | true =>
    obtain ⟨present, d₁, stored, hstored, hregistry, rfl, hpresent, -⟩ :=
      storeField_eq_ok (inline?_eq_none hstruct) hrun
    obtain rfl := hpresent hstruct
    rw [← hregistry] at hsound
    refine returns_optional hplain hb hvalue (fun hnull => ?_) fun hnull => ?_
    · refine (storeOp_measures hc hstored hsound hback (hv.present hnull) (returns_storeFlag hplain hb)
        hvalue).mono ?_
      rintro w ⟨bits, refs, rfl, ⟨hsize, hbits⟩ | ⟨hsize, hbits⟩⟩
      · exact ⟨true :: bits, refs, by simp, .inl ⟨hsize, .present hrest hstruct hbits⟩⟩
      · exact ⟨true :: bits, refs, by simp, .inr ⟨hsize, hbits.field true hstruct hrest⟩⟩
    · obtain rfl := Val.eq_null hnull
      refine ⟨_, _, rfl, .inl ⟨?_, .absent hrest fun type byRef hkind => ?_⟩⟩
      · cases kind <;> trivial
      · simp [hkind, OpKind.isStruct] at hstruct

/-! ### Loading again -/

variable {slice target : String} {stmts : List Target.Stmt}

/-- The statements find the value in front of whatever follows it, bind it to a variable, and leave
what follows. -/
def Recovers (c : Code) (slice target : String) (stmts : List Target.Stmt) (v : Val)
    (bits : List Bool) (refs : List Cell) : Prop :=
  ∀ (t : State) {x : Slice} {rest : List Bool} {others : List Cell},
    t.get? slice = some (.slice x) → x.Holds (bits ++ rest) (refs ++ others) →
    ∃ w x' t', Yields (block c stmts) t none t' ∧ t'.get? target = some w ∧ w.Same v ∧
      t'.get? slice = some (.slice x') ∧ x'.Holds rest others

theorem bound_leaf {t : State} {leaf : Layout.Leaf} (h : Bound t (.leaf target leaf) v) :
    t.get? target = some v := by
  have hleaves := h.leaves
  rw [Val.flatten_of_isLeaf h.fits] at hleaves
  obtain _ | ⟨htarget, -⟩ := hleaves
  exact htarget

section Loading

variable {q q' : Draft} {t : State} {x : Slice} {rest : List Bool} {others : List Cell}

theorem EncodesField.isLeaf (h : EncodesField c env op v bits refs)
    (hstruct : op.kind.isStruct = false) : v.isLeaf = true := by
  cases h with
  | required hv | present _ _ hv =>
    cases hv with
    | boolean t => cases t <;> rfl
    | inPlace _ | behind _ => simp [OpKind.isStruct] at hstruct
    | _ => rfl
  | absent => rfl
  | boxed => simp [OpKind.isStruct] at hstruct

theorem loadField_binds_leaf (hc : c.Plain)
    (hrun : loadField (Target.id slice) op (Target.id target) env d = .ok stmts d')
    (hsound : d.registry.Sound true) (hback : Underlies c d'.registry) (hne : slice ≠ target)
    (hstruct : op.kind.isStruct = false) (hkind : op.kind.isRemainder = false)
    (hv : EncodesField c env op v bits refs) (hs : t.get? slice = some (.slice x))
    (hx : x.Holds (bits ++ rest) (refs ++ others)) :
    Binds c t slice stmts (.leaf target .null) v rest others := by
  have hclosed : op.Closed env.program.plans := fun type htype => by
    simp [inline?_eq_none hstruct] at htype
  exact loadField_binds hc hrun hsound hback hv (.inl ⟨hkind, hclosed⟩) (hv.isLeaf hstruct)
    (by simp [Layout.Shape.names, Layout.Shape.leaves]) (by simpa [Layout.Shape.names, Layout.Shape.leaves])
    hs hx

/-- A value of the right size is found again. -/
theorem recovers_of_encodes (hc : c.Plain)
    (hrun : loadField (Target.id slice) op (Target.id target) env d = .ok stmts d')
    (hsound : d.registry.Sound true) (hback : Underlies c d'.registry) (hne : slice ≠ target)
    (hstruct : op.kind.isStruct = false) (hkind : op.kind.isRemainder = false)
    (hv : EncodesField c env op v bits refs) : Recovers c slice target stmts v bits refs := by
  intro t x rest others hs hx
  obtain ⟨w, x', t', hblock, -, hs', hx', hsame, hbound⟩ :=
    loadField_binds_leaf hc hrun hsound hback hne hstruct hkind hv hs hx
  exact ⟨w, x', t', hblock, bound_leaf hbound, hsame, hs', hx'⟩

/-- Where another value is in front, loading does not leave what follows. -/
theorem not_recovers_of_strays (hc : c.Plain)
    (hrun : loadField (Target.id slice) op (Target.id target) env d = .ok stmts d')
    (hsound : d.registry.Sound true) (hback : Underlies c d'.registry) (hne : slice ≠ target)
    (hstruct : op.kind.isStruct = false) (hkind : op.kind.isRemainder = false)
    (hv : StraysField c env op bits refs) : ¬ Recovers c slice target stmts v bits refs := by
  obtain ⟨w, own, further, rest, hown, heq, hstray⟩ := hv
  intro hrecovers
  let x : Slice := (Cell.mk (bits ++ further) refs).parse
  let t : State := State.set {} slice (.slice x)
  have hs : t.get? slice = some (.slice x) := by simp [t]
  have hx : x.Holds (bits ++ further) refs := Slice.holds_parse _ _
  have hxown : x.Holds (own ++ rest) ([] ++ refs) := by simpa [← heq] using hx
  have hxbits : x.Holds (bits ++ further) (refs ++ []) := by simpa using hx
  obtain ⟨_, x₁, t₁, hblock₁, -, hs₁, hx₁, -, -⟩ :=
    loadField_binds_leaf hc hrun hsound hback hne hstruct hkind hown hs hxown
  obtain ⟨_, x₂, t₂, hblock₂, -, -, hs₂, hx₂⟩ := hrecovers t hs hxbits
  obtain ⟨-, rfl⟩ := (Yields.iff hblock₁).1 hblock₂
  obtain rfl : x₁ = x₂ := by simpa [hs₁] using hs₂
  exact hstray ⟨hx₁.bits_eq.symm.trans hx₂.bits_eq, hx₁.refs_eq.symm.trans hx₂.refs_eq⟩

end Loading

/-- The generator gives this, and the code has all the functions that it asked for. -/
def Emitted {α : Type} (c : Code) (env : Env) (g : Gen α) (a : α) : Prop :=
  ∃ d d', g env d = .ok a d' ∧ d.registry.Sound true ∧ Underlies c d'.registry

/-- **A field that has been stored can be read again if it has the right size.** Take any value for a
field that is neither a record nor takes the rest of its cell. Storing it stops the run or appends some
bits and references. Of those loading finds the value, and leaves whatever follows, if and only if the
value has the size that is read back; which every value does unless the field is an address, where the
slice may have references, or a number of bytes. -/
theorem storeField_recovers (hc : c.Proper) (hstruct : op.kind.isStruct = false)
    (hrest : op.kind.isRemainder = false)
    (hstore : Emitted c env (storeField builder op value) e)
    (hload : Emitted c env (loadField (Target.id slice) op (Target.id target)) stmts)
    (hne : slice ≠ target) (hv : op.Takes v) (hb : Means c s builder (.builder b))
    (hvalue : Means c s value v) :
    Faults (eval c e) s ∨ ∃ bits refs, Means c s e (.builder (b.push bits refs)) ∧
      (Recovers c slice target stmts v bits refs ↔ op.kind.Measures v) := by
  obtain ⟨d, d', hstore, hsound, hback⟩ := hstore
  obtain ⟨q, q', hload, hsound', hback'⟩ := hload
  refine (storeField_settles hc hstore hsound hback hstruct hv hb hvalue).symm.imp_right ?_
  rintro ⟨w, hw⟩
  obtain ⟨-, bits, refs, rfl, ⟨hsize, hbits⟩ | ⟨hsize, hbits⟩⟩ :=
    storeField_measures hc hstore hsound hback hstruct hrest hv hb hvalue w s hw
  · exact ⟨bits, refs, hw, iff_of_true
      (recovers_of_encodes hc.plain hload hsound' hback' hne hstruct hrest hbits) hsize⟩
  · exact ⟨bits, refs, hw, iff_of_false
      (not_recovers_of_strays hc.plain hload hsound' hback' hne hstruct hrest hbits) hsize⟩

end Fields

/-! ### Digests -/

/-- A digest of 32 bytes. -/
def digestOp : Op := ⟨"digest", .fixedBytes 32, false⟩

/-- Where codecs are made: there is nothing besides. -/
def digestEnv : Env where
  program := { types := .primitives }
  evaluate := noConstants

/-- Where codecs are run: there is nothing besides the functions of the target. -/
def bareCode : Code := { functions := .empty }

/-- A function in which a digest is stored. -/
def digestState (x : Slice) : State :=
  ((State.set {} "build_0" (.builder .empty)).set "digest" (.slice x))

theorem bareCode_proper : bareCode.Proper := fun name item h => by simp [bareCode] at h

theorem bareCode_underlies : Underlies bareCode {} :=
  ⟨fun name entry item h => by simp at h, fun name entry h => by simp at h⟩

theorem emitted_of_run {α : Type} {g : Gen α} {a : α} (h : g env {} = .ok a {}) :
    Emitted bareCode env g a :=
  ⟨{}, {}, h, Emission.Registry.sound_empty, bareCode_underlies⟩

/-- The expression that stores a digest. -/
def digestStore : Target.Expr :=
  Target.method (Target.id "build_0") "store_slice" [Target.id "digest"]

/-- The statement that loads a digest. -/
def digestLoad : Target.Stmt :=
  Target.var (Target.id "digest") (Target.modify (Target.id "sc_0") "load_bits" [Target.int 256])

theorem digestStore_emitted : Emitted bareCode digestEnv
    (storeField (Target.id "build_0") digestOp (Target.id "digest")) digestStore :=
  emitted_of_run rfl

theorem digestLoad_emitted : Emitted bareCode digestEnv
    (loadField (Target.id "sc_0") digestOp (Target.id "digest")) [digestLoad] :=
  emitted_of_run rfl

theorem means_digest {x : Slice} : Means bareCode (digestState x) (Target.id "digest") (.slice x) :=
  means_id (by simp [digestState])

theorem means_build {x : Slice} :
    Means bareCode (digestState x) (Target.id "build_0") (.builder .empty) :=
  means_id (by simp [digestState, State.get?_set])

/-- A slice of any length up to that of a cell is stored as a digest. -/
theorem digestStore_means {x : Slice} (h : Builder.empty.Room x.bits.length x.refs.length) :
    Means bareCode (digestState x) digestStore (.builder ⟨x.bits, x.refs⟩) := by
  refine .primitive bareCode_proper.plain (by decide) (.cons means_build (.cons means_digest .nil)) ?_
  exact call_store_slice.2 ⟨h, by rw [Builder.push_empty]⟩

theorem digest_recovers : ∃ x : Slice, x.bits.length = 256 ∧ x.refs = [] ∧
    Means bareCode (digestState x) digestStore (.builder ⟨x.bits, x.refs⟩) ∧
    Recovers bareCode "sc_0" "digest" [digestLoad] (.slice x) x.bits x.refs := by
  generalize hx : (Cell.mk (List.replicate 256 true) []).parse = x
  have hlength : x.bits.length = 256 := by
    rw [← hx]
    exact List.length_replicate
  have hrefs : x.refs = [] := by
    rw [← hx]
    rfl
  have hroom : Builder.empty.Room x.bits.length x.refs.length := by
    rw [hlength, hrefs]
    exact ⟨by decide, by decide⟩
  have hmeans := digestStore_means hroom
  refine ⟨x, hlength, hrefs, hmeans, ?_⟩
  obtain ⟨f, t, hfault⟩ | ⟨bits, refs, happended, hrecovers⟩ :=
    storeField_recovers bareCode_proper rfl rfl digestStore_emitted digestLoad_emitted (by decide)
      (.inl (.fixedBytes 32 x)) means_build means_digest
  · rw [hmeans] at hfault
    simp at hfault
  · obtain ⟨heq, -⟩ := happended.iff.1 hmeans
    rw [Builder.push_empty] at heq
    obtain ⟨rfl, rfl⟩ : x.bits = bits ∧ x.refs = refs := by simpa using heq
    exact hrecovers.2 ⟨hlength, hrefs⟩

/-- An empty slice is stored as a digest, and what is stored is not read again. -/
theorem digest_lost :
    Emitted bareCode digestEnv
      (storeField (Target.id "build_0") digestOp (Target.id "digest")) digestStore ∧
    Emitted bareCode digestEnv
      (loadField (Target.id "sc_0") digestOp (Target.id "digest")) [digestLoad] ∧
    digestOp.Takes (.slice Cell.empty.parse) ∧
    Means bareCode (digestState Cell.empty.parse) digestStore (.builder .empty) ∧
    ¬ Recovers bareCode "sc_0" "digest" [digestLoad] (.slice Cell.empty.parse) [] [] := by
  have hroom : Builder.empty.Room 0 0 := ⟨by decide, by decide⟩
  have hstrays : Strays bareCode digestEnv (.fixedBytes 32) [] [] :=
    strays_fixedBytes (x := Cell.empty.parse) (by decide)
  obtain ⟨d, d', hload, hsound, hback⟩ := digestLoad_emitted
  exact ⟨digestStore_emitted, digestLoad_emitted, .inl (.fixedBytes 32 _), digestStore_means hroom,
    not_recovers_of_strays bareCode_proper.plain hload hsound hback (by decide) rfl rfl
      (hstrays.field false rfl rfl)⟩

end CellCompiler
