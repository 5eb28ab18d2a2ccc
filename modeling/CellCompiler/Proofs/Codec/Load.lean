import CellCompiler.Proofs.Codec.Variables
import CellCompiler.Proofs.Codec.Wrappers

/-!
# Loading

The code of a plan finds the values of fields at the front of a slice that holds what they are stored
as, and leaves what follows. The one thing that has to be known is that nothing follows a field that
takes everything that is left.

* `EncodesFront` describes the bits and references of the first fields of a chain of cells, which are
  all that is left of a message after a bounce;
* `readOps_restores` and `readChain_restores` are about cells and chains of cells.
-/

namespace CellCompiler

open Generate Machine
open Plan (Op OpKind Format Chain)

variable {c : Code} {env : Env} {d d' : Draft} {s s' : State} {v : Val} {x : Slice} {name : String}
  {e : Target.Expr} {bits rest : List Bool} {refs others : List Cell}

/-! ### Operations -/

/-- The expression moves the slice in a variable on and gives a value like the one expected. -/
def Finds (c : Code) (s : State) (name : String) (e : Target.Expr) (v : Val) (rest : List Bool)
    (others : List Cell) : Prop :=
  ∃ w x', Yields (eval c e) s w (s.set name (.slice x')) ∧ w.Same v ∧ x'.Holds rest others

theorem finds_read (hc : c.Plain) {function : String} (hfunction : function ∈ Target.builtins)
    {es : List Target.Expr} {vs : List Val} (hs : s.get? name = some (.slice x))
    (hargs : List.Forall₂ (Means c s) es vs)
    (hread : ∃ x', Primitive.read function x vs = .ok (x', v) ∧ x'.Holds rest others) :
    Finds c s name (Target.modify (Target.id name) function es) v rest others := by
  obtain ⟨x', hread, hx'⟩ := hread
  exact ⟨v, x', yields_read hc hfunction hs hargs hread, .refl v, hx'⟩

/-- The slice behind the next reference. -/
theorem yields_loadReference (hc : c.Plain) (hs : s.get? name = some (.slice x)) {y : Cell}
    (hx : x.Holds rest (y :: others)) :
    ∃ x', Yields (eval c (loadReference (Target.id name))) s (.slice y.parse)
      (s.set name (.slice x')) ∧ x'.Holds rest others := by
  obtain ⟨x', hread, hx'⟩ := read_load_ref hx
  refine ⟨x', ?_, hx'⟩
  have hload := yields_read hc (by decide) hs .nil hread
  rw [loadReference, Target.beginParse, Target.method, yields_method]
  refine ⟨[.cell y], _, yields_evalAll_one hload, ?_⟩
  rw [yields_builtin hc (by decide), call_begin_parse]
  exact ⟨rfl, rfl⟩

section Finds

variable {y : Slice} {type : String}

/-- The helper finds an address that passes the check. -/
theorem finds_address (hc : c.Plain) (hrun : loadOp (Target.id name) .address env d = .ok e d')
    (hsound : d.registry.Sound true) (hback : Underlies c d'.registry)
    (hverify : c.Helps Helper.verifyAddressName .verifyAddress) (hstandard : IsStandard y.bits)
    (hrefs : y.refs = []) (hs : s.get? name = some (.slice x)) (hx : x.Holds (y.bits ++ rest) others) :
    Finds c s name e (.slice y) rest others := by
  simp only [loadOp, run_bind, run_pure] at hrun
  obtain ⟨n, _, hhelper, rfl, rfl⟩ := hrun
  obtain ⟨rfl, helper, hof, hhelps⟩ := helper_helps hhelper hsound hback (by decide) (by decide)
  obtain rfl : Helper.loadAddress = helper := by
    have hload : Helper.ofName? Helper.loadAddressName = some .loadAddress := by decide
    simpa [hload] using hof
  obtain ⟨x', hcall, hx'⟩ := yields_loadAddress (s := s) hc hhelps hverify hstandard hx
  refine ⟨_, x', yields_reader hhelps hs hcall, ?_, hx'⟩
  exact Val.same_slice (Slice.holds_parse _ _) ⟨rfl, hrefs⟩

/-- The contents of a slice are found behind a reference. -/
theorem finds_slice (hc : c.Plain) (hs : s.get? name = some (.slice x))
    (hx : x.Holds rest (.mk y.bits y.refs :: others)) :
    Finds c s name (loadReference (Target.id name)) (.slice y) rest others := by
  obtain ⟨x', hload, hx'⟩ := yields_loadReference hc hs hx
  exact ⟨_, x', hload, Val.same_slice (Slice.holds_parse _ _) y.holds_self, hx'⟩

/-- The contents of a builder are found behind a reference, and moved to a new one. -/
theorem finds_builder (hc : c.Plain) {b : Builder} (hroom : Builder.empty.Room b.bits.length b.refs.length)
    (hs : s.get? name = some (.slice x)) (hx : x.Holds rest (.mk b.bits b.refs :: others)) :
    Finds c s name (Target.method Target.beginCell "store_slice" [loadReference (Target.id name)])
      (.builder b) rest others := by
  obtain ⟨x', hload, hx'⟩ := yields_loadReference hc hs hx
  refine ⟨.builder b, x', ?_, .refl _, hx'⟩
  rw [Target.method, yields_method]
  refine ⟨_, _, yields_evalAll_cons.2 ⟨_, s, means_beginCell hc, _, yields_evalAll_one hload, rfl⟩, ?_⟩
  rw [yields_builtin hc (by decide), call_store_slice]
  have hparse := Slice.holds_parse b.bits b.refs
  exact ⟨⟨by rwa [hparse.bits_eq, hparse.refs_eq],
    by rw [hparse.bits_eq, hparse.refs_eq, Builder.push_empty]⟩, rfl⟩

/-- As many bits are found as the field has. -/
theorem finds_fixedBytes (hc : c.Plain) {bytes : UInt16} (hlength : y.bits.length = bytes.toNat * 8)
    (hrefs : y.refs = []) (hs : s.get? name = some (.slice x)) (hx : x.Holds (y.bits ++ rest) others) :
    Finds c s name (Target.modify (Target.id name) "load_bits" [Target.int (bytes.toNat * 8)]) (.slice y) rest
      others := by
  have hwidth : bytes.toNat * 8 < UInt64.size := by
    have := bytes.toNat_lt
    simp only [UInt64.size]
    omega
  obtain ⟨x', hread, hx'⟩ := read_load_bits hwidth hlength hx
  refine ⟨_, x', yields_read hc (by decide) hs (.cons means_int .nil) hread, ?_, hx'⟩
  exact Val.same_slice (Slice.holds_parse _ _) ⟨rfl, hrefs⟩

/-- A record in place is found by its reader. -/
theorem finds_inPlace (hrun : loadOp (Target.id name) (.struct type false) env d = .ok e d')
    (hstored : Stored c env type v bits refs)
    (hrest : env.program.plans.Delimited type ∨ rest = [] ∧ others = [])
    (hs : s.get? name = some (.slice x)) (hx : x.Holds (bits ++ rest) (refs ++ others)) :
    Finds c s name e v rest others := by
  simp only [loadOp, used, run_bind, run_modify, run_pure] at hrun
  obtain ⟨_, _, ⟨_, _, rfl, rfl, rfl⟩, rfl, rfl⟩ := hrun
  obtain ⟨r, rfl, hcodecs⟩ := hstored.supported
  obtain ⟨item, hitem⟩ := hcodecs.get?_reader
  obtain ⟨w, x', hcall, hw, hx'⟩ := hstored.reads s hx hrest
  exact ⟨w, x', yields_reader hitem hs hcall, hw, hx'⟩

/-- A record behind a reference has a cell of its own, which is read to its end. -/
theorem finds_behind (hc : c.Plain) (hrun : loadOp (Target.id name) (.struct type true) env d = .ok e d')
    (hstored : Stored c env type v bits refs) (hs : s.get? name = some (.slice x))
    (hx : x.Holds rest (.mk bits refs :: others)) : Finds c s name e v rest others := by
  simp only [loadOp, callUsed, used, run_bind, run_modify, run_pure] at hrun
  obtain ⟨_, _, ⟨_, _, rfl, rfl, rfl⟩, rfl, rfl⟩ := hrun
  obtain ⟨x', hload, hx'⟩ := yields_loadReference hc hs hx
  obtain ⟨w, hcall, hw⟩ := hstored.readerNotMut hc (Slice.holds_parse bits refs) (s.set name (.slice x'))
  refine ⟨w, x', ?_, hw, hx'⟩
  rw [Target.call, yields_call]
  exact ⟨_, _, yields_evalAll_one hload, hcall⟩

end Finds

/-- A present value is found. -/
theorem loadOp_finds (hc : c.Plain) {kind : OpKind}
    (hrun : loadOp (Target.id name) kind env d = .ok e d') (hsound : d.registry.Sound true)
    (hback : Underlies c d'.registry) (hv : Encodes c env kind v bits refs)
    (hkind : kind.isRemainder = false)
    (hrest : (∀ type, kind.inline? = some type → env.program.plans.Delimited type) ∨
      rest = [] ∧ others = [])
    (hs : s.get? name = some (.slice x)) (hx : x.Holds (bits ++ rest) (refs ++ others)) :
    Finds c s name e v rest others := by
  cases hv with
  | @int bits i hi =>
    obtain ⟨rfl, rfl⟩ := run_pure.1 hrun
    exact finds_read hc (by decide) hs (.cons means_int .nil) (read_load_int (Bits.toNat_lt_size bits) hi hx)
  | @uint bits i hi =>
    obtain ⟨rfl, rfl⟩ := run_pure.1 hrun
    exact finds_read hc (by decide) hs (.cons means_int .nil) (read_load_uint (Bits.toNat_lt_size bits) hi hx)
  | coins hi =>
    obtain ⟨rfl, rfl⟩ := run_pure.1 hrun
    exact finds_read hc (by decide) hs .nil (read_load_coins hi hx)
  | boolean t =>
    obtain ⟨rfl, rfl⟩ := run_pure.1 hrun
    exact finds_read hc (by decide) hs (.cons means_int .nil) (read_load_flag hx)
  | address hverify hstandard hrefs =>
    exact finds_address hc hrun hsound hback hverify hstandard hrefs hs hx
  | cell y =>
    obtain ⟨rfl, rfl⟩ := run_pure.1 hrun
    exact finds_read hc (by decide) hs .nil (read_load_ref hx)
  | cellRest _ | sliceRest _ | builderRest _ => simp [OpKind.isRemainder] at hkind
  | slice y | string y => exact (run_pure.1 hrun).1 ▸ finds_slice hc hs hx
  | builder hroom => exact (run_pure.1 hrun).1 ▸ finds_builder hc hroom hs hx
  | fixedBytes hlength hrefs => exact (run_pure.1 hrun).1 ▸ finds_fixedBytes hc hlength hrefs hs hx
  | noMap =>
    obtain ⟨rfl, rfl⟩ := run_pure.1 hrun
    exact finds_read hc (by decide) hs .nil (read_load_dict_null hx)
  | map y =>
    obtain ⟨rfl, rfl⟩ := run_pure.1 hrun
    exact finds_read hc (by decide) hs .nil (read_load_dict_cell hx)
  | inPlace hstored => exact finds_inPlace hrun hstored (hrest.imp_left fun h => h _ rfl) hs hx
  | behind hstored => exact finds_behind hc hrun hstored hs hx

/-- The code of a value that may be absent, if it is not a record in place. -/
theorem loadOptional_eq_ok {slice : Target.Expr} {kind : OpKind} (hkind : kind.inline? = none)
    (hrun : loadOptional slice kind env d = .ok e d') :
    ∃ loaded d₁ value, loadOp slice kind env d = .ok loaded d₁ ∧ d₁.registry = d'.registry ∧
      e = .ternary (Target.modify slice "load_int" [Target.int 1]) value Target.null ∧
      (kind.isStruct = false → value = loaded) ∧
      ∀ type byRef, kind = .struct type byRef →
        value = Target.call (Name.asOptional type) [loaded] := by
  cases kind with
  | struct type byRef =>
    cases byRef with
    | false => simp [OpKind.inline?] at hkind
    | true =>
      rw [loadOptional] at hrun
      · simp only [callUsed, used, run_bind, run_modify, run_pure] at hrun
        obtain ⟨loaded, d₁, hloaded, _, _, ⟨_, _, ⟨_, _, rfl, rfl, rfl⟩, rfl, rfl⟩, rfl, rfl⟩ := hrun
        exact ⟨loaded, d₁, _, hloaded, rfl, rfl, by simp [OpKind.isStruct], by simp⟩
      · simp
  | _ =>
    simp only [loadOptional, run_bind, run_pure] at hrun
    obtain ⟨loaded, d₁, hloaded, _, _, ⟨rfl, rfl⟩, rfl, rfl⟩ := hrun
    exact ⟨_, _, _, hloaded, rfl, rfl, fun _ => rfl, by simp⟩

/-- A value that may be absent is found. -/
theorem loadOptional_finds (hc : c.Plain) {field : String} {kind : OpKind}
    (hrun : loadOptional (Target.id name) kind env d = .ok e d') (hsound : d.registry.Sound true)
    (hback : Underlies c d'.registry) (hv : EncodesField c env ⟨field, kind, true⟩ v bits refs)
    (hkind : kind.isRemainder = false)
    (hrest : (∀ type, kind.inline? = some type → env.program.plans.Delimited type) ∨
      rest = [] ∧ others = [])
    (hs : s.get? name = some (.slice x)) (hx : x.Holds (bits ++ rest) (refs ++ others)) :
    Finds c s name e v rest others := by
  cases hinline : kind.inline? with
  | some type =>
    obtain rfl := OpKind.eq_struct_of_inline? hinline
    simp only [loadOptional, used, run_bind, run_modify, run_pure] at hrun
    obtain ⟨_, _, ⟨_, _, rfl, rfl, rfl⟩, rfl, rfl⟩ := hrun
    obtain ⟨r, rfl, hcodecs⟩ := hv.supported
    obtain ⟨w, x', hcall, hw, hx'⟩ := readerOpt_reads hc ⟨r, rfl, hcodecs⟩ hv hx
      (hrest.imp_left fun h => h r.name rfl) s
    obtain ⟨item, hitem⟩ := hcodecs.get?_readerOpt
    exact ⟨w, x', yields_reader hitem hs hcall, hw, hx'⟩
  | none =>
    obtain ⟨loaded, d₁, value, hloaded, hregistry, rfl, hplain, hbox⟩ :=
      loadOptional_eq_ok hinline hrun
    rw [← hregistry] at hback
    cases hv with
    | absent _ _ =>
      obtain ⟨x', hread, hx'⟩ := read_load_flag hx
      have hflag := yields_read hc (by decide) hs (.cons means_int .nil) hread
      refine ⟨.null, x', yields_ternary.2 ⟨_, _, hflag, false, truthy_bool, ?_⟩, .refl _, hx'⟩
      exact means_null hc
    | present _ hstruct hv =>
      obtain ⟨x₁, hread, hx₁⟩ := read_load_flag hx
      have hflag := yields_read hc (by decide) hs (.cons means_int .nil) hread
      have hs₁ : (s.set name (.slice x₁)).get? name = some (.slice x₁) := by simp
      obtain ⟨w, x', hw, hsame, hx'⟩ := loadOp_finds hc hloaded hsound hback hv hkind hrest hs₁ hx₁
      rw [State.set_set] at hw
      refine ⟨w, x', yields_ternary.2 ⟨_, _, hflag, true, truthy_bool, ?_⟩, hsame, hx'⟩
      rw [if_pos rfl, hplain hstruct]
      exact hw
    | @boxed _ type byRef v _ _ hv hboxable =>
      obtain ⟨x₁, hread, hx₁⟩ := read_load_flag hx
      have hflag := yields_read hc (by decide) hs (.cons means_int .nil) hread
      have hs₁ : (s.set name (.slice x₁)).get? name = some (.slice x₁) := by simp
      obtain ⟨w, x', hw, hsame, hx'⟩ := loadOp_finds hc hloaded hsound hback hv hkind hrest hs₁ hx₁
      rw [State.set_set] at hw
      refine ⟨w.boxed, x', yields_ternary.2 ⟨_, _, hflag, true, truthy_bool, ?_⟩, hsame.boxed, hx'⟩
      rw [if_pos rfl, hbox type byRef rfl, Target.call, yields_call]
      exact ⟨[w], _, yields_evalAll_one hw, hboxable.boxes _ hsame⟩

/-! ### Fields -/

/-- Loading the field leaves what follows it. -/
def Delimits (env : Env) (op : Op) : Prop :=
  op.kind.isRemainder = false ∧ op.Closed env.program.plans

/-- Some statements move the slice in a variable on and leave a value like the one expected in the
variables of a shape. -/
def Binds (c : Code) (s : State) (name : String) (stmts : List Target.Stmt) (sh : Layout.Shape)
    (v : Val) (rest : List Bool) (others : List Cell) : Prop :=
  ∃ w x' s', Yields (block c stmts) s none s' ∧ s.Frames (fun y => y = name ∨ y ∈ sh.names) s' ∧
    s'.get? name = some (.slice x') ∧ x'.Holds rest others ∧ w.Same v ∧ Bound s' sh w

section Fields

variable {sh : Layout.Shape} {op : Op} {stmts : List Target.Stmt}

theorem Finds.binds (h : Finds c s name e v rest others) (hfits : sh.Fits v)
    (hnodup : sh.names.Nodup) (hname : name ∉ sh.names) :
    Binds c s name [Target.var sh.pattern e] sh v rest others := by
  obtain ⟨w, x', hw, hsame, hx'⟩ := h
  have hwfits := hfits.same hsame
  refine ⟨w, x', _, yields_block_var.2 ⟨w, _, hw, _, (yields_bind_pattern hwfits).2 rfl,
    yields_block_nil.2 ⟨rfl, rfl⟩⟩, ?_, ?_, hx', hsame, bound_setAll hwfits hnodup⟩
  · exact (State.frames_set.mono fun y hy => .inl hy).trans
      (State.frames_setAll.mono fun y hy => .inr hy)
  · rw [State.get?_setAll_of_not_mem hname]
    simp

/-- What is left in the slice is the value. -/
theorem means_remainderOf (hc : c.Plain) {kind : OpKind} (hkind : kind.isRemainder = true)
    (hv : Encodes c env kind v bits refs) (hs : s.get? name = some (.slice x))
    (hx : x.Holds bits refs) :
    ∃ w, Means c s (remainderOf (Target.id name) kind) w ∧ w.Same v := by
  have hslice : Means c s (Target.id name) (.slice x) := means_id hs
  have hstore : Builder.empty.Room bits.length refs.length →
      Means c s (Target.method Target.beginCell "store_slice" [Target.id name])
        (.builder ⟨bits, refs⟩) := by
    intro hroom
    refine .primitive hc (by decide) (.cons (means_beginCell hc) (.cons hslice .nil)) (call_store_slice.2 ?_)
    rw [hx.bits_eq, hx.refs_eq, Builder.push_empty]
    exact ⟨hroom, rfl⟩
  cases hv with
  | cellRest hroom =>
    refine ⟨_, .primitive hc (by decide) (.cons (hstore hroom) .nil) (call_end_cell.2 ⟨?_, rfl⟩), .refl _⟩
    simpa [Builder.Room, Builder.empty] using hroom
  | sliceRest y => exact ⟨_, hslice, Val.same_slice hx y.holds_self⟩
  | builderRest hroom => exact ⟨_, hstore hroom, .refl _⟩
  | _ => simp [OpKind.isRemainder] at hkind

/-- A field that takes everything that is left. -/
theorem binds_remainder (hc : c.Plain) {empty : String} {kind : OpKind}
    (hempty : c.Helps empty .emptySlice) (hkind : kind.isRemainder = true)
    (hv : Encodes c env kind v bits refs) (hfits : sh.Fits v) (hnodup : sh.names.Nodup)
    (hname : name ∉ sh.names) (hs : s.get? name = some (.slice x)) (hx : x.Holds bits refs) :
    Binds c s name [Target.var sh.pattern (remainderOf (Target.id name) kind),
      Target.assign (Target.id name) (Target.call empty [])] sh v [] [] := by
  obtain ⟨w, hw, hsame⟩ := means_remainderOf hc hkind hv hs hx
  have hwfits := hfits.same hsame
  generalize ht : s.setAll (sh.names.zip w.flatten) = t
  have hframes : s.Frames (· ∈ sh.names) t := ht ▸ State.frames_setAll
  have hbound : Bound t sh w := ht ▸ bound_setAll hwfits hnodup
  have hcall : Means c t (Target.call empty []) (.slice Cell.empty.parse) := by
    rw [Means, yields_call_means .nil, yields_asm hempty]
    exact ⟨asm_emptySlice, rfl⟩
  have hts : t.get? name = some (.slice x) := by rw [hframes.kept name hname, hs]
  refine ⟨w, Cell.empty.parse, t.set name (.slice Cell.empty.parse), ?_, ?_, by simp, ⟨rfl, rfl⟩,
    hsame, ?_⟩
  · refine yields_block_var.2 ⟨w, s, hw, t, (yields_bind_pattern hwfits).2 ht.symm, ?_⟩
    rw [yields_assign_means hts hcall]
    exact yields_block_nil.2 ⟨rfl, rfl⟩
  · exact (hframes.mono fun y hy => .inr hy).trans (State.frames_set.mono fun y hy => .inl hy)
  · exact hbound.frames State.frames_set fun y hy heq => hname (heq ▸ hy)

/-- A field is loaded into its variables. -/
theorem loadField_binds (hc : c.Plain)
    (hrun : loadField (Target.id name) op sh.pattern env d = .ok stmts d')
    (hsound : d.registry.Sound true) (hback : Underlies c d'.registry)
    (hv : EncodesField c env op v bits refs) (hrest : Delimits env op ∨ rest = [] ∧ others = [])
    (hfits : sh.Fits v) (hnodup : sh.names.Nodup) (hname : name ∉ sh.names)
    (hs : s.get? name = some (.slice x)) (hx : x.Holds (bits ++ rest) (refs ++ others)) :
    Binds c s name stmts sh v rest others := by
  by_cases hkind : op.kind.isRemainder = true
  · simp only [loadField, hkind, if_true, run_bind, run_pure] at hrun
    obtain ⟨empty, _, hhelper, rfl, rfl⟩ := hrun
    obtain ⟨rfl, helper, hof, hhelps⟩ := helper_helps hhelper hsound hback (by decide) (by decide)
    obtain rfl : Helper.emptySlice = helper := by
      have hempty : Helper.ofName? Helper.emptySliceName = some .emptySlice := by decide
      simpa [hempty] using hof
    obtain ⟨rfl, rfl⟩ := hrest.resolve_left fun h => by simp [h.1] at hkind
    cases hv with
    | required hv => exact binds_remainder hc hhelps hkind hv hfits hnodup hname hs (by simpa using hx)
    | absent hnot _ | present hnot _ _ => simp [hnot] at hkind
    | boxed _ => simp [OpKind.isRemainder] at hkind
  · have hplain : op.kind.isRemainder = false := by simpa using hkind
    simp only [loadField, hkind, Bool.false_eq_true, if_false] at hrun
    have hclosed : (∀ type, op.kind.inline? = some type → env.program.plans.Delimited type) ∨
        rest = [] ∧ others = [] := hrest.imp_left And.right
    obtain ⟨field, kind, optional⟩ := op
    cases optional with
    | true =>
      simp only [if_true, run_bind, run_pure] at hrun
      obtain ⟨value, _, hvalue, rfl, rfl⟩ := hrun
      exact (loadOptional_finds hc hvalue hsound hback hv hplain hclosed hs hx).binds hfits hnodup hname
    | false =>
      simp only [Bool.false_eq_true, if_false, run_bind, run_pure] at hrun
      obtain ⟨value, _, hvalue, rfl, rfl⟩ := hrun
      cases hv with
      | required hv =>
        exact (loadOp_finds hc hvalue hsound hback hv hplain hclosed hs hx).binds hfits hnodup hname

end Fields

/-! ### Cells -/

section Cells

variable {r : Record} {values : String → Val} {stmts : List Target.Stmt}

/-- The field lies in its variables as a value like the one expected. -/
def Restored (env : Env) (r : Record) (s : State) (op : Op) (v : Val) : Prop :=
  ∃ w, w.Same v ∧ Lies env r s op w

theorem Restored.frames (hsep : env.program.types.Separate) {op : Op} (h : Restored env r s op v)
    {changed : String → Prop} (hframes : s.Frames changed s')
    (hchanged : ∀ y, Name.Under (Name.tick "v" op.name) y → ¬ changed y) :
    Restored env r s' op v := by
  obtain ⟨w, hw, hlies⟩ := h
  exact ⟨w, hw, hlies.frames hsep hframes hchanged⟩

/-- Operations on different fields, each of which fits its value. -/
structure Fields (env : Env) (r : Record) (values : String → Val) (ops : List Op) : Prop
    extends Apart ops where
  fits : ∀ op ∈ ops, ∀ ty sh, r.fields.lookup op.name = some ty →
    Layout.shape env.program.types ty (Name.tick "v" op.name) = .ok sh → sh.Fits (values op.name)

theorem Fields.left {ops more : List Op} (h : Fields env r values (ops ++ more)) :
    Fields env r values ops :=
  ⟨h.toApart.left, fun op hop => h.fits op (List.mem_append_left _ hop)⟩

theorem Fields.right {ops more : List Op} (h : Fields env r values (ops ++ more)) :
    Fields env r values more :=
  ⟨h.toApart.right, fun op hop => h.fits op (List.mem_append_right _ hop)⟩

/-- The fields of a cell are loaded in order. -/
theorem readOps_restores (hc : c.Plain) (hsep : env.program.types.Separate) {n : Nat}
    {ops : List Op} (hrun : readOps r (Target.id (sliceName n)) ops env d = .ok stmts d')
    (hsound : d.registry.Sound true) (hback : Underlies c d'.registry)
    (hv : EncodesAll c env values ops bits refs) (hfields : Fields env r values ops)
    (hdelimits : ∀ op ∈ ops.dropLast, Delimits env op)
    (hrest : (∀ op ∈ ops, Delimits env op) ∨ rest = [] ∧ others = [])
    (hs : s.get? (sliceName n) = some (.slice x)) (hx : x.Holds (bits ++ rest) (refs ++ others)) :
    ∃ x' s', Yields (block c stmts) s none s' ∧
      s.Frames (fun y => y = sliceName n ∨ FieldVar ops y) s' ∧
      s'.get? (sliceName n) = some (.slice x') ∧ x'.Holds rest others ∧
      ∀ op ∈ ops, Restored env r s' op (values op.name) := by
  induction hv generalizing d s x stmts with
  | nil =>
    obtain ⟨rfl, rfl⟩ := run_pure.1 hrun
    exact ⟨x, s, yields_block_nil.2 ⟨rfl, rfl⟩, .refl s, hs, hx, by simp⟩
  | @cons op ops bits more refs others' hop hops ih =>
    rw [← List.singleton_append] at hfields
    simp only [readOps, run_bind, run_pure] at hrun
    obtain ⟨_, _, hpattern, own, d₁, hown, below, _, hbelow, rfl, rfl⟩ := hrun
    obtain ⟨rfl, ty, sh, hty, hsh, rfl⟩ := fieldPattern_eq_ok hpattern
    have hdistinct := Layout.shapeWithin_distinct hsep hsh
    obtain ⟨-, hsound₁⟩ := (loadField_builds Target.declared_id).keeps hown hsound
    have hextends := ((readOps_builds Target.declared_id).keeps hbelow hsound₁).1
    have hends : Delimits env op ∨ more ++ rest = [] ∧ others' ++ others = [] := by
      cases hops with
      | nil => simpa using hrest
      | cons _ _ => exact .inl (hdelimits op (by simp))
    have hname : sliceName n ∉ sh.names := fun hmem =>
      (hdistinct.under _ hmem).ne_sliceName n rfl
    rw [List.append_assoc, List.append_assoc] at hx
    obtain ⟨w, x₁, s₁, hrun₁, hframes₁, hs₁, hx₁, hsame, hbound⟩ :=
      loadField_binds hc hown hsound (hback.mono hextends) hop hends
        (hfields.fits op List.mem_cons_self ty sh hty hsh) hdistinct.nodup hname hs hx
    have hdelimits' : ∀ op ∈ ops.dropLast, Delimits env op := by
      intro o ho
      refine hdelimits o ?_
      rw [List.dropLast_cons_of_ne_nil (List.ne_nil_of_mem (List.mem_of_mem_dropLast ho))]
      exact List.mem_cons_of_mem _ ho
    obtain ⟨x', s', hrun', hframes', hs', hx', hrestored⟩ := ih hbelow hsound₁
      hfields.right hdelimits'
      (hrest.imp_left fun h o ho => h o (List.mem_cons_of_mem _ ho)) hs₁ hx₁
    refine ⟨x', s', yields_block_append.2 ⟨none, s₁, hrun₁, hrun'⟩, ?_, hs', hx', ?_⟩
    · refine (hframes₁.mono ?_).trans (hframes'.mono ?_)
      · exact fun y hy => hy.imp_right fun hmem => ⟨op, List.mem_cons_self, hdistinct.under y hmem⟩
      · rintro y (hy | ⟨o, ho, hunder⟩)
        · exact .inl hy
        · exact .inr ⟨o, List.mem_cons_of_mem _ ho, hunder⟩
    · rw [List.forall_mem_cons]
      refine ⟨?_, hrestored⟩
      have hlies : Lies env r s₁ op w := by
        intro ty' sh' hty' hsh'
        obtain rfl : ty = ty' := by simpa [hty] using hty'
        obtain rfl : sh = sh' := by simpa [hsh] using hsh'
        exact hbound
      -- variables of other fields are not touched
      refine Restored.frames hsep ⟨w, hsame, hlies⟩ hframes' ?_
      rintro y hy (rfl | ⟨o, ho, hunder⟩)
      · exact hy.ne_sliceName n rfl
      · exact hfields.not_fieldVar List.mem_cons_self hy ⟨o, ho, hunder⟩

theorem Plan.Chain.Full.ops_ne_nil {ops : List Op} {next : Chain} (h : (Chain.link ops next).Full) :
    next.ops ≠ [] := by
  have hstarts := h.1
  cases next with
  | last more =>
    rw [Plan.Chain.ops_last]
    exact hstarts
  | link more next => exact fun hnil => hstarts (List.append_eq_nil_iff.1 (by simpa using hnil)).1

/-- The first fields but not all of them leave what follows. -/
theorem delimits_take {ops : List Op} {limit : Nat} (h : ∀ op ∈ ops.dropLast, Delimits env op)
    (hlimit : limit < ops.length) : ∀ op ∈ ops.take limit, Delimits env op := by
  intro op hop
  refine h op ?_
  rw [List.dropLast_eq_take]
  exact (List.take_sublist_take_left (by omega)).subset hop

/-- The first `limit` fields of a chain of cells. Whatever else is in a cell that is read only in
part, it comes after fields that leave it. -/
inductive EncodesFront (c : Code) (env : Env) (values : String → Val) :
    Nat → Chain → List Bool → List Cell → Prop where
  | last {limit : Nat} {ops : List Op} {bits : List Bool} {refs : List Cell} :
      EncodesAll c env values (ops.take limit) bits refs →
      EncodesFront c env values limit (.last ops) bits refs
  | here {limit : Nat} {ops : List Op} {next : Chain} {bits : List Bool} {refs : List Cell} :
      limit ≤ ops.length → EncodesAll c env values (ops.take limit) bits refs →
      EncodesFront c env values limit (.link ops next) bits refs
  | link {limit : Nat} {ops : List Op} {next : Chain} {bits more rest : List Bool}
      {refs others left : List Cell} : ops.length < limit → EncodesAll c env values ops bits refs →
      EncodesFront c env values (limit - ops.length) next more others →
      (∀ op ∈ next.ops.take (limit - ops.length), Delimits env op) ∨ rest = [] ∧ left = [] →
      EncodesFront c env values limit (.link ops next) bits
        (refs ++ [Cell.mk (more ++ rest) (others ++ left)])

theorem EncodesAll.take {ops : List Op} (h : EncodesAll c env values ops bits refs) (limit : Nat) :
    ∃ front rest own others, bits = front ++ rest ∧ refs = own ++ others ∧
      EncodesAll c env values (ops.take limit) front own ∧
      (ops.length ≤ limit → rest = [] ∧ others = []) := by
  induction h generalizing limit with
  | nil => exact ⟨[], [], [], [], rfl, rfl, by simpa using .nil, fun _ => ⟨rfl, rfl⟩⟩
  | @cons op ops bits more refs others hop hops ih =>
    cases limit with
    | zero => exact ⟨[], bits ++ more, [], refs ++ others, rfl, rfl, .nil, by simp⟩
    | succ limit =>
      obtain ⟨front, rest, own, left, rfl, rfl, hfront, hall⟩ := ih limit
      refine ⟨bits ++ front, rest, refs ++ own, left, by simp, by simp, .cons hop hfront, ?_⟩
      simpa using hall

/-- The first fields are at the front of what all fields are stored as. -/
theorem EncodesChain.front {chain : Chain} (h : EncodesChain c env values chain bits refs)
    (hfull : chain.Full) (hdelimits : ∀ op ∈ chain.ops.dropLast, Delimits env op) (limit : Nat) :
    ∃ front rest own others, bits = front ++ rest ∧ refs = own ++ others ∧
      EncodesFront c env values limit chain front own ∧
      (chain.ops.length ≤ limit → rest = [] ∧ others = []) := by
  induction h generalizing limit with
  | last hops =>
    obtain ⟨front, rest, own, others, rfl, rfl, hfront, hall⟩ := hops.take limit
    exact ⟨front, rest, own, others, rfl, rfl, .last hfront, by rwa [Chain.ops_last]⟩
  | @link ops next bits more refs others hops _ ih =>
    have hnext : next.ops ≠ [] := hfull.ops_ne_nil
    have hpos : 0 < next.ops.length := List.length_pos_of_ne_nil hnext
    rw [Chain.ops_link, List.dropLast_append_of_ne_nil hnext, List.forall_mem_append] at hdelimits
    rw [Chain.ops_link, List.length_append]
    by_cases hlimit : limit ≤ ops.length
    · obtain ⟨front, rest, own, left, rfl, rfl, hfront, -⟩ := hops.take limit
      exact ⟨front, rest, own, left ++ [Cell.mk more others], rfl, by simp, .here hlimit hfront, by omega⟩
    · obtain ⟨front, rest, own, left, rfl, rfl, hfront, hall⟩ :=
        ih hfull.2 hdelimits.2 (limit - ops.length)
      refine ⟨bits, [], refs ++ [Cell.mk (front ++ rest) (own ++ left)], [], by simp, by simp,
        .link (by omega) hops hfront ?_, fun _ => ⟨rfl, rfl⟩⟩
      by_cases hpart : limit - ops.length < next.ops.length
      · exact .inl (delimits_take hdelimits.2 hpart)
      · exact .inr (hall (by omega))

/-- The first fields of a cell are loaded in order. -/
theorem readOps_restores_take (hc : c.Plain) (hsep : env.program.types.Separate) {limit n : Nat}
    {ops more : List Op}
    (hrun : readOps r (Target.id (sliceName n)) (ops.take limit) env d = .ok stmts d')
    (hsound : d.registry.Sound true) (hback : Underlies c d'.registry)
    (hv : EncodesAll c env values (ops.take limit) bits refs)
    (hfields : Fields env r values (ops ++ more)) (hdelimits : ∀ op ∈ ops.dropLast, Delimits env op)
    (hrest : (∀ op ∈ ops.take limit, Delimits env op) ∨ rest = [] ∧ others = [])
    (hs : s.get? (sliceName n) = some (.slice x)) (hx : x.Holds (bits ++ rest) (refs ++ others)) :
    ∃ x' s', Yields (block c stmts) s none s' ∧
      s.Frames (ReadVar n (ops.take limit)) s' ∧
      s'.get? (sliceName n) = some (.slice x') ∧ x'.Holds rest others ∧
      ∀ op ∈ ops.take limit, Restored env r s' op (values op.name) := by
  have hsome : Fields env r values (ops.take limit) := by
    rw [← List.take_append_drop limit ops, List.append_assoc] at hfields
    exact hfields.left
  have hinit : ∀ op ∈ (ops.take limit).dropLast, Delimits env op := by
    intro op hop
    by_cases hlimit : limit < ops.length
    · exact delimits_take hdelimits hlimit op (List.mem_of_mem_dropLast hop)
    · rw [List.take_of_length_le (by omega)] at hop
      exact hdelimits op hop
  obtain ⟨x', s', hrun', hframes, hs', hx', hrestored⟩ :=
    readOps_restores hc hsep hrun hsound hback hv hsome hinit hrest hs hx
  exact ⟨x', s', hrun', hframes.mono fun y hy => hy.imp_left fun h => ⟨n, le_refl n, h⟩, hs', hx',
    hrestored⟩

/-- The cell behind the next reference is read in a slice of its own. -/
theorem opens_next (hc : c.Plain) {n : Nat} (hs : s.get? (sliceName n) = some (.slice x))
    (hx : x.Holds rest (.mk bits refs :: others)) :
    ∃ x' y s', (∀ {t}, Yields (block c stmts) s' none t → Yields (block c (Target.var
        (Target.id (sliceName (n + 1))) (loadReference (Target.id (sliceName n))) :: stmts)) s none t) ∧
      s.Frames (fun z => ∃ k ≥ n, z = sliceName k) s' ∧
      s'.get? (sliceName n) = some (.slice x') ∧ x'.Holds rest others ∧
      s'.get? (sliceName (n + 1)) = some (.slice y) ∧ y.Holds bits refs := by
  obtain ⟨x', hload, hx'⟩ := yields_loadReference hc hs hx
  generalize hs₁ : s.set (sliceName n) (.slice x') = s₁ at hload
  generalize hs₂ : s₁.set (sliceName (n + 1)) (.slice (Cell.mk bits refs).parse) = s₂
  have hframes₁ : s.Frames (· = sliceName n) s₁ := hs₁ ▸ State.frames_set
  have hframes₂ : s₁.Frames (· = sliceName (n + 1)) s₂ := hs₂ ▸ State.frames_set
  have hne : sliceName n ≠ sliceName (n + 1) := fun heq => by
    have := sliceName_inj heq
    omega
  refine ⟨x', (Cell.mk bits refs).parse, s₂, fun hrun => ?_, ?_, ?_, hx', ?_, Slice.holds_parse _ _⟩
  · refine yields_block_var.2 ⟨_, s₁, hload, s₂, ?_, hrun⟩
    rw [Target.id, yields_bind_ident, State.assign_of_declare, hs₂]
  · exact (hframes₁.mono fun z hz => ⟨n, le_refl n, hz⟩).trans
      (hframes₂.mono fun z hz => ⟨n + 1, by omega, hz⟩)
  · rw [hframes₂.kept _ hne, ← hs₁]
    simp
  · simp [← hs₂]

/-- The first fields of a chain of cells are loaded, each further cell from behind the last
reference. -/
theorem readChain_restores (hc : c.Plain) (hsep : env.program.types.Separate) {limit n : Nat}
    {chain : Chain} (hrun : readChain r limit n chain env d = .ok stmts d') (hfull : chain.Full)
    (hsound : d.registry.Sound true) (hback : Underlies c d'.registry)
    (hv : EncodesFront c env values limit chain bits refs) (hfields : Fields env r values chain.ops)
    (hdelimits : ∀ op ∈ chain.ops.dropLast, Delimits env op)
    (hrest : (∀ op ∈ chain.ops.take limit, Delimits env op) ∨ rest = [] ∧ others = [])
    (hs : s.get? (sliceName n) = some (.slice x)) (hx : x.Holds (bits ++ rest) (refs ++ others)) :
    ∃ x' s', Yields (block c stmts) s none s' ∧
      s.Frames (ReadVar n (chain.ops.take limit)) s' ∧
      s'.get? (sliceName n) = some (.slice x') ∧ x'.Holds rest others ∧
      ∀ op ∈ chain.ops.take limit, Restored env r s' op (values op.name) := by
  induction hv generalizing n d d' s x stmts rest others with
  | @last limit ops bits refs hv =>
    rw [Chain.ops_last] at hfields hdelimits hrest ⊢
    have hnil : Fields env r values (ops ++ []) := by simpa using hfields
    exact readOps_restores_take hc hsep hrun hsound hback hv hnil hdelimits hrest hs hx
  | @here limit ops next bits refs hlimit hv =>
    have hnext : next.ops ≠ [] := hfull.ops_ne_nil
    simp only [readChain, hlimit, if_true, run_bind, run_pure] at hrun
    obtain ⟨_, _, hrun, rfl, rfl⟩ := hrun
    rw [Chain.ops_link, List.dropLast_append_of_ne_nil hnext, List.forall_mem_append] at hdelimits
    rw [Chain.ops_link] at hfields
    rw [Chain.ops_link, List.take_append_of_le_length hlimit] at hrest ⊢
    exact readOps_restores_take hc hsep hrun hsound hback hv hfields
      (fun op hop => hdelimits.1 op (List.mem_of_mem_dropLast hop)) hrest hs hx
  | @link limit ops next bits more tail refs others' left hlimit hv _ htail ih =>
    have hnext : next.ops ≠ [] := hfull.ops_ne_nil
    have hmore : ¬ limit ≤ ops.length := by omega
    have htake : ops.take limit = ops := List.take_of_length_le (by omega)
    simp only [readChain, hmore, if_false, run_bind, run_pure] at hrun
    obtain ⟨own, d₁, hown, below, _, hbelow, rfl, rfl⟩ := hrun
    obtain ⟨-, hsound₁⟩ := (readOps_builds Target.declared_id).keeps hown hsound
    have hextends := (readChain_builds.keeps hbelow hsound₁).1
    -- something follows every field of this cell, so none of them takes everything
    rw [Chain.ops_link, List.dropLast_append_of_ne_nil hnext, List.forall_mem_append] at hdelimits
    rw [Chain.ops_link] at hfields
    rw [Chain.ops_link, List.take_append, htake]
    rw [List.append_assoc, List.singleton_append] at hx
    rw [← htake] at hv
    obtain ⟨x₁, s₁, hrun₁, hframes₁, hs₁, hx₁, hrestored₁⟩ :=
      readOps_restores_take hc hsep hown hsound (hback.mono hextends) hv hfields
        (fun op hop => hdelimits.1 op (List.mem_of_mem_dropLast hop))
        (.inl (htake.symm ▸ hdelimits.1)) hs hx
    rw [htake] at hframes₁ hrestored₁
    obtain ⟨x₂, y, s₂, hopen, hframes₂, hs₂, hx₂, hy, hall⟩ := opens_next hc hs₁ hx₁
    obtain ⟨x', s', hrun', hframes', -, -, hrestored'⟩ := ih hbelow hfull.2 hsound₁ hback
      hfields.right hdelimits.2 htail hy hall
    refine ⟨x₂, s', ?_, ?_, ?_, hx₂, ?_⟩
    · rw [List.append_assoc]
      exact yields_block_append.2 ⟨none, s₁, hrun₁, hopen hrun'⟩
    · exact (hframes₁.mono fun z => ReadVar.left).trans
        ((hframes₂.mono fun z => .inl).trans (hframes'.mono fun z => ReadVar.right))
    · rw [hframes'.kept _ (not_readVar_sliceName (by omega)), hs₂]
    · rw [List.forall_mem_append]
      refine ⟨fun op hop => ?_, hrestored'⟩
      have hrestored₂ := (hrestored₁ op hop).frames hsep hframes₂ fun z hz => by
        rintro ⟨k, -, heq⟩
        exact hz.ne_sliceName k heq
      refine hrestored₂.frames hsep hframes' fun z hz => ?_
      rintro (⟨k, -, heq⟩ | ⟨o, ho, hunder⟩)
      · exact hz.ne_sliceName k heq
      · exact hfields.not_fieldVar hop hz ⟨o, List.mem_of_mem_take ho, hunder⟩

end Cells

end CellCompiler
