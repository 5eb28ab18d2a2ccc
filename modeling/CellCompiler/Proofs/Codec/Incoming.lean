import CellCompiler.Proofs.Codec.Load
import CellCompiler.Proofs.Codec.Verified
import CellCompiler.Proofs.Machine.Drawing

/-!
# Loading fields checks addresses

Whatever slice the fields of a record are loaded from, all addresses in them have been checked by the
time they are in their variables.

* `Loads` says what has to be known of the codecs of the records in the fields, and `Decodes` of
  the operation of a field;
* `loadOp_draws` and `loadOptional_draws` are about operations, and `loadField_arrives`,
  `readOps_arrives` and `readChain_arrives` say that fields arrive in their variables with their
  addresses checked (`Arrived`).
-/

namespace CellCompiler

open Generate Machine
open Plan (Op OpKind OpOf Chain)
open Layout (Shape)

variable {c : Code} {env : Env} {d d' : Draft} {table : TypeTable} {regular : Prop} {r : Record}
  {s s' : State} {v w : Val} {slice : String} {e : Target.Expr} {stmts : List Target.Stmt}
  {q : Option Val}

/-! ### Operations -/

/-- Whenever the function ends, it gives what is left to read and a value with the property. -/
def Delivers (c : Code) (regular : Prop) (name : String) (P : Val → Prop) : Prop :=
  ∀ s x v s', Yields (call c name [x]) s v s' → (regular → x.isLeaf = true) →
    ∃ x' w, v = .tensor [x', w] ∧ (regular → x'.isLeaf = true) ∧ P w

/-- Whenever the function ends, it gives a value with the property. -/
def Gives (c : Code) (name : String) (pre post : Val → Prop) : Prop :=
  ∀ s x w s', Yields (call c name [x]) s w s' → pre x → post w

/-- What a function leaves and gives when it ends. -/
theorem Delivers.eq {name : String} {P : Val → Prop} (h : Delivers c regular name P) {x x' : Val}
    (hcall : Yields (call c name [x]) s (.tensor [x', w]) s') (hx : regular → x.isLeaf = true) :
    (regular → x'.isLeaf = true) ∧ P w := by
  obtain ⟨y, z, heq, hy, hz⟩ := h s x _ s' hcall hx
  obtain ⟨rfl, rfl⟩ : x' = y ∧ w = z := by simpa using heq
  exact ⟨hy, hz⟩

/-- Whatever the codecs of a type load, its addresses are checked. -/
structure Loads (c : Code) (table : TypeTable) (regular : Prop) (type : String) : Prop where
  reader : ∀ {s s' : State} {x x' w : Val},
    Yields (call c (Name.reader type) [x]) s (.tensor [x', w]) s' → (regular → x.isLeaf = true) →
    (regular → x'.isLeaf = true) ∧ Verified table regular (.plain type) w
  readerNotMut : Gives c (Name.readerNotMut type) (fun x => regular → x.isLeaf = true)
    (Verified table regular (.plain type))
  readerOpt : ∀ {s s' : State} {x x' w : Val},
    Yields (call c (Name.readerOpt type) [x]) s (.tensor [x', w]) s' →
    (regular → x.isLeaf = true) →
    (regular → x'.isLeaf = true) ∧ Verified table regular (.named type true) w
  asOptional : Gives c (Name.asOptional type) (Verified table regular (.plain type))
    (Verified table regular (.named type true))
  absent : Verified table regular (.named type true) .null

theorem helper_eq_ok {name n : String} (h : helper name env d = .ok n d') : n = name := by
  simp only [helper, used, run_bind, run_modify, run_pure] at h
  obtain ⟨_, _, -, _, _, -, rfl, -⟩ := h
  rfl

/-- Helpers for tuples are not functions of the target. -/
theorem not_mem_primitives_of_tact {name : String} (h : "__tact_".toList <+: name.toList) :
    name ∉ primitives := by
  have hall : ∀ other ∈ primitives, ¬ "__tact_".toList <+: other.toList := by decide
  exact fun hmem => hall name hmem h

theorem helps_tupleCreate (hc : c.Proper) {n : Nat} {args : List Val}
    (h : Yields (call c (Helper.tupleCreateName n) args) s v s') :
    n < UInt64.size ∧ c.Helps (Helper.tupleCreateName n) (.tupleCreate n) := by
  have heq : Helper.tupleCreateName n = "__tact_tuple_create_" ++ n.repr := rfl
  obtain ⟨helper, hof, hhelps⟩ := hc.helps h Helper.isEmitted_tupleCreateName
    (not_mem_primitives_of_tact (by simp [heq]))
  obtain ⟨rfl, hlt⟩ := Helper.ofName?_tupleCreateName hof
  exact ⟨hlt, hhelps⟩

theorem helps_tupleDestroy (hc : c.Proper) {n : Nat} {args : List Val}
    (h : Yields (call c (Helper.tupleDestroyName n) args) s v s') :
    n < UInt64.size ∧ c.Helps (Helper.tupleDestroyName n) (.tupleDestroy n) := by
  have heq : Helper.tupleDestroyName n = "__tact_tuple_destroy_" ++ n.repr := rfl
  obtain ⟨helper, hof, hhelps⟩ := hc.helps h Helper.isEmitted_tupleDestroyName
    (not_mem_primitives_of_tact (by simp [heq]))
  obtain ⟨rfl, hlt⟩ := Helper.ofName?_tupleDestroyName hof
  exact ⟨hlt, hhelps⟩

theorem loadReference_draws (hc : c.Plain) :
    Draws c regular slice (loadReference (Target.id slice)) fun v => v.isLeaf = true :=
  Draws.method hc (by decide) (draws_leaf hc (by decide) fun _ => .nil) fun _ _ _ => isLeaf_of_begin_parse

/-- What an operation loads has its addresses checked. -/
theorem loadOp_draws (hc : c.Proper) {kind : OpKind}
    (hrun : loadOp (Target.id slice) kind env d = .ok e d')
    (hloads : ∀ type byRef, kind = .struct type byRef → Loads c table regular type) :
    Draws c regular slice e (Loaded table regular kind) := by
  have hplain := hc.plain
  cases kind with
  | int bits | uint bits | fixedBytes bytes =>
    obtain ⟨rfl, -⟩ := run_pure.1 hrun
    exact draws_leaf hplain (by decide) fun _ => .cons means_int .nil
  | boolean =>
    obtain ⟨rfl, -⟩ := run_pure.1 hrun
    exact draws_leaf hplain (by decide) fun _ => .cons means_int .nil
  | coins | map =>
    obtain ⟨rfl, -⟩ := run_pure.1 hrun
    exact draws_leaf hplain (by decide) fun _ => .nil
  | cell format =>
    obtain ⟨rfl, -⟩ := run_pure.1 hrun
    exact draws_leaf hplain (by decide) fun _ => .nil
  | slice format =>
    obtain ⟨rfl, -⟩ := run_pure.1 hrun
    exact (loadReference_draws hplain).mono fun _ hv _ => hv
  | string =>
    obtain ⟨rfl, -⟩ := run_pure.1 hrun
    exact (loadReference_draws hplain).mono fun _ hv _ => hv
  | builder format =>
    obtain ⟨rfl, -⟩ := run_pure.1 hrun
    exact (Draws.stored hplain (loadReference_draws hplain)).mono fun _ hv _ => hv
  | address =>
    simp only [loadOp, run_bind, run_pure] at hrun
    obtain ⟨n, _, hhelper, rfl, -⟩ := hrun
    obtain rfl := helper_eq_ok hhelper
    refine draws_function (by decide) fun s x x' w s' hcall _ => ?_
    obtain ⟨hleaf, hw⟩ := slice_of_loadAddress hc hcall
    exact ⟨fun _ => hleaf, hw⟩
  | struct type byRef =>
    have hname : ∀ suffix, Name.ofType type suffix ∉ primitives := fun _ =>
      not_mem_primitives_of_isEmitted (Name.isEmitted_ofType _ _)
    cases byRef with
    | false =>
      simp only [loadOp, used, run_bind, run_modify, run_pure] at hrun
      obtain ⟨_, _, ⟨_, _, -, rfl, -⟩, rfl, -⟩ := hrun
      exact draws_function (hname _) fun s x x' w s' hcall hx => (hloads _ _ rfl).reader hcall hx
    | true =>
      simp only [loadOp, callUsed, used, run_bind, run_modify, run_pure] at hrun
      obtain ⟨_, _, ⟨_, _, -, rfl, -⟩, rfl, -⟩ := hrun
      exact (loadReference_draws hplain).call fun s x w s' hx hcall =>
        (hloads _ _ rfl).readerNotMut _ _ _ _ hcall fun _ => hx

/-- What an operation loads after the bit that tells whether it is present has its addresses checked. -/
theorem loadOptional_draws (hc : c.Proper) {field : String} {kind : OpKind}
    (hrun : loadOptional (Target.id slice) kind env d = .ok e d')
    (hloads : ∀ type byRef, kind = .struct type byRef → Loads c table regular type) :
    Draws c regular slice e (LoadedField table regular ⟨field, kind, true⟩) := by
  cases hinline : kind.inline? with
  | some type =>
    obtain rfl := OpKind.eq_struct_of_inline? hinline
    simp only [loadOptional, used, run_bind, run_modify, run_pure] at hrun
    obtain ⟨_, _, ⟨_, _, -, rfl, -⟩, rfl, -⟩ := hrun
    have hname := not_mem_primitives_of_isEmitted (Name.isEmitted_ofType type "load_opt")
    exact draws_function hname fun s x x' w s' hcall hx =>
      (hloads _ _ rfl).readerOpt hcall hx
  | none =>
    obtain ⟨loaded, d₁, value, hloaded, -, rfl, hplain, hbox⟩ := loadOptional_eq_ok hinline hrun
    have hdraws := loadOp_draws hc hloaded hloads
    by_cases hstruct : kind.isStruct = true
    · obtain ⟨type, byRef, rfl⟩ : ∃ type byRef, kind = .struct type byRef := by
        cases kind with
        | struct type byRef => exact ⟨type, byRef, rfl⟩
        | _ => simp [OpKind.isStruct] at hstruct
      rw [hbox type byRef rfl]
      have hboxed : Draws c regular slice (Target.call (Name.asOptional type) [loaded])
          (Verified table regular (.named type true)) :=
        hdraws.call fun s v w s' hv hcall => (hloads _ _ rfl).asOptional _ _ _ _ hcall hv
      refine (hboxed.present hc.plain).mono ?_
      rintro v (rfl | hv)
      · exact loadedField_struct.2 (hloads _ _ rfl).absent
      · exact loadedField_struct.2 hv
    · have hnot : kind.isStruct = false := by simpa using hstruct
      rw [hplain hnot]
      refine (hdraws.present hc.plain).mono fun v hv => (loadedField_iff hnot).2 ?_
      exact hv.imp_left fun hnull => ⟨rfl, hnull⟩

/-! ### Fields -/

/-- The operation loads a verified value of the type of its field, if the codecs that it calls do. -/
structure Decodes (c : Code) (env : Env) (regular : Prop) (r : Record) (op : Op) : Prop where
  loads : ∀ type byRef, op.kind = .struct type byRef → Loads c env.program.types regular type
  verified : ∀ ty v, r.fields.lookup op.name = some ty →
    LoadedField env.program.types regular op v → Verified env.program.types regular ty v

/-- The field that an operation is about lies in its variables with its addresses checked. -/
def Arrived (env : Env) (regular : Prop) (r : Record) (s : State) (op : Op) : Prop :=
  ∀ ty sh, r.fields.lookup op.name = some ty →
    Layout.shape env.program.types ty (Name.tick "v" op.name) = .ok sh →
    ∃ w, Carries s sh w ∧ Verified env.program.types regular ty w

theorem Arrived.keeps (hsep : env.program.types.Separate) {op : Op} (h : Arrived env regular r s op)
    {changed : String → Prop} (hkeeps : s.Keeps changed s')
    (hchanged : ∀ y, Name.Under (Name.tick "v" op.name) y → ¬ changed y) :
    Arrived env regular r s' op := by
  intro ty sh hty hsh
  obtain ⟨w, hw, hverified⟩ := h ty sh hty hsh
  have hdistinct := Layout.shapeWithin_distinct hsep hsh
  exact ⟨w, hw.keeps hkeeps fun x hx => hchanged x (hdistinct.under x hx), hverified⟩

theorem remainderOf_draws (hc : c.Plain) {kind : OpKind} :
    Draws c regular slice (remainderOf (Target.id slice) kind) fun v => regular → v.isLeaf = true := by
  have hstored : Draws c regular slice
      (Target.method Target.beginCell "store_slice" [Target.id slice]) fun v => v.isLeaf = true :=
    Draws.stored hc draws_id
  cases kind with
  | cell format =>
    exact (Draws.method hc (by decide) hstored fun _ _ _ => isLeaf_of_end_cell).mono fun _ hv _ => hv
  | builder format => exact hstored.mono fun _ hv _ => hv
  | _ => exact draws_id

/-- What takes everything that is left is neither a record nor an address. -/
theorem loadedField_of_isRemainder {op : Op} (hkind : op.kind.isRemainder = true)
    (hv : regular → v.isLeaf = true) : LoadedField table regular op v := by
  have hstruct : op.kind.isStruct = false := by
    cases hop : op.kind <;> simp_all [OpKind.isRemainder, OpKind.isStruct]
  have haddress : op.kind ≠ .address := by
    intro heq
    simp [heq, OpKind.isRemainder] at hkind
  exact (loadedField_iff hstruct).2 (.inr ((loaded_iff_isLeaf hstruct haddress).2 hv))

/-- A field is loaded into its variables. -/
theorem loadField_arrives (hc : c.Proper) {op : Op} {ty : TypeRef} {sh : Shape}
    (hrun : loadField (Target.id slice) op sh.pattern env d = .ok stmts d')
    (hop : Decodes c env regular r op) (hty : r.fields.lookup op.name = some ty) {base : String}
    (hsh : Layout.shape env.program.types ty base = .ok sh) (hnodup : sh.names.Nodup)
    (hslice : slice ∉ sh.names) (hs : Slicing regular s slice)
    (h : Yields (block c stmts) s q s') :
    q = none ∧ s.Keeps (fun y => y = slice ∨ y ∈ sh.names) s' ∧ Slicing regular s' slice ∧
      ∃ w, Carries s' sh w ∧ Verified env.program.types regular ty w := by
  -- evaluating the field and binding it, whatever follows
  have hvar : ∀ {value : Target.Expr} {more : List Target.Stmt},
      Draws c regular slice value (LoadedField env.program.types regular op) →
      Yields (block c (Target.var sh.pattern value :: more)) s q s' →
      ∃ t, s.Keeps (fun y => y = slice ∨ y ∈ sh.names) t ∧ Slicing regular t slice ∧
        (∃ w, Carries t sh w ∧ Verified env.program.types regular ty w) ∧
        Yields (block c more) t q s' := by
    intro value more hdraws hblock
    obtain ⟨v, s₁, hv, s₂, hbind, hmore⟩ := yields_block_var.1 hblock
    obtain ⟨hkeeps₁, hs₁, hloaded⟩ := hdraws s v s₁ hs hv
    obtain ⟨hkeeps₂, hw⟩ := (hop.verified ty v hty hloaded).rebinds hsh hnodup hbind
    exact ⟨s₂, (hkeeps₁.mono fun y hy => .inl hy).trans (hkeeps₂.mono fun y hy => .inr hy),
      hs₁.keeps hkeeps₂ hslice, hw, hmore⟩
  by_cases hkind : op.kind.isRemainder = true
  · simp only [loadField, hkind, if_true, run_bind, run_pure] at hrun
    obtain ⟨empty, _, hhelper, rfl, -⟩ := hrun
    obtain rfl := helper_eq_ok hhelper
    have hdraws : Draws c regular slice (remainderOf (Target.id slice) op.kind)
        (LoadedField env.program.types regular op) :=
      (remainderOf_draws hc.plain).mono fun v hv => loadedField_of_isRemainder hkind hv
    obtain ⟨t, hkeeps, ⟨x, hx, -⟩, ⟨w, hw, hverified⟩, hassign⟩ := hvar hdraws h
    rw [Target.assign, yields_block_expr] at hassign
    obtain ⟨y, t', hy, hnil⟩ := hassign
    obtain ⟨rfl, rfl⟩ := yields_block_nil.1 hnil
    obtain ⟨t₁, hempty, hbind⟩ := yields_assign.1 hy
    rw [yields_call_means .nil] at hempty
    obtain ⟨helper, hof, hhelps⟩ := hc.helps hempty (by decide) (by decide)
    obtain rfl : Helper.emptySlice = helper := by
      have hname : Helper.ofName? Helper.emptySliceName = some .emptySlice := by decide
      simpa [hname] using hof
    obtain ⟨hasm, rfl⟩ := (yields_asm hhelps).1 hempty
    obtain rfl : Val.slice Cell.empty.parse = y := by simpa [asm_emptySlice] using hasm
    rw [Target.id, yields_bind_set hx] at hbind
    subst hbind
    have hkeeps' : t₁.Keeps (· = slice) (t₁.set slice (.slice Cell.empty.parse)) :=
      State.frames_set.keeps
    refine ⟨rfl, hkeeps.trans (hkeeps'.mono fun y hy => .inl hy),
      ⟨.slice Cell.empty.parse, by simp, fun _ => rfl⟩, w, ?_, hverified⟩
    exact hw.keeps hkeeps' fun y hy heq => hslice (heq ▸ hy)
  · simp only [loadField, hkind, Bool.false_eq_true, if_false] at hrun
    obtain ⟨field, kind, optional⟩ := op
    obtain ⟨value, hdraws, rfl⟩ : ∃ value, Draws c regular slice value
        (LoadedField env.program.types regular ⟨field, kind, optional⟩) ∧
        stmts = [Target.var sh.pattern value] := by
      cases optional with
      | true =>
        simp only [if_true, run_bind, run_pure] at hrun
        obtain ⟨value, _, hvalue, rfl, -⟩ := hrun
        exact ⟨value, loadOptional_draws hc hvalue hop.loads, rfl⟩
      | false =>
        simp only [Bool.false_eq_true, if_false, run_bind, run_pure] at hrun
        obtain ⟨value, _, hvalue, rfl, -⟩ := hrun
        exact ⟨value, loadOp_draws hc hvalue hop.loads, rfl⟩
    obtain ⟨t, hkeeps, ht, hw, hnil⟩ := hvar hdraws h
    obtain ⟨rfl, rfl⟩ := yields_block_nil.1 hnil
    exact ⟨rfl, hkeeps, ht, hw⟩

/-! ### Cells -/

/-- The fields of a cell are loaded in order. -/
theorem readOps_arrives (hc : c.Proper) (hsep : env.program.types.Separate) {n : Nat} {ops : List Op}
    (hrun : readOps r (Target.id (sliceName n)) ops env d = .ok stmts d') (hapart : Apart ops)
    (hops : ∀ op ∈ ops, Decodes c env regular r op) (hs : Slicing regular s (sliceName n))
    (h : Yields (block c stmts) s q s') :
    q = none ∧ s.Keeps (fun y => y = sliceName n ∨ FieldVar ops y) s' ∧
      Slicing regular s' (sliceName n) ∧ ∀ op ∈ ops, Arrived env regular r s' op := by
  induction ops generalizing d s stmts with
  | nil =>
    obtain ⟨rfl, rfl⟩ := run_pure.1 hrun
    obtain ⟨rfl, rfl⟩ := yields_block_nil.1 h
    exact ⟨rfl, .refl _, hs, by simp⟩
  | cons op ops ih =>
    rw [List.forall_mem_cons] at hops
    rw [← List.singleton_append] at hapart
    simp only [readOps, run_bind, run_pure] at hrun
    obtain ⟨_, _, hpattern, own, d₁, hown, below, _, hbelow, rfl, rfl⟩ := hrun
    obtain ⟨rfl, ty, sh, hty, hsh, rfl⟩ := fieldPattern_eq_ok hpattern
    have hdistinct := Layout.shapeWithin_distinct hsep hsh
    have hslice : sliceName n ∉ sh.names := fun hmem =>
      (hdistinct.under _ hmem).ne_sliceName n rfl
    obtain ⟨q₁, t, hfield, hrest⟩ := yields_block_append.1 h
    obtain ⟨rfl, hkeeps, ht, w, hw, hverified⟩ :=
      loadField_arrives hc hown hops.1 hty hsh hdistinct.nodup hslice hs hfield
    obtain ⟨rfl, hkeeps', hs', harrived⟩ := ih hbelow hapart.right hops.2 ht hrest
    refine ⟨rfl, (hkeeps.mono ?_).trans (hkeeps'.mono ?_), hs', ?_⟩
    · exact fun y hy => hy.imp_right fun hmem => ⟨op, List.mem_cons_self, hdistinct.under y hmem⟩
    · rintro y (hy | ⟨o, ho, hunder⟩)
      · exact .inl hy
      · exact .inr ⟨o, List.mem_cons_of_mem _ ho, hunder⟩
    · rw [List.forall_mem_cons]
      refine ⟨?_, harrived⟩
      have hfirst : Arrived env regular r t op := by
        intro ty' sh' hty' hsh'
        obtain rfl : ty = ty' := by simpa [hty] using hty'
        obtain rfl : sh = sh' := by simpa [hsh] using hsh'
        exact ⟨w, hw, hverified⟩
      -- variables of other fields are not touched
      refine hfirst.keeps hsep hkeeps' ?_
      rintro y hy (rfl | ⟨o, ho, hunder⟩)
      · exact hy.ne_sliceName n rfl
      · exact hapart.not_fieldVar List.mem_cons_self hy ⟨o, ho, hunder⟩

/-- The first fields of a chain of cells are loaded, each further cell from behind the last
reference. -/
theorem readChain_arrives (hc : c.Proper) (hsep : env.program.types.Separate) {limit n : Nat}
    {chain : Chain} (hrun : readChain r limit n chain env d = .ok stmts d')
    (hapart : Apart (chain.ops.take limit))
    (hops : ∀ op ∈ chain.ops.take limit, Decodes c env regular r op)
    (hs : Slicing regular s (sliceName n)) (h : Yields (block c stmts) s q s') :
    q = none ∧ s.Keeps (ReadVar n (chain.ops.take limit)) s' ∧
      Slicing regular s' (sliceName n) ∧
      ∀ op ∈ chain.ops.take limit, Arrived env regular r s' op := by
  induction chain generalizing limit n d d' s stmts with
  | last ops =>
    rw [Chain.ops_last] at hapart hops ⊢
    obtain ⟨rfl, hkeeps, hs', harrived⟩ := readOps_arrives hc hsep hrun hapart hops hs h
    exact ⟨rfl, hkeeps.mono fun y hy => hy.imp_left fun heq => ⟨n, le_refl n, heq⟩, hs', harrived⟩
  | link ops next ih =>
    rw [Chain.ops_link, List.take_append] at hapart hops ⊢
    simp only [readChain, run_bind] at hrun
    obtain ⟨own, d₁, hown, hrun⟩ := hrun
    rw [List.forall_mem_append] at hops
    split at hrun
    · next hlimit =>
      obtain ⟨rfl, rfl⟩ := run_pure.1 hrun
      have hzero : limit - ops.length = 0 := by omega
      simp only [hzero, List.take_zero, List.append_nil] at hapart ⊢
      obtain ⟨rfl, hkeeps, hs', harrived⟩ := readOps_arrives hc hsep hown hapart hops.1 hs h
      exact ⟨rfl, hkeeps.mono fun y hy => hy.imp_left fun heq => ⟨n, le_refl n, heq⟩, hs', harrived⟩
    · simp only [run_bind, run_pure] at hrun
      obtain ⟨below, _, hbelow, rfl, rfl⟩ := hrun
      rw [List.append_assoc] at h
      obtain ⟨q₁, t, hfirst, hrest⟩ := yields_block_append.1 h
      obtain ⟨rfl, hkeeps₁, ht, harrived₁⟩ :=
        readOps_arrives hc hsep hown hapart.left hops.1 hs hfirst
      -- the next cell is read in a slice of its own
      rw [List.singleton_append] at hrest
      obtain ⟨x, t', hkeeps₂, ht', hx, hrest⟩ :=
        (loadReference_draws hc.plain).of_var ht hrest
      generalize hu : t'.set (sliceName (n + 1)) x = u at hrest
      have hkeeps₃ : t'.Keeps (· = sliceName (n + 1)) u := hu ▸ State.frames_set.keeps
      have hslicing : Slicing regular u (sliceName (n + 1)) := ⟨x, by simp [← hu], fun _ => hx⟩
      obtain ⟨rfl, hkeeps₄, -, harrived₂⟩ := ih hbelow hapart.right hops.2 hslicing hrest
      have hne : sliceName n ≠ sliceName (n + 1) := fun heq => absurd (sliceName_inj heq) (by omega)
      have hkept : ¬ ReadVar (n + 1) (next.ops.take (limit - ops.length)) (sliceName n) :=
        not_readVar_sliceName (Nat.lt_succ_self n)
      refine ⟨rfl, ?_, (ht'.keeps hkeeps₃ hne).keeps hkeeps₄ hkept, ?_⟩
      · have hown : ∀ y, y = sliceName n ∨ FieldVar (ops.take limit) y → ReadVar n (ops.take limit) y :=
          fun y hy => hy.imp_left fun heq => ⟨n, le_refl n, heq⟩
        refine (hkeeps₁.mono fun y hy => (hown y hy).left).trans ?_
        refine (hkeeps₂.mono fun y hy => hy ▸ readVar_sliceName (le_refl n)).trans ?_
        exact (hkeeps₃.mono fun y hy => hy ▸ readVar_sliceName (Nat.le_succ n)).trans
          (hkeeps₄.mono fun y hy => hy.right)
      · rw [List.forall_mem_append]
        refine ⟨fun op hop => ?_, harrived₂⟩
        have harrived := (harrived₁ op hop).keeps hsep hkeeps₂ fun y hy => hy.ne_sliceName n
        exact (harrived.keeps hsep hkeeps₃ fun y hy => hy.ne_sliceName (n + 1)).keeps hsep hkeeps₄
          fun y hy => hapart.not_readVar hop hy

end CellCompiler
