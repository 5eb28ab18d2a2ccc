import CellCompiler.Proofs.Codec.Incoming
import CellCompiler.Proofs.Codec.RoundTrip
import CellCompiler.Proofs.Generate.Entering
import CellCompiler.Proofs.Plan.Soundness

/-!
# Loading records checks addresses

Whatever a record is loaded from, all addresses in it have been checked by the time the codec ends.

* `reader_verifies` is about the function that loads a record, also after a bounce, and
  `asOptional_verifies` about the one that boxes it;
* `Genuine` is what is known of finished modules, `Loaders` collects what is shown for a record, and
  `Genuine.loaders` shows it for all, by induction on how records are nested.
-/

namespace CellCompiler

open Generate Machine
open Plan (Op OpKind OpOf)
open Layout (Shape)

variable {c : Code} {env : Env} {d d' : Draft} {table : TypeTable} {regular : Prop} {r : Record}
  {s s' : State} {v w : Val} {slice : String} {q : Option Val}

/-! ### Records -/

theorem readHeader_keeps (hc : c.Plain) {plan : Plan} (hs : Slicing regular s "sc_0")
    (h : Yields (block c (readHeader plan)) s q s') :
    q = none ∧ s.Keeps (· = "sc_0") s' ∧ Slicing regular s' "sc_0" := by
  cases hheader : plan.header with
  | none =>
    simp only [readHeader, hheader] at h
    obtain ⟨rfl, rfl⟩ := yields_block_nil.1 h
    exact ⟨rfl, .refl _, hs⟩
  | some header =>
    simp only [readHeader, hheader, Target.throwUnless] at h
    obtain ⟨_, t, hcheck, hnil⟩ := yields_block_expr.1 h
    obtain ⟨rfl, rfl⟩ := yields_block_nil.1 hnil
    rw [Target.call, yields_call] at hcheck
    obtain ⟨_, t₁, hargs, hthrow⟩ := hcheck
    simp only [yields_evalAll_cons, yields_evalAll_nil, Target.eq, yields_binary, Target.int,
      yields_int] at hargs
    obtain ⟨_, _, ⟨-, rfl⟩, _, ⟨_, _, ⟨n, _, hload, _, ⟨-, rfl⟩, -⟩, _, ⟨-, rfl⟩, rfl⟩, rfl⟩ := hargs
    obtain ⟨-, rfl⟩ := (yields_builtin hc (by decide)).1 hthrow
    have hread : Draws c regular "sc_0" (Target.modify (Target.id "sc_0") "load_uint"
        [Target.int header.bits.toNat]) fun v => regular → v.isLeaf = true :=
      draws_leaf hc (by decide) fun _ => .cons means_int .nil
    obtain ⟨hkeeps, ht, -⟩ := hread _ n _ hs hload
    exact ⟨rfl, hkeeps, ht⟩

/-- Fields that lie in their variables make up the parts of a record. -/
theorem carries_fields {fields : List Field} {parts : List Shape}
    (hparts : List.Forall₂ (fun (f : Field) part =>
      Layout.shape table f.ty (Name.tick "v" f.name) = .ok part) fields parts)
    (h : ∀ f ∈ fields, ∀ sh, Layout.shape table f.ty (Name.tick "v" f.name) = .ok sh →
      ∃ w, Carries s sh w ∧ Verified table regular f.ty w) :
    ∃ ws, CarriesAll s parts ws ∧
      List.Forall₂ (fun (f : Field) w => Verified table regular f.ty w) fields ws := by
  induction hparts with
  | nil => exact ⟨[], trivial, .nil⟩
  | @cons f part fields parts hpart _ ih =>
    rw [List.forall_mem_cons] at h
    obtain ⟨w, hw, hverified⟩ := h.1 part hpart
    obtain ⟨ws, hws, hall⟩ := ih h.2
    exact ⟨w :: ws, ⟨hw, hws⟩, .cons hverified hall⟩

/-- What is known of a record whose codecs check addresses. -/
structure Legible (c : Code) (env : Env) (regular : Prop) (decl : TypeDecl) (r : Record) : Prop where
  record : RecordOf env decl r
  separate : decl.Separate
  flat : r.plan.root.ops = r.plan.ops
  /-- One operation per field. -/
  names_eq : r.plan.ops.map (·.name) = decl.fields.map (·.name)
  decodes : ∀ op ∈ r.plan.ops, Decodes c env regular r op

section Records

variable {decl : TypeDecl} {x : Val}

/-- Every field that is loaded has arrived. -/
theorem Legible.arrived (h : Legible c env regular decl r) {bounced : Bool} {limit : Nat}
    (hlimit : limit = if bounced then r.bounceCount else r.plan.ops.length)
    (harrived : ∀ op ∈ r.plan.root.ops.take limit, Arrived env regular r s op) :
    ∀ f ∈ Layout.visibleFields decl bounced, ∀ sh,
      Layout.shape env.program.types f.ty (Name.tick "v" f.name) = .ok sh →
      ∃ w, Carries s sh w ∧ Verified env.program.types regular f.ty w := by
  intro f hf sh hsh
  have hsub : f ∈ decl.fields := by
    unfold Layout.visibleFields at hf
    split at hf
    · exact List.mem_of_mem_take hf
    · exact hf
  have hnames : (r.plan.root.ops.take limit).map (·.name) =
      (Layout.visibleFields decl bounced).map (·.name) := by
    rw [h.flat, List.map_take, h.names_eq, ← List.map_take, Layout.visibleFields, hlimit]
    cases bounced with
    | true => simp [h.record.bounceCount_eq]
    | false =>
      have hlength : r.plan.ops.length = decl.fields.length := by
        simpa using congrArg List.length h.names_eq
      simp [hlength]
  have hname : f.name ∈ (Layout.visibleFields decl bounced).map (·.name) := List.mem_map_of_mem hf
  obtain ⟨op, hop, hopname⟩ := List.mem_map.1 (hnames ▸ hname)
  have hlookup : r.fields.lookup op.name = some f.ty := by
    have hnodup : (r.fields.map Prod.fst).Nodup := by
      rw [h.record.fields_eq, List.map_map]
      exact h.separate.nodup
    rw [hopname]
    refine Dict.get?_of_mem_entries (d := ⟨r.fields⟩) hnodup ?_
    rw [h.record.fields_eq]
    exact List.mem_map_of_mem hsub
  rw [← hopname] at hsh
  exact harrived op hop f.ty sh hlookup hsh

theorem Legible.apart (h : Legible c env regular decl r) : Apart r.plan.root.ops := by
  rw [h.flat]
  refine ⟨h.names_eq ▸ h.separate.nodup, fun op hop => ?_⟩
  have hname : op.name ∈ decl.fields.map (·.name) := h.names_eq ▸ List.mem_map_of_mem hop
  obtain ⟨f, hf, hfname⟩ := List.mem_map.1 hname
  exact hfname ▸ h.separate.plain f hf

/-- **The function that loads a record checks its addresses**, also after a bounce. -/
theorem reader_verifies (hc : c.Proper) (hsep : env.program.types.Separate)
    (hlegible : Legible c env regular decl r) {name : String} {bounced inline : Bool}
    (honly : Only c env (readerItem r name bounced inline)) (hname : name ∉ primitives)
    (h : Yields (call c name [x]) s v s') (hx : regular → x.isLeaf = true) :
    ∃ x' w, v = .tensor [x', w] ∧ (regular → x'.isLeaf = true) ∧
      VerifiedFields env.program.types regular (Layout.visibleFields decl bounced) w := by
  obtain ⟨d, item, d', hrun, hget⟩ := honly
  simp only [readerItem, Record.shape, table, run_bind, run_read, run_pure, run_ofExcept] at hrun
  obtain ⟨sh, _, ⟨_, _, ⟨_, _, ⟨rfl, rfl⟩, rfl, rfl⟩, hsh, rfl⟩, body, _, hbody, rfl, rfl⟩ := hrun
  obtain ⟨other, hother⟩ := h.called hname
  obtain rfl := hget name (by simp) other hother
  have hhas : c.Has name ["sc_0"] _ := ⟨_, hother, by simp⟩
  obtain ⟨-, q, t, hyields, rfl, -⟩ := hhas.yields.1 h
  have hslice : Slicing regular (s.enter ["sc_0"] [x]) "sc_0" :=
    ⟨x, by simp [State.enter, State.get?, Dict.ofList], hx⟩
  rw [List.append_assoc] at hyields
  obtain ⟨_, u₁, hheader, hyields⟩ := yields_block_append.1 hyields
  obtain ⟨rfl, -, hslice₁⟩ := readHeader_keeps hc.plain hslice hheader
  obtain ⟨_, u₂, hchain, hyields⟩ := yields_block_append.1 hyields
  have hdecodes : ∀ op ∈ r.plan.root.ops, Decodes c env regular r op := by
    rw [hlegible.flat]
    exact hlegible.decodes
  have hsplit := hlegible.apart
  rw [← List.take_append_drop (if bounced then r.bounceCount else r.plan.ops.length)
    r.plan.root.ops] at hsplit
  obtain ⟨rfl, -, ⟨x', hx', hleaf⟩, harrived⟩ := readChain_arrives hc hsep hbody hsplit.left
    (fun op hop => hdecodes op (List.mem_of_mem_take hop)) hslice₁ hchain
  have hfields := hlegible.arrived rfl harrived
  have hvisible : r.visible bounced =
      (Layout.visibleFields decl bounced).map fun f => (f.name, f.ty) := by
    rw [Record.visible, Layout.visibleFields, hlegible.record.fields_eq,
      hlegible.record.bounceCount_eq]
    cases bounced <;> simp
  rw [hvisible] at hsh
  obtain ⟨w, hw, hverified⟩ : ∃ w, Means c u₂ (recordValue sh) w ∧
      VerifiedFields env.program.types regular (Layout.visibleFields decl bounced) w := by
    rcases Layout.recordBy_eq_ok.1 hsh with ⟨hnil, rfl⟩ | ⟨hne, parts, rfl, hparts⟩
    · rw [List.map_eq_nil_iff] at hnil
      rw [hnil]
      exact ⟨_, means_emptyTuple hc.plain, fun _ => rfl⟩
    · have hproduct : (Shape.product parts).isProduct = true := by
        cases parts with
        | nil => exact absurd (List.forall₂_nil_right_iff.1 hparts) hne
        | cons _ _ => rfl
      rw [List.forall₂_map_left_iff] at hparts
      obtain ⟨ws, hws, hall⟩ := carries_fields hparts hfields
      rw [recordValue, if_pos hproduct, Shape.pattern]
      refine ⟨_, .tensor hws.means, (verifiedFields_iff ?_).2 ⟨ws, rfl, hall⟩⟩
      rintro hnil
      simp [hnil] at hne
  have hresult := Means.tensor (.cons (means_id hx') (.cons hw .nil))
  obtain ⟨rfl, rfl⟩ := (yields_ret_means hresult).1 hyields
  exact ⟨x', w, rfl, hleaf, hverified⟩

/-- The function that boxes a record keeps its addresses checked. -/
theorem asOptional_verifies (hc : c.Proper) (hsep : env.program.types.Separate)
    (hdecl : env.program.types.types.get? decl.name = some decl) (hstruct : decl.isStruct = true)
    {view : RecordView} {sh : Shape} (hview : ViewOf env decl view sh)
    (honly : Only c env view.asOptionalItem) (h : Yields (call c (Name.asOptional decl.name) [x]) s w s')
    (hx : Verified env.program.types regular (.plain decl.name) x) :
    Verified env.program.types regular (.named decl.name true) w := by
  obtain ⟨d, item, d', hrun, hget⟩ := honly
  obtain ⟨other, hother⟩ := h.called (not_mem_primitives_of_isEmitted (Name.isEmitted_ofType _ _))
  have hempty : view.isEmpty = decl.fields.isEmpty := by rw [RecordView.isEmpty, hview.decl_eq]
  have hname : view.name = decl.name := by rw [RecordView.name, hview.decl_eq]
  simp only [RecordView.asOptionalItem, RecordView.conversion, RecordView.bindLeaves, hempty, hname,
    hview.leaves_eq, hview.pattern_eq, List.length_map] at hrun
  have hvar : (s.enter ["v"] [x]).get? "v" = some x := by simp [State.enter, State.get?, Dict.ofList]
  by_cases hfields : decl.fields = []
  · simp only [hfields, List.isEmpty_nil, if_true, run_bind, run_pure] at hrun
    obtain ⟨_, _, ⟨rfl, -⟩, rfl, -⟩ := hrun
    obtain rfl := hget (Name.asOptional decl.name) (by simp) other hother
    have hhas : c.Has (Name.asOptional decl.name) ["v"] _ := ⟨_, hother, by simp⟩
    obtain ⟨-, q, t, hyields, rfl, -⟩ := hhas.yields.1 h
    obtain ⟨rfl, rfl⟩ := (yields_ret_means (means_id hvar)).1 hyields
    have hleaf := hx.fields hdecl hstruct
    rw [hfields] at hleaf
    exact .empty hdecl hstruct hfields hleaf
  · have hnonempty : decl.fields.isEmpty = false := by simpa using hfields
    simp only [hnonempty, Bool.false_eq_true, if_false, run_bind, run_pure] at hrun
    obtain ⟨create, d₁, hhelper, _, _, ⟨rfl, -⟩, rfl, -⟩ := hrun
    obtain rfl := helper_eq_ok hhelper
    obtain rfl := hget (Name.asOptional decl.name) (by simp) other hother
    have hhas : c.Has (Name.asOptional decl.name) ["v"] _ := ⟨_, hother, by simp⟩
    obtain ⟨-, q, t, hyields, rfl, -⟩ := hhas.yields.1 h
    obtain ⟨_, _, hv, t₁, hbind, hret⟩ := yields_block_var.1 hyields
    obtain ⟨rfl, rfl⟩ := (means_id hvar).iff.1 hv
    have hdistinct := Layout.shapeWithin_distinct hsep hview.shape_eq
    obtain ⟨-, u, hu, hverified⟩ := hx.rebinds hview.shape_eq hdistinct.nodup hbind
    obtain ⟨vs, hvs, hflatten⟩ := hu.leaves
    have hargs : Means c t₁ (.tensor (sh.names.map Target.id)) (.tensor vs) :=
      yields_tensor.2 ⟨_, yields_evalAll_idents hvs, rfl⟩
    rw [yields_block_ret] at hret
    obtain ⟨w, hcreate, rfl⟩ := hret
    rw [yields_call_means (.cons hargs .nil)] at hcreate
    obtain ⟨hlt, hhelps⟩ := helps_tupleCreate hc hcreate
    obtain ⟨hasm, rfl⟩ := (yields_asm hhelps).1 hcreate
    obtain ⟨-, rfl⟩ := (asm_tuple_eq_ok hlt).1 hasm
    have hboxed := Verified.present hdecl hstruct hverified
    obtain ⟨us, rfl, -⟩ := (verifiedFields_iff hfields).1 (hverified.fields hdecl hstruct)
    simpa [Val.flattenAll, Val.flatten, hflatten, Val.boxed] using hboxed

end Records

/-! ### Wrappers -/

section Wrappers

variable {P Q : Val → Prop} {type : String}

theorem Delivers.draws {name : String} (h : Delivers c regular name P) (hname : name ∉ primitives) :
    Draws c regular slice (Target.modify (Target.id slice) name []) P :=
  draws_function hname fun _ _ _ _ _ hcall hx => h.eq hcall hx

/-- The function under the name of an emitted one is that one. -/
theorem Only.get? {g : Gen Target.Item} (h : Only c env g) {name : String} {args : List Val}
    (hcall : Yields (call c name args) s v s') (hname : Name.isEmitted name = true) :
    ∃ d item d', g env d = .ok item d' ∧
      (item.name? = some name → c.functions.get? name = some item) := by
  obtain ⟨d, item, d', hrun, hget⟩ := h
  obtain ⟨other, hother⟩ := hcall.called (not_mem_primitives_of_isEmitted hname)
  refine ⟨d, item, d', hrun, fun hitem => ?_⟩
  obtain rfl := hget name hitem other hother
  exact hother

theorem readerNotMut_verifies (hr : r.name = type) {inline : Bool} (honly : Only c env (readerNotMutItem r inline))
    (hreader : Delivers c regular (Name.reader type) P) :
    Gives c (Name.readerNotMut type) (fun x => regular → x.isLeaf = true) P := by
  subst hr
  intro s x w s' h hx
  obtain ⟨d, item, d', hrun, hget⟩ := honly.get? h (Name.isEmitted_ofType _ _)
  simp only [readerNotMutItem, used, run_bind, run_modify, run_pure] at hrun
  obtain ⟨shape, _, -, _, _, ⟨_, _, -, rfl, -⟩, rfl, -⟩ := hrun
  have hhas : c.Has (Name.readerNotMut r.name) ["sc_0"] _ := ⟨_, hget (by simp), by simp⟩
  obtain ⟨-, q, t, hbody, rfl, -⟩ := hhas.yields.1 h
  have hslice : Slicing regular (s.enter ["sc_0"] [x]) "sc_0" :=
    ⟨x, by simp [State.enter, State.get?, Dict.ofList], hx⟩
  have hdraws : Draws c regular "sc_0" _ P :=
    hreader.draws (not_mem_primitives_of_isEmitted (Name.isEmitted_ofType _ _))
  obtain ⟨w, u, -, ⟨x', hx', -⟩, hw, hbody⟩ := hdraws.of_var hslice hbody
  obtain ⟨_, t', hend, hret⟩ := yields_block_expr.1 hbody
  have hslice' : Means c (u.set "v" w) (Target.id "sc_0") x' := means_id (by simp [hx'])
  rw [yields_method_means (.cons hslice' .nil)] at hend
  have hvar : t'.get? "v" = some w := by
    rw [State.get?, hend.frame_eq, ← State.get?]
    simp
  obtain ⟨rfl, -⟩ := (yields_ret_means (means_id hvar)).1 hret
  exact hw

theorem readerOpt_verifies (hc : c.Plain) (hr : r.name = type) (honly : Only c env (readerOptItem r))
    (hreader : Delivers c regular (Name.reader type) P)
    (hbox : Gives c (Name.asOptional type) P Q) (hnull : Q .null) :
    Delivers c regular (Name.readerOpt type) Q := by
  subst hr
  intro s x v s' h hx
  obtain ⟨d, item, d', hrun, hget⟩ := honly.get? h (Name.isEmitted_ofType _ _)
  simp only [readerOptItem, used, run_bind, run_modify, run_pure] at hrun
  obtain ⟨_, _, ⟨_, _, -, rfl, -⟩, _, _, ⟨_, _, -, rfl, -⟩, rfl, -⟩ := hrun
  have hhas : c.Has (Name.readerOpt r.name) ["sc"] _ := ⟨_, hget (by simp), by simp⟩
  obtain ⟨-, q, t, hbody, rfl, -⟩ := hhas.yields.1 h
  have hslice : Slicing regular (s.enter ["sc"] [x]) "sc" :=
    ⟨x, by simp [State.enter, State.get?, Dict.ofList], hx⟩
  obtain ⟨flag, t₁, hflag, hit, -, hbranch⟩ := yields_block_ifElse.1 hbody
  have hread : Draws c regular "sc" (Target.modify (Target.id "sc") "load_int" [Target.int 1])
      fun v => regular → v.isLeaf = true := draws_leaf hc (by decide) fun _ => .cons means_int .nil
  obtain ⟨-, hslice₁, -⟩ := hread _ flag t₁ hslice hflag
  cases hit with
  | false =>
    obtain ⟨x', hx', hleaf⟩ := hslice₁
    have hresult : Means c t₁ (.tensor [Target.id "sc", Target.null]) (.tensor [x', .null]) :=
      .tensor (.cons (means_id hx') (.cons (means_null hc) .nil))
    obtain ⟨rfl, -⟩ := (yields_ret_means hresult).1 hbranch
    exact ⟨x', .null, rfl, hleaf, hnull⟩
  | true =>
    have hdraws : Draws c regular "sc" _ P :=
      hreader.draws (not_mem_primitives_of_isEmitted (Name.isEmitted_ofType _ _))
    obtain ⟨w, t₂, -, ⟨x', hx', hleaf⟩, hw, hret⟩ := hdraws.of_var hslice₁ hbranch
    obtain ⟨result, hresult, rfl⟩ := yields_block_ret.1 hret
    obtain ⟨vs, hvs, rfl⟩ := yields_tensor.1 hresult
    have hslice₂ : Means c (t₂.set "v" w) (Target.id "sc") x' := means_id (by simp [hx'])
    have hvar : Means c (t₂.set "v" w) (Target.id "v") w := means_id (by simp)
    simp only [yields_evalAll_cons, yields_evalAll_nil, hslice₂.iff] at hvs
    obtain ⟨_, _, ⟨rfl, rfl⟩, _, ⟨boxed, _, hboxed, _, ⟨rfl, rfl⟩, rfl⟩, rfl⟩ := hvs
    rw [yields_call_means (.cons hvar .nil)] at hboxed
    exact ⟨_, boxed, rfl, hleaf, hbox _ _ _ _ hboxed hw⟩

theorem readerCellOpt_verifies (hc : c.Plain) (hr : r.name = type) (honly : Only c env (readerCellOptItem r))
    (hreader : Gives c (Name.readerNotMut type) (fun x => regular → x.isLeaf = true) P)
    (hbox : Gives c (Name.asOptional type) P Q) (hnull : Q .null) :
    Gives c (Name.readerCellOpt type) (fun _ => True) Q := by
  subst hr
  intro s x w s' h _
  obtain ⟨d, item, d', hrun, hget⟩ := honly.get? h (Name.isEmitted_ofType _ _)
  simp only [readerCellOptItem, used, run_bind, run_modify, run_pure] at hrun
  obtain ⟨_, _, ⟨_, _, -, rfl, -⟩, _, _, ⟨_, _, -, rfl, -⟩, rfl, -⟩ := hrun
  have hhas : c.Has (Name.readerCellOpt r.name) ["cl"] _ := ⟨_, hget (by simp), by simp⟩
  obtain ⟨-, q, t, hbody, rfl, -⟩ := hhas.yields.1 h
  generalize hu : s.enter ["cl"] [x] = u at hbody
  have hvar : u.get? "cl" = some x := by simp [← hu, State.enter, State.get?, Dict.ofList]
  rw [yields_ifThen_means (means_isNull hc (means_id hvar))] at hbody
  cases hnullx : x.isNull with
  | true =>
    rw [hnullx] at hbody
    obtain ⟨rfl, -⟩ := (yields_ret_means (means_null hc)).1 hbody
    exact hnull
  | false =>
    rw [hnullx] at hbody
    obtain ⟨y, u₁, hparse, u₂, hbind, hret⟩ := yields_block_var.1 hbody
    rw [Target.beginParse, yields_method_means (.cons (means_id hvar) .nil),
      yields_builtin hc (by decide)] at hparse
    rw [Target.id, yields_bind_ident, State.assign_of_declare] at hbind
    subst hbind
    have hslice : Means c (u₁.set "sc" y) (Target.id "sc") y := means_id (by simp)
    obtain ⟨w, hw, rfl⟩ := yields_block_ret.1 hret
    rw [Target.call, yields_call] at hw
    obtain ⟨_, u₃, hargs, hboxed⟩ := hw
    simp only [yields_evalAll_cons, yields_evalAll_nil,
      yields_call_means (.cons hslice .nil)] at hargs
    obtain ⟨z, _, hread, _, ⟨rfl, rfl⟩, rfl⟩ := hargs
    exact hbox _ _ _ _ hboxed (hreader _ _ _ _ hread fun _ => isLeaf_of_begin_parse hparse.1)

end Wrappers

/-! ### All records -/

/-- The code of a program with the plans of the planner. It may lack functions, but under the names of
codecs and conversions it has no others. -/
structure Genuine (c : Code) (env : Env) : Prop where
  proper : c.Proper
  wellNamed : env.program.types.WellNamed
  separate : env.program.types.Separate
  planned : Plans.PlannedProgram env.program.types env.program.plans
  /-- No record holds itself. -/
  acc : ∀ name decl, env.program.types.types.get? name = some decl → decl.isStructLike = true →
    Acc env.program.types.Embeds name
  conversions : ∀ decl ∈ env.program.types.structs, Conversions (Only c env) env decl

section Genuine

variable {name : String} {decl : TypeDecl}

/-- Only a record can be put behind a reference. -/
theorem Plan.OpKind.exists_struct_of_behindReference {kind : OpKind} {type : String} {byRef : Bool}
    (h : kind.behindReference = .struct type byRef) : ∃ byRef', kind = .struct type byRef' := by
  cases kind with
  | struct name inner =>
    obtain ⟨rfl, -⟩ := OpKind.struct.inj h
    exact ⟨inner, rfl⟩
  | _ => exact ⟨byRef, h⟩

theorem Genuine.legible (h : Genuine c env)
    (hdecl : env.program.types.types.get? name = some decl) (hreaders : Readers (Only c env) env decl r)
    (hloads : ∀ f ∈ decl.fields, ∀ type optional inner, f.ty = .named type optional →
      env.program.types.types.get? type = some inner → inner.isStructLike = true →
      Loads c env.program.types regular type) : Legible c env regular decl r := by
  obtain ⟨hsound, hops⟩ := hreaders.record.ops h.wellNamed h.planned hdecl
  have hsep := h.separate decl (Dict.mem_values_of_get? hdecl)
  have hopnames : List.Forall₂ (fun (f : Field) op' => op'.name = f.name) decl.fields r.plan.ops :=
    hops.imp fun f op' ⟨op, hop, hsettles⟩ => hsettles.name_eq.trans hop.name_eq
  refine ⟨hreaders.record, hsep, hsound.flat,
    List.map_eq_map_of_forall₂ hopnames fun f op hname => hname, ?_⟩
  refine List.forall_mem_of_forall₂ (P := fun f => f ∈ decl.fields) hops ?_ fun f hf => hf
  rintro f op' ⟨op, hop, hsettles⟩ hf
  refine ⟨fun type byRef hkind => ?_, fun ty v hty hv => ?_⟩
  · obtain ⟨byRef', hkind'⟩ : ∃ byRef', op.kind = .struct type byRef' := by
      rcases hsettles with rfl | rfl
      · exact ⟨byRef, hkind⟩
      · exact OpKind.exists_struct_of_behindReference hkind
    generalize hty : f.ty = ty at hop
    cases hop with
    | map => simp at hkind'
    | @named typeName optional inner kind hinner hdeclKind _ =>
      obtain rfl : kind = .struct type byRef' := hkind'
      obtain ⟨hstruct, rfl, -⟩ := Plan.declKind_eq_struct hdeclKind
      obtain rfl := h.wellNamed.name_eq hinner
      exact hloads f hf _ optional inner hty hinner hstruct
  · have hlookup : r.fields.lookup f.name = some f.ty := by
      have hnodup : (r.fields.map Prod.fst).Nodup := by
        rw [hreaders.record.fields_eq, List.map_map]
        exact hsep.nodup
      refine Dict.get?_of_mem_entries (d := ⟨r.fields⟩) hnodup ?_
      rw [hreaders.record.fields_eq]
      exact List.mem_map_of_mem hf
    rw [hsettles.name_eq, hop.name_eq, hlookup] at hty
    obtain rfl : f.ty = ty := by simpa using hty
    exact hv.verified h.wellNamed hop hsettles

/-- Nothing is said about the state of a contract. -/
theorem loads_of_contract (hdecl : table.types.get? name = some decl)
    (hcontract : decl.isContract = true) (hirregular : ¬ regular) : Loads c table regular name where
  reader _ _ := ⟨fun h => absurd h hirregular, .contract hdecl hcontract⟩
  readerNotMut _ _ _ _ _ _ := .contract hdecl hcontract
  readerOpt _ _ := ⟨fun h => absurd h hirregular, .contract hdecl hcontract⟩
  asOptional _ _ _ _ _ _ := .contract hdecl hcontract
  absent := .contract hdecl hcontract

/-- Everything that loads a record checks its addresses. -/
structure Loaders (c : Code) (table : TypeTable) (regular : Prop) (decl : TypeDecl) : Prop where
  reader : Delivers c regular (Name.reader decl.name) (Verified table regular (.plain decl.name))
  readerNotMut : Gives c (Name.readerNotMut decl.name) (fun x => regular → x.isLeaf = true)
    (Verified table regular (.plain decl.name))
  readerBounced : decl.header.isSome = true → Delivers c regular (Name.readerBounced decl.name)
    (VerifiedFields table regular (Layout.visibleFields decl true))
  readerOpt : Delivers c regular (Name.readerOpt decl.name)
    (Verified table regular (.named decl.name true))
  readerCellOpt : Gives c (Name.readerCellOpt decl.name) (fun _ => True)
    (Verified table regular (.named decl.name true))
  asOptional : Gives c (Name.asOptional decl.name) (Verified table regular (.plain decl.name))
    (Verified table regular (.named decl.name true))

theorem Loaders.loads (h : Loaders c table regular decl)
    (hdecl : table.types.get? decl.name = some decl) (hstruct : decl.isStruct = true) :
    Loads c table regular decl.name :=
  ⟨h.reader.eq, h.readerNotMut, h.readerOpt.eq, h.asOptional,
    .absent hdecl (TypeDecl.isContract_of_isStruct hstruct)⟩

/-- Everything that loads a record checks its addresses, if what loads the records in its fields
does. -/
theorem Genuine.loaders_of_loads (h : Genuine c env)
    (hdecl : env.program.types.types.get? decl.name = some decl) (hstruct : decl.isStruct = true)
    (hloads : ∀ f ∈ decl.fields, ∀ type optional inner, f.ty = .named type optional →
      env.program.types.types.get? type = some inner → inner.isStructLike = true →
      Loads c env.program.types regular type) : Loaders c env.program.types regular decl := by
  have hplain := h.proper.plain
  have hname : ∀ suffix, Name.ofType decl.name suffix ∉ primitives := fun _ =>
    not_mem_primitives_of_isEmitted (Name.isEmitted_ofType _ _)
  obtain ⟨⟨r, hreaders⟩, view, sh, hview⟩ :=
    h.conversions decl (TypeTable.mem_structs.2 ⟨Dict.mem_values_of_get? hdecl, hstruct⟩)
  have hlegible : Legible c env regular decl r := h.legible hdecl hreaders hloads
  have hreader : Delivers c regular (Name.reader decl.name)
      (Verified env.program.types regular (.plain decl.name)) := by
    intro s x v s' hcall hx
    obtain ⟨inline, honly⟩ := hreaders.reader
    rw [hreaders.record.name_eq] at honly
    obtain ⟨x', w, rfl, hx', hw⟩ :=
      reader_verifies h.proper h.separate hlegible honly (hname _) hcall hx
    exact ⟨x', w, rfl, hx', VerifiedFields.verified hdecl hstruct hw⟩
  have hbounced : decl.header.isSome = true → Delivers c regular (Name.readerBounced decl.name)
      (VerifiedFields env.program.types regular (Layout.visibleFields decl true)) := by
    intro hheader s x v s' hcall hx
    obtain ⟨inline, honly⟩ := hreaders.readerBounced hheader
    rw [hreaders.record.name_eq] at honly
    exact reader_verifies h.proper h.separate hlegible honly (hname _) hcall hx
  have hbox : Gives c (Name.asOptional decl.name)
      (Verified env.program.types regular (.plain decl.name))
      (Verified env.program.types regular (.named decl.name true)) := fun s x w s' hcall hx =>
    asOptional_verifies h.proper h.separate hdecl hstruct hview.viewOf hview.asOptional hcall hx
  have habsent : Verified env.program.types regular (.named decl.name true) .null :=
    .absent hdecl (TypeDecl.isContract_of_isStruct hstruct)
  obtain ⟨inline, honly⟩ := hreaders.readerNotMut
  have hr := hreaders.record.name_eq
  have hnotMut := readerNotMut_verifies hr honly hreader
  exact ⟨hreader, hnotMut, hbounced,
    readerOpt_verifies hplain hr hreaders.readerOpt hreader hbox habsent,
    readerCellOpt_verifies hplain hr hreaders.readerCellOpt hnotMut hbox habsent, hbox⟩

/-- **Loading checks addresses.** Whatever a record is loaded from, all addresses in it, at any depth,
are standard, or absent where the type allows it. -/
theorem Genuine.loaders (h : Genuine c env) (hregular : regular → env.program.types.HoldsNoContract)
    (hdecl : env.program.types.types.get? name = some decl) (hstruct : decl.isStruct = true) :
    Loaders c env.program.types regular decl := by
  have hacc := h.acc name decl hdecl (TypeDecl.isStructLike_of_isStruct hstruct)
  induction hacc generalizing decl with
  | intro name _ ih =>
    obtain rfl := h.wellNamed.name_eq hdecl
    refine h.loaders_of_loads hdecl hstruct fun f hf type optional inner hty hinner hlike => ?_
    obtain rfl := h.wellNamed.name_eq hinner
    cases hs : inner.isStruct with
    | true =>
      refine (ih inner.name ?_ hinner hs).loads hinner hs
      exact ⟨⟨decl, hdecl, f, hf, optional, hty⟩, inner, hinner, hlike⟩
    | false =>
      have hcontract := TypeDecl.isContract_of_isStructLike hlike hs
      refine loads_of_contract hinner hcontract fun hr => ?_
      have hmem : decl ∈ env.program.types.structs :=
        TypeTable.mem_structs.2 ⟨Dict.mem_values_of_get? hdecl, hstruct⟩
      simp [hregular hr decl hmem f hf _ _ _ hty hinner] at hcontract

end Genuine

end CellCompiler
