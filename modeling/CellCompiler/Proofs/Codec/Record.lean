import CellCompiler.Proofs.Codec.Load
import CellCompiler.Proofs.Codec.Store

/-!
# Codecs of a record

The function that stores a record opens it into variables, writes its header and then its chain of
cells; the function that loads it does the same in reverse.

* `packed` puts the values of fields together to the value of a record;
* `Ready` collects what has to be known of a record and of the values of its fields;
* `writer_encodes` and `reader_restores` are about the two functions, and `readerItem_restores` also
  about the one that loads what is left of a record after a bounce.
-/

namespace CellCompiler

open Generate Machine
open Plan (Op OpKind Chain)

variable {c : Code} {env : Env} {r : Record} {s s' : State} {values : String → Val}
  {fields : List (String × TypeRef)} {sh : Layout.Shape}

/-! ### Values of records -/

/-- The value of a record with given values of its fields. -/
def packed (fields : List (String × TypeRef)) (values : String → Val) : Val :=
  match fields with
  | [] => .tuple []
  | fields => .tensor (fields.map fun f => values f.1)

/-- The values of the fields have the shapes of their types. -/
def FieldsFit (env : Env) (fields : List (String × TypeRef)) (values : String → Val) : Prop :=
  ∀ f ∈ fields, ∀ sh, Layout.shape env.program.types f.2 (Name.tick "v" f.1) = .ok sh →
    sh.Fits (values f.1)

/-- The shape of a record: one part for each field, or a box if there are none. -/
theorem record_cases (values : String → Val)
    (hsh : Layout.record env.program.types fields "v" = .ok sh) :
    (fields = [] ∧ sh = .leaf "v" .boxed ∧ packed fields values = .tuple []) ∨
      ∃ parts, sh = .product parts ∧ sh.isProduct = true ∧
        packed fields values = .tensor (fields.map fun f => values f.1) ∧
        List.Forall₂ (fun f part => Layout.shape env.program.types f.2 (Name.tick "v" f.1) = .ok part)
          fields parts := by
  rcases Layout.recordBy_eq_ok.1 hsh with ⟨rfl, rfl⟩ | ⟨hne, parts, rfl, hparts⟩
  · exact .inl ⟨rfl, rfl, rfl⟩
  · cases hparts with
    | nil => exact absurd rfl hne
    | cons hpart hparts => exact .inr ⟨_, rfl, rfl, rfl, .cons hpart hparts⟩

theorem fits_packed (hsh : Layout.record env.program.types fields "v" = .ok sh)
    (hfits : FieldsFit env fields values) : sh.Fits (packed fields values) := by
  rcases record_cases values hsh with ⟨-, rfl, hpacked⟩ | ⟨parts, rfl, -, hpacked, hparts⟩
  · rw [hpacked]
    rfl
  · rw [hpacked, Layout.Shape.Fits, Layout.Shape.fitsAll_iff_forall₂, List.forall₂_map_right_iff]
    clear hsh hpacked
    induction hparts with
    | nil => exact .nil
    | @cons f part fields parts hpart _ ih =>
      rw [FieldsFit, List.forall_mem_cons] at hfits
      exact .cons (hfits.1 part hpart) (ih hfits.2)

/-- A record that is bound has its fields bound. -/
theorem bound_field {parts : List Layout.Shape}
    (hparts : List.Forall₂ (fun f part =>
      Layout.shape env.program.types f.2 (Name.tick "v" f.1) = .ok part) fields parts)
    (h : Bound s (.product parts) (.tensor (fields.map fun f => values f.1))) :
    ∀ f ∈ fields, ∀ sh, Layout.shape env.program.types f.2 (Name.tick "v" f.1) = .ok sh →
      Bound s sh (values f.1) := by
  induction hparts with
  | nil => simp
  | @cons f part fields parts hpart _ ih =>
    obtain ⟨hf, hfields⟩ := bound_product_cons.1 h
    rw [List.forall_mem_cons]
    refine ⟨fun sh hsh => ?_, ih hfields⟩
    obtain rfl : part = sh := by simpa [hpart] using hsh
    exact hf

/-- A record whose fields are bound is bound. -/
theorem bound_record {parts : List Layout.Shape}
    (hparts : List.Forall₂ (fun f part =>
      Layout.shape env.program.types f.2 (Name.tick "v" f.1) = .ok part) fields parts)
    (h : ∀ f ∈ fields, ∀ sh, Layout.shape env.program.types f.2 (Name.tick "v" f.1) = .ok sh →
      ∃ w, w.Same (values f.1) ∧ Bound s sh w) :
    ∃ ws, List.Forall₂ Val.Same ws (fields.map fun f => values f.1) ∧
      Bound s (.product parts) (.tensor ws) := by
  induction hparts with
  | nil => exact ⟨[], .nil, trivial, .nil⟩
  | @cons f part fields parts hpart _ ih =>
    rw [List.forall_mem_cons] at h
    obtain ⟨w, hw, hbound⟩ := h.1 part hpart
    obtain ⟨ws, hws, hbounds⟩ := ih h.2
    exact ⟨w :: ws, .cons hw hws, bound_product_cons.2 ⟨hbound, hbounds⟩⟩

/-! ### Storing -/

/-- What is known of a record and of the values of its fields. -/
structure Ready (c : Code) (env : Env) (r : Record) (values : String → Val) : Prop where
  nodup : (r.fields.map Prod.fst).Nodup
  plain : ∀ f ∈ r.fields, '\'' ∉ f.1.toList
  fits : FieldsFit env r.fields values
  /-- One operation per field. -/
  names_eq : r.plan.ops.map (·.name) = r.fields.map Prod.fst
  flat : r.plan.root.ops = r.plan.ops
  full : r.plan.root.Full
  /-- Nothing follows an operation that takes everything that is left. -/
  delimits : ∀ op ∈ r.plan.ops.dropLast, Delimits env op
  admits : ∀ op ∈ r.plan.ops, AdmitsField c env op (values op.name)

/-- The bits in front of a record. -/
def headerBits (plan : Plan) : List Bool :=
  match plan.header with
  | some h => Bits.ofInt h.bits.toNat h.value.toNat
  | none => []

/-- The header can be read back. -/
def HeaderFits (plan : Plan) : Prop :=
  ∀ h ∈ plan.header, Bits.fitsUnsigned h.value.toNat h.bits.toNat = true

/-- Opening a record puts its fields into their variables. -/
theorem openRecord_lies (hsep : (fields.map Prod.fst).Nodup ∧ ∀ f ∈ fields, '\'' ∉ f.1.toList)
    (htypes : env.program.types.Separate)
    (hsh : Layout.record env.program.types fields "v" = .ok sh) (hfits : FieldsFit env fields values)
    (hv : s.get? "v" = some (packed fields values)) {q : Option Val}
    (h : Yields (block c (openRecord sh)) s q s') :
    q = none ∧ s.Frames (fun y => ∃ f ∈ fields, Name.Under (Name.tick "v" f.1) y) s' ∧
      ∀ f ∈ fields, ∀ sh, Layout.shape env.program.types f.2 (Name.tick "v" f.1) = .ok sh →
        Bound s' sh (values f.1) := by
  have hpacked := fits_packed hsh hfits
  rcases record_cases values hsh with ⟨rfl, rfl, -⟩ | ⟨parts, rfl, hproduct, heq, hparts⟩
  · obtain ⟨rfl, rfl⟩ := yields_block_nil.1 h
    exact ⟨rfl, .refl _, by simp⟩
  · rw [openRecord, if_pos hproduct, yields_block_var] at h
    obtain ⟨w, s₁, hw, s₂, hbind, h⟩ := h
    obtain ⟨rfl, rfl⟩ := (means_id hv).iff.1 hw
    obtain ⟨rfl, rfl⟩ := yields_block_nil.1 h
    have hshape : ∀ ty name sh, Layout.shape env.program.types ty name = .ok sh →
        sh.Distinct name := fun _ _ _ => Layout.shapeWithin_distinct htypes
    obtain ⟨hnodup, hunder⟩ := Layout.parts_distinct hshape hsep.1 hsep.2 hparts
    obtain rfl := (yields_bind_pattern hpacked).1 hbind
    refine ⟨rfl, State.frames_setAll.mono fun y hy => hunder y (by simpa using hy), ?_⟩
    have hbound := bound_setAll (s := s₁) hpacked (by simpa using hnodup)
    rw [heq] at hbound ⊢
    exact bound_field hparts hbound

/-- The builder is none of the variables of the fields. -/
theorem fields_ne_builder : ¬ ∃ f ∈ fields, Name.Under (Name.tick "v" f.1) "build_0" := by
  rintro ⟨f, -, hunder⟩
  exact hunder.ne_builderName 0 rfl

theorem writeHeader_appends (hc : c.Plain) {plan : Plan} {b : Builder} {q : Option Val}
    (hb : s.get? "build_0" = some (.builder b)) (h : Yields (block c (writeHeader plan)) s q s') :
    q = none ∧ HeaderFits plan ∧ s.Frames (· = "build_0") s' ∧
      s'.get? "build_0" = some (.builder (b.push (headerBits plan) [])) := by
  cases hheader : plan.header with
  | none =>
    simp only [writeHeader, hheader] at h
    obtain ⟨rfl, rfl⟩ := yields_block_nil.1 h
    exact ⟨rfl, by simp [HeaderFits, hheader], .refl _, by simp [headerBits, hheader, hb]⟩
  | some header =>
    simp only [writeHeader, hheader] at h
    have hstore : Returns c s (Target.method (Target.id "build_0") "store_uint"
        [Target.int header.value.toNat, Target.int header.bits.toNat]) fun w =>
        Bits.fitsUnsigned header.value.toNat header.bits.toNat = true ∧
          w = .builder (b.push (Bits.ofInt header.bits.toNat header.value.toNat) []) := by
      refine (means_id hb).returns.primitive hc (by decide) (.cons means_int (.cons means_int .nil)) ?_
      rintro _ w rfl hw
      obtain ⟨hfits, -, rfl⟩ := (call_store_uint (Bits.toNat_lt_size header.bits)).1 hw
      exact ⟨hfits, rfl⟩
    obtain ⟨w, ⟨hfits, rfl⟩, h⟩ := hstore.of_assign hb h
    obtain ⟨rfl, rfl⟩ := yields_block_nil.1 h
    refine ⟨rfl, ?_, State.frames_set, by simp [headerBits, hheader]⟩
    simpa [HeaderFits, hheader] using hfits

theorem mem_of_lookup {name : String} {ty : TypeRef} (h : fields.lookup name = some ty) :
    (name, ty) ∈ fields :=
  Dict.mem_entries_of_get? (d := ⟨fields⟩) h

/-- **What the writer of a record appends.** -/
theorem writer_encodes (hc : c.Proper) (hsep : env.program.types.Separate)
    (h : Ready c env r values) (hcodecs : Codecs c env r) {b : Builder} {w : Val}
    (hcall : Yields (call c (Name.writer r.name) [.builder b, packed r.fields values]) s w s') :
    s' = s ∧ HeaderFits r.plan ∧ ∃ bits refs, EncodesChain c env values r.plan.root bits refs ∧
      w = .builder (b.push (headerBits r.plan ++ bits) refs) := by
  obtain ⟨inline, d, item, d', hrun, hsound, hback, hget⟩ := hcodecs.writer
  simp only [writerItem, Record.shape, Record.visible, Bool.false_eq_true, if_false, table, run_bind,
    run_read, run_pure, run_ofExcept] at hrun
  obtain ⟨sh, _, ⟨_, _, ⟨_, _, ⟨rfl, rfl⟩, rfl, rfl⟩, hsh, rfl⟩, body, _, hbody, rfl, rfl⟩ := hrun
  have hhas : c.Has (Name.writer r.name) ["build_0", "v"] _ := ⟨_, hget _ (by simp), by simp⟩
  obtain ⟨-, q, t, hyields, rfl, rfl⟩ := hhas.yields.1 hcall
  generalize hu : s.enter ["build_0", "v"] [.builder b, packed r.fields values] = u at hyields
  have hb : u.get? "build_0" = some (.builder b) := by
    simp [← hu, State.enter, State.get?, Dict.ofList]
  have hv : u.get? "v" = some (packed r.fields values) := by
    simp [← hu, State.enter, State.get?, Dict.ofList]
  simp only [List.append_assoc] at hyields
  obtain ⟨_, u₁, hopen, hyields⟩ := yields_block_append.1 hyields
  obtain ⟨rfl, hframes₁, hbound⟩ := openRecord_lies ⟨h.nodup, h.plain⟩ hsep hsh h.fits hv hopen
  have hb₁ : u₁.get? "build_0" = some (.builder b) := by
    rw [hframes₁.kept "build_0" fields_ne_builder, hb]
  obtain ⟨_, u₂, hheader, hyields⟩ := yields_block_append.1 hyields
  obtain ⟨rfl, hfits, hframes₂, hb₂⟩ := writeHeader_appends hc.plain hb₁ hheader
  obtain ⟨_, u₃, hchain, hyields⟩ := yields_block_append.1 hyields
  have hlies : ∀ op ∈ r.plan.root.ops, Lies env r u₂ op (values op.name) := by
    intro op _
    have hlies₁ : Lies env r u₁ op (values op.name) := fun ty sh hty hsh =>
      hbound (op.name, ty) (mem_of_lookup hty) sh hsh
    exact hlies₁.frames hsep hframes₂ fun y hy => hy.ne_builderName 0
  obtain ⟨rfl, bits, refs, hbits, hframes₃, hb₃⟩ := writeChain_encodes hc hsep hbody hsound hback
    (by rw [h.flat]; exact h.admits) hlies hb₂ hchain
  obtain ⟨rfl, rfl⟩ := (yields_ret_means (means_id hb₃)).1 hyields
  refine ⟨?_, hfits, bits, refs, hbits, by simp⟩
  rw [hframes₃.restored, hframes₂.restored, hframes₁.restored, ← hu]
  rfl

/-! ### Loading -/

theorem readHeader_passes (hc : c.Plain) {plan : Plan} (hfits : HeaderFits plan) {x : Slice}
    {bits : List Bool} {refs : List Cell} (hs : s.get? "sc_0" = some (.slice x))
    (hx : x.Holds (headerBits plan ++ bits) refs) :
    ∃ x' s', Yields (block c (readHeader plan)) s none s' ∧ s.Frames (· = "sc_0") s' ∧
      s'.get? "sc_0" = some (.slice x') ∧ x'.Holds bits refs := by
  cases hheader : plan.header with
  | none =>
    simp only [readHeader, headerBits, hheader, List.nil_append] at hx ⊢
    exact ⟨x, s, yields_block_nil.2 ⟨rfl, rfl⟩, .refl s, hs, hx⟩
  | some header =>
    simp only [readHeader, headerBits, hheader] at hx ⊢
    obtain ⟨x', hread, hx'⟩ :=
      read_load_uint (Bits.toNat_lt_size header.bits) (hfits header hheader) hx
    have hload := yields_read hc (by decide) hs (.cons means_int .nil) hread
    generalize hs' : s.set "sc_0" (.slice x') = s' at hload
    refine ⟨x', s', yields_block_expr.2 ⟨.unit, s', ?_, yields_block_nil.2 ⟨rfl, rfl⟩⟩,
      hs' ▸ State.frames_set, by simp [← hs'], hx'⟩
    have hequal : Yields (eval c (Target.eq (Target.modify (Target.id "sc_0") "load_uint"
        [Target.int header.bits.toNat]) (Target.int header.value.toNat))) s (.bool true) s' := by
      refine yields_binary.2 ⟨_, s', hload, _, means_int, ?_⟩
      rw [binary_eq_int, beq_self_eq_true]
    rw [Target.call, yields_call]
    refine ⟨_, s', yields_evalAll_cons.2 ⟨_, s, means_int, _, yields_evalAll_one hequal, rfl⟩, ?_⟩
    rw [yields_builtin hc (by decide), call_throw_unless]
    exact ⟨⟨truthy_bool, rfl⟩, rfl⟩

/-- The fields of a record belong to its operations. -/
theorem Ready.separate (h : Ready c env r values) : Fields env r values r.plan.root.ops := by
  rw [h.flat]
  refine ⟨⟨h.names_eq ▸ h.nodup, fun op hop => ?_⟩, fun op _ ty sh hty hsh => ?_⟩
  · have hname : op.name ∈ r.fields.map Prod.fst := h.names_eq ▸ List.mem_map_of_mem hop
    obtain ⟨f, hf, hfname⟩ := List.mem_map.1 hname
    exact hfname ▸ h.plain f hf
  · exact h.fits (op.name, ty) (mem_of_lookup hty) sh hsh

/-- Fields that have been restored can be looked up one by one. -/
theorem Ready.restored (h : Ready c env r values) {limit : Nat}
    (hall : ∀ op ∈ r.plan.ops.take limit, Restored env r s op (values op.name)) :
    ∀ f ∈ r.fields.take limit, ∀ sh,
      Layout.shape env.program.types f.2 (Name.tick "v" f.1) = .ok sh →
      ∃ w, w.Same (values f.1) ∧ Bound s sh w := by
  intro f hf sh hsh
  have hname : f.1 ∈ (r.plan.ops.take limit).map (·.name) := by
    rw [List.map_take, h.names_eq, ← List.map_take]
    exact List.mem_map_of_mem hf
  obtain ⟨op, hop, hopname⟩ := List.mem_map.1 hname
  have hlookup : r.fields.lookup op.name = some f.2 := by
    rw [hopname]
    exact Dict.get?_of_mem_entries (d := ⟨r.fields⟩) h.nodup (List.mem_of_mem_take hf)
  obtain ⟨w, hw, hlies⟩ := hall op hop
  rw [← hopname] at hsh
  exact ⟨w, hopname ▸ hw, hlies f.2 sh hlookup hsh⟩

theorem Ready.length_eq (h : Ready c env r values) : r.plan.ops.length = r.fields.length := by
  simpa using congrArg List.length h.names_eq

/-- How many fields of a record are loaded. -/
def loadedCount (r : Record) (bounced : Bool) : Nat :=
  if bounced then r.bounceCount else r.plan.ops.length

theorem Ready.visible_eq (h : Ready c env r values) (bounced : Bool) :
    r.visible bounced = r.fields.take (loadedCount r bounced) := by
  cases bounced with
  | true => rfl
  | false => simp [Record.visible, loadedCount, h.length_eq]

/-- **What a function that loads a record finds**, or one for what is left of it after a bounce. -/
theorem readerItem_restores (hc : c.Plain) (hsep : env.program.types.Separate)
    (h : Ready c env r values) {name : String} {bounced inline : Bool}
    (hruns : Runs c env (readerItem r name bounced inline)) (hheader : HeaderFits r.plan)
    {bits rest : List Bool} {refs others : List Cell}
    (hbits : EncodesFront c env values (loadedCount r bounced) r.plan.root bits refs) {x : Slice}
    (hrest : (∀ op ∈ r.plan.ops.take (loadedCount r bounced), Delimits env op) ∨
      rest = [] ∧ others = [])
    (hx : x.Holds (headerBits r.plan ++ bits ++ rest) (refs ++ others)) (s : State) :
    ∃ w x', Yields (call c name [.slice x]) s (.tensor [.slice x', w]) s ∧
      w.Same (packed (r.visible bounced) values) ∧ x'.Holds rest others := by
  obtain ⟨d, item, d', hrun, hsound, hback, hget⟩ := hruns
  simp only [readerItem, Record.shape, table, run_bind, run_read, run_pure, run_ofExcept] at hrun
  obtain ⟨sh, _, ⟨_, _, ⟨_, _, ⟨rfl, rfl⟩, rfl, rfl⟩, hsh, rfl⟩, body, _, hbody, rfl, rfl⟩ := hrun
  have hhas : c.Has name ["sc_0"] _ := ⟨_, hget _ (by simp), by simp⟩
  generalize hu : s.enter ["sc_0"] [.slice x] = u
  have hslice : u.get? "sc_0" = some (.slice x) := by
    simp [← hu, State.enter, State.get?, Dict.ofList]
  rw [List.append_assoc] at hx
  obtain ⟨x₁, u₁, hpass, hframes₁, hslice₁, hx₁⟩ := readHeader_passes hc hheader hslice hx
  obtain ⟨x', u₂, hchain, hframes₂, hslice₂, hx', hrestored⟩ :=
    readChain_restores hc hsep hbody h.full hsound hback hbits h.separate
      (by rw [h.flat]; exact h.delimits) (by rw [h.flat]; exact hrest) hslice₁ hx₁
  rw [h.flat] at hrestored
  have hall : ∀ f ∈ r.visible bounced, ∀ sh,
      Layout.shape env.program.types f.2 (Name.tick "v" f.1) = .ok sh →
      ∃ w, w.Same (values f.1) ∧ Bound u₂ sh w := by
    rw [h.visible_eq]
    exact h.restored hrestored
  obtain ⟨w, hw, hsame⟩ : ∃ w, Means c u₂ (recordValue sh) w ∧
      w.Same (packed (r.visible bounced) values) := by
    rcases record_cases values hsh with ⟨-, rfl, heq⟩ | ⟨parts, rfl, hproduct, heq, hparts⟩
    · rw [heq]
      exact ⟨_, means_emptyTuple hc, .refl _⟩
    · obtain ⟨ws, hws, hbound⟩ := bound_record hparts hall
      rw [recordValue, if_pos hproduct, heq]
      exact ⟨_, hbound.yields, Val.same_tensor hws⟩
  have hresult := Means.tensor (.cons (means_id hslice₂) (.cons hw .nil))
  refine ⟨w, x', hhas.returns (t := u₂) rfl ?_ ?_ ?_, hsame, hx'⟩
  · rw [hu, List.append_assoc]
    refine yields_block_append.2 ⟨none, u₁, hpass, yields_block_append.2 ⟨none, u₂, hchain, ?_⟩⟩
    exact (yields_ret_means hresult).2 ⟨rfl, rfl⟩
  · rw [hframes₂.globals, hframes₁.globals, ← hu]
    rfl
  · rw [hframes₂.data, hframes₁.data, ← hu]
    rfl

/-- **What the reader of a record finds.** -/
theorem reader_restores (hc : c.Plain) (hsep : env.program.types.Separate)
    (h : Ready c env r values) (hcodecs : Codecs c env r) (hheader : HeaderFits r.plan)
    {bits rest : List Bool} {refs others : List Cell}
    (hbits : EncodesChain c env values r.plan.root bits refs) {x : Slice}
    (hrest : (∀ op ∈ r.plan.ops, Delimits env op) ∨ rest = [] ∧ others = [])
    (hx : x.Holds (headerBits r.plan ++ bits ++ rest) (refs ++ others)) (s : State) :
    ∃ w x', Yields (call c (Name.reader r.name) [.slice x]) s (.tensor [.slice x', w]) s ∧
      w.Same (packed r.fields values) ∧ x'.Holds rest others := by
  obtain ⟨inline, hruns⟩ := hcodecs.reader
  obtain ⟨front, _, own, _, rfl, rfl, hfront, hall⟩ :=
    hbits.front h.full (by rw [h.flat]; exact h.delimits) (loadedCount r false)
  obtain ⟨rfl, rfl⟩ := hall (by rw [h.flat]; exact le_refl _)
  rw [List.append_nil] at hx
  refine readerItem_restores hc hsep h hruns hheader hfront (hrest.imp_left fun hops op hop => ?_)
    (by simpa using hx) s
  exact hops op (List.mem_of_mem_take hop)

end CellCompiler
