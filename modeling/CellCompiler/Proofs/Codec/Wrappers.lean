import CellCompiler.Proofs.Codec.Wire

/-!
# Codecs around a record

Besides the functions that store a record in a builder and load it from a slice there are those for a
cell of its own and for a record that may be absent. They do what they should whenever the
first two do.

* `writerCell_packs`, `writerCell_stores` and `Stored.readerNotMut` are about a cell of its own;
* `writerOpt_encodes` and `readerOpt_reads` are about records that may be absent, and
  `writerCellOpt_stores` and `readerCellOpt_reads` about both.
-/

namespace CellCompiler

open Generate Machine
open Target (Signature)

variable {c : Code} {env : Env} {r : Record} {name : String} {v w : Val} {s s' : State}
  {bits : List Bool} {refs : List Cell}

/-! ### Cells -/

/-- What the writer of a record appends, in a cell of its own. -/
theorem writerCell_packs (hc : c.Plain) (h : Codecs c env r) {P : List Bool → List Cell → Prop}
    (hwriter : ∀ {b : Builder} {s s' : State} {w : Val}, Yields (call c (Name.writer r.name) [.builder b, v]) s w s' →
      s' = s ∧ ∃ bits refs, w = .builder (b.push bits refs) ∧ P bits refs)
    (hcall : Yields (call c (Name.writerCell r.name) [v]) s w s') :
    s' = s ∧ ∃ bits refs, w = .cell (.mk bits refs) ∧ P bits refs := by
  obtain ⟨inline, d, item, d', hrun, -, -, hget⟩ := h.writerCell
  simp only [writerCellItem, callUsed, used, run_bind, run_modify, run_pure] at hrun
  obtain ⟨shape, _, -, _, _, ⟨_, _, ⟨_, _, rfl, rfl, rfl⟩, rfl, rfl⟩, rfl, rfl⟩ := hrun
  have hhas : c.Has (Name.writerCell r.name) ["v"] _ := ⟨_, hget _ (by simp), by simp⟩
  obtain ⟨-, q, t, hbody, rfl, rfl⟩ := hhas.yields.1 hcall
  generalize hu : s.enter ["v"] [v] = u at hbody
  have hvar : u.get? "v" = some v := by simp [← hu, State.enter, State.get?, Dict.ofList]
  have hstored : Returns c u (Target.call (Name.writer r.name) [Target.beginCell, Target.id "v"])
      fun w => ∃ bits refs, w = .builder (Builder.empty.push bits refs) ∧ P bits refs := by
    intro w s' hw
    rw [yields_call_means (.cons (means_beginCell hc) (.cons (means_id hvar) .nil))] at hw
    exact hwriter hw
  rw [yields_block_ret] at hbody
  obtain ⟨w, hw, rfl⟩ := hbody
  have hend : Returns c u (Target.endCell (Target.call (Name.writer r.name)
      [Target.beginCell, Target.id "v"])) fun w => ∃ bits refs, w = .cell (.mk bits refs) ∧ P bits refs := by
    refine hstored.primitive hc (by decide) .nil ?_
    rintro _ w ⟨bits, refs, rfl, hbits⟩ hw
    rw [Builder.push_empty] at hw
    exact ⟨bits, refs, (call_end_cell.1 hw).2, hbits⟩
  obtain ⟨rfl, hcell⟩ := hend w t hw
  refine ⟨?_, hcell⟩
  rw [← hu]
  rfl

/-- A record that is stored in a cell of its own. -/
theorem writerCell_stores (hc : c.Plain) (h : Codecs c env r) (hv : Storable c env r.name v)
    (hcall : Yields (call c (Name.writerCell r.name) [v]) s w s') :
    s' = s ∧ ∃ bits refs, w = .cell (.mk bits refs) ∧ Stored c env r.name v bits refs :=
  writerCell_packs hc h hv.stores hcall

theorem Codecs.get?_reader (h : Codecs c env r) :
    ∃ item, c.functions.get? (Name.reader r.name) = some item := by
  obtain ⟨inline, d, item, d', hrun, -, -, hget⟩ := h.reader
  simp only [readerItem, run_bind, run_pure] at hrun
  obtain ⟨_, _, -, _, _, -, rfl, rfl⟩ := hrun
  exact ⟨_, hget _ (by simp)⟩

/-- A record that is loaded from a cell of its own. -/
theorem Stored.readerNotMut (hc : c.Plain) (h : Stored c env name v bits refs) {x : Slice}
    (hx : x.Holds bits refs) (s : State) :
    ∃ w, Yields (call c (Name.readerNotMut name) [.slice x]) s w s ∧ w.Same v := by
  obtain ⟨r, rfl, hcodecs⟩ := h.supported
  obtain ⟨inline, d, item, d', hrun, -, -, hget⟩ := hcodecs.readerNotMut
  simp only [readerNotMutItem, used, run_bind, run_modify, run_pure] at hrun
  obtain ⟨shape, _, -, _, _, ⟨_, _, rfl, rfl, rfl⟩, rfl, rfl⟩ := hrun
  have hhas : c.Has (Name.readerNotMut r.name) ["sc_0"] _ := ⟨_, hget _ (by simp), by simp⟩
  generalize hu : s.enter ["sc_0"] [.slice x] = u
  have hvar : u.get? "sc_0" = some (.slice x) := by
    simp [← hu, State.enter, State.get?, Dict.ofList]
  have hall : x.Holds (bits ++ []) (refs ++ []) := by simpa using hx
  obtain ⟨w, x', hread, hw, hx'⟩ := h.reads u hall (.inr ⟨rfl, rfl⟩)
  obtain ⟨item, hitem⟩ := hcodecs.get?_reader
  have hload := yields_reader hitem hvar hread
  generalize ht : (u.set "sc_0" (.slice x')).set "v" w = t
  have hslice : Means c t (Target.id "sc_0") (.slice x') := means_id (by simp [← ht])
  have hv : Means c t (Target.id "v") w := means_id (by simp [← ht])
  have hend : Means c t (Target.method (Target.id "sc_0") "end_parse" []) .unit :=
    .primitive hc (by decide) (.cons hslice .nil) (call_end_parse hx')
  refine ⟨w, hhas.returns (t := t) rfl ?_ (by rw [← ht, ← hu]; rfl) (by rw [← ht, ← hu]; rfl), hw⟩
  rw [hu, yields_block_var]
  refine ⟨w, _, hload, t, ?_, yields_block_expr.2 ⟨_, t, hend, (yields_ret_means hv).2 ⟨rfl, rfl⟩⟩⟩
  rw [Target.id, yields_bind_ident, State.assign_of_declare, ht]

/-! ### Records that may be absent -/

theorem returns_storeFlag {b : Builder} {t : Bool} {e : Target.Expr} (hc : c.Plain)
    (he : Means c s e (.builder b)) :
    Returns c s (storeFlag e t) (· = .builder (b.push [t] [])) := by
  refine he.returns.primitive hc (by decide) (.cons means_bool (.cons means_int .nil)) ?_
  rintro _ w rfl hw
  exact (call_store_flag.1 hw).2

/-- A record that may be absent, after a bit. -/
theorem writerOpt_encodes (hc : c.Plain) (h : OptionalCodecs c env r) {field : String} {b : Builder}
    (hv : AdmitsField c env ⟨field, .struct r.name false, true⟩ v)
    (hcall : Yields (call c (Name.writerOpt r.name) [.builder b, v]) s w s') :
    s' = s ∧ ∃ bits refs, w = .builder (b.push bits refs) ∧
      EncodesField c env ⟨field, .struct r.name false, true⟩ v bits refs := by
  obtain ⟨d, item, d', hrun, -, -, hget⟩ := h.writerOpt
  simp only [writerOptItem, used, run_bind, run_modify, run_pure] at hrun
  obtain ⟨_, _, ⟨_, _, rfl, rfl, rfl⟩, _, _, ⟨_, _, rfl, rfl, rfl⟩, rfl, rfl⟩ := hrun
  have hhas : c.Has (Name.writerOpt r.name) ["b", "v"] _ := ⟨_, hget _ (by simp), by simp⟩
  obtain ⟨-, q, t, hbody, rfl, rfl⟩ := hhas.yields.1 hcall
  generalize hu : s.enter ["b", "v"] [.builder b, v] = u at hbody
  have hb : u.get? "b" = some (.builder b) := by simp [← hu, State.enter, State.get?, Dict.ofList]
  have hvar : u.get? "v" = some v := by simp [← hu, State.enter, State.get?, Dict.ofList]
  rw [yields_ifThen_means (means_isNull hc (means_id hvar))] at hbody
  cases hv with
  | absent hrest hsupported =>
    obtain ⟨rfl, w, rfl, rfl⟩ := (returns_storeFlag hc (means_id hb)).of_ret hbody
    refine ⟨by rw [← hu]; rfl, [false], [], rfl, .absent hrest hsupported⟩
  | present _ hstruct => simp [Plan.OpKind.isStruct] at hstruct
  | @boxed _ _ _ v hv hbox =>
    rw [hbox.isNull_boxed] at hbody
    obtain ⟨w, rfl, hbody⟩ := (returns_storeFlag hc (means_id hb)).of_assign hb hbody
    generalize hu' : u.set "b" (.builder (b.push [true] [])) = u' at hbody
    have hb' : u'.get? "b" = some (.builder (b.push [true] [])) := by simp [← hu']
    have hvar' : u'.get? "v" = some v.boxed := by simp [← hu', hvar]
    have hopen : Means c u' (Target.call (Name.notNull r.name) [Target.id "v"]) v :=
      (yields_call_means (.cons (means_id hvar') .nil)).2 (hbox.opens u')
    have hstore : Returns c u' (Target.call (Name.writer r.name)
        [Target.id "b", Target.call (Name.notNull r.name) [Target.id "v"]])
        fun w => ∃ bits refs, w = .builder ((b.push [true] []).push bits refs) ∧
          Stored c env r.name v bits refs := by
      intro w s' hw
      rw [yields_call_means (.cons (means_id hb') (.cons hopen .nil))] at hw
      exact hv.stores hw
    obtain ⟨rfl, w, rfl, bits, refs, rfl, hstored⟩ := hstore.of_ret hbody
    refine ⟨by rw [← hu', ← hu]; rfl, true :: bits, refs, by simp, .boxed (.inPlace hstored) hbox⟩

/-- A record that may be absent is loaded back. -/
theorem readerOpt_reads (hc : c.Plain) (hname : SupportedOptional c env name) {field : String}
    (h : EncodesField c env ⟨field, .struct name false, true⟩ v bits refs) {x : Slice}
    {rest : List Bool} {others : List Cell} (hx : x.Holds (bits ++ rest) (refs ++ others))
    (hrest : env.program.plans.Delimited name ∨ rest = [] ∧ others = []) (s : State) :
    ∃ w x', Yields (call c (Name.readerOpt name) [.slice x]) s (.tensor [.slice x', w]) s ∧
      w.Same v ∧ x'.Holds rest others := by
  obtain ⟨r, rfl, hcodecs⟩ := hname
  obtain ⟨d, item, d', hrun, -, -, hget⟩ := hcodecs.readerOpt
  simp only [readerOptItem, used, run_bind, run_modify, run_pure] at hrun
  obtain ⟨_, _, ⟨_, _, rfl, rfl, rfl⟩, _, _, ⟨_, _, rfl, rfl, rfl⟩, rfl, rfl⟩ := hrun
  have hhas : c.Has (Name.readerOpt r.name) ["sc"] _ := ⟨_, hget _ (by simp), by simp⟩
  generalize hu : s.enter ["sc"] [.slice x] = u
  have hvar : u.get? "sc" = some (.slice x) := by simp [← hu, State.enter, State.get?, Dict.ofList]
  cases h with
  | absent _ _ =>
    obtain ⟨x', hread, hx'⟩ := read_load_flag hx
    have hflag := yields_read hc (by decide) hvar (.cons means_int .nil) hread
    generalize ht : u.set "sc" (.slice x') = t at hflag
    have hresult : Means c t (.tensor [Target.id "sc", Target.null]) (.tensor [.slice x', .null]) :=
      .tensor (.cons (means_id (by simp [← ht])) (.cons (means_null hc) .nil))
    refine ⟨.null, x', hhas.returns (t := t) rfl ?_ (by rw [← ht, ← hu]; rfl)
      (by rw [← ht, ← hu]; rfl), .refl _, hx'⟩
    rw [hu, yields_block_ifElse]
    exact ⟨_, t, hflag, false, truthy_bool, (yields_ret_means hresult).2 ⟨rfl, rfl⟩⟩
  | present _ hstruct => simp [Plan.OpKind.isStruct] at hstruct
  | @boxed _ _ _ v bits _ hv hbox =>
    cases hv with
    | inPlace hstored =>
      obtain ⟨x₁, hread, hx₁⟩ := read_load_flag hx
      have hflag := yields_read hc (by decide) hvar (.cons means_int .nil) hread
      generalize ht₁ : u.set "sc" (.slice x₁) = t₁ at hflag
      obtain ⟨w, x', hcall, hw, hx'⟩ := hstored.reads t₁ hx₁ hrest
      obtain ⟨item, hitem⟩ := hcodecs.get?_reader
      have hvar₁ : t₁.get? "sc" = some (.slice x₁) := by simp [← ht₁]
      have hload := yields_reader hitem hvar₁ hcall
      generalize ht : (t₁.set "sc" (.slice x')).set "v" w = t
      have hboxed : Means c t (Target.call (Name.asOptional r.name) [Target.id "v"]) w.boxed :=
        (yields_call_means (.cons (means_id (by simp [← ht])) .nil)).2 (hbox.boxes t hw)
      have hresult : Means c t
          (.tensor [Target.id "sc", Target.call (Name.asOptional r.name) [Target.id "v"]])
          (.tensor [.slice x', w.boxed]) :=
        .tensor (.cons (means_id (by simp [← ht])) (.cons hboxed .nil))
      refine ⟨w.boxed, x', hhas.returns (t := t) rfl ?_ (by rw [← ht, ← ht₁, ← hu]; rfl)
        (by rw [← ht, ← ht₁, ← hu]; rfl), hw.boxed, hx'⟩
      rw [hu, yields_block_ifElse]
      refine ⟨_, t₁, hflag, true, truthy_bool, yields_block_var.2
        ⟨w, _, hload, t, ?_, (yields_ret_means hresult).2 ⟨rfl, rfl⟩⟩⟩
      rw [Target.id, yields_bind_ident, State.assign_of_declare, ht]

theorem OptionalCodecs.get?_readerOpt (h : OptionalCodecs c env r) :
    ∃ item, c.functions.get? (Name.readerOpt r.name) = some item := by
  obtain ⟨d, item, d', hrun, -, -, hget⟩ := h.readerOpt
  simp only [readerOptItem, used, run_bind, run_modify, run_pure] at hrun
  obtain ⟨_, _, ⟨_, _, rfl, rfl, rfl⟩, _, _, ⟨_, _, rfl, rfl, rfl⟩, rfl, rfl⟩ := hrun
  exact ⟨_, hget _ (by simp)⟩

/-! ### Cells that may be absent -/

/-- A record that may be absent, in a cell of its own. -/
theorem writerCellOpt_stores (hc : c.Plain) (h : OptionalCodecs c env r)
    (hv : v = .null ∨ ∃ u, v = u.boxed ∧ Storable c env r.name u ∧ Boxable c env r.name u)
    (hcall : Yields (call c (Name.writerCellOpt r.name) [v]) s w s') :
    s' = s ∧ ((v = .null ∧ w = .null) ∨ ∃ u bits refs, v = u.boxed ∧ w = .cell (.mk bits refs) ∧
      Stored c env r.name u bits refs ∧ Boxable c env r.name u) := by
  obtain ⟨d, item, d', hrun, -, -, hget⟩ := h.writerCellOpt
  simp only [writerCellOptItem, used, run_bind, run_modify, run_pure] at hrun
  obtain ⟨_, _, ⟨_, _, rfl, rfl, rfl⟩, _, _, ⟨_, _, rfl, rfl, rfl⟩, rfl, rfl⟩ := hrun
  have hhas : c.Has (Name.writerCellOpt r.name) ["v"] _ := ⟨_, hget _ (by simp), by simp⟩
  obtain ⟨-, q, t, hbody, rfl, rfl⟩ := hhas.yields.1 hcall
  generalize hu : s.enter ["v"] [v] = u at hbody
  have hvar : u.get? "v" = some v := by simp [← hu, State.enter, State.get?, Dict.ofList]
  rw [yields_ifThen_means (means_isNull hc (means_id hvar))] at hbody
  rcases hv with rfl | ⟨v, rfl, hv, hbox⟩
  · obtain ⟨rfl, rfl⟩ := (yields_ret_means (means_null hc)).1 hbody
    exact ⟨by rw [← hu]; rfl, .inl ⟨rfl, rfl⟩⟩
  · rw [hbox.isNull_boxed] at hbody
    have hopen : Means c u (Target.call (Name.notNull r.name) [Target.id "v"]) v :=
      (yields_call_means (.cons (means_id hvar) .nil)).2 (hbox.opens u)
    have hstore : Returns c u (Target.call (Name.writerCell r.name)
        [Target.call (Name.notNull r.name) [Target.id "v"]])
        fun w => ∃ bits refs, w = .cell (.mk bits refs) ∧ Stored c env r.name v bits refs := by
      intro w s' hw
      rw [yields_call_means (.cons hopen .nil)] at hw
      exact writerCell_stores hc h.toCodecs hv hw
    obtain ⟨rfl, w, rfl, bits, refs, rfl, hstored⟩ := hstore.of_ret hbody
    exact ⟨by rw [← hu]; rfl, .inr ⟨v, bits, refs, rfl, rfl, hstored, hbox⟩⟩

/-- A record in a cell that is not absent is loaded back in its optional form. -/
theorem readerCellOpt_boxes (hc : c.Plain) (h : OptionalCodecs c env r) {u : Val}
    (hstored : Stored c env r.name u bits refs) (hbox : Boxable c env r.name u) (s : State) :
    ∃ v' : Val, Yields (call c (Name.readerCellOpt r.name) [.cell (.mk bits refs)]) s v'.boxed s ∧
      v'.Same u := by
  obtain ⟨d, item, d', hrun, -, -, hget⟩ := h.readerCellOpt
  simp only [readerCellOptItem, used, run_bind, run_modify, run_pure] at hrun
  obtain ⟨_, _, ⟨_, _, rfl, rfl, rfl⟩, _, _, ⟨_, _, rfl, rfl, rfl⟩, rfl, rfl⟩ := hrun
  have hhas : c.Has (Name.readerCellOpt r.name) ["cl"] _ := ⟨_, hget _ (by simp), by simp⟩
  generalize hu : s.enter ["cl"] [.cell (.mk bits refs)] = u
  have hvar : u.get? "cl" = some (.cell (.mk bits refs)) := by
    simp [← hu, State.enter, State.get?, Dict.ofList]
  have hparse : Means c u (Target.beginParse (Target.id "cl")) (.slice (Cell.mk bits refs).parse) :=
    .primitive hc (by decide) (.cons (means_id hvar) .nil) (call_begin_parse.2 rfl)
  generalize ht : u.set "sc" (.slice (Cell.mk bits refs).parse) = t
  obtain ⟨v', hread, hsame⟩ := hstored.readerNotMut hc (Slice.holds_parse bits refs) t
  have hload : Means c t (Target.call (Name.readerNotMut r.name) [Target.id "sc"]) v' :=
    (yields_call_means (.cons (means_id (by simp [← ht])) .nil)).2 hread
  have hboxed : Means c t (Target.call (Name.asOptional r.name)
      [Target.call (Name.readerNotMut r.name) [Target.id "sc"]]) v'.boxed :=
    (yields_call_means (.cons hload .nil)).2 (hbox.boxes t hsame)
  refine ⟨v', hhas.returns (t := t) rfl ?_ (by rw [← ht, ← hu]; rfl) (by rw [← ht, ← hu]; rfl), hsame⟩
  rw [hu, yields_ifThen_means (means_isNull hc (means_id (c := c) hvar))]
  refine (yields_var_means hparse).2 ?_
  rw [ht]
  exact (yields_ret_means hboxed).2 ⟨rfl, rfl⟩

/-- A record in a cell that may be absent is loaded back. -/
theorem readerCellOpt_reads (hc : c.Plain) (h : OptionalCodecs c env r)
    (hv : (v = .null ∧ w = .null) ∨ ∃ u bits refs, v = u.boxed ∧ w = .cell (.mk bits refs) ∧
      Stored c env r.name u bits refs ∧ Boxable c env r.name u) (s : State) :
    ∃ v', Yields (call c (Name.readerCellOpt r.name) [w]) s v' s ∧ v'.Same v := by
  rcases hv with ⟨rfl, rfl⟩ | ⟨u, bits, refs, rfl, rfl, hstored, hbox⟩
  · obtain ⟨d, item, d', hrun, -, -, hget⟩ := h.readerCellOpt
    simp only [readerCellOptItem, used, run_bind, run_modify, run_pure] at hrun
    obtain ⟨_, _, ⟨_, _, rfl, rfl, rfl⟩, _, _, ⟨_, _, rfl, rfl, rfl⟩, rfl, rfl⟩ := hrun
    have hhas : c.Has (Name.readerCellOpt r.name) ["cl"] _ := ⟨_, hget _ (by simp), by simp⟩
    generalize hu : s.enter ["cl"] [.null] = u
    have hvar : u.get? "cl" = some .null := by simp [← hu, State.enter, State.get?, Dict.ofList]
    refine ⟨.null, hhas.returns (t := u) rfl ?_ (by rw [← hu]; rfl) (by rw [← hu]; rfl), .refl _⟩
    rw [hu, yields_ifThen_means (means_isNull hc (means_id (c := c) hvar))]
    exact (yields_ret_means (means_null hc)).2 ⟨rfl, rfl⟩
  · obtain ⟨v', hread, hsame⟩ := readerCellOpt_boxes hc h hstored hbox s
    exact ⟨v'.boxed, hread, hsame.boxed⟩

/-! ### Boxes -/

/-- The value of a record: a product of as many parts as there are fields, or an empty tuple. -/
inductive IsRecord (decl : TypeDecl) (sh : Layout.Shape) : Val → Prop where
  | empty : decl.fields = [] → IsRecord decl sh (.tuple [])
  | product {vs : List Val} : decl.fields ≠ [] → sh.Fits (.tensor vs) → IsRecord decl sh (.tensor vs)

variable {decl : TypeDecl} {view : RecordView} {sh : Layout.Shape}

theorem IsRecord.same (h : IsRecord decl sh v) (hsame : w.Same v) : IsRecord decl sh w := by
  cases h with
  | empty hfields =>
    cases w with
    | tuple items =>
      cases items with
      | nil => exact .empty hfields
      | cons x xs => simp [Val.Same, Val.norm, Val.normAll] at hsame
    | _ => simp [Val.Same, Val.norm] at hsame
  | product hfields hfits =>
    have hw := hfits.same hsame
    cases w with
    | tensor items => exact .product hfields hw
    | _ => simp [Val.Same, Val.norm] at hsame

theorem IsRecord.isNull_boxed (h : IsRecord decl sh v) : v.boxed.isNull = false := by
  cases h <;> rfl

/-- A boxed record is opened. -/
theorem notNull_opens (hc : c.Plain) (hview : ViewOf env decl view sh) (h : Boxes c env view)
    (hsh : sh.names.Nodup) (hv : IsRecord decl sh v) (s : State) :
    Yields (call c (Name.notNull decl.name) [v.boxed]) s v s := by
  obtain ⟨d, item, d', hrun, hsound, hback, hget⟩ := h.notNull
  have hempty : view.isEmpty = decl.fields.isEmpty := by rw [RecordView.isEmpty, hview.decl_eq]
  have hname : view.name = decl.name := by rw [RecordView.name, hview.decl_eq]
  simp only [RecordView.notNullItem, RecordView.conversion, hempty, hname, hview.leaves_eq,
    hview.pattern_eq, List.length_map] at hrun
  generalize hu : s.enter ["v"] [v.boxed] = u
  have hvar : u.get? "v" = some v.boxed := by simp [← hu, State.enter, State.get?, Dict.ofList]
  have hnull := means_isNull hc (means_id (c := c) hvar)
  rw [hv.isNull_boxed] at hnull
  cases hv with
  | empty hfields =>
    simp only [hfields, List.isEmpty_nil, if_true, run_bind, run_pure] at hrun
    obtain ⟨_, _, ⟨rfl, rfl⟩, rfl, rfl⟩ := hrun
    have hhas : c.Has (Name.notNull decl.name) ["v"] _ := ⟨_, hget _ (by simp), by simp⟩
    refine hhas.returns (t := u) rfl ?_ (by rw [← hu]; rfl) (by rw [← hu]; rfl)
    rw [hu, yields_throwIf hc hnull]
    exact ⟨rfl, (yields_ret_means (means_id hvar)).2 ⟨rfl, rfl⟩⟩
  | @product vs hfields hfits =>
    have hnonempty : decl.fields.isEmpty = false := by simpa using hfields
    simp only [hnonempty, Bool.false_eq_true, if_false, run_bind, run_pure] at hrun
    obtain ⟨destroy, d₁, hhelper, _, _, ⟨rfl, rfl⟩, rfl, rfl⟩ := hrun
    have hhas : c.Has (Name.notNull decl.name) ["v"] _ := ⟨_, hget _ (by simp), by simp⟩
    obtain ⟨rfl, hlt, hhelps⟩ := helper_tupleDestroy hhelper hsound hback
    have hlength : (Val.flattenAll vs).length = sh.names.length := by
      simpa [Val.flatten] using hfits.length
    have hdestroy : Means c u (Target.call (Helper.tupleDestroyName sh.names.length)
        [Target.id "v"]) (.tensor (Val.flattenAll vs)) := by
      rw [Means, yields_call_means (.cons (means_id hvar) .nil), yields_asm hhelps]
      exact ⟨asm_untuple hlt hlength, rfl⟩
    generalize ht : u.setAll (sh.names.zip (Val.flattenAll vs)) = t
    have hbound : Bound t sh (.tensor vs) := ht ▸ bound_setAll hfits hsh
    refine hhas.returns (t := t) rfl ?_ (by simp [← ht, ← hu]; rfl) (by simp [← ht, ← hu]; rfl)
    rw [hu, yields_throwIf hc hnull, yields_block_var]
    refine ⟨rfl, _, u, hdestroy, t, ?_, (yields_ret_means hbound.yields).2 ⟨rfl, rfl⟩⟩
    exact (yields_bind_idents hlength).2 ht.symm

/-- A record is boxed. -/
theorem asOptional_boxes (hview : ViewOf env decl view sh) (h : Boxes c env view)
    (hsh : sh.names.Nodup) (hv : IsRecord decl sh v) (s : State) :
    Yields (call c (Name.asOptional decl.name) [v]) s v.boxed s := by
  obtain ⟨d, item, d', hrun, hsound, hback, hget⟩ := h.asOptional
  have hempty : view.isEmpty = decl.fields.isEmpty := by rw [RecordView.isEmpty, hview.decl_eq]
  have hname : view.name = decl.name := by rw [RecordView.name, hview.decl_eq]
  simp only [RecordView.asOptionalItem, RecordView.conversion, RecordView.bindLeaves, hempty, hname,
    hview.leaves_eq, hview.pattern_eq, List.length_map] at hrun
  generalize hu : s.enter ["v"] [v] = u
  have hvar : u.get? "v" = some v := by simp [← hu, State.enter, State.get?, Dict.ofList]
  cases hv with
  | empty hfields =>
    simp only [hfields, List.isEmpty_nil, if_true, run_bind, run_pure] at hrun
    obtain ⟨_, _, ⟨rfl, rfl⟩, rfl, rfl⟩ := hrun
    have hhas : c.Has (Name.asOptional decl.name) ["v"] _ := ⟨_, hget _ (by simp), by simp⟩
    refine hhas.returns (t := u) rfl ?_ (by rw [← hu]; rfl) (by rw [← hu]; rfl)
    rw [hu]
    exact (yields_ret_means (means_id hvar)).2 ⟨rfl, rfl⟩
  | @product vs hfields hfits =>
    have hnonempty : decl.fields.isEmpty = false := by simpa using hfields
    simp only [hnonempty, Bool.false_eq_true, if_false, run_bind, run_pure] at hrun
    obtain ⟨create, d₁, hhelper, _, _, ⟨rfl, rfl⟩, rfl, rfl⟩ := hrun
    have hhas : c.Has (Name.asOptional decl.name) ["v"] _ := ⟨_, hget _ (by simp), by simp⟩
    obtain ⟨rfl, hlt, hhelps⟩ := helper_tupleCreate hhelper hsound hback
    generalize ht : u.setAll (sh.names.zip (Val.flattenAll vs)) = t
    have hbound : Bound t sh (.tensor vs) := ht ▸ bound_setAll hfits hsh
    have hleaves := Val.flattenAll_of_isLeaf (Val.isLeaf_of_mem_flattenAll vs)
    have hlength : (Val.flattenAll vs).length = sh.names.length := by
      simpa [Val.flatten] using hfits.length
    have hargs : Means c t (.tensor (sh.names.map Target.id)) (.tensor (Val.flattenAll vs)) :=
      yields_tensor.2 ⟨_, yields_evalAll_idents hbound.leaves, rfl⟩
    have hcreate : Means c t (Target.call (Helper.tupleCreateName sh.names.length)
        [.tensor (sh.names.map Target.id)]) (.tuple (Val.flattenAll vs)) := by
      rw [Means, yields_call_means (.cons hargs .nil), yields_asm hhelps]
      refine ⟨?_, rfl⟩
      have hone : Val.flattenAll [.tensor (Val.flattenAll vs)] = Val.flattenAll vs := by
        simp [Val.flattenAll, Val.flatten, hleaves]
      rw [asm_tuple hlt (by rw [hone, hlength]), hone]
    refine hhas.returns (t := t) rfl ?_ (by simp [← ht, ← hu]; rfl) (by simp [← ht, ← hu]; rfl)
    rw [hu, yields_block_var]
    refine ⟨_, u, means_id hvar, t, ?_, (yields_ret_means hcreate).2 ⟨rfl, rfl⟩⟩
    rw [yields_bind_pattern hfits, Val.flatten, ht]

end CellCompiler
