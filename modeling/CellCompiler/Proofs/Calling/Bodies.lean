import CellCompiler.Proofs.Calling.Lowering

/-!
# Calls in lowered bodies

Statements, functions of the source and message handlers.

* `lowerStmts_accepted` goes by induction on the statements of the source;
* `Agrees` says of a function that its calls are accepted and that its head is one that callers rely
  on; `functionItem_agrees`, `notMutItem_agrees` and `receiverItem_agrees` are about the functions that
  are made of bodies.
-/

namespace CellCompiler

open Target

namespace Generate

variable {env : Env} {loc : Location} {ty : TypeRef} {name type : String}

/-- Every call in the statements is accepted. -/
abbrev AcceptedStmts (env : Env) (g : Gen (List Target.Stmt)) : Prop :=
  Yields env g fun out => ∀ t ∈ out, t.EveryCall env.Accepts

/-! ### Statements -/

theorem bindVariable_yields {init : Target.Expr} (hinit : init.EveryCall env.Accepts) :
    Yields env (bindVariable ty name init) (Target.Stmt.EveryCall env.Accepts) := by
  refine .andThen fun unpacked => ?_
  split
  · exact unpack_yields.bind fun pattern hpattern => .pure (by simpa using ⟨hpattern, hinit⟩)
  · exact .andThen fun ty => .pure (by simpa using hinit)

theorem everyCall_catchPattern {name? : Option String} : (catchPattern name?).EveryCall env.Accepts := by
  cases name? <;> simp [catchPattern]

/-- Every call that a walk over a map makes is accepted. -/
structure Cursor.Accepted (env : Env) (c : Cursor) : Prop where
  before : ∀ stmt ∈ c.before, stmt.EveryCall env.Accepts
  source : c.source.EveryCall env.Accepts
  decode : ∀ stmt ∈ c.decode, stmt.EveryCall env.Accepts
  min : Helper.isDictionary c.min = true
  next : Helper.isDictionary c.next = true

theorem Cursor.Accepted.loop {c : Cursor} (hc : c.Accepted env) {body : List Target.Stmt}
    (hbody : ∀ stmt ∈ body, stmt.EveryCall env.Accepts) :
    ∀ stmt ∈ c.loop body, stmt.EveryCall env.Accepts := by
  have hpattern : c.pattern.EveryCall env.Accepts := by simp [Cursor.pattern]
  have hstart : c.start.EveryCall env.Accepts := by
    refine everyCall_var.2 ⟨hpattern, everyCall_called.2
      ⟨.inr (TypeTable.suits_dictionary hc.min), everyCall_withValueBits ?_⟩⟩
    simpa using hc.source
  have hadvance : c.advance.EveryCall env.Accepts := by
    refine everyCall_assignment.2 ⟨hpattern, everyCall_called.2
      ⟨.inr (TypeTable.suits_dictionary hc.next), everyCall_withValueBits ?_⟩⟩
    simpa using hc.source
  have hround : ∀ stmt ∈ c.decode ++ body ++ [c.advance], stmt.EveryCall env.Accepts := by
    simp only [List.forall_mem_append, List.forall_mem_singleton]
    exact ⟨⟨hc.decode, hbody⟩, hadvance⟩
  refine List.forall_mem_append.2 ⟨hc.before, List.forall_mem_cons.2 ⟨hstart, ?_⟩⟩
  exact List.forall_mem_singleton.2 (Stmt.everyCall_whileLoop.2 ⟨everyCall_id, hround⟩)

theorem bindOnce_yields {stem : String} {code : Target.Expr} (hcode : code.EveryCall env.Accepts) :
    Yields env (bindOnce stem code) fun p =>
      (∀ stmt ∈ p.1, stmt.EveryCall env.Accepts) ∧ p.2.EveryCall env.Accepts := by
  unfold bindOnce
  split
  · exact .pure (by simpa using hcode)
  · exact .andThen fun name => .pure (by simpa using hcode)

theorem cursorValue_yields {kind : MapKind} {value : String}
    (hkind : ∀ type, kind.value = .struct type → '$' ∉ type.toList) :
    Yields env (cursorValue kind value) fun p => ∀ stmt ∈ p.2, stmt.EveryCall env.Accepts := by
  unfold cursorValue
  split
  · next type htype =>
    refine .andThen fun raw => unpack_yields.bind fun pattern hpattern => ?_
    have hplain := hkind type htype
    refine (Yields.callUsed.call (suits_part (.codec .readerCellOpt) hplain rfl (by simp))
      (by simp)).bind fun loaded hloaded => ?_
    refine (Yields.callUsed.call (suits_part .notNull hplain rfl (by simp))
      (by simpa using hloaded)).bind fun decoded hdecoded => .pure ?_
    simpa using ⟨hpattern, hdecoded⟩
  · exact .pure (by simp)

theorem cursor_yields (h : env.program.Followed) {s : Scope} {key value : String} {map : Expr}
    (hmap : ∀ part ∈ map.parts, part.FitsTable env.program.types) :
    Yields env (cursor s key value map loc) (Cursor.Accepted env) := by
  unfold cursor
  rw [← bind_assoc]
  refine (mapKind_yields h).bind fun kind hkind => ?_
  refine (lower_accepted h s map hmap).bind fun code hcode => (bindOnce_yields hcode).bind ?_
  rintro ⟨before, source⟩ ⟨hbefore, hsource⟩
  refine .andThen fun flag => (cursorValue_yields hkind).bind fun (raw, decode) hdecode => ?_
  refine .used_bind (.used_bind (.andThen fun _ => .andThen fun _ => .pure ?_))
  exact ⟨hbefore, hsource, hdecode, isDictionary_operation (by simp), isDictionary_operation (by simp)⟩

mutual

theorem lowerStmt_accepted (h : env.program.Followed) (s : Scope) : (stmt : Stmt) →
    (∀ part ∈ stmt.exprs, part.FitsTable env.program.types) → AcceptedStmts env (lowerStmt s stmt)
  | .letVar .., hparts => (lowerCast_accepted h hparts).bind fun init hinit =>
      (bindVariable_yields hinit).bind fun t ht => .pure (by simpa using ht)
  | .assign .., hparts => lvalue_accepted.bind fun target htarget =>
      (lowerCast_accepted h (List.forall_mem_append.1 hparts).2).bind fun code hcode =>
      .pure (by simp [hcode, htarget])
  | .augmentedAssign _ _ _ value, hparts => lvalue_accepted.bind fun target htarget =>
      (lower_accepted h s value (List.forall_mem_append.1 hparts).2).bind fun code hcode =>
      .pure (by simp [hcode, htarget])
  | .ret _ none, _ => (returned_accepted (by simp)).bind fun e he => .pure (by simpa using he)
  | .ret _ (some _), hparts => ((lowerCast_accepted h hparts).map (f := some)
      (Q := fun value? => ∀ v ∈ value?, v.EveryCall env.Accepts) (by simp)).bind fun code hcode =>
      (returned_accepted hcode).bind fun e he => .pure (by simpa using he)
  | .expression _ e, hparts => (lower_accepted h s e hparts).bind fun code hcode =>
      .pure (by simpa using hcode)
  | .condition _ cond body otherwise, hparts => by
    obtain ⟨hboth, hotherwise⟩ := List.forall_mem_append.1 hparts
    obtain ⟨hcond, hbody⟩ := List.forall_mem_append.1 hboth
    exact (lower_accepted h s cond hcond).bind fun c hc => (lowerStmts_accepted h s body hbody).bind
      fun b hb => (lowerOtherwise_yields h s otherwise hotherwise).bind fun o ho =>
      .pure (by simpa using ⟨hc, hb, ho⟩)
  | .whileLoop _ cond body, hparts => by
    obtain ⟨hcond, hbody⟩ := List.forall_mem_append.1 hparts
    exact (lower_accepted h s cond hcond).bind fun c hc =>
      (lowerStmts_accepted h s body hbody).bind fun b hb => .pure (by simpa using ⟨hc, hb⟩)
  | .untilLoop _ body cond, hparts => by
    obtain ⟨hcond, hbody⟩ := List.forall_mem_append.1 hparts
    exact (lowerStmts_accepted h s body hbody).bind fun b hb =>
      (lower_accepted h s cond hcond).bind fun c hc => .pure (by simpa using ⟨hc, hb⟩)
  | .repeatLoop _ count body, hparts => by
    obtain ⟨hcount, hbody⟩ := List.forall_mem_append.1 hparts
    exact (lower_accepted h s count hcount).bind fun c hc =>
      (lowerStmts_accepted h s body hbody).bind fun b hb => .pure (by simpa using ⟨hc, hb⟩)
  | .tryCatch _ body _ handler, hparts => by
    obtain ⟨hbody, hhandler⟩ := List.forall_mem_append.1 hparts
    exact (lowerStmts_accepted h s body hbody).bind fun b hb =>
      (lowerStmts_accepted h s handler hhandler).bind fun c hc =>
      .pure (by simpa using ⟨hb, everyCall_catchPattern, hc⟩)
  | .foreach _ _ _ map body, hparts => by
    obtain ⟨hmap, hbody⟩ := List.forall_mem_append.1 hparts
    exact (cursor_yields h hmap).bind fun c hc => (lowerStmts_accepted h s body hbody).bind
      fun b hb => .pure (hc.loop hb)

/-- **Bodies call as the source does.** -/
theorem lowerStmts_accepted (h : env.program.Followed) (s : Scope) : (stmts : List Stmt) →
    (∀ part ∈ stmtExprs stmts, part.FitsTable env.program.types) →
    AcceptedStmts env (lowerStmts s stmts)
  | [], _ => .pure (by simp)
  | stmt :: rest, hparts => by
    obtain ⟨hstmt, hrest⟩ := List.forall_mem_append.1 hparts
    exact (lowerStmt_accepted h s stmt hstmt).bind fun first hfirst =>
      (lowerStmts_accepted h s rest hrest).bind fun out hout =>
      .pure (List.forall_mem_append.2 ⟨hfirst, hout⟩)

theorem lowerOtherwise_yields (h : env.program.Followed) (s : Scope) : (otherwise : Otherwise) →
    (∀ part ∈ otherwise.exprs, part.FitsTable env.program.types) →
    Yields env (lowerOtherwise s otherwise) (Target.Otherwise.EveryCall env.Accepts)
  | .absent, _ => .pure (by simp)
  | .block body, hparts => (lowerStmts_accepted h s body hparts).bind fun b hb =>
      .pure (by simpa using hb)
  | .chain (.condition _ cond body otherwise), hparts => by
    obtain ⟨hboth, hotherwise⟩ := List.forall_mem_append.1 hparts
    obtain ⟨hcond, hbody⟩ := List.forall_mem_append.1 hboth
    exact (lower_accepted h s cond hcond).bind fun c hc => (lowerStmts_accepted h s body hbody).bind
      fun b hb => (lowerOtherwise_yields h s otherwise hotherwise).bind fun o ho =>
      .pure (by simpa using ⟨hc, hb, ho⟩)
  | .chain (.letVar ..), _ | .chain (.assign ..), _ | .chain (.augmentedAssign ..), _
  | .chain (.ret ..), _ | .chain (.expression ..), _ | .chain (.whileLoop ..), _
  | .chain (.untilLoop ..), _ | .chain (.repeatLoop ..), _ | .chain (.tryCatch ..), _
  | .chain (.foreach ..), _ => .defectAt

end

/-! ### Whole functions -/

/-- The function makes calls that fit, and its head is one that callers rely on. -/
structure Agrees (env : Env) (item : Item) : Prop where
  calls : item.EveryCall env.Accepts
  signs : ∀ s ∈ item.signature?, env.program.types.Signs s

theorem agrees_define {s : Signature} {body : List Target.Stmt} (hs : env.program.types.Signs s)
    (hbody : ∀ t ∈ body, t.EveryCall env.Accepts) : Agrees env (s.define body) :=
  ⟨Item.everyCall_define.2 hbody, by simpa using hs⟩

theorem signs_part (p : Name.Part) {s : Signature} (htype : '$' ∉ type.toList)
    (hname : s.name = p.name type)
    (harity : s.params.length = (p.convention (env.program.types.initArity type)).arity)
    (hthreads : (p.convention (env.program.types.initArity type)).threads = true → s.threads = true) :
    env.program.types.Signs s := by
  refine .origin (o := .member type (.part p)) ?_ (by rw [hname]; rfl) fun c hc => ?_
  · simpa [Name.Origin.IsPlain, Name.Origin.identifiers] using htype
  · obtain rfl := Option.some.inj hc
    exact ⟨harity, hthreads⟩

/-- The parameters that are added have the types of the bindings. -/
theorem withBindings_yields {signature : Signature} {bindings : List Binding} :
    Yields env (withBindings signature bindings) fun s => s.name = signature.name ∧
      ∃ ps, s.params = signature.params ++ ps ∧ List.Forall₂ (fun (binding : Binding) p =>
        Layout.representation env.program.types binding.2 = .ok p.ty) bindings ps := by
  induction bindings generalizing signature with
  | nil => exact .pure ⟨rfl, [], by simp, .nil⟩
  | cons binding rest ih =>
    refine representation_yields.bind fun t ht => ih.mono fun s ⟨hname, ps, hps, hall⟩ => ?_
    exact ⟨hname, ⟨t, binding.1⟩ :: ps, by simpa using hps, .cons ht hall⟩

theorem prologue_accepted {bindings : List Binding} : AcceptedStmts env (prologue bindings) := by
  induction bindings with
  | nil => exact .pure (by simp)
  | cons binding rest ih =>
    refine .andThen fun unpacked => ?_
    split
    · refine unpack_yields.bind fun pattern hpattern => ih.bind fun out hout => .pure ?_
      simpa using ⟨hpattern, hout⟩
    · exact ih

theorem lowerBody_accepted (h : env.program.Followed) {s : Scope} {params : List Binding}
    {stmts : List Stmt} (hparts : ∀ part ∈ stmtExprs stmts, part.FitsTable env.program.types) :
    AcceptedStmts env (lowerBody s params stmts) := by
  have hepilogue : AcceptedStmts env (epilogue s stmts) := by
    unfold epilogue
    split
    · exact (returned_accepted (by simp)).bind fun e he => .pure (by simpa using he)
    · exact .pure (by simp)
  refine prologue_accepted.bind fun before hbefore =>
    (lowerStmts_accepted h s stmts hparts).bind fun body hbody =>
    hepilogue.bind fun after hafter => .pure ?_
  exact List.forall_mem_append.2 ⟨List.forall_mem_append.2 ⟨hbefore, hbody⟩, hafter⟩

/-! ### Functions of the source -/

/-- What a function of the program is emitted as. -/
theorem functionName_origin (h : env.program.Followed) {f : Function}
    (hf : env.program.types.HasFunction f) {d d' : Draft} (hrun : functionName f env d = .ok name d') :
    (f.selfType = none ∧ name = Name.globalFunction f.name ∧
      env.program.types.functions.get? f.name = some f) ∨
    ∃ owner ty, '$' ∉ owner.toList ∧ f.selfType = some ty ∧ name = Name.method owner f.name ∧
      env.program.types.method? owner f.name = some f := by
  rcases hf with hf | ⟨decl, hdecl, hf⟩
  · have hself := h.free f hf
    simp only [functionName, hself, run_pure] at hrun
    exact .inl ⟨hself, hrun.1.symm, h.functions.get?_name hf⟩
  · obtain ⟨ty, hself, hty⟩ := Option.bind_eq_some_iff.1 (h.owned decl hdecl f hf)
    simp only [functionName, hself, hty, run_pure] at hrun
    refine .inr ⟨decl.name, ty, unmarked_of_mem h hdecl, hself, hrun.1.symm, ?_⟩
    simp [TypeTable.method?, h.wellNamed.get?_name hdecl, (h.methods decl hdecl).get?_name hf]

theorem functionItem_agrees (h : env.program.Followed) {f : Function} {stmts : List Stmt}
    (hf : env.program.types.HasFunction f) (hbody : f.body = .statements stmts) {d d' : Draft}
    (hrun : functionName f env d = .ok name d') :
    Yields env (functionItem f name stmts) (Agrees env) := by
  have hresult : Yields env (resultTy f) fun result => ∀ ty, f.selfType = some ty → f.mutates = true →
      ∃ t rest, Layout.representation env.program.types ty = .ok t ∧ result = .tensor [t, rest] := by
    refine .andThen fun rest => ?_
    split
    · next ty hself _ =>
      refine representation_yields.bind fun t ht => .pure fun ty' hself' _ => ⟨t, rest, ?_, rfl⟩
      obtain rfl : ty = ty' := by simpa [hself] using hself'
      exact ht
    · next hnot => exact .pure fun ty hself hmutates => absurd hmutates (hnot ty hself)
  refine withBindings_yields.bind fun s ⟨hname, ps, hps, hall⟩ => hresult.bind fun result hresult => ?_
  refine (lowerBody_accepted h (h.fits_function hf hbody)).bind fun body hbody => .pure ?_
  refine agrees_define ?_ hbody
  have hlength : ps.length = (bindingsOf f).length := hall.length_eq.symm
  have hplain := h.unmarked_function hf
  rcases functionName_origin h hf hrun with ⟨hself, rfl, hget⟩ | ⟨owner, ty, howner, hself, rfl, hget⟩
  · refine .origin (o := .globalFunction f.name) ?_ (by simp [hname, Name.Origin.name]) fun c hc => ?_
    · simpa [Name.Origin.IsPlain, Name.Origin.identifiers] using hplain
    · obtain rfl : _ = c := by simpa [Name.Origin.convention, hget] using hc
      exact ⟨by simp [hps, hlength, bindingsOf, hself], by simp⟩
  · refine .origin (o := .member owner (.method f.name)) ?_
      (by simp [hname, Name.Origin.name, Name.Member.name]) fun c hc => ?_
    · simpa [Name.Origin.IsPlain, Name.Origin.identifiers] using ⟨howner, hplain⟩
    · obtain rfl : _ = c := by simpa [Name.Origin.convention, hget] using hc
      refine ⟨by simp [hps, hlength, bindingsOf, hself], fun hmutates => ?_⟩
      obtain ⟨t, rest, ht, rfl⟩ := hresult ty hself hmutates
      simp only [bindingsOf, hself, List.forall₂_cons_left_iff] at hall
      obtain ⟨p, ps, hp, -, rfl⟩ := hall
      obtain rfl : p.ty = t := Except.ok.inj (hp.symm.trans ht)
      have hparams : s.params = p :: ps := by simpa using hps
      exact Signature.threads_of_returns (by simpa using hparams) (show _ = Ty.tensor [p.ty, rest] by simp)

theorem notMutItem_agrees (h : env.program.Followed) {f : Function}
    (hf : env.program.types.HasFunction f) (hmutates : f.mutates = true)
    (hself : f.selfType.isSome = true) {d d' : Draft} (hrun : functionName f env d = .ok name d') :
    Yields env (notMutItem f name) (Agrees env) := by
  obtain ⟨owner, ty, howner, hself, rfl, hget⟩ :=
    (functionName_origin h hf hrun).resolve_left fun h => by simp [h.1] at hself
  have hplain : ∀ x ∈ [owner, f.name], '$' ∉ x.toList := by simpa using ⟨howner, h.unmarked_function hf⟩
  have hcall : env.program.types.Suits ⟨Name.method owner f.name, f.params.length + 1, true⟩ :=
    TypeTable.suits_origin (o := .member owner (.method f.name)) hplain rfl
      (by rw [Name.Origin.convention, hget, Option.map_some]) rfl fun _ => hmutates
  refine withBindings_yields.bind ?_
  rintro s ⟨hname, ps, hps, hall⟩
  refine .andThen fun result => .used_bind (.pure (agrees_define ?_ ?_))
  · refine .origin (o := .notMut owner f.name) hplain (by simp [hname, Name.Origin.name]) fun c hc => ?_
    obtain rfl : _ = c := by simpa [Name.Origin.convention, hget] using hc
    exact ⟨by simp [hps, ← hall.length_eq, bindingsOf, hself], by simp⟩
  · simp [Env.Accepts, bindingsOf, hself, hcall]

/-! ### Message handlers -/

theorem receiverItem_agrees (h : env.program.Followed) {contract : TypeDecl} {receiver : Receiver}
    (hcontract : contract ∈ env.program.types.contracts) (hreceiver : receiver ∈ contract.receivers)
    (hname : receiverName contract.name receiver.selector = .ok name) :
    Yields env (receiverItem contract receiver name) (Agrees env) := by
  refine withBindings_yields.bind fun s ⟨hsname, ps, hps, hall⟩ => representation_yields.bind fun self hself => ?_
  refine (lowerBody_accepted h (h.fits_handler hcontract hreceiver)).bind
    fun body hbody => .pure (agrees_define ?_ hbody)
  refine .origin (o := .member contract.name (.receiver receiver.selector)) ?_ ?_ fun c hc => ?_
  · refine List.forall_mem_cons.2 ⟨unmarked_of_mem h (TypeTable.mem_contracts.1 hcontract).1, ?_⟩
    exact h.selectors contract hcontract receiver hreceiver
  · simpa [Name.Origin.name, Name.Member.name, hsname] using hname
  · obtain rfl := Option.some.inj hc
    obtain ⟨p, rest, hp, hrest, rfl⟩ : ∃ p rest, Layout.representation env.program.types
        (.plain contract.name) = .ok p.ty ∧ (receiverBindings contract receiver).length = rest.length + 1 ∧
        ps = p :: rest := by
      have hlength := hall.length_eq
      unfold receiverBindings at hall ⊢
      split at hall <;> obtain ⟨p, rest, hp, -, rfl⟩ := List.forall₂_cons_left_iff.1 hall <;>
        exact ⟨p, rest, hp, by simp_all [receiverBindings], rfl⟩
    obtain rfl : p.ty = self := Except.ok.inj (hp.symm.trans hself)
    have hparams : s.params = p :: rest := by simpa using hps
    refine ⟨?_, fun _ => ?_⟩
    · simp only [Signature.params_returning, hparams, List.length_cons, ← hrest, receiverBindings]
      cases receiver.selector.payloadType? <;> rfl
    · exact Signature.threads_of_returns hparams (show _ = Ty.tensor [p.ty, .unit] from rfl)

end Generate

end CellCompiler
