import CellCompiler.Proofs.Generate.Writes
import CellCompiler.Proofs.Scope.Variables
import CellCompiler.Proofs.Target.Callees

/-!
# Lowered bodies read what is bound

The variables in scope in the source are available in the code, and stay available while statements
bring further ones into scope.

* `Brings env granted vars lets out`: wherever the variables in scope are available, the statements read
  only available variables, and afterwards those that they bring into scope are available too;
* `lowerStmts_brings` goes by induction on the statements of the source;
* `functionItem_within`, `notMutItem_within` and `receiverItem_within` are about the functions that are
  made of bodies.
-/

namespace CellCompiler

open Target

namespace Generate

open Layout (AvailableIn)

variable {env : Env} {n : Nat} {granted : Prop} {vars lets more : Vars} {bound : List String} {s : Scope}
  {ty : TypeRef} {name : String} {loc : Location}

/-- The statements read only what is visible, and bring variables into scope. -/
def Brings (env : Env) (granted : Prop) (vars lets : Vars) (out : List Target.Stmt) : Prop :=
  ∀ bound, env.Visible granted vars bound →
    StmtsWithin bound out ∧ env.Visible granted (vars ++ lets) (bound ++ stmtBinds out)

/-- The statements read only what is visible. -/
theorem Brings.of_reads {out : List Target.Stmt}
    (h : ∀ bound, env.Visible granted vars bound → StmtsWithin bound out) :
    Brings env granted vars [] out := by
  intro bound hb
  rw [List.append_nil]
  exact ⟨h bound hb, hb.mono (List.subset_append_left _ _)⟩

theorem Brings.append {out out' : List Target.Stmt} (h : Brings env granted vars lets out)
    (h' : Brings env granted (vars ++ lets) more out') :
    Brings env granted vars (lets ++ more) (out ++ out') := by
  intro bound hb
  obtain ⟨hout, hb⟩ := h bound hb
  obtain ⟨hout', hb⟩ := h' _ hb
  rw [stmtsWithin_append, stmtBinds_append, ← List.append_assoc, ← List.append_assoc]
  exact ⟨⟨hout, hout'⟩, hb⟩

theorem Brings.within {out : List Target.Stmt} (h : Brings env granted vars lets out)
    (hb : env.Visible granted vars bound) : StmtsWithin bound out := (h bound hb).1

/-! ### Bindings -/

theorem bindVariable_binds {init : Target.Expr} :
    Leads env n granted (bindVariable ty name init) fun t => ∀ bound, init.Within bound →
      t.Within bound ∧ AvailableIn env.program.types ty name (bound ++ t.binds) := by
  refine .after (Leads.ofTable (f := fun t => Layout.isUnpacked t ty)) fun unpacked hunpacked => ?_
  split
  · refine (Leads.ofTable (f := fun t => Layout.unpack t ty name)).bind fun pattern => ?_
    exact .pure fun hpattern bound hinit => ⟨by simpa using hinit, .of_unpack hpattern (by simp)⟩
  · next hleaf =>
    obtain rfl : unpacked = false := by simpa using hleaf
    exact .andThen representation_steady fun t => .pure fun bound hinit =>
      ⟨by simpa using hinit, .of_not_isUnpacked hunpacked (by simp)⟩

/-- The code of an exception is in its variable. -/
theorem available_caught (hw : env.program.types.WellNamed) {name? : Option String} :
    ∀ v ∈ env.program.types.caughtVars name?, AvailableIn env.program.types v.2 (Name.var v.1)
      (bound ++ (catchPattern name?).boundNames) := by
  intro v hv
  obtain ⟨name, hname, hv⟩ := List.mem_flatMap.1 hv
  obtain ⟨decl, hdecl, rfl⟩ := List.mem_map.1 hv
  obtain rfl : name? = some name := by simpa using hname
  obtain ⟨hdecl, hkind⟩ := List.mem_filter.1 hdecl
  exact .of_primitive (by simp [catchPattern]) (hw.get?_name hdecl) (by simpa using hkind)

/-! ### Loops over maps -/

/-- A walk over a map reads only what is visible, and brings variables for the entry into scope. -/
structure Cursor.Brings (env : Env) (granted : Prop) (vars entry : Vars) (c : Cursor) : Prop where
  before : ∀ bound, env.Visible granted vars bound →
    StmtsWithin bound c.before ∧ c.source.Within (bound ++ stmtBinds c.before)
  decode : ∀ bound, c.raw ∈ bound → StmtsWithin bound c.decode
  entry : ∀ v ∈ entry, AvailableIn env.program.types v.2 (Name.var v.1)
    (c.key :: c.raw :: stmtBinds c.decode)

theorem Cursor.Brings.loop {c : Cursor} {entry : Vars} (hc : c.Brings env granted vars entry)
    {body : List Target.Stmt} (hbody : Generate.Brings env granted (vars ++ entry) lets body) :
    Generate.Brings env granted vars [] (c.loop body) := by
  refine .of_reads fun bound hb => ?_
  obtain ⟨hbefore, hsource⟩ := hc.before bound hb
  have hbinds : c.start.binds = [c.key, c.raw, c.flag] := by simp [Cursor.start, Cursor.pattern]
  have hstart : c.start.Within (bound ++ stmtBinds c.before) := by
    refine Stmt.within_var.2 (within_called.2 (withValueBits_has hereditary_within ?_))
    simpa using hsource
  -- in each round, the entry is there as well, and then what decodes it
  have hentry : env.Visible granted (vars ++ entry)
      (bound ++ stmtBinds c.before ++ c.start.binds ++ stmtBinds c.decode) := by
    refine (hb.mono (by simp)).append fun v hv => (hc.entry v hv).mono fun x hx => ?_
    simp only [List.mem_cons] at hx
    simp only [hbinds, List.mem_append, List.mem_cons]
    tauto
  have hadvance : c.advance.Within
      (bound ++ stmtBinds c.before ++ c.start.binds ++ stmtBinds c.decode ++ stmtBinds body) := by
    refine Stmt.within_assign.2 (within_called.2 (withValueBits_has hereditary_within ?_))
    have hsource : c.source.Within (bound ++ stmtBinds c.before ++ c.start.binds ++
        stmtBinds c.decode ++ stmtBinds body) := hsource.mono (by simp [List.append_assoc])
    simpa [hbinds] using hsource
  simp only [Cursor.loop, stmtsWithin_append, stmtsWithin_cons, stmtsWithin_nil, Stmt.within_whileLoop]
  refine ⟨hbefore, hstart, ⟨by simp [hbinds], ⟨?_, ?_⟩, ?_⟩, trivial⟩
  · exact hc.decode _ (by simp [hbinds])
  · exact hbody.within hentry
  · simpa using hadvance

theorem bindOnce_reads {stem : String} {code : Target.Expr} :
    Leads env n granted (bindOnce stem code) fun p => ∀ bound, code.Within bound →
      StmtsWithin bound p.1 ∧ p.2.Within (bound ++ stmtBinds p.1) := by
  unfold bindOnce
  split
  · exact .pure fun bound hcode => by simpa using hcode
  · exact Leads.fresh.bind fun name => .pure fun _ bound hcode => by simpa using hcode

/-- A value that is a record is decoded into its variables, any other is as it comes. -/
theorem cursorValue_brings {kind : MapKind} {value : String} :
    Leads env n granted (cursorValue kind value) fun p =>
      (∀ bound, p.1 ∈ bound → StmtsWithin bound p.2) ∧
      ((∀ type, kind.value ≠ .struct type) → p.1 = Name.var value) ∧
      ∀ type, kind.value = .struct type →
        AvailableIn env.program.types (.plain type) (Name.var value) (stmtBinds p.2) := by
  unfold cursorValue
  split
  · next type htype =>
    refine Leads.fresh.bind fun raw => ?_
    refine (Leads.ofTable (f := fun t => Layout.unpack t (.plain type) (Name.var value))).bind fun pattern => ?_
    refine Leads.callUsed.bind fun loaded => Leads.callUsed.bind fun decoded => .pure ?_
    rintro rfl rfl hpattern -
    refine ⟨fun bound hraw => by simpa using hraw, fun hnot => absurd htype (hnot type), ?_⟩
    intro type' htype'
    obtain rfl : type = type' := MapKind.Value.struct.inj (htype.symm.trans htype')
    exact .of_unpack hpattern (by simp)
  · next hnot =>
    exact .pure ⟨by simp, fun _ => rfl, fun type htype => absurd htype (hnot type)⟩

theorem cursor_brings (hw : env.program.types.WellNamed) (hself : s.Sees vars) {key value : String}
    {map : Expr} (hmap : map.Scoped env.program.types vars) :
    Leads env n granted (cursor s key value map loc)
      (Cursor.Brings env granted vars (entryVars key value map.ty)) := by
  refine .table_bind (.after .ofExcept fun kind hkind => ?_)
  refine (lower_reads hself hmap).bind fun code => bindOnce_reads.bind fun (before, source) => ?_
  refine Leads.fresh.bind fun flag => cursorValue_brings.bind fun (raw, decode) => ?_
  refine .used_bind (.used_bind (.andThen .skip fun _ => .andThen .skip fun _ => .pure ?_))
  rintro ⟨hdecode, hraw, hrecord⟩ - hbefore hcode
  refine ⟨fun bound hb => hbefore bound (hcode bound hb), hdecode, ?_⟩
  obtain ⟨keyType, _, valueType, _, keyDecl, valueDecl, hty, hkeyDecl, hkey, hvalueDecl, hvalue⟩ :=
    MapKind.exists_of_eq_ok hkind
  obtain ⟨p, hp⟩ := MapKind.exists_of_keyOf hkey
  rw [hty]
  refine List.forall_mem_cons.2 ⟨.of_primitive (by simp) hkeyDecl hp, List.forall_mem_singleton.2 ?_⟩
  obtain ⟨hstruct, -⟩ | ⟨⟨p, hp⟩, hnot⟩ := MapKind.cases_of_valueOf hvalue
  · rw [hw.name_eq hvalueDecl] at hstruct
    exact (hrecord _ hstruct).mono (by simp)
  · obtain rfl : raw = Name.var value := hraw hnot
    exact .of_primitive (by simp) hvalueDecl hp

/-! ### Statements -/

mutual

theorem lowerStmt_brings (hw : env.program.types.WellNamed) (s : Scope) : (stmt : Stmt) → {vars : Vars} →
    s.Sees vars → stmt.Scoped env.program.types vars →
    Leads env n granted (lowerStmt s stmt) (Brings env granted vars stmt.lets)
  | .letVar _ name ty value, vars, hself, hvalue => by
    refine (lowerCast_reads hself hvalue).bind fun init => bindVariable_binds.bind fun t => .pure ?_
    intro ht hinit bound hb
    obtain ⟨hreads, havailable⟩ := ht bound (hinit bound hb)
    refine ⟨by simpa using hreads, (hb.mono (List.subset_append_left _ _)).append ?_⟩
    simpa [Stmt.lets] using havailable
  | .assign _ path value, vars, hself, hscoped => by
    obtain ⟨hpath, hvalue⟩ := hscoped
    refine (lvalue_reads hpath).bind fun target => (lowerCast_reads hself hvalue).bind fun code => .pure ?_
    exact fun hcode _ => .of_reads fun bound hb => by simpa using hcode bound hb
  | .augmentedAssign _ path _ value, vars, hself, hscoped => by
    obtain ⟨hpath, hvalue⟩ := hscoped
    refine (lvalue_reads hpath).bind fun target => (lower_reads hself hvalue).bind fun code => .pure ?_
    exact fun hcode htarget => .of_reads fun bound hb => by simpa using ⟨htarget bound hb, hcode bound hb⟩
  | .ret _ none, vars, hself, _ => by
    refine (returned_reads hself).bind fun e => .pure fun he => ?_
    exact .of_reads fun bound hb => by simpa using he (by simp) bound hb
  | .ret _ (some value), vars, hself, hvalue => by
    have hcode : Leads env n granted (some <$> lowerCast s value s.returns) fun code? =>
        ∀ code ∈ code?, ReadsVisible env granted vars code :=
      (lowerCast_reads hself (hvalue value rfl)).map fun code hcode => by simpa using hcode
    refine hcode.bind fun code? => (returned_reads hself).bind fun e => .pure fun he hcode => ?_
    exact .of_reads fun bound hb => by simpa using he hcode bound hb
  | .expression _ e, vars, hself, he => by
    refine (lower_reads hself he).bind fun code => .pure fun hcode => ?_
    exact .of_reads fun bound hb => by simpa using hcode bound hb
  | .condition _ cond body otherwise, vars, hself, hscoped => by
    obtain ⟨hcond, hbody, hotherwise⟩ := hscoped
    refine (lower_reads hself hcond).bind fun c => (lowerStmts_brings hw s body hself hbody).bind fun b => ?_
    refine (lowerOtherwise_brings hw s otherwise hself hotherwise).bind fun o => .pure fun ho hb hc => ?_
    exact .of_reads fun bound hbound => by
      simpa using ⟨hc bound hbound, hb.within hbound, ho bound hbound⟩
  | .whileLoop _ cond body, vars, hself, hscoped => by
    obtain ⟨hcond, hbody⟩ := hscoped
    refine (lower_reads hself hcond).bind fun c => (lowerStmts_brings hw s body hself hbody).bind fun b => ?_
    exact .pure fun hb hc => .of_reads fun bound hbound => by simpa using ⟨hc bound hbound, hb.within hbound⟩
  | .untilLoop _ body cond, vars, hself, hscoped => by
    obtain ⟨hbody, hcond⟩ := hscoped
    refine (lowerStmts_brings hw s body hself hbody).bind fun b => ?_
    -- the condition comes after the body, so what the body has bound is there
    refine (lower_reads hself.append hcond).bind fun c => .pure fun hc hb => .of_reads fun bound hbound => ?_
    obtain ⟨hreads, hafter⟩ := hb bound hbound
    simpa using ⟨hreads, hc _ hafter⟩
  | .repeatLoop _ count body, vars, hself, hscoped => by
    obtain ⟨hcount, hbody⟩ := hscoped
    refine (lower_reads hself hcount).bind fun c => (lowerStmts_brings hw s body hself hbody).bind fun b => ?_
    exact .pure fun hb hc => .of_reads fun bound hbound => by simpa using ⟨hc bound hbound, hb.within hbound⟩
  | .tryCatch _ body name handler, vars, hself, hscoped => by
    obtain ⟨hbody, hhandler⟩ := hscoped
    refine (lowerStmts_brings hw s body hself hbody).bind fun b => ?_
    refine (lowerStmts_brings hw s handler hself.append hhandler).bind fun h => .pure fun hh hb => ?_
    refine .of_reads fun bound hbound => ?_
    have hcaught : env.Visible granted (vars ++ env.program.types.caughtVars name)
        (bound ++ (catchPattern name).boundNames) :=
      (hbound.mono (List.subset_append_left _ _)).append (available_caught hw)
    simpa using ⟨hb.within hbound, hh.within hcaught⟩
  | .foreach _ key value map body, vars, hself, hscoped => by
    obtain ⟨hmap, hbody⟩ := hscoped
    refine (cursor_brings hw hself hmap).bind fun c => ?_
    refine (lowerStmts_brings hw s body hself.append hbody).bind fun b => .pure fun hb hc => ?_
    exact hc.loop hb

/-- **Lowered statements read only what is visible**, and bring into scope what those of the source do. -/
theorem lowerStmts_brings (hw : env.program.types.WellNamed) (s : Scope) : (stmts : List Stmt) →
    {vars : Vars} → s.Sees vars → StmtsScoped env.program.types vars stmts →
    Leads env n granted (lowerStmts s stmts) (Brings env granted vars (stmtLets stmts))
  | [], _, _, _ => .pure (.of_reads (by simp))
  | stmt :: rest, vars, hself, hscoped => by
    obtain ⟨hstmt, hrest⟩ := hscoped
    refine (lowerStmt_brings hw s stmt hself hstmt).bind fun first => ?_
    refine (lowerStmts_brings hw s rest hself.append hrest).bind fun out => .pure fun hout hfirst => ?_
    exact hfirst.append hout

theorem lowerOtherwise_brings (hw : env.program.types.WellNamed) (s : Scope) :
    (otherwise : Otherwise) → {vars : Vars} → s.Sees vars →
    otherwise.Scoped env.program.types vars →
    Leads env n granted (lowerOtherwise s otherwise) fun o =>
      ∀ bound, env.Visible granted vars bound → o.Within bound
  | .absent, _, _, _ => .pure (by simp)
  | .block body, _, hself, hbody => (lowerStmts_brings hw s body hself hbody).bind fun b =>
      .pure fun hb bound hbound => by simpa using hb.within hbound
  | .chain (.condition _ cond body otherwise), vars, hself, hscoped => by
    obtain ⟨hcond, hbody, hotherwise⟩ := hscoped
    refine (lower_reads hself hcond).bind fun c => (lowerStmts_brings hw s body hself hbody).bind fun b => ?_
    refine (lowerOtherwise_brings hw s otherwise hself hotherwise).bind fun o => .pure fun ho hb hc => ?_
    exact fun bound hbound => by simpa using ⟨hc bound hbound, hb.within hbound, ho bound hbound⟩
  | .chain (.letVar ..), _, _, _ | .chain (.assign ..), _, _, _ | .chain (.augmentedAssign ..), _, _, _
  | .chain (.ret ..), _, _, _ | .chain (.expression ..), _, _, _ | .chain (.whileLoop ..), _, _, _
  | .chain (.untilLoop ..), _, _, _ | .chain (.repeatLoop ..), _, _, _ | .chain (.tryCatch ..), _, _, _
  | .chain (.foreach ..), _, _, _ => .defectAt

end

/-! ### Functions of the source -/

theorem withBindings_names {signature : Signature} {bindings : List Binding} :
    Leads env n granted (withBindings signature bindings) fun sig =>
      sig.params.map (·.name) = signature.params.map (·.name) ++ bindings.map Prod.fst := by
  induction bindings generalizing signature with
  | nil => exact .pure (by simp)
  | cons binding rest ih =>
    exact .andThen representation_steady fun t => ih.mono fun sig hsig => by simpa using hsig

/-- The parameters are available after those that are records have been bound field by field. -/
theorem prologue_brings {bindings : List Binding} :
    Leads env n granted (prologue bindings) fun out => ∀ bound, (∀ b ∈ bindings, b.1 ∈ bound) →
      StmtsWithin bound out ∧
      ∀ b ∈ bindings, AvailableIn env.program.types b.2 b.1 (bound ++ stmtBinds out) := by
  induction bindings with
  | nil => exact .pure (by simp)
  | cons binding rest ih =>
    obtain ⟨name, ty⟩ := binding
    refine .after (Leads.ofTable (f := fun t => Layout.isUnpacked t ty)) fun unpacked hunpacked => ?_
    split
    · refine (Leads.ofTable (f := fun t => Layout.unpack t ty name)).bind fun pattern => ?_
      refine ih.bind fun out => .pure fun hout hpattern bound hbound => ?_
      obtain ⟨hname, hrest⟩ := List.forall_mem_cons.1 hbound
      obtain ⟨hreads, havailable⟩ := hout (bound ++ pattern.boundNames)
        fun b hb => List.mem_append_left _ (hrest b hb)
      refine ⟨by simpa using ⟨hname, hreads⟩, List.forall_mem_cons.2 ⟨.of_unpack hpattern (by simp), ?_⟩⟩
      simpa [List.append_assoc] using havailable
    · next hleaf =>
      obtain rfl : unpacked = false := by simpa using hleaf
      refine ih.mono fun out hout bound hbound => ?_
      obtain ⟨hname, hrest⟩ := List.forall_mem_cons.1 hbound
      obtain ⟨hreads, havailable⟩ := hout bound hrest
      refine ⟨hreads, List.forall_mem_cons.2 ⟨?_, havailable⟩⟩
      exact .of_not_isUnpacked hunpacked (List.mem_append_left _ hname)

/-- The variables as parameters. -/
def bindingsFor (vars : Vars) : List Binding := vars.map fun v => (Name.var v.1, v.2)

/-- After the prologue the parameters are in scope. -/
theorem prologue_visible : Leads env n granted (prologue (bindingsFor vars)) fun out =>
    ∀ bound, (∀ v ∈ vars, Name.var v.1 ∈ bound) → (granted → Helper.contextSys ∈ bound) →
      StmtsWithin bound out ∧ env.Visible granted vars (bound ++ stmtBinds out) := by
  refine prologue_brings.mono fun out hout bound hvars hcontext => ?_
  obtain ⟨hreads, havailable⟩ := hout bound (List.forall_mem_map.2 hvars)
  exact ⟨hreads, fun v hv => havailable _ (List.mem_map_of_mem hv),
    fun h => List.mem_append_left _ (hcontext h)⟩

theorem epilogue_brings (hself : s.Sees vars) {stmts : List Stmt} :
    Leads env n granted (epilogue s stmts) (Brings env granted vars []) := by
  unfold epilogue
  split
  · refine (returned_reads hself).bind fun e => .pure fun he => ?_
    exact .of_reads fun bound hb => by simpa using he (by simp) bound hb
  · exact .pure (.of_reads (by simp))

theorem lowerBody_within (hw : env.program.types.WellNamed) (hself : s.Sees vars) {stmts : List Stmt}
    (hstmts : StmtsScoped env.program.types vars stmts) :
    Leads env n granted (lowerBody s (bindingsFor vars) stmts) fun out =>
      ∀ bound, (∀ v ∈ vars, Name.var v.1 ∈ bound) → (granted → Helper.contextSys ∈ bound) →
        StmtsWithin bound out := by
  refine prologue_visible.bind fun before => (lowerStmts_brings hw s stmts hself hstmts).bind fun body => ?_
  have hafter : s.Sees (vars ++ stmtLets stmts) := hself.append
  refine (epilogue_brings hafter).bind fun after => .pure ?_
  intro hafter hbody hbefore bound hvars hcontext
  obtain ⟨hreads, hvisible⟩ := hbefore bound hvars hcontext
  rw [List.append_assoc, stmtsWithin_append]
  exact ⟨hreads, (hbody.append hafter).within hvisible⟩

/-- The function that is made reads only its parameters, what it binds and global variables. The cell of
known codes is one of these where it is granted. -/
abbrev WithinItem (env : Env) (granted : Prop) (g : Gen Item) : Prop :=
  Leads env 0 granted g fun item =>
    ∀ globals, (granted → Helper.contextSys ∈ globals) → item.Within globals

theorem bindingsOf_eq {f : Function} : bindingsOf f = bindingsFor f.vars := by
  unfold bindingsOf bindingsFor Function.vars
  cases f.selfType <;> simp [Name.self]

theorem sees_scopeOf {f : Function} : (scopeOf f).Sees f.vars := by
  intro ty hty
  unfold scopeOf at hty
  unfold Function.vars
  cases hself : f.selfType with
  | none => simp [hself, Scope.function] at hty
  | some self =>
    obtain rfl : self = ty := by simpa [hself, Scope.method] using hty
    simp

/-- The variables are among the parameters. -/
theorem mem_params {globals : List String} {ps : List Target.Param}
    (h : ps.map (·.name) = (bindingsFor vars).map Prod.fst) :
    ∀ v ∈ vars, Name.var v.1 ∈ globals ++ ps.map (·.name) := by
  intro v hv
  rw [h]
  exact List.mem_append_right _ (by simpa [bindingsFor] using ⟨v.1, ⟨v.2, hv⟩, rfl⟩)

theorem functionItem_within (hw : env.program.types.WellNamed) {f : Function} {stmts : List Stmt}
    (hstmts : StmtsScoped env.program.types f.vars stmts) :
    WithinItem env granted (functionItem f name stmts) := by
  have hresult : Steady env (resultTy f) := by
    refine representation_steady.bind fun result => ?_
    split
    · exact representation_steady.bind fun _ => .pure
    · exact .pure
  unfold functionItem
  rw [bindingsOf_eq]
  refine withBindings_names.bind fun sig => .andThen hresult fun result => ?_
  refine (lowerBody_within hw sees_scopeOf hstmts).bind fun body => .pure fun hbody hsig globals hcontext => ?_
  exact Item.within_define.2 (hbody _ (mem_params (by simpa using hsig))
    fun h => List.mem_append_left _ (hcontext h))

theorem notMutItem_within {f : Function} (hself : f.selfType.isSome = true) :
    WithinItem env granted (notMutItem f name) := by
  unfold notMutItem
  rw [bindingsOf_eq]
  refine withBindings_names.bind fun sig => .andThen representation_steady fun result => ?_
  refine .used_bind (.pure fun hsig globals _ => ?_)
  have hparams : ∀ v ∈ f.vars, Name.var v.1 ∈ globals ++ sig.params.map (·.name) :=
    mem_params (by simpa using hsig)
  obtain ⟨ty, hty⟩ := Option.isSome_iff_exists.1 hself
  have hargs : ∀ e ∈ (bindingsFor f.vars).tail.map fun b => Target.id b.1,
      e.Within (globals ++ sig.params.map (·.name)) := by
    refine List.forall_mem_map.2 fun b hb => within_id.2 ?_
    obtain ⟨v, hv, rfl⟩ := List.mem_map.1 (List.mem_of_mem_tail hb)
    exact hparams v hv
  have hreceiver : Name.self ∈ globals ++ sig.params.map (·.name) :=
    hparams ("self", ty) (by simp [Function.vars, hty])
  simp only [Item.within_define, Signature.params_inline, Signature.params_returning, stmtsWithin_cons,
    Stmt.within_var, within_modify, Stmt.within_ret, stmtsWithin_nil]
  exact ⟨⟨within_id.2 hreceiver, hargs⟩, by simp, trivial⟩

theorem receiverItem_within (hw : env.program.types.WellNamed) {contract : TypeDecl} {receiver : Receiver}
    (hstmts : StmtsScoped env.program.types (receiver.vars contract) receiver.body) :
    WithinItem env granted (receiverItem contract receiver name) := by
  have hbindings : receiverBindings contract receiver = bindingsFor (receiver.vars contract) := by
    unfold receiverBindings bindingsFor Receiver.vars
    cases receiver.selector.payloadType? <;> simp [Name.self]
  have hself : (Scope.handler contract.name).Sees (receiver.vars contract) := by
    intro ty hty
    obtain rfl : TypeRef.plain contract.name = ty := by simpa [Scope.handler, Scope.method] using hty
    simp [Receiver.vars]
  unfold receiverItem
  rw [hbindings]
  refine withBindings_names.bind fun sig => .andThen representation_steady fun self => ?_
  refine (lowerBody_within hw hself hstmts).bind fun body => .pure fun hbody hsig globals hcontext => ?_
  exact Item.within_define.2 (hbody _ (mem_params (by simpa using hsig))
    fun h => List.mem_append_left _ (hcontext h))

end Generate

end CellCompiler
