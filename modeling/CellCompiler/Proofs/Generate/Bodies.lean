import CellCompiler.Generate.Function
import CellCompiler.Proofs.Generate.Lowering

/-!
# Lowered bodies declare their calls

The statements of a body, with loops over maps, and the functions and message handlers made from
them.

* `lowerStmts_builds` goes by induction on the statements of the source;
* `emitFunction_emits` and `emitReceiver_emits` are about the functions that are entered.
-/

namespace CellCompiler

open Target

namespace Generate

variable {env : Env} {deps : Deps env} {special : Item → Prop}

/-! ### Statements -/

theorem bindVariable_builds {ty : TypeRef} {name : String} {init : Target.Expr} :
    Builds true deps (bindVariable ty name init) fun stmt => init.Declared deps → stmt.Declared deps := by
  refine isUnpacked_builds.andThen fun unpacked => ?_
  split
  · exact unpack_builds.bind fun pattern => .pure fun hpattern hinit => by simp [hpattern, hinit]
  · exact representation_builds.andThen fun ty => .pure fun hinit => by simpa using hinit

theorem declared_catchPattern {name? : Option String} : (catchPattern name?).Declared deps := by
  cases name? <;> simp [catchPattern]

/-- Everything that a walk over a map runs is declared. -/
structure Cursor.Declared (deps : String → Prop) (c : Cursor) : Prop where
  before : ∀ stmt ∈ c.before, stmt.Declared deps
  source : c.source.Declared deps
  decode : ∀ stmt ∈ c.decode, stmt.Declared deps
  min : deps c.min
  next : deps c.next

theorem Cursor.Declared.loop {c : Cursor} (hc : c.Declared deps) {body : List Target.Stmt}
    (hbody : ∀ stmt ∈ body, stmt.Declared deps) : ∀ stmt ∈ c.loop body, stmt.Declared deps := by
  have hpattern : c.pattern.Declared deps := by simp [Cursor.pattern]
  have hstart : c.start.Declared deps := by
    refine declared_var.2 ⟨hpattern, declared_called.2 ⟨.inr hc.min, declared_withValueBits ?_⟩⟩
    simpa using hc.source
  have hadvance : c.advance.Declared deps := by
    refine declared_assignment.2
      ⟨hpattern, declared_called.2 ⟨.inr hc.next, declared_withValueBits ?_⟩⟩
    simpa using hc.source
  have hround : ∀ stmt ∈ c.decode ++ body ++ [c.advance], stmt.Declared deps := by
    simp only [List.mem_append, List.mem_singleton]
    rintro stmt ((h | h) | rfl)
    · exact hc.decode stmt h
    · exact hbody stmt h
    · exact hadvance
  simp only [Cursor.loop, List.mem_append, List.mem_cons, List.not_mem_nil, or_false]
  rintro stmt (h | rfl | rfl)
  · exact hc.before stmt h
  · exact hstart
  · exact Stmt.declared_whileLoop.2 ⟨declared_id, hround⟩

theorem bindOnce_builds {stem : String} {code : Target.Expr} :
    Builds true deps (bindOnce stem code) fun p => code.Declared deps →
      (∀ stmt ∈ p.1, stmt.Declared deps) ∧ p.2.Declared deps := by
  unfold bindOnce
  split
  · exact .pure fun h => by simpa using h
  · exact Builds.fresh.andThen fun name => .pure fun h => by simpa using h

theorem cursorValue_builds {kind : MapKind} {value : String} :
    Builds true deps (cursorValue kind value) fun p => ∀ stmt ∈ p.2, stmt.Declared deps := by
  unfold cursorValue
  split
  · refine Builds.fresh.andThen fun raw => unpack_builds.bind fun pattern => ?_
    refine (Builds.callUsed (.ofType (by decide))).bind fun loaded => ?_
    refine (Builds.callUsed (.ofType (by decide))).bind fun decoded => .pure ?_
    intro hdecoded hloaded hpattern
    simpa using ⟨hpattern, hdecoded (by simpa using hloaded)⟩
  · exact .pure (by simp)

theorem cursor_builds {s : Scope} {key value : String} {map : Expr} {loc : Location} :
    Builds true deps (cursor s key value map loc) (Cursor.Declared deps) := by
  refine Builds.table.andThen fun t => Builds.ofExcept.andThen fun kind => ?_
  refine (lower_builds s map).bind fun code => bindOnce_builds.bind fun (before, source) => ?_
  refine Builds.fresh.andThen fun flag => cursorValue_builds.bind fun (raw, decode) => ?_
  refine Builds.used_bind admits_operation (Builds.used_bind admits_operation ?_)
  refine (Builds.skip (.inl rfl) supplies_operation).andThen fun _ => ?_
  refine (Builds.skip (.inl rfl) supplies_operation).andThen fun _ => .pure ?_
  intro hnext hmin hdecode honce hcode
  exact ⟨(honce hcode).1, (honce hcode).2, hdecode, hmin, hnext⟩

mutual

theorem lowerStmt_builds (s : Scope) : (stmt : Stmt) →
    Builds true deps (lowerStmt s stmt) fun out => ∀ t ∈ out, t.Declared deps
  | .letVar .. => lowerCast_builds.bind fun init => bindVariable_builds.bind fun t => .pure
      fun ht hinit => by simpa using ht hinit
  | .assign .. => lvalue_builds.bind fun target => lowerCast_builds.bind fun code => .pure
      fun hcode htarget => by simp [hcode, htarget]
  | .augmentedAssign _ _ _ value => lvalue_builds.bind fun target =>
      (lower_builds s value).bind fun code => .pure fun hcode htarget => by simp [hcode, htarget]
  | .ret _ none => returned_builds.bind fun e => .pure fun he => by simpa using he
  | .ret _ (some _) => lowerCast_builds.known.bind fun code => returned_builds.bind fun e =>
      .pure fun he hcode => by simpa using he hcode
  | .expression _ e => (lower_builds s e).bind fun code => .pure fun h => by simpa using h
  | .condition _ cond body otherwise => (lower_builds s cond).bind fun c =>
      (lowerStmts_builds s body).bind fun b => (lowerOtherwise_builds s otherwise).bind fun o =>
      .pure fun ho hb hc => by simpa using ⟨hc, hb, ho⟩
  | .whileLoop _ cond body => (lower_builds s cond).bind fun c =>
      (lowerStmts_builds s body).bind fun b => .pure fun hb hc => by simpa using ⟨hc, hb⟩
  | .untilLoop _ body cond => (lowerStmts_builds s body).bind fun b =>
      (lower_builds s cond).bind fun c => .pure fun hc hb => by simpa using ⟨hc, hb⟩
  | .repeatLoop _ count body => (lower_builds s count).bind fun c =>
      (lowerStmts_builds s body).bind fun b => .pure fun hb hc => by simpa using ⟨hc, hb⟩
  | .tryCatch _ body _ handler => (lowerStmts_builds s body).bind fun b =>
      (lowerStmts_builds s handler).bind fun h => .pure fun hh hb => by
        simpa using ⟨hb, declared_catchPattern, hh⟩
  | .foreach _ _ _ _ body => cursor_builds.bind fun c => (lowerStmts_builds s body).bind fun b =>
      .pure fun hb hc => hc.loop hb

theorem lowerStmts_builds (s : Scope) : (stmts : List Stmt) →
    Builds true deps (lowerStmts s stmts) fun out => ∀ t ∈ out, t.Declared deps
  | [] => .pure (by simp)
  | stmt :: rest => (lowerStmt_builds s stmt).bind fun first =>
      (lowerStmts_builds s rest).bind fun out => .pure fun hout hfirst =>
        List.forall_mem_append.2 ⟨hfirst, hout⟩

theorem lowerOtherwise_builds (s : Scope) : (otherwise : Otherwise) →
    Builds true deps (lowerOtherwise s otherwise) (Target.Otherwise.Declared deps)
  | .absent => .pure (by simp)
  | .block body => (lowerStmts_builds s body).bind fun b => .pure fun hb => by simpa using hb
  | .chain (.condition _ cond body otherwise) => (lower_builds s cond).bind fun c =>
      (lowerStmts_builds s body).bind fun b => (lowerOtherwise_builds s otherwise).bind fun o =>
      .pure fun ho hb hc => by simpa using ⟨hc, hb, ho⟩
  | .chain (.letVar ..) | .chain (.assign ..) | .chain (.augmentedAssign ..) | .chain (.ret ..)
  | .chain (.expression ..) | .chain (.whileLoop ..) | .chain (.untilLoop ..)
  | .chain (.repeatLoop ..) | .chain (.tryCatch ..) | .chain (.foreach ..) => .defectAt

end

/-! ### Functions -/

/-- The name that a function is emitted under. -/
def IsNameOf (f : Function) (name : String) : Prop :=
  f.selfType = none ∧ name = Name.globalFunction f.name ∨ ∃ owner, name = Name.method owner f.name

theorem IsNameOf.isConstructed {f : Function} {name : String} (h : IsNameOf f name) :
    Name.isConstructed name = true ∧ Name.isConstructed (Name.notMut name) = true := by
  rcases h with ⟨-, rfl⟩ | ⟨owner, rfl⟩
  · refine ⟨Name.isConstructed_globalFunction _, ?_⟩
    simp [Name.isConstructed, Name.notMut, Name.globalFunction]
  · exact ⟨Name.isConstructed_ofType _ _, Name.isConstructed_notMut⟩

theorem IsNameOf.mentions {f : Function} {name : String} (h : IsNameOf f name)
    (hf : env.program.types.HasFunction f) : env.program.types.Mentions name := by
  rcases h with ⟨-, rfl⟩ | ⟨owner, rfl⟩
  · exact .function hf
  · exact TypeTable.mentions_method

theorem isNameOf_functionName {f : Function} {d d' : Draft} {name : String}
    (h : functionName f env d = .ok name d') : IsNameOf f name := by
  cases hself : f.selfType with
  | none =>
    simp only [functionName, hself, run_pure] at h
    exact .inl ⟨hself, h.1.symm⟩
  | some ty =>
    cases howner : ty.name? with
    | some owner =>
      simp only [functionName, hself, howner, run_pure] at h
      exact .inr ⟨owner, h.1.symm⟩
    | none =>
      simp only [functionName, hself, howner] at h
      exact absurd h run_throw

theorem functionName_builds {f : Function} : Builds true deps (functionName f) (IsNameOf f) := by
  have hruns : Builds true deps (functionName f) fun _ => True := by
    unfold functionName
    split
    · exact .pure trivial
    · split
      · exact .pure trivial
      · exact .defect
  exact hruns.mono_run fun _ _ _ h _ => isNameOf_functionName h

theorem functionSection_builds {f : Function} : Builds true deps (functionSection f) fun _ => True := by
  unfold functionSection
  split
  · exact .pure trivial
  · refine declOf_builds.andThen fun decl => ?_
    split <;> exact .pure trivial

theorem prologue_builds {bindings : List Binding} :
    Builds true deps (prologue bindings) fun out => ∀ t ∈ out, t.Declared deps := by
  induction bindings with
  | nil => exact .pure (by simp)
  | cons binding rest ih =>
    refine isUnpacked_builds.andThen fun unpacked => ?_
    split
    · refine unpack_builds.bind fun pattern => ih.bind fun out => .pure fun hout hpattern => ?_
      simpa using ⟨hpattern, hout⟩
    · exact ih

theorem epilogue_builds {s : Scope} {stmts : List Stmt} :
    Builds true deps (epilogue s stmts) fun out => ∀ t ∈ out, t.Declared deps := by
  unfold epilogue
  split
  · exact returned_builds.bind fun e => .pure fun he => by simpa using he
  · exact .pure (by simp)

theorem lowerBody_builds {s : Scope} {params : List Binding} {stmts : List Stmt} :
    Builds true deps (lowerBody s params stmts) fun out => ∀ t ∈ out, t.Declared deps := by
  refine prologue_builds.bind fun before => (lowerStmts_builds s stmts).bind fun body => ?_
  refine epilogue_builds.bind fun after => .pure fun hafter hbody hbefore => ?_
  exact List.forall_mem_append.2 ⟨List.forall_mem_append.2 ⟨hbefore, hbody⟩, hafter⟩

theorem withBindings_builds {signature : Signature} {bindings : List Binding} :
    Builds true deps (withBindings signature bindings) fun s => s.name = signature.name := by
  induction bindings generalizing signature with
  | nil => exact .pure rfl
  | cons binding rest ih => exact representation_builds.andThen fun ty => ih

theorem resultTy_builds {f : Function} : Builds true deps (resultTy f) fun _ => True := by
  refine representation_builds.andThen fun result => ?_
  split
  · exact representation_builds.andThen fun ty => .pure trivial
  · exact .pure trivial

theorem functionItem_builds {f : Function} {name : String} {stmts : List Stmt}
    (hname : Name.isConstructed name = true) :
    Builds true deps (functionItem f name stmts) (Enterable deps) := by
  refine withBindings_builds.bind fun signature => resultTy_builds.andThen fun result => ?_
  refine lowerBody_builds.bind fun body => .pure fun hbody hsignature => ?_
  exact enterable_define (by simpa [hsignature] using hname) hbody

theorem notMutItem_builds {f : Function} {name : String} (hmentions : env.program.types.Mentions name)
    (hname : Name.isConstructed (Name.notMut name) = true) :
    Builds true deps (notMutItem f name) (Enterable deps) := by
  refine withBindings_builds.bind fun signature => representation_builds.andThen fun result => ?_
  refine (Builds.used (.inl hmentions)).bind fun callee => .pure ?_
  rintro ⟨rfl, hcallee⟩ hsignature
  have hargs : ∀ e ∈ (bindingsOf f).tail.map fun binding => Target.id binding.1,
      e.Declared deps := by
    intro e he
    obtain ⟨binding, -, rfl⟩ := List.mem_map.1 he
    exact declared_id
  refine enterable_define (by simpa [hsignature] using hname) ?_
  simpa [Target.Declared, hcallee] using hargs

/-- **Functions of the source declare their calls.** -/
theorem emitFunction_emits {f : Function} (hf : env.program.types.HasFunction f) :
    Emits true env special (emitFunction f) fun _ => True := by
  unfold emitFunction
  split
  · next hbody => exact .of_builds fun _ => Builds.skip (.inl rfl) (.inr ⟨f, hf, hbody⟩)
  · exact .pure trivial
  · refine Emits.bind (.of_builds fun _ => functionName_builds) fun name hname => ?_
    refine Emits.bind (.of_builds fun _ => functionSection_builds) fun place _ => ?_
    refine (Emits.define fun _ => functionItem_builds hname.isConstructed.1).bind fun _ _ => ?_
    split
    · next hself =>
      obtain ⟨owner, rfl⟩ := hname.resolve_left fun h => by simp [h.1] at hself
      exact .define fun _ => notMutItem_builds TypeTable.mentions_method Name.isConstructed_notMut
    · exact .pure trivial

/-! ### Message handlers -/

/-- A handler is named after its direction first, so not like the functions that every contract has. -/
theorem name_of_receiverName {contract name : String} {selector : ReceiverSelector}
    (h : receiverName contract selector = .ok name) :
    ∃ suffix, ¬ "contract_".toList <+: suffix.toList ∧ name = Name.ofType contract suffix := by
  have hsuffix : ∀ direction label : String, direction.toList.head?.any (· ≠ 'c') = true →
      ¬ "contract_".toList <+: (direction ++ "_" ++ label).toList := by
    rintro direction label hhead ⟨more, hlist⟩
    cases hdirection : direction.toList with
    | nil => simp [hdirection] at hhead
    | cons c rest =>
      rw [String.toList_append, String.toList_append, hdirection] at hlist
      obtain ⟨rfl, -⟩ := by simpa using hlist
      simp [hdirection] at hhead
  unfold receiverName at h
  split at h
  · obtain ⟨label, -, rfl⟩ := by simpa using h
    exact ⟨_, hsuffix _ _ (by decide), rfl⟩
  · obtain ⟨label, -, rfl⟩ := by simpa using h
    exact ⟨_, hsuffix _ _ (by decide), rfl⟩
  · obtain rfl := by simpa using h
    exact ⟨_, hsuffix _ _ (by decide), rfl⟩
  · obtain rfl := by simpa using h
    exact ⟨_, hsuffix _ _ (by decide), rfl⟩

theorem receiverItem_builds {contract : TypeDecl} {receiver : Receiver} {name : String}
    (hname : Name.isConstructed name = true) :
    Builds true deps (receiverItem contract receiver name) (Enterable deps) := by
  refine withBindings_builds.bind fun signature => representation_builds.andThen fun self => ?_
  refine lowerBody_builds.bind fun body => .pure fun hbody hsignature => ?_
  exact enterable_define (by simpa [hsignature] using hname) hbody

/-- **Message handlers declare their calls.** -/
theorem emitReceiver_emits {contract : TypeDecl} {receiver : Receiver} :
    Emits true env special (emitReceiver contract receiver) fun h =>
      env.program.types.Mentions h.name := by
  refine Emits.bind (.of_builds fun _ => ofCell_builds) fun name hname => ?_
  obtain ⟨suffix, hsuffix, rfl⟩ := name_of_receiverName hname
  refine (Emits.define fun _ => receiverItem_builds (Name.isConstructed_ofType _ _)).bind fun _ _ => ?_
  refine .pure (.ofType ?_)
  rintro rfl
  exact hsuffix (by decide)

end Generate

end CellCompiler
