import CellCompiler.Generate.Function
import CellCompiler.Proofs.Generate.Composition
import CellCompiler.Proofs.Target.Patterned

/-!
# Lowered bodies write to patterns

Assignments, bindings and changing calls of the source are about variables and paths, which become the
patterns of their variables.

* `lower_patterned` is about expressions: they inherit the property, and the only calls that change
  something are applied to a pattern;
* `lowerStmts_patterned` goes by induction on the statements of the source.
-/

namespace CellCompiler

open Target

/-! ### Variables -/

namespace Layout.Shape

mutual

/-- The variables of a shape can be assigned to. -/
theorem isLValue_pattern : (sh : Shape) → sh.pattern.isLValue = true
  | leaf _ _ => rfl
  | product parts => areLValues_patterns parts

theorem areLValues_patterns : (parts : List Shape) → Expr.areLValues (patterns parts) = true
  | [] => rfl
  | sh :: parts => by rw [patterns, Expr.areLValues, isLValue_pattern sh, areLValues_patterns parts, Bool.and_self]

end

mutual

/-- The variables of a shape can be read. -/
theorem patterned_pattern : (sh : Shape) → sh.pattern.Patterned
  | leaf _ _ => trivial
  | product parts => allPatterned_patterns parts

theorem allPatterned_patterns : (parts : List Shape) → AllPatterned (patterns parts)
  | [] => trivial
  | sh :: parts => ⟨patterned_pattern sh, allPatterned_patterns parts⟩

end

mutual

/-- Absent values can be read. -/
theorem patterned_nulls : (sh : Shape) → sh.nulls.Patterned
  | leaf _ l => by cases l <;> trivial
  | product parts => allPatterned_nullsOf parts

theorem allPatterned_nullsOf : (parts : List Shape) → AllPatterned (nullsOf parts)
  | [] => trivial
  | sh :: parts => ⟨patterned_nulls sh, allPatterned_nullsOf parts⟩

end

end Layout.Shape

namespace Generate

variable {env : Env} {s : Scope} {ty : TypeRef} {name : String}

/-- The pattern of a variable can be read, and it can be assigned to. -/
theorem unpack_isPattern : Yields env (unpack ty name) fun e => e.isLValue = true ∧ e.Patterned := by
  refine (Yields.ofTable (f := fun t => Layout.unpack t ty name)).mono fun e he => ?_
  obtain ⟨sh, -, rfl⟩ := Except.map_eq_ok.1 he
  exact ⟨sh.isLValue_pattern, sh.patterned_pattern⟩

theorem env_patterned : env.Patterned Target.Expr.Patterned ty name := by
  intro e he
  obtain ⟨sh, -, rfl⟩ := Except.map_eq_ok.1 he
  exact sh.patterned_pattern

theorem lvalue_isPattern {path : Expr} :
    Yields env (lvalue path) fun e => e.isLValue = true ∧ e.Patterned := by
  unfold lvalue
  split
  · exact unpack_isPattern
  · exact .defectAt

/-! ### Expressions -/

/-- The code writes to patterns only. -/
abbrev PatternedCode (env : Env) (g : Gen Target.Expr) : Prop := Yields env g Target.Expr.Patterned

/-- The statements write to patterns only. -/
abbrev PatternedStmts (env : Env) (g : Gen (List Target.Stmt)) : Prop := Yields env g StmtsPatterned

theorem hereditary_patterned : Hereditary Target.Expr.Patterned where
  operand _ h := h
  int _ := trivial
  bool _ := trivial
  call _ _ h := patterned_called.2 h
  method _ _ _ hreceiver hargs := patterned_method.2 ⟨hreceiver, hargs⟩
  ternary _ _ _ hc ht hf := ⟨hc, ht, hf⟩
  binary _ _ _ hl hr := ⟨hl, hr⟩
  unary _ _ h := h
  tensor _ h := Expr.patterned_tensor.2 h

/-- Only variables and paths are changed. -/
theorem grants_patterned {part : Expr} : env.Grants True s Target.Expr.Patterned part where
  self _ _ _ _ _ _ := env_patterned
  ident _ _ _ _ _ := env_patterned
  field _ _ _ _ _ _ _ _ := env_patterned
  receiver _ _ _ _ _ _ := by
    intro segments _ pattern hpattern callee args hargs
    obtain ⟨sh, -, rfl⟩ := Except.map_eq_ok.1 hpattern
    exact patterned_modify.2 ⟨sh.isLValue_pattern, sh.patterned_pattern, hargs⟩
  deployment _ _ _ _ _ := trivial

/-- **Lowered expressions write to patterns.** -/
theorem lower_patterned {e : Expr} : PatternedCode env (lower s e) :=
  (lower_has hereditary_patterned s e fun _ _ => grants_patterned).yields

theorem lowerCast_patterned {e : Expr} : PatternedCode env (lowerCast s e ty) :=
  (lowerCast_has hereditary_patterned fun _ _ => grants_patterned).yields

theorem literal_patterned {value : Value} : PatternedCode env (literal value ty) :=
  (literal_has hereditary_patterned).yields

theorem returned_patterned {value : Option Target.Expr} (hvalue : ∀ v ∈ value, v.Patterned) :
    PatternedCode env (s.returned value) :=
  ((returned_has hereditary_patterned fun _ _ => env_patterned).mono fun _ he => he hvalue).yields

/-! ### Statements -/

theorem bindVariable_patterned {init : Target.Expr} (hinit : init.Patterned) :
    Yields env (bindVariable ty name init) Target.Stmt.Patterned := by
  refine .andThen fun unpacked => ?_
  split
  · exact unpack_isPattern.bind fun pattern hpattern => .pure (by simpa using ⟨hpattern.1, hinit⟩)
  · exact .andThen fun ty => .pure (by simpa using hinit)

theorem isLValue_catchPattern {name? : Option String} : (catchPattern name?).isLValue = true := by
  cases name? <;> rfl

/-- A walk over a map writes to patterns only. -/
structure Cursor.Patterned (c : Cursor) : Prop where
  before : StmtsPatterned c.before
  source : c.source.Patterned
  decode : StmtsPatterned c.decode

theorem patterned_withValueBits {kind : MapKind} {args : List Target.Expr} (h : ∀ e ∈ args, e.Patterned) :
    ∀ e ∈ kind.withValueBits args, e.Patterned := withValueBits_has hereditary_patterned h

theorem Cursor.Patterned.loop {c : Cursor} (hc : c.Patterned) {body : List Target.Stmt}
    (hbody : StmtsPatterned body) : StmtsPatterned (c.loop body) := by
  have hpattern : c.pattern.isLValue = true ∧ c.pattern.Patterned := ⟨rfl, by simp [Cursor.pattern]⟩
  have hstart : c.start.Patterned := by
    refine Stmt.patterned_var.2 ⟨hpattern.1, patterned_called.2 (patterned_withValueBits ?_)⟩
    simpa using hc.source
  have hadvance : c.advance.Patterned := by
    refine Stmt.patterned_assign.2 ⟨hpattern.1, hpattern.2, patterned_called.2 (patterned_withValueBits ?_)⟩
    simpa using hc.source
  simpa [Cursor.loop] using ⟨hc.before, hstart, hc.decode, hbody, hadvance⟩

theorem bindOnce_patterned {stem : String} {code : Target.Expr} (hcode : code.Patterned) :
    Yields env (bindOnce stem code) fun p => StmtsPatterned p.1 ∧ p.2.Patterned := by
  unfold bindOnce
  split
  · exact .pure (by simpa using hcode)
  · exact .andThen fun name => .pure (by simpa using hcode)

theorem cursorValue_patterned {kind : MapKind} {value : String} :
    Yields env (cursorValue kind value) fun p => StmtsPatterned p.2 := by
  unfold cursorValue
  split
  · refine .andThen fun raw => unpack_isPattern.bind fun pattern hpattern => ?_
    refine Yields.callUsed.bind fun loaded hloaded => Yields.callUsed.bind fun decoded hdecoded => .pure ?_
    subst hloaded hdecoded
    simpa using hpattern.1
  · exact .pure (by simp)

theorem cursor_patterned {key value : String} {map : Expr} {loc : Location} :
    Yields env (cursor s key value map loc) Cursor.Patterned := by
  refine .andThen fun _ => .andThen fun kind => lower_patterned.bind fun code hcode => ?_
  refine (bindOnce_patterned hcode).bind fun (before, source) ⟨hbefore, hsource⟩ => .andThen fun flag => ?_
  refine cursorValue_patterned.bind fun (raw, decode) hdecode => .andThen fun _ => .andThen fun _ => ?_
  exact .andThen fun _ => .andThen fun _ => .pure ⟨hbefore, hsource, hdecode⟩

mutual

theorem lowerStmt_patterned (s : Scope) : (stmt : Stmt) → PatternedStmts env (lowerStmt s stmt)
  | .letVar .. => lowerCast_patterned.bind fun init hinit =>
      (bindVariable_patterned hinit).bind fun t ht => .pure (by simpa using ht)
  | .assign .. => lvalue_isPattern.bind fun target htarget =>
      lowerCast_patterned.bind fun code hcode => .pure (by simp [hcode, htarget])
  | .augmentedAssign .. => lvalue_isPattern.bind fun target htarget =>
      lower_patterned.bind fun code hcode => .pure (by simp [hcode, htarget])
  | .ret _ none => (returned_patterned (by simp)).bind fun e he => .pure (by simpa using he)
  | .ret _ (some _) => (lowerCast_patterned.map (f := some)
      (Q := fun value? => ∀ v ∈ value?, v.Patterned) (by simp)).bind fun code hcode =>
      (returned_patterned hcode).bind fun e he => .pure (by simpa using he)
  | .expression .. => lower_patterned.bind fun code hcode => .pure (by simpa using hcode)
  | .condition _ _ body otherwise => lower_patterned.bind fun c hc =>
      (lowerStmts_patterned s body).bind fun b hb =>
      (lowerOtherwise_patterned s otherwise).bind fun o ho => .pure (by simpa using ⟨hc, hb, ho⟩)
  | .whileLoop _ _ body => lower_patterned.bind fun c hc =>
      (lowerStmts_patterned s body).bind fun b hb => .pure (by simpa using ⟨hc, hb⟩)
  | .untilLoop _ body _ => (lowerStmts_patterned s body).bind fun b hb =>
      lower_patterned.bind fun c hc => .pure (by simpa using ⟨hc, hb⟩)
  | .repeatLoop _ _ body => lower_patterned.bind fun n hn =>
      (lowerStmts_patterned s body).bind fun b hb => .pure (by simpa using ⟨hn, hb⟩)
  | .tryCatch _ body _ handler => (lowerStmts_patterned s body).bind fun b hb =>
      (lowerStmts_patterned s handler).bind fun h hh => .pure (by simpa using ⟨hb, isLValue_catchPattern, hh⟩)
  | .foreach _ _ _ _ body => cursor_patterned.bind fun c hc =>
      (lowerStmts_patterned s body).bind fun b hb => .pure (hc.loop hb)

/-- **Lowered statements write to patterns.** -/
theorem lowerStmts_patterned (s : Scope) : (stmts : List Stmt) → PatternedStmts env (lowerStmts s stmts)
  | [] => .pure trivial
  | stmt :: rest => (lowerStmt_patterned s stmt).bind fun _ hfirst =>
      (lowerStmts_patterned s rest).bind fun _ hout =>
      .pure (stmtsPatterned_append.2 ⟨hfirst, hout⟩)

theorem lowerOtherwise_patterned (s : Scope) : (otherwise : Otherwise) →
    Yields env (lowerOtherwise s otherwise) Target.Otherwise.Patterned
  | .absent => .pure trivial
  | .block body => (lowerStmts_patterned s body).bind fun _ hb => .pure hb
  | .chain (.condition _ _ body otherwise) => lower_patterned.bind fun _ hc =>
      (lowerStmts_patterned s body).bind fun _ hb =>
      (lowerOtherwise_patterned s otherwise).bind fun _ ho => .pure ⟨hc, hb, ho⟩
  | .chain (.letVar ..) | .chain (.assign ..) | .chain (.augmentedAssign ..)
  | .chain (.ret ..) | .chain (.expression ..) | .chain (.whileLoop ..)
  | .chain (.untilLoop ..) | .chain (.repeatLoop ..) | .chain (.tryCatch ..)
  | .chain (.foreach ..) => .defectAt

end

/-! ### Functions of the source -/

/-- The function that is made writes to patterns only. -/
abbrev PatternedItem (env : Env) (g : Gen Item) : Prop := Yields env g Item.Patterned

theorem prologue_patterned {bindings : List Binding} : PatternedStmts env (prologue bindings) := by
  induction bindings with
  | nil => exact .pure trivial
  | cons binding rest ih =>
    refine .andThen fun unpacked => ?_
    split
    · refine unpack_isPattern.bind fun pattern hpattern => ih.bind fun out hout => .pure ?_
      simpa using ⟨hpattern.1, hout⟩
    · exact ih

theorem lowerBody_patterned {params : List Binding} {stmts : List Stmt} :
    PatternedStmts env (lowerBody s params stmts) := by
  have hepilogue : PatternedStmts env (epilogue s stmts) := by
    unfold epilogue
    split
    · exact (returned_patterned (by simp)).bind fun e he => .pure (by simpa using he)
    · exact .pure trivial
  refine prologue_patterned.bind fun before hbefore => (lowerStmts_patterned s stmts).bind fun body hbody =>
    hepilogue.bind fun after hafter => .pure ?_
  simpa using ⟨hbefore, hbody, hafter⟩

theorem functionItem_patterned {f : Function} {stmts : List Stmt} :
    PatternedItem env (functionItem f name stmts) :=
  .andThen fun _ => .andThen fun _ => lowerBody_patterned.bind fun _ hbody => .pure hbody

theorem notMutItem_patterned {f : Function} : PatternedItem env (notMutItem f name) := by
  have hargs : ∀ e ∈ (bindingsOf f).tail.map fun b => Target.id b.1, e.Patterned :=
    List.forall_mem_map.2 fun _ _ => trivial
  exact .andThen fun signature => .andThen fun result => .andThen fun callee => .pure (by simpa using hargs)

theorem receiverItem_patterned {contract : TypeDecl} {receiver : Receiver} :
    PatternedItem env (receiverItem contract receiver name) :=
  .andThen fun _ => .andThen fun _ => lowerBody_patterned.bind fun _ hbody => .pure hbody

end Generate

end CellCompiler
