import CellCompiler.Generate.Stmt
import CellCompiler.Proofs.Generate.Composition
import CellCompiler.Proofs.Layout.Views
import CellCompiler.Proofs.Machine.Writes

/-!
# What lowered statements assign to

Emitted code assigns to the variables of what the source changes and to variables that are made up for
loops, and to nothing else.

* `Layout.shapeWithin_under`: the variables of a shape belong to the variable that it is the shape of;
* `Covers W n names`: the variables that belong to one of the names, and those that are made up from
  number `n` on, satisfy `W`;
* `lowerStmts_writes` goes by induction on the statements of the source.
-/

namespace CellCompiler

open Target

/-! ### Variables that belong together -/

namespace Name

/-- The variable of a path belongs to that of its root. -/
theorem under_path {root : String} {fields : List String} {x : String}
    (h : Under (path (root :: fields)) x) : Under (var root) x := by
  have hfold : ∀ {fields : List String} {base : String}, Under (fields.foldl tick base) x → Under base x := by
    intro fields
    induction fields with
    | nil => exact fun h => h
    | cons f fields ih => exact fun h => (ih h).of_tick
  exact hfold h

end Name

namespace Layout

variable {table : TypeTable}

theorem recordBy_under {shapeOf : TypeRef → String → Except CompileError Shape}
    {fields : List (String × TypeRef)} {base : String} {sh : Shape}
    (hshape : ∀ ty name sh, shapeOf ty name = .ok sh → ∀ x ∈ sh.names, Name.Under name x)
    (h : recordBy shapeOf base fields = .ok sh) : ∀ x ∈ sh.names, Name.Under base x := by
  rcases recordBy_eq_ok.1 h with ⟨-, rfl⟩ | ⟨-, parts, rfl, hparts⟩
  · exact Shape.distinct_leaf.under
  · rw [Shape.names_product]
    clear h
    induction hparts with
    | nil => simp
    | cons hpart _ ih =>
      rw [Shape.namesOf_cons, List.forall_mem_append]
      exact ⟨fun x hx => (hshape _ _ _ hpart x hx).of_tick, ih⟩

theorem declBy_under {shapeOf : TypeRef → String → Except CompileError Shape} {decl : TypeDecl}
    {optional bounced : Bool} {base : String} {sh : Shape}
    (hshape : ∀ ty name sh, shapeOf ty name = .ok sh → ∀ x ∈ sh.names, Name.Under name x)
    (h : declBy shapeOf decl optional bounced base = .ok sh) : ∀ x ∈ sh.names, Name.Under base x := by
  rw [declBy_eq_ok] at h
  split at h
  · exact h ▸ Shape.distinct_leaf.under
  · split at h
    · exact h ▸ Shape.distinct_leaf.under
    · exact recordBy_under hshape h

/-- The variables of a shape belong to the variable that it is the shape of. -/
theorem shapeWithin_under {fuel : Nat} {mode : Mode} {ty : TypeRef} {base : String} {sh : Shape}
    (h : shapeWithin table fuel mode ty base = .ok sh) : ∀ x ∈ sh.names, Name.Under base x := by
  induction fuel generalizing mode ty base sh with
  | zero =>
    cases ty with
    | named name optional => simp [shapeWithin] at h
    | bounced name => simp [shapeWithin] at h
    | _ =>
      obtain rfl : Shape.leaf base _ = sh := by simpa [shapeWithin] using h
      exact Shape.distinct_leaf.under
  | succ fuel ih =>
    cases ty with
    | named name optional =>
      obtain ⟨decl, -, h⟩ := shapeWithin_named.1 h
      exact declBy_under (fun _ _ _ => ih) h
    | bounced name =>
      obtain ⟨decl, -, h⟩ := shapeWithin_bounced.1 h
      exact declBy_under (fun _ _ _ => ih) h
    | _ =>
      obtain rfl : Shape.leaf base _ = sh := by simpa [shapeWithin] using h
      exact Shape.distinct_leaf.under

mutual

theorem Shape.writes_pattern : (sh : Shape) → sh.pattern.writes = []
  | .leaf _ _ => rfl
  | .product parts => by simpa [Shape.pattern] using writes_patterns parts

theorem Shape.writes_patterns : (parts : List Shape) → writesOf (Shape.patterns parts) = []
  | [] => rfl
  | sh :: parts => by simp [Shape.patterns, writes_pattern sh, writes_patterns parts]

end

/-- A pattern assigns to nothing, and assigning to it assigns to variables that belong together. -/
theorem unpack_under {ty : TypeRef} {base : String} {pattern : Target.Expr}
    (h : unpack table ty base = .ok pattern) :
    pattern.writes = [] ∧ ∀ x ∈ pattern.boundNames, Name.Under base x := by
  obtain ⟨sh, hsh, rfl⟩ := Except.map_eq_ok.1 h
  refine ⟨sh.writes_pattern, ?_⟩
  rw [Shape.boundNames_pattern]
  exact shapeWithin_under hsh

end Layout

namespace Generate

variable {env : Env} {n : Nat} {W : String → Prop} {s : Scope} {ty : TypeRef} {name : String}

/-- The code assigns only to variables with the property. -/
def WritesOnly (W : String → Prop) (e : Target.Expr) : Prop := ∀ x ∈ e.writes, W x

theorem hereditary_writesOnly : Hereditary (WritesOnly W) where
  operand _ h := h
  int := by simp [WritesOnly]
  bool := by simp [WritesOnly]
  call name args h := by simpa [WritesOnly] using fun x e he hx => h e he x hx
  method receiver name args hreceiver hargs := by
    simpa [WritesOnly, or_imp, forall_and] using ⟨hreceiver, fun x e he hx => hargs e he x hx⟩
  ternary cond onTrue onFalse hcond htrue hfalse := by
    simpa [WritesOnly, or_imp, forall_and] using ⟨hcond, htrue, hfalse⟩
  binary op lhs rhs hl hr := by simpa [WritesOnly, or_imp, forall_and] using ⟨hl, hr⟩
  unary op operand h := by simpa [WritesOnly] using h
  tensor items h := by simpa [WritesOnly] using fun x e he hx => h e he x hx

/-- Stems of the variables that are made up for loops. -/
def loopStems : List String := ["fm", "fc", "fv"]

/-- The variables that belong to one of the names, and those that are made up from `n` on, have the
property. -/
structure Covers (W : String → Prop) (n : Nat) (names : List String) : Prop where
  under : ∀ name ∈ names, ∀ x, Name.Under (Name.var name) x → W x
  fresh : ∀ stem ∈ loopStems, ∀ i, n ≤ i → W s!"{stem}_{i}"

theorem Covers.mono {names fewer : List String} (h : Covers W n names) (hfewer : fewer ⊆ names) :
    Covers W n fewer :=
  ⟨fun name hname => h.under name (hfewer hname), h.fresh⟩

theorem patterned_writesOnly : env.Patterned (WritesOnly W) ty name := by
  intro pattern h x hx
  simp [(Layout.unpack_under h).1] at hx

/-- Assigning to a path assigns to variables that belong to its root. -/
theorem boundNames_of_path {path : Expr} {segments : List String} {pattern : Target.Expr}
    (hW : ∀ name ∈ path.root?, ∀ x, Name.Under (Name.var name) x → W x)
    (hsegments : path.path = some segments)
    (h : Layout.unpack env.program.types path.ty (Name.path segments) = .ok pattern) :
    WritesOnly W pattern ∧ ∀ x ∈ pattern.boundNames, W x := by
  obtain ⟨hwrites, hunder⟩ := Layout.unpack_under h
  refine ⟨by simp [WritesOnly, hwrites], fun x hx => ?_⟩
  cases segments with
  | nil => cases path with
    | field info target field =>
      simp only [Expr.path, Option.map_eq_some_iff] at hsegments
      obtain ⟨_, -, hnil⟩ := hsegments
      simp at hnil
    | _ => simp [Expr.path] at hsegments
  | cons root fields =>
    exact hW root (by simp [Expr.root?, hsegments]) x (Name.under_path (hunder x hx))

/-- What an expression changes covers what its code assigns to. -/
theorem grants_writesOnly {e part : Expr} (hpart : part ∈ e.parts)
    (hW : Covers W n (e.changes env.program.types)) : env.Grants True s (WritesOnly W) part where
  self _ _ _ _ _ _ := patterned_writesOnly
  ident _ _ _ _ _ := patterned_writesOnly
  field _ _ _ _ _ _ _ _ := patterned_writesOnly
  receiver info receiver name args heq hmutates := by
    intro segments hsegments pattern hpattern callee codes hcodes
    have hroot : ∀ root ∈ receiver.root?, root ∈ e.changes env.program.types := fun root hroot =>
      List.mem_filterMap.2 ⟨part, hpart, by simpa [heq, Expr.updated, hmutates] using hroot⟩
    obtain ⟨hwrites, hbound⟩ := boundNames_of_path (W := W)
      (fun root h => hW.under root (hroot root h)) hsegments hpattern
    simp only [WritesOnly, Target.modify, Target.Expr.writes, if_true, List.forall_mem_append]
    exact ⟨⟨hwrites, by simpa using fun x e he hx => hcodes e he x hx⟩, hbound⟩
  deployment _ _ _ _ _ := by simp [WritesOnly, Target.id]

theorem lower_writes {e : Expr} (hW : Covers W n (e.changes env.program.types)) :
    YieldsFrom env n (lower s e) (WritesOnly W) :=
  lower_has hereditary_writesOnly s e fun _ hpart => grants_writesOnly hpart hW

theorem lowerCast_writes {e : Expr} (hW : Covers W n (e.changes env.program.types)) :
    YieldsFrom env n (lowerCast s e ty) (WritesOnly W) :=
  cast_has hereditary_writesOnly (lower_writes hW)

theorem lvalue_writes {path : Expr} (hW : Covers W n path.root?.toList) :
    YieldsFrom env n (lvalue path) fun e => WritesOnly W e ∧ ∀ x ∈ e.boundNames, W x := by
  unfold lvalue
  split
  · next segments hsegments =>
    refine (Leads.ofTable (f := fun t => Layout.unpack t path.ty (Name.path segments))).mono ?_
    exact fun pattern => boundNames_of_path (fun name hname => hW.under name (by simpa using hname)) hsegments
  · exact .defectAt

/-! ### Statements -/

/-- A generator of statements that assign only to variables with the property. -/
abbrev StmtsWrite (env : Env) (n : Nat) (W : String → Prop) (g : Gen (List Target.Stmt)) : Prop :=
  YieldsFrom env n g fun out => ∀ x ∈ stmtWrites out, W x

theorem isUnpacked_steady : Steady env (isUnpacked ty) := Steady.ofTable (f := fun t => Layout.isUnpacked t ty)

theorem representation_steady : Steady env (representation ty) :=
  Steady.ofTable (f := fun t => Layout.representation t ty)

/-- The variables that a pattern binds belong to the variable that it unpacks. -/
theorem unpack_writes (hW : Covers W n [name]) :
    YieldsFrom env n (unpack ty (Name.var name)) fun e => ∀ x ∈ e.boundNames, W x := by
  refine (Leads.ofTable (f := fun t => Layout.unpack t ty (Name.var name))).mono fun e he x hx => ?_
  exact hW.under name (by simp) x ((Layout.unpack_under he).2 x hx)

theorem Covers.var (hW : Covers W n [name]) : W (Name.var name) :=
  hW.under name (by simp) _ (Name.Under.refl _)

theorem bindVariable_writes {init : Target.Expr} (hW : Covers W n [name]) (hinit : WritesOnly W init) :
    YieldsFrom env n (bindVariable ty (Name.var name) init) fun stmt => ∀ x ∈ stmt.writes, W x := by
  refine .andThen isUnpacked_steady fun unpacked => ?_
  split
  · refine (unpack_writes hW).bind fun pattern hpattern => .pure ?_
    exact List.forall_mem_append.2 ⟨hinit, hpattern⟩
  · exact .andThen representation_steady fun t => .pure
      (List.forall_mem_append.2 ⟨hinit, List.forall_mem_singleton.2 hW.var⟩)

theorem returned_writes {value : Option Target.Expr} (hvalue : ∀ v ∈ value, WritesOnly W v) :
    YieldsFrom env n (s.returned value) (WritesOnly W) :=
  (returned_has hereditary_writesOnly fun _ _ => patterned_writesOnly).mono fun _ he => he hvalue

theorem boundNames_catchPattern {name? : Option String} (hW : Covers W n name?.toList) :
    ∀ x ∈ (catchPattern name?).boundNames, W x := by
  cases name? with
  | none => simp [catchPattern, Target.Expr.boundNames, Target.Expr.boundNamesOf]
  | some name =>
    have hvar : W (Name.var name) := hW.var
    simpa [catchPattern, Target.Expr.boundNames, Target.Expr.boundNamesOf, Target.id] using hvar

/-! ### Loops over maps -/

/-- A walk over a map assigns only to variables with the property. -/
structure Cursor.Writes (W : String → Prop) (c : Cursor) : Prop where
  before : ∀ x ∈ stmtWrites c.before, W x
  source : WritesOnly W c.source
  decode : ∀ x ∈ stmtWrites c.decode, W x
  key : W c.key
  raw : W c.raw
  flag : W c.flag

theorem writesOf_withValueBits {kind : MapKind} {args : List Target.Expr} :
    writesOf (kind.withValueBits args) = writesOf args := by
  unfold MapKind.withValueBits
  split
  · induction args with
    | nil => rfl
    | cons e es ih => simp [ih]
  · rfl

theorem Cursor.Writes.loop {c : Cursor} (hc : c.Writes W) {body : List Target.Stmt}
    (hbody : ∀ x ∈ stmtWrites body, W x) : ∀ x ∈ stmtWrites (c.loop body), W x := by
  have hpattern : ∀ x ∈ c.pattern.boundNames, W x := by
    simpa [Cursor.pattern, Target.Expr.boundNames, Target.Expr.boundNamesOf, Target.id] using
      ⟨hc.key, hc.raw, hc.flag⟩
  have hstart : ∀ x ∈ c.start.writes, W x := by
    refine List.forall_mem_append.2 ⟨?_, hpattern⟩
    simpa [Target.call, writesOf_withValueBits, Target.int, WritesOnly] using hc.source
  have hadvance : ∀ x ∈ c.advance.writes, W x := by
    refine List.forall_mem_append.2 ⟨?_, hpattern⟩
    simpa [Target.call, writesOf_withValueBits, Target.int, Target.id, WritesOnly] using hc.source
  rw [Cursor.loop, stmtWrites_append, List.forall_mem_append]
  refine ⟨hc.before, ?_⟩
  simp only [stmtWrites, Target.Stmt.writes, stmtWrites_append, Target.id, Target.Expr.writes,
    List.forall_mem_append, List.nil_append, List.append_nil]
  exact ⟨hstart, ⟨hc.decode, hbody⟩, hadvance⟩

theorem fresh_writes {stem : String} {names : List String} (hstem : stem ∈ loopStems)
    (hW : Covers W n names) : YieldsFrom env n (fresh stem) W :=
  Leads.fresh.mono fun _ ⟨i, hi, hx⟩ => hx ▸ hW.fresh stem hstem i hi

theorem bindOnce_writes {code : Target.Expr} {names : List String} (hW : Covers W n names)
    (hcode : WritesOnly W code) : YieldsFrom env n (bindOnce "fm" code) fun p =>
      (∀ x ∈ stmtWrites p.1, W x) ∧ WritesOnly W p.2 := by
  unfold bindOnce
  split
  · exact .pure ⟨by simp, hcode⟩
  · refine (fresh_writes (by decide) hW).bind fun name hname => .pure ⟨?_, by simp [WritesOnly, Target.id]⟩
    simpa [Target.var, Target.id, Target.Expr.boundNames, or_imp, forall_and] using ⟨hcode, hname⟩

theorem cursorValue_writes {kind : MapKind} {value : String} (hW : Covers W n [value]) :
    YieldsFrom env n (cursorValue kind value) fun p => W p.1 ∧ ∀ x ∈ stmtWrites p.2, W x := by
  unfold cursorValue
  split
  · refine (fresh_writes (by decide) hW).bind fun raw hraw => ?_
    refine (unpack_writes hW).bind fun pattern hpattern => ?_
    refine YieldsFrom.bind Leads.callUsed fun loaded hloaded => YieldsFrom.bind Leads.callUsed fun decoded hdecoded => ?_
    subst hloaded hdecoded
    exact .pure ⟨hraw, by simpa [Target.var, Target.call, Target.id] using hpattern⟩
  · exact .pure ⟨hW.var, by simp⟩

theorem cursor_writes {key value : String} {map : Expr} {loc : Location}
    (hW : Covers W n (key :: value :: map.changes env.program.types)) :
    YieldsFrom env n (cursor s key value map loc) (Cursor.Writes W) := by
  refine .table_bind (YieldsFrom.bind Leads.ofExcept fun kind _ => ?_)
  refine (lower_writes (hW.mono (by simp))).bind fun code hcode => (bindOnce_writes hW hcode).bind ?_
  rintro ⟨before, source⟩ ⟨hbefore, hsource⟩
  refine (fresh_writes (by decide) hW).bind fun flag hflag => ?_
  refine (cursorValue_writes (hW.mono (by simp))).bind fun (raw, decode) ⟨hraw, hdecode⟩ => ?_
  refine .used_bind (.used_bind (.andThen .skip fun _ => .andThen .skip fun _ => .pure ?_))
  exact ⟨hbefore, hsource, hdecode, (hW.mono (by simp) : Covers W n [key]).var, hraw, hflag⟩

mutual

theorem lowerStmt_writes (s : Scope) : (stmt : Stmt) → Covers W n (stmt.changes env.program.types) →
    StmtsWrite env n W (lowerStmt s stmt)
  | .letVar .., hW => (lowerCast_writes (hW.mono (by simp [Stmt.changes]))).bind fun init hinit =>
      (bindVariable_writes (hW.mono (by simp [Stmt.changes])) hinit).bind fun t ht =>
      .pure (by simpa using ht)
  | .assign .., hW => (lvalue_writes (hW.mono (by simp [Stmt.changes]))).bind fun target htarget =>
      (lowerCast_writes (hW.mono (by simp [Stmt.changes]))).bind fun code hcode => .pure
      (by simpa [Target.assign, or_imp, forall_and] using ⟨hcode, htarget.2⟩)
  | .augmentedAssign .., hW => (lvalue_writes (hW.mono (by simp [Stmt.changes]))).bind fun target htarget =>
      (lower_writes (hW.mono (by simp [Stmt.changes]))).bind fun code hcode => .pure
      (by simpa [or_imp, forall_and] using ⟨htarget.1, hcode, htarget.2⟩)
  | .ret _ none, _ => (returned_writes (by simp)).bind fun e he => .pure
      (by simpa [Target.ret, WritesOnly] using he)
  | .ret _ (some _), hW => Leads.after ((lowerCast_writes hW).map (f := some)
      (Q := fun value? => ∀ v ∈ value?, WritesOnly W v) (by simp)) fun code hcode =>
      (returned_writes hcode).bind fun e he => .pure (by simpa [Target.ret, WritesOnly] using he)
  | .expression .., hW => (lower_writes hW).bind fun code hcode => .pure
      (by simpa [WritesOnly] using hcode)
  | .condition _ _ body otherwise, hW => (lower_writes (hW.mono (by simp [Stmt.changes]))).bind fun c hc =>
      (lowerStmts_writes s body (hW.mono (by simp [Stmt.changes]))).bind fun b hb =>
      (lowerOtherwise_writes s otherwise (hW.mono (by simp [Stmt.changes]))).bind fun o ho =>
      .pure (by simpa [or_imp, forall_and] using ⟨hc, hb, ho⟩)
  | .whileLoop _ _ body, hW => (lower_writes (hW.mono (by simp [Stmt.changes]))).bind fun c hc =>
      (lowerStmts_writes s body (hW.mono (by simp [Stmt.changes]))).bind fun b hb =>
      .pure (by simpa [or_imp, forall_and] using ⟨hc, hb⟩)
  | .untilLoop _ body _, hW => (lowerStmts_writes s body (hW.mono (by simp [Stmt.changes]))).bind fun b hb =>
      (lower_writes (hW.mono (by simp [Stmt.changes]))).bind fun c hc =>
      .pure (by simpa [or_imp, forall_and] using ⟨hb, hc⟩)
  | .repeatLoop _ _ body, hW => (lower_writes (hW.mono (by simp [Stmt.changes]))).bind fun c hc =>
      (lowerStmts_writes s body (hW.mono (by simp [Stmt.changes]))).bind fun b hb =>
      .pure (by simpa [or_imp, forall_and] using ⟨hc, hb⟩)
  | .tryCatch _ body name? handler, hW =>
      (lowerStmts_writes s body (hW.mono (by simp [Stmt.changes]))).bind fun b hb =>
      (lowerStmts_writes s handler (hW.mono (by simp [Stmt.changes]))).bind fun h hh =>
      have hname : Covers W n name?.toList := hW.mono (by simp [Stmt.changes])
      have hcatch := boundNames_catchPattern hname
      .pure (by simpa [or_imp, forall_and] using ⟨hb, hcatch, hh⟩)
  | .foreach _ _ _ _ body, hW => (cursor_writes (hW.mono (List.subset_append_left ..))).bind fun c hc =>
      (lowerStmts_writes s body (hW.mono (List.subset_append_right ..))).bind fun b hb => .pure (hc.loop hb)

/-- **Lowered statements assign only to what the source changes**, and to variables that are made up on
the way. -/
theorem lowerStmts_writes (s : Scope) : (stmts : List Stmt) →
    Covers W n (stmtChanges env.program.types stmts) → StmtsWrite env n W (lowerStmts s stmts)
  | [], _ => .pure (by simp)
  | stmt :: rest, hW => (lowerStmt_writes s stmt (hW.mono (by simp [stmtChanges]))).bind fun first hfirst =>
      (lowerStmts_writes s rest (hW.mono (by simp [stmtChanges]))).bind fun out hout =>
      .pure (by simpa [or_imp, forall_and] using ⟨hfirst, hout⟩)

theorem lowerOtherwise_writes (s : Scope) : (otherwise : Otherwise) →
    Covers W n (otherwise.changes env.program.types) →
    YieldsFrom env n (lowerOtherwise s otherwise) fun out => ∀ x ∈ out.writes, W x
  | .absent, _ => .pure (by simp)
  | .block body, hW => (lowerStmts_writes s body hW).bind fun b hb => .pure (by simpa using hb)
  | .chain (.condition _ _ body otherwise), hW =>
      (lower_writes (hW.mono (by simp [Otherwise.changes, Stmt.changes]))).bind fun c hc =>
      (lowerStmts_writes s body (hW.mono (by simp [Otherwise.changes, Stmt.changes]))).bind fun b hb =>
      (lowerOtherwise_writes s otherwise (hW.mono (by simp [Otherwise.changes, Stmt.changes]))).bind
      fun o ho => .pure (by simpa [or_imp, forall_and] using ⟨hc, hb, ho⟩)
  | .chain (.letVar ..), _ | .chain (.assign ..), _ | .chain (.augmentedAssign ..), _
  | .chain (.ret ..), _ | .chain (.expression ..), _ | .chain (.whileLoop ..), _
  | .chain (.untilLoop ..), _ | .chain (.repeatLoop ..), _ | .chain (.tryCatch ..), _
  | .chain (.foreach ..), _ => .defectAt

end

end Generate

end CellCompiler

/-!
## Code that is a variable

The code of an expression is a single variable only if the expression is a path to it, or takes the map
at such a path as a cell. Everything else is computed.

* `IsCompound` says that code is not a variable, and `Stems e` that if it is, then the variable belongs
  to the origin of `e`;
* `lower_stems` goes through the expressions of the source.
-/

namespace CellCompiler

open Target

namespace Generate

variable {env : Env} {n : Nat} {s : Scope} {ty : TypeRef} {name : String}

/-- The code is not a variable. -/
def IsCompound (code : Target.Expr) : Prop := code.ident? = none

theorem inherits_isCompound : Inherits (fun _ => True) IsCompound := by
  constructor <;> simp [IsCompound, Target.Expr.ident?]

theorem lower_counts {e : Expr} : Has env n True (fun _ => True) (lower s e) := by
  refine lower_has (by constructor <;> simp) s e fun part _ => ?_
  constructor <;> simp [Env.Patterned, Env.Updates]

theorem operands_count {es : List Expr} : ∀ o ∈ operands s es, o.Has env n True fun _ => True := by
  induction es with
  | nil => simp [operands]
  | cons e es ih => exact List.forall_mem_cons.2 ⟨lower_counts, ih⟩

theorem initOperands_count {inits : List (String × Expr)} :
    ∀ p ∈ initOperands s inits, p.2.Has env n True fun _ => True := by
  induction inits with
  | nil => simp [initOperands]
  | cons p inits ih => exact List.forall_mem_cons.2 ⟨lower_counts, ih⟩

/-- If the code is a variable, then one that belongs to the origin of the expression. -/
def Stems (e : Expr) (code : Target.Expr) : Prop :=
  ∀ name, code.ident? = some name → ∃ root ∈ e.origin?, Name.Under (Name.var root) name

theorem IsCompound.stems {e : Expr} {code : Target.Expr} (h : IsCompound code) : Stems e code := by
  intro name hname
  rw [h] at hname
  cases hname

/-- A pattern that is a variable belongs to the variable that is unpacked. -/
theorem patterned_stems {e : Expr} {root : String} (fields : List String) (hroot : e.origin? = some root) :
    env.Patterned (Stems e) ty (Name.path (root :: fields)) := by
  intro pattern h x hx
  refine ⟨root, hroot, Name.under_path ((Layout.unpack_under h).2 x ?_)⟩
  cases pattern with
  | ident name =>
    obtain rfl : name = x := by simpa [Target.Expr.ident?] using hx
    simp [Target.Expr.boundNames]
  | _ => simp [Target.Expr.ident?] at hx

theorem inherits_stems {e : Expr} : Inherits (fun _ => True) (Stems e) := by
  have h := inherits_isCompound
  exact ⟨fun _ _ => trivial, fun v => (h.int v).stems, fun b => (h.bool b).stems,
    fun name args hargs => (h.call name args hargs).stems,
    fun receiver name args hreceiver hargs => (h.method receiver name args hreceiver hargs).stems,
    fun c t f hc ht hf => (h.ternary c t f hc ht hf).stems, fun op l r hl hr => (h.binary op l r hl hr).stems,
    fun op o ho => (h.unary op o ho).stems, fun items hitems => (h.tensor items hitems).stems⟩

/-- **Code that is a variable is that of a path.** -/
theorem lower_stems : (e : Expr) → Has env n True (Stems e) (lower s e)
  | .methodCall info receiver name args => by
    refine foldedOr_has inherits_stems (methodCall_has inherits_stems (fun _ => ?_) lower_counts
      (fun hname => (lower_stems receiver).mono fun code hcode => ?_) operands_count)
    · exact fun _ _ _ _ _ _ _ => IsCompound.stems rfl
    · rwa [Stems, Expr.origin?, if_pos hname]
  | .number .. => foldedOr_has inherits_stems (.pure (inherits_stems.int _))
  | .boolean .. => foldedOr_has inherits_stems (.pure (inherits_stems.bool _))
  | .null .. => foldedOr_has inherits_stems (.pure inherits_stems.null)
  | .string .. => foldedOr_has inherits_stems (literal_has inherits_stems)
  | .ident info name => foldedOr_has inherits_stems (identifier_has inherits_stems
      (fun heq _ _ => patterned_stems [] (heq ▸ rfl))
      (fun _ _ => patterned_stems [] rfl))
  | .field info target name => foldedOr_has inherits_stems (fieldAccess_has inherits_stems
      (fun root fields hpath _ => patterned_stems fields (by simp [Expr.origin?, Expr.root?, hpath])) lower_counts)
  | .call _ _ _ => foldedOr_has inherits_stems (functionCall_has inherits_stems operands_count)
  | .staticCall .. => foldedOr_has inherits_stems (staticCall_has inherits_stems operands_count)
  | .instanceOf .. => foldedOr_has inherits_stems (newRecord_has inherits_stems initOperands_count)
  | .binary .. => foldedOr_has inherits_stems (binaryCode_has inherits_stems lower_counts lower_counts)
  | .unary .. => foldedOr_has inherits_stems (unaryCode_has inherits_stems lower_counts)
  | .conditional .. => foldedOr_has inherits_stems (conditionalCode_has inherits_stems lower_counts lower_counts
      lower_counts)
  | .initOf .. => foldedOr_has inherits_stems (deployment_has inherits_stems (fun _ => trivial) operands_count)

end Generate

end CellCompiler
