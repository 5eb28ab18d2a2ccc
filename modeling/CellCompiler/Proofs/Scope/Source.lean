import CellCompiler.Generate.Function
import CellCompiler.Proofs.Calling.Program

/-!
# Scopes of the source

What the front end of a compiler checks about variables before any code is made.

* `Vars` are the variables in scope, each with its declared type;
* `Expr.Scoped`: every variable in an expression is in scope with the type that the expression carries,
  and every field access is of a field that the record has. `Expr.Rooted`: a path starts at a variable;
* `Stmt.Scoped` and `StmtsScoped` follow the statements, which bring variables into scope;
* `TypeTable.Scoped` says it of all functions, inits and receivers of a program.
-/

namespace CellCompiler

/-- Variables with their types. -/
abbrev Vars := List (String × TypeRef)

namespace TypeTable

variable (table : TypeTable)

/-- The fields of a record, perhaps after a bounce. A built-in type has none. -/
def recordFields (name : String) (bounced : Bool) : List Field :=
  match table.types.get? name with
  | some decl => if decl.isStructLike then Layout.visibleFields decl bounced else []
  | none => []

/-- The fields that can be accessed in values of a type: those of a record that is not optional, and the
visible ones of a message after a bounce. -/
def fieldsOf : TypeRef → List Field
  | .named name false => table.recordFields name false
  | .bounced name => table.recordFields name true
  | _ => []

/-- The variable that holds the code of an exception, which is an integer. -/
def caughtVars (name? : Option String) : Vars :=
  name?.toList.flatMap fun name =>
    (table.types.values.filter (·.primitive? = some .int)).map fun decl => (name, .plain decl.name)

end TypeTable

/-- The variables that a loop over a map has for the current entry. -/
def entryVars (key value : String) : TypeRef → Vars
  | .map keyType _ valueType _ => [(key, .plain keyType), (value, .plain valueType)]
  | _ => []

section

variable (table : TypeTable) (vars : Vars)

/-! ### Expressions -/

/-- If the expression is a path, then it starts at a variable in scope. -/
def Expr.Rooted : Expr → Prop
  | .ident info name => (name, info.ty) ∈ vars
  | .field _ target _ => target.Rooted
  | _ => True

/-- What the expression itself refers to is in scope: a variable or a constant, a field of a record, or
the variable that a call changes. -/
def Expr.Resolves : Expr → Prop
  | .ident info name => (name, info.ty) ∈ vars ∨ table.constants.contains name = true
  | .field info target name => ∃ field ∈ table.fieldsOf target.ty, field.name = name ∧ field.ty = info.ty
  | .methodCall _ receiver method _ => table.mutates receiver.ty method = true → receiver.Rooted vars
  | _ => True

/-- What the expression and its parts refer to is in scope. -/
def Expr.Scoped (e : Expr) : Prop := ∀ part ∈ e.parts, part.Resolves table vars

/-- What can be assigned to: a path in scope that starts at a variable. -/
structure Expr.Assignable (path : Expr) : Prop where
  resolved : path.Scoped table vars
  rooted : path.Rooted vars

end

/-- The expressions are listed together with their parts. -/
def PartsClosed (es : List Expr) : Prop := ∀ part ∈ es, part.parts ⊆ es

theorem PartsClosed.append {es more : List Expr} (h : PartsClosed es) (hmore : PartsClosed more) :
    PartsClosed (es ++ more) := by
  intro part hpart
  obtain hpart | hpart := List.mem_append.1 hpart
  · exact List.subset_append_of_subset_left _ (h part hpart)
  · exact List.subset_append_of_subset_right _ (hmore part hpart)

/-- An expression in front of its operands. -/
theorem PartsClosed.cons {e : Expr} {es : List Expr} (h : PartsClosed es)
    (he : e.parts = e :: es) : PartsClosed (e :: es) := by
  refine List.forall_mem_cons.2 ⟨he ▸ List.Subset.refl _, fun part hpart => ?_⟩
  exact List.subset_cons_of_subset _ (h part hpart)

mutual

/-- The parts of a part are parts. -/
theorem Expr.partsClosed : (e : Expr) → PartsClosed e.parts
  | .number .. | .boolean .. | .null .. | .string .. | .ident .. => by simp [PartsClosed, Expr.parts]
  | .field _ target _ => (partsClosed target).cons rfl
  | .call _ _ args | .staticCall _ _ _ args | .initOf _ _ args => (partsClosed_partsOf args).cons rfl
  | .methodCall _ receiver _ args => ((partsClosed receiver).append (partsClosed_partsOf args)).cons rfl
  | .instanceOf _ _ inits => (partsClosed_partsOfInits inits).cons rfl
  | .binary _ _ lhs rhs => ((partsClosed lhs).append (partsClosed rhs)).cons rfl
  | .unary _ _ operand => (partsClosed operand).cons rfl
  | .conditional _ cond onTrue onFalse =>
    (((partsClosed cond).append (partsClosed onTrue)).append (partsClosed onFalse)).cons rfl

theorem Expr.partsClosed_partsOf : (es : List Expr) → PartsClosed (partsOf es)
  | [] => by simp [PartsClosed, partsOf]
  | e :: es => (partsClosed e).append (partsClosed_partsOf es)

theorem Expr.partsClosed_partsOfInits : (inits : List (String × Expr)) →
    PartsClosed (partsOfInits inits)
  | [] => by simp [PartsClosed, partsOfInits]
  | (_, e) :: inits => (partsClosed e).append (partsClosed_partsOfInits inits)

end

theorem Expr.Scoped.part {table : TypeTable} {vars : Vars} {e part : Expr} (h : e.Scoped table vars)
    (hpart : part ∈ e.parts) : part.Scoped table vars :=
  fun p hp => h p (e.partsClosed part hpart hp)

/-! ### Statements -/

/-- The variables that a statement brings into scope for what follows. -/
def Stmt.lets : Stmt → Vars
  | .letVar _ name ty _ => [(name, ty)]
  | _ => []

/-- The variables that statements bring into scope for what follows. -/
def stmtLets (ss : List Stmt) : Vars := ss.flatMap Stmt.lets

mutual

/-- The expressions of a statement refer to what is in scope. The condition that ends a loop may refer to
what the body brings into scope. -/
def Stmt.Scoped (table : TypeTable) : Vars → Stmt → Prop
  | vars, .letVar _ _ _ value => value.Scoped table vars
  | vars, .assign _ path value | vars, .augmentedAssign _ path _ value =>
    path.Assignable table vars ∧ value.Scoped table vars
  | vars, .ret _ value => ∀ e ∈ value, e.Scoped table vars
  | vars, .expression _ e => e.Scoped table vars
  | vars, .condition _ cond body otherwise =>
    cond.Scoped table vars ∧ StmtsScoped table vars body ∧ otherwise.Scoped table vars
  | vars, .whileLoop _ e body | vars, .repeatLoop _ e body =>
    e.Scoped table vars ∧ StmtsScoped table vars body
  | vars, .untilLoop _ body cond =>
    StmtsScoped table vars body ∧ cond.Scoped table (vars ++ stmtLets body)
  | vars, .tryCatch _ body name handler =>
    StmtsScoped table vars body ∧ StmtsScoped table (vars ++ table.caughtVars name) handler
  | vars, .foreach _ key value map body =>
    map.Scoped table vars ∧ StmtsScoped table (vars ++ entryVars key value map.ty) body

/-- The expressions of an alternative refer to what is in scope. -/
def Otherwise.Scoped (table : TypeTable) : Vars → Otherwise → Prop
  | _, .absent => True
  | vars, .block body => StmtsScoped table vars body
  | vars, .chain stmt => stmt.Scoped table vars

/-- The expressions of statements refer to what is in scope, and to what earlier statements bring into
scope. -/
def StmtsScoped (table : TypeTable) : Vars → List Stmt → Prop
  | _, [] => True
  | vars, s :: ss => s.Scoped table vars ∧ StmtsScoped table (vars ++ s.lets) ss

end

/-! ### Programs -/

namespace Function

/-- The variables that the body of a function starts with: `self` and the parameters. -/
def vars (f : Function) : Vars :=
  f.selfType.toList.map (fun ty => ("self", ty)) ++ f.params.map fun p => (p.name, p.ty)

/-- The statements of a function, if it has any. -/
def stmts (f : Function) : List Stmt :=
  match f.body with
  | .statements stmts => stmts
  | _ => []

end Function

/-- The variables that a contract starts with: `self` and the parameters. -/
def TypeDecl.initVars (contract : TypeDecl) : Vars :=
  ("self", .plain contract.name) :: contract.initParams.map fun p => (p.name, p.ty)

/-- The variables that a handler starts with: `self`, and the payload if there is one. -/
def Receiver.vars (contract : TypeDecl) (receiver : Receiver) : Vars :=
  ("self", .plain contract.name) ::
    receiver.selector.payloadType?.toList.map fun ty => (receiver.param.getD "_", ty)

/-- All bodies of a program refer to what is in scope. -/
structure TypeTable.Scoped (table : TypeTable) : Prop where
  functions : ∀ f ∈ table.allFunctions, StmtsScoped table f.vars f.stmts
  inits : ∀ contract ∈ table.contracts, StmtsScoped table contract.initVars contract.initBody
  receivers : ∀ contract ∈ table.contracts, ∀ receiver ∈ contract.receivers,
    StmtsScoped table (receiver.vars contract) receiver.body

/-! ### Deciding whether a program is scoped -/

section Decide

variable {table : TypeTable}

instance Expr.decidableRooted {vars : Vars} : (e : Expr) → Decidable (e.Rooted vars)
  | .ident info name => inferInstanceAs (Decidable ((name, info.ty) ∈ vars))
  | .field _ target _ => decidableRooted target
  | .number .. | .boolean .. | .null .. | .string .. | .call .. | .methodCall .. | .staticCall ..
  | .instanceOf .. | .binary .. | .unary .. | .conditional .. | .initOf .. => .isTrue trivial

instance Expr.decidableResolves {vars : Vars} : (e : Expr) → Decidable (e.Resolves table vars)
  | .ident info name =>
    inferInstanceAs (Decidable ((name, info.ty) ∈ vars ∨ table.constants.contains name = true))
  | .field info target name =>
    inferInstanceAs (Decidable (∃ field ∈ table.fieldsOf target.ty, field.name = name ∧ field.ty = info.ty))
  | .methodCall _ receiver method _ =>
    inferInstanceAs (Decidable (table.mutates receiver.ty method = true → receiver.Rooted vars))
  | .number .. | .boolean .. | .null .. | .string .. | .call .. | .staticCall .. | .instanceOf ..
  | .binary .. | .unary .. | .conditional .. | .initOf .. => .isTrue trivial

instance {vars : Vars} (e : Expr) : Decidable (e.Scoped table vars) :=
  inferInstanceAs (Decidable (∀ part ∈ e.parts, part.Resolves table vars))

instance {vars : Vars} (e : Expr) : Decidable (e.Assignable table vars) :=
  decidable_of_iff (e.Scoped table vars ∧ e.Rooted vars)
    ⟨fun ⟨hresolved, hrooted⟩ => ⟨hresolved, hrooted⟩, fun h => ⟨h.resolved, h.rooted⟩⟩

mutual

instance Stmt.decidableScoped : (vars : Vars) → (s : Stmt) → Decidable (s.Scoped table vars)
  | vars, .letVar _ _ _ value => inferInstanceAs (Decidable (value.Scoped table vars))
  | vars, .assign _ path value | vars, .augmentedAssign _ path _ value =>
    inferInstanceAs (Decidable (path.Assignable table vars ∧ value.Scoped table vars))
  | vars, .ret _ value => inferInstanceAs (Decidable (∀ e ∈ value, e.Scoped table vars))
  | vars, .expression _ e => inferInstanceAs (Decidable (e.Scoped table vars))
  | vars, .condition _ _ body otherwise =>
    have := decidableStmtsScoped vars body
    have := Otherwise.decidableScoped vars otherwise
    inferInstanceAs (Decidable (_ ∧ _ ∧ _))
  | vars, .whileLoop _ _ body | vars, .repeatLoop _ _ body =>
    have := decidableStmtsScoped vars body
    inferInstanceAs (Decidable (_ ∧ _))
  | vars, .untilLoop _ body _ =>
    have := decidableStmtsScoped vars body
    inferInstanceAs (Decidable (_ ∧ _))
  | vars, .tryCatch _ body name handler =>
    have := decidableStmtsScoped vars body
    have := decidableStmtsScoped (vars ++ table.caughtVars name) handler
    inferInstanceAs (Decidable (_ ∧ _))
  | vars, .foreach _ key value map body =>
    have := decidableStmtsScoped (vars ++ entryVars key value map.ty) body
    inferInstanceAs (Decidable (_ ∧ _))

instance Otherwise.decidableScoped : (vars : Vars) → (o : Otherwise) → Decidable (o.Scoped table vars)
  | _, .absent => .isTrue trivial
  | vars, .block body => decidableStmtsScoped vars body
  | vars, .chain stmt => Stmt.decidableScoped vars stmt

instance decidableStmtsScoped : (vars : Vars) → (ss : List Stmt) → Decidable (StmtsScoped table vars ss)
  | _, [] => .isTrue trivial
  | vars, s :: ss =>
    have := Stmt.decidableScoped vars s
    have := decidableStmtsScoped (vars ++ s.lets) ss
    inferInstanceAs (Decidable (_ ∧ _))

end

instance : Decidable table.Scoped :=
  decidable_of_iff ((∀ f ∈ table.allFunctions, StmtsScoped table f.vars f.stmts) ∧
      (∀ contract ∈ table.contracts, StmtsScoped table contract.initVars contract.initBody) ∧
      ∀ contract ∈ table.contracts, ∀ receiver ∈ contract.receivers,
        StmtsScoped table (receiver.vars contract) receiver.body)
    ⟨fun ⟨h₁, h₂, h₃⟩ => ⟨h₁, h₂, h₃⟩, fun ⟨h₁, h₂, h₃⟩ => ⟨h₁, h₂, h₃⟩⟩

end Decide

end CellCompiler
