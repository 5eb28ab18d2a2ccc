import CellCompiler.Proofs.Calling.Convention
import CellCompiler.Proofs.Generate.Construction
import CellCompiler.Proofs.Source.Table

/-!
# Programs that call as they declare

* `Program.CallsAsDeclared`: tables file declarations under their names, and every call of the source
  has as many arguments as the function has parameters;
* `Program.Unmarked`: names do not interfere with those of emitted code;
* `Program.Followed` has both, which is what emitted calls need to fit.
-/

namespace CellCompiler

/-- Every function is entered once, under its own name. -/
structure Dict.Filed (d : Dict Function) : Prop where
  nodup : d.keys.Nodup
  named : ∀ p ∈ d.entries, p.2.name = p.1

theorem Dict.Filed.get?_name {d : Dict Function} (h : d.Filed) {f : Function} (hf : f ∈ d.values) :
    d.get? f.name = some f := by
  obtain ⟨⟨key, g⟩, hmem, rfl⟩ := List.mem_map.1 hf
  obtain rfl : g.name = key := h.named _ hmem
  exact Dict.get?_of_mem_entries h.nodup hmem

theorem Dict.Filed.name_eq {d : Dict Function} (h : d.Filed) {name : String} {f : Function}
    (hf : d.get? name = some f) : f.name = name := h.named _ (Dict.mem_entries_of_get? hf)

/-! ### Calls of the source -/

/-- A call has as many arguments as its function has parameters. -/
def Expr.CallsFit (table : TypeTable) : Expr → Prop
  | .call _ name args => ∀ f ∈ table.functions.get? name, args.length = f.params.length
  | .methodCall _ receiver name args =>
    ∀ type ∈ receiver.ty.name?, ∀ f ∈ table.method? type name, args.length = f.params.length
  | .initOf _ contract args => ∀ decl ∈ table.types.get? contract, args.length = decl.initParams.length
  | _ => True

instance (table : TypeTable) : DecidablePred (Expr.CallsFit table)
  | .call _ name args =>
    inferInstanceAs (Decidable (∀ f ∈ table.functions.get? name, args.length = f.params.length))
  | .methodCall _ receiver name args => inferInstanceAs (Decidable (∀ type ∈ receiver.ty.name?,
      ∀ f ∈ table.method? type name, args.length = f.params.length))
  | .initOf _ contract args => inferInstanceAs (Decidable (∀ decl ∈ table.types.get? contract,
      args.length = decl.initParams.length))
  | .number .. | .boolean .. | .null .. | .string .. | .ident .. | .field .. | .staticCall ..
  | .instanceOf .. | .binary .. | .unary .. | .conditional .. => inferInstanceAs (Decidable True)

/-- The functions of a table, with those of its types. -/
def TypeTable.allFunctions (table : TypeTable) : List Function :=
  table.functions.values ++ table.types.values.flatMap fun decl => decl.functions.values

theorem TypeTable.mem_allFunctions {table : TypeTable} {f : Function} :
    f ∈ table.allFunctions ↔ table.HasFunction f := by
  simp [allFunctions, HasFunction, List.mem_flatMap]

/-- The expressions in the body of a function. -/
def Function.exprs (f : Function) : List Expr :=
  match f.body with
  | .statements stmts => stmtExprs stmts
  | _ => []

/-- The expressions in what a contract starts with and in its handlers. -/
def TypeDecl.exprs (decl : TypeDecl) : List Expr :=
  stmtExprs decl.initBody ++ decl.receivers.flatMap fun r => stmtExprs r.body

/-- The expressions in all bodies of a program. -/
def Program.exprs (p : Program) : List Expr :=
  p.types.allFunctions.flatMap Function.exprs ++ p.types.contracts.flatMap TypeDecl.exprs

/-- Declarations are filed under their names, methods with the type that they are declared on, and
all calls have as many arguments as the function has parameters. -/
structure Program.CallsAsDeclared (p : Program) : Prop where
  wellNamed : p.types.WellNamed
  functions : p.types.functions.Filed
  methods : ∀ decl ∈ p.types.types.values, decl.functions.Filed
  owned : ∀ decl ∈ p.types.types.values, ∀ f ∈ decl.functions.values,
    f.selfType.bind TypeRef.name? = some decl.name
  calls : ∀ e ∈ p.exprs, e.CallsFit p.types

instance (p : Program) : Decidable p.CallsAsDeclared :=
  decidable_of_iff ((p.types.types.keys.Nodup ∧ ∀ q ∈ p.types.types.entries, q.2.name = q.1) ∧
      (p.types.functions.keys.Nodup ∧ ∀ q ∈ p.types.functions.entries, q.2.name = q.1) ∧
      (∀ decl ∈ p.types.types.values,
        decl.functions.keys.Nodup ∧ ∀ q ∈ decl.functions.entries, q.2.name = q.1) ∧
      (∀ decl ∈ p.types.types.values, ∀ f ∈ decl.functions.values,
        f.selfType.bind TypeRef.name? = some decl.name) ∧ ∀ e ∈ p.exprs, e.CallsFit p.types)
    ⟨fun ⟨⟨h₁, h₂⟩, ⟨h₃, h₄⟩, h₅, h₆, h₇⟩ =>
      ⟨⟨h₁, h₂⟩, ⟨h₃, h₄⟩, fun decl hdecl => ⟨(h₅ decl hdecl).1, (h₅ decl hdecl).2⟩, h₆, h₇⟩,
    fun ⟨⟨h₁, h₂⟩, ⟨h₃, h₄⟩, h₅, h₆, h₇⟩ =>
      ⟨⟨h₁, h₂⟩, ⟨h₃, h₄⟩, fun decl hdecl => ⟨(h₅ decl hdecl).1, (h₅ decl hdecl).2⟩, h₆, h₇⟩⟩

/-! ### Names without marks -/

/-- A field that is accessed has no mark in its name. -/
def Expr.Unmarked : Expr → Prop
  | .field _ _ name => '$' ∉ name.toList
  | _ => True

instance : DecidablePred Expr.Unmarked
  | .field _ _ name => inferInstanceAs (Decidable ('$' ∉ name.toList))
  | .number .. | .boolean .. | .null .. | .string .. | .ident .. | .call .. | .methodCall ..
  | .staticCall .. | .instanceOf .. | .binary .. | .unary .. | .conditional .. | .initOf .. =>
    inferInstanceAs (Decidable True)

/-- A record that is stored by a plan of its own has no mark in its name. -/
def Plan.OpKind.Unmarked : OpKind → Prop
  | .struct typeName _ => '$' ∉ typeName.toList
  | _ => True

instance : DecidablePred Plan.OpKind.Unmarked
  | .struct typeName _ => inferInstanceAs (Decidable ('$' ∉ typeName.toList))
  | .int _ | .uint _ | .coins | .boolean | .address | .cell _ | .slice _ | .builder _ | .string
  | .fixedBytes _ | .map => inferInstanceAs (Decidable True)

/-- All operations of a plan are on records without marks in their names. -/
def Plan.Unmarked (plan : Plan) : Prop := ∀ op ∈ plan.root.ops, op.kind.Unmarked

instance : DecidablePred Plan.Unmarked := fun plan =>
  inferInstanceAs (Decidable (∀ op ∈ plan.root.ops, op.kind.Unmarked))

/-- No identifier of the program has a mark in it. -/
structure Program.Unmarked (p : Program) : Prop where
  unmarked : p.types.Unmarked
  names : ∀ f ∈ p.types.allFunctions, '$' ∉ f.name.toList
  fields : ∀ e ∈ p.exprs, e.Unmarked
  selectors : ∀ decl ∈ p.types.contracts, ∀ r ∈ decl.receivers,
    ∀ name ∈ Name.Origin.selectorIdentifiers r.selector, '$' ∉ name.toList
  plans : ∀ plan ∈ p.plans.types.values ++ p.plans.initArgs.values, plan.Unmarked

instance (p : Program) : Decidable p.Unmarked :=
  decidable_of_iff (((∀ decl ∈ p.types.types.values, '$' ∉ decl.name.toList) ∧
      ∀ decl ∈ p.types.types.values, ∀ f ∈ decl.fields, '$' ∉ f.name.toList) ∧
      (∀ f ∈ p.types.allFunctions, '$' ∉ f.name.toList) ∧ (∀ e ∈ p.exprs, e.Unmarked) ∧
      (∀ decl ∈ p.types.contracts, ∀ r ∈ decl.receivers,
        ∀ name ∈ Name.Origin.selectorIdentifiers r.selector, '$' ∉ name.toList) ∧
      ∀ plan ∈ p.plans.types.values ++ p.plans.initArgs.values, plan.Unmarked)
    ⟨fun ⟨⟨h₁, h₂⟩, h₃, h₄, h₅, h₆⟩ => ⟨⟨h₁, h₂⟩, h₃, h₄, h₅, h₆⟩,
    fun ⟨⟨h₁, h₂⟩, h₃, h₄, h₅, h₆⟩ => ⟨⟨h₁, h₂⟩, h₃, h₄, h₅, h₆⟩⟩

/-! ### Programs whose calls can be followed -/

/-- A call of the source can be followed to the function that is emitted for its callee. -/
def Expr.FitsTable (table : TypeTable) (e : Expr) : Prop := e.CallsFit table ∧ e.Unmarked

/-- The program calls as it declares, no identifier has a mark in it, and functions that no type owns
are declared on none. -/
structure Program.Followed (p : Program) : Prop extends p.CallsAsDeclared, p.Unmarked where
  free : ∀ f ∈ p.types.functions.values, f.selfType = none

namespace Program.Followed

variable {p : Program} (h : p.Followed)

include h

theorem fits {e : Expr} (he : e ∈ p.exprs) : e.FitsTable p.types := ⟨h.calls e he, h.fields e he⟩

theorem fits_function {f : Function} {stmts : List Stmt} (hf : p.types.HasFunction f)
    (hbody : f.body = .statements stmts) : ∀ e ∈ stmtExprs stmts, e.FitsTable p.types := by
  refine fun e he => h.fits (List.mem_append_left _ (List.mem_flatMap.2
    ⟨f, TypeTable.mem_allFunctions.2 hf, ?_⟩))
  simpa [Function.exprs, hbody] using he

theorem fits_init {decl : TypeDecl} (hdecl : decl ∈ p.types.contracts) :
    ∀ e ∈ stmtExprs decl.initBody, e.FitsTable p.types := fun _ he =>
  h.fits (List.mem_append_right _ (List.mem_flatMap.2 ⟨decl, hdecl, List.mem_append_left _ he⟩))

theorem fits_handler {decl : TypeDecl} (hdecl : decl ∈ p.types.contracts) {r : Receiver}
    (hr : r ∈ decl.receivers) : ∀ e ∈ stmtExprs r.body, e.FitsTable p.types := fun _ he =>
  h.fits (List.mem_append_right _ (List.mem_flatMap.2
    ⟨decl, hdecl, List.mem_append_right _ (List.mem_flatMap.2 ⟨r, hr, he⟩)⟩))

theorem unmarked_function {f : Function} (hf : p.types.HasFunction f) : '$' ∉ f.name.toList :=
  h.names f (TypeTable.mem_allFunctions.2 hf)

end Program.Followed

end CellCompiler
