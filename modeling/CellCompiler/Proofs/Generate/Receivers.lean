import CellCompiler.Generate.Expr
import CellCompiler.Proofs.Generate.Results
import CellCompiler.Proofs.Generate.Writes
import CellCompiler.Proofs.Layout.Existence

/-!
# Calls that change what they are applied to

A method that changes `self`, and a method that changes a map, is applied to the variables of its
receiver, so that they hold the changed value afterwards. Any path will do for a receiver, also one
that starts at a named constant, whose value is in no variable.

* `Target.Expr.idents` lists the identifiers in an expression;
* `Generate.Changes` says that a call changes its receiver;
* `Generate.lower_changes` is the main result: the code of such a call names the variables of the
  path, be it that of a constant or not, unless the whole call is a constant expression.
-/

namespace CellCompiler

namespace Target

mutual

/-- The identifiers in an expression, whether they are read or assigned to. -/
def Expr.idents : Expr → List String
  | .int _ | .bool _ | .hole => []
  | .ident name => [name]
  | .call _ args => identsOf args
  | .methodCall receiver _ args _ => receiver.idents ++ identsOf args
  | .assign lhs rhs | .augmentedAssign lhs _ rhs | .binary _ lhs rhs => lhs.idents ++ rhs.idents
  | .ternary cond onTrue onFalse => cond.idents ++ onTrue.idents ++ onFalse.idents
  | .unary _ operand => operand.idents
  | .tensor items | .tuple items => identsOf items

/-- The identifiers in several expressions. -/
def identsOf : List Expr → List String
  | [] => []
  | e :: es => e.idents ++ identsOf es

end

theorem identsOf_eq_nil {es : List Expr} : identsOf es = [] ↔ ∀ e ∈ es, e.idents = [] := by
  induction es with
  | nil => simp [identsOf]
  | cons e es ih => simp [identsOf, ih]

end Target

/-! ### Variables of paths -/

namespace Layout

namespace Shape

mutual

theorem idents_pattern : (sh : Shape) → sh.pattern.idents = sh.names
  | leaf _ _ => rfl
  | product shs => by
    rw [pattern, Target.Expr.idents, identsOf_patterns shs, names_product]

theorem identsOf_patterns : (shs : List Shape) → Target.identsOf (patterns shs) = namesOf shs
  | [] => rfl
  | sh :: shs => by
    rw [patterns, Target.identsOf, idents_pattern sh, identsOf_patterns shs, namesOf_cons]

end

end Shape

end Layout

/-! ### Changing calls -/

namespace Generate

/-- The method changes what it is applied to: a map, or a value of a type that declares it so. -/
inductive Changes (table : TypeTable) (receiver : Expr) (name : String) : Prop
  | map : receiver.ty.isMap = true → name ∈ ["set", "replace", "del"] → Changes table receiver name
  | declared {typeName : String} {decl : TypeDecl} {f : Function} :
      receiver.ty.name? = some typeName → table.types.get? typeName = some decl →
      (decl.isStructLike = true → name ∉ ["toCell", "toSlice"]) →
      decl.functions.get? name = some f → f.mutates = true → Changes table receiver name

/-- The code changes the variables of a path, of which there is at least one. -/
def ChangesPath (root : String) (fields : List String) (code : Target.Expr) : Prop :=
  ∃ target callee codes, code = Target.modify target callee codes ∧ target.idents ≠ [] ∧
    ∀ x ∈ target.idents, Name.Under (Name.path (root :: fields)) x

variable {env : Env} {root : String} {fields : List String} {receiver : Operand} {os : List Operand}
  {name : String} {loc : Location}

theorem lvalue_idents {path : Expr} (hpath : path.path = some (root :: fields)) :
    Yields env (lvalue path) fun target => target.idents ≠ [] ∧
      ∀ x ∈ target.idents, Name.Under (Name.path (root :: fields)) x := by
  unfold lvalue
  rw [hpath]
  refine (Yields.ofTable (f := fun t => Layout.unpack t path.ty (Name.path (root :: fields)))).mono
    fun target htarget => ?_
  obtain ⟨sh, hsh, rfl⟩ := Except.map_eq_ok.1 htarget
  rw [Layout.Shape.idents_pattern]
  refine ⟨fun hnil => ?_, Layout.shapeWithin_under hsh⟩
  have hpos := Layout.Shape.length_leaves_pos sh (Layout.shapeWithin_proper hsh)
  have hlength : sh.names.length = sh.leaves.length := List.length_map _
  rw [hnil] at hlength
  simp only [List.length_nil] at hlength
  omega

theorem isPath_of_path {e : Expr} {segments : List String} (h : e.path = some segments) :
    e.isPath = true := by
  rw [← Expr.isSome_path, h, Option.isSome_some]

section Path

variable (hpath : receiver.source.path = some (root :: fields))

include hpath

theorem mapVariable_bind {k : Target.Expr → Gen Target.Expr} {post : Target.Expr → Prop}
    (hk : ∀ target, target.idents ≠ [] ∧
      (∀ x ∈ target.idents, Name.Under (Name.path (root :: fields)) x) → Yields env (k target) post) :
    Yields env (mapVariable receiver name >>= k) post := by
  unfold mapVariable
  rw [isPath_of_path hpath]
  exact (lvalue_idents hpath).bind hk

theorem mapSet_changes {kind : MapKind} {key value : Operand} :
    Yields env (mapSet kind receiver name key value) (ChangesPath root fields) :=
  mapVariable_bind hpath fun _ htarget => .andThen fun _ => .andThen fun _ => .andThen fun _ =>
    .pure ⟨_, _, _, rfl, htarget⟩

theorem mapDelete_changes {kind : MapKind} {key : Operand} :
    Yields env (mapDelete kind receiver name key) (ChangesPath root fields) :=
  mapVariable_bind hpath fun _ htarget => .andThen fun _ => .andThen fun _ =>
    .pure ⟨_, _, _, rfl, htarget⟩

theorem mapCall_changes (hname : name ∈ ["set", "replace", "del"]) :
    Yields env (mapCall receiver name os loc) (ChangesPath root fields) := by
  have hfail {x : Defect} {y : Misuse} {b : Bool} : Yields env
      (if b then defectAt x loc else misuseAt y loc) (ChangesPath root fields) := by
    cases b
    · exact .misuseAt
    · exact .defectAt
  refine .table_bind (.andThen fun kind => ?_)
  simp only [List.mem_cons, List.not_mem_nil, or_false] at hname
  rcases hname with rfl | rfl | rfl
  · match os with
    | [_, _] => exact mapSet_changes hpath
    | [] | [_] | _ :: _ :: _ :: _ => exact hfail
  · match os with
    | [_, _] => exact mapSet_changes hpath
    | [] | [_] | _ :: _ :: _ :: _ => exact hfail
  · match os with
    | [_] => exact mapDelete_changes hpath
    | [] | _ :: _ :: _ => exact hfail

theorem extensionCall_changes {decl : TypeDecl} {f : Function} (hmutates : f.mutates = true) :
    Yields env (extensionCall decl f receiver os loc) (ChangesPath root fields) := by
  refine .andThen fun callee => ?_
  rw [hmutates, isPath_of_path hpath]
  refine (lvalue_idents hpath).bind fun target htarget => ?_
  exact .andThen fun _ => .andThen fun _ => .andThen fun _ => .pure ⟨_, _, _, rfl, htarget⟩

theorem methodCall_changes {info : Expr.Info} (h : Changes env.program.types receiver.source name) :
    Yields env (methodCall info receiver name os) (ChangesPath root fields) := by
  unfold methodCall
  cases h with
  | map hmap hname =>
    rw [if_pos (show receiver.ty.isMap = true from hmap)]
    exact mapCall_changes hpath hname
  | @declared typeName decl f hname hdecl hinstance hf hmutates =>
    have htype : receiver.ty.name? = some typeName := hname
    split
    · next hmap =>
      generalize receiver.ty = ty at htype hmap
      cases ty <;> simp_all [TypeRef.name?, TypeRef.isMap]
    split
    · exact .misuseAt
    rw [htype]
    refine declOf_yields.bind fun decl' hdecl' => ?_
    obtain rfl : decl = decl' := by simpa [hdecl] using hdecl'
    have hcall : Yields env (declaredCall info typeName decl receiver name os) (ChangesPath root fields) := by
      unfold declaredCall
      rw [hf]
      exact extensionCall_changes hpath hmutates
    split
    · next hs =>
      have hnone : instanceCall decl receiver name os = pure none := by
        unfold instanceCall
        have hother := hinstance hs
        split <;> simp_all
      rw [hnone, pure_bind]
      exact hcall
    · exact hcall

end Path

/-- A literal has no identifiers. -/
theorem literalWithin_idents (fuel : Nat) (value : Value) (ty : TypeRef) :
    Yields env (literalWithin fuel value ty) fun code => code.idents = [] := by
  have hcall {name : String} {g : Gen Target.Expr} (h : Yields env g fun e => e = Target.call name []) :
      Yields env g fun code => code.idents = [] := h.mono fun _ he => he ▸ rfl
  fun_induction literalWithin fuel value ty with
  | case1 | case2 | case3 => exact .pure rfl
  | case4 | case5 => exact .andThen fun _ => .andThen fun _ => hcall .callUsed
  | case6 | case7 => exact .andThen fun _ => hcall .callUsed
  | case8 => exact .throw
  | case9 fuel typeName fields ty ih =>
    refine .andThen fun decl => ?_
    split
    · exact .pure rfl
    refine (Yields.mapM_all (Q := fun code => code.idents = []) fun field _ => ?_).bind fun items hitems => ?_
    · split
      · exact ih _ _
      · exact .defect
    have hnil := Target.identsOf_eq_nil.2 hitems.2
    split
    · refine Yields.callUsed.mono fun _ he => he ▸ ?_
      simpa [Target.call, Target.Expr.idents, Target.identsOf] using hnil
    · exact .pure hnil

/-- **Changing calls name the variables of their receiver.** If the call is no constant expression as a
whole, its code changes the variables of the path that it is applied to. This does not depend on where
the path starts: a named constant has no variables, and code that names them reads what nothing has
bound. -/
theorem lower_changes {s : Scope} {info : Expr.Info} {receiver : Expr} {args : List Expr}
    (hpath : receiver.path = some (root :: fields)) (h : Changes env.program.types receiver name)
    {d d' : Draft} {code : Target.Expr}
    (hrun : lower s (.methodCall info receiver name args) env d = .ok code d') :
    ((∃ x ∈ code.idents, Name.Under (Name.var root) x) ↔
      env.evaluate (.methodCall info receiver name args) = none) ∧
    (env.evaluate (.methodCall info receiver name args) = none → ChangesPath root fields code) := by
  simp only [lower, foldedOr, run_bind, run_read] at hrun
  obtain ⟨env', _, ⟨rfl, rfl⟩, hrun⟩ := hrun
  cases hevaluate : env.evaluate (.methodCall info receiver name args) with
  | some value =>
    rw [hevaluate] at hrun
    have hnil : code.idents = [] :=
      Yields.andThen (fun _ => literalWithin_idents _ _ _) d code d' hrun
    simp [hnil]
  | none =>
    rw [hevaluate] at hrun
    have hchanges : ChangesPath root fields code :=
      @methodCall_changes _ _ _ ⟨receiver, lower s receiver⟩ _ _ hpath info h d code d' hrun
    obtain ⟨target, callee, codes, rfl, hne, hunder⟩ := id hchanges
    obtain ⟨x, hx⟩ := List.exists_mem_of_ne_nil _ hne
    refine ⟨iff_of_true ⟨x, ?_, Name.under_path (hunder x hx)⟩ rfl, fun _ => hchanges⟩
    exact List.mem_append_left _ hx

/-- A constant number, of a type with a method that changes numbers, and a constant map. -/
def fixedEnv : Env where
  program := {
    types :=
      let int := TypeRef.plain "Int"
      let bump : Function :=
        { name := "bump", selfType := some int, returns := .void, mutates := true, body := .native "bump_int" }
      let decl := { TypeDecl.ofPrimitive .int with functions := .ofList [("bump", bump)] }
      ((TypeTable.primitives.addType decl).addConstant "LIMIT" int (.int 5)).addConstant "RATES"
        (.map "Int" none "Int" none) .null }
  evaluate := noConstants

/-- A constant of a type. -/
def fixed (name : String) (ty : TypeRef) : Expr := .ident ⟨ty, {}⟩ name

theorem rates_changed :
    let rates := fixed "RATES" (.map "Int" none "Int" none)
    let args := [Expr.number ⟨.plain "Int", {}⟩ 1, .number ⟨.plain "Int", {}⟩ 2]
    rates.path = some ["RATES"] ∧ Changes fixedEnv.program.types rates "set" ∧
      ∃ code d', lower (.function .void) (.methodCall ⟨.void, {}⟩ rates "set" args) fixedEnv {} = .ok code d' ∧
        ∃ x ∈ code.idents, Name.Under (Name.var "RATES") x := by
  intro rates args
  have hchanges : Changes fixedEnv.program.types rates "set" := .map rfl (by decide)
  have hok : ∃ code d', lower (.function .void) (.methodCall ⟨.void, {}⟩ rates "set" args) fixedEnv {} =
      .ok code d' := ⟨_, _, rfl⟩
  obtain ⟨code, d', hrun⟩ := hok
  exact ⟨rfl, hchanges, code, d', hrun, (lower_changes rfl hchanges hrun).1.2 rfl⟩

/-- **A constant is changed.** The constant is read as its value, but the code that changes it names a
variable, which nothing binds. -/
theorem limit_changed :
    let limit := fixed "LIMIT" (.plain "Int")
    fixedEnv.program.types.constants.contains "LIMIT" = true ∧
      (∃ d, lower (.function .void) limit fixedEnv {} = .ok (Target.int 5) d) ∧
      ∃ code d, lower (.function .void) (.methodCall ⟨.void, {}⟩ limit "bump" []) fixedEnv {} = .ok code d ∧
        Name.var "LIMIT" ∈ code.idents :=
  ⟨by decide, ⟨_, rfl⟩, _, _, rfl, by decide⟩

end Generate

end CellCompiler
