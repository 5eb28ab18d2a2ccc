import CellCompiler.Generate.Expr
import CellCompiler.Proofs.Constant.Embedding
import CellCompiler.Proofs.Machine.Comparison

/-!
# Equality of optional values

Two values are compared with `==` or `!=`. Which code that takes depends on what the values are
compared by and on which of them may be null.

* `Comparable` lists the classes of types whose values can be compared, and `Comparable.Holds` their
  values, among them null where the type has it;
* `compareCodes_compares` covers every choice of helper and the comparison in place;
* `equality_nullSafe` is the main result: for local variables there is always code, it decides
  equality without a fault, and next to the null literal it tests for null.
-/

namespace CellCompiler

open Generate Machine

variable {c : Code} {env : Env} {d : Draft} {types : TypeTable} {s : State}

/-! ### Comparable types -/

/-- Classes of types. Values are compared with values of the same class. -/
inductive Comparable where
  | number
  | address
  | cell
  | slice
  | map
  deriving DecidableEq, Repr

namespace Comparable

/-- What values of the class are compared by. -/
def mode : Comparable → Comparison
  | number => .int
  | address => .bits
  | cell | map => .cell
  | slice => .slice

/-- The class of a built-in type. -/
def ofPrimitive? : PrimitiveKind → Option Comparable
  | .int | .bool => some number
  | .address => some address
  | .cell => some cell
  | .slice | .string => some slice
  | .builder | .stringBuilder => none

/-- The types of a class, optional or not. -/
inductive Includes (types : TypeTable) : Comparable → TypeRef → Prop where
  | primitive {cls : Comparable} {name : String} {decl : TypeDecl} {kind : PrimitiveKind}
      (optional : Bool) : types.types.get? name = some decl → decl.primitive? = some kind →
      ofPrimitive? kind = some cls → Includes types cls (.named name optional)
  | map (key : String) (keyAs : Option String) (value : String) (valueAs : Option String) :
      Includes types .map (.map key keyAs value valueAs)

/-- The values of a type of the class: null only if the type is optional or a dictionary. -/
def Holds (cls : Comparable) (ty : TypeRef) (v : Val) : Prop :=
  cls.mode.Takes v ∨ (v = .null ∧ (ty.isOptional = true ∨ ty.isMap = true))

theorem Holds.allows {cls : Comparable} {ty : TypeRef} {v : Val} (h : cls.Holds ty v) :
    cls.mode.Allows v := h.symm.imp_left And.left

theorem Includes.isMap {cls : Comparable} {ty : TypeRef} (h : cls.Includes types ty) :
    ty.isMap = decide (cls = .map) := by
  cases h with
  | map => rfl
  | primitive optional hdecl hkind hcls =>
    rename_i kind
    cases kind <;> cases hcls <;> rfl

/-- The flag by which an operand counts as one that may be absent. -/
theorem Holds.isNull {cls : Comparable} {ty uy : TypeRef} {v : Val} (h : cls.Holds ty v)
    (hty : cls.Includes types ty) (huy : cls.Includes types uy)
    (hflag : (ty.isOptional || uy.isMap) = false) : v.isNull = false := by
  rcases h with h | ⟨rfl, h⟩
  · exact h.isNull
  · rw [Bool.or_eq_false_iff, huy.isMap, ← hty.isMap] at hflag
    simp [hflag.1, hflag.2] at h

theorem Includes.isNull {cls : Comparable} {ty : TypeRef} (h : cls.Includes types ty) :
    ty.isNull = false := by
  cases h <;> rfl

/-- A variable of such a type is one stack entry. -/
theorem Includes.unpack {cls : Comparable} {ty : TypeRef} (h : cls.Includes types ty)
    (name : String) : Layout.unpack types ty name = .ok (.ident name) := by
  cases h with
  | map => rfl
  | primitive optional hdecl hkind hcls =>
    rename_i typeName decl kind
    have hprimitive : decl.kind = .primitive kind := by
      unfold TypeDecl.primitive? at hkind
      split at hkind <;> simp_all
    have hshape : Layout.shape types (.named typeName optional) name =
        .ok (.leaf name (.scalar kind)) := by
      have hdeclOf : Layout.declOf types typeName = .ok decl := Layout.declOf_eq_ok.2 hdecl
      change (do
        let decl ← Layout.declOf types typeName
        Layout.declBy (Layout.shapeWithin types (2 * types.types.size + 1) {}) decl _ _ name) = _
      rw [hdeclOf]
      change Layout.declBy _ decl _ _ name = _
      rw [Layout.declBy, hprimitive]
    rw [Layout.unpack, hshape]
    rfl

theorem Includes.comparisonOf {cls : Comparable} {ty : TypeRef}
    (h : cls.Includes env.program.types ty) (loc : Location) :
    comparisonOf ty loc env d = .ok (cls.mode, ty.isMap) d := by
  cases h with
  | map => rfl
  | primitive optional hdecl hkind hcls =>
    rename_i typeName decl kind
    have hfound : Layout.primitiveOf env.program.types (.named typeName optional) = .ok (some kind) := by
      simp only [Layout.primitiveOf, Except.bind_eq_ok, Except.pure_eq_ok]
      exact ⟨decl, Layout.declOf_eq_ok.2 hdecl, hkind⟩
    have hprimitive : primitiveOf (.named typeName optional) env d = .ok (some kind) d := by
      change Generate.ofExcept (Layout.primitiveOf env.program.types _) env d = _
      rw [hfound]
      rfl
    refine run_bind.2 ⟨_, _, hprimitive, ?_⟩
    cases kind <;> cases hcls <;> rfl

end Comparable

/-! ### Code of a comparison -/

theorem means_negateIf {e : Target.Expr} {t : Bool} (negate : Bool) (h : Means c s e (.bool t)) :
    Means c s (negateIf negate e) (.bool (t != negate)) := by
  cases negate with
  | false => simpa [negateIf] using h
  | true => simpa [negateIf] using h.not

theorem ofName?_equalName : ∀ p ∈ Helper.comparisons,
    Helper.ofName? (Helper.equalName p.1 p.2) = some (.equal p.1 p.2) ∧
      Helper.isDictionary (Helper.equalName p.1 p.2) = false ∧
      Helper.equalName p.1 p.2 ≠ Helper.contextGetSenderName := by
  decide +kernel

/-- The helper of a comparison that takes place in the target: numbers that are there need none. -/
theorem mem_comparisons {mode : Comparison} {absence : Absence}
    (h : absence = .neither → mode ≠ .int) : (mode, absence) ∈ Helper.comparisons := by
  cases mode <;> cases absence <;> first | decide | exact absurd rfl (h rfl)

/-- The code compares what its operands stand for. A flag that is not set promises that the operand
is there. -/
def Compares (c : Code) (mode : Comparison) (negate leftAbsent rightAbsent : Bool)
    (l r code : Target.Expr) : Prop :=
  ∀ s v w, Means c s l v → Means c s r w → mode.Allows v → mode.Allows w →
    (leftAbsent = false → v.isNull = false) → (rightAbsent = false → w.isNull = false) →
    mode.Apart v w → Means c s code (.bool (mode.equal v w != negate))

/-- Two values are compared by a helper, in either order, or in place. -/
theorem compareCodes_compares (hc : c.Plain) {mode : Comparison}
    {negate leftAbsent rightAbsent : Bool} {l r : Target.Expr} :
    Lowers c env (compareCodes mode negate leftAbsent rightAbsent l r)
      (Compares c mode negate leftAbsent rightAbsent l r) := by
  have hhelper : ∀ (absence : Absence) (x y : Target.Expr), (absence = .neither → mode ≠ .int) →
      Lowers c env (do return negateIf negate (← callHelper (Helper.equalName mode absence) [x, y]))
        fun code => ∀ s v w, Means c s x v → Means c s y w → mode.Allows v → mode.Allows w →
          absence.Admits v w → mode.Apart v w →
          Means c s code (.bool (mode.equal v w != negate)) := by
    intro absence x y hmode
    obtain ⟨hname, hdict, hsender⟩ := ofName?_equalName _ (mem_comparisons hmode)
    refine (Lowers.callHelper hname hdict hsender rfl).bind fun code => .pure ?_
    rintro ⟨rfl, hhelps⟩ s v w hx hy hv hw hadmits hapart
    exact means_negateIf negate (means_equal hc hhelps hx hy hv hw hadmits hapart)
  cases leftAbsent <;> cases rightAbsent
  · -- numbers that are there are compared in place
    by_cases hmode : mode = .int
    · subst hmode
      simp only [compareCodes, if_true]
      refine .pure fun s v w hl hr hv hw hv' hw' _ => ?_
      cases hv.takes (hv' rfl) with
      | int m =>
        cases hw.takes (hw' rfl) with
        | int n =>
          refine hl.binary hr ?_
          cases negate <;> simp [Primitive.binary, Primitive.onInts, bne, Comparison.equal]
    · simp only [compareCodes, hmode, if_false]
      exact (hhelper .neither l r fun _ => hmode).mono fun code hcode s v w hl hr hv hw hv' hw' =>
        hcode s v w hl hr hv hw ⟨hv' rfl, hw' rfl⟩
  · -- the helper takes the one that may be absent first, so the operands change places
    refine (hhelper .first r l (by rintro ⟨⟩)).mono fun code hcode s v w hl hr hv hw hv' _ hapart => ?_
    rw [Comparison.equal_comm]
    exact hcode s w v hr hl hw hv (hv' rfl) hapart.symm
  · exact (hhelper .first l r (by rintro ⟨⟩)).mono fun code hcode s v w hl hr hv hw _ hw' =>
      hcode s v w hl hr hv hw (hw' rfl)
  · exact (hhelper .both l r (by rintro ⟨⟩)).mono fun code hcode s v w hl hr hv hw _ _ =>
      hcode s v w hl hr hv hw trivial

/-- A comparison is entered when it is first used. -/
theorem run_callEqual {mode : Comparison} {absence : Absence} (h : absence = .neither → mode ≠ .int)
    (args : List Target.Expr) :
    ∃ d', callHelper (Helper.equalName mode absence) args env d =
      .ok (Target.call (Helper.equalName mode absence) args) d' := by
  obtain ⟨hname, hdict, hsender⟩ := ofName?_equalName _ (mem_comparisons h)
  have hensure : ∃ d', ensureHelper (Helper.equalName mode absence) env d = .ok () d' := by
    cases hknown : d.registry.has (Helper.equalName mode absence) with
    | true =>
      exact ⟨d, run_bind.2 ⟨_, d, rfl, by rw [hknown]; rfl⟩⟩
    | false =>
      obtain ⟨r, hregister⟩ : ∃ r, d.registry.register (Helper.item (Helper.equalName mode absence)
          (.equal mode absence)) .stdlib .empty = .ok r := by
        change ∃ r, (do
          if d.registry.has (Helper.equalName mode absence) then throw _
          return _ : Except CompileError Emission.Registry) = .ok r
        rw [hknown]
        exact ⟨_, rfl⟩
      refine ⟨{ d with registry := r }, run_bind.2 ⟨_, d, rfl, ?_⟩⟩
      simp only [hknown, hdict, hsender, hname, Helper.verifies, Bool.false_eq_true, if_false]
      exact run_bind.2 ⟨d, d, rfl, run_bind.2 ⟨r, d, run_ofExcept.2 ⟨hregister, rfl⟩, rfl⟩⟩
  obtain ⟨d', hd'⟩ := hensure
  exact ⟨_, run_bind.2 ⟨_, _, run_bind.2 ⟨(), d', hd', rfl⟩, rfl⟩⟩

/-- There is code for every comparison. -/
theorem run_compareCodes (mode : Comparison) (negate leftAbsent rightAbsent : Bool)
    (l r : Target.Expr) :
    ∃ code d', compareCodes mode negate leftAbsent rightAbsent l r env d = .ok code d' := by
  have hhelper : ∀ (absence : Absence) (x y : Target.Expr), (absence = .neither → mode ≠ .int) →
      ∃ code d', (do return negateIf negate (← callHelper (Helper.equalName mode absence) [x, y]) :
        Gen Target.Expr) env d = .ok code d' := by
    intro absence x y hmode
    obtain ⟨d', hrun⟩ := @run_callEqual env d _ _ hmode [x, y]
    exact ⟨_, d', run_bind.2 ⟨_, d', hrun, rfl⟩⟩
  cases leftAbsent <;> cases rightAbsent
  · by_cases hmode : mode = .int
    · exact ⟨_, d, by simp only [compareCodes, hmode, if_true]; rfl⟩
    · simp only [compareCodes, hmode, if_false]
      exact hhelper .neither l r fun _ => hmode
  · exact hhelper .first r l nofun
  · exact hhelper .first l r nofun
  · exact hhelper .both l r nofun

/-! ### Local variables -/

/-- The expression reads a local variable: neither the record of a method nor a named constant. -/
inductive Expr.IsLocal (types : TypeTable) (name : String) : Expr → Prop where
  | ident (info : Info) : name ≠ "self" → types.constants.get? name = none →
      IsLocal types name (.ident info name)

/-- The evaluator leaves local variables and comparisons with them to be lowered. -/
def Generate.Env.Evaluates (env : Env) : Prop :=
  env.evaluate = noConstants ∨ env.evaluate = constantValue env.program.types

theorem run_foldedOr {e : Expr} {code : Gen Target.Expr} (h : env.evaluate e = none) :
    foldedOr e code env d = code env d := by
  have hread : ∀ k : Env → Gen Target.Expr, ((read : Gen Env) >>= k) env d = k env env d :=
    fun _ => rfl
  rw [foldedOr, hread, h]

namespace Expr.IsLocal

variable {e : Expr} {name : String}

theorem constantValue (h : e.IsLocal types name) : CellCompiler.constantValue types e = none := by
  cases h with
  | ident info _ hconstant => simp [CellCompiler.constantValue, hconstant]

theorem evaluate (h : e.IsLocal env.program.types name) (henv : env.Evaluates) :
    env.evaluate e = none := by
  rcases henv with henv | henv <;> rw [henv]
  exacts [rfl, h.constantValue]

/-- A comparison with a local variable is not constant. -/
theorem evaluate_binary (h : e.IsLocal env.program.types name) (henv : env.Evaluates) {info : Info}
    {op : BinaryOp} {lhs rhs : Expr} (he : lhs = e ∨ rhs = e) :
    env.evaluate (.binary info op lhs rhs) = none := by
  rcases henv with henv | henv <;> rw [henv]
  · rfl
  · rcases he with rfl | rfl <;> simp [CellCompiler.constantValue, h.constantValue]

theorem isNull {cls : Comparable} {code : Gen Target.Expr} (h : e.IsLocal types name)
    (hcls : cls.Includes types e.ty) : Operand.isNull ⟨e, code⟩ = false := by
  cases h
  exact hcls.isNull

/-- A local variable is read under the name of the variable. -/
theorem run_lower {cls : Comparable} (h : e.IsLocal env.program.types name) (henv : env.Evaluates)
    (hcls : cls.Includes env.program.types e.ty) (sc : Scope) :
    lower sc e env d = .ok (Target.id (Name.var name)) d := by
  have hevaluate := h.evaluate henv
  cases h with
  | ident info hself hconstant =>
    rw [lower, run_foldedOr hevaluate, identifier, if_neg hself]
    refine run_bind.2 ⟨_, d, rfl, ?_⟩
    rw [hconstant]
    change Generate.ofExcept (Layout.unpack env.program.types info.ty _) env d = _
    have hunpack : Layout.unpack env.program.types info.ty (Name.var name) = .ok (.ident _) :=
      Comparable.Includes.unpack hcls _
    rw [hunpack]
    rfl

end Expr.IsLocal

/-! ### Equality -/

/-- The operator that tests for equality, or for the opposite. -/
def equalityOp (negate : Bool) : BinaryOp := if negate then .ne else .eq

theorem run_binaryCode (negate : Bool) {lhs rhs : Operand} {loc : Location} :
    binaryCode (equalityOp negate) lhs rhs loc = equality negate lhs rhs loc := by
  cases negate <;> rfl

/-- The code of a comparison of local variables is that of comparing their names. -/
theorem run_equality {cls : Comparable} {x y : String} {lhs rhs : Expr} (henv : env.Evaluates)
    (hx : lhs.IsLocal env.program.types x) (hy : rhs.IsLocal env.program.types y)
    (hlhs : cls.Includes env.program.types lhs.ty) (hrhs : cls.Includes env.program.types rhs.ty)
    {negate : Bool} {sc : Scope} {info : Expr.Info} {code : Target.Expr} {d' : Draft}
    (h : compareCodes cls.mode negate (lhs.ty.isOptional || lhs.ty.isMap)
      (rhs.ty.isOptional || lhs.ty.isMap) (Target.id (Name.var x)) (Target.id (Name.var y)) env d =
        .ok code d') :
    lower sc (.binary info (equalityOp negate) lhs rhs) env d = .ok code d' := by
  rw [lower, run_foldedOr (hx.evaluate_binary henv (.inl rfl)), run_binaryCode, equality,
    hx.isNull hlhs, hy.isNull hrhs]
  exact run_bind.2 ⟨_, d, hlhs.comparisonOf _, run_bind.2 ⟨_, d, hx.run_lower henv hlhs sc,
    run_bind.2 ⟨_, d, hy.run_lower henv hrhs sc, h⟩⟩⟩

/-- Next to the null literal, on either side, a local variable is tested for null. -/
theorem run_equality_null {cls : Comparable} {x : String} {e : Expr} (henv : env.Evaluates)
    (hx : e.IsLocal env.program.types x) (he : cls.Includes env.program.types e.ty)
    (negate : Bool) (sc : Scope) (info nullInfo : Expr.Info) :
    let code := negateIf negate (Target.isNull (Target.id (Name.var x)))
    lower sc (.binary info (equalityOp negate) e (.null nullInfo)) env d = .ok code d ∧
      lower sc (.binary info (equalityOp negate) (.null nullInfo) e) env d = .ok code d := by
  have hnull : ∀ code, Operand.isNull ⟨.null nullInfo, code⟩ = true := fun _ => rfl
  constructor
  · rw [lower, run_foldedOr (hx.evaluate_binary henv (.inl rfl)), run_binaryCode, equality,
      hx.isNull he, hnull]
    exact run_bind.2 ⟨_, d, hx.run_lower henv he sc, rfl⟩
  · rw [lower, run_foldedOr (hx.evaluate_binary henv (.inr rfl)), run_binaryCode, equality,
      hx.isNull he, hnull]
    exact run_bind.2 ⟨_, d, hx.run_lower henv he sc, rfl⟩

/-- **Equality is null-safe.** For local variables of two types of one class there is always code that
compares them. In every module that has the helpers which the code calls, it evaluates without a fault
and without effects: to minus one if both values are null or both are there and equal, and to zero
otherwise, or the other way round for the opposite. Numbers are equal by value, addresses by their bits,
cells, dictionaries, slices and texts by content, as long as their hashes do not collide. Next to the
null literal, on either side, the code tells whether the other operand is null. -/
theorem equality_nullSafe {env : Env} (henv : env.Evaluates) {cls : Comparable} {x y : String}
    {lhs rhs : Expr} (hx : lhs.IsLocal env.program.types x) (hy : rhs.IsLocal env.program.types y)
    (hlhs : cls.Includes env.program.types lhs.ty) (hrhs : cls.Includes env.program.types rhs.ty)
    (negate : Bool) (sc : Scope) (info nullInfo : Expr.Info) (d : Draft)
    (hd : d.registry.Faithful) :
    (∃ code d', lower sc (.binary info (equalityOp negate) lhs rhs) env d = .ok code d' ∧
      d.registry.Extends d'.registry ∧ d'.registry.Faithful ∧
      ∀ c : Code, c.Plain → Backs c d'.registry → ∀ (s : State) (v w : Val),
        s.get? (Name.var x) = some v → s.get? (Name.var y) = some w →
        cls.Holds lhs.ty v → cls.Holds rhs.ty w → cls.mode.Apart v w →
        Means c s code (.bool (cls.mode.equal v w != negate))) ∧
      ∃ code, lower sc (.binary info (equalityOp negate) lhs (.null nullInfo)) env d = .ok code d ∧
        lower sc (.binary info (equalityOp negate) (.null nullInfo) lhs) env d = .ok code d ∧
        ∀ c : Code, c.Plain → ∀ (s : State) (v : Val), s.get? (Name.var x) = some v →
          Means c s code (.bool (v.isNull != negate)) := by
  constructor
  · obtain ⟨code, d', hrun⟩ := @run_compareCodes env d cls.mode negate
      (lhs.ty.isOptional || lhs.ty.isMap) (rhs.ty.isOptional || lhs.ty.isMap)
      (Target.id (Name.var x)) (Target.id (Name.var y))
    have hkeeps := fun c hc => compareCodes_compares (c := c) hc d code d' hrun hd
    obtain ⟨hextends, hfaithful, -⟩ := hkeeps ⟨.empty, .empty, {}⟩ fun _ _ => rfl
    refine ⟨code, d', run_equality henv hx hy hlhs hrhs hrun, hextends, hfaithful, ?_⟩
    intro c hc hback s v w hv hw hholds hholds' hapart
    exact (hkeeps c hc).2.2 hback s v w (means_id hv) (means_id hw) hholds.allows hholds'.allows
      (hholds.isNull hlhs hlhs) (hholds'.isNull hrhs hlhs) hapart
  · obtain ⟨hright, hleft⟩ := run_equality_null (d := d) henv hx hlhs negate sc info nullInfo
    exact ⟨_, hright, hleft, fun c hc s v hv =>
      means_negateIf negate (means_isNull hc (means_id hv))⟩

/-- An environment with the built-in types only. -/
def numberEnv : Env where
  program := { types := .primitives, plans := {} }
  evaluate := constantValue .primitives

/-- A module with nothing but the comparison of a number that may be absent with one that is there. -/
def comparingCode : Code where
  functions :=
    let name := Helper.equalName .int .first
    .ofList [(name, Helper.item name (.equal .int .first))]

/-- An absent number differs from seven, although it is the second operand. -/
theorem absent_differs :
    let lhs : Expr := .ident ⟨.plain "Int", {}⟩ "a"
    let rhs : Expr := .ident ⟨.named "Int" true, {}⟩ "b"
    let s : State := { frame := .ofList [(Name.var "a", .int 7), (Name.var "b", .null)] }
    ∃ code d', lower (.function .void) (.binary ⟨.plain "Bool", {}⟩ .ne lhs rhs) numberEnv {} =
        .ok code d' ∧ d'.registry.Faithful ∧ comparingCode.Plain ∧ Backs comparingCode d'.registry ∧
      Means comparingCode s code (.int (-1)) := by
  intro lhs rhs s
  have hlocal : ∀ (ty : TypeRef) (name : String), name ≠ "self" →
      (Expr.ident ⟨ty, {}⟩ name).IsLocal numberEnv.program.types name :=
    fun _ _ hname => .ident _ hname rfl
  have hnumber : ∀ optional,
      Comparable.number.Includes numberEnv.program.types (.named "Int" optional) :=
    fun optional => Comparable.Includes.primitive optional rfl rfl rfl
  obtain ⟨⟨code, d', hrun, -, hfaithful, hmeans⟩, -⟩ := equality_nullSafe (.inr rfl)
    (hlocal (.plain "Int") "a" (by decide)) (hlocal (.named "Int" true) "b" (by decide))
    (hnumber false) (hnumber true) true (.function .void) ⟨.plain "Bool", {}⟩ ⟨.null, {}⟩ {}
    Emission.Registry.faithful_empty
  have hplain : comparingCode.Plain := by
    unfold Code.Plain
    decide
  have hback : Backs comparingCode d'.registry := by
    have hcomputed : lower (.function .void) (.binary ⟨.plain "Bool", {}⟩ .ne lhs rhs) numberEnv {} =
        .ok _ { registry := { functions := .ofList [(Helper.equalName .int .first,
          ⟨_, some _, .generic, .stdlib, .empty⟩)] }, deps := _ } := rfl
    obtain ⟨rfl, rfl⟩ := EStateM.Result.ok.inj (hrun.symm.trans hcomputed)
    intro name entry item hget hdef
    simp only [Dict.ofList, List.foldl, Dict.get?_insert] at hget
    split at hget
    · next hname =>
      obtain rfl := Option.some.inj hget
      obtain rfl := Option.some.inj hdef
      rw [hname]
      rfl
    · simp at hget
  exact ⟨code, d', hrun, hfaithful, hplain, hback, hmeans comparingCode hplain hback s (.int 7) .null rfl
    rfl (.inl (.int 7)) (.inr ⟨rfl, .inl rfl⟩) trivial⟩

end CellCompiler
