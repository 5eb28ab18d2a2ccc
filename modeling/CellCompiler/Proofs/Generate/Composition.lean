import CellCompiler.Generate.Expr
import CellCompiler.Proofs.Generate.Counting
import CellCompiler.Proofs.Source.Table

/-!
# Properties that lowered code inherits

Code is put together from patterns of variables, literals, calls and operators. What holds of the
patterns and is inherited by whatever they are put into holds of the code.

* `Target.Inherits O P`: expressions whose operands have the property `O` have the property `P`, unless
  they are variables or assign to some. The lemmas about generators are for two properties, since some
  give the code of an operand as it is; `Target.Hereditary P` is the case of one;
* `Env.Grants s P e`: the variables that the code of `e` itself is about have the property;
* `lower_has` is the result, by induction on the source. It also says that no variables are given up.
-/

namespace CellCompiler

open Target

/-- Expressions whose operands have the property `O` have the property `P`. -/
structure Target.Inherits (O P : Target.Expr → Prop) : Prop where
  operand : ∀ e, P e → O e
  int : ∀ v, P (.int v)
  bool : ∀ b, P (.bool b)
  call : ∀ name args, (∀ e ∈ args, O e) → P (.call name args)
  method : ∀ receiver name args, O receiver → (∀ e ∈ args, O e) →
    P (.methodCall receiver name args false)
  ternary : ∀ cond onTrue onFalse, O cond → O onTrue → O onFalse → P (.ternary cond onTrue onFalse)
  binary : ∀ op lhs rhs, O lhs → O rhs → P (.binary op lhs rhs)
  unary : ∀ op operand, O operand → P (.unary op operand)
  tensor : ∀ items, (∀ e ∈ items, O e) → P (.tensor items)

/-- Expressions inherit the property from their operands. -/
abbrev Target.Hereditary (P : Target.Expr → Prop) : Prop := Inherits P P

namespace Target.Inherits

variable {O P : Target.Expr → Prop} (hP : Inherits O P) {e : Target.Expr}

include hP

theorem called {name : String} {args : List Target.Expr} (h : ∀ e ∈ args, O e) :
    P (Target.call name args) := hP.call name args h

theorem null : P Target.null := hP.call _ _ (by simp)

theorem isNull (he : O e) : P (Target.isNull e) := hP.call _ _ (by simpa using he)

theorem not (he : O e) : P (Target.not e) := hP.unary _ _ he

theorem emptyTuple : P Target.emptyTuple := hP.call _ _ (by simp)

theorem beginCell : P Target.beginCell := hP.call _ _ (by simp)

theorem endCell (he : O e) : P (Target.endCell e) := hP.method _ _ _ he (by simp)

theorem beginParse (he : O e) : P (Target.beginParse e) := hP.method _ _ _ he (by simp)

theorem intOperand {v : Int} : O (Target.int v) := hP.operand _ (hP.int v)

end Target.Inherits

namespace Generate

variable {env : Env} {n : Nat} {granted : Prop} {O P : Target.Expr → Prop} {name type : String} {ty : TypeRef}
  {os : List Operand} {info : Expr.Info} {loc : Location}

/-- The pattern of a variable has the property. -/
def Env.Patterned (env : Env) (P : Target.Expr → Prop) (ty : TypeRef) (name : String) : Prop :=
  ∀ pattern, Layout.unpack env.program.types ty name = .ok pattern → P pattern

/-- Calls that change the variable have the property if their arguments have the property `O`. -/
def Env.Updates (env : Env) (O P : Target.Expr → Prop) (receiver : Expr) : Prop :=
  ∀ segments, receiver.path = some segments →
    env.Patterned (fun pattern => ∀ callee args, (∀ e ∈ args, O e) → P (modify pattern callee args))
      receiver.ty (Name.path segments)

/-- The variables that the code of an expression itself is about have the property. -/
structure Env.Grants (env : Env) (granted : Prop) (s : Scope) (P : Target.Expr → Prop) (e : Expr) : Prop where
  self : ∀ info name, e = .ident info name → name = "self" →
    ∀ ty ∈ s.selfType, env.Patterned P ty Name.self
  ident : ∀ info name, e = .ident info name → name ≠ "self" →
    env.program.types.constants.contains name = false → env.Patterned P info.ty (Name.var name)
  field : ∀ info target name root fields, e = .field info target name → e.path = some (root :: fields) →
    env.program.types.constants.contains root = false →
    env.Patterned P info.ty (Name.path (root :: fields))
  receiver : ∀ info receiver name args, e = .methodCall info receiver name args →
    env.program.types.mutates receiver.ty name = true → env.Updates P P receiver
  deployment : ∀ info contract args, e = .initOf info contract args → granted → P (id Helper.contextSys)

/-- A generator of code with the property, which makes up no fewer than `n` variables. The code may refer
to the cell of known codes where this is granted. -/
abbrev Has (env : Env) (n : Nat) (granted : Prop) (P : Target.Expr → Prop) (g : Gen Target.Expr) : Prop :=
  Leads env n granted g P

/-- The code of an operand has the property. -/
def Operand.Has (env : Env) (n : Nat) (granted : Prop) (P : Target.Expr → Prop) (o : Operand) : Prop :=
  Generate.Has env n granted P o.code

/-! ### Layout -/

theorem unpack_has (h : env.Patterned P ty name) : Has env n granted P (unpack ty name) :=
  (Leads.ofTable (f := fun t => Layout.unpack t ty name)).mono h

theorem steady_structOf : Steady env (structOf ty) := Steady.ofTable (f := fun t => Layout.structOf t ty)

theorem declOf_yieldsFrom : YieldsFrom env n (declOf name) fun decl =>
    env.program.types.types.get? name = some decl :=
  (Leads.ofTable (f := fun t => Layout.declOf t name)).mono fun decl h => by
    unfold Layout.declOf at h
    split at h
    · next hget => exact hget.trans (congrArg some (Except.ok.inj h))
    · cases h

theorem steady_primitiveOf : Steady env (primitiveOf ty) :=
  Steady.ofTable (f := fun t => Layout.primitiveOf t ty)

theorem selfBinding_has {s : Scope} (h : ∀ ty ∈ s.selfType, env.Patterned P ty Name.self) :
    Has env n granted P s.selfBinding := by
  unfold Scope.selfBinding
  split
  · next ty hty => exact unpack_has (h ty hty)
  · exact .defect

theorem lvalue_has {path : Expr} (h : ∀ segments, path.path = some segments →
    env.Patterned P path.ty (Name.path segments)) : Has env n granted P (lvalue path) := by
  unfold lvalue
  split
  · next segments hsegments => exact unpack_has (h segments hsegments)
  · exact .defectAt

theorem localPath_yields {e : Expr} : YieldsFrom env n (localPath e) fun segments? =>
    ∀ segments ∈ segments?, ∃ root fields, segments = root :: fields ∧ e.path = some segments ∧
      env.program.types.constants.contains root = false := by
  unfold localPath
  split
  · next root fields hpath =>
    refine .table_bind ?_
    split
    · exact .pure (by simp)
    · next hroot => exact .pure (by simpa using ⟨hpath, by simpa using hroot⟩)
  · exact .pure (by simp)

theorem steady_constantString {o : Operand} : Steady env o.constantString := by
  unfold Operand.constantString
  split
  · exact .pure
  · exact Steady.read.bind fun _ => .pure

theorem steady_dictionary : Steady env (dictionary name) :=
  Steady.used.bind fun _ => Steady.skip.bind fun _ => .pure

theorem withValueBits_has (hP : Inherits O P) {kind : MapKind} {args : List Target.Expr}
    (h : ∀ e ∈ args, O e) : ∀ e ∈ kind.withValueBits args, O e := by
  unfold MapKind.withValueBits
  split
  · exact List.forall_mem_append.2 ⟨h, List.forall_mem_singleton.2 hP.intOperand⟩
  · exact h

section

variable (hP : Inherits O P)

include hP

theorem callUsed_has {args : List Target.Expr} :
    Has env n granted (fun e => (∀ a ∈ args, O a) → P e) (callUsed name args) :=
  Leads.callUsed.mono fun _ he hargs => he ▸ hP.called hargs

theorem callHelper_has {args : List Target.Expr} :
    Has env n granted (fun e => (∀ a ∈ args, O a) → P e) (callHelper name args) :=
  Leads.callHelper.mono fun _ he hargs => he ▸ hP.called hargs

/-! ### Literals -/

theorem sliceConstant_has {kind : String} {cell : Cell} : Has env n granted P (sliceConstant kind cell) :=
  .andThen .embed fun _ => (callUsed_has hP).mono fun _ h => h (by simp)

theorem cellConstant_has {cell : Cell} : Has env n granted P (cellConstant cell) :=
  .andThen .embed fun _ => (callUsed_has hP).mono fun _ h => h (by simp)

theorem literalWithin_has (fuel : Nat) (value : Value) (ty : TypeRef) :
    Has env n granted P (literalWithin fuel value ty) := by
  have hcell : ∀ {α : Type} (x : Except Cell.Error α), Steady env (ofCell x) := by
    intro α x
    unfold ofCell
    split
    · exact .pure
    · exact .throw
  fun_induction literalWithin fuel value ty with
  | case1 v => exact .pure (hP.int _)
  | case2 b => exact .pure (hP.bool _)
  | case3 => exact .pure hP.null
  | case4 | case5 => exact .andThen (hcell _) fun _ => sliceConstant_has hP
  | case6 => exact sliceConstant_has hP
  | case7 => exact cellConstant_has hP
  | case8 => exact .throw
  | case9 fuel typeName fields ty ih =>
    refine .after declOf_yieldsFrom fun decl hdecl => ?_
    split
    · exact .pure hP.emptyTuple
    · refine (Leads.mapM_all (Q := P) fun field _ => ?_).bind fun items => ?_
      · split
        · exact ih _ _
        · exact .defect
      have htensor : (∀ e ∈ items, P e) → P (.tensor items) := fun hitems =>
        hP.tensor items fun e he => hP.operand e (hitems e he)
      split
      · exact (callUsed_has hP).mono fun e he hitems => he (by simpa using hP.operand _ (htensor hitems))
      · exact .pure htensor

theorem literal_has {value : Value} : Has env n granted P (literal value ty) :=
  .andThen .table fun _ => literalWithin_has hP _ _ _

/-! ### Operands -/

theorem castTo_has {target source : TypeRef} {code : Target.Expr} :
    Has env n granted (fun e => O code → O e) (castTo target source code) := by
  unfold castTo
  split
  · exact .pure fun hcode => hcode
  · refine .andThen steady_structOf fun decl? => ?_
    split
    · exact (callUsed_has hP).mono fun e he hcode => hP.operand e (he (by simpa using hcode))
    · exact .pure fun hcode => hcode

theorem cast_has {o : Operand} {target : TypeRef} (ho : o.Has env n granted O) : Has env n granted O (o.cast target) := by
  unfold Operand.cast
  split
  · exact .pure (hP.operand _ hP.null)
  · exact Leads.bind ho fun code => castTo_has hP

theorem arguments_have {tys : List TypeRef} (hos : ∀ o ∈ os, o.Has env n granted O) :
    Leads env n granted (arguments os tys) fun es => ∀ e ∈ es, O e := by
  induction os generalizing tys with
  | nil => exact .pure (by simp)
  | cons o os ih =>
    obtain ⟨ho, hos⟩ := List.forall_mem_cons.1 hos
    have hrest : ∀ first tys, Leads env n granted (do
        return first :: (← arguments os tys)) fun es => O first → ∀ e ∈ es, O e :=
      fun first tys => (ih hos).bind fun rest =>
        .pure fun hrest hfirst => List.forall_mem_cons.2 ⟨hfirst, hrest⟩
    cases tys with
    | nil => exact Leads.bind ho fun first => hrest first _
    | cons ty tys => exact (cast_has hP ho).bind fun first => hrest first _

/-! ### Calls that the compiler knows itself -/

theorem requireCall_has {cond message : Operand} (hcond : cond.Has env n granted O) :
    Has env n granted P (requireCall cond message) := by
  refine .andThen steady_constantString fun text? => ?_
  split
  · exact .misuseAt
  · exact Leads.bind hcond fun c => .pure fun hc => hP.called (by simpa using ⟨hP.intOperand, hc⟩)

theorem hashCall_has {o : Operand} (ho : o.Has env n granted O) : Has env n granted P (hashCall o) := by
  refine .andThen steady_constantString fun text? => ?_
  split
  · exact .pure (hP.int _)
  · refine .andThen steady_primitiveOf fun kind? => ?_
    split
    · exact Leads.bind ho fun c => .pure fun hc => hP.called (by simpa using hc)
    · exact Leads.bind ho fun c => .pure fun hc => hP.called (by simpa using hc)
    · exact .misuseAt

theorem addressCall_has {o : Operand} : Has env n granted P (addressCall o ty) := by
  refine .andThen steady_constantString fun text? => ?_
  split
  · exact .misuseAt
  · split
    · exact literal_has hP
    · exact .misuseAt

theorem call1_has {callee : String} (hos : ∀ o ∈ os, o.Has env n granted O) :
    Has env n granted P (call1 name callee os loc) := by
  unfold call1
  split
  · next a => exact Leads.bind (hos a (by simp)) fun c => .pure fun hc => hP.called (by simpa using hc)
  · exact .defectAt

theorem call2_has {callee : String} (hos : ∀ o ∈ os, o.Has env n granted O) :
    Has env n granted P (call2 name callee os loc) := by
  unfold call2
  split
  · next a b =>
    exact Leads.bind (hos a (by simp)) fun c => Leads.bind (hos b (by simp)) fun e =>
      .pure fun he hc => hP.called (by simpa using ⟨hc, he⟩)
  · exact .defectAt

omit hP in
theorem Leads.known {g : Gen Target.Expr} (hg : Has env n granted P g) :
    Leads env n granted (some <$> g) fun code? => ∀ code ∈ code?, P code :=
  hg.map fun e he => by simpa using he

theorem globalCall_has (hos : ∀ o ∈ os, o.Has env n granted O) :
    Leads env n granted (globalCall info name os) fun code? => ∀ code ∈ code?, P code := by
  have hnow : ∀ name, P (Target.call name []) := fun _ => hP.called (by simp)
  have hempty : P (endCell beginCell) := hP.endCell (hP.operand _ hP.beginCell)
  have hslice : P (beginParse (endCell beginCell)) := hP.beginParse (hP.operand _ hempty)
  unfold globalCall
  split
  · split
    · next cond message => exact (requireCall_has hP (hos cond (by simp))).known
    · exact .defectAt
  · exact (call1_has hP hos).known
  · exact (call2_has hP hos).known
  · exact (call2_has hP hos).known
  · exact .pure (by simpa using hP.null)
  · exact .pure (by simpa using hempty)
  · exact .pure (by simpa using hslice)
  · exact .pure (by simpa using hP.beginCell)
  · exact ((callHelper_has hP).mono fun _ he => he (by simp)).known
  · exact .pure (by simpa using hnow _)
  · exact .pure (by simpa using hnow _)
  · exact (call2_has hP hos).known
  · exact (call2_has hP hos).known
  · exact (call1_has hP hos).known
  · split
    · next arg => exact (hashCall_has hP (hos arg (by simp))).known
    · exact .defectAt
  · split
    · exact (addressCall_has hP).known
    · exact .defectAt
  · exact .pure (by simp)

theorem toCell_has {decl : TypeDecl} {receiver : Operand} (hreceiver : receiver.Has env n granted O) :
    Has env n granted P (toCell decl receiver name os) := by
  unfold toCell
  split
  · exact Leads.bind hreceiver fun value => (callUsed_has hP).mono fun e he hvalue => he (by simpa using hvalue)
  · exact .throw_bind

theorem instanceCall_has {decl : TypeDecl} {receiver : Operand} (hreceiver : receiver.Has env n granted O) :
    Leads env n granted (instanceCall decl receiver name os) fun code? => ∀ code ∈ code?, P code := by
  unfold instanceCall
  split
  · exact (toCell_has hP hreceiver).known
  · exact (toCell_has hP hreceiver).bind fun cell => .pure fun hcell => by
      simpa using hP.beginParse (hP.operand _ hcell)
  · exact .pure (by simp)

theorem typeCall_has {decl : TypeDecl} (hos : ∀ o ∈ os, o.Has env n granted O) :
    Leads env n granted (typeCall decl name os loc) fun code? => ∀ code ∈ code?, P code := by
  unfold typeCall
  split
  · next cell =>
    exact Leads.bind (hos cell (by simp)) fun code => (callUsed_has hP).map fun e he hcode => by
      simpa using he (by simpa using hP.operand _ (hP.beginParse hcode))
  · next slice =>
    exact Leads.bind (hos slice (by simp)) fun code => (callUsed_has hP).map fun e he hcode => by
      simpa using he (by simpa using hcode)
  · exact .defectAt
  · exact .defectAt
  · exact .pure (by simp)

/-! ### Maps -/

omit hP in
theorem mapVariable_has {receiver : Operand} (h : ∀ segments, receiver.source.path = some segments →
    env.Patterned P receiver.ty (Name.path segments)) : Has env n granted P (mapVariable receiver name) := by
  unfold mapVariable
  split
  · exact lvalue_has h
  · exact .throw_bind

theorem mapValue_has {kind : MapKind} {value : Operand} (hvalue : value.Has env n granted O) :
    Has env n granted O (mapValue kind value) := by
  refine Leads.bind hvalue fun code => ?_
  split
  · split
    · exact .pure fun hcode => hcode
    · split <;> exact (callUsed_has hP).mono fun e he hcode => hP.operand e (he (by simpa using hcode))
  · exact .pure fun hcode => hcode

theorem mapGet_has {kind : MapKind} {receiver key : Operand} (hreceiver : receiver.Has env n granted O)
    (hkey : key.Has env n granted O) : Has env n granted P (mapGet kind receiver key) := by
  refine Leads.bind hreceiver fun m => Leads.bind hkey fun k => ?_
  refine .andThen steady_dictionary fun _ => .pure fun hk hm => hP.called (withValueBits_has hP ?_)
  simpa using ⟨hm, hP.intOperand, hk⟩

theorem mapSet_has {kind : MapKind} {receiver key value : Operand}
    (hreceiver : env.Updates O P receiver.source) (hkey : key.Has env n granted O) (hvalue : value.Has env n granted O) :
    Has env n granted P (mapSet kind receiver name key value) := by
  refine (mapVariable_has hreceiver).bind fun m => Leads.bind hkey fun k => ?_
  refine (mapValue_has hP hvalue).bind fun v => .andThen steady_dictionary fun _ => .pure fun hv hk hm =>
    hm _ _ ?_
  exact withValueBits_has hP (by simpa using ⟨hP.intOperand, hk, hv⟩)

theorem mapDelete_has {kind : MapKind} {receiver key : Operand}
    (hreceiver : env.Updates O P receiver.source) (hkey : key.Has env n granted O) :
    Has env n granted P (mapDelete kind receiver name key) := by
  refine (mapVariable_has hreceiver).bind fun m => Leads.bind hkey fun k => ?_
  exact .andThen steady_dictionary fun _ => .pure fun hk hm => hm _ _ (by simpa using ⟨hP.intOperand, hk⟩)

theorem mapCall_has {receiver : Operand} (hreceiver : receiver.Has env n granted O)
    (hcell : name = "asCell" → receiver.Has env n granted P)
    (hupdates : ["set", "replace", "del"].contains name = true → env.Updates O P receiver.source)
    (hos : ∀ o ∈ os, o.Has env n granted O) : Has env n granted P (mapCall receiver name os loc) := by
  refine .table_bind (.andThen .ofExcept fun kind => ?_)
  split
  · next key =>
    refine (mapGet_has hP hreceiver (hos key (by simp))).bind fun raw => ?_
    split
    · exact (callUsed_has hP).mono fun e he hraw => he (by simpa using hP.operand _ hraw)
    · exact .pure fun hraw => hraw
  · next key =>
    exact (mapGet_has hP hreceiver (hos key (by simp))).bind fun raw => 
      .pure fun hraw => hP.not (hP.operand _ (hP.isNull (hP.operand _ hraw)))
  · next key value => exact mapSet_has hP (hupdates rfl) (hos key (by simp)) (hos value (by simp))
  · next key value => exact mapSet_has hP (hupdates rfl) (hos key (by simp)) (hos value (by simp))
  · next key => exact mapDelete_has hP (hupdates rfl) (hos key (by simp))
  · exact Leads.bind hreceiver fun m => .pure hP.isNull
  · exact hcell rfl
  · split
    · exact .defectAt
    · exact .misuseAt

/-! ### Variables and fields -/

theorem identifier_has {s : Scope}
    (hself : name = "self" → ∀ ty ∈ s.selfType, env.Patterned P ty Name.self)
    (hname : name ≠ "self" → env.program.types.constants.contains name = false →
      env.Patterned P info.ty (Name.var name)) : Has env n granted P (identifier s info name) := by
  unfold identifier
  split
  · next heq => exact selfBinding_has (hself heq)
  · next hne =>
    refine .table_bind ?_
    split
    · exact literal_has hP
    · next hget => exact unpack_has (hname hne (by rw [Dict.contains, hget, Option.isSome_none]))

theorem fieldAccess_has {e : Expr} {target : Operand}
    (hpath : ∀ root fields, e.path = some (root :: fields) →
      env.program.types.constants.contains root = false →
      env.Patterned P e.ty (Name.path (root :: fields)))
    (htarget : target.Has env n granted O) : Has env n granted P (fieldAccess e target name) := by
  refine .after localPath_yields fun segments? hsegments => ?_
  split
  · next segments =>
    obtain ⟨root, fields, rfl, hsegments, hroot⟩ := hsegments _ rfl
    exact unpack_has (hpath root fields hsegments hroot)
  · refine .andThen steady_structOf fun decl? => ?_
    split
    · exact .defectAt
    · exact Leads.bind htarget fun value => (callUsed_has hP).mono fun e he hvalue => he (by simpa using hvalue)

/-! ### Calls -/

theorem functionCall_has (hos : ∀ o ∈ os, o.Has env n granted O) : Has env n granted P (functionCall info name os) := by
  refine (globalCall_has hP hos).bind fun code? => ?_
  split
  · exact .pure fun hcode => hcode _ rfl
  · refine .table_bind ?_
    split
    · exact .defectAt
    · refine Leads.mono (P := P) ?_ fun _ he _ => he
      split
      · exact (arguments_have hP hos).bind fun args => .andThen .skip fun _ => callUsed_has hP
      · exact (arguments_have hP hos).bind fun args => callUsed_has hP
      · exact .defectAt

omit hP in
theorem steady_shapeCast : Steady env (shapeCast ty) := by
  unfold shapeCast
  split
  · exact .pure
  · refine steady_structOf.bind fun decl? => ?_
    split <;> exact .pure

theorem castLone_has {codes : List Target.Expr} :
    Leads env n granted (castLone os codes) fun es => (∀ e ∈ codes, O e) → ∀ e ∈ es, O e := by
  unfold castLone
  split
  · refine .andThen steady_shapeCast fun cast? => ?_
    split
    · exact (callUsed_has hP).bind fun e => .pure fun he hcodes => by simpa using hP.operand e (he hcodes)
    · exact .pure fun hcodes => hcodes
  · exact .pure fun hcodes => hcodes

omit hP in
theorem steady_methodCallee {decl : TypeDecl} {f : Function} : Steady env (methodCallee decl f loc) := by
  unfold methodCallee
  split
  · exact Steady.skip.bind fun _ => .pure
  · exact .pure
  · exact .throw

theorem extensionCall_has {decl : TypeDecl} {f : Function} {receiver : Operand}
    (hreceiver : receiver.Has env n granted O) (hupdates : f.mutates = true → env.Updates O P receiver.source)
    (hos : ∀ o ∈ os, o.Has env n granted O) : Has env n granted P (extensionCall decl f receiver os loc) := by
  have hvalue : ∀ callee types, Has env n granted P (do
      let self ← receiver.code
      let args ← arguments os types
      callUsed callee (self :: args)) := fun callee types =>
    Leads.bind hreceiver fun self => (arguments_have hP hos).bind fun args =>
      (callUsed_has hP).mono fun e he hargs hself => he (List.forall_mem_cons.2 ⟨hself, hargs⟩)
  refine .andThen steady_methodCallee fun callee => ?_
  split
  · exact hvalue _ _
  · next hmutates =>
    split
    · refine (lvalue_has (hupdates (by simpa using hmutates))).bind fun target => ?_
      refine (arguments_have hP hos).bind fun args => (castLone_has hP).bind fun codes => ?_
      exact .used_bind (.pure fun hcodes hargs htarget => htarget _ _ (hcodes hargs))
    · split
      · exact .misuseAt
      · exact hvalue _ _

theorem methodCall_has {source : Expr} {code : Gen Target.Expr}
    (hupdates : env.program.types.mutates source.ty name = true → env.Updates O P source)
    (hcode : Has env n granted O code) (hcell : name = "asCell" → Has env n granted P code)
    (hos : ∀ o ∈ os, o.Has env n granted O) : Has env n granted P (methodCall info ⟨source, code⟩ name os) := by
  have hreceiver : Operand.Has env n granted O ⟨source, code⟩ := hcode
  unfold methodCall
  split
  · next hmap =>
    have hmap : source.ty.isMap = true := hmap
    refine mapCall_has hP hreceiver hcell (fun hname => hupdates ?_) hos
    rw [TypeTable.mutates, if_pos hmap]
    exact hname
  · next hmap =>
    have hmap : ¬ source.ty.isMap = true := hmap
    split
    · exact .misuseAt
    · split
      · exact .defectAt
      · next type htype =>
        refine .after declOf_yieldsFrom fun decl hdecl => ?_
        have hcall : Has env n granted P (declaredCall info type decl ⟨source, code⟩ name os) := by
          unfold declaredCall
          split
          · next f hf =>
            refine extensionCall_has hP hreceiver (fun hmutates => hupdates ?_) hos
            have htype : source.ty.name? = some type := htype
            rw [TypeTable.mutates, if_neg hmap]
            simp [htype, hdecl, hf, hmutates]
          · exact .misuseAt
        split
        · refine (instanceCall_has hP hreceiver).bind fun code? => ?_
          split
          · exact .pure fun hcode => hcode _ rfl
          · exact hcall.mono fun _ he _ => he
        · exact hcall

theorem staticCall_has (hos : ∀ o ∈ os, o.Has env n granted O) : Has env n granted P (staticCall info type name os) := by
  refine .after declOf_yieldsFrom fun decl _ => ?_
  split
  · refine (typeCall_has hP hos).bind fun code? => ?_
    cases code? with
    | some code => exact .pure fun hcode => hcode code rfl
    | none => exact .misuseAt
  · rw [pure_bind]
    exact .misuseAt

theorem deployment_has {contract : String} (hcontext : granted → O (id Helper.contextSys))
    (hos : ∀ o ∈ os, o.Has env n granted O) : Has env n granted P (deployment info contract os) := by
  refine .after declOf_yieldsFrom fun decl _ => ?_
  split
  · refine .declareContext_bind ((arguments_have hP hos).bind fun args => ?_)
    refine (callUsed_has hP).mono fun e he hargs hgranted => he ?_
    exact List.forall_mem_cons.2 ⟨hcontext hgranted, hargs⟩
  · exact .throw_bind

/-! ### Records -/

theorem fieldCode_has {inits : List (String × Operand)} {field : Field}
    (hinits : ∀ p ∈ inits, p.2.Has env n granted O) : Has env n granted O (fieldCode type inits loc field) := by
  unfold fieldCode
  split
  · next o ho => exact cast_has hP (hinits (field.name, o) (Dict.mem_entries_of_get? (d := ⟨inits⟩) ho))
  · split
    · exact (literal_has hP).mono hP.operand
    · exact .defectAt

theorem newRecord_has {inits : List (String × Operand)} (hinits : ∀ p ∈ inits, p.2.Has env n granted O) :
    Has env n granted P (newRecord info type inits) := by
  refine .after declOf_yieldsFrom fun decl _ => ?_
  split
  · exact .pure hP.emptyTuple
  · exact (Leads.mapM_all fun field _ => fieldCode_has hP hinits).bind fun items =>
      .pure (hP.tensor items)

/-! ### Operators -/

theorem negateIf_has {negate : Bool} {code : Target.Expr} (h : P code) : P (negateIf negate code) := by
  cases negate
  · exact h
  · exact hP.not (hP.operand _ h)

theorem compareCodes_has {mode : Comparison} {negate leftAbsent rightAbsent : Bool} {l r : Target.Expr} :
    Has env n granted (fun e => O r → O l → P e) (compareCodes mode negate leftAbsent rightAbsent l r) := by
  have hhelper : ∀ absence a b, Has env n granted (fun e => O a → O b → P e) (do
      return negateIf negate (← callHelper (Helper.equalName mode absence) [a, b])) :=
    fun absence a b => (callHelper_has hP).bind fun e =>
      .pure fun he ha hb => negateIf_has hP (he (by simp [ha, hb]))
  unfold compareCodes
  split
  · split
    · exact .pure fun hr hl => hP.binary _ _ _ hl hr
    · exact (hhelper _ _ _).mono fun e he hr hl => he hl hr
  · exact (hhelper _ _ _).mono fun e he hr hl => he hl hr
  · exact hhelper _ _ _
  · exact (hhelper _ _ _).mono fun e he hr hl => he hl hr

omit hP in
theorem steady_comparisonOf : Steady env (comparisonOf ty loc) := by
  unfold comparisonOf
  split
  · exact .pure
  · refine steady_primitiveOf.bind fun kind? => ?_
    split <;> first | exact .pure | exact .throw

theorem equality_has {negate : Bool} {lhs rhs : Operand} (hlhs : lhs.Has env n granted O) (hrhs : rhs.Has env n granted O) :
    Has env n granted P (equality negate lhs rhs loc) := by
  unfold equality
  split
  · exact .pure (hP.bool _)
  · exact Leads.bind hrhs fun r => .pure fun hr => negateIf_has hP (hP.isNull hr)
  · exact Leads.bind hlhs fun l => .pure fun hl => negateIf_has hP (hP.isNull hl)
  · refine .andThen steady_comparisonOf fun (mode, absent) => ?_
    exact Leads.bind hlhs fun l => Leads.bind hrhs fun r => compareCodes_has hP

theorem binaryCode_has {op : BinaryOp} {lhs rhs : Operand} (hlhs : lhs.Has env n granted O)
    (hrhs : rhs.Has env n granted O) : Has env n granted P (binaryCode op lhs rhs loc) := by
  unfold binaryCode
  split
  · exact equality_has hP hlhs hrhs
  · exact equality_has hP hlhs hrhs
  · refine Leads.bind hlhs fun l => Leads.bind hrhs fun r => ?_
    split
    · exact .pure fun hr hl => hP.binary _ _ _ hl hr
    · exact .pure fun hr hl => hP.ternary _ _ _ hl hr (hP.operand _ (hP.bool _))
    · exact .pure fun hr hl => hP.ternary _ _ _ hl (hP.operand _ (hP.bool _)) hr

theorem unaryCode_has {op : UnaryOp} {operand : Operand} (hoperand : operand.Has env n granted O) :
    Has env n granted P (unaryCode op operand) := by
  refine Leads.bind hoperand fun value => ?_
  have hargs : O value → ∀ e ∈ [value], O e := by simp
  split
  · exact .pure (hP.unary _ _)
  · exact .pure hP.not
  · exact .pure hP.not
  · refine .andThen steady_structOf fun decl? => ?_
    split
    · split
      · exact (callUsed_has hP).mono fun e he hvalue => he (hargs hvalue)
      · exact (callHelper_has hP).mono fun e he hvalue => he (hargs hvalue)
    · exact (callHelper_has hP).mono fun e he hvalue => he (hargs hvalue)

theorem conditionalCode_has {cond onTrue onFalse : Operand} (hcond : cond.Has env n granted O)
    (htrue : onTrue.Has env n granted O) (hfalse : onFalse.Has env n granted O) :
    Has env n granted P (conditionalCode ty cond onTrue onFalse) :=
  Leads.bind hcond fun c => (cast_has hP htrue).bind fun t => (cast_has hP hfalse).bind fun f =>
    .pure fun hf ht hc => hP.ternary c t f hc ht hf

/-! ### Expressions -/

theorem foldedOr_has {e : Expr} {code : Gen Target.Expr} (hcode : Has env n granted P code) :
    Has env n granted P (foldedOr e code) := by
  refine .andThen .read fun env => ?_
  split
  · exact literal_has hP
  · exact hcode

end

mutual

/-- **Code inherits what holds of its variables.** -/
theorem lower_has (hP : Hereditary P) (s : Scope) : (e : Expr) →
    (∀ part ∈ e.parts, env.Grants granted s P part) → Has env n granted P (lower s e)
  | .number .., _ => foldedOr_has hP (.pure (hP.int _))
  | .boolean .., _ => foldedOr_has hP (.pure (hP.bool _))
  | .null .., _ => foldedOr_has hP (.pure hP.null)
  | .string .., _ => foldedOr_has hP (literal_has hP)
  | .ident _ _, hparts => by
    have hident := (List.forall_mem_cons.1 hparts).1
    exact foldedOr_has hP (identifier_has hP (hident.self _ _ rfl) (hident.ident _ _ rfl))
  | .field _ target _, hparts => by
    obtain ⟨hfield, htarget⟩ := List.forall_mem_cons.1 hparts
    exact foldedOr_has hP (fieldAccess_has hP (hfield.field _ _ _ · · rfl) (lower_has hP s target htarget))
  | .call _ _ args, hparts =>
    foldedOr_has hP (functionCall_has hP (operands_have hP s args (List.forall_mem_cons.1 hparts).2))
  | .methodCall _ receiver _ args, hparts => by
    obtain ⟨hcall, hrest⟩ := List.forall_mem_cons.1 hparts
    obtain ⟨hreceiver, hargs⟩ := List.forall_mem_append.1 hrest
    have hcode := lower_has hP s receiver hreceiver
    exact foldedOr_has hP (methodCall_has hP (hcall.receiver _ _ _ _ rfl) hcode (fun _ => hcode)
      (operands_have hP s args hargs))
  | .staticCall _ _ _ args, hparts =>
    foldedOr_has hP (staticCall_has hP (operands_have hP s args (List.forall_mem_cons.1 hparts).2))
  | .instanceOf _ _ inits, hparts =>
    foldedOr_has hP (newRecord_has hP (initOperands_have hP s inits (List.forall_mem_cons.1 hparts).2))
  | .binary _ _ lhs rhs, hparts => by
    obtain ⟨hlhs, hrhs⟩ := List.forall_mem_append.1 (List.forall_mem_cons.1 hparts).2
    exact foldedOr_has hP (binaryCode_has hP (lower_has hP s lhs hlhs) (lower_has hP s rhs hrhs))
  | .unary _ _ operand, hparts =>
    foldedOr_has hP (unaryCode_has hP (lower_has hP s operand (List.forall_mem_cons.1 hparts).2))
  | .conditional _ cond onTrue onFalse, hparts => by
    obtain ⟨hboth, hfalse⟩ := List.forall_mem_append.1 (List.forall_mem_cons.1 hparts).2
    obtain ⟨hcond, htrue⟩ := List.forall_mem_append.1 hboth
    exact foldedOr_has hP (conditionalCode_has hP (lower_has hP s cond hcond)
      (lower_has hP s onTrue htrue) (lower_has hP s onFalse hfalse))
  | .initOf _ _ args, hparts => by
    obtain ⟨hinit, hargs⟩ := List.forall_mem_cons.1 hparts
    exact foldedOr_has hP (deployment_has hP (hinit.deployment _ _ _ rfl) (operands_have hP s args hargs))

theorem operands_have (hP : Hereditary P) (s : Scope) : (es : List Expr) →
    (∀ part ∈ partsOf es, env.Grants granted s P part) → ∀ o ∈ operands s es, o.Has env n granted P
  | [], _ => by simp [operands]
  | e :: es, hparts => by
    obtain ⟨he, hes⟩ := List.forall_mem_append.1 hparts
    exact List.forall_mem_cons.2 ⟨lower_has hP s e he, operands_have hP s es hes⟩

theorem initOperands_have (hP : Hereditary P) (s : Scope) : (inits : List (String × Expr)) →
    (∀ part ∈ partsOfInits inits, env.Grants granted s P part) → ∀ p ∈ initOperands s inits, p.2.Has env n granted P
  | [], _ => by simp [initOperands]
  | (_, e) :: rest, hparts => by
    obtain ⟨he, hrest⟩ := List.forall_mem_append.1 hparts
    exact List.forall_mem_cons.2 ⟨lower_has hP s e he, initOperands_have hP s rest hrest⟩

end

theorem lowerCast_has (hP : Hereditary P) {s : Scope} {e : Expr}
    (he : ∀ part ∈ e.parts, env.Grants granted s P part) : Has env n granted P (lowerCast s e ty) :=
  cast_has hP (lower_has hP s e he)

theorem returned_has (hP : Hereditary P) {s : Scope} {value : Option Target.Expr}
    (hself : ∀ ty ∈ s.selfType, env.Patterned P ty Name.self) :
    Has env n granted (fun e => (∀ v ∈ value, P v) → P e) (s.returned value) := by
  have hgetD : (∀ v ∈ value, P v) → P (value.getD (.tensor [])) := by
    intro hvalue
    cases value with
    | none => exact hP.tensor [] (by simp)
    | some v => exact hvalue v rfl
  unfold Scope.returned
  split
  · exact (selfBinding_has hself).mono fun _ he _ => he
  · split
    · exact (selfBinding_has hself).bind fun self => .pure fun hself hvalue =>
        hP.tensor _ (by simp [hself, hgetD hvalue])
    · exact .pure hgetD

end Generate

end CellCompiler
