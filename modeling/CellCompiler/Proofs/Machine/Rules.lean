import CellCompiler.Machine.Run
import CellCompiler.Proofs.Dict
import CellCompiler.Proofs.Failure

/-!
# Rules for runs

`Yields x s a s'` says that a run of `x` from `s` ends with the value `a` in `s'`. For every form of
expressions and statements one equivalence says when it yields a value in terms of its parts. Read
from left to right these take a finished run apart, and from right to left they put a run together.
-/

namespace CellCompiler

namespace Machine

variable {α β : Type} {c : Code} {s s' s'' : State}

/-- The run ends with a value. -/
def Yields (x : Run α) (s : State) (a : α) (s' : State) : Prop := x s = some (.ok a, s')

theorem Yields.eq {x : Run α} {a b : α} (h : Yields x s a s') (h' : Yields x s b s'') :
    b = a ∧ s'' = s' := by
  unfold Yields at h h'
  rw [h] at h'
  simpa [eq_comm] using h'

/-- A run with a known end yields this and nothing else. -/
theorem Yields.iff {x : Run α} {a b : α} (h : Yields x s a s') :
    Yields x s b s'' ↔ b = a ∧ s'' = s' := by
  refine ⟨h.eq, ?_⟩
  rintro ⟨rfl, rfl⟩
  exact h

@[simp] theorem yields_pure {a b : α} : Yields (pure a) s b s' ↔ b = a ∧ s' = s := by
  change some (Except.ok a, s) = some (Except.ok b, s') ↔ _
  simp [eq_comm]

@[simp] theorem yields_throw {e : Fault} {a : α} : ¬ Yields (throw e) s a s' := by
  change ¬ some (Except.error e, s) = some (Except.ok a, s')
  simp

@[simp] theorem yields_bind {x : Run α} {f : α → Run β} {b : β} :
    Yields (x >>= f) s b s'' ↔ ∃ a s', Yields x s a s' ∧ Yields (f a) s' b s'' := by
  unfold Yields
  change (x s).bind (fun p => ExceptT.bindCont f p.1 p.2) = _ ↔ _
  cases hx : x s with
  | none => simp
  | some p =>
    obtain ⟨a | a, t⟩ := p
    · change some (Except.error a, t) = _ ↔ _
      simp
    · change f a t = _ ↔ _
      simp

@[simp] theorem yields_ofExcept {x : Except Fault α} {a : α} :
    Yields (ofExcept x) s a s' ↔ x = .ok a ∧ s' = s := by
  cases x with
  | ok b =>
    rw [ofExcept, yields_pure]
    simp [eq_comm]
  | error e => simp [ofExcept]

@[simp] theorem yields_modify {f : State → State} {u : PUnit} :
    Yields (modify f) s u s' ↔ s' = f s := by
  change some (Except.ok PUnit.unit, f s) = some (Except.ok u, s') ↔ _
  simp [eq_comm]

@[simp] theorem yields_get {t : State} : Yields (get : Run State) s t s' ↔ t = s ∧ s' = s := by
  change some (Except.ok s, s) = some (Except.ok t, s') ↔ _
  simp [eq_comm]

/-! ### Variables -/

/-- The state with a variable of the current function set. -/
def State.set (s : State) (name : String) (v : Val) : State :=
  { s with frame := s.frame.insert name v }

/-- The value of a variable of the current function. -/
def State.get? (s : State) (name : String) : Option Val := s.frame.get? name

@[simp] theorem State.get?_set {name other : String} {v : Val} :
    (s.set name v).get? other = if other = name then some v else s.get? other := by
  simp [State.get?, State.set]

@[simp] theorem State.set_set {name : String} {v w : Val} : (s.set name v).set name w = s.set name w := by
  have hput : ∀ entries : List (String × Val),
      Dict.put name w (Dict.put name v entries) = Dict.put name w entries := by
    intro entries
    induction entries with
    | nil => simp [Dict.put]
    | cons p rest ih =>
      obtain ⟨k, x⟩ := p
      by_cases h : k = name
      · simp [Dict.put, h]
      · simp [Dict.put, h, ih]
  simp [State.set, Dict.insert, hput]

theorem State.assign_of_declare {name : String} {v : Val} : s.assign true name v = s.set name v := by
  simp [State.assign, State.set]

theorem State.assign_of_get? {name : String} {v w : Val} (h : s.get? name = some w)
    (declare : Bool) : s.assign declare name v = s.set name v := by
  have hcontains : s.frame.contains name = true := Dict.contains_eq_true_iff.2 ⟨w, h⟩
  simp [State.assign, State.set, hcontains]

theorem yields_bind_ident {declare : Bool} {name : String} {v : Val} {u : Unit} :
    Yields (bind declare v (.ident name)) s u s' ↔ s' = s.assign declare name v := by
  rw [bind]
  · exact yields_modify
  · simp

theorem yields_bind_set {declare : Bool} {name : String} {v w : Val} {u : Unit}
    (h : s.get? name = some w) :
    Yields (bind declare v (.ident name)) s u s' ↔ s' = s.set name v := by
  rw [yields_bind_ident, State.assign_of_get? h]

theorem yields_ident {name : String} {v w : Val} (h : s.get? name = some v) :
    Yields (eval c (.ident name)) s w s' ↔ w = v ∧ s' = s := by
  have hyields : Yields (eval c (.ident name)) s v s := by
    rw [eval, lookup, yields_bind]
    refine ⟨s, s, yields_get.2 ⟨rfl, rfl⟩, ?_⟩
    rw [State.get?] at h
    simp [h]
  exact hyields.iff

/-! ### Expressions -/

section Expressions

variable {v : Val} {vs : List Val} {e lhs rhs cond : Target.Expr} {es : List Target.Expr}

@[simp] theorem yields_int {n : Int} : Yields (eval c (.int n)) s v s' ↔ v = .int n ∧ s' = s := by
  rw [eval, yields_pure]

@[simp] theorem yields_bool {b : Bool} : Yields (eval c (.bool b)) s v s' ↔ v = .bool b ∧ s' = s := by
  rw [eval, yields_pure]

@[simp] theorem yields_evalAll_nil : Yields (evalAll c []) s vs s' ↔ vs = [] ∧ s' = s := by
  rw [evalAll, yields_pure]

@[simp] theorem yields_evalAll_cons : Yields (evalAll c (e :: es)) s vs s'' ↔
    ∃ v s', Yields (eval c e) s v s' ∧ ∃ rest, Yields (evalAll c es) s' rest s'' ∧ vs = v :: rest := by
  rw [evalAll]
  simp only [yields_bind, yields_pure]
  constructor
  · rintro ⟨v, s₁, hv, rest, s₂, hrest, rfl, rfl⟩
    exact ⟨v, s₁, hv, rest, hrest, rfl⟩
  · rintro ⟨v, s₁, hv, rest, hrest, rfl⟩
    exact ⟨v, s₁, hv, rest, s'', hrest, rfl, rfl⟩

theorem yields_evalAll_one (h : Yields (eval c e) s v s') : Yields (evalAll c [e]) s [v] s' :=
  yields_evalAll_cons.2 ⟨v, s', h, [], yields_evalAll_nil.2 ⟨rfl, rfl⟩, rfl⟩

@[simp] theorem yields_call {name : String} : Yields (eval c (.call name es)) s v s'' ↔
    ∃ vs s', Yields (evalAll c es) s vs s' ∧ Yields (call c name vs) s' v s'' := by
  rw [eval, yields_bind]

@[simp] theorem yields_method {name : String} :
    Yields (eval c (.methodCall e name es false)) s v s'' ↔
      ∃ vs s', Yields (evalAll c (e :: es)) s vs s' ∧ Yields (call c name vs) s' v s'' := by
  rw [eval]
  simp only [yields_bind, Bool.false_eq_true, if_false, yields_evalAll_cons]
  constructor
  · rintro ⟨v, s₁, hv, rest, s₂, hrest, hcall⟩
    exact ⟨_, s₂, ⟨v, s₁, hv, rest, hrest, rfl⟩, hcall⟩
  · rintro ⟨_, s₂, ⟨v, s₁, hv, rest, hrest, rfl⟩, hcall⟩
    exact ⟨v, s₁, hv, rest, s₂, hrest, hcall⟩

/-- A modifying call of a function of the module. -/
theorem yields_modify_function {name : String} {item : Target.Item}
    (h : c.functions.get? name = some item) :
    Yields (eval c (.methodCall e name es true)) s v s'' ↔
      ∃ vs s₁, Yields (evalAll c (e :: es)) s vs s₁ ∧ ∃ result s₂, Yields (call c name vs) s₁ result s₂ ∧
        ∃ updated, pair result = .ok (updated, v) ∧ Yields (bind false updated e) s₂ () s'' := by
  have hcontains : c.functions.contains name = true := Dict.contains_eq_true_iff.2 ⟨item, h⟩
  rw [eval]
  simp only [yields_bind, if_true, hcontains, yields_evalAll_cons, yields_ofExcept, yields_pure]
  constructor
  · rintro ⟨r, s₁, hr, rest, s₂, hrest, value, s₃, hcall, ⟨updated, result⟩, s₄, ⟨hpair, rfl⟩, ⟨⟩,
      s₅, hbind, rfl, rfl⟩
    exact ⟨_, s₂, ⟨r, s₁, hr, rest, hrest, rfl⟩, value, s₄, hcall, updated, hpair, hbind⟩
  · rintro ⟨_, s₂, ⟨r, s₁, hr, rest, hrest, rfl⟩, value, s₃, hcall, updated, hpair, hbind⟩
    exact ⟨r, s₁, hr, rest, s₂, hrest, value, s₃, hcall, (updated, v), s₃, ⟨hpair, rfl⟩, (), s'',
      hbind, rfl, rfl⟩

/-- A modifying call of a function of the target. -/
theorem yields_modify_primitive {name : String} (h : c.functions.get? name = none) :
    Yields (eval c (.methodCall e name es true)) s v s'' ↔
      ∃ vs s₁, Yields (evalAll c (e :: es)) s vs s₁ ∧
        ∃ updated, Primitive.modify name vs = .ok (updated, v) ∧ Yields (bind false updated e) s₁ () s'' := by
  have hcontains : c.functions.contains name = false := Dict.contains_eq_false_iff.2 h
  rw [eval]
  simp only [yields_bind, if_true, hcontains, Bool.false_eq_true, if_false, yields_evalAll_cons,
    yields_ofExcept, yields_pure]
  constructor
  · rintro ⟨r, s₁, hr, rest, s₂, hrest, ⟨updated, result⟩, s₃, ⟨hmodify, rfl⟩, ⟨⟩, s₄, hbind, rfl, rfl⟩
    exact ⟨_, s₃, ⟨r, s₁, hr, rest, hrest, rfl⟩, updated, hmodify, hbind⟩
  · rintro ⟨_, s₂, ⟨r, s₁, hr, rest, hrest, rfl⟩, updated, hmodify, hbind⟩
    exact ⟨r, s₁, hr, rest, s₂, hrest, (updated, v), s₂, ⟨hmodify, rfl⟩, (), s'', hbind, rfl, rfl⟩

@[simp] theorem yields_assign : Yields (eval c (.assign lhs rhs)) s v s'' ↔
    ∃ s', Yields (eval c rhs) s v s' ∧ Yields (bind false v lhs) s' () s'' := by
  rw [eval]
  simp only [yields_bind, yields_pure]
  constructor
  · rintro ⟨w, s₁, hw, ⟨⟩, s₂, hbind, rfl, rfl⟩
    exact ⟨s₁, hw, hbind⟩
  · rintro ⟨s₁, hw, hbind⟩
    exact ⟨v, s₁, hw, (), s'', hbind, rfl, rfl⟩

@[simp] theorem yields_ternary : Yields (eval c (.ternary cond lhs rhs)) s v s'' ↔
    ∃ w s', Yields (eval c cond) s w s' ∧ ∃ hit, w.truthy = .ok hit ∧
      Yields (eval c (if hit then lhs else rhs)) s' v s'' := by
  rw [eval]
  simp only [yields_bind, yields_ofExcept]
  constructor
  · rintro ⟨w, s₁, hw, hit, s₂, ⟨htruthy, rfl⟩, hbranch⟩
    refine ⟨w, s₂, hw, hit, htruthy, ?_⟩
    cases hit <;> simpa using hbranch
  · rintro ⟨w, s₁, hw, hit, htruthy, hbranch⟩
    refine ⟨w, s₁, hw, hit, s₁, ⟨htruthy, rfl⟩, ?_⟩
    cases hit <;> simpa using hbranch

@[simp] theorem yields_binary {op : Target.BinaryOp} :
    Yields (eval c (.binary op lhs rhs)) s v s'' ↔ ∃ a s', Yields (eval c lhs) s a s' ∧
      ∃ b, Yields (eval c rhs) s' b s'' ∧ Primitive.binary op a b = .ok v := by
  rw [eval]
  simp only [yields_bind, yields_ofExcept]
  constructor
  · rintro ⟨a, s₁, ha, b, s₂, hb, hop, rfl⟩
    exact ⟨a, s₁, ha, b, hb, hop⟩
  · rintro ⟨a, s₁, ha, b, hb, hop⟩
    exact ⟨a, s₁, ha, b, s'', hb, hop, rfl⟩

@[simp] theorem yields_unary {op : Target.UnaryOp} : Yields (eval c (.unary op e)) s v s' ↔
    ∃ a, Yields (eval c e) s a s' ∧ Primitive.unary op a = .ok v := by
  rw [eval]
  simp only [yields_bind, yields_ofExcept]
  constructor
  · rintro ⟨a, s₁, ha, hop, rfl⟩
    exact ⟨a, ha, hop⟩
  · rintro ⟨a, ha, hop⟩
    exact ⟨a, s', ha, hop, rfl⟩

@[simp] theorem yields_tensor : Yields (eval c (.tensor es)) s v s' ↔
    ∃ vs, Yields (evalAll c es) s vs s' ∧ v = .tensor vs := by
  rw [eval]
  simp only [yields_bind, yields_pure]
  constructor
  · rintro ⟨vs, s₁, hvs, rfl, rfl⟩
    exact ⟨vs, hvs, rfl⟩
  · rintro ⟨vs, hvs, rfl⟩
    exact ⟨vs, s', hvs, rfl, rfl⟩

end Expressions

/-! ### Statements -/

section Statements

variable {r : Option Val} {e cond binding : Target.Expr} {body more : List Target.Stmt}
  {stmt : Target.Stmt}

@[simp] theorem yields_block_nil : Yields (block c []) s r s' ↔ r = none ∧ s' = s := by
  rw [block, yields_pure]

theorem yields_block_cons : Yields (block c (stmt :: body)) s r s'' ↔
    ∃ q s', Yields (Machine.stmt c stmt) s q s' ∧
      match q with
      | some v => r = some v ∧ s'' = s'
      | none => Yields (block c body) s' r s'' := by
  rw [block]
  simp only [yields_bind]
  constructor <;>
  · rintro ⟨q, s₁, hq, hrest⟩
    refine ⟨q, s₁, hq, ?_⟩
    cases q <;> simpa using hrest

/-- Statements one after the other. -/
theorem yields_block_append : Yields (block c (body ++ more)) s r s'' ↔
    ∃ q s', Yields (block c body) s q s' ∧
      match q with
      | some v => r = some v ∧ s'' = s'
      | none => Yields (block c more) s' r s'' := by
  induction body generalizing s with
  | nil => simp
  | cons stmt body ih =>
    simp only [List.cons_append, yields_block_cons]
    constructor
    · rintro ⟨q, s₁, hq, hrest⟩
      cases q with
      | some v =>
        obtain ⟨rfl, rfl⟩ := hrest
        exact ⟨some v, s'', ⟨some v, s'', hq, rfl, rfl⟩, rfl, rfl⟩
      | none =>
        obtain ⟨q', s₂, hq', hmore⟩ := ih.1 hrest
        exact ⟨q', s₂, ⟨none, s₁, hq, hq'⟩, hmore⟩
    · rintro ⟨q', s₂, ⟨q, s₁, hq, hrest⟩, hmore⟩
      refine ⟨q, s₁, hq, ?_⟩
      cases q with
      | some v =>
        obtain ⟨rfl, rfl⟩ := hrest
        exact hmore
      | none => exact ih.2 ⟨q', s₂, hrest, hmore⟩

@[simp] theorem yields_ret : Yields (Machine.stmt c (.ret (some e))) s r s' ↔
    ∃ v, Yields (eval c e) s v s' ∧ r = some v := by
  rw [Machine.stmt]
  simp only [yields_bind, yields_pure]
  constructor
  · rintro ⟨v, s₁, hv, rfl, rfl⟩
    exact ⟨v, hv, rfl⟩
  · rintro ⟨v, hv, rfl⟩
    exact ⟨v, s', hv, rfl, rfl⟩

@[simp] theorem yields_expr : Yields (Machine.stmt c (.expr e)) s r s' ↔
    r = none ∧ ∃ v, Yields (eval c e) s v s' := by
  rw [Machine.stmt]
  simp only [yields_bind, yields_pure]
  constructor
  · rintro ⟨v, s₁, hv, rfl, rfl⟩
    exact ⟨rfl, v, hv⟩
  · rintro ⟨rfl, v, hv⟩
    exact ⟨v, s', hv, rfl, rfl⟩

@[simp] theorem yields_varDef {ty : Option Target.Ty} :
    Yields (Machine.stmt c (.varDef ty binding (some e))) s r s'' ↔
      r = none ∧ ∃ v s', Yields (eval c e) s v s' ∧ Yields (bind true v binding) s' () s'' := by
  rw [Machine.stmt]
  simp only [yields_bind, yields_pure]
  constructor
  · rintro ⟨v, s₁, hv, ⟨⟩, s₂, hbind, rfl, rfl⟩
    exact ⟨rfl, v, s₁, hv, hbind⟩
  · rintro ⟨rfl, v, s₁, hv, hbind⟩
    exact ⟨v, s₁, hv, (), s'', hbind, rfl, rfl⟩

@[simp] theorem yields_ifThen {otherwise : Target.Otherwise} :
    Yields (Machine.stmt c (.ifThen (.mk cond body otherwise false))) s r s'' ↔
      ∃ w s', Yields (eval c cond) s w s' ∧ ∃ hit, w.truthy = .ok hit ∧
        if hit then Yields (block c body) s' r s''
        else
          match otherwise with
          | .absent => r = none ∧ s'' = s'
          | .block more => Yields (block c more) s' r s''
          | .chain next => Yields (conditional c next) s' r s'' := by
  rw [Machine.stmt, Code.conditional.eq_def]
  simp only [yields_bind, yields_ofExcept, Bool.bne_false]
  constructor
  · rintro ⟨w, s₁, hw, hit, s₂, ⟨htruthy, rfl⟩, hbranch⟩
    refine ⟨w, s₂, hw, hit, htruthy, ?_⟩
    cases hit
    · cases otherwise <;> simpa using hbranch
    · simpa using hbranch
  · rintro ⟨w, s₁, hw, hit, htruthy, hbranch⟩
    refine ⟨w, s₁, hw, hit, s₁, ⟨htruthy, rfl⟩, ?_⟩
    cases hit
    · cases otherwise <;> simpa using hbranch
    · simpa using hbranch

/-! The statements that codecs are made of. -/

@[simp] theorem yields_block_ret : Yields (block c (Target.ret e :: body)) s r s' ↔
    ∃ v, Yields (eval c e) s v s' ∧ r = some v := by
  rw [Target.ret, yields_block_cons]
  simp only [yields_ret]
  constructor
  · rintro ⟨q, t, ⟨v, hv, rfl⟩, rfl, rfl⟩
    exact ⟨v, hv, rfl⟩
  · rintro ⟨v, hv, rfl⟩
    exact ⟨some v, s', ⟨v, hv, rfl⟩, rfl, rfl⟩

@[simp] theorem yields_block_expr : Yields (block c (.expr e :: body)) s r s'' ↔
    ∃ v s', Yields (eval c e) s v s' ∧ Yields (block c body) s' r s'' := by
  rw [yields_block_cons]
  simp only [yields_expr]
  constructor
  · rintro ⟨q, t, ⟨rfl, v, hv⟩, hbody⟩
    exact ⟨v, t, hv, hbody⟩
  · rintro ⟨v, t, hv, hbody⟩
    exact ⟨none, t, ⟨rfl, v, hv⟩, hbody⟩

@[simp] theorem yields_block_var : Yields (block c (Target.var binding e :: body)) s r s'' ↔
    ∃ v s₁, Yields (eval c e) s v s₁ ∧ ∃ s₂, Yields (bind true v binding) s₁ () s₂ ∧
      Yields (block c body) s₂ r s'' := by
  rw [Target.var, yields_block_cons]
  simp only [yields_varDef]
  constructor
  · rintro ⟨q, s₂, ⟨rfl, v, s₁, hv, hbind⟩, hbody⟩
    exact ⟨v, s₁, hv, s₂, hbind, hbody⟩
  · rintro ⟨v, s₁, hv, s₂, hbind, hbody⟩
    exact ⟨none, s₂, ⟨rfl, v, s₁, hv, hbind⟩, hbody⟩

theorem yields_block_ifThen : Yields (block c (Target.ifThen cond body :: more)) s r s'' ↔
    ∃ w s', Yields (eval c cond) s w s' ∧ ∃ hit, w.truthy = .ok hit ∧
      if hit then Yields (block c (body ++ more)) s' r s'' else Yields (block c more) s' r s'' := by
  rw [Target.ifThen, yields_block_cons]
  simp only [yields_ifThen]
  constructor
  · rintro ⟨q, t, ⟨w, s₁, hw, hit, htruthy, hbranch⟩, hmore⟩
    refine ⟨w, s₁, hw, hit, htruthy, ?_⟩
    cases hit with
    | false =>
      obtain ⟨rfl, rfl⟩ : q = none ∧ t = s₁ := by simpa using hbranch
      simpa using hmore
    | true => exact yields_block_append.2 ⟨q, t, by simpa using hbranch, hmore⟩
  · rintro ⟨w, s₁, hw, hit, htruthy, hbranch⟩
    cases hit with
    | false => exact ⟨none, s₁, ⟨w, s₁, hw, false, htruthy, by simp⟩, by simpa using hbranch⟩
    | true =>
      obtain ⟨q, t, hbody, hmore⟩ := yields_block_append.1 hbranch
      exact ⟨q, t, ⟨w, s₁, hw, true, htruthy, by simpa using hbody⟩, hmore⟩

theorem yields_block_ifElse {other : List Target.Stmt} :
    Yields (block c (Target.ifElse cond body other :: more)) s r s'' ↔
      ∃ w s', Yields (eval c cond) s w s' ∧ ∃ hit, w.truthy = .ok hit ∧
        Yields (block c ((if hit then body else other) ++ more)) s' r s'' := by
  rw [Target.ifElse, yields_block_cons]
  simp only [yields_ifThen, yields_block_append]
  constructor
  · rintro ⟨q, t, ⟨w, s₁, hw, hit, htruthy, hbranch⟩, hmore⟩
    exact ⟨w, s₁, hw, hit, htruthy, q, t, by cases hit <;> simpa using hbranch, hmore⟩
  · rintro ⟨w, s₁, hw, hit, htruthy, q, t, hbranch, hmore⟩
    exact ⟨q, t, ⟨w, s₁, hw, hit, htruthy, by cases hit <;> simpa using hbranch⟩, hmore⟩

/-- A loop runs its body as long as its condition holds and nothing is returned. -/
theorem yields_whileLoop : Yields (whileLoop c cond body) s r s'' ↔
    ∃ w s', Yields (eval c cond) s w s' ∧ ∃ hit, w.truthy = .ok hit ∧
      if hit then ∃ q t, Yields (block c body) s' q t ∧
        match q with
        | some v => r = some v ∧ s'' = t
        | none => Yields (whileLoop c cond body) t r s''
      else r = none ∧ s'' = s' := by
  conv_lhs => rw [Code.whileLoop]
  simp only [yields_bind, yields_ofExcept]
  constructor
  · rintro ⟨w, s₁, hw, hit, s₂, ⟨htruthy, rfl⟩, hrest⟩
    refine ⟨w, s₂, hw, hit, htruthy, ?_⟩
    cases hit with
    | false => simpa using hrest
    | true =>
      simp only [if_true, yields_bind] at hrest ⊢
      obtain ⟨q, t, hbody, hrest⟩ := hrest
      refine ⟨q, t, hbody, ?_⟩
      cases q <;> simpa using hrest
  · rintro ⟨w, s₁, hw, hit, htruthy, hrest⟩
    refine ⟨w, s₁, hw, hit, s₁, ⟨htruthy, rfl⟩, ?_⟩
    cases hit with
    | false => simpa using hrest
    | true =>
      simp only [if_true, yields_bind] at hrest ⊢
      obtain ⟨q, t, hbody, hrest⟩ := hrest
      refine ⟨q, t, hbody, ?_⟩
      cases q <;> simpa using hrest

/-- A loop as the last statement. -/
theorem yields_block_while : Yields (block c [.whileLoop cond body]) s r s' ↔
    Yields (whileLoop c cond body) s r s' := by
  rw [yields_block_cons]
  constructor
  · rintro ⟨q, t, hloop, hrest⟩
    rw [Machine.stmt] at hloop
    cases q with
    | some v =>
      obtain ⟨rfl, rfl⟩ := hrest
      exact hloop
    | none =>
      obtain ⟨rfl, rfl⟩ := yields_block_nil.1 hrest
      exact hloop
  · intro hloop
    refine ⟨r, s', by rwa [Machine.stmt], ?_⟩
    cases r <;> simp

end Statements

/-! ### Calls -/

section Calls

variable {name : String} {args : List Val} {v : Val}

/-- A function runs in variables of its own. -/
theorem yields_function {signature : Target.Signature} {body : List Target.Stmt}
    (h : c.functions.get? name = some (.function signature body)) :
    Yields (call c name args) s v s' ↔ signature.params.length = args.length ∧
      ∃ r t, Yields (block c body) { s with frame := arguments signature args } r t ∧
        v = r.getD .unit ∧ s' = { t with frame := s.frame } := by
  rw [call, h]
  dsimp only
  split
  · next hlength =>
    simp only [hlength, true_and, Yields]
    change (block c body { s with frame := arguments signature args }).bind
      (fun p => some (p.1.map (·.getD .unit), { p.2 with frame := s.frame })) = _ ↔ _
    cases hrun : block c body { s with frame := arguments signature args } with
    | none => simp
    | some p =>
      obtain ⟨r | r, t⟩ := p
      · simp [Except.map]
      · simp [Except.map, eq_comm]
  · next hlength => simp [hlength]

/-- The module has a function with these parameters and statements. -/
def Code.Has (c : Code) (name : String) (params : List String) (body : List Target.Stmt) : Prop :=
  ∃ signature, c.functions.get? name = some (.function signature body) ∧
    signature.params.map (·.name) = params

/-- The state in which a function starts. -/
def State.enter (s : State) (params : List String) (args : List Val) : State :=
  { s with frame := .ofList (params.zip args) }

theorem Code.Has.yields {params : List String} {body : List Target.Stmt}
    (h : c.Has name params body) : Yields (call c name args) s v s' ↔ params.length = args.length ∧
      ∃ r t, Yields (block c body) (s.enter params args) r t ∧ v = r.getD .unit ∧
        s' = { t with frame := s.frame } := by
  obtain ⟨signature, hget, rfl⟩ := h
  rw [yields_function hget, List.length_map]
  rfl

/-- A call that changes variables of the function only. -/
theorem Code.Has.returns {params : List String} {body : List Target.Stmt} {t : State}
    (h : c.Has name params body) (hlength : params.length = args.length)
    (hbody : Yields (block c body) (s.enter params args) (some v) t)
    (hglobals : t.globals = s.globals) (hdata : t.data = s.data) : Yields (call c name args) s v s := by
  refine h.yields.2 ⟨hlength, some v, t, hbody, rfl, ?_⟩
  rw [hglobals, hdata]

theorem yields_asm {signature : Target.Signature} {instructions : List String}
    (h : c.functions.get? name = some (.asm signature instructions)) :
    Yields (call c name args) s v s' ↔ Primitive.asm instructions args = .ok v ∧ s' = s := by
  rw [call, h]
  exact yields_ofExcept

theorem yields_primitive (h : c.functions.get? name = none) (hget : name ≠ "get_data")
    (hset : name ≠ "set_data") :
    Yields (call c name args) s v s' ↔ Primitive.call c.host name args = .ok v ∧ s' = s := by
  rw [call, h]
  dsimp only
  unfold builtin
  split
  · exact absurd rfl hget
  · exact absurd rfl hset
  · exact yields_ofExcept

end Calls

/-! ### Expressions without effects -/

section Means

variable {name : String} {v w : Val} {vs : List Val} {e lhs rhs : Target.Expr}
  {es : List Target.Expr} {body : List Target.Stmt} {r : Option Val}

/-- The expression has a value and no effects. -/
def Means (c : Code) (s : State) (e : Target.Expr) (v : Val) : Prop := Yields (eval c e) s v s

theorem Means.iff (h : Means c s e v) : Yields (eval c e) s w s' ↔ w = v ∧ s' = s := Yields.iff h

theorem means_id (h : s.get? name = some v) : Means c s (Target.id name) v :=
  (yields_ident h).2 ⟨rfl, rfl⟩

theorem means_int {n : Int} : Means c s (Target.int n) (.int n) := yields_int.2 ⟨rfl, rfl⟩

theorem means_bool {t : Bool} : Means c s (.bool t) (.bool t) := yields_bool.2 ⟨rfl, rfl⟩

theorem means_evalAll (h : List.Forall₂ (Means c s) es vs) : Yields (evalAll c es) s vs s := by
  induction h with
  | nil => simp
  | cons hv _ ih => exact yields_evalAll_cons.2 ⟨_, s, hv, _, ih, rfl⟩

theorem Means.tensor (h : List.Forall₂ (Means c s) es vs) : Means c s (.tensor es) (.tensor vs) :=
  yields_tensor.2 ⟨vs, means_evalAll h, rfl⟩

theorem Means.binary {op : Target.BinaryOp} {a b : Val} (hlhs : Means c s lhs a)
    (hrhs : Means c s rhs b) (h : Primitive.binary op a b = .ok v) :
    Means c s (.binary op lhs rhs) v :=
  yields_binary.2 ⟨a, s, hlhs, b, hrhs, h⟩

theorem Means.unary {op : Target.UnaryOp} {a : Val} (he : Means c s e a)
    (h : Primitive.unary op a = .ok v) : Means c s (.unary op e) v :=
  yields_unary.2 ⟨a, he, h⟩

/-- A call with arguments that have values. -/
theorem yields_call_means (h : List.Forall₂ (Means c s) es vs) :
    Yields (eval c (Target.call name es)) s v s' ↔ Yields (call c name vs) s v s' := by
  rw [Target.call, yields_call]
  constructor
  · rintro ⟨ws, t, hws, hcall⟩
    obtain ⟨rfl, rfl⟩ := (means_evalAll h).eq hws
    exact hcall
  · exact fun hcall => ⟨vs, s, means_evalAll h, hcall⟩

theorem yields_method_means (h : List.Forall₂ (Means c s) (e :: es) vs) :
    Yields (eval c (Target.method e name es)) s v s' ↔ Yields (call c name vs) s v s' := by
  rw [Target.method, yields_method]
  constructor
  · rintro ⟨ws, t, hws, hcall⟩
    obtain ⟨rfl, rfl⟩ := (means_evalAll h).eq hws
    exact hcall
  · exact fun hcall => ⟨vs, s, means_evalAll h, hcall⟩

/-- Binding a variable to what an expression means. -/
theorem yields_var_means (h : Means c s e v) :
    Yields (block c (Target.var (Target.id name) e :: body)) s r s' ↔
      Yields (block c body) (s.set name v) r s' := by
  rw [yields_block_var]
  constructor
  · rintro ⟨w, s₁, hw, s₂, hbind, hbody⟩
    obtain ⟨rfl, rfl⟩ := h.iff.1 hw
    rw [Target.id, yields_bind_ident, State.assign_of_declare] at hbind
    exact hbind ▸ hbody
  · intro hbody
    refine ⟨v, s, h, s.set name v, ?_, hbody⟩
    rw [Target.id, yields_bind_ident, State.assign_of_declare]

/-- Assigning to a variable of the current function what an expression means. -/
theorem yields_assign_means (hname : s.get? name = some w) (h : Means c s e v) :
    Yields (block c (Target.assign (Target.id name) e :: body)) s r s' ↔
      Yields (block c body) (s.set name v) r s' := by
  rw [Target.assign, yields_block_expr]
  simp only [yields_assign]
  constructor
  · rintro ⟨x, s₂, ⟨s₁, hx, hbind⟩, hbody⟩
    obtain ⟨rfl, rfl⟩ := h.iff.1 hx
    rw [Target.id, yields_bind_set hname] at hbind
    exact hbind ▸ hbody
  · intro hbody
    refine ⟨v, s.set name v, ⟨s, h, ?_⟩, hbody⟩
    rw [Target.id, yields_bind_set hname]

theorem yields_ret_means (h : Means c s e v) :
    Yields (block c (Target.ret e :: body)) s r s' ↔ r = some v ∧ s' = s := by
  rw [yields_block_ret]
  constructor
  · rintro ⟨w, hw, rfl⟩
    obtain ⟨rfl, rfl⟩ := h.iff.1 hw
    exact ⟨rfl, rfl⟩
  · rintro ⟨rfl, rfl⟩
    exact ⟨v, h, rfl⟩

/-! Expressions that may stop the run. -/

/-- The expression has no effects, and if it has a value, then one with the property. -/
def Returns (c : Code) (s : State) (e : Target.Expr) (P : Val → Prop) : Prop :=
  ∀ v s', Yields (eval c e) s v s' → s' = s ∧ P v

theorem Means.returns (h : Means c s e v) : Returns c s e (· = v) := by
  intro w s' hw
  obtain ⟨rfl, rfl⟩ := h.iff.1 hw
  exact ⟨rfl, rfl⟩

theorem Returns.mono {P Q : Val → Prop} (h : Returns c s e P) (hP : ∀ v, P v → Q v) :
    Returns c s e Q :=
  fun v s' hv => (h v s' hv).imp_right (hP v)

theorem Returns.of_assign {P : Val → Prop} (h : Returns c s e P) (hname : s.get? name = some w)
    (hrun : Yields (block c (Target.assign (Target.id name) e :: body)) s r s') :
    ∃ v, P v ∧ Yields (block c body) (s.set name v) r s' := by
  rw [Target.assign, yields_block_expr] at hrun
  simp only [yields_assign] at hrun
  obtain ⟨v, s₂, ⟨s₁, hv, hbind⟩, hbody⟩ := hrun
  obtain ⟨rfl, hP⟩ := h v s₁ hv
  rw [Target.id, yields_bind_set hname] at hbind
  exact ⟨v, hP, hbind ▸ hbody⟩

theorem Returns.of_ret {P : Val → Prop} (h : Returns c s e P)
    (hrun : Yields (block c (Target.ret e :: body)) s r s') : s' = s ∧ ∃ v, r = some v ∧ P v := by
  rw [yields_block_ret] at hrun
  obtain ⟨v, hv, rfl⟩ := hrun
  obtain ⟨rfl, hP⟩ := h v s' hv
  exact ⟨rfl, v, rfl, hP⟩

/-! Loops whose condition is a variable. -/

theorem whileLoop_ends {flag : String} (h : s.get? flag = some (.bool false)) :
    Yields (whileLoop c (Target.id flag) body) s none s :=
  yields_whileLoop.2 ⟨_, s, means_id h, false, rfl, by simp⟩

theorem whileLoop_round {flag : String} {t : State} (h : s.get? flag = some (.bool true)) (hbody : Yields (block c body) s none t)
    (hrest : Yields (whileLoop c (Target.id flag) body) t none s') :
    Yields (whileLoop c (Target.id flag) body) s none s' :=
  yields_whileLoop.2 ⟨_, s, means_id h, true, rfl, by simpa using ⟨none, t, hbody, hrest⟩⟩

end Means

end Machine

end CellCompiler
