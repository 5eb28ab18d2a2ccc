import CellCompiler.Proofs.Machine.Primitives

/-!
# Runs as a whole

`Yields` is about runs that end with a value. Here runs are compared with all that they do: the value
or the fault that they end with, the state they leave, and whether they end at all.

* `Frameless x` says that the run `x` neither sees nor changes the variables of the function that it
  is started from. Calls are like that (`frameless_call`);
* `Acts y s x` says that from `s` the statements `y` return what the run `x` gives, and leave what it
  leaves apart from the variables of the function. There is one rule for every form of statement;
* `Code.Has.call_eq` turns this into an equation between runs once a whole body is known.
-/

namespace CellCompiler

namespace Machine

variable {α β : Type} {c : Code} {s s' t : State}

/-! ### Runs one after the other -/

theorem bind_apply {x : Run α} {f : α → Run β} :
    (x >>= f) s = (x s).bind fun p =>
      match p.1 with
      | .ok a => f a p.2
      | .error e => some (.error e, p.2) := by
  change (x s).bind (fun p => ExceptT.bindCont f p.1 p.2) = _
  congr 1
  funext ⟨r, t⟩
  cases r <;> rfl

/-- What follows a run with a known end. -/
theorem Yields.bind_eq {x : Run α} {f : α → Run β} {a : α} (h : Yields x s a s') :
    (x >>= f) s = f a s' := by
  rw [bind_apply, h]
  rfl

theorem map_apply {x : Run α} {f : α → β} :
    (f <$> x) s = (x s).map fun p => (p.1.map f, p.2) := by
  rw [map_eq_pure_bind, bind_apply]
  cases x s with
  | none => rfl
  | some p =>
    obtain ⟨a | a, u⟩ := p <;> rfl

/-! ### Runs that have no part in the variables -/

/-- The same state with other variables. -/
def State.withFrame (s : State) (frame : Dict Val) : State := { s with frame }

@[simp] theorem State.withFrame_withFrame {f g : Dict Val} :
    (s.withFrame f).withFrame g = s.withFrame g := rfl

@[simp] theorem State.set_withFrame {name : String} {v : Val} {f : Dict Val} :
    (s.set name v).withFrame f = s.withFrame f := rfl

/-- The run neither sees nor changes the variables of the function that it is started from. -/
def Frameless (x : Run α) : Prop :=
  ∀ s frame, x (s.withFrame frame) = (x s).map fun p => (p.1, p.2.withFrame frame)

theorem Frameless.frame_eq {x : Run α} {r : Except Fault α} (hx : Frameless x)
    (h : x s = some (r, t)) : t.frame = s.frame := by
  have hsame := hx s s.frame
  change x s = _ at hsame
  rw [h, Option.map_some, Option.some.injEq, Prod.mk.injEq] at hsame
  exact congrArg State.frame hsame.2.symm ▸ rfl

theorem Frameless.bind {x : Run α} {f : α → Run β} (hx : Frameless x) (hf : ∀ a, Frameless (f a)) :
    Frameless (x >>= f) := by
  intro s frame
  rw [bind_apply, bind_apply, hx]
  cases x s with
  | none => rfl
  | some p =>
    obtain ⟨e | a, u⟩ := p
    · rfl
    · exact hf a u frame

theorem frameless_pure {a : α} : Frameless (pure a) := fun _ _ => rfl

theorem frameless_throw {e : Fault} : Frameless (throw e : Run α) := fun _ _ => rfl

theorem frameless_ofExcept {x : Except Fault α} : Frameless (ofExcept x) := by
  cases x with
  | ok a => exact frameless_pure
  | error e => exact frameless_throw

theorem frameless_builtin {host : Host} {name : String} {args : List Val} :
    Frameless (builtin host name args) := by
  unfold builtin
  split
  · exact fun _ _ => rfl
  · next v =>
    refine frameless_ofExcept.bind fun data => ?_
    exact fun _ _ => rfl
  · exact frameless_ofExcept

/-- The run of a function of the module from its body. -/
theorem call_function {signature : Target.Signature} {body : List Target.Stmt} {name : String}
    {args : List Val} (h : c.functions.get? name = some (.function signature body))
    (hlength : signature.params.length = args.length) :
    call c name args s = (block c body (s.withFrame (arguments signature args))).map fun p =>
      (p.1.map (·.getD .unit), p.2.withFrame s.frame) := by
  rw [call, h]
  simp only [hlength, if_true]
  change (block c body (s.withFrame (arguments signature args))).bind
    (fun p => some (p.1.map (·.getD .unit), { p.2 with frame := s.frame })) = _
  rw [Option.map_eq_bind]
  rfl

/-- A function has variables of its own. -/
theorem frameless_call {name : String} {args : List Val} : Frameless (call c name args) := by
  cases hget : c.functions.get? name with
  | none =>
    rw [call, hget]
    exact frameless_builtin
  | some item =>
    cases item with
    | function signature body =>
      by_cases hlength : signature.params.length = args.length
      · intro s frame
        rw [call_function hget hlength, call_function hget hlength, Option.map_map]
        rfl
      · rw [call, hget]
        simp only [hlength, if_false]
        exact frameless_throw
    | asm signature instructions =>
      rw [call, hget]
      exact frameless_ofExcept
    | _ =>
      rw [call, hget]
      exact frameless_throw

/-- Call a modifying function; gives the update of the first argument, and the result. -/
def invoke (c : Code) (name : String) (args : List Val) : Run (Val × Val) := do
  ofExcept (pair (← call c name args))

theorem frameless_invoke {name : String} {args : List Val} : Frameless (invoke c name args) :=
  frameless_call.bind fun _ => frameless_ofExcept

/-! ### Statements -/

/-- From `s` the statements return what the run gives, and leave what it leaves apart from the
variables of the function. -/
def Acts (y : Run (Option Val)) (s : State) (x : Run Val) : Prop :=
  ∀ frame, (y s).map (fun p => (p.1, p.2.withFrame frame)) = (some <$> x) (s.withFrame frame)

section Acts

variable {y : Run (Option Val)} {x : Run Val} {name : String} {v w : Val} {vs : List Val}
  {cond e : Target.Expr} {es : List Target.Expr} {body more : List Target.Stmt}
  {stmt : Target.Stmt}

/-- Steps that change nothing but variables of the function. -/
theorem Acts.of_eq {y' : Run (Option Val)} (h : Acts y' s' x) (hy : y s = y' s')
    (hs : ∀ frame, s.withFrame frame = s'.withFrame frame) : Acts y s x := by
  intro frame
  rw [hy, hs]
  exact h frame

/-- A step that has no part in the variables. -/
theorem Acts.bind {x : Run α} {k : α → Run (Option Val)} {f : α → Run Val} (hx : Frameless x)
    (h : ∀ a t, t.frame = s.frame → Acts (k a) t (f a)) : Acts (x >>= k) s (x >>= f) := by
  intro frame
  rw [map_bind, bind_apply, bind_apply, hx]
  cases hrun : x s with
  | none => rfl
  | some p =>
    obtain ⟨e | a, t⟩ := p
    · rfl
    · exact h a t (hx.frame_eq hrun) frame

theorem acts_throw {e : Fault} (h : y s = some (.error e, s)) : Acts y s (throw e) := by
  intro frame
  rw [h]
  rfl

theorem acts_ret (h : Means c s e v) : Acts (block c (Target.ret e :: more)) s (pure v) := by
  have hrun : Yields (block c (Target.ret e :: more)) s (some v) s := (yields_ret_means h).2 ⟨rfl, rfl⟩
  intro frame
  rw [hrun]
  rfl

theorem block_append : block c (body ++ more) = block c body >>= fun r =>
    match r with
    | some v => pure (some v)
    | none => block c more := by
  induction body with
  | nil =>
    rw [block, pure_bind]
    rfl
  | cons stmt body ih =>
    rw [List.cons_append, block, block, bind_assoc]
    congr 1
    funext r
    cases r with
    | none => exact ih
    | some v => rw [pure_bind]

/-- A statement that only sets variables of the function. -/
theorem Acts.step (h : Acts (block c more) s' x) (hstmt : Yields (Machine.stmt c stmt) s none s')
    (hs : ∀ frame, s.withFrame frame = s'.withFrame frame) : Acts (block c (stmt :: more)) s x := by
  refine h.of_eq ?_ hs
  rw [block]
  exact hstmt.bind_eq

/-- Binding a variable to what an expression means. -/
theorem Acts.varDef {ty : Option Target.Ty} (h : Acts (block c more) (s.set name v) x)
    (he : Means c s e v) : Acts (block c (.varDef ty (Target.id name) (some e) :: more)) s x := by
  refine h.step (yields_varDef.2 ⟨rfl, v, s, he, ?_⟩) fun _ => rfl
  rw [Target.id, yields_bind_ident, State.assign_of_declare]

theorem Acts.assign (h : Acts (block c more) (s.set name v) x) (hname : s.get? name = some w)
    (he : Means c s e v) : Acts (block c (Target.assign (Target.id name) e :: more)) s x := by
  refine h.step (yields_expr.2 ⟨rfl, v, yields_assign.2 ⟨s, he, ?_⟩⟩) fun _ => rfl
  rw [Target.id, yields_bind_set hname]

/-- A condition puts its statements in front of what follows, or does nothing. -/
theorem Acts.ifThen {hit : Bool} (h : Acts (block c (if hit then body ++ more else more)) s x)
    (hcond : Means c s cond w) (hw : w.truthy = .ok hit) :
    Acts (block c (Target.ifThen cond body :: more)) s x := by
  refine h.of_eq ?_ fun _ => rfl
  have hbranch : Machine.stmt c (Target.ifThen cond body) s =
      (if hit then block c body else pure none) s := by
    rw [Target.ifThen, Machine.stmt, Code.conditional.eq_def]
    refine hcond.bind_eq.trans ?_
    rw [hw]
    cases hit <;> rfl
  rw [block, bind_apply, hbranch, ← bind_apply]
  cases hit with
  | false => rfl
  | true => exact (congrFun block_append s).symm

theorem block_expr : block c (.expr e :: more) = eval c e >>= fun _ => block c more := by
  rw [block, Machine.stmt, bind_assoc]
  simp only [pure_bind]

theorem block_varDef {ty : Option Target.Ty} {binding : Target.Expr} :
    block c (.varDef ty binding (some e) :: more) =
      eval c e >>= fun v => Machine.bind true v binding >>= fun _ => block c more := by
  rw [block, Machine.stmt]
  simp only [bind_assoc, pure_bind]

section Modify

variable {u : Val} {function : String} {f : Val × Val → Run Val}

/-- A modifying call; the variable that it is applied to is updated before its result is used. -/
theorem acts_modify {k : Val → Run (Option Val)} (hname : s.get? name = some u)
    (hes : List.Forall₂ (Means c s) es vs) (hfunction : c.functions.contains function = true)
    (h : ∀ (p : Val × Val) (t : State), t.frame = s.frame → Acts (k p.2) (t.set name p.1) (f p)) :
    Acts (eval c (Target.modify (Target.id name) function es) >>= k) s
      (invoke c function (u :: vs) >>= f) := by
  have hbind : Acts (invoke c function (u :: vs) >>= fun p =>
      Machine.bind false p.1 (.ident name) >>= fun _ => k p.2) s
      (invoke c function (u :: vs) >>= f) := by
    refine Acts.bind frameless_invoke fun p t ht => (h p t ht).of_eq ?_ fun _ => rfl
    have hget : t.get? name = some u := by rw [State.get?, ht, ← State.get?, hname]
    exact Yields.bind_eq (a := ()) ((yields_bind_set hget).2 rfl)
  refine hbind.of_eq ?_ fun _ => rfl
  rw [Target.modify, eval, bind_assoc, Yields.bind_eq (means_id hname), bind_assoc,
    Yields.bind_eq (means_evalAll hes)]
  simp only [if_true, hfunction, invoke, bind_assoc, pure_bind]
  rfl

/-- A modifying call whose result is not used. -/
theorem Acts.modify (h : ∀ (p : Val × Val) (t : State), t.frame = s.frame →
      Acts (block c more) (t.set name p.1) (f p))
    (hname : s.get? name = some u) (hes : List.Forall₂ (Means c s) es vs)
    (hfunction : c.functions.contains function = true) :
    Acts (block c (.expr (Target.modify (Target.id name) function es) :: more)) s
      (invoke c function (u :: vs) >>= f) := by
  rw [block_expr]
  exact acts_modify hname hes hfunction h

/-- A modifying call whose result is bound to a variable. -/
theorem Acts.varModify {other : String}
    (h : ∀ (p : Val × Val) (t : State), t.frame = s.frame →
      Acts (block c more) ((t.set name p.1).set other p.2) (f p))
    (hname : s.get? name = some u) (hes : List.Forall₂ (Means c s) es vs)
    (hfunction : c.functions.contains function = true) :
    Acts (block c (Target.var (Target.id other) (Target.modify (Target.id name) function es) :: more))
      s (invoke c function (u :: vs) >>= f) := by
  rw [Target.var, block_varDef]
  refine acts_modify hname hes hfunction fun p t ht => (h p t ht).of_eq ?_ fun _ => rfl
  refine Yields.bind_eq (a := ()) ?_
  rw [Target.id, yields_bind_ident, State.assign_of_declare]

end Modify

/-- Reading from a variable by a function of the target, where the result is not used. -/
theorem Acts.read {slice : String} {b b' : Slice} (h : Acts (block c more) (s.set slice (.slice b')) x)
    (hc : c.Plain) (hname : name ∈ Target.builtins) (hs : s.get? slice = some (.slice b))
    (hes : List.Forall₂ (Means c s) es vs) (hread : Primitive.read name b vs = .ok (b', v)) :
    Acts (block c (.expr (Target.modify (Target.id slice) name es) :: more)) s x :=
  h.step (yields_expr.2 ⟨rfl, v, yields_read hc hname hs hes hread⟩) fun _ => rfl

theorem acts_read_error {slice : String} {b : Slice} {fault : Fault} (hc : c.Plain)
    (hname : name ∈ Target.builtins) (hs : s.get? slice = some (.slice b))
    (hes : List.Forall₂ (Means c s) es vs) (hread : Primitive.read name b vs = .error fault) :
    Acts (block c (.expr (Target.modify (Target.id slice) name es) :: more)) s (throw fault) := by
  have hcontains : c.functions.contains name = false := Dict.contains_eq_false_iff.2 (hc name hname)
  have hmodify : Primitive.modify name (.slice b :: vs) = .error fault := by
    change (Primitive.read name b vs).bind _ = _
    rw [hread]
    rfl
  refine acts_throw ?_
  rw [block_expr, Target.modify, eval, bind_assoc, Yields.bind_eq (means_id hs), bind_assoc,
    Yields.bind_eq (means_evalAll hes)]
  simp only [if_true, hcontains, Bool.false_eq_true, if_false, hmodify]
  rfl

end Acts

/-! ### Calls -/

/-- The run of a function whose body is known. -/
theorem Code.Has.call_eq {name : String} {params : List String} {body : List Target.Stmt}
    {args : List Val} {x : Run Val} (h : c.Has name params body) (hlength : params.length = args.length)
    (hbody : ∀ s : State, Acts (block c body) (s.enter params args) x) : call c name args = x := by
  obtain ⟨signature, hget, rfl⟩ := h
  funext s
  have hacts := congrArg (Option.map fun p => (p.1.map (·.getD .unit), p.2)) (hbody s s.frame)
  rw [map_apply, Option.map_map, Option.map_map] at hacts
  rw [List.length_map] at hlength
  rw [call_function hget hlength]
  refine hacts.trans ?_
  change Option.map _ (x s) = x s
  cases x s with
  | none => rfl
  | some p =>
    obtain ⟨r | r, t⟩ := p <;> rfl

end Machine

end CellCompiler
