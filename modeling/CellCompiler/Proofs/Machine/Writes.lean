import CellCompiler.Proofs.Machine.Alike
import CellCompiler.Proofs.Machine.Keeping

/-!
# What code assigns to

* `Expr.writes` and `stmtWrites` list the variables that expressions and statements bind or assign
  to, at any depth;
* `State.Leaves names s s'` says that `s'` has all variables of `s`, and the same values in those that
  are not listed; `Touches names x` says that the run `x` leads to such a state, whatever comes of it;
* `Touches.varDef` up to `Touches.lookup` say it of every form of statement and of expression, when it
  holds of the parts;
* `code_touches` is the result: code touches only what it assigns to. It is by induction on how far the
  run has got, since nothing else decreases in a loop.
-/

namespace CellCompiler

namespace Target

mutual

/-- The variables that an expression assigns to. -/
@[simp] def Expr.writes : Expr → List String
  | .int _ | .bool _ | .ident _ | .hole => []
  | .call _ args => writesOf args
  | .methodCall receiver _ args modifying =>
    receiver.writes ++ writesOf args ++ if modifying then receiver.boundNames else []
  | .assign lhs rhs => rhs.writes ++ lhs.boundNames
  | .augmentedAssign lhs _ rhs => lhs.writes ++ rhs.writes ++ lhs.boundNames
  | .binary _ lhs rhs => lhs.writes ++ rhs.writes
  | .ternary cond onTrue onFalse => cond.writes ++ onTrue.writes ++ onFalse.writes
  | .unary _ operand => operand.writes
  | .tensor items | .tuple items => writesOf items

/-- The variables that several expressions assign to. -/
@[simp] def writesOf : List Expr → List String
  | [] => []
  | e :: es => e.writes ++ writesOf es

end

/-- The variables that an expression assigns to, if there is one. -/
@[simp] def writesOfOption : Option Expr → List String
  | none => []
  | some e => e.writes

mutual

/-- The variables that a statement binds or assigns to. -/
@[simp] def Stmt.writes : Stmt → List String
  | .block body => stmtWrites body
  | .ret value => writesOfOption value
  | .expr e => e.writes
  | .varDef _ binding init => writesOfOption init ++ binding.boundNames
  | .ifThen branch => branch.writes
  | .repeatLoop e body | .whileLoop e body => e.writes ++ stmtWrites body
  | .untilLoop body e => stmtWrites body ++ e.writes
  | .tryCatch body binding handler => stmtWrites body ++ binding.boundNames ++ stmtWrites handler

/-- The variables that a condition and what depends on it assign to. -/
@[simp] def Conditional.writes : Conditional → List String
  | .mk cond body otherwise _ => cond.writes ++ stmtWrites body ++ otherwise.writes

/-- The variables that an alternative assigns to. -/
@[simp] def Otherwise.writes : Otherwise → List String
  | .absent => []
  | .block body => stmtWrites body
  | .chain branch => branch.writes

/-- The variables that several statements assign to. -/
@[simp] def stmtWrites : List Stmt → List String
  | [] => []
  | s :: ss => s.writes ++ stmtWrites ss

end

@[simp] theorem mem_writesOf {x : String} {es : List Expr} :
    x ∈ writesOf es ↔ ∃ e ∈ es, x ∈ e.writes := by
  induction es with
  | nil => simp
  | cons e es ih => simp [ih]

@[simp] theorem stmtWrites_append {ss ts : List Stmt} :
    stmtWrites (ss ++ ts) = stmtWrites ss ++ stmtWrites ts := by
  induction ss with
  | nil => rfl
  | cons s ss ih => simp [ih]

end Target

namespace Machine

open Target (stmtWrites writesOf writesOfOption)

variable {α β γ : Type} {c : Code} {names more : List String}

/-! ### Runs -/

/-- No variable of the current function is gone, and only listed ones differ. -/
structure State.Leaves (names : List String) (s s' : State) : Prop where
  kept : s.Keeps (· ∈ names) s'
  bound : ∀ x, (s.get? x).isSome → (s'.get? x).isSome

section Leaves

variable {s s' s'' : State}

theorem State.Leaves.trans (h : s.Leaves names s') (h' : s'.Leaves names s'') : s.Leaves names s'' :=
  ⟨h.kept.trans h'.kept, fun x hx => h'.bound x (h.bound x hx)⟩

theorem State.Leaves.mono (h : s.Leaves names s') (hmore : names ⊆ more) : s.Leaves more s' :=
  ⟨h.kept.mono fun _ hx => hmore hx, h.bound⟩

theorem State.leaves_of_frame_eq (h : s'.frame = s.frame) : s.Leaves names s' := by
  refine ⟨State.keeps_of_frame_eq h, fun x hx => ?_⟩
  rwa [State.get?, h]

theorem State.leaves_assign {declare : Bool} {name : String} {v : Val} (h : name ∈ names) :
    s.Leaves names (s.assign declare name v) := by
  unfold State.assign
  split
  · exact State.leaves_of_frame_eq rfl
  · refine ⟨(State.frames_set (v := v)).keeps.mono fun x hx => hx ▸ h, fun x hx => ?_⟩
    change (((s.set name v).get? x)).isSome
    rw [State.get?_set]
    split
    · rfl
    · exact hx

end Leaves

/-- Whatever comes of the run, it changes none but the listed variables of the current function. -/
def Touches (names : List String) (x : Run α) : Prop :=
  ∀ s p, x s = some p → s.Leaves names p.2

namespace Touches

variable {x : Run α} {f : α → Run β}

theorem mono (h : Touches names x) (hmore : names ⊆ more) : Touches more x :=
  fun s p hp => (h s p hp).mono hmore

theorem bind (hx : Touches names x) (hf : ∀ a, Touches names (f a)) : Touches names (x >>= f) := by
  intro s p hp
  rw [bind_apply, Option.bind_eq_some_iff] at hp
  obtain ⟨⟨r, t⟩, hrun, hrest⟩ := hp
  cases r with
  | error e =>
    obtain rfl := Option.some.inj hrest
    exact hx s _ hrun
  | ok a => exact (hx s _ hrun).trans (hf a t p hrest)

/-- A run that has no part in the variables. -/
theorem of_frameless (hx : Frameless x) : Touches names x := by
  rintro s ⟨r, t⟩ hrun
  exact State.leaves_of_frame_eq (hx.frame_eq hrun)

theorem pure {a : α} : Touches names (Pure.pure a : Run α) := of_frameless frameless_pure

theorem throw {e : Fault} : Touches names (MonadExcept.throw e : Run α) := of_frameless frameless_throw

theorem ofExcept {x : Except Fault α} : Touches names (Machine.ofExcept x) :=
  of_frameless frameless_ofExcept

/-- A run in variables of its own leaves the others as they are. -/
theorem inFrame {s : State} {frame : Dict Val}
    {g : Except Fault α → Except Fault β} {p : Except Fault β × State}
    (h : (do
      set { s with frame }
      let result ← x.run
      modify fun s' => { s' with frame := s.frame }
      return g result : StateT State Option (Except Fault β)) s = some p) :
    s.Leaves names p.2 := by
  obtain ⟨⟨r, t⟩, -, hrest⟩ := Option.bind_eq_some_iff.1
    (show (x { s with frame }).bind _ = some p from h)
  obtain rfl := Option.some.inj hrest
  exact State.leaves_of_frame_eq rfl

/-- A run that goes on only when nothing is returned. -/
theorem unlessReturned {x k : Run (Option Val)} (hx : Touches names x) (hk : Touches names k) :
    Touches names (x >>= fun r =>
      match r with
      | some v => Pure.pure (some v)
      | none => k) := by
  refine hx.bind fun r => ?_
  cases r with
  | some v => exact .pure
  | none => exact hk

/-- A run that a condition chooses. -/
theorem onCondition {x : Run Val} {k : Bool → Run α} (hx : Touches names x)
    (hk : ∀ hit, Touches names (k hit)) : Touches names (do k (← Machine.ofExcept (← x).truthy)) :=
  hx.bind fun _ => ofExcept.bind hk

/-- A run whose exceptions are caught. -/
theorem catching {x : Run (Option Val)} {f : Nat → Run (Option Val)} (hx : Touches names x)
    (hf : ∀ n, Touches names (f n)) : Touches names
    (do
      match ← x.run with
      | .error (.exit n) => (f n).run
      | other => return other : StateT State Option (Except Fault (Option Val))) := by
  intro s p hp
  obtain ⟨⟨r, t⟩, hrun, hrest⟩ := Option.bind_eq_some_iff.1 (show (x s).bind _ = some p from hp)
  have hleaves := hx s _ hrun
  match r with
  | .error (.exit n) => exact hleaves.trans (hf n t p hrest)
  | .error (.bug b) | .ok v =>
    obtain rfl := Option.some.inj hrest
    exact hleaves

end Touches

/-! ### Patterns -/

theorem assign_touches {declare : Bool} {name : String} {v : Val} (h : name ∈ names) :
    Touches names (modify fun s => s.assign declare name v : Run Unit) := by
  intro s p hp
  obtain rfl := Option.some.inj hp
  exact State.leaves_assign h

theorem bindLeaf_touches {declare : Bool} {v : Val} {pattern : Target.Expr}
    (h : pattern.boundNames ⊆ names) : Touches names (bindLeaf declare v pattern) := by
  unfold bindLeaf
  split
  · exact .pure
  · exact assign_touches (h (by simp [Target.Expr.boundNames]))
  · exact .throw

theorem bindLeaves_touches {declare : Bool} {patterns : List Target.Expr} {vs : List Val}
    (h : ∀ e ∈ patterns, e.boundNames ⊆ names) : Touches names (bindLeaves declare patterns vs) := by
  induction patterns generalizing vs with
  | nil => exact .pure
  | cons e es ih =>
    obtain ⟨he, hes⟩ := List.forall_mem_cons.1 h
    cases vs with
    | nil => exact .pure
    | cons v vs => exact (bindLeaf_touches he).bind fun _ => ih hes

mutual

theorem boundNames_leafPatterns : (e : Target.Expr) → e.boundNames ⊆ names →
    ∀ leaf ∈ leafPatterns e, leaf.boundNames ⊆ names
  | .tensor items => by
    rw [leafPatterns, Target.Expr.boundNames]
    exact boundNames_leafPatternsOf items
  | .int _ | .bool _ | .ident _ | .hole | .call .. | .methodCall .. | .assign .. | .augmentedAssign ..
  | .ternary .. | .binary .. | .unary .. | .tuple _ => by simp [leafPatterns]

theorem boundNames_leafPatternsOf : (es : List Target.Expr) → Target.Expr.boundNamesOf es ⊆ names →
    ∀ leaf ∈ leafPatternsOf es, leaf.boundNames ⊆ names
  | [] => by simp [leafPatternsOf]
  | e :: es => by
    rw [leafPatternsOf, Target.Expr.boundNamesOf, List.append_subset, List.forall_mem_append]
    exact And.imp (boundNames_leafPatterns e) (boundNames_leafPatternsOf es)

end

mutual

/-- Binding a pattern touches its variables. -/
theorem bind_touches {declare : Bool} {v : Val} : (pattern : Target.Expr) →
    pattern.boundNames ⊆ names → Touches names (Machine.bind declare v pattern)
  | .tensor patterns, h => by
    rw [Target.Expr.boundNames] at h
    have hall : ∀ vs, Touches names (bindAll declare vs patterns) := fun _ => bindAll_touches patterns h
    have hspread : Touches names
        (if v.flatten.length = (leafPatternsOf patterns).length then
          bindLeaves declare (leafPatternsOf patterns) v.flatten
        else MonadExcept.throw (.bug (.spread v.flatten.length (.tensor patterns)))) := by
      split
      · exact bindLeaves_touches (boundNames_leafPatternsOf patterns h)
      · exact .throw
    unfold Machine.bind
    split
    · split_ifs <;> first | exact hall _ | exact hspread
    · split_ifs <;> first | exact hall _ | exact hspread
  | .int _, h | .bool _, h | .ident _, h | .hole, h | .call .., h | .methodCall .., h | .assign .., h
  | .augmentedAssign .., h | .ternary .., h | .binary .., h | .unary .., h | .tuple _, h => by
    simp only [Machine.bind]
    exact bindLeaf_touches h

theorem bindAll_touches {declare : Bool} {vs : List Val} : (patterns : List Target.Expr) →
    Target.Expr.boundNamesOf patterns ⊆ names → Touches names (bindAll declare vs patterns)
  | [], _ => by cases vs <;> exact .pure
  | e :: es, h => by
    rw [Target.Expr.boundNamesOf, List.append_subset] at h
    cases vs with
    | nil => exact .pure
    | cons v vs => exact (bind_touches e h.1).bind fun _ => bindAll_touches es h.2

end

/-! ### Forms of code -/

namespace Touches

variable {x y : Run Val} {a b : Run (Option Val)}

theorem varDef {binding : Target.Expr} (hx : Touches names x) (hbinding : binding.boundNames ⊆ names) :
    Touches names (do
      let v ← x
      Machine.bind true v binding
      return (none : Option Val)) :=
  hx.bind fun _ => (bind_touches binding hbinding).bind fun _ => .pure

theorem repeatLoop {f : Nat → Run (Option Val)} (hx : Touches names x) (hloop : ∀ n, Touches names (f n)) :
    Touches names (do
      let n ← Machine.ofExcept (← x).asInt
      f (repetitions n)) :=
  hx.bind fun _ => ofExcept.bind fun _ => hloop _

theorem whileLoop (hcond : Touches names x) (hbody : Touches names a) (hloop : Touches names b) :
    Touches names (do
      if ← Machine.ofExcept (← x).truthy then
        match ← a with
        | some v => return some v
        | none => b
      else return none) := by
  refine .onCondition hcond fun hit => ?_
  cases hit with
  | true => exact .unlessReturned hbody hloop
  | false => exact .pure

theorem untilLoop (hbody : Touches names a) (hcond : Touches names x) (hloop : Touches names b) :
    Touches names (do
      match ← a with
      | some v => return some v
      | none => if ← Machine.ofExcept (← x).truthy then return none else b) := by
  refine .unlessReturned hbody (.onCondition hcond fun hit => ?_)
  cases hit with
  | true => exact .pure
  | false => exact hloop

theorem conditional {negated : Bool} (hcond : Touches names x) (hbody : Touches names a)
    (hotherwise : Touches names b) :
    Touches names (do
      let hit ← Machine.ofExcept (← x).truthy
      if hit != negated then a else b) := by
  refine .onCondition hcond fun hit => ?_
  split
  · exact hbody
  · exact hotherwise

theorem tryCatch {binding : Target.Expr} (hbody : Touches names a) (hbinding : binding.boundNames ⊆ names)
    (hhandler : Touches names b) :
    Touches names (do
      match ← a.run with
      | .error (.exit n) => (Machine.bind true (.tensor [.null, .int n]) binding >>= fun _ => b).run
      | other => return other : StateT State Option (Except Fault (Option Val))) :=
  .catching hbody fun _ => (bind_touches binding hbinding).bind fun _ => hhandler

theorem ternary {z : Run Val} (hcond : Touches names x) (htrue : Touches names y) (hfalse : Touches names z) :
    Touches names (do if ← Machine.ofExcept (← x).truthy then y else z) := by
  refine .onCondition hcond fun hit => ?_
  cases hit with
  | true => exact htrue
  | false => exact hfalse

theorem assign {lhs : Target.Expr} (hx : Touches names x) (hlhs : lhs.boundNames ⊆ names) :
    Touches names (do
      let v ← x
      Machine.bind false v lhs
      return v) :=
  hx.bind fun _ => (bind_touches lhs hlhs).bind fun _ => .pure

theorem augmentedAssign {op : Target.BinaryOp} {lhs : Target.Expr} (hx : Touches names x)
    (hy : Touches names y) (hlhs : lhs.boundNames ⊆ names) :
    Touches names (do
      let v ← x
      let w ← y
      let r ← Machine.ofExcept (Primitive.binary op v w)
      Machine.bind false r lhs
      return r) :=
  hx.bind fun _ => hy.bind fun _ => ofExcept.assign hlhs

/-- The first part of a pair replaces the receiver. -/
theorem update {p : Except Fault (Val × Val)} {receiver : Target.Expr} (h : receiver.boundNames ⊆ names) :
    Touches names (do
      let (updated, result) ← Machine.ofExcept p
      Machine.bind false updated receiver
      return result) :=
  ofExcept.bind fun _ => (bind_touches receiver h).bind fun _ => .pure

/-- Only a call that modifies its receiver touches it. -/
theorem methodCall {xs : Run (List Val)} {f : List Val → Run Val} {receiver : Target.Expr} {method : String}
    {modifying defined : Bool} (hx : Touches names x) (hargs : Touches names xs)
    (hcall : ∀ vs, Touches names (f vs))
    (hreceiver : (if modifying then receiver.boundNames else []) ⊆ names) :
    Touches names (do
      let v ← x
      let vs ← xs
      if modifying then
        if defined then
          let (updated, result) ← Machine.ofExcept (Machine.pair (← f (v :: vs)))
          Machine.bind false updated receiver
          return result
        else
          let (updated, result) ← Machine.ofExcept (Primitive.modify method (v :: vs))
          Machine.bind false updated receiver
          return result
      else f (v :: vs)) := by
  refine hx.bind fun v => hargs.bind fun vs => ?_
  split
  · next hmodifying =>
    rw [if_pos hmodifying] at hreceiver
    split
    · exact (hcall _).bind fun _ => .update hreceiver
    · exact .update hreceiver
  · exact hcall _

/-- The body of a function has variables of its own. -/
theorem function {frame : Dict Val} {g : Except Fault (Option Val) → Except Fault Val} :
    Touches names (do
      let s ← get
      set { s with frame }
      let result ← a.run
      modify fun s' => { s' with frame := s.frame }
      return g result : StateT State Option (Except Fault Val)) := fun _ _ hp => inFrame hp

/-- The value of a constant is found in variables of its own. -/
theorem lookup {f : Target.Expr → Run Val} {constant : Option Target.Expr} {name : String} :
    Touches names (do
      let s ← getThe State
      match (s.frame.get? name).or (s.globals.get? name) with
      | some v => return v
      | none =>
        match constant with
        | some e => (do
          set { s with frame := Dict.empty }
          let result ← (f e).run
          modify fun s' => { s' with frame := s.frame }
          return result : StateT State Option (Except Fault Val))
        | none => MonadExcept.throw (.bug (.unbound name))) := by
  intro s p hp
  change (match (s.frame.get? name).or (s.globals.get? name) with
    | some v => Pure.pure v
    | none => _ : Run Val) s = some p at hp
  generalize (s.frame.get? name).or (s.globals.get? name) = v? at hp
  cases v? with
  | some v => exact Touches.pure s p hp
  | none =>
    cases constant with
    | some e => exact inFrame hp
    | none => exact Touches.throw s p hp

end Touches

/-! ### Code -/

/-- A function of code touches only what the code assigns to. -/
def Touching (writes : α → List String) (f : α → Run β) : Prop := ∀ a s p, f a s = some p →
  s.Leaves (writes a) p.2

/-- The same for a function of two arguments. -/
def Touching₂ (writes : α → β → List String) (f : α → β → Run γ) : Prop := ∀ a b s p,
  f a b s = some p → s.Leaves (writes a b) p.2

theorem Touching.touches {writes : α → List String} {f : α → Run β} (h : Touching writes f) {a : α}
    (hnames : writes a ⊆ names) : Touches names (f a) :=
  Touches.mono (h a) hnames

theorem Touching₂.touches {writes : α → β → List String} {f : α → β → Run γ} (h : Touching₂ writes f)
    {a : α} {b : β} (hnames : writes a b ⊆ names) : Touches names (f a b) :=
  Touches.mono (h a b) hnames

/-- Approximations of a run touch only what the code assigns to, whatever they have got to. -/
theorem code_touches (c : Code) :
    Touching₂ (fun _ _ => []) (call c) ∧
    Touching stmtWrites (block c) ∧
    Touching (·.writes) (stmt c) ∧
    Touching₂ (fun body cond => stmtWrites body ++ cond.writes) (untilLoop c) ∧
    Touching (·.writes) (eval c) ∧
    Touching writesOf (evalAll c) ∧
    Touching (fun _ => []) (lookup c) ∧
    Touching₂ (fun cond body => cond.writes ++ stmtWrites body) (whileLoop c) ∧
    Touching₂ (fun body _ => stmtWrites body) (repeatLoop c) ∧
    Touching (·.writes) (conditional c) := by
  refine Code.call.mutual_fixpoint_induct c (Touching₂ fun _ _ => []) (Touching stmtWrites)
    (Touching (·.writes)) (Touching₂ fun body cond => stmtWrites body ++ cond.writes) (Touching (·.writes))
    (Touching writesOf) (Touching fun _ => []) (Touching₂ fun cond body => cond.writes ++ stmtWrites body)
    (Touching₂ fun body _ => stmtWrites body) (Touching (·.writes))
    ?_ ?_ ?_ ?_ ?_ ?_ ?_ ?_ ?_ ?_ ?_ ?_ ?_ ?_ ?_ ?_ ?_ ?_ ?_ ?_
  -- a property that the approximations have is one of the run itself, for each of the ten functions
  iterate 10
    · first
      | exact fun _ _ hall => holds_of_approximations (fun _ _ => ⟨fun h => by cases h <;> simp, by
          rintro (rfl | rfl) <;> constructor⟩) _ hall
      | exact fun _ _ hall => holds_of_approximations₂ (fun _ _ => ⟨fun h => by cases h <;> simp, by
          rintro (rfl | rfl) <;> constructor⟩) _ hall
  -- calls, which have variables of their own
  · intro block hblock name args
    change Touches _ _
    beta_reduce
    split
    · split
      · exact .function
      · exact .throw
    · exact .ofExcept
    · exact .throw
    · exact .of_frameless frameless_builtin
  -- blocks
  · intro block stmt hblock hstmt body
    change Touches _ _
    cases body with
    | nil => exact .pure
    | cons s rest => exact .unlessReturned (hstmt.touches (by simp)) (hblock.touches (by simp))
  -- statements, each form by its own lemma
  · intro block untilLoop eval whileLoop repeatLoop conditional hblock huntil heval hwhile hrepeat hconditional stmt
    change Touches _ _
    cases stmt with
    | block body => exact hblock.touches (by simp)
    | ret value =>
      cases value with
      | none => exact .pure
      | some e => exact (heval.touches (by simp)).bind fun _ => .pure
    | expr e => exact (heval.touches (by simp)).bind fun _ => .pure
    | varDef ty binding init =>
      cases init with
      | none => exact .varDef .pure (by simp)
      | some e => exact .varDef (heval.touches (by simp)) (by simp)
    | ifThen branch => exact hconditional.touches (by simp)
    | repeatLoop count body => exact .repeatLoop (heval.touches (by simp)) fun _ => hrepeat.touches (by simp)
    | whileLoop cond body => exact hwhile.touches (by simp)
    | untilLoop body cond => exact huntil.touches (by simp)
    | tryCatch body binding handler =>
      exact .tryCatch (hblock.touches (by simp)) (by simp) (hblock.touches (by simp))
  -- loops that are left when a condition holds
  · intro block untilLoop eval hblock huntil heval body cond
    exact Touches.untilLoop (hblock.touches (by simp)) (heval.touches (by simp)) (huntil.touches (by simp))
  -- expressions, each form by its own lemma
  · intro call eval evalAll lookup hcall heval hevalAll hlookup e
    change Touches _ _
    cases e with
    | int n | bool b => exact .pure
    | ident name => exact hlookup.touches (by simp)
    | hole => exact .throw
    | call callee args => exact (hevalAll.touches (by simp)).bind fun _ => hcall.touches (by simp)
    | methodCall receiver method args modifying =>
      exact .methodCall (heval.touches (by simp)) (hevalAll.touches (by simp)) (fun _ => hcall.touches (by simp))
        (by simp)
    | assign lhs rhs => exact .assign (heval.touches (by simp)) (by simp)
    | augmentedAssign lhs op rhs =>
      exact .augmentedAssign (heval.touches (by simp)) (heval.touches (by simp)) (by simp)
    | ternary cond onTrue onFalse =>
      exact .ternary (heval.touches (by simp)) (heval.touches (by simp)) (heval.touches (by simp))
    | binary op lhs rhs =>
      exact (heval.touches (by simp)).bind fun _ => (heval.touches (by simp)).bind fun _ => .ofExcept
    | unary op operand => exact (heval.touches (by simp)).bind fun _ => .ofExcept
    | tensor items | tuple items => exact (hevalAll.touches (by simp)).bind fun _ => .pure
  -- lists of expressions
  · intro eval evalAll heval hevalAll es
    change Touches _ _
    cases es with
    | nil => exact .pure
    | cons e rest =>
      exact (heval.touches (by simp)).bind fun _ => (hevalAll.touches (by simp)).bind fun _ => .pure
  -- names
  · intro eval heval name
    exact Touches.lookup
  -- loops that go on while a condition holds
  · intro block eval whileLoop hblock heval hwhile cond body
    exact Touches.whileLoop (heval.touches (by simp)) (hblock.touches (by simp)) (hwhile.touches (by simp))
  -- repetitions
  · intro block repeatLoop hblock hrepeat body n
    change Touches _ _
    cases n with
    | zero => exact .pure
    | succ n => exact .unlessReturned (hblock.touches (by simp)) (hrepeat.touches (by simp))
  -- branches
  · rintro block eval conditional hblock heval hconditional ⟨cond, body, otherwise, negated⟩
    refine Touches.conditional (heval.touches (by simp)) (hblock.touches (by simp)) ?_
    cases otherwise with
    | absent => exact .pure
    | block body => exact hblock.touches (by simp)
    | chain next => exact hconditional.touches (by simp)

variable {s s' : State} {r : Option Val} {v : Val} {body : List Target.Stmt} {e : Target.Expr}

/-- **Statements change only the variables that they assign to.** -/
theorem block_leaves (h : Yields (block c body) s r s') : s.Leaves (stmtWrites body) s' :=
  (code_touches c).2.1 body s _ h

end Machine

end CellCompiler
