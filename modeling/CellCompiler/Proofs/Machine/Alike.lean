import CellCompiler.Proofs.Machine.Likeness
import CellCompiler.Proofs.Machine.Outcomes

/-!
# Modules that run alike

* `Likeness.Runs.bind_pattern` and `Likeness.Runs.builtin` are about what needs no code;
* every form of statement and of expression has a rule that puts like runs of its parts together
  (`Likeness.Runs.varDef` up to `Likeness.Runs.lookup`);
* `Alike` relates two modules that have the same functions among some names, when these functions
  call only these names. If the function that replaces the data of the contract is not among them,
  then data keeps a property;
* `Alike.call` and `Alike.block` are the result, by induction on how far the first run has got.
-/

namespace CellCompiler

namespace Machine

open Target (stmtCallees calleesOf)

variable {L : Likeness} {K : Cell → Prop} {known : String → Prop} {c₁ c₂ : Code}

namespace Likeness

/-! ### Patterns -/

theorem Runs.bindLeaf {declare : Bool} {v w : Val} (h : L.val v w) (pattern : Target.Expr) :
    L.Runs K (fun _ _ => True) (Machine.bindLeaf declare v pattern) (Machine.bindLeaf declare w pattern) := by
  unfold Machine.bindLeaf
  split
  · exact .pure trivial
  · exact .onState fun s t hst => hst.assign declare _ h
  · exact .throw (L.fault_refl _)

theorem Runs.bindLeaves {declare : Bool} {vs ws : List Val} (h : List.Forall₂ L.val vs ws)
    (patterns : List Target.Expr) : L.Runs K (fun _ _ => True)
      (Machine.bindLeaves declare patterns vs) (Machine.bindLeaves declare patterns ws) := by
  induction h generalizing patterns with
  | nil => cases patterns <;> exact .pure trivial
  | cons hv _ ih =>
    cases patterns with
    | nil => exact .pure trivial
    | cons p ps => exact (Runs.bindLeaf hv p).bind fun _ _ _ => ih ps

mutual

theorem Runs.bind_pattern {declare : Bool} {v w : Val} (h : L.val v w) : (pattern : Target.Expr) →
    L.Runs K (fun _ _ => True) (Machine.bind declare v pattern) (Machine.bind declare w pattern)
  | .tensor patterns => by
    have hone : L.Runs K (fun _ _ => True) (Machine.bindAll declare [v] patterns)
        (Machine.bindAll declare [w] patterns) := Runs.bind_patterns (.cons h .nil) patterns
    have hspread : L.Runs K (fun _ _ => True)
        (if v.flatten.length = (leafPatternsOf patterns).length then
          Machine.bindLeaves declare (leafPatternsOf patterns) v.flatten
        else MonadExcept.throw (.bug (.spread v.flatten.length (.tensor patterns))))
        (if w.flatten.length = (leafPatternsOf patterns).length then
          Machine.bindLeaves declare (leafPatternsOf patterns) w.flatten
        else MonadExcept.throw (.bug (.spread w.flatten.length (.tensor patterns)))) := by
      have hflat := L.flatten h
      rw [hflat.length_eq]
      split
      · exact .bindLeaves hflat _
      · exact .throw (L.fault_refl _)
    rcases L.cases h with ⟨vs, ws, rfl, rfl, hvs⟩ | ⟨hv, hw⟩
    · simp only [Machine.bind, hvs.length_eq]
      split
      · exact Runs.bind_patterns hvs patterns
      · split
        · exact hone
        · exact hspread
    · have hother : ∀ {v : Val}, (∀ vs, v ≠ .tensor vs) → Machine.bind declare v (.tensor patterns) =
          if patterns.length = 1 then bindAll declare [v] patterns
          else if v.flatten.length = (leafPatternsOf patterns).length then
            Machine.bindLeaves declare (leafPatternsOf patterns) v.flatten
          else MonadExcept.throw (.bug (.spread v.flatten.length (.tensor patterns))) := by
        intro v hv
        rw [Machine.bind]
        exact hv
      rw [hother hv, hother hw]
      split
      · exact hone
      · exact hspread
  | .int _ | .bool _ | .ident _ | .hole | .call .. | .methodCall .. | .assign .. | .augmentedAssign ..
  | .ternary .. | .binary .. | .unary .. | .tuple _ => by
    simp only [Machine.bind]
    exact .bindLeaf h _

theorem Runs.bind_patterns {declare : Bool} {vs ws : List Val} (h : List.Forall₂ L.val vs ws) :
    (patterns : List Target.Expr) →
    L.Runs K (fun _ _ => True) (Machine.bindAll declare vs patterns) (Machine.bindAll declare ws patterns)
  | [] => by cases h <;> exact .pure trivial
  | p :: ps => by
    cases h with
    | nil => exact .pure trivial
    | cons hv hvs => exact (Runs.bind_pattern hv p).bind fun _ _ _ => Runs.bind_patterns hvs ps

end

theorem Runs.builtin {host : Host} {name : String} {vs ws : List Val} (h : List.Forall₂ L.val vs ws)
    (hwriter : name = Target.dataWriter → ∀ cell, K cell) :
    L.Runs K L.val (Machine.builtin host name vs) (Machine.builtin host name ws) := by
  have hprimitive : L.Runs K L.val (Machine.ofExcept (Primitive.call host name vs))
      (Machine.ofExcept (Primitive.call host name ws)) := .ofExcept (L.call h)
  cases h with
  | nil =>
    by_cases hget : name = "get_data"
    · subst hget
      intro s p hrun t hst
      obtain rfl := Option.some.inj hrun
      exact ⟨(.ok (.cell t.data), t), rfl, .ok (hst.data ▸ L.refl _), hst⟩
    · simpa [Machine.builtin, hget] using hprimitive
  | @cons v w vs ws hv hrest =>
    by_cases hset : name = Target.dataWriter ∧ vs = []
    · obtain ⟨rfl, rfl⟩ := hset
      cases hrest
      refine (Runs.ofExcept (L.asCell hv)).bind fun a b hab => ?_
      subst hab
      refine Runs.bind (R := fun _ _ => True) (.onState fun s t hst => ?_) fun _ _ _ => .pure (L.refl _)
      exact ⟨hst.frame, hst.globals, rfl, hwriter rfl a⟩
    · have hother : ∀ {v vs}, ¬(name = Target.dataWriter ∧ vs = []) →
          Machine.builtin host name (v :: vs) = Machine.ofExcept (Primitive.call host name (v :: vs)) := by
        intro v vs hset
        rw [Machine.builtin]
        · simp
        · rintro c rfl heq
          exact hset ⟨rfl, (List.cons.inj heq).2⟩
      rw [hother hset, hother (by rwa [← List.length_eq_zero_iff, ← hrest.length_eq, List.length_eq_zero_iff])]
      exact hprimitive

/-- Runs that go on only when nothing is returned. -/
theorem Runs.unlessReturned {x y k k' : Run (Option Val)} (h : L.Runs K (Option.Rel L.val) x y)
    (hk : L.Runs K (Option.Rel L.val) k k') :
    L.Runs K (Option.Rel L.val)
      (x >>= fun r => match r with
        | some v => Pure.pure (some v)
        | none => k)
      (y >>= fun r => match r with
        | some v => Pure.pure (some v)
        | none => k') := by
  refine h.bind fun r r' hr => ?_
  cases hr with
  | some hv => exact .pure (.some hv)
  | none => exact hk

/-- Runs that a condition chooses. -/
theorem Runs.onCondition {α β : Type} {R : α → β → Prop} {x y : Run Val} {k : Bool → Run α} {k' : Bool → Run β}
    (h : L.Runs K L.val x y) (hk : ∀ hit, L.Runs K R (k hit) (k' hit)) :
    L.Runs K R (do k (← Machine.ofExcept (← x).truthy)) (do k' (← Machine.ofExcept (← y).truthy)) := by
  refine h.bind fun v w hvw => (Runs.ofExcept (L.truthy hvw)).bind fun a b hab => ?_
  subst hab
  exact hk a

/-- Runs whose exceptions are caught; failures that are none go through. -/
theorem Runs.catching {x y : Run (Option Val)} {f g : Nat → Run (Option Val)}
    (h : L.Runs K (Option.Rel L.val) x y) (hf : ∀ n, L.Runs K (Option.Rel L.val) (f n) (g n)) :
    L.Runs K (Option.Rel L.val)
      (do
        match ← x.run with
        | .error (.exit n) => (f n).run
        | other => return other : StateT State Option (Except Fault (Option Val)))
      (do
        match ← y.run with
        | .error (.exit n) => (g n).run
        | other => return other : StateT State Option (Except Fault (Option Val))) := by
  intro s p hrun t hst
  obtain ⟨⟨r, u⟩, hx, hrest⟩ := Option.bind_eq_some_iff.1 hrun
  obtain ⟨⟨r', u'⟩, hy, hr, hu⟩ := h s _ hx t hst
  change ∃ q, (y t).bind _ = some q ∧ _
  rw [hy]
  cases hr with
  | ok hab =>
    obtain rfl := Option.some.inj hrest
    exact ⟨_, rfl, .ok hab, hu⟩
  | error he =>
    rcases L.exit he with ⟨n, rfl, rfl⟩ | ⟨b, b', rfl, rfl⟩
    · exact hf n u p hrest u' hu
    · obtain rfl := Option.some.inj hrest
      exact ⟨_, rfl, .error he, hu⟩

/-! ### Forms of code -/

section Forms

variable {x y x' y' : Run Val} {a b a' b' : Run (Option Val)}

theorem Runs.ret (h : L.Runs K L.val x y) :
    L.Runs K (Option.Rel L.val) (do return some (← x)) (do return some (← y)) :=
  h.bind fun _ _ hvw => .pure (.some hvw)

theorem Runs.expr (h : L.Runs K L.val x y) :
    L.Runs K (Option.Rel L.val)
      (do let _ ← x
          return none)
      (do let _ ← y
          return none) :=
  h.bind fun _ _ _ => .pure .none

theorem Runs.varDef (h : L.Runs K L.val x y) (binding : Target.Expr) :
    L.Runs K (Option.Rel L.val)
      (do let v ← x
          Machine.bind true v binding
          return none)
      (do let w ← y
          Machine.bind true w binding
          return none) :=
  h.bind fun _ _ hvw => (Runs.bind_pattern hvw binding).bind fun _ _ _ => .pure .none

theorem Runs.repeatLoop {f g : Nat → Run (Option Val)} (h : L.Runs K L.val x y)
    (hloop : ∀ n, L.Runs K (Option.Rel L.val) (f n) (g n)) :
    L.Runs K (Option.Rel L.val)
      (do let n ← Machine.ofExcept (← x).asInt
          f (repetitions n))
      (do let n ← Machine.ofExcept (← y).asInt
          g (repetitions n)) := by
  refine h.bind fun v w hvw => (Runs.ofExcept (L.asInt hvw)).bind fun i j hij => ?_
  subst hij
  exact hloop _

theorem Runs.whileLoop (hcond : L.Runs K L.val x y) (hbody : L.Runs K (Option.Rel L.val) a b)
    (hloop : L.Runs K (Option.Rel L.val) a' b') :
    L.Runs K (Option.Rel L.val)
      (do if ← Machine.ofExcept (← x).truthy then
            match ← a with
            | some v => return some v
            | none => a'
          else return none)
      (do if ← Machine.ofExcept (← y).truthy then
            match ← b with
            | some v => return some v
            | none => b'
          else return none) := by
  refine .onCondition hcond fun hit => ?_
  cases hit with
  | true => exact .unlessReturned hbody hloop
  | false => exact .pure .none

theorem Runs.untilLoop (hbody : L.Runs K (Option.Rel L.val) a b) (hcond : L.Runs K L.val x y)
    (hloop : L.Runs K (Option.Rel L.val) a' b') :
    L.Runs K (Option.Rel L.val)
      (do match ← a with
          | some v => return some v
          | none => if ← Machine.ofExcept (← x).truthy then return none else a')
      (do match ← b with
          | some v => return some v
          | none => if ← Machine.ofExcept (← y).truthy then return none else b') := by
  refine .unlessReturned hbody (.onCondition hcond fun hit => ?_)
  cases hit with
  | true => exact .pure .none
  | false => exact hloop

theorem Runs.conditional {negated : Bool} (hcond : L.Runs K L.val x y)
    (hbody : L.Runs K (Option.Rel L.val) a b) (hotherwise : L.Runs K (Option.Rel L.val) a' b') :
    L.Runs K (Option.Rel L.val)
      (do let hit ← Machine.ofExcept (← x).truthy
          if hit != negated then a else a')
      (do let hit ← Machine.ofExcept (← y).truthy
          if hit != negated then b else b') := by
  refine .onCondition hcond fun hit => ?_
  split
  · exact hbody
  · exact hotherwise

/-- The handler gets the code of the exception. -/
theorem Runs.tryCatch (hbody : L.Runs K (Option.Rel L.val) a b) (binding : Target.Expr)
    (hhandler : L.Runs K (Option.Rel L.val) a' b') :
    L.Runs K (Option.Rel L.val)
      (do
        match ← a.run with
        | .error (.exit n) => (Machine.bind true (.tensor [.null, .int n]) binding >>= fun _ => a').run
        | other => return other : StateT State Option (Except Fault (Option Val)))
      (do
        match ← b.run with
        | .error (.exit n) => (Machine.bind true (.tensor [.null, .int n]) binding >>= fun _ => b').run
        | other => return other : StateT State Option (Except Fault (Option Val))) :=
  .catching hbody fun _ => (Runs.bind_pattern (L.refl _) binding).bind fun _ _ _ => hhandler

theorem Runs.binary {op : Target.BinaryOp} (h : L.Runs K L.val x y) (h' : L.Runs K L.val x' y') :
    L.Runs K L.val
      (do let v ← x
          let v' ← x'
          Machine.ofExcept (Primitive.binary op v v'))
      (do let w ← y
          let w' ← y'
          Machine.ofExcept (Primitive.binary op w w')) :=
  h.bind fun _ _ hvw => h'.bind fun _ _ hvw' => .ofExcept (L.binary hvw hvw')

theorem Runs.unary {op : Target.UnaryOp} (h : L.Runs K L.val x y) :
    L.Runs K L.val
      (do let v ← x
          Machine.ofExcept (Primitive.unary op v))
      (do let w ← y
          Machine.ofExcept (Primitive.unary op w)) :=
  h.bind fun _ _ hvw => .ofExcept (L.unary hvw)

theorem Runs.ternary (hcond : L.Runs K L.val x y) {z z' : Run Val} (htrue : L.Runs K L.val x' y')
    (hfalse : L.Runs K L.val z z') :
    L.Runs K L.val
      (do if ← Machine.ofExcept (← x).truthy then x' else z)
      (do if ← Machine.ofExcept (← y).truthy then y' else z') := by
  refine .onCondition hcond fun hit => ?_
  cases hit with
  | true => exact htrue
  | false => exact hfalse

theorem Runs.assign (h : L.Runs K L.val x y) (lhs : Target.Expr) :
    L.Runs K L.val
      (do let v ← x
          Machine.bind false v lhs
          return v)
      (do let w ← y
          Machine.bind false w lhs
          return w) :=
  h.bind fun _ _ hvw => (Runs.bind_pattern hvw lhs).bind fun _ _ _ => .pure hvw

theorem Runs.augmentedAssign {op : Target.BinaryOp} (h : L.Runs K L.val x y) (h' : L.Runs K L.val x' y')
    (lhs : Target.Expr) :
    L.Runs K L.val
      (do let v ← x
          let v' ← x'
          let r ← Machine.ofExcept (Primitive.binary op v v')
          Machine.bind false r lhs
          return r)
      (do let w ← y
          let w' ← y'
          let r ← Machine.ofExcept (Primitive.binary op w w')
          Machine.bind false r lhs
          return r) :=
  h.bind fun _ _ hvw => h'.bind fun _ _ hvw' => .assign (.ofExcept (L.binary hvw hvw')) lhs

/-- The first part of a pair replaces the receiver, and the second one is the result. -/
theorem Runs.update {p q : Except Fault (Val × Val)} (h : ResultRel L.fault (PairRel L.val) p q)
    (receiver : Target.Expr) :
    L.Runs K L.val
      (do let (updated, result) ← Machine.ofExcept p
          Machine.bind false updated receiver
          return result)
      (do let (updated, result) ← Machine.ofExcept q
          Machine.bind false updated receiver
          return result) :=
  (Runs.ofExcept h).bind fun _ _ hpq => (Runs.bind_pattern hpq.1 receiver).bind fun _ _ _ => .pure hpq.2

/-- A method that is defined or built in, and may replace its receiver. -/
theorem Runs.methodCall {xs ys : Run (List Val)} {f g : List Val → Run Val} {modifying defined : Bool}
    (h : L.Runs K L.val x y) (hargs : L.Runs K (List.Forall₂ L.val) xs ys)
    (hcall : ∀ vs ws, List.Forall₂ L.val vs ws → L.Runs K L.val (f vs) (g ws))
    (receiver : Target.Expr) (method : String) :
    L.Runs K L.val
      (do let v ← x
          let vs ← xs
          if modifying then
            if defined then
              let (updated, result) ← Machine.ofExcept (Machine.pair (← f (v :: vs)))
              Machine.bind false updated receiver
              return result
            else
              let (updated, result) ← Machine.ofExcept (Primitive.modify method (v :: vs))
              Machine.bind false updated receiver
              return result
          else f (v :: vs))
      (do let w ← y
          let ws ← ys
          if modifying then
            if defined then
              let (updated, result) ← Machine.ofExcept (Machine.pair (← g (w :: ws)))
              Machine.bind false updated receiver
              return result
            else
              let (updated, result) ← Machine.ofExcept (Primitive.modify method (w :: ws))
              Machine.bind false updated receiver
              return result
          else g (w :: ws)) := by
  refine h.bind fun v w hvw => hargs.bind fun vs ws hvs => ?_
  have hresult := hcall _ _ (.cons hvw hvs)
  split
  · split
    · exact hresult.bind fun _ _ hr => .update (L.pair hr) receiver
    · exact .update (L.modifying (.cons hvw hvs)) receiver
  · exact hresult

/-- The body of a function runs in variables of its own. -/
theorem Runs.function (h : L.Runs K (Option.Rel L.val) a b) (signature : Target.Signature)
    {vs ws : List Val} (hvs : List.Forall₂ L.val vs ws) :
    L.Runs K L.val
      (do
        let s ← get
        set { s with frame := arguments signature vs }
        let result ← a.run
        modify fun s' => { s' with frame := s.frame }
        return result.map (·.getD .unit) : StateT State Option (Except Fault Val))
      (do
        let s ← get
        set { s with frame := arguments signature ws }
        let result ← b.run
        modify fun s' => { s' with frame := s.frame }
        return result.map (·.getD .unit) : StateT State Option (Except Fault Val)) := by
  have hframe : L.Entries (arguments signature vs).entries (arguments signature ws).entries :=
    (Entries.zip hvs).ofList
  refine .inFrame hframe h fun r r' hr => hr.map fun v w hvw => ?_
  cases hvw with
  | some hvw => exact hvw
  | none => exact L.refl _

/-- What is not a variable may be a constant, whose value is found in no variables at all. -/
theorem Runs.lookup {f g : Target.Expr → Run Val} {constant : Option Target.Expr} (name : String)
    (h : ∀ e, constant = some e → L.Runs K L.val (f e) (g e)) :
    L.Runs K L.val
      (do let s ← getThe State
          match (s.frame.get? name).or (s.globals.get? name) with
          | some v => return v
          | none =>
            match constant with
            | some e => (do
              set { s with frame := Dict.empty }
              let result ← (f e).run
              modify fun s' => { s' with frame := s.frame }
              return result : StateT State Option (Except Fault Val))
            | none => MonadExcept.throw (.bug (.unbound name)))
      (do let s ← getThe State
          match (s.frame.get? name).or (s.globals.get? name) with
          | some v => return v
          | none =>
            match constant with
            | some e => (do
              set { s with frame := Dict.empty }
              let result ← (g e).run
              modify fun s' => { s' with frame := s.frame }
              return result : StateT State Option (Except Fault Val))
            | none => MonadExcept.throw (.bug (.unbound name))) := by
  refine .withState fun s t hst p hp => ?_
  have hfound := hst.found name
  generalize (s.frame.get? name).or (s.globals.get? name) = v?,
    (t.frame.get? name).or (t.globals.get? name) = w? at hfound hp ⊢
  cases hfound with
  | some hvw => exact (Runs.pure hvw) s p hp t hst
  | none =>
    cases constant with
    | none => exact (Runs.throw (L.fault_refl _)) s p hp t hst
    | some e =>
      exact (h e rfl).inFrame (f := fun r => r) (g := fun r => r) .nil (fun _ _ hr => hr) s p hp t hst

end Forms

end Likeness

/-! ### Approximations -/

/-- A function of code runs like another one wherever the code calls only known names. -/
def Agrees (L : Likeness) (K : Cell → Prop) (known : String → Prop) {α β γ : Type} (names : α → List String)
    (R : β → γ → Prop) (f : α → Run β) (g : α → Run γ) : Prop :=
  ∀ a s p, f a s = some p → (∀ n ∈ names a, known n) → L.Follows K R (g a) s p

/-- The same for a function of two pieces of code. -/
def Agrees₂ (L : Likeness) (K : Cell → Prop) (known : String → Prop) {α β γ δ : Type}
    (names : α → β → List String) (R : γ → δ → Prop) (f : α → β → Run γ) (g : α → β → Run δ) : Prop :=
  ∀ a b s p, f a b s = some p → (∀ n ∈ names a b, known n) → L.Follows K R (g a b) s p

/-- A function calls functions of a module like another one. -/
def AgreesOnCalls (L : Likeness) (K : Cell → Prop) (known : String → Prop) (f g : String → List Val → Run Val) :
    Prop :=
  ∀ name vs s p, f name vs s = some p → known name → ∀ ws, List.Forall₂ L.val vs ws →
    L.Follows K L.val (g name ws) s p

section Agreement

variable {α β γ δ ε : Type} {names : α → List String} {R : γ → δ → Prop} {f : α → Run γ} {g : α → Run δ} {a : α}

theorem Agrees.of_runs (h : ∀ a, (∀ n ∈ names a, known n) → L.Runs K R (f a) (g a)) :
    Agrees L K known names R f g := fun a s p hp hnames => h a hnames s p hp

/-- Code whose callees are among known ones. -/
theorem Agrees.runs (h : Agrees L K known names R f g) {more : List String} (hmore : ∀ n ∈ more, known n)
    (hnames : names a ⊆ more) : L.Runs K R (f a) (g a) :=
  fun s p hp => h a s p hp fun n hn => hmore n (hnames hn)

variable {names₂ : α → β → List String} {f₂ : α → β → Run γ} {g₂ : α → β → Run δ} {b : β}

theorem Agrees₂.of_runs (h : ∀ a b, (∀ n ∈ names₂ a b, known n) → L.Runs K R (f₂ a b) (g₂ a b)) :
    Agrees₂ L K known names₂ R f₂ g₂ := fun a b s p hp hnames => h a b hnames s p hp

theorem Agrees₂.runs (h : Agrees₂ L K known names₂ R f₂ g₂) {more : List String}
    (hmore : ∀ n ∈ more, known n) (hnames : names₂ a b ⊆ more) : L.Runs K R (f₂ a b) (g₂ a b) :=
  fun s p hp => h a b s p hp fun n hn => hmore n (hnames hn)

variable {call call' : String → List Val → Run Val} {name : String} {vs ws : List Val}

theorem AgreesOnCalls.of_runs
    (h : ∀ name vs ws, known name → List.Forall₂ L.val vs ws → L.Runs K L.val (call name vs) (call' name ws)) :
    AgreesOnCalls L K known call call' := fun name vs s p hp hname ws hvs => h name vs ws hname hvs s p hp

theorem AgreesOnCalls.runs (h : AgreesOnCalls L K known call call') (hname : known name)
    (hvs : List.Forall₂ L.val vs ws) : L.Runs K L.val (call name vs) (call' name ws) :=
  fun s p hp => h name vs s p hp hname ws hvs

end Agreement

section Approximations

variable {α β γ δ σ X : Type} {le : Option X → Option X → Prop}

/-- Where the limit of partial functions has a value, one of them has it. -/
theorem exists_approximation {f : α → Option X} {stages : (α → Option X) → Prop}
    (hle : ∀ x y, le x y ↔ x = none ∨ x = y)
    (hf : ∀ g : α → Option X, (∀ a, le (f a) (g a)) ↔ ∀ z, stages z → ∀ a, le (z a) (g a)) {a : α} {p : X}
    (h : f a = some p) : ∃ z, stages z ∧ z a = some p := by
  classical
  by_contra hno
  have hbelow : ∀ z, stages z → ∀ b, le (z b) (f b) := (hf f).1 fun _ => (hle _ _).2 (.inr rfl)
  -- Without the value in question the function would still be an upper bound.
  have hcut := (hf (Function.update f a none)).2 ?_ a
  · simp [hle, h] at hcut
  · intro z hz b
    by_cases hb : b = a
    · subst hb
      rcases (hle _ _).1 (hbelow z hz b) with hnone | hsome
      · simp [hle, hnone]
      · exact absurd ⟨z, hz, hsome.trans h⟩ hno
    · simpa [Function.update_of_ne hb] using hbelow z hz b

/-- What holds of the values of all approximations of a partial function holds of its values. -/
theorem holds_of_approximations {stages : (α → σ → Option X) → Prop}
    (hle : ∀ x y, le x y ↔ x = none ∨ x = y)
    (hsup : ∃ f : α → σ → Option X, ∀ g : α → σ → Option X,
      (∀ a s, le (f a s) (g a s)) ↔ ∀ z, stages z → ∀ a s, le (z a s) (g a s))
    {Q : α → σ → X → Prop} (hall : ∀ z, stages z → ∀ a s p, z a s = some p → Q a s p) :
    ∀ a s p, Classical.choose hsup a s = some p → Q a s p := by
  intro a s p h
  have hspec : ∀ g : α × σ → Option X,
      (∀ i : α × σ, le (Classical.choose hsup i.1 i.2) (g i)) ↔
        ∀ z : α × σ → Option X, stages (fun a s => z (a, s)) → ∀ i, le (z i) (g i) := by
    intro g
    simp only [Prod.forall]
    rw [Classical.choose_spec hsup fun a s => g (a, s)]
    exact ⟨fun h z hz => h _ hz, fun h z hz => h (fun i => z i.1 i.2) hz⟩
  obtain ⟨z, hz, hp⟩ := exists_approximation (a := (a, s)) hle hspec h
  exact hall _ hz a s p hp

/-- The same of a partial function with one more argument. -/
theorem holds_of_approximations₂ {stages : (α → β → σ → Option X) → Prop}
    (hle : ∀ x y, le x y ↔ x = none ∨ x = y)
    (hsup : ∃ f : α → β → σ → Option X, ∀ g : α → β → σ → Option X,
      (∀ a b s, le (f a b s) (g a b s)) ↔ ∀ z, stages z → ∀ a b s, le (z a b s) (g a b s))
    {Q : α → β → σ → X → Prop} (hall : ∀ z, stages z → ∀ a b s p, z a b s = some p → Q a b s p) :
    ∀ a b s p, Classical.choose hsup a b s = some p → Q a b s p := by
  intro a b s p h
  have hspec : ∀ g : α × β × σ → Option X,
      (∀ i : α × β × σ, le (Classical.choose hsup i.1 i.2.1 i.2.2) (g i)) ↔
        ∀ z : α × β × σ → Option X, stages (fun a b s => z (a, b, s)) → ∀ i, le (z i) (g i) := by
    intro g
    simp only [Prod.forall]
    rw [Classical.choose_spec hsup fun a b s => g (a, b, s)]
    exact ⟨fun h z hz => h _ hz, fun h z hz => h (fun i => z i.1 i.2.1 i.2.2) hz⟩
  obtain ⟨z, hz, hp⟩ := exists_approximation (a := (a, b, s)) hle hspec h
  exact hall _ hz a b s p hp

end Approximations

/-! ### The induction -/

/-- The modules have the same functions under the known names, and these call only known names. -/
structure Alike (K : Cell → Prop) (known : String → Prop) (c₁ c₂ : Code) : Prop where
  functions : ∀ name, known name → c₁.functions.get? name = c₂.functions.get? name
  callees : ∀ name item, known name → c₁.functions.get? name = some item →
    ∀ callee ∈ item.callees, known callee
  constants : c₁.constants = c₂.constants
  constantCallees : ∀ name e, c₁.constants.get? name = some e → ∀ callee ∈ e.callees, known callee
  host : c₁.host = c₂.host
  /-- Data may be replaced only by data with the property. -/
  writer : known Target.dataWriter → ∀ cell, K cell

namespace Alike

/-- The approximations of a run agree with the other run, whatever they have got to. -/
theorem agrees (L : Likeness) (h : Alike K known c₁ c₂) :
    AgreesOnCalls L K known (call c₁) (call c₂) ∧
    Agrees L K known stmtCallees (Option.Rel L.val) (block c₁) (block c₂) ∧
    Agrees L K known (·.callees) (Option.Rel L.val) (stmt c₁) (stmt c₂) ∧
    Agrees₂ L K known (fun body cond => cond.callees ++ stmtCallees body) (Option.Rel L.val)
      (untilLoop c₁) (untilLoop c₂) ∧
    Agrees L K known (·.callees) L.val (eval c₁) (eval c₂) ∧
    Agrees L K known calleesOf (List.Forall₂ L.val) (evalAll c₁) (evalAll c₂) ∧
    Agrees L K known (fun _ => []) L.val (lookup c₁) (lookup c₂) ∧
    Agrees₂ L K known (fun cond body => cond.callees ++ stmtCallees body) (Option.Rel L.val)
      (whileLoop c₁) (whileLoop c₂) ∧
    Agrees₂ L K known (fun body _ => stmtCallees body) (Option.Rel L.val) (repeatLoop c₁) (repeatLoop c₂) ∧
    Agrees L K known (·.callees) (Option.Rel L.val) (conditional c₁) (conditional c₂) := by
  refine Code.call.mutual_fixpoint_induct c₁ (fun f => AgreesOnCalls L K known f (call c₂))
    (fun f => Agrees L K known stmtCallees (Option.Rel L.val) f (block c₂))
    (fun f => Agrees L K known (·.callees) (Option.Rel L.val) f (stmt c₂))
    (fun f => Agrees₂ L K known (fun body cond => cond.callees ++ stmtCallees body) (Option.Rel L.val) f (untilLoop c₂))
    (fun f => Agrees L K known (·.callees) L.val f (eval c₂))
    (fun f => Agrees L K known calleesOf (List.Forall₂ L.val) f (evalAll c₂))
    (fun f => Agrees L K known (fun _ => []) L.val f (lookup c₂))
    (fun f => Agrees₂ L K known (fun cond body => cond.callees ++ stmtCallees body) (Option.Rel L.val) f (whileLoop c₂))
    (fun f => Agrees₂ L K known (fun body _ => stmtCallees body) (Option.Rel L.val) f (repeatLoop c₂))
    (fun f => Agrees L K known (·.callees) (Option.Rel L.val) f (conditional c₂))
    ?_ ?_ ?_ ?_ ?_ ?_ ?_ ?_ ?_ ?_ ?_ ?_ ?_ ?_ ?_ ?_ ?_ ?_ ?_ ?_
  -- a property that the approximations have is one of the run itself, for each of the ten functions
  iterate 10
    · first
      | exact fun _ _ hall => holds_of_approximations (fun _ _ => ⟨fun h => by cases h <;> simp, by
          rintro (rfl | rfl) <;> constructor⟩) _ hall
      | exact fun _ _ hall => holds_of_approximations₂ (fun _ _ => ⟨fun h => by cases h <;> simp, by
          rintro (rfl | rfl) <;> constructor⟩) _ hall
  -- calls
  · intro block hblock
    refine .of_runs fun name vs ws hname hvs => ?_
    rw [Code.call, ← h.functions name hname, hvs.length_eq]
    split
    · next signature body hget =>
      split
      · exact .function (hblock.runs (h.callees name _ hname hget) (by simp)) signature hvs
      · exact .throw (L.fault_refl _)
    · exact .ofExcept (L.asm hvs)
    · exact .throw (L.fault_refl _)
    · rw [h.host]
      exact .builtin hvs fun heq => h.writer (heq ▸ hname)
  -- blocks
  · intro block stmt hblock hstmt
    refine .of_runs fun body hbody => ?_
    rw [Code.block.eq_def]
    cases body with
    | nil => exact .pure .none
    | cons s rest => exact .unlessReturned (hstmt.runs hbody (by simp)) (hblock.runs hbody (by simp))
  -- statements, each form by its own lemma
  · intro block untilLoop eval whileLoop repeatLoop conditional hblock huntil heval hwhile hrepeat hconditional
    refine .of_runs fun stmt hstmt => ?_
    rw [Code.stmt.eq_def]
    cases stmt with
    | block body => exact hblock.runs hstmt (by simp)
    | ret value =>
      cases value with
      | none => exact .pure (.some (L.refl _))
      | some e => exact .ret (heval.runs hstmt (by simp))
    | expr e => exact .expr (heval.runs hstmt (by simp))
    | varDef ty binding init =>
      cases init with
      | none => exact .varDef (.pure (L.refl .null)) binding
      | some e => exact .varDef (heval.runs hstmt (by simp)) binding
    | ifThen branch => exact hconditional.runs hstmt (by simp)
    | repeatLoop count body =>
      exact .repeatLoop (heval.runs hstmt (by simp)) fun _ => hrepeat.runs hstmt (by simp)
    | whileLoop cond body => exact hwhile.runs hstmt (by simp)
    | untilLoop body cond => exact huntil.runs hstmt (by simp)
    | tryCatch body binding handler =>
      exact .tryCatch (hblock.runs hstmt (by simp)) binding (hblock.runs hstmt (by simp))
  -- loops that are left when a condition holds
  · intro block untilLoop eval hblock huntil heval
    refine .of_runs fun body cond hnames => ?_
    rw [Code.untilLoop]
    exact .untilLoop (hblock.runs hnames (by simp)) (heval.runs hnames (by simp)) (huntil.runs hnames (by simp))
  -- expressions, each form by its own lemma
  · intro call eval evalAll lookup hcall heval hevalAll hlookup
    refine .of_runs fun e he => ?_
    rw [Code.eval.eq_def]
    cases e with
    | int n | bool b => exact .pure (L.refl _)
    | ident name => exact hlookup.runs he (by simp)
    | hole => exact .throw (L.fault_refl _)
    | call callee args =>
      exact (hevalAll.runs he (by simp)).bind fun _ _ hvs => hcall.runs (he callee (by simp)) hvs
    | methodCall receiver method args modifying =>
      have hmethod : known method := he method (by simp)
      have hdefined : c₁.functions.contains method = c₂.functions.contains method := by
        rw [Dict.contains, h.functions method hmethod, Dict.contains]
      simp only [hdefined]
      exact .methodCall (heval.runs he (by simp)) (hevalAll.runs he (by simp))
        (fun _ _ hvs => hcall.runs hmethod hvs) receiver method
    | assign lhs rhs => exact .assign (heval.runs he (by simp)) lhs
    | augmentedAssign lhs op rhs =>
      exact .augmentedAssign (heval.runs he (by simp)) (heval.runs he (by simp)) lhs
    | ternary cond onTrue onFalse =>
      exact .ternary (heval.runs he (by simp)) (heval.runs he (by simp)) (heval.runs he (by simp))
    | binary op lhs rhs => exact .binary (heval.runs he (by simp)) (heval.runs he (by simp))
    | unary op operand => exact .unary (heval.runs he (by simp))
    | tensor items => exact (hevalAll.runs he (by simp)).bind fun _ _ hvs => .pure (L.tensor hvs)
    | tuple items => exact (hevalAll.runs he (by simp)).bind fun _ _ hvs => .pure (L.tuple hvs)
  -- lists of expressions
  · intro eval evalAll heval hevalAll
    refine .of_runs fun es hes => ?_
    rw [Code.evalAll.eq_def]
    cases es with
    | nil => exact .pure .nil
    | cons e rest =>
      exact (heval.runs hes (by simp)).bind fun _ _ hvw => (hevalAll.runs hes (by simp)).bind fun _ _ hvs =>
        .pure (.cons hvw hvs)
  -- names
  · intro eval heval
    refine .of_runs fun name _ => ?_
    rw [Code.lookup, ← h.constants]
    exact .lookup name fun e hget => heval.runs (h.constantCallees name e hget) (by simp)
  -- loops that go on while a condition holds
  · intro block eval whileLoop hblock heval hwhile
    refine .of_runs fun cond body hnames => ?_
    rw [Code.whileLoop]
    exact .whileLoop (heval.runs hnames (by simp)) (hblock.runs hnames (by simp)) (hwhile.runs hnames (by simp))
  -- repetitions, whose number is the same on both sides
  · intro block repeatLoop hblock hrepeat
    refine .of_runs fun body n hnames => ?_
    rw [Code.repeatLoop.eq_def]
    cases n with
    | zero => exact .pure .none
    | succ n => exact .unlessReturned (hblock.runs hnames (by simp)) (hrepeat.runs hnames (by simp))
  -- branches
  · intro block eval conditional hblock heval hconditional
    refine .of_runs fun branch hbranch => ?_
    obtain ⟨cond, body, otherwise, negated⟩ := branch
    rw [Code.conditional.eq_def]
    refine .conditional (heval.runs hbranch (by simp)) (hblock.runs hbranch (by simp)) ?_
    cases otherwise with
    | absent => exact .pure .none
    | block body => exact hblock.runs hbranch (by simp)
    | chain next => exact hconditional.runs hbranch (by simp)

variable {name : String} {vs ws : List Val} {body : List Target.Stmt} {es : List Target.Expr}

/-- **Like calls of modules that are alike do like things.** -/
theorem call (L : Likeness) (h : Alike K known c₁ c₂) (hname : known name) (hvs : List.Forall₂ L.val vs ws) :
    L.Runs K L.val (Code.call c₁ name vs) (Code.call c₂ name ws) := (h.agrees L).1.runs hname hvs

theorem block (L : Likeness) (h : Alike K known c₁ c₂) (hbody : ∀ n ∈ stmtCallees body, known n) :
    L.Runs K (Option.Rel L.val) (Code.block c₁ body) (Code.block c₂ body) :=
  (h.agrees L).2.1.runs hbody (by simp)

theorem evalAll (L : Likeness) (h : Alike K known c₁ c₂) (hes : ∀ n ∈ calleesOf es, known n) :
    L.Runs K (List.Forall₂ L.val) (Code.evalAll c₁ es) (Code.evalAll c₂ es) :=
  (h.agrees L).2.2.2.2.2.1.runs hes (by simp)

/-- The run of a module that has the same functions, in the same state. -/
theorem call_eq (h : Alike (fun _ => True) known c₁ c₂) (hname : known name) {s : State}
    {p : Except Fault Val × State} (hrun : Code.call c₁ name vs s = some p) :
    Code.call c₂ name vs s = some p := by
  obtain ⟨⟨r, t⟩, hrun', hr, ht⟩ := h.call .equal hname (List.forall₂_same.2 fun _ _ => rfl) s p hrun s
    (.refl trivial)
  rw [hrun', Option.some.injEq, Prod.mk.injEq]
  exact ⟨hr.eq.symm, ht.eq.symm⟩

theorem symm (h : Alike K known c₁ c₂) : Alike K known c₂ c₁ where
  functions := fun name hname => (h.functions name hname).symm
  callees := fun name item hname hget => h.callees name item hname (h.functions name hname ▸ hget)
  constants := h.constants.symm
  constantCallees := fun name e hget => h.constantCallees name e (h.constants ▸ hget)
  host := h.host.symm
  writer := h.writer

/-- Functions that call only functions that both modules have do the same. -/
theorem funext (h : Alike (fun _ => True) known c₁ c₂) (hname : known name) :
    Code.call c₁ name vs = Code.call c₂ name vs := by
  funext s
  cases hrun : Code.call c₁ name vs s with
  | some p => exact (h.call_eq hname hrun).symm
  | none =>
    cases hrun' : Code.call c₂ name vs s with
    | some p =>
      rw [h.symm.call_eq hname hrun'] at hrun
      simp at hrun
    | none => rfl

end Alike

/-! ### Data that is kept -/

/-- The run keeps the data of the contract. -/
def Retains {α : Type} (x : Run α) : Prop := ∀ s r s', x s = some (r, s') → s'.data = s.data

/-- The run keeps the data of the contract unless it ends with a value. -/
def RollsBack {α : Type} (x : Run α) : Prop := ∀ s e s', x s = some (.error e, s') → s'.data = s.data

section

variable {α β : Type} {x : Run α} {f : α → Run β}

theorem retains_ofExcept {x : Except Fault α} : Retains (ofExcept x) := by
  intro s r s' h
  cases x with
  | ok a =>
    obtain ⟨-, rfl⟩ := Prod.mk.injEq .. ▸ Option.some.inj h
    rfl
  | error e =>
    obtain ⟨-, rfl⟩ := Prod.mk.injEq .. ▸ Option.some.inj h
    rfl

theorem Retains.rollsBack (hx : Retains x) : RollsBack x := fun s e s' h => hx s (.error e) s' h

theorem rollsBack_throw {e : Fault} : RollsBack (throw e : Run α) :=
  (retains_ofExcept (x := .error e)).rollsBack

theorem Retains.bind (hx : Retains x) (hf : ∀ a, RollsBack (f a)) : RollsBack (x >>= f) := by
  intro s e s'' h
  rw [bind_apply, Option.bind_eq_some_iff] at h
  obtain ⟨⟨r, s'⟩, hrun, hrest⟩ := h
  cases r with
  | error e' =>
    obtain ⟨-, rfl⟩ := Prod.mk.injEq .. ▸ Option.some.inj hrest
    exact hx s _ s' hrun
  | ok a => exact (hf a s' e s'' hrest).trans (hx s _ s' hrun)

/-- What comes after the run cannot fail. -/
theorem RollsBack.bind_pure {g : α → β} (hx : RollsBack x) : RollsBack (x >>= fun a => pure (g a)) := by
  intro s e s'' h
  rw [bind_apply, Option.bind_eq_some_iff] at h
  obtain ⟨⟨r, s'⟩, hrun, hrest⟩ := h
  cases r with
  | error e' =>
    obtain ⟨-, rfl⟩ := Prod.mk.injEq .. ▸ Option.some.inj hrest
    exact hx s e' s' hrun
  | ok a => cases (Prod.mk.inj (Option.some.inj hrest)).1

theorem rollsBack_builtin {host : Host} {name : String} {vs : List Val} :
    RollsBack (builtin host name vs) := by
  unfold builtin
  split
  · exact fun s e s' h => by cases (Prod.mk.inj (Option.some.inj h)).1
  · refine retains_ofExcept.bind fun data => ?_
    exact fun s e s' h => by cases h
  · exact retains_ofExcept.rollsBack

/-- A call keeps the data unless it ends with a value, if the body of the function does. -/
theorem rollsBack_call {c : Code} {name : String} {vs : List Val}
    (h : ∀ signature body, c.functions.get? name = some (.function signature body) →
      RollsBack (Code.block c body)) : RollsBack (Code.call c name vs) := by
  cases hget : c.functions.get? name with
  | none =>
    rw [Code.call, hget]
    exact rollsBack_builtin
  | some item =>
    cases item with
    | function signature body =>
      by_cases hlength : signature.params.length = vs.length
      · intro s e s' hrun
        rw [call_function hget hlength, Option.map_eq_some_iff] at hrun
        obtain ⟨⟨r, t⟩, hbody, heq⟩ := hrun
        obtain ⟨hr, rfl⟩ := Prod.mk.injEq .. ▸ heq
        cases r with
        | error e' =>
          have hdata := h signature body hget _ e' t hbody
          exact hdata
        | ok _ => simp [Except.map] at hr
      · rw [Code.call, hget]
        simp only [hlength, if_false]
        exact rollsBack_throw
    | asm =>
      rw [Code.call, hget]
      exact retains_ofExcept.rollsBack
    | _ =>
      rw [Code.call, hget]
      exact rollsBack_throw

end

/-- Code from which the data of the contract cannot be replaced: the known names call only known ones,
and the function that replaces it is not among them. -/
structure Code.Calm (c : Code) (known : String → Prop) : Prop where
  callees : ∀ name item, known name → c.functions.get? name = some item → ∀ callee ∈ item.callees, known callee
  constants : ∀ name e, c.constants.get? name = some e → ∀ callee ∈ e.callees, known callee
  writer : ¬ known Target.dataWriter

namespace Code.Calm

variable {c : Code} {body : List Target.Stmt} {es : List Target.Expr}

theorem alike (h : c.Calm known) : Alike K known c c where
  functions := fun _ _ => rfl
  callees := h.callees
  constants := rfl
  constantCallees := h.constants
  host := rfl
  writer := fun hwriter => absurd hwriter h.writer

/-- **Calm code keeps the data**, whatever comes of it. -/
theorem block (h : c.Calm known) (hbody : ∀ n ∈ stmtCallees body, known n) : Retains (Code.block c body) := by
  intro s r s' hrun
  obtain ⟨_, _, _, hstates⟩ := (h.alike (K := (· = s.data))).block .equal hbody s _ hrun s (.refl rfl)
  exact hstates.holds

theorem evalAll (h : c.Calm known) (hes : ∀ n ∈ calleesOf es, known n) : Retains (Code.evalAll c es) := by
  intro s r s' hrun
  obtain ⟨_, _, _, hstates⟩ := (h.alike (K := (· = s.data))).evalAll .equal hes s _ hrun s (.refl rfl)
  exact hstates.holds

/-- After calm code a call may replace the data as the last thing that is done. -/
theorem block_call (h : c.Calm known) {name : String} (hbody : ∀ n ∈ stmtCallees body, known n)
    (hes : ∀ n ∈ calleesOf es, known n) (hcall : ∀ vs, RollsBack (Code.call c name vs)) :
    RollsBack (Code.block c (body ++ [.expr (.call name es)])) := by
  rw [block_append]
  refine (h.block hbody).bind fun r => ?_
  cases r with
  | some v => exact (retains_ofExcept (x := .ok (some v))).rollsBack
  | none =>
    have heval : RollsBack (Code.eval c (.call name es)) := by
      rw [Code.eval]
      exact (h.evalAll hes).bind hcall
    rw [block_expr, Code.block]
    exact heval.bind_pure

end Code.Calm

end Machine

end CellCompiler
