import CellCompiler.Proofs.Machine.Helpers
import CellCompiler.Proofs.Machine.Outcomes

/-!
# Runs that come to an end

A run may never end. The short functions that codecs call do, with a value or with a fault.

* `Settles c s e` says that an expression has a value and no effects or stops the run. Calls of the
  functions of the target keep it (`Settles.primitive`), as do conditionals;
* `Ends c s body` says the same of the statements of a function, and `Code.Has.cases` of its call;
* `call_storeAddress_cases` is about the helper that checks an address and stores it.
-/

namespace CellCompiler

namespace Machine

variable {c : Code} {s : State} {e : Target.Expr} {es : List Target.Expr} {name : String}

/-! ### Expressions -/

/-- The run stops with a fault. -/
def Faults {α : Type} (x : Run α) (s : State) : Prop := ∃ f t, x s = some (.error f, t)

theorem Faults.bind {α β : Type} {x : Run α} (h : Faults x s) (k : α → Run β) :
    Faults (x >>= k) s := by
  obtain ⟨f, t, hx⟩ := h
  exact ⟨f, t, by rw [bind_apply, hx]; rfl⟩

theorem Yields.faults_bind {α β : Type} {x : Run α} {a : α} {t : State} {k : α → Run β}
    (h : Yields x s a t) (hk : Faults (k a) t) : Faults (x >>= k) s := by
  obtain ⟨f, u, hk⟩ := hk
  exact ⟨f, u, by rw [h.bind_eq, hk]⟩

/-- A step that does not depend on the state gives something or stops the run. -/
theorem ofExcept_cases {α : Type} (x : Except Fault α) :
    (∃ a, Yields (ofExcept x) s a s) ∨ Faults (ofExcept x) s := by
  cases x with
  | ok a => exact .inl ⟨a, rfl⟩
  | error f => exact .inr ⟨f, s, rfl⟩

/-- The expression has a value and no effects, or it stops the run. -/
def Settles (c : Code) (s : State) (e : Target.Expr) : Prop :=
  (∃ v, Means c s e v) ∨ Faults (eval c e) s

theorem Means.settles {v : Val} (h : Means c s e v) : Settles c s e := .inl ⟨v, h⟩

theorem evalAll_cases (h : ∀ e ∈ es, Settles c s e) :
    (∃ vs, List.Forall₂ (Means c s) es vs) ∨ Faults (evalAll c es) s := by
  induction es with
  | nil => exact .inl ⟨[], .nil⟩
  | cons e es ih =>
    rw [List.forall_mem_cons] at h
    rw [evalAll]
    obtain ⟨v, hv⟩ | hfault := h.1
    · obtain ⟨vs, hvs⟩ | hfault := ih h.2
      · exact .inl ⟨v :: vs, .cons hv hvs⟩
      · exact .inr (hv.faults_bind (hfault.bind _))
    · exact .inr (hfault.bind _)

/-- A call ends if the arguments do and the function called does. -/
theorem Settles.call (h : ∀ e ∈ es, Settles c s e)
    (hcall : ∀ vs, List.Forall₂ (Means c s) es vs →
      (∃ v, Yields (call c name vs) s v s) ∨ Faults (call c name vs) s) :
    Settles c s (Target.call name es) := by
  obtain ⟨vs, hvs⟩ | hfault := evalAll_cases h
  · refine (hcall vs hvs).imp (fun ⟨v, hv⟩ => ⟨v, (yields_call_means hvs).2 hv⟩) fun hfault => ?_
    rw [Target.call, eval]
    exact (means_evalAll hvs).faults_bind hfault
  · rw [Target.call, Settles, eval]
    exact .inr (hfault.bind _)

theorem Settles.method (h : Settles c s e) (hes : ∀ e ∈ es, Settles c s e)
    (hcall : ∀ vs, List.Forall₂ (Means c s) (e :: es) vs →
      (∃ v, Yields (Machine.call c name vs) s v s) ∨ Faults (Machine.call c name vs) s) :
    Settles c s (Target.method e name es) := by
  obtain ⟨v, hv⟩ | hfault := h
  · obtain ⟨vs, hvs⟩ | hfault := evalAll_cases hes
    · refine (hcall _ (.cons hv hvs)).imp
        (fun ⟨w, hw⟩ => ⟨w, (yields_method_means (.cons hv hvs)).2 hw⟩) fun hfault => ?_
      rw [Target.method, eval]
      exact hv.faults_bind ((means_evalAll hvs).faults_bind (by simpa using hfault))
    · rw [Target.method, Settles, eval]
      exact .inr (hv.faults_bind (hfault.bind _))
  · rw [Target.method, Settles, eval]
    exact .inr (hfault.bind _)

theorem call_primitive_cases (hget : c.functions.get? name = none) (hread : name ≠ "get_data")
    (hwrite : name ≠ "set_data") (vs : List Val) :
    (∃ v, Yields (call c name vs) s v s) ∨ Faults (call c name vs) s := by
  have hcall : call c name vs = ofExcept (Primitive.call c.host name vs) := by
    rw [Machine.call, hget]
    dsimp only
    unfold builtin
    split
    · exact absurd rfl hread
    · exact absurd rfl hwrite
    · rfl
  rw [hcall]
  exact ofExcept_cases _

/-- A call of a function of the target ends. -/
theorem Settles.primitive (hc : c.Plain) (hname : Computes name) (h : Settles c s e)
    (hes : ∀ e ∈ es, Settles c s e) : Settles c s (Target.method e name es) :=
  h.method hes fun vs _ => call_primitive_cases (hc name hname.1) hname.2.1 hname.2.2 vs

theorem Settles.primitiveCall (hc : c.Plain) (hname : Computes name) (h : ∀ e ∈ es, Settles c s e) :
    Settles c s (Target.call name es) :=
  .call h fun vs _ => call_primitive_cases (hc name hname.1) hname.2.1 hname.2.2 vs

theorem Settles.binary {op : Target.BinaryOp} {lhs rhs : Target.Expr} (hl : Settles c s lhs)
    (hr : Settles c s rhs) : Settles c s (.binary op lhs rhs) := by
  obtain ⟨a, ha⟩ | hfault := hl
  · obtain ⟨b, hb⟩ | hfault := hr
    · obtain ⟨v, hv⟩ | hfault := ofExcept_cases (s := s) (Primitive.binary op a b)
      · exact (ha.binary hb (yields_ofExcept.1 hv).1).settles
      · rw [Settles, eval]
        exact .inr (ha.faults_bind (hb.faults_bind hfault))
    · rw [Settles, eval]
      exact .inr (ha.faults_bind (hfault.bind _))
  · rw [Settles, eval]
    exact .inr (hfault.bind _)

theorem Settles.ternary {cond onTrue onFalse : Target.Expr} {t : Bool}
    (hcond : Means c s cond (.bool t)) (h : Settles c s (if t then onTrue else onFalse)) :
    Settles c s (.ternary cond onTrue onFalse) := by
  have htruthy : Yields (ofExcept (Val.bool t).truthy) s t s := yields_ofExcept.2 ⟨truthy_bool, rfl⟩
  obtain ⟨w, hw⟩ | hfault := h
  · exact .inl ⟨w, yields_ternary.2 ⟨_, s, hcond, t, truthy_bool, hw⟩⟩
  · rw [Settles, eval]
    refine .inr (hcond.faults_bind (htruthy.faults_bind ?_))
    cases t <;> exact hfault

/-! ### Statements -/

section Statements

variable {body : List Target.Stmt}

/-- The statements come to an end. -/
def Ends (c : Code) (s : State) (body : List Target.Stmt) : Prop := ∃ p, block c body s = some p

theorem ends_cons {stmt : Target.Stmt}
    (h : (∃ t, Yields (Machine.stmt c stmt) s none t ∧ Ends c t body) ∨
      (∃ v t, Yields (Machine.stmt c stmt) s (some v) t) ∨ Faults (Machine.stmt c stmt) s) :
    Ends c s (stmt :: body) := by
  rw [Ends, block]
  obtain ⟨t, hstmt, p, hp⟩ | ⟨v, t, hstmt⟩ | ⟨f, t, hstmt⟩ := h
  · exact ⟨p, by rw [hstmt.bind_eq]; exact hp⟩
  · exact ⟨_, by rw [hstmt.bind_eq]; rfl⟩
  · exact ⟨_, by rw [bind_apply, hstmt]; rfl⟩

theorem ends_ret (h : Settles c s e) : Ends c s (Target.ret e :: body) := by
  refine ends_cons ?_
  rw [Target.ret, stmt]
  obtain ⟨v, hv⟩ | hfault := h
  · exact .inr (.inl ⟨v, s, yields_bind.2 ⟨v, s, hv, rfl⟩⟩)
  · exact .inr (.inr (hfault.bind _))

theorem ends_expr (h : Settles c s e) (hbody : Ends c s body) : Ends c s (.expr e :: body) := by
  refine ends_cons ?_
  rw [stmt]
  obtain ⟨v, hv⟩ | hfault := h
  · exact .inl ⟨s, yields_bind.2 ⟨v, s, hv, rfl⟩, hbody⟩
  · exact .inr (.inr (hfault.bind _))

theorem ends_var (h : Settles c s e) (hbody : ∀ v, Ends c (s.set name v) body) :
    Ends c s (Target.var (Target.id name) e :: body) := by
  refine ends_cons ?_
  rw [Target.var, stmt]
  obtain ⟨v, hv⟩ | hfault := h
  · refine .inl ⟨s.set name v, yields_bind.2 ⟨v, s, hv, yields_bind.2 ⟨(), _, ?_, rfl⟩⟩, hbody v⟩
    exact yields_bind_ident.2 State.assign_of_declare.symm
  · exact .inr (.inr (hfault.bind _))

/-- A function ends if its statements do. -/
theorem Code.Has.cases {params : List String} (h : c.Has name params body) {vs : List Val}
    (hlength : params.length = vs.length) (hends : Ends c (s.enter params vs) body) :
    (∃ v t, Yields (call c name vs) s v t) ∨ Faults (call c name vs) s := by
  obtain ⟨signature, hget, rfl⟩ := h
  obtain ⟨⟨r, t⟩, hbody⟩ := hends
  have hcall := call_function (s := s) hget (by simpa using hlength)
  change block c body (s.withFrame (arguments signature vs)) = _ at hbody
  rw [hbody] at hcall
  cases r with
  | ok r => exact .inl ⟨_, _, hcall⟩
  | error fault => exact .inr ⟨_, _, hcall⟩

end Statements

/-! ### Addresses -/

theorem ends_verifyBody (hc : c.Plain) {v : Val} (h : s.get? "address" = some v) :
    Ends c s
      [Target.throwUnless ExitCode.invalidAddress
          (Target.eq (Target.method (Target.id "address") "slice_bits" []) (Target.int 267)),
        Target.var (Target.id "h") (Target.method (Target.id "address") "preload_uint" [Target.int 11]),
        Target.throwUnless ExitCode.invalidAddress
          (Target.eq (.binary .shr (Target.id "h") (Target.int 8)) (Target.int 4)),
        Target.throwUnless ExitCode.notBasechain (Target.eq (Target.id "h") (Target.int 1024)),
        Target.ret (Target.id "address")] := by
  have hint : ∀ {t : State} {n : Int}, Settles c t (Target.int n) := means_int.settles
  have hunless : ∀ {t : State} {n : Int} {cond : Target.Expr}, Settles c t cond →
      Settles c t (Target.call "throw_unless" [Target.int n, cond]) := fun hcond =>
    .primitiveCall hc (by decide) (by simp [hint, hcond])
  have haddress : Settles c s (Target.id "address") := (means_id h).settles
  refine ends_expr (hunless (.binary (haddress.primitive hc (by decide) (by simp)) hint)) ?_
  refine ends_var (haddress.primitive hc (by decide) (by simp [hint])) fun w => ?_
  have hh : Settles c (s.set "h" w) (Target.id "h") := Means.settles (means_id (v := w) (by simp))
  refine ends_expr (hunless (.binary (.binary hh hint) hint)) ?_
  refine ends_expr (hunless (.binary hh hint)) ?_
  exact ends_ret (Means.settles (means_id (v := v) (by simp [h])))

theorem call_verifyAddress_cases (hc : c.Proper) (x : Slice) :
    (∃ v, Yields (call c Helper.verifyAddressName [.slice x]) s v s) ∨
      Faults (call c Helper.verifyAddressName [.slice x]) s := by
  obtain hget | hhelps := hc.verifyAddress_cases
  · exact call_primitive_cases hget (by decide) (by decide) _
  · have hhas : c.Has Helper.verifyAddressName ["address"] _ := ⟨_, hhelps, rfl⟩
    refine (hhas.cases rfl (ends_verifyBody hc.plain (v := .slice x) ?_)).imp_left fun ⟨v, t, h⟩ => ?_
    · simp [State.enter, State.get?, Dict.ofList]
    · obtain ⟨-, rfl, rfl⟩ := (yields_verifyAddress hc.plain hhelps).1 h
      exact ⟨_, h⟩

theorem call_storeAddress_cases (hc : c.Proper)
    (h : c.Helps Helper.storeAddressName .storeAddress) (b : Builder) (x : Slice) :
    (∃ v, Yields (call c Helper.storeAddressName [.builder b, .slice x]) s v s) ∨
      Faults (call c Helper.storeAddressName [.builder b, .slice x]) s := by
  have hhas : c.Has Helper.storeAddressName ["b", "address"] _ := ⟨_, h, rfl⟩
  generalize hu : s.enter ["b", "address"] [.builder b, .slice x] = u
  have hb : Means c u (Target.id "b") (.builder b) :=
    means_id (by simp [← hu, State.enter, State.get?, Dict.ofList])
  have haddress : Means c u (Target.id "address") (.slice x) :=
    means_id (by simp [← hu, State.enter, State.get?, Dict.ofList])
  have hverify : Settles c u (Target.call Helper.verifyAddressName [Target.id "address"]) := by
    refine .call (by simp [haddress.settles]) fun vs hvs => ?_
    obtain _ | ⟨hv, ⟨⟩⟩ := hvs
    obtain ⟨rfl, -⟩ := haddress.iff.1 hv
    exact call_verifyAddress_cases hc x
  have hstore : Settles c u (Target.method (Target.id "b") "store_slice"
      [Target.call Helper.verifyAddressName [Target.id "address"]]) :=
    hb.settles.primitive hc.plain (by decide) (by simp [hverify])
  refine (hhas.cases rfl (hu ▸ ends_ret hstore)).imp_left ?_
  rintro ⟨v, t, hcall⟩
  obtain ⟨-, -, rfl, rfl⟩ := yields_storeAddress hc h hcall
  exact ⟨_, hcall⟩

end Machine

end CellCompiler
