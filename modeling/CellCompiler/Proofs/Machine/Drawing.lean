import CellCompiler.Proofs.Machine.Helpers
import CellCompiler.Proofs.Machine.Keeping

/-!
# Reading from a variable

Finished runs of expressions that read from a slice in a variable.

* `Draws c regular slice e P` says that whenever `e` ends, it has changed no other variable of the
  current function and gives a value with the property `P`;
* `draws_read` and `draws_function` are about reads by a function of the target and of the module,
  `Draws.call`, `Draws.method` and `Draws.present` about what is made of their results;
* `slice_of_verifyAddress` and `slice_of_loadAddress` say that addresses that a run has gone on with
  are standard.

Functions of the module may leave anything in the variable, so that the variable only holds a single
value as long as `regular`.
-/

namespace CellCompiler

namespace Machine

variable {c : Code} {s s' : State} {v w x : Val} {name slice : String} {args : List Val}
  {e : Target.Expr} {regular : Prop} {P Q : Val → Prop}

/-! ### Callees -/

theorem not_mem_primitives_of_isEmitted (h : Name.isEmitted name = true) : name ∉ primitives := by
  have hall : ∀ other ∈ primitives, Name.isEmitted other = false := by decide
  intro hmem
  simp [hall name hmem] at h

theorem Code.Proper.not_mem_primitives {item : Target.Item} (hc : c.Proper)
    (h : c.functions.get? name = some item) : name ∉ primitives := by
  have hpermitted := hc _ _ h
  rw [primitives, List.mem_cons, not_or]
  refine ⟨?_, hpermitted.not_mem_builtins⟩
  rintro rfl
  obtain hemitted | ⟨helper, hof, -⟩ := hpermitted
  · exact absurd hemitted (by decide)
  · exact absurd (Helper.prefix_of_ofName? hof) (by decide)

/-- A helper that has been called is in the module. -/
theorem Code.Proper.helps (hc : c.Proper) (h : Yields (call c name args) s v s')
    (hemitted : Name.isEmitted name = false) (hname : name ∉ primitives) :
    ∃ helper, Helper.ofName? name = some helper ∧ c.Helps name helper := by
  obtain ⟨item, hitem⟩ := h.called hname
  rcases hc name item hitem with htrue | ⟨helper, hof, rfl⟩
  · simp [hemitted] at htrue
  · exact ⟨helper, hof, hitem⟩

/-! ### Results of reads -/

theorem isLeaf_of_loaded {α : Type} {y : Slice} {load : Slice.Load α} {value : α → Val}
    {p : Slice × Val} (hvalue : ∀ a, (value a).isLeaf = true)
    (h : Primitive.loaded y load value = .ok p) : p.2.isLeaf = true := by
  unfold Primitive.loaded at h
  split at h
  · obtain rfl := Except.ok.inj h
    exact hvalue _
  · simp at h

theorem isLeaf_of_loadMsgAddr {y : Slice} {p : Slice × Val} (h : Primitive.loadMsgAddr y = .ok p) :
    p.2.isLeaf = true := by
  simp only [Primitive.loadMsgAddr, Except.bind_eq_ok] at h
  obtain ⟨tag, -, h⟩ := h
  split_ifs at h
  · exact isLeaf_of_loaded (fun _ => rfl) h
  · exact isLeaf_of_loaded (fun _ => rfl) h

/-- What is read is a single value. -/
theorem isLeaf_of_read {y : Slice} {p : Slice × Val} (h : Primitive.read name y args = .ok p)
    (hname : name ≠ "skip_bits") : p.2.isLeaf = true := by
  unfold Primitive.read at h
  split at h
  case h_6 => exact absurd rfl hname
  case h_7 => exact isLeaf_of_loaded (fun d => by cases d <;> rfl) h
  case h_8 => exact isLeaf_of_loadMsgAddr h
  case h_9 => simp at h
  -- the others differ in whether they are told how many bits to read
  all_goals
    first
    | exact isLeaf_of_loaded (fun _ => rfl) h
    | obtain ⟨n, -, h⟩ := Except.bind_eq_ok.1 h
      exact isLeaf_of_loaded (fun _ => rfl) h

section Calls

variable {host : Host}

theorem isLeaf_of_begin_parse (h : Primitive.call host "begin_parse" [v] = .ok w) :
    w.isLeaf = true := by
  change (do return Val.slice (← v.asCell).parse) = _ at h
  simp only [Except.bind_eq_ok, Except.pure_eq_ok] at h
  obtain ⟨y, -, rfl⟩ := h
  rfl

theorem isLeaf_of_end_cell (h : Primitive.call host "end_cell" [v] = .ok w) : w.isLeaf = true := by
  change (do return Val.cell (← Primitive.ofCell (← v.asBuilder).build)) = _ at h
  simp only [Except.bind_eq_ok, Except.pure_eq_ok] at h
  obtain ⟨b, -, y, -, rfl⟩ := h
  rfl

theorem isLeaf_of_store_slice (h : Primitive.call host "store_slice" [v, x] = .ok w) :
    w.isLeaf = true := by
  change (do Primitive.stored (← v.asBuilder) (Builder.storeSlice (← x.asSlice))) = _ at h
  simp only [Except.bind_eq_ok] at h
  obtain ⟨b, -, y, -, h⟩ := h
  obtain ⟨b', -, rfl⟩ := stored_eq_ok.1 h
  rfl

theorem slice_of_slice_bits (h : Primitive.call host "slice_bits" [v] = .ok w) :
    ∃ y, v = .slice y := by
  change (do return Val.int (← v.asSlice).remainingBits) = _ at h
  simp only [Except.bind_eq_ok] at h
  obtain ⟨y, hy, -⟩ := h
  cases v with
  | slice y => exact ⟨y, rfl⟩
  | _ => simp [Val.asSlice] at hy

end Calls

/-! ### Addresses -/

/-- A value that has passed the check of addresses is a standard one. -/
theorem slice_of_verifyAddress (hc : c.Proper)
    (h : Yields (call c Helper.verifyAddressName [v]) s w s') :
    ∃ y, v = .slice y ∧ w = .slice y ∧ IsStandard y.bits := by
  have hhelps := hc.helps_verifyAddress h
  obtain ⟨y, rfl⟩ : ∃ y, v = .slice y := by
    have hhas : c.Has Helper.verifyAddressName ["address"] _ := ⟨_, hhelps, rfl⟩
    obtain ⟨-, q, t, hbody, -, -⟩ := hhas.yields.1 h
    have haddress : (s.enter ["address"] [v]).get? "address" = some v := by
      simp [State.enter, State.get?, Dict.ofList]
    rw [Target.throwUnless, yields_block_expr] at hbody
    obtain ⟨_, _, hcheck, -⟩ := hbody
    rw [Target.call, yields_call] at hcheck
    obtain ⟨_, _, hargs, -⟩ := hcheck
    simp only [yields_evalAll_cons, yields_evalAll_nil, Target.eq, yields_binary] at hargs
    obtain ⟨_, t₁, hcode, _, ⟨_, t₂, ⟨n, t₃, hlength, -⟩, -⟩, -⟩ := hargs
    obtain ⟨-, rfl⟩ := yields_int.1 hcode
    rw [yields_method_means (.cons (means_id haddress) .nil),
      yields_builtin hc.plain (by decide)] at hlength
    exact slice_of_slice_bits hlength.1
  obtain ⟨hy, rfl, -⟩ := (yields_verifyAddress hc.plain hhelps).1 h
  exact ⟨y, rfl, rfl, hy⟩

/-! ### Expressions that read -/

/-- The variable holds a value, a single one as long as `regular`. -/
def Slicing (regular : Prop) (s : State) (slice : String) : Prop :=
  ∃ x, s.get? slice = some x ∧ (regular → x.isLeaf = true)

theorem Slicing.of_frame_eq (h : Slicing regular s slice) (hframe : s'.frame = s.frame) :
    Slicing regular s' slice := by
  obtain ⟨x, hx, hleaf⟩ := h
  exact ⟨x, by rw [State.get?, hframe, ← State.get?, hx], hleaf⟩

theorem Slicing.keeps {changed : String → Prop} (h : Slicing regular s slice)
    (hkeeps : s.Keeps changed s') (hslice : ¬ changed slice) : Slicing regular s' slice := by
  obtain ⟨x, hx, hleaf⟩ := h
  exact ⟨x, by rw [hkeeps slice hslice, hx], hleaf⟩

/-- Whenever the expression ends, it has changed no variable of the current function but the one that
it reads from, and gives a value with the property. -/
def Draws (c : Code) (regular : Prop) (slice : String) (e : Target.Expr) (P : Val → Prop) : Prop :=
  ∀ s v s', Slicing regular s slice → Yields (eval c e) s v s' →
    s.Keeps (· = slice) s' ∧ Slicing regular s' slice ∧ P v

theorem draws_id : Draws c regular slice (Target.id slice) fun v => regular → v.isLeaf = true := by
  rintro s v s' ⟨x, hx, hleaf⟩ h
  obtain ⟨rfl, rfl⟩ := (means_id hx).iff.1 h
  exact ⟨.refl _, ⟨_, hx, hleaf⟩, hleaf⟩

theorem Draws.mono (h : Draws c regular slice e P) (hPQ : ∀ v, P v → Q v) :
    Draws c regular slice e Q := by
  intro s v s' hs hv
  obtain ⟨hkeeps, hs', hP⟩ := h s v s' hs hv
  exact ⟨hkeeps, hs', hPQ v hP⟩

/-- A read by a function of the target leaves a slice in the variable. -/
theorem yields_read_keeps (hc : c.Plain) (hname : name ∈ Target.builtins) {es : List Target.Expr}
    {vs : List Val} (hs : s.get? slice = some x) (hargs : List.Forall₂ (Means c s) es vs)
    (h : Yields (eval c (Target.modify (Target.id slice) name es)) s v s') :
    s.Keeps (· = slice) s' ∧ ∃ y p, Primitive.read name y vs = .ok p ∧ p.2 = v ∧
      s'.get? slice = some (.slice p.1) := by
  obtain ⟨updated, hkeeps, hget, ⟨⟨item, hitem⟩, -⟩ | hmodify⟩ := yields_modify_keeps hs hargs h
  · simp [hc name hname] at hitem
  · change (do
      let p ← Primitive.read name (← x.asSlice) vs
      return (Val.slice p.1, p.2)) = _ at hmodify
    simp only [Except.bind_eq_ok, Except.pure_eq_ok, Prod.mk.injEq] at hmodify
    obtain ⟨y, -, p, hread, rfl, rfl⟩ := hmodify
    exact ⟨hkeeps, y, p, hread, rfl, hget⟩

theorem draws_read (hc : c.Plain) (hname : name ∈ Target.builtins) {es : List Target.Expr}
    {vs : List Val} (hargs : ∀ s, List.Forall₂ (Means c s) es vs)
    (hP : ∀ y p, Primitive.read name y vs = .ok p → P p.2) :
    Draws c regular slice (Target.modify (Target.id slice) name es) P := by
  rintro s v s' ⟨x, hx, -⟩ h
  obtain ⟨hkeeps, y, p, hread, rfl, hget⟩ := yields_read_keeps hc hname hx (hargs s) h
  exact ⟨hkeeps, ⟨_, hget, fun _ => rfl⟩, hP y p hread⟩

/-- A read of a single value. -/
theorem draws_leaf (hc : c.Plain) (hname : name ∈ Target.builtins ∧ name ≠ "skip_bits")
    {es : List Target.Expr} {vs : List Val} (hargs : ∀ s, List.Forall₂ (Means c s) es vs) :
    Draws c regular slice (Target.modify (Target.id slice) name es) fun v =>
      regular → v.isLeaf = true :=
  draws_read hc hname.1 hargs fun _ _ hread _ => isLeaf_of_read hread hname.2

/-- A read by a function of the module. -/
theorem draws_function (hname : name ∉ primitives)
    (h : ∀ s x x' w s', Yields (call c name [x]) s (.tensor [x', w]) s' →
      (regular → x.isLeaf = true) → (regular → x'.isLeaf = true) ∧ P w) :
    Draws c regular slice (Target.modify (Target.id slice) name []) P := by
  rintro s v s' ⟨x, hx, hleaf⟩ hv
  obtain ⟨updated, hkeeps, hget, ⟨-, t, hcall⟩ | hmodify⟩ := yields_modify_keeps hx .nil hv
  · obtain ⟨hupdated, hP⟩ := h s x updated v t hcall hleaf
    exact ⟨hkeeps, ⟨_, hget, hupdated⟩, hP⟩
  · exact absurd (mem_primitives_of_modify hmodify) hname

/-- A function that is applied to what has been read. -/
theorem Draws.call (he : Draws c regular slice e P)
    (h : ∀ s v w s', P v → Yields (call c name [v]) s w s' → Q w) :
    Draws c regular slice (Target.call name [e]) Q := by
  intro s w s' hs hw
  rw [Target.call, yields_call] at hw
  obtain ⟨_, t, hargs, hcall⟩ := hw
  simp only [yields_evalAll_cons, yields_evalAll_nil] at hargs
  obtain ⟨v, t, hv, _, ⟨rfl, rfl⟩, rfl⟩ := hargs
  obtain ⟨hkeeps, ht, hP⟩ := he s v t hs hv
  have hframe := hcall.frame_eq
  exact ⟨hkeeps.trans (State.keeps_of_frame_eq hframe), ht.of_frame_eq hframe, h _ _ _ _ hP hcall⟩

/-- A function of the target that is applied to what has been read. -/
theorem Draws.method (hc : c.Plain) (hname : Computes name) (he : Draws c regular slice e P)
    (h : ∀ v w, P v → Primitive.call c.host name [v] = .ok w → Q w) :
    Draws c regular slice (Target.method e name []) Q := by
  intro s w s' hs hw
  rw [Target.method, yields_method] at hw
  obtain ⟨_, t, hargs, hcall⟩ := hw
  simp only [yields_evalAll_cons, yields_evalAll_nil] at hargs
  obtain ⟨v, t, hv, _, ⟨rfl, rfl⟩, rfl⟩ := hargs
  obtain ⟨hkeeps, ht, hP⟩ := he s v t hs hv
  obtain ⟨hprimitive, rfl⟩ := (yields_builtin hc hname).1 hcall
  exact ⟨hkeeps, ht, h v w hP hprimitive⟩

/-- A builder for what has been read. -/
theorem Draws.stored (hc : c.Plain) (he : Draws c regular slice e P) :
    Draws c regular slice (Target.method Target.beginCell "store_slice" [e]) fun v =>
      v.isLeaf = true := by
  intro s w s' hs hw
  rw [Target.method, yields_method] at hw
  obtain ⟨_, t, hargs, hcall⟩ := hw
  simp only [yields_evalAll_cons, yields_evalAll_nil, (means_beginCell hc).iff] at hargs
  obtain ⟨_, _, ⟨rfl, rfl⟩, _, ⟨v, t, hv, _, ⟨rfl, rfl⟩, rfl⟩, rfl⟩ := hargs
  obtain ⟨hkeeps, ht, -⟩ := he _ v t hs hv
  rw [yields_builtin hc (by decide)] at hcall
  obtain ⟨hstore, rfl⟩ := hcall
  exact ⟨hkeeps, ht, isLeaf_of_store_slice hstore⟩

/-- A value that is read after a bit that tells whether it is present. -/
theorem Draws.present (hc : c.Plain) (he : Draws c regular slice e P) :
    Draws c regular slice (.ternary (Target.modify (Target.id slice) "load_int" [Target.int 1]) e
      Target.null) fun v => v = .null ∨ P v := by
  intro s v s' hs hv
  obtain ⟨flag, t, hflag, hit, -, hbranch⟩ := yields_ternary.1 hv
  have hread : Draws c regular slice (Target.modify (Target.id slice) "load_int" [Target.int 1])
      fun v => regular → v.isLeaf = true := draws_leaf hc (by decide) fun _ => .cons means_int .nil
  obtain ⟨hkeeps, ht, -⟩ := hread s flag t hs hflag
  cases hit with
  | false =>
    obtain ⟨rfl, rfl⟩ := (means_null hc).iff.1 hbranch
    exact ⟨hkeeps, ht, .inl rfl⟩
  | true =>
    obtain ⟨hkeeps', hs', hP⟩ := he t v s' ht hbranch
    exact ⟨hkeeps.trans hkeeps', hs', .inr hP⟩

/-- Binding a variable to what has been read. -/
theorem Draws.of_var (he : Draws c regular slice e P) {body : List Target.Stmt} {q : Option Val}
    (hs : Slicing regular s slice)
    (h : Yields (block c (Target.var (Target.id name) e :: body)) s q s') :
    ∃ v t, s.Keeps (· = slice) t ∧ Slicing regular t slice ∧ P v ∧
      Yields (block c body) (t.set name v) q s' := by
  rw [yields_block_var] at h
  obtain ⟨v, t, hv, _, hbind, hbody⟩ := h
  obtain ⟨hkeeps, ht, hP⟩ := he s v t hs hv
  rw [Target.id, yields_bind_ident, State.assign_of_declare] at hbind
  subst hbind
  exact ⟨v, t, hkeeps, ht, hP, hbody⟩

/-- An address that has been loaded is a standard one. -/
theorem slice_of_loadAddress (hc : c.Proper) {x' : Val}
    (h : Yields (call c Helper.loadAddressName [x]) s (.tensor [x', w]) s') :
    x'.isLeaf = true ∧ ∃ y, w = .slice y ∧ IsStandard y.bits := by
  obtain ⟨helper, hof, hhelps⟩ := hc.helps h (by decide) (by decide)
  obtain rfl : Helper.loadAddress = helper := by
    have hload : Helper.ofName? Helper.loadAddressName = some .loadAddress := by decide
    simpa [hload] using hof
  have hhas : c.Has Helper.loadAddressName ["cs"] _ := ⟨_, hhelps, rfl⟩
  obtain ⟨-, q, t, hbody, hq, -⟩ := hhas.yields.1 h
  have hcs : (s.enter ["cs"] [x]).get? "cs" = some x := by simp [State.enter, State.get?, Dict.ofList]
  rw [yields_block_cons] at hbody
  obtain ⟨q₁, t₁, hraw, hbody⟩ := hbody
  rw [Target.typedVar, yields_varDef] at hraw
  obtain ⟨rfl, raw, t₂, hload, hbind⟩ := hraw
  obtain ⟨-, y, p, -, rfl, hget⟩ := yields_read_keeps hc.plain (by decide) hcs .nil hload
  rw [Target.id, yields_bind_ident, State.assign_of_declare] at hbind
  subst hbind
  have hcs' : (t₂.set "raw" p.2).get? "cs" = some (.slice p.1) := by simp [hget]
  have hraw' : (t₂.set "raw" p.2).get? "raw" = some p.2 := by simp
  dsimp only at hbody
  rw [yields_block_ret] at hbody
  obtain ⟨result, hresult, rfl⟩ := hbody
  rw [yields_tensor] at hresult
  obtain ⟨vs, hvs, rfl⟩ := hresult
  simp only [yields_evalAll_cons, yields_evalAll_nil, (means_id hcs').iff] at hvs
  obtain ⟨_, _, ⟨rfl, rfl⟩, _, ⟨z, _, hverify, _, ⟨rfl, rfl⟩, rfl⟩, rfl⟩ := hvs
  rw [yields_call_means (.cons (means_id hraw') .nil)] at hverify
  obtain ⟨rfl, rfl⟩ : x' = .slice p.1 ∧ w = z := by simpa using hq
  obtain ⟨a, -, rfl, ha⟩ := slice_of_verifyAddress hc hverify
  exact ⟨rfl, a, rfl, ha⟩

end Machine

end CellCompiler
