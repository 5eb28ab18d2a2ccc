import CellCompiler.Generate.Stmt
import CellCompiler.Proofs.Generate.Rules
import CellCompiler.Proofs.Layout

/-!
# Lowered code declares its calls

Every generator of expressions and statements records each function that its code calls, in every
branch. `lower_builds` and `lowerStmts_builds` put this together for whole expressions and bodies
by induction on the source; the lemmas before them are about one kind of expression each and assume
that the code of its operands is declared.
-/

namespace CellCompiler

open Target

/-! ### Patterns -/

mutual

theorem Layout.Shape.declared_pattern {deps : String → Prop} :
    (s : Layout.Shape) → s.pattern.Declared deps
  | .leaf _ _ => by simp [pattern]
  | .product parts => by simpa [pattern] using declared_patterns parts

theorem Layout.Shape.declared_patterns {deps : String → Prop} :
    (ss : List Layout.Shape) → ∀ e ∈ patterns ss, e.Declared deps
  | [] => by simp [patterns]
  | s :: ss => by simpa [patterns] using ⟨declared_pattern s, declared_patterns ss⟩

end

mutual

theorem Layout.Shape.declared_nulls {deps : String → Prop} :
    (s : Layout.Shape) → s.nulls.Declared deps
  | .leaf _ l => by cases l <;> simp [nulls, Leaf.nulls]
  | .product parts => by simpa [nulls] using declared_nullsOf parts

theorem Layout.Shape.declared_nullsOf {deps : String → Prop} :
    (ss : List Layout.Shape) → ∀ e ∈ nullsOf ss, e.Declared deps
  | [] => by simp [nullsOf]
  | s :: ss => by simpa [nullsOf] using ⟨declared_nulls s, declared_nullsOf ss⟩

end

namespace Generate

variable {native : Bool} {env : Env} {deps : Deps env}

/-! ### Layout -/

theorem declOf_builds {name : String} : Builds native deps (declOf name) fun _ => True :=
  Builds.table.andThen fun _ => Builds.ofExcept.mono fun _ _ => trivial

/-- The declaration of a name comes first. -/
theorem declOf_bind {β : Type} {name : String} {k : TypeDecl → Gen β} {Q : β → Prop}
    (hk : ∀ decl, env.program.types.types.get? name = some decl → Builds native deps (k decl) Q) :
    Builds native deps (declOf name >>= k) Q := by
  refine declOf_builds.bind_run fun decl d d' h => ?_
  simp only [declOf, run_bind, run_table, run_ofExcept, Layout.declOf_eq_ok] at h
  obtain ⟨_, _, ⟨rfl, -⟩, hdecl, -⟩ := h
  exact (hk decl hdecl).mono fun _ hb _ => hb

theorem representation_builds {ty : TypeRef} : Builds native deps (representation ty) fun _ => True :=
  Builds.table.andThen fun _ => Builds.ofExcept.mono fun _ _ => trivial

theorem isUnpacked_builds {ty : TypeRef} : Builds native deps (isUnpacked ty) fun _ => True :=
  Builds.table.andThen fun _ => Builds.ofExcept.mono fun _ _ => trivial

theorem structOf_builds {ty : TypeRef} : Builds native deps (structOf ty) fun _ => True :=
  Builds.table.andThen fun _ => Builds.ofExcept.mono fun _ _ => trivial

theorem primitiveOf_builds {ty : TypeRef} : Builds native deps (primitiveOf ty) fun _ => True :=
  Builds.table.andThen fun _ => Builds.ofExcept.mono fun _ _ => trivial

theorem externalTy_builds {decl : TypeDecl} : Builds native deps (externalTy decl) fun _ => True :=
  Builds.table.andThen fun _ => Builds.ofExcept.mono fun _ _ => trivial

/-- A pattern calls nothing. -/
theorem unpack_callsNothing {ty : TypeRef} {name : String} :
    Builds native deps (unpack ty name) fun e => ∀ known, e.Declared known := by
  refine Builds.table.andThen fun _ => Builds.ofExcept.mono fun e he known => ?_
  obtain ⟨shape, -, rfl⟩ := Except.map_eq_ok.1 he
  exact shape.declared_pattern

theorem unpack_builds {ty : TypeRef} {name : String} :
    Builds native deps (unpack ty name) (Target.Expr.Declared deps) :=
  unpack_callsNothing.mono fun _ he => he deps

/-! ### Helpers -/

theorem declareContext_builds : Builds native deps declareContext fun _ => True := by
  have keep : ∀ ty name, Builds native deps (onRegistry (·.addGlobal ty name)) fun _ => True :=
    fun ty name => Builds.onRegistry fun r hr =>
      ⟨Emission.Registry.develops_of_eq rfl rfl fun _ h => Emission.Registry.declares_addGlobal.2 (.inr h),
        ⟨[], .keep (.refl r) rfl⟩, hr.addGlobal⟩
  exact (keep _ _).andThen fun _ => (keep _ _).andThen fun _ => keep _ _

@[simp] theorem name?_item {name : String} {h : Helper} : (h.item name).name? = some name := by
  cases h with
  | tupleCreate arity | tupleDestroy arity | emptySlice => rfl
  | _ => simp [Helper.item]

theorem declared_item {deps : String → Prop} {name : String} {h : Helper}
    (hverifies : h.verifies = true → deps Helper.verifyAddressName) :
    (h.item name).Declared deps := by
  cases h with
  | loadAddress | storeAddress =>
    have hverify := hverifies rfl
    simp [Helper.item, Target.Declared, builtins, hverify]
  | equal mode absence =>
    cases mode <;> cases absence <;>
      simp [Helper.item, Helper.equalBody, Helper.compareBy, Target.Declared, builtins]
  | _ => simp [Helper.item, Target.Declared, builtins]

theorem permitted_item {name n : String} {h : Helper} (hname : Helper.ofName? name = some h)
    (hn : (h.item name).name? = some n) : Emission.Permitted n (h.item name) := by
  obtain rfl : name = n := by simpa using hn
  exact .inr ⟨h, hname, rfl⟩

/-- A helper is entered after what it relies on. -/
theorem registerAfter_builds {name : String} {h : Helper} {g : Gen Unit} {depends : NameSet}
    (hg : Builds native deps g fun _ => True) (hname : Helper.ofName? name = some h)
    (hcalls : (h.item name).Declared (· ∈ depends.names))
    (hready : ∀ d d', g env d = .ok () d' → d'.registry.Prepared name) :
    Builds native deps (do
        g
        register (h.item name) .stdlib depends) fun _ => True := by
  intro d a d' hrun hd
  obtain ⟨⟨⟩, d₁, hbefore, hrun⟩ := run_bind.1 hrun
  obtain ⟨hgrows, hsound, -⟩ := hg d _ d₁ hbefore hd
  simp only [register, run_bind, run_get, run_ofExcept, run_modify] at hrun
  obtain ⟨_, _, ⟨rfl, rfl⟩, r, _, ⟨hr, rfl⟩, rfl⟩ := hrun
  have hsame : ∀ n, (h.item name).name? = some n → name = n := fun n hn => by simpa using hn
  obtain ⟨hdevelops, hsound'⟩ := Emission.Registry.register_sound hsound hr
    (fun n => permitted_item hname) (hcalls.mono fun _ => .inl)
    (fun _ _ hentry => Emission.Entry.Auxiliary.of_definition hentry (declared_item fun _ => .internal (by decide))
      (.inl ⟨name, h, hname, rfl⟩))
    fun n hn => hsame n hn ▸ hready d d₁ hbefore
  have hhistory : ∃ es, d₁.registry.History env.program.types es r := by
    refine ⟨[], .enter (.refl _) (fun n hn => ?_) hr⟩
    obtain rfl := hsame n hn
    exact Helper.not_isPrefix_of_ofName? hname
  exact ⟨hgrows.trans (.of_registry hdevelops hhistory), hsound', fun _ => trivial⟩

theorem registerHelper_builds {name : String} {h : Helper} (hname : Helper.ofName? name = some h)
    (hplain : h.verifies = false) (hsender : h ≠ .contextGetSender) :
    Builds native deps (register (h.item name) .stdlib .empty) fun _ => True := by
  have hready : ∀ r : Emission.Registry, r.Prepared name := by
    refine fun r => ⟨fun helper hhelper hv => ?_, fun hhelper => ?_⟩
    · obtain rfl : h = helper := by simpa [hname] using hhelper
      simp [hplain] at hv
    · exact absurd (Option.some.inj (hname.symm.trans hhelper)) hsender
  have hafter : Builds native deps ((pure () : Gen Unit) >>= fun _ => register (h.item name) .stdlib .empty)
      fun _ => True :=
    registerAfter_builds (g := pure ()) (.pure trivial) hname (declared_item (by simp [hplain]))
      fun _ _ _ => hready _
  rwa [pure_bind] at hafter

theorem ensureVerifyAddress_builds : Builds native deps ensureVerifyAddress fun _ => True := by
  refine Builds.has.andThen fun known => ?_
  cases known with
  | true => exact .pure trivial
  | false => exact registerHelper_builds (by decide) rfl (by simp)

theorem ensureVerifyAddress_has {d d' : Draft} {u : Unit}
    (h : ensureVerifyAddress env d = .ok u d') :
    d'.registry.has Helper.verifyAddressName = true := by
  simp only [ensureVerifyAddress, has, run_bind, run_get, run_pure] at h
  obtain ⟨known, _, ⟨_, _, ⟨rfl, rfl⟩, rfl, rfl⟩, h⟩ := h
  cases hknown : d.registry.has Helper.verifyAddressName with
  | true =>
    rw [hknown] at h
    obtain ⟨-, rfl⟩ := run_pure.1 h
    exact hknown
  | false =>
    simp only [hknown, Bool.false_eq_true, if_false, register, run_bind, run_get, run_ofExcept,
      run_modify] at h
    obtain ⟨_, _, ⟨rfl, rfl⟩, r, _, ⟨hr, rfl⟩, rfl⟩ := h
    simp only [Emission.Registry.register, Except.bind_eq_ok] at hr
    obtain ⟨entry, hentry, hr⟩ := hr
    have hname : Helper.verifyAddressName = entry.name := by
      simpa using Emission.Registry.name?_of_entryOf hentry
    rw [← hname, hknown, if_neg (by simp)] at hr
    obtain rfl := Except.pure_eq_ok.1 hr
    rw [Emission.Registry.has, Dict.contains, Dict.get?_insertNew]
    simp

/-- A helper that checks addresses is entered after the check. -/
theorem enterVerifying_builds {name : String} {h : Helper} (hname : Helper.ofName? name = some h)
    (hv : h.verifies = true) :
    Builds native deps (do
        ensureVerifyAddress
        register (h.item name) .stdlib (.ofList [Helper.verifyAddressName])) fun _ => True := by
  refine registerAfter_builds ensureVerifyAddress_builds hname
    (declared_item fun _ => by simp [NameSet.ofList, NameSet.insertAll]) fun d d' hrun => ?_
  refine ⟨fun _ _ _ => ensureVerifyAddress_has hrun, fun hsender => ?_⟩
  obtain rfl : h = .contextGetSender := by simpa [hname] using hsender
  simp [Helper.verifies] at hv

/-- The helper that reads the sender of the message is entered after the variable. -/
theorem enterSender_builds {name : String} (hname : Helper.ofName? name = some .contextGetSender) :
    Builds native deps (do
        declareContext
        register (Helper.contextGetSender.item name) .stdlib .empty) fun _ => True := by
  refine registerAfter_builds declareContext_builds hname (declared_item (by simp [Helper.verifies]))
    fun d d' hrun => ⟨fun helper hhelper hv => ?_, fun _ => (declareContext_declares hrun).1⟩
  obtain rfl : Helper.contextGetSender = helper := by simpa [hname] using hhelper
  simp [Helper.verifies] at hv

/-- Enter a helper that is not there yet. -/
theorem enterHelper_builds {name : String} {h : Helper} (hname : Helper.ofName? name = some h)
    (hsender : h ≠ .contextGetSender) :
    Builds native deps (if h.verifies then do
        ensureVerifyAddress
        register (h.item name) .stdlib (.ofList [Helper.verifyAddressName])
      else register (h.item name) .stdlib .empty) fun _ => True := by
  by_cases hv : h.verifies = true
  · rw [if_pos hv]
    exact enterVerifying_builds hname hv
  · rw [if_neg hv]
    exact registerHelper_builds hname (by simpa using hv) hsender

theorem ensureHelper_builds {name : String} : Builds native deps (ensureHelper name) fun _ => True := by
  unfold ensureHelper
  refine Builds.has.andThen fun known => ?_
  cases known with
  | true => exact .pure trivial
  | false =>
    simp only [Bool.false_eq_true, if_false]
    split
    · next hdict =>
      exact (Builds.skip (.inr hdict) (.of_isDictionary hdict)).andThen fun _ => .pure trivial
    · cases hname : Helper.ofName? name with
      | none =>
        split
        · exact declareContext_builds.andThen fun _ => .defect
        · exact .defect
      | some h =>
        split
        · next heq =>
          obtain rfl : Helper.contextGetSender = h := by
            have hsender : Helper.ofName? Helper.contextGetSenderName = some .contextGetSender := by decide
            simpa [← heq, hname, eq_comm] using hsender
          simpa [Helper.verifies] using enterSender_builds hname
        · next hne =>
          refine enterHelper_builds hname fun heq => hne ?_
          exact Helper.eq_of_contextGetSender (heq ▸ hname)

theorem helper_builds {name : String}
    (h : deps.Admits name) :
    Builds native deps (helper name) fun n => n = name ∧ deps name :=
  ensureHelper_builds.andThen fun _ => Builds.used h

theorem callHelper_builds {name : String} {args : List Target.Expr}
    (h : deps.Admits name) :
    Builds native deps (callHelper name args) fun e =>
      (∀ arg ∈ args, arg.Declared deps) → e.Declared deps :=
  (helper_builds h).bind fun _ => .pure fun ⟨rfl, hdep⟩ hargs =>
    declared_called.2 ⟨.inr hdep, hargs⟩

theorem admits_tupleCreate {n : Nat} : deps.Admits (Helper.tupleCreateName n) :=
  .internal_append (by decide)

theorem admits_tupleDestroy {n : Nat} : deps.Admits (Helper.tupleDestroyName n) :=
  .internal_append (by decide)

theorem admits_equal {mode : Comparison} {absence : Absence} :
    deps.Admits (Helper.equalName mode absence) := by
  cases mode <;> cases absence <;> exact .internal (by decide +kernel)

/-! ### Literals -/

/-- Embedding a constant always succeeds, and is one step of the registry. -/
theorem run_embed {e : Emission.Embedded} {d : Draft} :
    embed e.name e.kind.ty e.cell e.kind.push env d =
      .ok () { d with registry := d.registry.embed e } := by
  cases hknown : d.registry.has e.name with
  | true =>
    have hsame : d.registry.embed e = d.registry := by
      have hcontains : d.registry.functions.contains e.name = true := hknown
      rw [Emission.Registry.embed, Dict.insertNew, if_pos hcontains]
    have hrun : ∃ u d', embed e.name e.kind.ty e.cell e.kind.push env d = .ok u d' ∧ d' = d := by
      refine ⟨(), d, ?_, rfl⟩
      simp only [embed, has, run_bind, run_get, run_pure]
      exact ⟨true, d, ⟨d, d, ⟨rfl, rfl⟩, hknown, rfl⟩, run_pure.2 ⟨rfl, rfl⟩⟩
    obtain ⟨⟨⟩, _, hrun, rfl⟩ := hrun
    rw [hrun, hsame]
  | false =>
    have hrun : embed e.name e.kind.ty e.cell e.kind.push env d =
        .ok () { d with registry := d.registry.embed e } := by
      simp only [embed, has, run_bind, run_get, run_pure]
      refine ⟨false, d, ⟨d, d, ⟨rfl, rfl⟩, hknown, rfl⟩, ?_⟩
      simp only [Bool.false_eq_true, if_false, register, run_bind, run_get, run_ofExcept, run_modify]
      refine ⟨d, d, ⟨rfl, rfl⟩, d.registry.embed e, d, ⟨?_, rfl⟩, rfl⟩
      simp only [Emission.Registry.register, Emission.Registry.entryOf, Except.bind_eq_ok]
      exact ⟨e.entry, rfl, by simp [Emission.Embedded.entry, hknown, Emission.Registry.embed]⟩
    exact hrun

theorem embed_builds {e : Emission.Embedded} :
    Builds true deps (embed e.name e.kind.ty e.cell e.kind.push) fun _ => True := by
  intro d a d' hrun hd
  obtain rfl : { d with registry := d.registry.embed e } = d' := by
    rw [run_embed] at hrun
    cases hrun
    rfl
  have hauxiliary : e.entry.Auxiliary env.program.types :=
    .of_definition rfl (by simp [Emission.Embedded.item])
      (.inr ⟨e.name, e.kind.ty, _, e.prefix_name, rfl⟩)
  have hname : Name.isEmitted e.name = true := by
    simpa [Name.isEmitted] using Or.inr e.prefix_name
  have hsound : (d.registry.embed e).Sound true := by
    have hentry : e.entry.Sound true :=
      .defined rfl (by simp) (.inl hname) (by simp [Emission.Embedded.item])
    have hready : d.registry.Prepared e.entry.name :=
      Emission.Registry.prepared_of_isEmitted hname
    exact Emission.Registry.insertNew_sound hd hentry fun _ => hready
  exact ⟨.of_registry (Emission.Registry.develops_insertNew hauxiliary) ⟨[e], .embed e (.refl _)⟩,
    hsound, fun _ => trivial⟩

theorem run_ofCell {α : Type} {d d' : Draft} {x : Except Cell.Error α} {a : α} :
    ofCell x env d = .ok a d' ↔ x = .ok a ∧ d = d' := by
  cases x with
  | ok b => exact run_pure.trans (by simp)
  | error e => simp [ofCell, defect]

theorem ofCell_builds {α : Type} {x : Except Cell.Error α} :
    Builds true deps (ofCell x) fun a => x = .ok a := by
  cases x with
  | ok a => exact .pure rfl
  | error e => exact .defect

/-- Writing an embedded constant: entering it and calling it. -/
def pushEmbedded (e : Emission.Embedded) : Gen Target.Expr := do
  embed e.name e.kind.ty e.cell e.kind.push
  callUsed e.name []

theorem sliceConstant_string (cell : Cell) : sliceConstant "string" cell = pushEmbedded ⟨.string, cell⟩ :=
  rfl

theorem sliceConstant_address (cell : Cell) :
    sliceConstant "address" cell = pushEmbedded ⟨.address, cell⟩ := rfl

theorem sliceConstant_slice (cell : Cell) : sliceConstant "slice" cell = pushEmbedded ⟨.slice, cell⟩ :=
  rfl

theorem cellConstant_eq (cell : Cell) : cellConstant cell = pushEmbedded ⟨.cell, cell⟩ := rfl

theorem pushEmbedded_builds {e : Emission.Embedded} :
    Builds true deps (pushEmbedded e) (Target.Expr.Declared deps) := by
  refine embed_builds.andThen fun _ => (Builds.callUsed ?_).mono fun e he => he (by simp)
  exact .internal (.trans (by decide) e.prefix_name)

theorem literalWithin_builds (fuel : Nat) (value : Value) (ty : TypeRef) :
    Builds true deps (literalWithin fuel value ty) (Target.Expr.Declared deps) := by
  fun_induction literalWithin fuel value ty with
  | case1 | case2 | case3 => exact .pure (by simp)
  | case4 => exact ofCell_builds.andThen fun c => sliceConstant_string c ▸ pushEmbedded_builds
  | case5 => exact ofCell_builds.andThen fun c => sliceConstant_address c ▸ pushEmbedded_builds
  | case6 => exact sliceConstant_slice _ ▸ pushEmbedded_builds
  | case7 => exact cellConstant_eq _ ▸ pushEmbedded_builds
  | case8 => exact .throw
  | case9 ty fuel typeName fields ih =>
    refine declOf_builds.andThen fun decl => ?_
    split
    · exact .pure (by simp)
    · refine (Builds.mapM (Q := Target.Expr.Declared deps) fun field _ => ?_).bind fun items => ?_
      · split
        · exact ih _ _
        · exact .defect
      · split
        · exact (Builds.callUsed (.ofType (by decide))).mono fun e he hitems =>
            he (by simpa using hitems)
        · exact .pure fun hitems => by simpa using hitems

theorem literal_builds {value : Value} {ty : TypeRef} :
    Builds true deps (literal value ty) (Target.Expr.Declared deps) :=
  Builds.table.andThen fun _ => literalWithin_builds _ _ _

/-! ### Operands -/

/-- The code of an operand is declared. -/
def Operand.Declared (deps : Deps env) (o : Operand) : Prop :=
  Builds true deps o.code (Target.Expr.Declared deps)

theorem castTo_builds {target source : TypeRef} {code : Target.Expr} :
    Builds true deps (castTo target source code) fun e => code.Declared deps → e.Declared deps := by
  unfold castTo
  split
  · exact .pure fun h => h
  · refine structOf_builds.andThen fun decl? => ?_
    split
    · exact (Builds.callUsed (.ofType (by decide))).mono fun e he hcode => he (by simpa using hcode)
    · exact .pure fun h => h

theorem cast_builds {o : Operand} {target : TypeRef} (ho : o.Declared deps) :
    Builds true deps (o.cast target) (Target.Expr.Declared deps) := by
  unfold Operand.cast
  split
  · exact .pure (by simp)
  · exact ho.bind fun code => castTo_builds

theorem lvalue_builds {path : Expr} : Builds true deps (lvalue path) (Target.Expr.Declared deps) := by
  unfold lvalue
  split
  · exact unpack_builds
  · exact .defectAt

theorem arguments_builds {os : List Operand} {tys : List TypeRef}
    (hos : ∀ o ∈ os, o.Declared deps) :
    Builds true deps (arguments os tys) fun es => ∀ e ∈ es, e.Declared deps := by
  induction os generalizing tys with
  | nil => exact .pure (by simp)
  | cons o os ih =>
    obtain ⟨ho, hos⟩ := List.forall_mem_cons.1 hos
    cases tys with
    | nil =>
      refine Builds.bind ho fun first => (ih hos).bind fun rest => .pure fun hrest hfirst => ?_
      exact List.forall_mem_cons.2 ⟨hfirst, hrest⟩
    | cons ty tys =>
      refine (cast_builds ho).bind fun first => (ih hos).bind fun rest => .pure fun hrest hfirst => ?_
      exact List.forall_mem_cons.2 ⟨hfirst, hrest⟩

theorem constantString_builds {o : Operand} : Builds true deps o.constantString fun _ => True := by
  unfold Operand.constantString
  split
  · exact .pure trivial
  · exact Builds.read.andThen fun _ => .pure trivial

theorem selfBinding_builds {s : Scope} : Builds true deps s.selfBinding (Target.Expr.Declared deps) := by
  unfold Scope.selfBinding
  split
  · exact unpack_builds
  · exact .defect

theorem returned_builds {s : Scope} {value : Option Target.Expr} :
    Builds true deps (s.returned value) fun e =>
      (∀ v ∈ value, v.Declared deps) → e.Declared deps := by
  unfold Scope.returned
  split
  · exact selfBinding_builds.mono fun e he _ => he
  · have hgetD : (∀ v ∈ value, v.Declared deps) → (value.getD (.tensor [])).Declared deps := by
      cases value <;> simp
    split
    · refine selfBinding_builds.bind fun self => .pure fun hself hvalue => ?_
      simpa using ⟨hself, hgetD hvalue⟩
    · exact .pure hgetD

/-! ### Calls that the compiler knows itself -/

variable {os : List Operand}

theorem requireCall_builds {cond message : Operand} (hcond : cond.Declared deps) :
    Builds true deps (requireCall cond message) (Target.Expr.Declared deps) := by
  refine constantString_builds.andThen fun text? => ?_
  split
  · exact .misuseAt
  · exact Builds.bind hcond fun c => .pure fun hc => by simp [Target.Declared, builtins, hc]

theorem hashCall_builds {o : Operand} (ho : o.Declared deps) :
    Builds true deps (hashCall o) (Target.Expr.Declared deps) := by
  refine constantString_builds.andThen fun text? => ?_
  split
  · exact .pure (by simp)
  · refine primitiveOf_builds.andThen fun kind? => ?_
    split
    · exact Builds.bind ho fun c => .pure fun hc => by simp [Target.Declared, builtins, hc]
    · exact Builds.bind ho fun c => .pure fun hc => by simp [Target.Declared, builtins, hc]
    · exact .misuseAt

theorem addressCall_builds {o : Operand} {ty : TypeRef} :
    Builds true deps (addressCall o ty) (Target.Expr.Declared deps) := by
  refine constantString_builds.andThen fun text? => ?_
  split
  · exact .misuseAt
  · split
    · exact literal_builds
    · exact .misuseAt

theorem call1_builds {name callee : String} {loc : Location} (hos : ∀ o ∈ os, o.Declared deps)
    (hcallee : callee ∈ builtins ∧ callee ≠ dataWriter) :
    Builds true deps (call1 name callee os loc) (Target.Expr.Declared deps) := by
  unfold call1
  split
  · next a =>
    have ha := hos a (by simp)
    exact Builds.bind ha fun c => .pure fun hc => by simpa using ⟨.inl hcallee, hc⟩
  · exact .defectAt

theorem call2_builds {name callee : String} {loc : Location} (hos : ∀ o ∈ os, o.Declared deps)
    (hcallee : callee ∈ builtins ∧ callee ≠ dataWriter) :
    Builds true deps (call2 name callee os loc) (Target.Expr.Declared deps) := by
  unfold call2
  split
  · next a b =>
    have ha := hos a (by simp)
    have hb := hos b (by simp)
    refine Builds.bind ha fun c => Builds.bind hb fun e => .pure fun he hc => ?_
    simpa using ⟨.inl hcallee, hc, he⟩
  · exact .defectAt

/-- Code that is there only if a name is known. -/
def DeclaredIfKnown (deps : Deps env) (code? : Option Target.Expr) : Prop :=
  ∀ code ∈ code?, code.Declared deps

theorem Builds.known {g : Gen Target.Expr} (hg : Builds true deps g (Target.Expr.Declared deps)) :
    Builds true deps (some <$> g) (DeclaredIfKnown deps) :=
  hg.map fun e he => by simpa [DeclaredIfKnown] using he

theorem globalCall_builds {info : Expr.Info} {name : String} (hos : ∀ o ∈ os, o.Declared deps) :
    Builds true deps (globalCall info name os) (DeclaredIfKnown deps) := by
  unfold globalCall
  split
  · split
    · next cond message => exact (requireCall_builds (hos cond (by simp))).known
    · exact .defectAt
  · exact (call1_builds hos (by simp [builtins])).known
  · exact (call2_builds hos (by simp [builtins])).known
  · exact (call2_builds hos (by simp [builtins])).known
  · exact .pure (by simp [DeclaredIfKnown])
  · exact .pure (by simp [DeclaredIfKnown])
  · exact .pure (by simp [DeclaredIfKnown])
  · exact .pure (by simp [DeclaredIfKnown])
  · exact ((callHelper_builds (.internal (by decide))).mono fun e he => he (by simp)).known
  · exact .pure (by simp [DeclaredIfKnown, Target.Declared, builtins])
  · exact .pure (by simp [DeclaredIfKnown, Target.Declared, builtins])
  · exact (call2_builds hos (by simp [builtins])).known
  · exact (call2_builds hos (by simp [builtins])).known
  · exact (call1_builds hos (by simp [builtins])).known
  · split
    · next arg => exact (hashCall_builds (hos arg (by simp))).known
    · exact .defectAt
  · split
    · exact addressCall_builds.known
    · exact .defectAt
  · exact .pure (by simp [DeclaredIfKnown])

theorem toCell_builds {decl : TypeDecl} {receiver : Operand} {name : String}
    (hreceiver : receiver.Declared deps) :
    Builds true deps (toCell decl receiver name os) (Target.Expr.Declared deps) := by
  unfold toCell
  split
  · refine Builds.bind hreceiver fun value =>
      (Builds.callUsed (.ofType (by decide))).mono fun e he hvalue => he ?_
    simpa using hvalue
  · exact .throw_bind

theorem instanceCall_builds {decl : TypeDecl} {receiver : Operand} {name : String}
    (hreceiver : receiver.Declared deps) :
    Builds true deps (instanceCall decl receiver name os) (DeclaredIfKnown deps) := by
  unfold instanceCall
  split
  · exact (toCell_builds hreceiver).known
  · exact (toCell_builds hreceiver).bind fun cell => .pure fun hcell => by
      simpa [DeclaredIfKnown] using hcell
  · exact .pure (by simp [DeclaredIfKnown])

theorem typeCall_builds {decl : TypeDecl} {name : String} {loc : Location}
    (hos : ∀ o ∈ os, o.Declared deps) :
    Builds true deps (typeCall decl name os loc) (DeclaredIfKnown deps) := by
  unfold typeCall
  split
  · next cell =>
    refine Builds.bind (hos cell (by simp)) fun code =>
      (Builds.callUsed (.ofType (by decide))).map fun e he hcode => ?_
    simpa [DeclaredIfKnown] using he (by simpa using hcode)
  · next slice =>
    refine Builds.bind (hos slice (by simp)) fun code =>
      (Builds.callUsed (.ofType (by decide))).map fun e he hcode => ?_
    simpa [DeclaredIfKnown] using he (by simpa using hcode)
  · exact .defectAt
  · exact .defectAt
  · exact .pure (by simp [DeclaredIfKnown])

/-! ### Maps -/

theorem admits_operation {kind : MapKind} {name : String} : deps.Admits (kind.operation name) := by
  change deps.Admits ("__tact_dict_" ++ name ++ "_" ++ kind.keyWord ++ "_" ++ kind.valueWord)
  simp only [String.append_assoc]
  exact .internal_append (by decide)

theorem admits_keyOperation {kind : MapKind} {name : String} :
    deps.Admits (kind.keyOperation name) := by
  change deps.Admits ("__tact_dict_" ++ name ++ "_" ++ kind.keyWord)
  simp only [String.append_assoc]
  exact .internal_append (by decide)

theorem supplies_operation {kind : MapKind} {name : String} :
    env.program.types.Supplies (kind.operation name) := by
  have heq : kind.operation name = "__tact_dict_" ++ name ++ "_" ++ kind.keyWord ++ "_" ++ kind.valueWord :=
    rfl
  exact .inl (by simp [heq, Helper.dictionaryStart])

theorem supplies_keyOperation {kind : MapKind} {name : String} :
    env.program.types.Supplies (kind.keyOperation name) := by
  have heq : kind.keyOperation name = "__tact_dict_" ++ name ++ "_" ++ kind.keyWord := rfl
  exact .inl (by simp [heq, Helper.dictionaryStart])

theorem dictionary_builds {name : String} (h : deps.Admits name)
    (hsupplies : env.program.types.Supplies name) :
    Builds true deps (dictionary name) fun n => n = name ∧ deps name :=
  Builds.used_bind h <| (Builds.skip (.inl rfl) hsupplies).andThen fun _ => .pure fun h => ⟨rfl, h⟩

theorem mapVariable_builds {receiver : Operand} {name : String} :
    Builds true deps (mapVariable receiver name) (Target.Expr.Declared deps) := by
  unfold mapVariable
  split
  · exact lvalue_builds
  · exact .throw_bind

theorem mapValue_builds {kind : MapKind} {value : Operand} (hvalue : value.Declared deps) :
    Builds true deps (mapValue kind value) (Target.Expr.Declared deps) := by
  refine Builds.bind hvalue fun code => ?_
  split
  · split
    · exact .pure fun h => h
    · split
      · exact (Builds.callUsed (.ofType (by decide))).mono fun e he hcode =>
          he (by simpa using hcode)
      · exact (Builds.callUsed (.ofType (by decide))).mono fun e he hcode =>
          he (by simpa using hcode)
  · exact .pure fun h => h

theorem declared_withValueBits {kind : MapKind} {args : List Target.Expr}
    (h : ∀ e ∈ args, e.Declared deps) : ∀ e ∈ kind.withValueBits args, e.Declared deps := by
  unfold MapKind.withValueBits
  split
  · simpa [or_imp, forall_and] using h
  · exact h

theorem mapGet_builds {kind : MapKind} {receiver key : Operand} (hreceiver : receiver.Declared deps)
    (hkey : key.Declared deps) :
    Builds true deps (mapGet kind receiver key) (Target.Expr.Declared deps) := by
  refine Builds.bind hreceiver fun m => Builds.bind hkey fun k => ?_
  refine (dictionary_builds admits_operation supplies_operation).bind fun op => ?_
  refine .pure fun ⟨rfl, hop⟩ hk hm => declared_called.2 ⟨.inr hop, declared_withValueBits ?_⟩
  simp [hk, hm]

theorem mapSet_builds {kind : MapKind} {receiver key value : Operand} {name : String}
    (hkey : key.Declared deps) (hvalue : value.Declared deps) :
    Builds true deps (mapSet kind receiver name key value) (Target.Expr.Declared deps) := by
  refine mapVariable_builds.bind fun m => Builds.bind hkey fun k => ?_
  refine (mapValue_builds hvalue).bind fun v => ?_
  refine (dictionary_builds admits_operation supplies_operation).bind fun op => ?_
  refine .pure fun ⟨rfl, hop⟩ hv hk hm => declared_modify.2 ⟨.inr hop, hm, declared_withValueBits ?_⟩
  simp [hk, hv]

theorem mapDelete_builds {kind : MapKind} {receiver key : Operand} {name : String}
    (hkey : key.Declared deps) :
    Builds true deps (mapDelete kind receiver name key) (Target.Expr.Declared deps) := by
  refine mapVariable_builds.bind fun m => Builds.bind hkey fun k => ?_
  refine (dictionary_builds admits_keyOperation supplies_keyOperation).bind fun op => ?_
  exact .pure fun ⟨rfl, hop⟩ hk hm => declared_modify.2 ⟨.inr hop, hm, by simp [hk]⟩

theorem mapCall_builds {receiver : Operand} {name : String} {loc : Location}
    (hreceiver : receiver.Declared deps) (hos : ∀ o ∈ os, o.Declared deps) :
    Builds true deps (mapCall receiver name os loc) (Target.Expr.Declared deps) := by
  refine Builds.table.andThen fun t => Builds.ofExcept.andThen fun kind => ?_
  split
  · next key =>
    refine (mapGet_builds hreceiver (hos key (by simp))).bind fun raw => ?_
    split
    · exact (Builds.callUsed (.ofType (by decide))).mono fun e he hraw => he (by simpa using hraw)
    · exact .pure fun h => h
  · next key =>
    exact (mapGet_builds hreceiver (hos key (by simp))).bind fun raw => .pure fun h => by simpa using h
  · next key value => exact mapSet_builds (hos key (by simp)) (hos value (by simp))
  · next key value => exact mapSet_builds (hos key (by simp)) (hos value (by simp))
  · next key => exact mapDelete_builds (hos key (by simp))
  · exact Builds.bind hreceiver fun m => .pure fun h => by simpa using h
  · exact hreceiver
  · split
    · exact .defectAt
    · exact .misuseAt

/-! ### Variables, fields and calls -/

theorem identifier_builds {s : Scope} {info : Expr.Info} {name : String} :
    Builds true deps (identifier s info name) (Target.Expr.Declared deps) := by
  unfold identifier
  split
  · exact selfBinding_builds
  · refine Builds.table.andThen fun t => ?_
    split
    · exact literal_builds
    · exact unpack_builds

theorem localPath_builds {e : Expr} : Builds true deps (localPath e) fun _ => True := by
  unfold localPath
  split
  · refine Builds.table.andThen fun t => ?_
    split
    · exact .pure trivial
    · exact .pure trivial
  · exact .pure trivial

theorem fieldAccess_builds {e : Expr} {target : Operand} {name : String}
    (htarget : target.Declared deps) :
    Builds true deps (fieldAccess e target name) (Target.Expr.Declared deps) := by
  refine localPath_builds.andThen fun segments? => ?_
  split
  · exact unpack_builds
  · refine structOf_builds.andThen fun decl? => ?_
    split
    · exact .defectAt
    · refine Builds.bind htarget fun value => ?_
      refine (Builds.callUsed (.inl TypeTable.mentions_getter)).mono fun e he hvalue => he ?_
      simpa using hvalue

theorem functionCall_builds {info : Expr.Info} {name : String} (hos : ∀ o ∈ os, o.Declared deps) :
    Builds true deps (functionCall info name os) (Target.Expr.Declared deps) := by
  refine (globalCall_builds hos).bind fun code? => ?_
  split
  · exact .pure fun h => h _ rfl
  · refine Builds.table_bind ?_
    split
    · exact .defectAt
    · next f hf =>
      split
      · next native hnative =>
        have hfunction : env.program.types.HasFunction f := .inl (Dict.mem_values_of_get? hf)
        have hmentions := TypeTable.Mentions.native hfunction hnative
        refine (arguments_builds hos).bind fun args => ?_
        refine (Builds.skip (.inl rfl) (.inr ⟨f, hfunction, hnative⟩)).andThen fun _ => ?_
        exact (Builds.callUsed (.inl hmentions)).mono fun e he hargs _ => he hargs
      · refine (arguments_builds hos).bind fun args => ?_
        exact (Builds.callUsed (.inl (.global hf))).mono fun e he hargs _ => he hargs
      · exact .defectAt

theorem shapeCast_builds {ty : TypeRef} : Builds true deps (shapeCast ty) fun _ => True := by
  unfold shapeCast
  split
  · exact .pure trivial
  · refine structOf_builds.andThen fun decl? => ?_
    split <;> exact .pure trivial

theorem name_of_shapeCast {ty : TypeRef} {d d' : Draft} {name : String}
    (h : shapeCast ty env d = .ok (some name) d') : ∃ type, name = Name.tensorCast type := by
  unfold shapeCast at h
  split at h
  · simp at h
  · obtain ⟨decl?, _, -, h⟩ := run_bind.1 h
    cases decl? with
    | none => simp at h
    | some decl =>
      by_cases hfields : decl.fields.isEmpty = true
      · simp [hfields] at h
      · simp only [hfields, Bool.false_eq_true, if_false, run_pure, Option.some.injEq] at h
        exact ⟨decl.name, h.1.symm⟩

theorem castLone_builds {codes : List Target.Expr} :
    Builds true deps (castLone os codes) fun es =>
      (∀ e ∈ codes, e.Declared deps) → ∀ e ∈ es, e.Declared deps := by
  unfold castLone
  split
  · refine shapeCast_builds.bind_run fun cast? d d' hcast => ?_
    split
    · obtain ⟨type, rfl⟩ := name_of_shapeCast hcast
      exact (Builds.callUsed (.ofType (by decide))).bind fun e => .pure fun he _ hcodes =>
        by simpa using he hcodes
    · exact .pure fun _ h => h
  · exact .pure fun h => h

theorem methodCallee_builds {decl : TypeDecl} {f : Function} {loc : Location}
    (hf : env.program.types.HasFunction f) :
    Builds true deps (methodCallee decl f loc) fun _ => True := by
  unfold methodCallee
  split
  · next hbody =>
    exact (Builds.skip (.inl rfl) (.inr ⟨f, hf, hbody⟩)).andThen fun _ => .pure trivial
  · exact .pure trivial
  · exact .defectAt

/-- A method has the name of a native function, or one that a second function can be named after. -/
theorem mentions_methodCallee {decl : TypeDecl} {f : Function} {loc : Location} {d d' : Draft}
    {callee : String} (hf : env.program.types.HasFunction f)
    (h : methodCallee decl f loc env d = .ok callee d') : env.program.types.Mentions callee ∧
      (f.nativeName = none → env.program.types.Mentions (Name.notMut callee)) := by
  cases hbody : f.body with
  | native name =>
    simp only [methodCallee, hbody, run_bind, run_pure] at h
    obtain ⟨_, _, -, rfl, -⟩ := h
    exact ⟨.native hf hbody, by simp [Function.nativeName, hbody]⟩
  | statements stmts =>
    simp only [methodCallee, hbody, run_pure] at h
    obtain ⟨rfl, -⟩ := h
    exact ⟨TypeTable.mentions_method, fun _ => TypeTable.mentions_notMut⟩
  | abstract =>
    simp only [methodCallee, hbody] at h
    exact absurd h run_throw

theorem extensionCall_builds {decl : TypeDecl} {f : Function} {receiver : Operand} {loc : Location}
    (hf : env.program.types.HasFunction f) (hreceiver : receiver.Declared deps)
    (hos : ∀ o ∈ os, o.Declared deps) :
    Builds true deps (extensionCall decl f receiver os loc) (Target.Expr.Declared deps) := by
  have hvalue : ∀ callee types, env.program.types.Mentions callee → Builds true deps (do
      let self ← receiver.code
      let args ← arguments os types
      callUsed callee (self :: args)) (Target.Expr.Declared deps) := by
    intro callee types hcallee
    refine Builds.bind hreceiver fun self => (arguments_builds hos).bind fun args => ?_
    refine (Builds.callUsed (.inl hcallee)).mono fun e he hargs hself => he ?_
    exact List.forall_mem_cons.2 ⟨hself, hargs⟩
  refine (methodCallee_builds hf).bind_run fun callee _ _ hcallee => Builds.mono ?_ fun _ he _ => he
  obtain ⟨hmentions, hnotMut⟩ := mentions_methodCallee hf hcallee
  split
  · exact hvalue _ _ hmentions
  · split
    · refine lvalue_builds.bind fun target => (arguments_builds hos).bind fun args => ?_
      refine castLone_builds.bind fun codes => (Builds.used (.inl hmentions)).bind fun _ => .pure ?_
      rintro ⟨rfl, hdep⟩ hcodes hargs htarget
      exact declared_modify.2 ⟨.inr hdep, htarget, hcodes hargs⟩
    · split
      · exact .misuseAt
      · next hnative => exact hvalue _ _ (hnotMut (by simpa using hnative))

theorem declaredCall_builds {info : Expr.Info} {typeName : String} {decl : TypeDecl}
    {receiver : Operand} {name : String} (hdecl : decl ∈ env.program.types.types.values)
    (hreceiver : receiver.Declared deps) (hos : ∀ o ∈ os, o.Declared deps) :
    Builds true deps (declaredCall info typeName decl receiver name os) (Target.Expr.Declared deps) := by
  unfold declaredCall
  split
  · next f hf =>
    exact extensionCall_builds (.inr ⟨decl, hdecl, Dict.mem_values_of_get? hf⟩) hreceiver hos
  · exact .misuseAt

theorem methodCall_builds {info : Expr.Info} {receiver : Operand} {name : String}
    (hreceiver : receiver.Declared deps) (hos : ∀ o ∈ os, o.Declared deps) :
    Builds true deps (methodCall info receiver name os) (Target.Expr.Declared deps) := by
  unfold methodCall
  split
  · exact mapCall_builds hreceiver hos
  · split
    · exact .misuseAt
    · split
      · exact .defectAt
      · refine declOf_bind fun decl hdecl => ?_
        have hmem := Dict.mem_values_of_get? hdecl
        split
        · refine (instanceCall_builds hreceiver).bind fun code? => ?_
          split
          · exact .pure fun h => h _ rfl
          · exact (declaredCall_builds hmem hreceiver hos).mono fun e he _ => he
        · exact declaredCall_builds hmem hreceiver hos

theorem staticCall_builds {info : Expr.Info} {typeName name : String}
    (hos : ∀ o ∈ os, o.Declared deps) :
    Builds true deps (staticCall info typeName name os) (Target.Expr.Declared deps) := by
  refine declOf_builds.andThen fun decl => ?_
  split
  · refine (typeCall_builds hos).bind fun code? => ?_
    cases code? with
    | some code => exact .pure fun h => h _ rfl
    | none => exact .misuseAt
  · rw [pure_bind]
    exact .misuseAt

theorem deployment_builds {info : Expr.Info} {contract : String} (hos : ∀ o ∈ os, o.Declared deps) :
    Builds true deps (deployment info contract os) (Target.Expr.Declared deps) := by
  refine declOf_builds.andThen fun decl => ?_
  split
  · refine declareContext_builds.andThen fun _ => (arguments_builds hos).bind fun args => ?_
    refine (Builds.callUsed (.ofType (by decide))).mono fun e he hargs => he ?_
    simpa using hargs
  · exact .throw_bind

/-! ### Records -/

theorem fieldCode_builds {typeName : String} {inits : List (String × Operand)} {loc : Location}
    {field : Field} (hinits : ∀ p ∈ inits, p.2.Declared deps) :
    Builds true deps (fieldCode typeName inits loc field) (Target.Expr.Declared deps) := by
  unfold fieldCode
  split
  · next o ho =>
    exact cast_builds (hinits (field.name, o) (Dict.mem_entries_of_get? (d := ⟨inits⟩) ho))
  · split
    · exact literal_builds
    · exact .defectAt

theorem newRecord_builds {info : Expr.Info} {typeName : String} {inits : List (String × Operand)}
    (hinits : ∀ p ∈ inits, p.2.Declared deps) :
    Builds true deps (newRecord info typeName inits) (Target.Expr.Declared deps) := by
  refine declOf_builds.andThen fun decl => ?_
  split
  · exact .pure (by simp)
  · refine (Builds.mapM fun field _ => fieldCode_builds hinits).bind fun items => .pure fun h => ?_
    simpa using h

/-! ### Operators -/

theorem comparisonOf_builds {ty : TypeRef} {loc : Location} :
    Builds true deps (comparisonOf ty loc) fun _ => True := by
  unfold comparisonOf
  split
  · exact .pure trivial
  · refine primitiveOf_builds.andThen fun kind? => ?_
    split
    all_goals first | exact .pure trivial | exact .misuseAt

theorem declared_negateIf {negate : Bool} {code : Target.Expr} :
    (negateIf negate code).Declared deps ↔ code.Declared deps := by
  cases negate <;> simp [negateIf]

theorem compareCodes_builds {mode : Comparison} {negate leftAbsent rightAbsent : Bool}
    {l r : Target.Expr} :
    Builds true deps (compareCodes mode negate leftAbsent rightAbsent l r) fun e =>
      l.Declared deps → r.Declared deps → e.Declared deps := by
  have hhelper : ∀ absence a b, Builds true deps (do
      return negateIf negate (← callHelper (Helper.equalName mode absence) [a, b])) fun e =>
        a.Declared deps → b.Declared deps → e.Declared deps := by
    intro absence a b
    refine (callHelper_builds admits_equal).bind fun e => .pure fun he ha hb => declared_negateIf.2 (he ?_)
    simp [ha, hb]
  unfold compareCodes
  split
  · split
    · exact .pure fun hl hr => by simp [hl, hr]
    · exact hhelper _ _ _
  · exact hhelper _ _ _
  · exact (hhelper _ _ _).mono fun e he hl hr => he hr hl
  · exact hhelper _ _ _

theorem equality_builds {negate : Bool} {lhs rhs : Operand} {loc : Location}
    (hlhs : lhs.Declared deps) (hrhs : rhs.Declared deps) :
    Builds true deps (equality negate lhs rhs loc) (Target.Expr.Declared deps) := by
  unfold equality
  split
  · exact .pure (by simp)
  · exact Builds.bind hrhs fun r => .pure fun hr => declared_negateIf.2 (by simpa using hr)
  · exact Builds.bind hlhs fun l => .pure fun hl => declared_negateIf.2 (by simpa using hl)
  · refine comparisonOf_builds.andThen fun (mode, absent) => ?_
    refine Builds.bind hlhs fun l => Builds.bind hrhs fun r => ?_
    exact compareCodes_builds.mono fun e he hr hl => he hl hr

theorem binaryCode_builds {op : BinaryOp} {lhs rhs : Operand} {loc : Location}
    (hlhs : lhs.Declared deps) (hrhs : rhs.Declared deps) :
    Builds true deps (binaryCode op lhs rhs loc) (Target.Expr.Declared deps) := by
  unfold binaryCode
  split
  · exact equality_builds hlhs hrhs
  · exact equality_builds hlhs hrhs
  · refine Builds.bind hlhs fun l => Builds.bind hrhs fun r => ?_
    split
    all_goals exact .pure fun hr hl => by simp [hl, hr]

theorem unaryCode_builds {op : UnaryOp} {operand : Operand} (hoperand : operand.Declared deps) :
    Builds true deps (unaryCode op operand) (Target.Expr.Declared deps) := by
  refine Builds.bind hoperand fun value => ?_
  split
  · exact .pure fun h => by simpa using h
  · exact .pure fun h => by simpa using h
  · exact .pure fun h => by simpa using h
  · have hhelper : Builds true deps (callHelper Helper.notNullName [value]) fun e =>
        value.Declared deps → e.Declared deps :=
      (callHelper_builds (.internal (by decide))).mono fun e he hvalue => he (by simpa using hvalue)
    refine structOf_builds.andThen fun decl? => ?_
    split
    · split
      · exact (Builds.callUsed (.ofType (by decide))).mono fun e he hvalue =>
          he (by simpa using hvalue)
      · exact hhelper
    · exact hhelper

theorem conditionalCode_builds {ty : TypeRef} {cond onTrue onFalse : Operand}
    (hcond : cond.Declared deps) (htrue : onTrue.Declared deps) (hfalse : onFalse.Declared deps) :
    Builds true deps (conditionalCode ty cond onTrue onFalse) (Target.Expr.Declared deps) := by
  refine Builds.bind hcond fun c => (cast_builds htrue).bind fun t => ?_
  exact (cast_builds hfalse).bind fun f => .pure fun hf ht hc => by simp [hc, ht, hf]

/-! ### Expressions -/

theorem foldedOr_builds {e : Expr} {code : Gen Target.Expr}
    (hcode : Builds true deps code (Target.Expr.Declared deps)) :
    Builds true deps (foldedOr e code) (Target.Expr.Declared deps) := by
  refine Builds.read.andThen fun env => ?_
  split
  · exact literal_builds
  · exact hcode

mutual

/-- **Lowered expressions declare their calls.** -/
theorem lower_builds (s : Scope) : (e : Expr) → Builds true deps (lower s e) (Target.Expr.Declared deps)
  | .number .. | .boolean .. | .null .. => foldedOr_builds (.pure (by simp))
  | .string .. => foldedOr_builds literal_builds
  | .ident .. => foldedOr_builds identifier_builds
  | .field _ target _ => foldedOr_builds (fieldAccess_builds (lower_builds s target))
  | .call _ _ args => foldedOr_builds (functionCall_builds (operands_declared s args))
  | .methodCall _ receiver _ args =>
    foldedOr_builds (methodCall_builds (lower_builds s receiver) (operands_declared s args))
  | .staticCall _ _ _ args => foldedOr_builds (staticCall_builds (operands_declared s args))
  | .instanceOf _ _ inits => foldedOr_builds (newRecord_builds (initOperands_declared s inits))
  | .binary _ _ lhs rhs =>
    foldedOr_builds (binaryCode_builds (lower_builds s lhs) (lower_builds s rhs))
  | .unary _ _ operand => foldedOr_builds (unaryCode_builds (lower_builds s operand))
  | .conditional _ cond onTrue onFalse =>
    foldedOr_builds (conditionalCode_builds (lower_builds s cond) (lower_builds s onTrue)
      (lower_builds s onFalse))
  | .initOf _ _ args => foldedOr_builds (deployment_builds (operands_declared s args))

theorem operands_declared (s : Scope) : (es : List Expr) → ∀ o ∈ operands s es, o.Declared deps
  | [] => by simp [operands]
  | e :: es => List.forall_mem_cons.2 ⟨lower_builds s e, operands_declared s es⟩

theorem initOperands_declared (s : Scope) :
    (inits : List (String × Expr)) → ∀ p ∈ initOperands s inits, p.2.Declared deps
  | [] => by simp [initOperands]
  | (_, e) :: rest => List.forall_mem_cons.2 ⟨lower_builds s e, initOperands_declared s rest⟩

end

theorem lowerCast_builds {s : Scope} {e : Expr} {target : TypeRef} :
    Builds true deps (lowerCast s e target) (Target.Expr.Declared deps) :=
  cast_builds (lower_builds s e)

end Generate

end CellCompiler
