import CellCompiler.Proofs.Codec.Outside

/-!
# Incoming addresses are verified

No unchecked address gets into a contract, be it with a message, with the data of the contract or with
the arguments of a get-method.

* `getMethodItem_checks` is about the arguments that a get-method passes on (`PassesChecked`);
* `genuine_ofEntered` finds what the proofs about loading start from in finished modules;
* `incoming_verified` is the main result.
-/

namespace CellCompiler

open Emission (Output Registry)
open Generate Machine

variable {c : Code} {env : Env} {d d' : Draft} {table : TypeTable} {regular : Prop} {s s' : State}

/-! ### Get-methods -/

theorem getMethodParams_eq_ok {signature signature' : Target.Signature} {params : List Param}
    {args : List Target.Expr}
    (h : getMethodParams signature params env d = .ok (signature', args) d') :
    signature'.name = signature.name ∧
      signature'.params.map (·.name) =
        signature.params.map (·.name) ++ params.map (fun p => Name.var p.name) ∧
      List.Forall₂ (fun (p : Param) e => ∃ d d',
        fromOutside p.ty (Target.id (Name.var p.name)) env d = .ok e d') params args := by
  induction params generalizing signature signature' args d d' with
  | nil =>
    obtain ⟨heq, -⟩ := run_pure.1 h
    obtain ⟨rfl, rfl⟩ := Prod.mk.inj heq
    exact ⟨rfl, by simp, .nil⟩
  | cons p rest ih =>
    have hrest : ∀ {ty : Target.Ty} {d d' : Draft}, (do
        let arg ← fromOutside p.ty (Target.id (Name.var p.name))
        let below ← getMethodParams (signature.param ty (Name.var p.name)) rest
        return (below.1, arg :: below.2) : Gen _) env d = .ok (signature', args) d' →
        signature'.name = signature.name ∧
          signature'.params.map (·.name) =
            signature.params.map (·.name) ++ (p :: rest).map (fun p => Name.var p.name) ∧
          List.Forall₂ (fun (p : Param) e => ∃ d d',
            fromOutside p.ty (Target.id (Name.var p.name)) env d = .ok e d') (p :: rest) args := by
      intro ty d d' hrun
      simp only [run_bind, run_pure] at hrun
      obtain ⟨arg, d₁, harg, ⟨below, args'⟩, d₂, hbelow, heq, -⟩ := hrun
      obtain ⟨rfl, rfl⟩ := Prod.mk.inj heq
      obtain ⟨hname, hparams, hargs⟩ := ih hbelow
      exact ⟨by simpa using hname, by simpa using hparams, .cons ⟨d, d₁, harg⟩ hargs⟩
    simp only [getMethodParams, run_bind] at h
    obtain ⟨nested?, d₁, -, h⟩ := h
    cases nested? with
    | some nested => exact hrest (by simpa using h)
    | none =>
      simp only [run_bind] at h
      obtain ⟨ty, d₂, -, h⟩ := h
      exact hrest (by simpa using h)

/-- The get-method runs a method on the state that it loads. By the time it calls the method, all
addresses in the arguments have been checked. -/
def PassesChecked (c : Code) (table : TypeTable) (regular : Prop) (contract : TypeDecl) (f : Function) :
    Prop :=
  ∃ callee args value,
    (∀ owner, f.selfType.bind TypeRef.name? = some owner → callee = Name.method owner f.name) ∧
    c.Has (Name.getterMethod f.name) (f.params.map fun p => Name.var p.name)
      [Target.var (Target.id Name.self) (Target.call (Name.contractLoad contract.name) []),
        Target.var (Target.id "res") (if f.mutates then Target.modify (Target.id Name.self) callee args
          else Target.call callee (Target.id Name.self :: args)),
        Target.ret value] ∧
    ∀ (s : State) vs self s₁ ws s₂, vs.length = f.params.length →
      (regular → Val.AllOnStack vs ∧ ∀ p ∈ f.params, p.name ≠ "self") →
      Yields (call c (Name.contractLoad contract.name) [])
        (s.enter (f.params.map fun p => Name.var p.name) vs) self s₁ →
      Yields (evalAll c (Target.id Name.self :: args)) (s₁.set Name.self self) ws s₂ →
      ∃ rest, ws = self :: rest ∧
        List.Forall₂ (fun (p : Param) w => VerifiedArgument table regular p.ty w) f.params rest

theorem functionName_eq_ok {f : Function} {name : String} (h : functionName f env d = .ok name d') :
    ∀ owner, f.selfType.bind TypeRef.name? = some owner → name = Name.method owner f.name := by
  intro owner howner
  obtain ⟨ty, hty, hname⟩ := Option.bind_eq_some_iff.1 howner
  simp only [functionName, hty, hname, run_pure] at h
  exact h.1.symm

/-- A variable of a parameter holds the value that is passed for it. -/
theorem exists_get?_enter {names : List String} {vs : List Val} {name : String} (h : name ∈ names)
    (hlength : vs.length = names.length) : ∃ v ∈ vs, (s.enter names vs).get? name = some v := by
  have hmem : name ∈ (names.zip vs).map Prod.fst := by
    rwa [List.map_fst_zip hlength.ge]
  obtain ⟨v, hv⟩ := Dict.exists_get?_ofList hmem
  exact ⟨v, (List.of_mem_zip (Dict.mem_of_get?_ofList hv)).2, hv⟩

/-- **Get-methods check their arguments.** -/
theorem getMethodItem_checks (hc : c.Proper) (hw : env.program.types.WellNamed)
    (haccepts : ∀ type inner, env.program.types.types.get? type = some inner →
      inner.isStructLike = true → Accepts c env.program.types regular inner)
    {contract : TypeDecl} {f : Function} {item : Target.Item}
    (hrun : getMethodItem contract f env d = .ok item d')
    (hget : item.name? = some (Name.getterMethod f.name) →
      c.functions.get? (Name.getterMethod f.name) = some item) :
    PassesChecked c env.program.types regular contract f := by
  simp only [getMethodItem, used, run_bind, run_modify, run_pure] at hrun
  obtain ⟨_, _, ⟨_, _, -, rfl, -⟩, name, _, hname, _, _, ⟨_, _, -, rfl, -⟩, ⟨signature, args⟩, _, hparams,
    ⟨ty, value⟩, _, -, rfl, -⟩ := hrun
  obtain ⟨hsignature, hnames, hargs⟩ := getMethodParams_eq_ok hparams
  have hhas := hget (by simp [hsignature])
  refine ⟨name, args, value, functionName_eq_ok hname, ⟨_, hhas, hnames⟩, ?_⟩
  intro s vs self s₁ ws s₂ hlength hvs hload hall
  obtain ⟨w, t, hself, rest, hrest, rfl⟩ := yields_evalAll_cons.1 hall
  have hvar : Means c (s₁.set Name.self self) (Target.id Name.self) self := means_id (by simp)
  obtain ⟨rfl, rfl⟩ := hvar.iff.1 hself
  have hchecks : List.Forall₂ (ChecksArgument c env.program.types regular)
      (f.params.map fun p => (Name.var p.name, p.ty)) args := by
    rw [List.forall₂_map_left_iff]
    refine hargs.imp ?_
    rintro p e ⟨d, d', harg⟩
    exact fromOutside_checks hc hw harg fun type inner _ => haccepts type inner
  have hbound : ∀ p ∈ f.params, ∃ v, (s₁.set Name.self w).get? (Name.var p.name) = some v ∧
      (regular → v.OnStack) := by
    intro p hp
    have hmem : Name.var p.name ∈ f.params.map fun p => Name.var p.name := List.mem_map_of_mem hp
    obtain ⟨v, hv, hget⟩ := exists_get?_enter (s := s) hmem (by simpa using hlength)
    by_cases hself : Name.var p.name = Name.self
    · refine ⟨w, by simp [hself], fun hr => ?_⟩
      exact absurd (Name.var_injective hself) ((hvs hr).2 p hp)
    · refine ⟨v, ?_, fun hr => Val.allOnStack_iff.1 (hvs hr).1 v hv⟩
      rw [State.get?_set, if_neg hself, State.get?, hload.frame_eq, ← State.get?, hget]
  have hverified := evalAll_checks hchecks (List.forall_mem_map.2 hbound) hrest
  exact ⟨rest, rfl, by rwa [List.forall₂_map_left_iff] at hverified⟩

/-! ### Finished modules -/

theorem genuine_ofEntered {reg : Registry} (hw : env.program.types.WellNamed)
    (hsep : env.program.types.Separate)
    (hplans : planProgram env.program.types = .ok env.program.plans) (hsound : reg.Sound true)
    (hwithin : Within c reg) (hentered : ∀ decl ∈ env.program.types.structs,
      Conversions (Entered true env reg) env decl) : Genuine c env where
  proper := hwithin.proper hsound
  wellNamed := hw
  separate := hsep
  planned := Plans.planProgram_planned hw hplans
  acc _ _ hdecl hlike := Plan.planProgram_acc hw hplans hdecl hlike
  conversions decl hdecl := by
    obtain ⟨⟨r, hr⟩, view, sh, hview⟩ := hentered decl hdecl
    exact ⟨⟨r, hr.mono fun _ h => h.only hwithin⟩, view, sh, hview.mono fun _ h => h.only hwithin⟩

/-- A module has been compiled from a program, with or without a contract. -/
inductive CompilesTo (env : Env) (out : Output) : Prop where
  | library : compileLibrary env = .ok out → CompilesTo env out
  | contract {contract : String} : compileContract env contract = .ok out → CompilesTo env out

/-- **Incoming addresses are verified.** Take a table of types whose fields have separate names, with the
plans of the planner, and run what it compiles to, on any input at all. Whenever a codec has loaded a
record, or a conversion has taken one from outside, all addresses in it, at any depth, are standard, or
absent where the type allows it. So are those in the arguments that a get-method passes on.

This holds with `regular` false. If no record holds the state of a contract and inputs take up single
places on the stack, it also holds with `regular` true, and then also tells which leaf of a record in
its optional form is which. -/
theorem incoming_verified {types : TypeTable} {program : Program} {out : Output} (hw : types.WellNamed)
    (hsep : types.Separate) (hplanned : Program.planned types = .ok program)
    (hprogram : env.program = program) (hregular : regular → types.HoldsNoContract) :
    (CompilesTo env out → ∀ decl ∈ types.structs,
      Loaders (.ofOutput out) types regular decl ∧ Accepts (.ofOutput out) types regular decl) ∧
    ∀ contract decl, compileContract env contract = .ok out → types.types.get? contract = some decl →
      ∀ f ∈ decl.getters, PassesChecked (.ofOutput out) types regular decl f := by
  simp only [Program.planned, Except.bind_eq_ok, Except.pure_eq_ok] at hplanned
  obtain ⟨plans, hplans, rfl⟩ := hplanned
  have hgenuine : ∀ reg : Registry, reg.Sound true → Within (.ofOutput out) reg →
      (∀ decl ∈ env.program.types.structs, Conversions (Entered true env reg) env decl) →
      Genuine (.ofOutput out) env := by
    intro reg hsound hwithin hentered
    refine genuine_ofEntered ?_ ?_ ?_ hsound hwithin hentered
    · rwa [hprogram]
    · rwa [hprogram]
    · rwa [hprogram]
  constructor
  · intro hout decl hdecl
    have hdecl' : decl ∈ env.program.types.structs := by rwa [hprogram]
    obtain ⟨hmem, hstruct⟩ := TypeTable.mem_structs.1 hdecl
    have hget : env.program.types.types.get? decl.name = some decl := by
      rw [hprogram]
      exact hw.get?_name hmem
    have hg : Genuine (.ofOutput out) env := by
      cases hout with
      | library h =>
        obtain ⟨reg, hsound, hwithin, hentered⟩ := compileLibrary_entered h
        exact hgenuine reg hsound hwithin hentered
      | contract h =>
        obtain ⟨reg, hsound, hwithin, hentered, -⟩ := compileContract_entered h
        exact hgenuine reg hsound hwithin hentered
    have hloaders := hg.loaders (by rwa [hprogram]) hget hstruct
    have haccepts := hg.accepts (by rwa [hprogram]) hget (TypeDecl.isStructLike_of_isStruct hstruct)
    rw [hprogram] at hloaders haccepts
    exact ⟨hloaders, haccepts⟩
  · intro contract decl hout hdecl f hf
    obtain ⟨reg, hsound, hwithin, hentered, decl', roots, hdecl', hmethods, hpresent⟩ :=
      compileContract_entered hout
    obtain rfl : decl = decl' := by
      rw [hprogram] at hdecl'
      simpa [hdecl] using hdecl'
    have hg := hgenuine reg hsound hwithin hentered
    obtain ⟨d, item, d', hrun, -, -, hget⟩ := hmethods.entered f hf
    have hchecks := getMethodItem_checks hg.proper hg.wellNamed
      (fun type inner hinner hlike => hg.accepts (by rwa [hprogram]) hinner hlike) hrun
      fun hname => ?_
    · rwa [hprogram] at hchecks
    · obtain ⟨entry, hentry, hdef⟩ := hget _ hname
      exact hpresent _ (hmethods.mem_roots f hf) entry item hentry hdef

/-- An owner, perhaps with an heir. -/
def ownerDecl : TypeDecl := .ofFields .struct "Owner"
  [⟨"account", 0, .plain "Address", none, none⟩, ⟨"heir", 1, .named "Address" true, none, none⟩]

/-- The method that tells whether a deed can be passed on. -/
def acceptsMethod : Function where
  name := "accepts"
  selfType := some (.plain "Deed")
  params := [⟨"owner", .plain "Owner"⟩, ⟨"notary", .plain "Address"⟩]
  returns := .plain "Int"
  isGetter := true
  body := .statements [.ret {} (some (.ofInt 1))]

/-- A contract that keeps its owner. -/
def deedDecl : TypeDecl :=
  { TypeDecl.ofFields .contract "Deed" [⟨"owner", 0, .plain "Owner", none, none⟩] with
    functions := .ofList [("accepts", acceptsMethod)] }

/-- The contract with its plans. -/
def deedEnv : Env where
  program :=
    let types := (TypeTable.primitives.addType ownerDecl).addType deedDecl
    { types, plans := (planProgram types).toOption.getD {} }
  evaluate := noConstants

theorem deed_incoming_verified : deedEnv.program.types.WellNamed ∧ deedEnv.program.types.Separate ∧
    Program.planned deedEnv.program.types = .ok deedEnv.program ∧
    deedEnv.program.types.HoldsNoContract ∧ ∃ out, compileContract deedEnv "Deed" = .ok out ∧
      Loaders (.ofOutput out) deedEnv.program.types True ownerDecl ∧
      Accepts (.ofOutput out) deedEnv.program.types True ownerDecl ∧
      PassesChecked (.ofOutput out) deedEnv.program.types True deedDecl acceptsMethod := by
  have hw : deedEnv.program.types.WellNamed := ⟨by decide +kernel, by decide +kernel⟩
  have hsep : deedEnv.program.types.Separate := by
    have hall : ∀ decl ∈ deedEnv.program.types.types.values, (decl.fields.map (·.name)).Nodup ∧
        ∀ f ∈ decl.fields, '\'' ∉ f.name.toList := by decide +kernel
    exact fun decl hdecl => ⟨(hall decl hdecl).1, (hall decl hdecl).2⟩
  have hplanned : Program.planned deedEnv.program.types = .ok deedEnv.program := rfl
  have hholds : deedEnv.program.types.HoldsNoContract := by
    have hall : ∀ decl ∈ deedEnv.program.types.structs, ∀ f ∈ decl.fields,
        (f.ty.name?.bind deedEnv.program.types.types.get?).all (!·.isContract) = true := by
      decide +kernel
    intro decl hdecl f hf name optional inner hty hinner
    simpa [hty, TypeRef.name?, hinner] using hall decl hdecl f hf
  have howner : ownerDecl ∈ deedEnv.program.types.structs := by
    have hget : deedEnv.program.types.types.get? "Owner" = some ownerDecl := rfl
    exact List.mem_filter.2 ⟨Dict.mem_values_of_get? hget, rfl⟩
  obtain ⟨out, hout⟩ : ∃ out, compileContract deedEnv "Deed" = .ok out := by
    exact Except.exists_of_toOption_isSome (by decide +kernel)
  obtain ⟨hrecords, hmethods⟩ := incoming_verified hw hsep hplanned rfl
    fun _ : True => hholds
  obtain ⟨hloaders, haccepts⟩ := hrecords (.contract hout) ownerDecl howner
  exact ⟨hw, hsep, hplanned, hholds, out, hout, hloaders, haccepts,
    hmethods "Deed" deedDecl hout rfl acceptsMethod List.mem_cons_self⟩

end CellCompiler
