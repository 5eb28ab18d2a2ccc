import CellCompiler.Proofs.Codec.State
import CellCompiler.Proofs.Machine.Keeping
import CellCompiler.Proofs.Machine.Drawing

/-!
# Contracts keep their state

What the functions of a finished module do with the data of a contract.

* `KeepsState` says that a state that is stored is loaded again, and `StartsLazily` that a contract that has
  been deployed makes its first state when it is loaded for the first time;
* a module that has been pruned still has these functions, as its entry point needs them
  (`Compilation.writes_store`, `Compilation.writes_load`, `Compilation.writes_init`);
* `compileContract_persists` is the result.
-/

namespace CellCompiler

open Emission (Output Registry)
open Generate Machine
open Target (Item)

variable {c : Code} {env : Env} {decl : TypeDecl} {registry : Registry} {order : List String} {host : Host}

/-! ### What is said of a module -/

namespace Machine

/-- Ends of runs that hold the same: both runs go on for ever, or both stop, for the same reason or with
results that hold the same, and in states that hold the same. -/
def SameEnds : Option (Except Fault Val × State) → Option (Except Fault Val × State) → Prop :=
  Option.Rel fun p q => ResultRel Fault.Same Val.Same p.1 q.1 ∧ Likeness.same.States (fun _ => True) p.2 q.2

/-- A function cannot tell values apart that hold the same. -/
theorem sameEnds_call {name : String} {vs ws : List Val} (h : List.Forall₂ Val.Same vs ws) (s : State) :
    SameEnds (call c name vs s) (call c name ws s) := by
  have halike : Alike (fun _ => True) (fun _ => True) c c :=
    ⟨fun _ _ => rfl, fun _ _ _ _ _ _ => trivial, rfl, fun _ _ _ _ _ => trivial, rfl, fun _ _ => trivial⟩
  have hends : ∀ {vs ws : List Val} {p : Except Fault Val × State}, List.Forall₂ Val.Same vs ws →
      call c name vs s = some p → SameEnds (some p) (call c name ws s) := by
    intro vs ws p h hp
    obtain ⟨q, hq, hsame⟩ := halike.call .same trivial h s p hp s (.refl trivial)
    exact hq ▸ .some hsame
  cases hp : call c name vs s with
  | some p => exact hends h hp
  | none =>
    cases hq : call c name ws s with
    | none => exact .none
    | some q =>
      have hback := hends (h.flip.imp fun _ _ => Eq.symm) hq
      rw [hp] at hback
      exact nomatch hback

end Machine

/-- **A state that is stored is loaded again.** Storing it replaces the data of the contract. Loading it from
there gives the state back and sets the cell of known codes to the one that was set when it was stored. -/
def KeepsState (c : Code) (contract : String) (v : Val) : Prop :=
  ∀ {s s' t : State} {w : Val} {sys : Cell}, s.globals.get? Helper.contextSys = some (.cell sys) →
    Yields (call c (Name.contractStore contract) [v]) s w s' →
    t.data = s'.data → t.globals.contains Helper.contextSys = true →
    ∃ v', v'.Same v ∧
      Yields (call c (Name.contractLoad contract) []) t v' (t.setGlobal Helper.contextSys (.cell sys))

/-- **A contract that is deployed makes its first state when it is first loaded.** If the contract can be
deployed with the arguments, loading the state from the data that it is deployed with sets the cell of known
codes, and then does what making the first state out of the arguments does. -/
def StartsLazily (c : Code) (contract : String) (args : List Val) : Prop :=
  ∀ {s s' : State} {w : Val} {sys : Cell},
    Yields (call c (Name.initChild contract) (.cell sys :: args)) s w s' →
    ∃ code data, w = .tensor [code, .cell data] ∧ ∀ t : State, t.data = data →
      t.globals.contains Helper.contextSys = true →
      SameEnds (call c (Name.contractLoad contract) [] t)
        (call c (Name.contractInit contract) args (t.setGlobal Helper.contextSys (.cell sys)))

/-! ### What the registry runs -/

section

variable {r : Record}

theorem Library.keepsState (h : Library c env) (hdecl : env.program.types.types.get? decl.name = some decl)
    (hpersists : Persists c env decl) {v : Val} (hv : IsState env.program.types decl v) :
    KeepsState c decl.name v := by
  obtain ⟨r, hr, hcodecs⟩ := hpersists.state
  obtain ⟨values, rfl, hready⟩ := h.exists_state hdecl hr hv
  intro s s' t w sys hsys hstore hdata hglobal
  obtain ⟨y, rfl, hholds⟩ := hpersists.stores h.proper h.separate hr hcodecs hready hsys hstore
  exact hpersists.loads h.proper h.separate hr hcodecs hready (hdata ▸ hholds) hglobal

theorem Library.startsLazily (h : Library c env) (hdecl : env.program.types.types.get? decl.name = some decl)
    (hcontract : decl.isContract = true) (hparams : decl.SeparateParams) (hpersists : Persists c env decl)
    (hdeploys : Deploys c env decl) {args : List Val} (hargs : AreArguments env.program.types decl args) :
    StartsLazily c decl.name args := by
  obtain ⟨r, hr, hcodecs⟩ := hdeploys.arguments
  obtain ⟨values, rfl, hready, hfits⟩ :=
    h.exists_arguments hdecl hcontract hparams hpersists.state hr hargs
  intro s s' w sys hcall
  obtain ⟨-, code, y, rfl, hholds⟩ := hdeploys.deploys h.proper h.separate hr hcodecs hparams hready hcall
  refine ⟨code, y, rfl, fun t hdata hglobal => ?_⟩
  obtain ⟨ws, hws, hload⟩ := hpersists.loads_arguments h.proper h.separate hr hcodecs hparams hready hfits
    (hdata ▸ hholds) hglobal
  exact hload ▸ sameEnds_call hws _

end

/-! ### What the finished module runs -/

namespace Compilation

/-- The callees of a function that is written are written. -/
theorem writes_of_runs (h : Compilation env decl registry order) {g : Gen Target.Item}
    (hruns : Runs (registry.code host) env g) {name callee : String} (hname : Writes registry order name)
    (hitem : ∀ {d item d'}, g env d = .ok item d' → item.name? = some name ∧ callee ∈ item.callees) :
    Writes registry order callee := by
  obtain ⟨d, item, d', hrun, -, -, hget⟩ := hruns
  obtain ⟨hsame, hcallee⟩ := hitem hrun
  obtain ⟨entry, hentry, hdef⟩ := output_within h.sound.filed _ name item (hget name hsame)
  exact h.writes_callee hentry hdef hname hcallee

variable {handlers : List Handler}

theorem writes_load (h : Compilation env decl registry order)
    (hreceives : Receives (registry.code host) env decl handlers) :
    Writes registry order (Name.contractLoad decl.name) :=
  h.writes_of_runs hreceives.entryPoint h.root fun hrun =>
    ⟨(recvInternalItem_calls hrun).1, (recvInternalItem_calls hrun).2.1⟩

theorem writes_store (h : Compilation env decl registry order)
    (hreceives : Receives (registry.code host) env decl handlers) :
    Writes registry order (Name.contractStore decl.name) :=
  h.writes_of_runs hreceives.entryPoint h.root fun hrun =>
    ⟨(recvInternalItem_calls hrun).1, (recvInternalItem_calls hrun).2.2.1⟩

theorem writes_init (h : Compilation env decl registry order)
    (hreceives : Receives (registry.code host) env decl handlers)
    (hpersists : Persists (registry.code host) env decl) :
    Writes registry order (Name.contractInit decl.name) := by
  refine h.writes_of_runs hpersists.load (h.writes_load hreceives) fun hrun => ?_
  simp only [loadItem, used, run_bind, run_modify, run_pure] at hrun
  obtain ⟨_, _, ⟨_, _, rfl, rfl, rfl⟩, _, _, ⟨_, _, rfl, rfl, rfl⟩, _, _, ⟨_, _, rfl, rfl, rfl⟩,
    ⟨bindArgs, given⟩, _, -, ty, _, -, rfl, rfl⟩ := hrun
  simp [Target.Signature.define, Target.ret, Target.call, Item.name?]

/-- A function that has been called is written. -/
theorem writes_called (h : Compilation env decl registry order) {name : String} {vs : List Val} {s s' : State}
    {w : Val} (hname : name ∉ primitives)
    (hcall : Yields (call { Code.ofOutput (registry.output order) with host } name vs) s w s') :
    Writes registry order name := by
  obtain ⟨item, hget⟩ := hcall.called hname
  exact h.writes_of_get? hget

end Compilation

/-- **Contracts keep their state.** Take a contract of a program whose names are separate, whose plans the
planner makes and the check accepts, and that leaves no helper to the target's own library, and run the module
that it compiles to. Every state that is stored is loaded again, and whatever arguments the contract is
deployed with, it makes its first state out of them when it is first loaded. -/
theorem compileContract_persists {types : TypeTable} {program : Program} {out : Output}
    (hw : types.WellNamed) (hsep : types.Separate) (hplanned : Program.planned types = .ok program)
    (hvalid : program.plans.validate = .ok ()) (hprogram : env.program = program)
    (hhelpers : types.LeavesHelpers) (hdecl : types.types.get? decl.name = some decl)
    (hparams : decl.SeparateParams) (hout : compileContract env decl.name = .ok out) (host : Host) :
    (∀ v, IsState types decl v → KeepsState { Code.ofOutput out with host } decl.name v) ∧
      ∀ args, AreArguments types decl args → StartsLazily { Code.ofOutput out with host } decl.name args := by
  simp only [Program.planned, Except.bind_eq_ok, Except.pure_eq_ok] at hplanned
  obtain ⟨plans, hplans, rfl⟩ := hplanned
  have htypes : env.program.types = types := by rw [hprogram]
  obtain ⟨decl', registry, order, hdecl', hcontract, hcompilation, rfl⟩ := compileContract_compilation hout
  obtain rfl : decl = decl' := by simpa [htypes, hdecl] using hdecl'
  obtain ⟨hstructs, hcontracts, hpersists, handlers, hreceives⟩ :=
    hcompilation.links (registry.code host) (hcompilation.underlies (htypes.symm ▸ hhelpers))
  have hlibrary : Library (registry.code host) env := by
    refine ⟨Registry.code_proper hcompilation.sound, htypes.symm ▸ hw, htypes.symm ▸ hsep, ?_, ?_, hstructs⟩
    · rw [hprogram]
      exact Plans.planProgram_planned hw hplans
    · rw [hprogram]
      exact hvalid
  have hsame : ∀ {name : String} {vs : List Val}, Writes registry order name →
      call { Code.ofOutput (registry.output order) with host } name vs = call (registry.code host) name vs :=
    fun hname => hcompilation.call_eq hname
  constructor
  · intro v hv s s' t w sys hsys hcall hdata hglobal
    rw [hsame (hcompilation.writes_store hreceives)] at hcall
    rw [hsame (hcompilation.writes_load hreceives)]
    exact hlibrary.keepsState hdecl' hpersists (htypes.symm ▸ hv) hsys hcall hdata hglobal
  · intro args hargs s s' w sys hcall
    have hwrites : Writes registry order (Name.initChild decl.name) :=
      hcompilation.writes_called (not_mem_primitives_of_isEmitted (Name.isEmitted_ofType _ _)) hcall
    rw [hsame hwrites] at hcall
    rw [hsame (hcompilation.writes_load hreceives), hsame (hcompilation.writes_init hreceives hpersists)]
    have hmem : decl ∈ env.program.types.contracts :=
      TypeTable.mem_contracts.2 ⟨Dict.mem_values_of_get? hdecl', hcontract⟩
    exact hlibrary.startsLazily hdecl' hcontract hparams hpersists (hcontracts decl hmem)
      (htypes.symm ▸ hargs) hcall

/-- A contract that starts to count from its argument. -/
def meterDecl : TypeDecl :=
  let int := TypeRef.plain "Int"
  let count := Expr.field ⟨int, {}⟩ (.ident ⟨.plain "Meter", {}⟩ "self") "count"
  let setCount := Stmt.assign {} count (.ident ⟨int, {}⟩ "first")
  { TypeDecl.ofFields .contract "Meter" [⟨"count", 0, int, some "uint64", none⟩]
    with init := some ⟨[⟨"first", int⟩], [setCount]⟩ }

/-- The contract with its plans. -/
def meterEnv : Env where
  program :=
    let types := TypeTable.primitives.addType meterDecl
    { types, plans := (planProgram types).toOption.getD {} }
  evaluate := noConstants

theorem meter_persists : ∃ out, compileContract meterEnv "Meter" = .ok out ∧
    KeepsState (Code.ofOutput out) "Meter" (.tensor [.int 7]) ∧
    StartsLazily (Code.ofOutput out) "Meter" [.int 7] := by
  have hw : meterEnv.program.types.WellNamed := ⟨by decide +kernel, by decide +kernel⟩
  have hsep : meterEnv.program.types.Separate := by
    have hall : ∀ decl ∈ meterEnv.program.types.types.values, (decl.fields.map (·.name)).Nodup ∧
        ∀ f ∈ decl.fields, '\'' ∉ f.name.toList := by decide +kernel
    exact fun decl hdecl => ⟨(hall decl hdecl).1, (hall decl hdecl).2⟩
  have hhelpers : meterEnv.program.types.LeavesHelpers := by
    have hmethods : ∀ decl ∈ meterEnv.program.types.types.values, decl.functions.values = [] := by decide +kernel
    rintro f name (hf | ⟨decl, hdecl, hf⟩) -
    · exact nomatch hf
    · simp [hmethods decl hdecl] at hf
  have hparams : meterDecl.SeparateParams := ⟨by decide, by decide⟩
  have hany : (compileContract meterEnv "Meter").toOption.any (fun _ => true) = true := by decide +kernel
  obtain ⟨out, hout, -⟩ := Except.exists_of_toOption_any hany
  have hdecl : meterEnv.program.types.types.get? meterDecl.name = some meterDecl := rfl
  have hpersists := compileContract_persists hw hsep rfl rfl rfl hhelpers hdecl hparams hout {}
  refine ⟨out, hout, hpersists.1 _ ?_, hpersists.2 _ ?_⟩
  · exact .record (List.cons_ne_nil _ _) rfl (List.forall_mem_singleton.2 (.scalar rfl rfl trivial))
  · exact .cons (.inl (.scalar rfl rfl trivial)) .nil

/-! ### Helpers that are left to the target's own library -/

/-- A contract that holds an address, beside a function that the target is to supply under the name of the
helper that loads addresses. -/
def lockerTable : TypeTable :=
  let owner : Field := ⟨"owner", 0, .plain "Address", none, none⟩
  (TypeTable.primitives.addType (.ofFields .contract "Locker" [owner])).addFunction
    { name := "load", returns := .void, body := .native Helper.loadAddressName }

/-- The contract with its plans. -/
def lockerEnv : Env where
  program := { types := lockerTable, plans := (planProgram lockerTable).toOption.getD {} }
  evaluate := noConstants

namespace Locker

/-- The statements that store the state in a builder. -/
def writerBody : List Target.Stmt :=
  [Target.var (.tensor [Target.id "v'owner"]) (Target.id "v"),
    Target.assign (Target.id "build_0")
      (Target.call Helper.storeAddressName [Target.id "build_0", Target.id "v'owner"]),
    Target.ret (Target.id "build_0")]

/-- The statements that load the state from a slice. -/
def readerBody : List Target.Stmt :=
  [Target.var (Target.id "v'owner") (Target.modify (Target.id "sc_0") Helper.loadAddressName []),
    Target.ret (.tensor [Target.id "sc_0", .tensor [Target.id "v'owner"]])]

/-- The statements that store the state. -/
def storeBody : List Target.Stmt :=
  let b := Target.id "b"
  [Target.var b Target.beginCell,
    Target.assign b (Target.method b "store_ref" [Target.id Helper.contextSys]),
    Target.assign b (storeFlag b true),
    Target.assign b (Target.call (Name.writer "Locker") [b, Target.id "v"]),
    .expr (Target.call "set_data" [Target.endCell b])]

/-- The statements that load the state. -/
def loadBody : List Target.Stmt :=
  loadOpening ++
    [Target.ifThen (Target.id "$loaded")
        [Target.ret (Target.modify (Target.id "$sc") (Name.reader "Locker") [])],
      .expr (Target.modify (Target.id "$sc") (Name.reader (Name.initArgs "Locker")) []),
      .expr (Target.method (Target.id "$sc") "end_parse" []),
      Target.ret (Target.call (Name.contractInit "Locker") [])]

/-- The module has the function, with these parameters and statements. -/
def hasBody (c : Code) (name : String) (params : List String) (body : List Target.Stmt) : Bool :=
  match c.functions.get? name with
  | some (.function signature statements) => signature.params.map (·.name) = params ∧ statements = body
  | _ => false

theorem has_of_hasBody {name : String} {params : List String} {body : List Target.Stmt}
    (h : hasBody c name params body = true) : c.Has name params body := by
  unfold hasBody at h
  split at h
  · next signature statements hget =>
    obtain ⟨rfl, rfl⟩ : _ ∧ statements = body := by simpa using h
    exact ⟨signature, hget, rfl⟩
  · simp at h

/-- What is used of the module. -/
structure Module (c : Code) : Prop where
  proper : c.Proper
  writer : c.Has (Name.writer "Locker") ["build_0", "v"] writerBody
  reader : c.Has (Name.reader "Locker") ["sc_0"] readerBody
  store : c.Has (Name.contractStore "Locker") ["v"] storeBody
  load : c.Has (Name.contractLoad "Locker") [] loadBody
  storeAddress : c.Helps Helper.storeAddressName .storeAddress
  verifyAddress : c.Helps Helper.verifyAddressName .verifyAddress
  loadAddress : c.functions.get? Helper.loadAddressName = none

/-- A test for this. -/
def isModule (c : Code) : Bool :=
  hasBody c (Name.writer "Locker") ["build_0", "v"] writerBody &&
    hasBody c (Name.reader "Locker") ["sc_0"] readerBody &&
    hasBody c (Name.contractStore "Locker") ["v"] storeBody &&
    hasBody c (Name.contractLoad "Locker") [] loadBody &&
    c.functions.get? Helper.storeAddressName = some (Helper.storeAddress.item Helper.storeAddressName) &&
    c.functions.get? Helper.verifyAddressName = some (Helper.verifyAddress.item Helper.verifyAddressName) &&
    c.functions.get? Helper.loadAddressName = none

theorem module_of_isModule {out : Output} (hout : compileContract env "Locker" = .ok out)
    (h : isModule (.ofOutput out) = true) : Module (Code.ofOutput out) := by
  obtain ⟨decl, registry, order, -, -, hcompilation, rfl⟩ := compileContract_compilation hout
  simp only [isModule, Bool.and_eq_true, decide_eq_true_eq] at h
  obtain ⟨⟨⟨⟨⟨⟨hwriter, hreader⟩, hstore⟩, hload⟩, hstoreAddress⟩, hverify⟩, hnone⟩ := h
  exact ⟨(output_within hcompilation.sound.filed order).proper hcompilation.sound, has_of_hasBody hwriter,
    has_of_hasBody hreader, has_of_hasBody hstore, has_of_hasBody hload, hstoreAddress, hverify, hnone⟩

namespace Module

variable {s s' t : State} {w : Val} {x : Slice} {sys : Cell}

theorem writer_yields (h : Module c) {b : Builder} (hx : IsStandard x.bits)
    (hroom : b.Room x.bits.length x.refs.length) :
    Yields (call c (Name.writer "Locker") [.builder b, .tensor [.slice x]]) s
      (.builder (b.push x.bits x.refs)) s := by
  generalize hu : s.enter ["build_0", "v"] [.builder b, .tensor [.slice x]] = u
  have hb : u.get? "build_0" = some (.builder b) := by simp [← hu, State.enter, State.get?, Dict.ofList]
  have hv : u.get? "v" = some (.tensor [.slice x]) := by simp [← hu, State.enter, State.get?, Dict.ofList]
  generalize hu₁ : u.set "v'owner" (.slice x) = u₁
  have hbind : Yields (bind true (.tensor [.slice x]) (.tensor [Target.id "v'owner"])) u () u₁ := by
    simp [Machine.bind, bindAll, bindLeaf, Target.id, State.assign_of_declare, hu₁]
  have hb₁ : u₁.get? "build_0" = some (.builder b) := by simp [← hu₁, hb]
  have howner : u₁.get? "v'owner" = some (.slice x) := by simp [← hu₁]
  have hstore : Means c u₁ (Target.call Helper.storeAddressName [Target.id "build_0", Target.id "v'owner"])
      (.builder (b.push x.bits x.refs)) :=
    (yields_call_means (.cons (means_id hb₁) (.cons (means_id howner) .nil))).2
      (storeAddress_yields h.proper.plain h.storeAddress h.verifyAddress hx hroom)
  have hbody : Yields (block c writerBody) u (some (.builder (b.push x.bits x.refs)))
      (u₁.set "build_0" (.builder (b.push x.bits x.refs))) := by
    refine yields_block_var.2 ⟨_, u, means_id hv, u₁, hbind, (yields_assign_means hb₁ hstore).2 ?_⟩
    exact (yields_ret_means (means_id (by simp))).2 ⟨rfl, rfl⟩
  exact h.writer.returns rfl (hu ▸ hbody) (by rw [← hu₁, ← hu]; rfl) (by rw [← hu₁, ← hu]; rfl)

/-- The state can be stored. -/
theorem store_yields (h : Module c) (hx : IsStandard x.bits) (hrefs : x.refs = [])
    (hsys : s.globals.get? Helper.contextSys = some (.cell sys)) :
    Yields (call c (Name.contractStore "Locker") [.tensor [.slice x]]) s .unit
      { s with data := .mk (true :: x.bits) [sys] } := by
  have hplain := h.proper.plain
  have hlength := hx.length_eq
  have hlocal : (s.enter ["v"] [.tensor [.slice x]]).get? Helper.contextSys = none :=
    State.get?_enter_of_not_mem (by decide)
  generalize hu : s.enter ["v"] [.tensor [.slice x]] = u at hlocal
  have hv : u.get? "v" = some (.tensor [.slice x]) := by simp [← hu, State.enter, State.get?, Dict.ofList]
  generalize hu₁ : u.set "b" (.builder .empty) = u₁
  have hb₁ : u₁.get? "b" = some (.builder .empty) := by simp [← hu₁]
  have hcode : Means c u₁ (Target.id Helper.contextSys) (.cell sys) := by
    refine means_global ?_ (by rw [← hu₁, ← hu]; exact hsys)
    rw [← hu₁, State.get?_set, if_neg (by decide), hlocal]
  have href : Means c u₁ (Target.method (Target.id "b") "store_ref" [Target.id Helper.contextSys])
      (.builder ⟨[], [sys]⟩) :=
    .primitive hplain (by decide) (.cons (means_id hb₁) (.cons hcode .nil)) (call_store_ref.2 ⟨⟨by decide, by decide⟩, rfl⟩)
  generalize hu₂ : u₁.set "b" (.builder ⟨[], [sys]⟩) = u₂
  have hb₂ : u₂.get? "b" = some (.builder ⟨[], [sys]⟩) := by simp [← hu₂]
  have hflag : Means c u₂ (storeFlag (Target.id "b") true) (.builder ⟨[true], [sys]⟩) :=
    .primitive hplain (by decide) (.cons (means_id hb₂) (.cons means_bool (.cons means_int .nil)))
      (call_store_flag.2 ⟨by simp [Builder.Room, Cell.maxBits, Cell.maxRefs], rfl⟩)
  generalize hu₃ : u₂.set "b" (.builder ⟨[true], [sys]⟩) = u₃
  have hb₃ : u₃.get? "b" = some (.builder ⟨[true], [sys]⟩) := by simp [← hu₃]
  have hv₃ : u₃.get? "v" = some (.tensor [.slice x]) := by simp [← hu₃, ← hu₂, ← hu₁, hv]
  have hroom : Builder.Room ⟨[true], [sys]⟩ x.bits.length x.refs.length := by
    simp [Builder.Room, hlength, hrefs, Address.bitLength, Cell.maxBits, Cell.maxRefs]
  have hwriter : Means c u₃ (Target.call (Name.writer "Locker") [Target.id "b", Target.id "v"])
      (.builder ⟨true :: x.bits, [sys]⟩) := by
    refine (yields_call_means (.cons (means_id hb₃) (.cons (means_id hv₃) .nil))).2 ?_
    simpa [Builder.push, hrefs] using h.writer_yields hx hroom
  generalize hu₄ : u₃.set "b" (.builder ⟨true :: x.bits, [sys]⟩) = u₄
  have hb₄ : u₄.get? "b" = some (.builder ⟨true :: x.bits, [sys]⟩) := by simp [← hu₄]
  have hend : Means c u₄ (Target.endCell (Target.id "b")) (.cell (.mk (true :: x.bits) [sys])) := by
    refine .primitive hplain (by decide) (.cons (means_id hb₄) .nil) (call_end_cell.2 ⟨?_, rfl⟩)
    simp [Builder.Room, hlength, Address.bitLength, Cell.maxBits, Cell.maxRefs]
  refine h.store.yields.2 ⟨rfl, none, { u₄ with data := .mk (true :: x.bits) [sys] }, ?_, rfl, ?_⟩
  · rw [hu, storeBody, yields_var_means (means_beginCell hplain), hu₁, yields_assign_means hb₁ href, hu₂,
      yields_assign_means hb₂ hflag, hu₃, yields_assign_means hb₃ hwriter, hu₄]
    exact yields_block_expr.2 ⟨.unit, _, (yields_call_means (.cons hend .nil)).2
      ((yields_setData hplain).2 ⟨rfl, rfl⟩), yields_block_nil.2 ⟨rfl, rfl⟩⟩
  · rw [← hu₄, ← hu₃, ← hu₂, ← hu₁, ← hu]
    rfl

theorem reader_fails (h : Module c) {vs : List Val} : ¬ Yields (call c (Name.reader "Locker") vs) s w s' := by
  intro hcall
  obtain ⟨-, q, t, hbody, -⟩ := h.reader.yields.1 hcall
  rw [readerBody, yields_block_var] at hbody
  obtain ⟨v, u, hload, -⟩ := hbody
  rw [Target.modify, yields_modify_primitive h.loadAddress] at hload
  obtain ⟨_, u', -, updated, hmodify, -⟩ := hload
  exact absurd (mem_primitives_of_modify hmodify) (by decide)

/-- A state that has been stored cannot be loaded. -/
theorem load_fails (h : Module c) {bits : List Bool} (hdata : s.data = .mk (true :: bits) [sys])
    (hglobal : s.globals.contains Helper.contextSys = true) :
    ¬ Yields (call c (Name.contractLoad "Locker") []) s w s' := by
  intro hcall
  have hplain := h.proper.plain
  obtain ⟨x₁, href, hx₁⟩ := read_load_ref (Slice.holds_parse (true :: bits) [sys])
  obtain ⟨x₂, hflag, -⟩ := read_load_flag hx₁
  obtain ⟨frame, hopening, -, hloaded⟩ :=
    yields_loadOpening hplain hglobal (hdata ▸ href) hflag
  generalize hu : (s.setGlobal Helper.contextSys (.cell sys)).withFrame frame = u at hopening
  have hloaded' : u.get? "$loaded" = some (.bool true) := by rw [← hu]; exact hloaded
  obtain ⟨-, q, t, hbody, -⟩ := h.load.yields.1 hcall
  rw [Machine.Yields, loadBody, block_of_yields hopening, ← Machine.Yields,
    yields_ifThen_means (means_id hloaded'), if_pos rfl,
    List.singleton_append, yields_block_ret] at hbody
  obtain ⟨v, hread, -⟩ := hbody
  obtain ⟨signature, hget, -⟩ := h.reader
  rw [Target.modify, yields_modify_function hget] at hread
  obtain ⟨vs, u', -, result, u₂, hreader, -⟩ := hread
  exact h.reader_fails hreader

end Module

/-- An address in the basechain. -/
def ownerBits : List Bool := Bits.ofNat 11 1024 ++ List.replicate 256 false

end Locker

/-- A module that leaves a helper to the target's own library does not have it: a state that is stored may not
be loaded again. -/
theorem locker_forgets : lockerTable.WellNamed ∧ lockerTable.Separate ∧
    Program.planned lockerTable = .ok lockerEnv.program ∧ lockerEnv.program.plans.validate = .ok () ∧
    ∃ decl out v, lockerTable.types.get? "Locker" = some decl ∧ decl.SeparateParams ∧
      compileContract lockerEnv "Locker" = .ok out ∧ IsState lockerTable decl v ∧
      ¬ KeepsState (Code.ofOutput out) "Locker" v := by
  have hw : lockerTable.WellNamed := ⟨by decide +kernel, by decide +kernel⟩
  have hsep : lockerTable.Separate := by
    have hall : ∀ decl ∈ lockerTable.types.values, (decl.fields.map (·.name)).Nodup ∧
        ∀ f ∈ decl.fields, '\'' ∉ f.name.toList := by decide +kernel
    exact fun decl hdecl => ⟨(hall decl hdecl).1, (hall decl hdecl).2⟩
  have hany : (compileContract lockerEnv "Locker").toOption.any (fun out => Locker.isModule (.ofOutput out)) = true := by
    decide +kernel
  obtain ⟨out, hout, hchecks⟩ := Except.exists_of_toOption_any hany
  have hmodule := Locker.module_of_isModule hout hchecks
  generalize hx : (Cell.mk Locker.ownerBits []).parse = x
  have hbits : x.bits = Locker.ownerBits := by rw [← hx]; rfl
  have hrefs : x.refs = [] := by rw [← hx]; rfl
  have hstandard : IsStandard x.bits := by
    rw [hbits]
    exact ⟨by decide +kernel, by decide +kernel⟩
  refine ⟨hw, hsep, rfl, rfl, _, out, .tensor [.slice x], rfl, ⟨List.nodup_nil, nofun⟩, hout,
    .record (List.cons_ne_nil _ _) rfl (List.forall_mem_singleton.2 ?_), fun hkeeps => ?_⟩
  · exact .scalar rfl rfl ⟨hstandard.length_eq, hrefs⟩
  · generalize hs : ({ globals := .ofList [(Helper.contextSys, .cell .empty)] } : State) = s
    have hsys : s.globals.get? Helper.contextSys = some (.cell .empty) := by rw [← hs]; rfl
    have hstore := hmodule.store_yields hstandard hrefs hsys
    have hglobal : s.globals.contains Helper.contextSys = true := Dict.contains_eq_true_iff.2 ⟨_, hsys⟩
    obtain ⟨v, -, hload⟩ := hkeeps hsys hstore rfl hglobal
    exact hmodule.load_fails (s := { s with data := .mk (true :: x.bits) [.empty] }) rfl hglobal hload

end CellCompiler
