import CellCompiler.Proofs.Codec.Contract
import CellCompiler.Proofs.Codec.Wrappers
import CellCompiler.Proofs.Machine.Sameness

/-!
# The data of a contract

The function that stores a state, the one that loads it and the one that makes the data of a new contract
agree on what a data cell looks like: a reference to the cell of known codes, a bit that tells whether the
contract has started, and then a record.

* `IsState` tells the states of a contract and `IsArgument` the values of its parameters; both are records
  whose codecs are ready for them (`Library.exists_state`, `Library.exists_arguments`);
* `HoldsRecord` says that a cell holds a record, and `Persists.stores` and `Deploys.deploys` say that such
  a cell is what is stored and what a contract is deployed with;
* `Persists.loads` is about loading a state that has been stored, `Persists.loads_arguments` about loading the
  arguments and making the first state out of them.
-/

namespace CellCompiler

open Generate Machine
open Plan (OpKind)

variable {c : Code} {env : Env} {decl : TypeDecl} {r : Record} {values : String → Val} {s s' t : State}
  {v w : Val}

/-! ### States and arguments -/

namespace Machine

/-- The value is a state of a contract: the product of its fields, or an empty tuple if there are none. -/
inductive IsState (table : TypeTable) (decl : TypeDecl) : Val → Prop where
  | empty : decl.fields = [] → IsState table decl (.tuple [])
  | record {vs : List Val} : decl.fields ≠ [] → vs.length = decl.fields.length →
      (∀ p ∈ decl.fields.zip vs, Represents table p.1.ty p.1.format p.2) → IsState table decl (.tensor vs)

/-- The value is one of a type of parameters. Of the states of contracts only those of the contract that is
compiled can be passed on: its module has codecs for no other. -/
def IsArgument (table : TypeTable) (decl : TypeDecl) (ty : TypeRef) (v : Val) : Prop :=
  Represents table ty none v ∨ ty = .plain decl.name ∧ IsState table decl v

theorem IsState.fits {table : TypeTable} (hv : IsState table decl v)
    (hdecl : table.types.get? decl.name = some decl) (hlike : decl.isStructLike = true)
    {fuel : Nat} {base : String} {sh : Layout.Shape}
    (h : Layout.shapeWithin table fuel {} (.plain decl.name) base = .ok sh) : sh.Fits v := by
  obtain ⟨n, h⟩ := declBy_of_shapeWithin hdecl h
  rw [Layout.declBy_eq_ok, TypeDecl.primitive?_eq_none_iff.2 hlike] at h
  simp only [Layout.visibleFields, Bool.false_eq_true, if_false] at h
  rcases Layout.recordBy_eq_ok.1 h with ⟨hnil, rfl⟩ | ⟨hne, parts, rfl, hparts⟩
  · cases hv with
    | empty _ => rfl
    | record hfields _ _ => exact absurd (List.map_eq_nil_iff.1 hnil) hfields
  · cases hv with
    | empty hfields => simp [hfields] at hne
    | @record vs _ hlength hvs =>
      rw [List.forall₂_map_left_iff] at hparts
      rw [Layout.Shape.Fits, Layout.Shape.fitsAll_iff_forall₂]
      have hall : List.Forall₂ (fun (f : Field) v => Represents table f.ty f.format v) decl.fields vs :=
        List.forall₂_iff_zip.2 ⟨hlength.symm, fun hmem => hvs _ hmem⟩
      exact List.forall₂_merge hparts hall fun f part v hpart hv => hv.fits hpart

theorem IsArgument.fits {table : TypeTable} {ty : TypeRef} (hv : IsArgument table decl ty v)
    (hdecl : table.types.get? decl.name = some decl) (hlike : decl.isStructLike = true)
    {fuel : Nat} {base : String} {sh : Layout.Shape}
    (h : Layout.shapeWithin table fuel {} ty base = .ok sh) : sh.Fits v := by
  rcases hv with hv | ⟨rfl, hv⟩
  · exact hv.fits h
  · exact hv.fits hdecl hlike h

end Machine

theorem Library.exists_state (h : Library c env) (hdecl : env.program.types.types.get? decl.name = some decl)
    (hr : RecordOf env decl r) (hv : IsState env.program.types decl v) :
    ∃ values, v = packed r.fields values ∧ Ready c env r values := by
  have hsep := h.separate decl (Dict.mem_values_of_get? hdecl)
  cases hv with
  | empty hfields =>
    refine ⟨fun _ => .null, by rw [hr.fields_eq, hfields]; rfl, h.ready hdecl hr ?_ ?_⟩
    · simp [FieldsFit, hr.fields_eq, hfields]
    · simp [hfields]
  | @record vs hfields hlength hvs =>
    obtain ⟨values, hpacked, hzip⟩ := exists_packed (·.ty) hsep.nodup hfields hlength
    refine ⟨values, by rw [hr.fields_eq, hpacked], h.ready hdecl hr ?_ fun f hf => h.admits (hvs _ (hzip f hf))⟩
    rw [hr.fields_eq]
    rintro _ hmem sh hsh
    obtain ⟨f, hf, rfl⟩ := List.mem_map.1 hmem
    exact (hvs _ (hzip f hf)).fits hsh

/-- The operation of a type that is the contract itself stores a state of the contract. -/
theorem Library.admits_state (h : Library c env) (hdecl : env.program.types.types.get? decl.name = some decl)
    (hlike : decl.isStructLike = true) (hr : RecordOf env decl r) (hcodecs : Codecs c env r)
    {format : Option String} (hv : IsState env.program.types decl v) :
    AdmitsType c env (.plain decl.name) format v := by
  obtain ⟨values, rfl, hready⟩ := h.exists_state hdecl hr hv
  have hstorable := hready.storable h.proper h.separate hcodecs (hr.name_eq ▸ hr.plan_eq)
  rw [hr.name_eq] at hstorable
  intro field op op' hop hsettles
  cases hop with
  | @named _ _ decl' kind hdecl' hkind _ =>
    obtain rfl : decl = decl' := by simpa [hdecl] using hdecl'
    obtain rfl : OpKind.struct decl.name false = kind := by
      simpa [Plan.declKind, TypeDecl.primitive?_eq_none_iff.2 hlike] using hkind
    rcases hsettles with rfl | rfl
    · exact .required (.struct false hstorable)
    · exact .required (.struct true hstorable)

/-- The parameters of a contract have different names, and no name has a tick in it. -/
structure TypeDecl.SeparateParams (decl : TypeDecl) : Prop where
  nodup : (decl.initParams.map (·.name)).Nodup
  plain : ∀ p ∈ decl.initParams, '\'' ∉ p.name.toList

/-- The values can be passed for the parameters of a contract, one each. -/
def Machine.AreArguments (table : TypeTable) (decl : TypeDecl) (args : List Val) : Prop :=
  List.Forall₂ (fun p v => IsArgument table decl p.ty v) decl.initParams args

theorem Library.exists_arguments (h : Library c env)
    (hdecl : env.program.types.types.get? decl.name = some decl) (hcontract : decl.isContract = true)
    (hsep : decl.SeparateParams) (hstate : ∃ r, RecordOf env decl r ∧ Codecs c env r)
    (hr : ArgumentsOf env decl r) {args : List Val} (hargs : AreArguments env.program.types decl args) :
    ∃ values, args = decl.initParams.map (fun p => values p.name) ∧ Ready c env r values ∧
      ∀ p ∈ decl.initParams, ∀ base sh, Layout.shape env.program.types p.ty base = .ok sh →
        sh.Fits (values p.name) := by
  have hlike := TypeDecl.isStructLike_of_isContract hcontract
  obtain ⟨rs, hrs, hcodecs⟩ := hstate
  obtain ⟨contract, hmem, hname, hstores⟩ := h.planned.storesArgs _ _ hr.plan_eq
  obtain rfl : decl = contract := by
    have hget := h.wellNamed.get?_name (TypeTable.mem_contracts.1 hmem).1
    rw [hname, hdecl] at hget
    exact Option.some.inj hget
  obtain ⟨values, hvalues⟩ := exists_values hsep.nodup hargs.length_eq.symm
  obtain rfl : args = decl.initParams.map fun p => values p.name := by
    rw [← List.map_id args]
    exact (List.map_eq_map_of_forall₂ hvalues fun p v hv => hv.symm)
  have hall : ∀ p ∈ decl.initParams, IsArgument env.program.types decl p.ty (values p.name) := by
    unfold AreArguments at hargs
    rw [List.forall₂_map_right_iff, List.forall₂_same] at hargs
    exact hargs
  refine ⟨values, rfl, hstores.ready ?_ ?_ (List.forall_mem_map.2 hsep.plain) ?_ ?_
    (List.forall_mem_map.2 fun p hp => ?_), fun p hp base sh hsh => (hall p hp).fits hdecl hlike hsh⟩
  · rw [hr.fields_eq, Plans.storedParams, List.map_map]
    rfl
  · rw [Plans.storedParams, List.map_map]
    exact hsep.nodup
  · -- parameters have no format, and only a format makes a field take everything that is left
    refine hstores.isRemainder_dropLast fun f hf => ?_
    obtain ⟨p, -, rfl⟩ := List.mem_map.1 (List.dropLast_subset _ hf)
    simp [Plan.takesRest]
  · rw [hr.fields_eq]
    rintro _ hmem sh hsh
    obtain ⟨p, hp, rfl⟩ := List.mem_map.1 hmem
    exact (hall p hp).fits hdecl hlike hsh
  · rcases hall p hp with hv | ⟨hty, hv⟩
    · exact h.admits hv
    · exact hty ▸ h.admits_state hdecl hlike hrs hcodecs hv

/-! ### Variables and data -/

namespace Machine

/-- The state with a global variable set. -/
def State.setGlobal (s : State) (name : String) (v : Val) : State :=
  { s with globals := s.globals.insert name v }

theorem State.assign_global {name : String} (hlocal : s.get? name = none)
    (hglobal : s.globals.contains name = true) : s.assign false name v = s.setGlobal name v := by
  have hcontains : s.frame.contains name = false := Dict.contains_eq_false_iff.2 hlocal
  simp [State.assign, State.setGlobal, hcontains, hglobal]

theorem means_global {name : String} (hlocal : s.get? name = none) (h : s.globals.get? name = some v) :
    Means c s (Target.id name) v := by
  rw [Means, Target.id, eval, lookup, yields_bind]
  refine ⟨s, s, yields_get.2 ⟨rfl, rfl⟩, ?_⟩
  rw [State.get?] at hlocal
  simp [hlocal, h]

theorem means_getData (hc : c.Plain) : Means c s (Target.call "get_data" []) (.cell s.data) := by
  rw [Means, yields_call_means .nil, call, hc _ (by decide)]
  exact yields_bind.2 ⟨s, s, yields_get.2 ⟨rfl, rfl⟩, yields_pure.2 ⟨rfl, rfl⟩⟩

theorem yields_setData (hc : c.Plain) {y : Cell} :
    Yields (call c "set_data" [.cell y]) s v s' ↔ v = .unit ∧ s' = { s with data := y } := by
  rw [call, hc _ (by decide)]
  change Yields (do
    let y ← ofExcept (Val.cell y).asCell
    modify fun s => { s with data := y }
    return Val.unit) s v s' ↔ _
  simp only [yields_bind, yields_ofExcept, yields_modify, yields_pure]
  constructor
  · rintro ⟨_, _, ⟨hy, rfl⟩, _, _, rfl, rfl, rfl⟩
    obtain rfl := Except.ok.inj hy
    exact ⟨rfl, rfl⟩
  · rintro ⟨rfl, rfl⟩
    exact ⟨y, s, ⟨rfl, rfl⟩, ⟨⟩, _, rfl, rfl, rfl⟩

theorem State.enter_eq {params : List String} {args : List Val} :
    s.enter params args = (s.withFrame .empty).setAll (params.zip args) := by
  have hfold : ∀ (ps : List (String × Val)) (d : Dict Val),
      s.withFrame (ps.foldl (fun d p => d.insert p.1 p.2) d) = (s.withFrame d).setAll ps := by
    intro ps
    induction ps with
    | nil => exact fun _ => rfl
    | cons p ps ih => exact fun d => ih (d.insert p.1 p.2)
  exact hfold _ _

/-- Parameters hold what is passed for them. -/
theorem State.forall₂_enter {params : List String} {args : List Val} (hnodup : params.Nodup)
    (hlength : params.length = args.length) :
    List.Forall₂ (fun name v => (s.enter params args).get? name = some v) params args :=
  State.enter_eq ▸ State.forall₂_setAll hnodup hlength

theorem State.get?_enter_of_not_mem {params : List String} {args : List Val} {name : String}
    (h : name ∉ params) : (s.enter params args).get? name = none := by
  rw [State.enter_eq, State.get?_setAll_of_not_mem h]
  rfl

/-- Statements that come after others. -/
theorem block_of_yields {body more : List Target.Stmt} (h : Yields (block c body) s none s') :
    block c (body ++ more) s = block c more s' := by
  rw [block_append, h.bind_eq]

/-- A call as the last statement. -/
theorem block_ret_call {name : String} {es : List Target.Expr} {vs : List Val}
    (h : Yields (evalAll c es) s vs s) :
    block c [Target.ret (Target.call name es)] s = (some <$> call c name vs) s := by
  have hblock : block c [Target.ret (Target.call name es)] =
      evalAll c es >>= fun vs => some <$> call c name vs := by
    rw [Target.ret, Target.call, block, stmt, eval]
    simp only [bind_assoc, pure_bind, map_eq_pure_bind]
  rw [hblock, h.bind_eq]

end Machine

/-! ### Records in data cells -/

/-- The cell holds a record after the cell of known codes and the bit that tells whether the contract has
started. -/
structure HoldsRecord (c : Code) (env : Env) (r : Record) (values : String → Val) (started : Bool)
    (sys y : Cell) : Prop where
  header : HeaderFits r.plan
  encoded : ∃ bits refs, EncodesChain c env values r.plan.root bits refs ∧
    y = .mk (started :: (headerBits r.plan ++ bits)) (sys :: refs)

/-- Storing a record after the beginning of a data cell. -/
theorem Ready.returns_writer (h : Ready c env r values) (hc : c.Proper) (hsep : env.program.types.Separate)
    (hcodecs : Codecs c env r) {e e' : Target.Expr} {started : Bool} {sys : Cell}
    (he : Means c s e (.builder ⟨[started], [sys]⟩)) (he' : Means c s e' (packed r.fields values)) :
    Returns c s (Target.call (Name.writer r.name) [e, e']) fun w => ∃ b : Builder, w = .builder b ∧
      HoldsRecord c env r values started sys (.mk b.bits b.refs) := by
  intro w s' hw
  rw [yields_call_means (.cons he (.cons he' .nil))] at hw
  obtain ⟨rfl, hheader, bits, refs, hbits, rfl⟩ := writer_encodes hc hsep h hcodecs hw
  exact ⟨rfl, _, rfl, hheader, bits, refs, hbits, rfl⟩

/-- What is found in a data cell. -/
theorem HoldsRecord.reads {started : Bool} {sys y : Cell} (h : HoldsRecord c env r values started sys y)
    (hc : c.Plain) (hsep : env.program.types.Separate) (hready : Ready c env r values)
    (hcodecs : Codecs c env r) :
    ∃ x₁ x₂, Primitive.read "load_ref" y.parse [] = .ok (x₁, .cell sys) ∧
      Primitive.read "load_int" x₁ [.int 1] = .ok (x₂, .bool started) ∧
      ∀ s, ∃ w x', Yields (call c (Name.reader r.name) [.slice x₂]) s (.tensor [.slice x', w]) s ∧
        w.Same (packed r.fields values) ∧ x'.Holds [] [] := by
  obtain ⟨bits, refs, hbits, rfl⟩ := h.encoded
  obtain ⟨x₁, href, hx₁⟩ := read_load_ref (Slice.holds_parse (started :: (headerBits r.plan ++ bits)) (sys :: refs))
  obtain ⟨x₂, hflag, hx₂⟩ := read_load_flag hx₁
  refine ⟨x₁, x₂, href, hflag, fun s => ?_⟩
  exact reader_restores hc hsep hready hcodecs h.header hbits (.inr ⟨rfl, rfl⟩) (by simpa using hx₂) s

/-! ### Storing the state -/

/-- **What is stored of a state.** -/
theorem Persists.stores (h : Persists c env decl) (hc : c.Proper) (hsep : env.program.types.Separate)
    (hr : RecordOf env decl r) (hcodecs : Codecs c env r) (hready : Ready c env r values) {sys : Cell}
    (hsys : s.globals.get? Helper.contextSys = some (.cell sys))
    (hcall : Yields (call c (Name.contractStore decl.name) [packed r.fields values]) s w s') :
    ∃ y, s' = { s with data := y } ∧ HoldsRecord c env r values true sys y := by
  obtain ⟨d, item, d', hrun, -, -, hget⟩ := h.store
  simp only [storeItem, used, run_bind, run_modify, run_pure] at hrun
  obtain ⟨_, _, ⟨_, _, rfl, rfl, rfl⟩, ty, _, -, rfl, rfl⟩ := hrun
  have hhas : c.Has (Name.contractStore decl.name) ["v"] _ := ⟨_, hget _ (by simp), by simp⟩
  obtain ⟨-, q, t, hbody, rfl, rfl⟩ := hhas.yields.1 hcall
  have hlocal : (s.enter ["v"] [packed r.fields values]).get? Helper.contextSys = none :=
    State.get?_enter_of_not_mem (by decide)
  generalize hu : s.enter ["v"] [packed r.fields values] = u at hbody hlocal
  have hv : u.get? "v" = some (packed r.fields values) := by
    simp [← hu, State.enter, State.get?, Dict.ofList]
  have hglobal : u.globals.get? Helper.contextSys = some (.cell sys) := by rw [← hu]; exact hsys
  rw [yields_var_means (means_beginCell hc.plain)] at hbody
  generalize hu₁ : u.set "b" (.builder .empty) = u₁ at hbody
  have hb₁ : u₁.get? "b" = some (.builder .empty) := by simp [← hu₁]
  have hcode : Means c u₁ (Target.id Helper.contextSys) (.cell sys) := by
    rw [← hu₁]
    exact means_global (by rw [State.get?_set, if_neg (by decide), hlocal]) hglobal
  have href : Returns c u₁ (Target.method (Target.id "b") "store_ref" [Target.id Helper.contextSys])
      (· = .builder ⟨[], [sys]⟩) := by
    refine (means_id hb₁).returns.primitive hc.plain (by decide) (.cons hcode .nil) ?_
    rintro _ w rfl hw
    exact (call_store_ref.1 hw).2
  obtain ⟨_, rfl, hbody⟩ := href.of_assign hb₁ hbody
  have hb₂ : (u₁.set "b" (.builder ⟨[], [sys]⟩)).get? "b" = some (.builder ⟨[], [sys]⟩) := by simp
  obtain ⟨_, rfl, hbody⟩ := (returns_storeFlag hc.plain (means_id hb₂)).of_assign hb₂ hbody
  rw [State.set_set] at hbody
  generalize hu₃ : u₁.set "b" (.builder (Builder.push ⟨[], [sys]⟩ [true] [])) = u₃ at hbody
  have hb₃ : u₃.get? "b" = some (.builder ⟨[true], [sys]⟩) := by simp [← hu₃, Builder.push]
  have hv₃ : u₃.get? "v" = some (packed r.fields values) := by simp [← hu₃, ← hu₁, hv]
  obtain ⟨_, ⟨b, rfl, hholds⟩, hbody⟩ :=
    (hready.returns_writer hc hsep hcodecs (means_id hb₃) (means_id hv₃)).of_assign hb₃ (hr.name_eq ▸ hbody)
  rw [yields_block_expr] at hbody
  obtain ⟨w, u₅, hset, hbody⟩ := hbody
  obtain ⟨rfl, rfl⟩ := yields_block_nil.1 hbody
  rw [Target.call, yields_call] at hset
  obtain ⟨vs, u₄, hargs, hset⟩ := hset
  simp only [yields_evalAll_cons, yields_evalAll_nil] at hargs
  obtain ⟨y, _, hy, _, ⟨rfl, rfl⟩, rfl⟩ := hargs
  have hb₄ : (u₃.set "b" (.builder b)).get? "b" = some (.builder b) := by simp
  obtain ⟨rfl, -, rfl⟩ := returns_endCell hc.plain (means_id hb₄).returns (fun _ h => h) _ _ hy
  obtain ⟨rfl, rfl⟩ := (yields_setData hc.plain).1 hset
  refine ⟨_, ?_, hholds⟩
  rw [← hu₃, ← hu₁, ← hu]
  rfl

/-! ### Deploying -/

/-- Looking up code changes nothing. -/
theorem Machine.Code.Proper.state_eq_of_dictGetCode (hc : c.Proper) {args : List Val}
    (h : Yields (call c Helper.dictGetCodeName args) s v s') : s' = s := by
  cases hget : c.functions.get? Helper.dictGetCodeName with
  | none => exact ((yields_primitive hget (by decide) (by decide)).1 h).2
  | some item =>
    obtain ⟨helper, hname, rfl⟩ := (hc _ item hget).resolve_left (by decide)
    obtain rfl : Helper.dictGetCode = helper := by
      have hof : Helper.ofName? Helper.dictGetCodeName = some .dictGetCode := by decide
      simpa [hof] using hname
    have hhas : c.Has Helper.dictGetCodeName ["dict", "id"] _ := ⟨_, hget, rfl⟩
    obtain ⟨hlength, q, t, hbody, rfl, rfl⟩ := hhas.yields.1 h
    have hparams := State.forall₂_enter (s := s) (by decide) hlength
    generalize hu : s.enter ["dict", "id"] args = u at hbody hparams
    obtain _ | ⟨hdict, _ | ⟨hid, _ | _⟩⟩ := hparams
    rw [yields_block_var] at hbody
    obtain ⟨found, u₁, hfound, u₂, hbind, hbody⟩ := hbody
    rw [yields_method_means (.cons (means_id hdict) (.cons means_int (.cons (means_id hid) .nil))),
      yields_builtin hc.plain (by decide)] at hfound
    obtain ⟨-, rfl⟩ := hfound
    have hbind : Yields (bind true found (.tensor (["data", "ok"].map Target.id))) u₁ () u₂ := hbind
    obtain ⟨vs, hvs, rfl, -⟩ := exists_setAll_of_bind_idents hbind fun h : False => h.elim
    have hset := State.forall₂_setAll (s := u₁) (by decide : ["data", "ok"].Nodup) hvs.symm
    generalize hu₂ : u₁.setAll (["data", "ok"].zip vs) = u₂ at hbody hset
    obtain _ | ⟨hdata, _ | ⟨hok, _ | _⟩⟩ := hset
    rw [Target.throwUnless, yields_block_expr] at hbody
    obtain ⟨_, u₃, hthrow, hbody⟩ := hbody
    rw [yields_call_means (.cons means_int (.cons (means_id hok) .nil)),
      yields_builtin hc.plain (by decide)] at hthrow
    obtain ⟨-, rfl⟩ := hthrow
    obtain ⟨-, rfl⟩ := (yields_ret_means (means_id hdata)).1 hbody
    rw [← hu₂, ← hu, State.globals_setAll, State.data_setAll]
    rfl

/-- The code of a contract that is deployed is looked up by its number. -/
theorem exists_code_of_block (hc : c.Proper) {u : State} {q : Option Val} {sys : Cell} {uid : Nat}
    {more : List Target.Stmt} (hsys : u.get? "sys'" = some (.cell sys))
    (h : Yields (block c (Target.var (Target.id "sc'") (Target.beginParse (Target.id "sys'")) ::
      Target.var (Target.id "source") (Target.modify (Target.id "sc'") "load_dict" []) ::
      Target.typedVar .cell "code"
        (Target.call Helper.dictGetCodeName [Target.id "source", Target.int uid]) :: more)) u q t) :
    ∃ code u', u.Frames (· ∈ ["sc'", "source", "code"]) u' ∧ u'.get? "code" = some code ∧
      Yields (block c more) u' q t := by
  have hparse : Means c u (Target.beginParse (Target.id "sys'")) (.slice sys.parse) :=
    .primitive hc.plain (by decide) (.cons (means_id hsys) .nil) (call_begin_parse.2 rfl)
  rw [yields_var_means hparse, yields_block_var] at h
  obtain ⟨source, u₁, hload, u₂, hbind, h⟩ := h
  rw [Target.modify, yields_modify_primitive (hc.plain _ (by decide))] at hload
  obtain ⟨vs, u', hvs, updated, -, hupdate⟩ := hload
  have hslice : (u.set "sc'" (.slice sys.parse)).get? "sc'" = some (.slice sys.parse) := by simp
  obtain ⟨rfl, rfl⟩ := (means_evalAll (.cons (means_id hslice) .nil)).eq hvs
  rw [Target.id, yields_bind_set hslice, State.set_set] at hupdate
  rw [Target.id, yields_bind_ident, State.assign_of_declare, hupdate] at hbind
  rw [Target.typedVar, yields_block_cons] at h
  obtain ⟨q', u₃, hcode, h⟩ := h
  rw [yields_varDef] at hcode
  obtain ⟨rfl, code, u'', hcode, hdeclare⟩ := hcode
  have hsource : u₂.get? "source" = some source := by simp [hbind]
  rw [yields_call_means (.cons (means_id hsource) (.cons means_int .nil))] at hcode
  obtain rfl := hc.state_eq_of_dictGetCode hcode
  rw [Target.id, yields_bind_ident, State.assign_of_declare] at hdeclare
  refine ⟨code, u₃, ?_, by simp [hdeclare], h⟩
  rw [hdeclare, hbind]
  exact ((State.frames_set.mono (by simp)).trans (State.frames_set.mono (by simp))).trans
    (State.frames_set.mono (by simp))

theorem withBindings_eq_ok {signature signature' : Target.Signature} {bindings : List Binding} {d d' : Draft}
    (h : withBindings signature bindings env d = .ok signature' d') :
    signature'.name = signature.name ∧
      signature'.params.map (·.name) = signature.params.map (·.name) ++ bindings.map Prod.fst := by
  induction bindings generalizing signature d with
  | nil =>
    obtain ⟨rfl, -⟩ := run_pure.1 h
    simp
  | cons binding rest ih =>
    obtain ⟨name, ty⟩ := binding
    obtain ⟨target, d₁, -, hrest⟩ := run_bind.1 h
    obtain ⟨hname, hparams⟩ := ih hrest
    exact ⟨hname, by simpa using hparams⟩

theorem means_initArguments (hc : c.Plain)
    (h : ∀ p ∈ decl.initParams, s.get? (Name.var p.name) = some (values p.name)) :
    Means c s (initArguments decl) (packed (decl.initParams.map fun p => (p.name, p.ty)) values) := by
  unfold initArguments initBindings
  cases hparams : decl.initParams with
  | nil => exact means_emptyTuple hc
  | cons p ps =>
    rw [hparams] at h
    refine .tensor ?_
    rw [List.forall₂_map_left_iff, List.forall₂_map_left_iff, List.forall₂_map_right_iff,
      List.forall₂_map_right_iff, List.forall₂_same]
    exact fun p hp => means_id (h p hp)

/-- The data that a contract is deployed with begins with the codes of the system, and the flag
that tells that it has yet to be initialized. -/
theorem returns_initialState (hc : c.Plain) {sys : Cell} (hsys : s.get? "sys'" = some (.cell sys)) :
    Returns c s (storeFlag (Target.method Target.beginCell "store_ref" [Target.id "sys'"]) false)
      (· = .builder ⟨[false], [sys]⟩) := by
  have href : Returns c s (Target.method Target.beginCell "store_ref" [Target.id "sys'"])
      (· = .builder ⟨[], [sys]⟩) := by
    refine (means_beginCell hc).returns.primitive hc (by decide) (.cons (means_id hsys) .nil) ?_
    rintro _ w rfl hw
    exact (call_store_ref.1 hw).2
  refine href.primitive hc (by decide) (.cons means_bool (.cons means_int .nil)) ?_
  rintro _ w rfl hw
  exact (call_store_flag.1 hw).2

/-- Variables of the source have names of their own. -/
theorem Name.var_ne (x : String) {name : String} (h : name.toList.head? ≠ some '$') : Name.var x ≠ name := by
  rintro rfl
  simp [Name.var] at h

/-- **What a contract is deployed with.** -/
theorem Deploys.deploys (h : Deploys c env decl) (hc : c.Proper) (hsep : env.program.types.Separate)
    (hr : ArgumentsOf env decl r) (hcodecs : Codecs c env r) (hparams : decl.SeparateParams)
    (hready : Ready c env r values) {sys : Cell}
    (hcall : Yields (call c (Name.initChild decl.name)
      (.cell sys :: decl.initParams.map fun p => values p.name)) s w s') :
    s' = s ∧ ∃ code y, w = .tensor [code, .cell y] ∧ HoldsRecord c env r values false sys y := by
  obtain ⟨d, item, d', hrun, hsound, -, hget⟩ := h.child
  simp only [initChildItem, used, run_bind, run_modify, run_pure] at hrun
  obtain ⟨getCode, d₁, hhelper, _, _, ⟨_, _, rfl, rfl, rfl⟩, signature, _, hsignature, rfl, rfl⟩ := hrun
  obtain ⟨rfl, -⟩ := helper_entered hhelper hsound
  obtain ⟨hname, hnames⟩ := withBindings_eq_ok hsignature
  generalize hargs : decl.initParams.map (fun p => values p.name) = args at hcall
  generalize hvars : decl.initParams.map (fun p => Name.var p.name) = vars
  have hhas : c.Has (Name.initChild decl.name) ("sys'" :: vars) _ :=
    ⟨_, hget _ (by simp [hname]), by simpa [← hvars, initBindings, Function.comp_def] using hnames⟩
  obtain ⟨-, q, t, hbody, rfl, rfl⟩ := hhas.yields.1 hcall
  have hlength : vars.length = args.length := by simp [← hvars, ← hargs]
  have hdistinct : ("sys'" :: vars).Nodup := by
    rw [List.nodup_cons, ← hvars]
    refine ⟨fun hmem => ?_, ?_⟩
    · obtain ⟨p, -, hp⟩ := List.mem_map.1 hmem
      exact Name.var_ne p.name (by decide) hp
    · rw [← Function.comp_def, ← List.map_map]
      exact hparams.nodup.map Name.var_injective
  have henter : List.Forall₂ (fun name v => (s.enter ("sys'" :: vars) (.cell sys :: args)).get? name = some v)
      ("sys'" :: vars) (.cell sys :: args) := State.forall₂_enter hdistinct (by simpa using hlength)
  generalize hu : s.enter ("sys'" :: vars) (.cell sys :: args) = u at hbody henter
  obtain _ | ⟨hsys, hbound⟩ := henter
  obtain ⟨code, u₃, hframes, hcode₃, hbody⟩ := exists_code_of_block hc hsys hbody
  have hsys₃ : u₃.get? "sys'" = some (.cell sys) := by rw [hframes.kept _ (by decide), hsys]
  rw [yields_block_var] at hbody
  obtain ⟨w, u', hw, u₄, hbind', hbody⟩ := hbody
  obtain ⟨rfl, rfl⟩ := returns_initialState hc.plain hsys₃ w u' hw
  rw [Target.id, yields_bind_ident, State.assign_of_declare] at hbind'
  have hdata₄ : u₄.get? "data" = some (.builder ⟨[false], [sys]⟩) := by simp [hbind']
  have hletters : ∀ name ∈ ["sc'", "source", "code"], name.toList.head? ≠ some '$' := by decide
  have hparams₄ : ∀ p ∈ decl.initParams, u₄.get? (Name.var p.name) = some (values p.name) := by
    intro p hp
    rw [hbind', State.get?_set, if_neg (Name.var_ne p.name (by decide)),
      hframes.kept _ fun hmem => Name.var_ne p.name (hletters _ hmem) rfl]
    rw [← hvars, ← hargs, List.forall₂_map_left_iff, List.forall₂_map_right_iff, List.forall₂_same] at hbound
    exact hbound p hp
  have hpacked : Means c u₄ (initArguments decl) (packed r.fields values) :=
    hr.fields_eq ▸ means_initArguments hc.plain hparams₄
  obtain ⟨_, ⟨b, rfl, hholds⟩, hbody⟩ :=
    (hready.returns_writer hc hsep hcodecs (means_id hdata₄) hpacked).of_assign hdata₄
      (hr.name_eq ▸ hbody)
  generalize hu₅ : u₄.set "data" (.builder b) = u₅ at hbody
  have hcode₅ : u₅.get? "code" = some code := by simp [← hu₅, hbind', hcode₃]
  have hdata₅ : u₅.get? "data" = some (.builder b) := by simp [← hu₅]
  rw [yields_block_ret] at hbody
  obtain ⟨result, hresult, rfl⟩ := hbody
  rw [yields_tensor] at hresult
  obtain ⟨vs, hvs, rfl⟩ := hresult
  simp only [yields_evalAll_cons, yields_evalAll_nil, (means_id hcode₅).iff] at hvs
  obtain ⟨_, _, ⟨rfl, rfl⟩, _, ⟨y, _, hy, _, ⟨rfl, rfl⟩, rfl⟩, rfl⟩ := hvs
  obtain ⟨rfl, -, rfl⟩ := returns_endCell hc.plain (means_id hdata₅).returns (fun _ h => h) _ _ hy
  refine ⟨?_, _, _, rfl, hholds⟩
  rw [← hu₅, hbind']
  exact (hframes.restored s.frame).trans (by rw [← hu]; rfl)

/-! ### Loading the state -/

/-- How the arguments of a contract are loaded into variables. -/
def LoadsArguments (env : Env) (decl : TypeDecl) (load : Target.Expr) (bindArgs : Target.Stmt)
    (given : List Target.Expr) : Prop :=
  (decl.initParams = [] ∧ bindArgs = .expr load ∧ given = []) ∨
    decl.initParams ≠ [] ∧ ∃ parts, List.Forall₂ (fun p part =>
        Layout.shape env.program.types p.ty (Name.tick "args" p.name) = .ok part) decl.initParams parts ∧
      bindArgs = Target.var (Layout.Shape.product parts).pattern load ∧ given = Layout.Shape.patterns parts

theorem unpack_eq_ok {ty : TypeRef} {name : String} {e : Target.Expr} {d d' : Draft}
    (h : unpack ty name env d = .ok e d') :
    ∃ sh, Layout.shape env.program.types ty name = .ok sh ∧ e = sh.pattern := by
  simp only [unpack, table, run_bind, run_read, run_pure, run_ofExcept, Layout.unpack,
    Except.map_eq_ok] at h
  obtain ⟨_, _, ⟨_, _, ⟨rfl, rfl⟩, rfl, rfl⟩, ⟨sh, hsh, rfl⟩, rfl⟩ := h
  exact ⟨sh, hsh, rfl⟩

theorem patterns_of_unpack {ps : List Param} {parts : List Layout.Shape} {patterns : List Target.Expr}
    (hparts : List.Forall₂ (fun p part =>
      Layout.shape env.program.types p.ty (Name.tick "args" p.name) = .ok part) ps parts)
    (h : List.Forall₂ (fun p e => ∃ d d', unpack p.ty (Name.tick "args" p.name) env d = .ok e d') ps patterns) :
    patterns = Layout.Shape.patterns parts := by
  induction hparts generalizing patterns with
  | nil =>
    cases h
    rw [Layout.Shape.patterns]
  | @cons p part ps parts hpart _ ih =>
    cases h with
    | cons hunpack hrest =>
      obtain ⟨d, d', hunpack⟩ := hunpack
      obtain ⟨sh, hsh, rfl⟩ := unpack_eq_ok hunpack
      obtain rfl : part = sh := by simpa [hpart] using hsh
      rw [Layout.Shape.patterns, ih hrest]

theorem loadArguments_eq_ok {load : Target.Expr} {bindArgs : Target.Stmt} {given : List Target.Expr}
    {d d' : Draft} (h : loadArguments decl load env d = .ok (bindArgs, given) d') :
    LoadsArguments env decl load bindArgs given := by
  unfold loadArguments at h
  cases hparams : decl.initParams with
  | nil =>
    rw [hparams] at h
    obtain ⟨heq, -⟩ := run_pure.1 h
    obtain ⟨rfl, rfl⟩ := Prod.mk.injEq .. ▸ heq
    exact .inl ⟨hparams, rfl, rfl⟩
  | cons p ps =>
    rw [hparams] at h
    simp only [table, run_bind, run_read, run_pure, run_ofExcept] at h
    obtain ⟨_, _, ⟨_, _, ⟨rfl, rfl⟩, rfl, rfl⟩, sh, _, ⟨hsh, rfl⟩, patterns, _, hpatterns, heq, -⟩ := h
    obtain ⟨rfl, rfl⟩ := Prod.mk.injEq .. ▸ heq
    rcases Layout.recordBy_eq_ok.1 hsh with ⟨hnil, -⟩ | ⟨-, parts, rfl, hparts⟩
    · simp at hnil
    · rw [List.forall₂_map_left_iff, ← hparams] at hparts
      exact .inr ⟨by simp [hparams], parts, hparts, rfl, patterns_of_unpack hparts (hparams ▸ run_mapM hpatterns)⟩

/-- The beginning of the function that loads the state. -/
def loadOpening : List Target.Stmt :=
  [Target.var (Target.id "$sc") (Target.beginParse (Target.call "get_data" [])),
    Target.assign (Target.id Helper.contextSys) (Target.modify (Target.id "$sc") "load_ref" []),
    Target.var (Target.id "$loaded") (Target.modify (Target.id "$sc") "load_int" [Target.int 1])]

/-- What follows depends on whether the contract has started. -/
theorem Persists.exists_load (h : Persists c env decl) : ∃ bindArgs given,
    LoadsArguments env decl (Target.modify (Target.id "$sc") (Name.reader (Name.initArgs decl.name)) [])
      bindArgs given ∧
    c.Has (Name.contractLoad decl.name) [] (loadOpening ++
      [Target.ifThen (Target.id "$loaded") [Target.ret (Target.modify (Target.id "$sc") (Name.reader decl.name) [])],
        bindArgs, .expr (Target.method (Target.id "$sc") "end_parse" []),
        Target.ret (Target.call (Name.contractInit decl.name) given)]) := by
  obtain ⟨d, item, d', hrun, -, -, hget⟩ := h.load
  simp only [loadItem, used, run_bind, run_modify, run_pure] at hrun
  obtain ⟨_, _, ⟨_, _, rfl, rfl, rfl⟩, _, _, ⟨_, _, rfl, rfl, rfl⟩, _, _, ⟨_, _, rfl, rfl, rfl⟩,
    ⟨bindArgs, given⟩, _, hload, ty, _, -, rfl, rfl⟩ := hrun
  exact ⟨bindArgs, given, loadArguments_eq_ok hload, _, hget _ (by simp), by simp⟩

theorem yields_loadOpening (hc : c.Plain) {sys : Cell} {x₁ x₂ : Slice} {started : Bool}
    (hglobal : t.globals.contains Helper.contextSys = true)
    (href : Primitive.read "load_ref" t.data.parse [] = .ok (x₁, .cell sys))
    (hflag : Primitive.read "load_int" x₁ [.int 1] = .ok (x₂, .bool started)) :
    ∃ frame, Yields (block c loadOpening) (t.enter [] []) none
        ((t.setGlobal Helper.contextSys (.cell sys)).withFrame frame) ∧
      frame.get? "$sc" = some (.slice x₂) ∧ frame.get? "$loaded" = some (.bool started) := by
  have hparse : Means c (t.enter [] []) (Target.beginParse (Target.call "get_data" []))
      (.slice t.data.parse) :=
    .primitive hc (by decide) (.cons (means_getData hc) .nil) (call_begin_parse.2 rfl)
  generalize hu : (t.enter [] []).set "$sc" (.slice t.data.parse) = u
  have hsc : u.get? "$sc" = some (.slice t.data.parse) := by simp [← hu]
  have hload := yields_read hc (by decide) hsc .nil href
  have hassign : (u.set "$sc" (.slice x₁)).assign false Helper.contextSys (.cell sys) =
      (u.set "$sc" (.slice x₁)).setGlobal Helper.contextSys (.cell sys) := by
    refine State.assign_global ?_ (by rw [← hu]; exact hglobal)
    rw [State.get?_set, if_neg (by decide), ← hu, State.get?_set, if_neg (by decide),
      State.get?_enter_of_not_mem (by simp)]
  generalize hu₁ : (u.set "$sc" (.slice x₁)).setGlobal Helper.contextSys (.cell sys) = u₁ at hassign
  have hsc₁ : u₁.get? "$sc" = some (.slice x₁) := by rw [← hu₁]; exact State.get?_set.trans (by simp)
  have hloaded := yields_read hc (by decide) hsc₁ (.cons means_int .nil) hflag
  refine ⟨((u₁.set "$sc" (.slice x₂)).set "$loaded" (.bool started)).frame, ?_, ?_, ?_⟩
  · rw [loadOpening, yields_var_means hparse, hu, Target.assign, yields_block_expr]
    refine ⟨_, u₁, yields_assign.2 ⟨_, hload, ?_⟩, ?_⟩
    · rw [Target.id, yields_bind_ident, hassign]
    · rw [yields_block_var]
      refine ⟨_, _, hloaded, (u₁.set "$sc" (.slice x₂)).set "$loaded" (.bool started), ?_,
        yields_block_nil.2 ⟨rfl, ?_⟩⟩
      · rw [Target.id, yields_bind_ident, State.assign_of_declare]
      · rw [← hu₁, ← hu]
        rfl
  · exact State.get?_set.trans (by simp)
  · exact State.get?_set.trans (by simp)

/-- **A state that has been stored is loaded.** -/
theorem Persists.loads (h : Persists c env decl) (hc : c.Proper) (hsep : env.program.types.Separate)
    (hr : RecordOf env decl r) (hcodecs : Codecs c env r) (hready : Ready c env r values) {sys : Cell}
    (hholds : HoldsRecord c env r values true sys t.data)
    (hglobal : t.globals.contains Helper.contextSys = true) :
    ∃ w, w.Same (packed r.fields values) ∧ Yields (call c (Name.contractLoad decl.name) []) t w
      (t.setGlobal Helper.contextSys (.cell sys)) := by
  obtain ⟨bindArgs, given, -, hhas⟩ := h.exists_load
  obtain ⟨x₁, x₂, href, hflag, hreads⟩ := hholds.reads hc.plain hsep hready hcodecs
  obtain ⟨frame, hopening, hsc, hloaded⟩ := yields_loadOpening hc.plain hglobal href hflag
  generalize hu : (t.setGlobal Helper.contextSys (.cell sys)).withFrame frame = u at hopening
  have hsc' : u.get? "$sc" = some (.slice x₂) := by rw [← hu]; exact hsc
  have hloaded' : u.get? "$loaded" = some (.bool true) := by rw [← hu]; exact hloaded
  obtain ⟨w, x', hread, hw, -⟩ := hreads u
  obtain ⟨item, hitem⟩ := hcodecs.get?_reader
  have hload := yields_reader hitem hsc' hread
  rw [hr.name_eq] at hload
  refine ⟨w, hw, hhas.yields.2 ⟨rfl, some w, u.set "$sc" (.slice x'), ?_, rfl, by rw [← hu]; rfl⟩⟩
  refine yields_block_append.2 ⟨none, u, hopening, ?_⟩
  rw [yields_ifThen_means (means_id hloaded'), if_pos rfl]
  exact yields_block_ret.2 ⟨w, hload, rfl⟩

/-- Arguments that have been loaded can be passed on, and no other variable that is read is set. -/
theorem LoadsArguments.binds (hsep : env.program.types.Separate) (hparams : decl.SeparateParams)
    (hfits : ∀ p ∈ decl.initParams, ∀ base sh, Layout.shape env.program.types p.ty base = .ok sh →
      sh.Fits (values p.name)) {load : Target.Expr} {bindArgs : Target.Stmt} {given : List Target.Expr}
    (h : LoadsArguments env decl load bindArgs given) (hload : Yields (eval c load) s w s')
    (hw : w.Same (packed (decl.initParams.map fun p => (p.name, p.ty)) values)) :
    ∃ ws t, List.Forall₂ Val.Same ws (decl.initParams.map fun p => values p.name) ∧
      Yields (Machine.stmt c bindArgs) s none t ∧ s'.Frames (· ≠ "$sc") t ∧
      Yields (evalAll c given) t ws t := by
  rcases h with ⟨hnil, rfl, rfl⟩ | ⟨hne, parts, hparts, rfl, rfl⟩
  · rw [hnil]
    exact ⟨[], s', .nil, yields_expr.2 ⟨rfl, w, hload⟩, .refl s', yields_evalAll_nil.2 ⟨rfl, rfl⟩⟩
  · obtain ⟨p, ps, hps⟩ := List.exists_cons_of_ne_nil hne
    have hpacked : packed (decl.initParams.map fun p => (p.name, p.ty)) values =
        .tensor (decl.initParams.map fun p => values p.name) := by
      rw [hps]
      simp [packed]
    have hfit : (Layout.Shape.product parts).Fits (.tensor (decl.initParams.map fun p => values p.name)) := by
      rw [Layout.Shape.Fits, Layout.Shape.fitsAll_iff_forall₂, List.forall₂_map_right_iff]
      refine List.forall₂_iff_zip.2 ⟨hparts.length_eq.symm, fun {part p} hmem => ?_⟩
      have hmem' : (p, part) ∈ decl.initParams.zip parts := by
        rw [← List.zip_swap]
        exact List.mem_map_of_mem hmem
      exact hfits p (List.of_mem_zip hmem').1 _ part ((List.forall₂_iff_zip.1 hparts).2 hmem')
    rw [hpacked] at hw
    obtain ⟨ws, rfl, hws⟩ : ∃ ws, w = .tensor ws ∧
        List.Forall₂ Val.Same ws (decl.initParams.map fun p => values p.name) := by
      rcases hw.cases with ⟨_, _, -, heq, -⟩ | ⟨_, _, -, heq, -⟩ | ⟨ws, _, rfl, heq, hws⟩ | ⟨rfl, -, -, hnot⟩
      · simp at heq
      · simp at heq
      · exact ⟨ws, rfl, Val.tensor.inj heq ▸ hws⟩
      · exact absurd rfl (hnot _)
    have hwfits := hfit.same hw
    have hparts' : List.Forall₂ (fun (f : String × TypeRef) sh =>
        Layout.shape env.program.types f.2 (Name.tick "args" f.1) = .ok sh)
        (decl.initParams.map fun p => (p.name, p.ty)) parts := List.forall₂_map_left_iff.2 hparts
    have hshape : ∀ ty name sh, Layout.shape env.program.types ty name = .ok sh → sh.Distinct name :=
      fun _ _ _ => Layout.shapeWithin_distinct hsep
    have hnames : ((decl.initParams.map fun p => (p.name, p.ty)).map Prod.fst).Nodup := by
      rw [List.map_map]
      exact hparams.nodup
    obtain ⟨hnodup, hunder⟩ := Layout.parts_distinct hshape hnames
      (List.forall_mem_map.2 hparams.plain) hparts'
    generalize ht : s'.setAll ((Layout.Shape.product parts).names.zip (Val.tensor ws).flatten) = t
    have hbound : Bound t (.product parts) (.tensor ws) := ht ▸ bound_setAll hwfits (by simpa using hnodup)
    refine ⟨ws, t, hws, ?_, ?_, boundAll_yields hbound⟩
    · exact yields_varDef.2 ⟨rfl, _, s', hload, (yields_bind_pattern hwfits).2 ht.symm⟩
    · refine ht ▸ State.frames_setAll.mono fun x hx => ?_
      rintro rfl
      obtain ⟨f, -, hf⟩ := hunder _ (by simpa using hx)
      rcases hf.of_tick with heq | ⟨rest, heq⟩ <;> simp at heq

theorem Machine.Code.Has.call_apply {name : String} {params : List String} {body : List Target.Stmt}
    {args : List Val} (h : c.Has name params body) (hlength : params.length = args.length) :
    call c name args s = (block c body (s.enter params args)).map fun p =>
      (p.1.map (·.getD .unit), p.2.withFrame s.frame) := by
  obtain ⟨signature, hget, rfl⟩ := h
  exact call_function hget (by simpa using hlength)

/-- **A contract that has not started makes its first state out of the arguments that it was deployed
with**: loading the state does what the function that makes the first state does when it is called with
values that hold the same. -/
theorem Persists.loads_arguments (h : Persists c env decl) (hc : c.Proper)
    (hsep : env.program.types.Separate) (hr : ArgumentsOf env decl r) (hcodecs : Codecs c env r)
    (hparams : decl.SeparateParams) (hready : Ready c env r values)
    (hfits : ∀ p ∈ decl.initParams, ∀ base sh, Layout.shape env.program.types p.ty base = .ok sh →
      sh.Fits (values p.name)) {sys : Cell}
    (hholds : HoldsRecord c env r values false sys t.data)
    (hglobal : t.globals.contains Helper.contextSys = true) :
    ∃ ws, List.Forall₂ Val.Same ws (decl.initParams.map fun p => values p.name) ∧
      call c (Name.contractLoad decl.name) [] t =
        call c (Name.contractInit decl.name) ws (t.setGlobal Helper.contextSys (.cell sys)) := by
  obtain ⟨bindArgs, given, hargs, hhas⟩ := h.exists_load
  obtain ⟨x₁, x₂, href, hflag, hreads⟩ := hholds.reads hc.plain hsep hready hcodecs
  obtain ⟨frame, hopening, hsc, hloaded⟩ := yields_loadOpening hc.plain hglobal href hflag
  generalize hu : (t.setGlobal Helper.contextSys (.cell sys)).withFrame frame = u at hopening
  have hsc' : u.get? "$sc" = some (.slice x₂) := by rw [← hu]; exact hsc
  have hloaded' : u.get? "$loaded" = some (.bool false) := by rw [← hu]; exact hloaded
  obtain ⟨w, x', hread, hw, hx'⟩ := hreads u
  obtain ⟨item, hitem⟩ := hcodecs.get?_reader
  have hload := yields_reader hitem hsc' hread
  rw [hr.name_eq] at hload
  rw [hr.fields_eq] at hw
  obtain ⟨ws, u₂, hws, hbind, hframes, hgiven⟩ := hargs.binds hsep hparams hfits hload hw
  have hsc₂ : u₂.get? "$sc" = some (.slice x') := by
    rw [hframes.kept _ (by simp)]
    simp
  have hend : Means c u₂ (Target.method (Target.id "$sc") "end_parse" []) .unit :=
    .primitive hc.plain (by decide) (.cons (means_id hsc₂) .nil) (call_end_parse hx')
  refine ⟨ws, hws, ?_⟩
  have hmiddle : Yields (block c [Target.ifThen (Target.id "$loaded")
      [Target.ret (Target.modify (Target.id "$sc") (Name.reader decl.name) [])],
        bindArgs, .expr (Target.method (Target.id "$sc") "end_parse" [])]) u none u₂ := by
    rw [yields_ifThen_means (means_id hloaded'), if_neg (by simp)]
    exact yields_block_cons.2 ⟨none, u₂, hbind,
      yields_block_expr.2 ⟨_, u₂, hend, yields_block_nil.2 ⟨rfl, rfl⟩⟩⟩
  have hbody : block c (_ ++ [Target.ret (Target.call (Name.contractInit decl.name) given)]) u =
      (some <$> call c (Name.contractInit decl.name) ws) u₂ :=
    (block_of_yields hmiddle).trans (block_ret_call hgiven)
  have hstate : u₂.withFrame t.frame = t.setGlobal Helper.contextSys (.cell sys) :=
    (hframes.restored t.frame).trans (by rw [← hu]; rfl)
  rw [hhas.call_apply rfl, block_of_yields hopening, ← hstate, frameless_call]
  refine (congrArg _ hbody).trans ?_
  rw [map_apply, Option.map_map]
  congr 1
  funext ⟨result, u₃⟩
  cases result <;> rfl

end CellCompiler
