import CellCompiler.Json.Plan
import CellCompiler.Proofs.Json.Source

/-!
# Declarations, plans and programs are read back

A program whose tables have each name once is read back from its JSON form, with all tables in their
order (`Program.ofJson?_toJson`).
-/

namespace CellCompiler

open Json (Stage)

/-! ### Declarations -/

@[simp] theorem Param.plain_toJson (p : Param) : p.toJson.Plain := by
  simp [toJson]

@[simp] theorem Param.ofJson?_toJson (p : Param) : ofJson? p.toJson = some p := by
  simp [toJson, ofJson?, Json.fields?_obj]

@[simp] theorem Field.plain_toJson (f : Field) : f.toJson.Plain := by
  simp [toJson, Json.plain_ofOption]

theorem Field.ofJson?_toJson {f : Field} (h : ∀ v, f.default = some v → v.Unrepeated) :
    ofJson? f.toJson = some f := by
  have hdefault : Json.option? Value.ofJson? (Json.ofOption Value.toJson f.default) =
      some f.default :=
    Json.option?_ofOption (fun v hv => Value.ofJson?_toJson (h v hv)) Value.toJson_ne_null
  rw [toJson, ofJson?, Json.fields?_obj (by simp) (by simp), Option.bind_eq_bind, Option.bind_some]
  simp [hdefault]

namespace FunctionBody

@[simp] theorem plain_toJson (body : FunctionBody) : body.toJson.Plain := by
  cases body <;> simp [toJson, Json.kinded]

@[simp] theorem ofJson?_toJson (body : FunctionBody) : ofJson? body.toJson = some body := by
  cases body <;>
    rw [toJson, ofJson?, Json.kinded, Json.inside?_obj (by simp) (by simp), Option.bind_eq_bind,
      Option.bind_some] <;>
    simp [Json.fields?_obj, Json.nothingInside?]

end FunctionBody

namespace Function

@[simp] theorem plain_toJson (f : Function) : f.toJson.Plain := by
  simp [toJson, Json.plain_ofOption, Json.plain_ofList]

@[simp] theorem ofJson?_toJson (f : Function) : ofJson? f.toJson = some f := by
  have hself : Json.option? TypeRef.ofJson? (Json.ofOption TypeRef.toJson f.selfType) =
      some f.selfType :=
    Json.option?_ofOption (fun ty _ => ty.ofJson?_toJson) TypeRef.toJson_ne_null
  have hparams : Json.list? Param.ofJson? (Json.ofList Param.toJson f.params) = some f.params :=
    Json.list?_ofList fun p _ => p.ofJson?_toJson
  have hid : Json.option? Json.uint32? (Json.ofOption (fun id => .ofNat id.toNat) f.methodId) =
      some f.methodId :=
    Json.option?_ofOption (fun id _ => Json.uint32?_ofNat id) nofun
  rw [toJson, ofJson?, Json.fields?_obj (by simp) (by simp), Option.bind_eq_bind, Option.bind_some]
  simp [hself, hparams, hid]

end Function

@[simp] theorem Init.plain_toJson (i : Init) : i.toJson.Plain := by
  simp [toJson, Json.plain_ofList]

@[simp] theorem Init.ofJson?_toJson (i : Init) : ofJson? i.toJson = some i := by
  have hparams : Json.list? Param.ofJson? (Json.ofList Param.toJson i.params) = some i.params :=
    Json.list?_ofList fun p _ => p.ofJson?_toJson
  simp [toJson, ofJson?, Json.fields?_obj, hparams]

namespace MessageSelector

@[simp] theorem plain_toJson (selector : MessageSelector) : selector.toJson.Plain := by
  cases selector <;> simp [toJson, Json.kinded]

@[simp] theorem readJson?_toJson (stage : Stage) (selector : MessageSelector) :
    readJson? stage selector.toJson = some selector := by
  cases selector <;>
    rw [toJson, readJson?, Json.kinded, Json.inside?_obj (by simp) (by simp), Option.bind_eq_bind,
      Option.bind_some] <;>
    simp [Json.fields?_obj, Json.nothingInside?]

end MessageSelector

namespace ReceiverSelector

@[simp] theorem plain_toJson (selector : ReceiverSelector) : selector.toJson.Plain := by
  cases selector <;> simp [toJson, directed]

@[simp] theorem ofJson?_toJson (selector : ReceiverSelector) :
    ofJson? selector.toJson = some selector := by
  cases selector <;>
    rw [toJson, ofJson?, directed, Json.inside?_obj (by simp) (by simp), Option.bind_eq_bind,
      Option.bind_some] <;>
    simp [Json.fields?_obj, Json.nothingInside?]

end ReceiverSelector

@[simp] theorem Receiver.plain_toJson (r : Receiver) : r.toJson.Plain := by
  simp [toJson, Json.plain_ofOption]

@[simp] theorem Receiver.ofJson?_toJson (r : Receiver) : ofJson? r.toJson = some r := by
  simp [toJson, ofJson?, Json.fields?_obj]

namespace TypeDecl

/-- Each method has a name of its own, and so has each field of a record in a default. -/
structure Unrepeated (d : TypeDecl) : Prop where
  functions : d.functions.keys.Nodup
  defaults : ∀ f ∈ d.fields, ∀ v, f.default = some v → v.Unrepeated

@[simp] theorem plain_toJson (d : TypeDecl) : d.toJson.Plain := by
  simp [toJson, Json.plain_ofOption, Json.plain_ofList, Dict.plain_toJson]

theorem ofJson?_toJson {d : TypeDecl} (h : d.Unrepeated) : ofJson? d.toJson = some d := by
  have hfields : Json.list? Field.ofJson? (Json.ofList Field.toJson d.fields) = some d.fields :=
    Json.list?_ofList fun f hf => Field.ofJson?_toJson (h.defaults f hf)
  have hheader : Json.option? Json.uint32? (Json.ofOption (fun h => .ofNat h.toNat) d.header) =
      some d.header :=
    Json.option?_ofOption (fun opcode _ => Json.uint32?_ofNat opcode) nofun
  have hfunctions : Json.dict? Function.ofJson? (d.functions.toJson Function.toJson) =
      some d.functions :=
    Json.dict?_toJson (fun f _ => f.ofJson?_toJson) h.functions
  have hreceivers : Json.list? Receiver.ofJson? (Json.ofList Receiver.toJson d.receivers) =
      some d.receivers :=
    Json.list?_ofList fun r _ => r.ofJson?_toJson
  have hinit : Json.option? Init.ofJson? (Json.ofOption Init.toJson d.init) = some d.init :=
    Json.option?_ofOption (fun i _ => i.ofJson?_toJson) fun i => by simp [Init.toJson]
  rw [toJson, ofJson?, Json.fields?_obj (by simp) (by simp), Option.bind_eq_bind, Option.bind_some]
  simp [hfields, hheader, hfunctions, hreceivers, hinit]

end TypeDecl

@[simp] theorem Constant.plain_toJson (c : Constant) : c.toJson.Plain := by
  simp [toJson]

theorem Constant.ofJson?_toJson {c : Constant} (h : c.value.Unrepeated) :
    ofJson? c.toJson = some c := by
  simp [toJson, ofJson?, Json.fields?_obj, Value.ofJson?_toJson h]

namespace TypeTable

/-- Each declaration has a name of its own in its table, and so has each part of it. -/
structure Unrepeated (t : TypeTable) : Prop where
  types : t.types.keys.Nodup
  functions : t.functions.keys.Nodup
  constants : t.constants.keys.Nodup
  decls : ∀ d ∈ t.types.values, d.Unrepeated
  values : ∀ c ∈ t.constants.values, c.value.Unrepeated

@[simp] theorem plain_toJson (t : TypeTable) : t.toJson.Plain := by
  simp [toJson, Dict.plain_toJson]

theorem ofJson?_toJson {t : TypeTable} (h : t.Unrepeated) : ofJson? t.toJson = some t := by
  have htypes : Json.dict? TypeDecl.ofJson? (t.types.toJson TypeDecl.toJson) = some t.types :=
    Json.dict?_toJson (fun d hd => TypeDecl.ofJson?_toJson (h.decls d hd)) h.types
  have hfunctions : Json.dict? Function.ofJson? (t.functions.toJson Function.toJson) =
      some t.functions :=
    Json.dict?_toJson (fun f _ => f.ofJson?_toJson) h.functions
  have hconstants : Json.dict? Constant.ofJson? (t.constants.toJson Constant.toJson) =
      some t.constants :=
    Json.dict?_toJson (fun c hc => Constant.ofJson?_toJson (h.values c hc)) h.constants
  simp [toJson, ofJson?, Json.fields?_obj, htypes, hfunctions, hconstants]

end TypeTable

/-! ### Plans -/

namespace Plan

@[simp] theorem Header.plain_toJson (h : Header) : h.toJson.Plain := by
  simp [toJson]

@[simp] theorem Header.ofJson?_toJson (h : Header) : ofJson? h.toJson = some h := by
  simp [toJson, ofJson?, Json.fields?_obj]

@[simp] theorem Format.ofJson?_jsonName (format : Format) :
    ofJson? (.str format.jsonName) = some format := by
  rw [ofJson?, Json.choice?_str]
  cases format <;> rfl

theorem OpKind.plain_members (kind : OpKind) : (Json.obj kind.members).Plain := by
  cases kind <;> simp [members]

@[simp] theorem OpKind.readJson?_toJson (stage : Stage) (kind : OpKind) :
    readJson? stage kind.toJson = some kind := by
  cases kind <;>
    rw [toJson, members, readJson?, Json.inside?_obj (by simp) (by simp), Option.bind_eq_bind,
      Option.bind_some] <;>
    simp [Json.fields?_obj, Json.nothingInside?]

theorem OpKind.not_mem_members (kind : OpKind) :
    ∀ name ∈ ["name", "optional"], name ∉ kind.members.map Prod.fst := by
  cases kind <;> simp [members]

@[simp] theorem Op.plain_toJson (op : Op) : op.toJson.Plain := by
  simp only [toJson, Json.plain_obj_iff, List.cons_append, List.forall_mem_cons,
    List.forall_mem_append]
  refine ⟨.str _, Json.plain_obj_iff.1 op.kind.plain_members, .bool _, by simp⟩

/-- The name of an operation and whether it is optional stand beside the way of storing. -/
@[simp] theorem Op.ofJson?_toJson (op : Op) : ofJson? op.toJson = some op := by
  obtain ⟨hname, hoptional⟩ :
      "name" ∉ op.kind.members.map Prod.fst ∧ "optional" ∉ op.kind.members.map Prod.fst := by
    simpa only [List.forall_mem_cons, List.not_mem_nil, false_implies, implies_true, and_true] using
      op.kind.not_mem_members
  have hfirst : Json.member? (("name", .str op.name) :: op.kind.members ++
      [("optional", Json.bool op.optional)]) "name" = some (some (.str op.name)) := by
    simp [Json.member?, Json.filter_name_of_not_mem hname]
  have hlast : Json.member? (("name", .str op.name) :: op.kind.members ++
      [("optional", Json.bool op.optional)]) "optional" = some (some (.bool op.optional)) := by
    simp [Json.member?, Json.filter_name_of_not_mem hoptional]
  have hown : Json.without "name" (Json.without "optional" (("name", .str op.name) ::
      op.kind.members ++ [("optional", Json.bool op.optional)])) = op.kind.members := by
    have h1 := Json.without_of_not_mem hname
    have h2 := Json.without_of_not_mem hoptional
    simp only [Json.without] at h1 h2
    simp [Json.without, h1, h2]
  have hkind := OpKind.readJson?_toJson .held op.kind
  rw [OpKind.toJson] at hkind
  simp only [toJson, ofJson?, Json.obj?_obj, hfirst, hlast, hown,
    Json.hold?_of_plain op.kind.plain_members, hkind, Json.required_some, Json.defaulted_some,
    Json.str?_str, Json.bool?_bool, Option.bind_eq_bind, Option.bind_some, Option.pure_def]

namespace Chain

@[simp] theorem plain_toJson (c : Chain) : c.toJson.Plain := by
  induction c with
  | last ops => simp [toJson, Json.plain_ofList]
  | link ops next ih => simp [toJson, Json.plain_ofList, ih]

theorem toJson_ne_null (c : Chain) : c.toJson ≠ .null := by
  cases c <;> simp [toJson]

theorem ofJsonWithin_toJson {c : Chain} {fuel : Nat} (h : c.toJson.depth ≤ fuel) :
    ofJsonWithin fuel c.toJson = some c := by
  have hops (ops : List Op) : Json.list? Op.ofJson? (Json.ofList Op.toJson ops) = some ops :=
    Json.list?_ofList fun op _ => op.ofJson?_toJson
  induction c generalizing fuel with
  | last ops =>
    rw [toJson, Json.depth] at h
    obtain ⟨fuel, rfl⟩ := Nat.exists_eq_add_of_le' (Nat.le_of_add_left_le h)
    simp [toJson, ofJsonWithin, Json.fields?_obj, hops, Json.option?]
  | link ops next ih =>
    simp only [toJson, Json.depth, Json.depthMembers] at h
    obtain ⟨fuel, rfl⟩ := Nat.exists_eq_add_of_le' (Nat.le_of_add_left_le h)
    have hnext : Json.option? (ofJsonWithin fuel) (Json.ofOption toJson (some next)) =
        some (some next) :=
      Json.option?_ofOption (fun c hc => by
        obtain rfl := Option.some.inj hc
        exact ih (by omega)) toJson_ne_null
    rw [Json.ofOption] at hnext
    simp [toJson, ofJsonWithin, Json.fields?_obj, hops, hnext]

@[simp] theorem ofJson?_toJson (c : Chain) : ofJson? c.toJson = some c :=
  ofJsonWithin_toJson le_rfl

end Chain

@[simp] theorem plain_toJson (p : Plan) : p.toJson.Plain := by
  simp [toJson, Json.plain_ofOption, Json.plain_ofList]

@[simp] theorem ofJson?_toJson (p : Plan) : ofJson? p.toJson = some p := by
  have hheader : Json.option? Header.ofJson? (Json.ofOption Header.toJson p.header) =
      some p.header :=
    Json.option?_ofOption (fun h _ => h.ofJson?_toJson) fun h => by simp [Header.toJson]
  have hops : Json.list? Op.ofJson? (Json.ofList Op.toJson p.ops) = some p.ops :=
    Json.list?_ofList fun op _ => op.ofJson?_toJson
  simp [toJson, ofJson?, Json.fields?_obj, hheader, hops]

end Plan

namespace Plans

/-- Each plan has a name of its own in its table. -/
structure Unrepeated (all : Plans) : Prop where
  types : all.types.keys.Nodup
  initArgs : all.initArgs.keys.Nodup

@[simp] theorem plain_toJson (all : Plans) : all.toJson.Plain := by
  simp [toJson, Dict.plain_toJson]

theorem ofJson?_toJson {all : Plans} (h : all.Unrepeated) : ofJson? all.toJson = some all := by
  have htypes : Json.dict? Plan.ofJson? (all.types.toJson Plan.toJson) = some all.types :=
    Json.dict?_toJson (fun p _ => p.ofJson?_toJson) h.types
  have hinits : Json.dict? Plan.ofJson? (all.initArgs.toJson Plan.toJson) = some all.initArgs :=
    Json.dict?_toJson (fun p _ => p.ofJson?_toJson) h.initArgs
  simp [toJson, ofJson?, Json.fields?_obj, htypes, hinits]

end Plans

/-! ### Programs -/

namespace Program

/-- No table of the program, and no record in a value of it, has a name twice. -/
structure Unrepeated (p : Program) : Prop where
  types : p.types.Unrepeated
  plans : p.plans.Unrepeated

@[simp] theorem plain_toJson (p : Program) : p.toJson.Plain := by
  simp [toJson]

/-- **Programs are read back from their JSON forms.** -/
theorem ofJson?_toJson {p : Program} (h : p.Unrepeated) : ofJson? p.toJson = some p := by
  simp [toJson, ofJson?, Json.fields?_obj, TypeTable.ofJson?_toJson h.types,
    Plans.ofJson?_toJson h.plans]

end Program

end CellCompiler
