import CellCompiler.Json.Source
import CellCompiler.Proofs.Json.Value

/-!
# Source programs are read back

Types, expressions, statements and declarations are read back from their JSON forms, in both stages
where they have two. The reader of an expression or a statement takes its type and place from beside
its own members (`Expr.ofJsonWithin_node`, `Stmt.ofJsonWithin_node`), and what is left is read by
kind.
-/

namespace CellCompiler

open Json (Stage)

/-! ### Types -/

namespace TypeRef

@[simp] theorem plain_toJson (ty : TypeRef) : ty.toJson.Plain := by
  cases ty <;> simp [toJson, Json.kinded, Json.plain_ofOption]

@[simp] theorem readJson?_toJson (stage : Stage) (ty : TypeRef) :
    readJson? stage ty.toJson = some ty := by
  cases ty <;>
    rw [toJson, readJson?, Json.kinded, Json.inside?_obj (by simp) (by simp [Json.plain_ofOption]),
      Option.bind_eq_bind, Option.bind_some] <;>
    simp [Json.fields?_obj, Json.nothingInside?]

@[simp] theorem ofJson?_toJson (ty : TypeRef) : ofJson? ty.toJson = some ty :=
  readJson?_toJson .direct ty

@[simp] theorem toJson_ne_null (ty : TypeRef) : ty.toJson ≠ .null := by
  cases ty <;> simp [toJson, Json.kinded]

end TypeRef

namespace TypeKind

@[simp] theorem plain_toJson (kind : TypeKind) : kind.toJson.Plain := by
  cases kind <;> simp [toJson]

@[simp] theorem ofJson?_toJson (kind : TypeKind) : ofJson? kind.toJson = some kind := by
  cases kind with
  | primitive kind => cases kind <;> rfl
  | struct => rfl
  | contract => rfl

end TypeKind

/-! ### Places and operators -/

namespace Location

@[simp] theorem plain_toJson (loc : Location) : loc.toJson.Plain := by
  simp [toJson, Json.plain_ofOption]

@[simp] theorem ofJson?_toJson (loc : Location) : ofJson? loc.toJson = some loc := by
  simp [toJson, ofJson?, Json.fields?_obj]

end Location

@[simp] theorem BinaryOp.readJson?_jsonName (stage : Stage) (op : BinaryOp) :
    readJson? stage (.str op.jsonName) = some op := by
  rw [readJson?, Json.choice?_str]
  cases op <;> rfl

@[simp] theorem UnaryOp.readJson?_jsonName (stage : Stage) (op : UnaryOp) :
    readJson? stage (.str op.jsonName) = some op := by
  rw [readJson?, Json.choice?_str]
  cases op <;> rfl

@[simp] theorem AugmentedOp.readJson?_jsonName (stage : Stage) (op : AugmentedOp) :
    readJson? stage (.str op.jsonName) = some op := by
  rw [readJson?, Json.choice?_str]
  cases op <;> rfl

/-! ### Expressions -/

namespace Expr

theorem plain_node {kind : String} {info : Info} {members : List (String × Json)} :
    (node kind info members).Plain ↔ (Json.obj members).Plain := by
  simp only [node, Json.kinded, Json.plain_obj_iff, List.forall_mem_cons, List.forall_mem_append]
  simp

mutual

@[simp] theorem plain_toJson : (e : Expr) → e.toJson.Plain
  | number .. | boolean .. | null .. | string .. | ident .. => by simp [toJson, plain_node]
  | field info target name => by simp [toJson, plain_node, plain_toJson target]
  | call info name args => by simp [toJson, plain_node, plain_listToJson args]
  | methodCall info receiver method args => by
    simp [toJson, plain_node, plain_toJson receiver, plain_listToJson args]
  | staticCall info typeName method args => by
    simp [toJson, plain_node, plain_listToJson args]
  | instanceOf info typeName inits => by simp [toJson, plain_node, plain_initsToJson inits]
  | binary info op lhs rhs => by simp [toJson, plain_node, plain_toJson lhs, plain_toJson rhs]
  | unary info op operand => by simp [toJson, plain_node, plain_toJson operand]
  | conditional info cond onTrue onFalse => by
    simp [toJson, plain_node, plain_toJson cond, plain_toJson onTrue, plain_toJson onFalse]
  | initOf info contract args => by simp [toJson, plain_node, plain_listToJson args]

@[simp] theorem plain_listToJson : (es : List Expr) → (Json.arr (listToJson es)).Plain
  | [] => by simp [listToJson]
  | e :: es => by simp [listToJson, plain_toJson e, plain_listToJson es]

@[simp] theorem plain_initsToJson : (inits : List (String × Expr)) →
    (Json.arr (initsToJson inits)).Plain
  | [] => by simp [initsToJson]
  | (name, e) :: rest => by simp [initsToJson, plain_toJson e, plain_initsToJson rest]

end

theorem toJson_ne_null (e : Expr) : e.toJson ≠ .null := by
  cases e <;> simp [toJson, node, Json.kinded]

/-- The type and the place of an expression stand beside its own members. -/
theorem ofJsonWithin_node {fuel : Nat} {stage : Stage} {kind : String} {info : Info}
    {members : List (String × Json)} (hplain : (Json.obj members).Plain)
    (hnames : ∀ name ∈ ["kind", "ty", "loc"], name ∉ members.map Prod.fst) :
    ofJsonWithin (fuel + 1) stage (node kind info members) =
      contentsOfJson? (ofJsonWithin fuel .held) info kind (.obj members) := by
  simp only [List.forall_mem_cons, List.not_mem_nil, false_implies, implies_true, and_true] at hnames
  obtain ⟨hkind, hty, hloc⟩ := hnames
  have htype : Json.member? (("kind", .str kind) :: (members ++ [("ty", info.ty.toJson),
      ("loc", info.loc.toJson)])) "ty" = some (some info.ty.toJson) := by
    simp [Json.member?, Json.filter_name_of_not_mem hty]
  have hplace : Json.member? (("kind", .str kind) :: (members ++ [("ty", info.ty.toJson),
      ("loc", info.loc.toJson)])) "loc" = some (some info.loc.toJson) := by
    simp [Json.member?, Json.filter_name_of_not_mem hloc]
  have hown : Json.without "ty" (Json.without "loc" (("kind", .str kind) :: (members ++
      [("ty", info.ty.toJson), ("loc", info.loc.toJson)]))) = ("kind", .str kind) :: members := by
    have h1 := Json.without_of_not_mem hty
    have h2 := Json.without_of_not_mem hloc
    simp only [Json.without] at h1 h2
    simp [Json.without, h1, h2]
  have hheld : (Json.obj (("kind", .str kind) :: members)).Plain := by simp [hplain]
  simp only [node, Json.kinded, ofJsonWithin, Json.obj?_obj, htype, hplace, hown,
    Json.hold?_of_plain hheld, Json.required_some, Json.defaulted_some, TypeRef.readJson?_toJson,
    Location.ofJson?_toJson, Json.inside?_obj hkind (Json.plain_obj_iff.1 hplain),
    Option.bind_eq_bind, Option.bind_some]

theorem exists_fuel {fuel : Nat} {kind : String} {info : Info} {members : List (String × Json)}
    (h : (node kind info members).depth ≤ fuel) :
    ∃ n, fuel = n + 1 ∧ Json.depthMembers members ≤ n := by
  have hmembers := Json.depthMembers_le_append members [("ty", info.ty.toJson), ("loc", info.loc.toJson)]
  simp only [node, Json.kinded, Json.depth, Json.depthMembers] at h
  exact ⟨fuel - 1, by omega, by omega⟩

mutual

theorem ofJsonWithin_toJson (stage : Stage) : (e : Expr) → (fuel : Nat) → e.toJson.depth ≤ fuel →
    ofJsonWithin fuel stage e.toJson = some e
  | number .., _, h | boolean .., _, h | null .., _, h | string .., _, h | ident .., _, h => by
    obtain ⟨fuel, rfl, -⟩ := exists_fuel h
    rw [toJson, ofJsonWithin_node (by simp) (by simp)]
    simp [contentsOfJson?, Json.fields?_obj]
  | field info target name, _, h => by
    obtain ⟨fuel, rfl, hdepth⟩ := exists_fuel h
    simp only [Json.depthMembers] at hdepth
    have htarget := ofJsonWithin_toJson .held target fuel (by omega)
    rw [toJson, ofJsonWithin_node (by simp) (by simp)]
    simp [contentsOfJson?, Json.fields?_obj, htarget]
  | call info name args, _, h => by
    obtain ⟨fuel, rfl, hdepth⟩ := exists_fuel h
    simp only [Json.depthMembers, Json.depth] at hdepth
    have hargs := mapM_listToJson args fuel (by omega)
    rw [toJson, ofJsonWithin_node (by simp) (by simp)]
    simp [contentsOfJson?, Json.fields?_obj, hargs]
  | methodCall info receiver method args, _, h => by
    obtain ⟨fuel, rfl, hdepth⟩ := exists_fuel h
    simp only [Json.depthMembers, Json.depth] at hdepth
    have hreceiver := ofJsonWithin_toJson .held receiver fuel (by omega)
    have hargs := mapM_listToJson args fuel (by omega)
    rw [toJson, ofJsonWithin_node (by simp) (by simp)]
    simp [contentsOfJson?, Json.fields?_obj, hreceiver, hargs]
  | staticCall info typeName method args, _, h => by
    obtain ⟨fuel, rfl, hdepth⟩ := exists_fuel h
    simp only [Json.depthMembers, Json.depth] at hdepth
    have hargs := mapM_listToJson args fuel (by omega)
    rw [toJson, ofJsonWithin_node (by simp) (by simp)]
    simp [contentsOfJson?, Json.fields?_obj, hargs]
  | instanceOf info typeName inits, _, h => by
    obtain ⟨fuel, rfl, hdepth⟩ := exists_fuel h
    simp only [Json.depthMembers, Json.depth] at hdepth
    have hinits := mapM_initsToJson inits fuel (by omega)
    rw [toJson, ofJsonWithin_node (by simp) (by simp)]
    simp [contentsOfJson?, Json.fields?_obj, hinits]
  | binary info op lhs rhs, _, h => by
    obtain ⟨fuel, rfl, hdepth⟩ := exists_fuel h
    simp only [Json.depthMembers, Json.depth] at hdepth
    have hlhs := ofJsonWithin_toJson .held lhs fuel (by omega)
    have hrhs := ofJsonWithin_toJson .held rhs fuel (by omega)
    rw [toJson, ofJsonWithin_node (by simp) (by simp)]
    simp [contentsOfJson?, Json.fields?_obj, hlhs, hrhs]
  | unary info op operand, _, h => by
    obtain ⟨fuel, rfl, hdepth⟩ := exists_fuel h
    simp only [Json.depthMembers, Json.depth] at hdepth
    have hoperand := ofJsonWithin_toJson .held operand fuel (by omega)
    rw [toJson, ofJsonWithin_node (by simp) (by simp)]
    simp [contentsOfJson?, Json.fields?_obj, hoperand]
  | conditional info cond onTrue onFalse, _, h => by
    obtain ⟨fuel, rfl, hdepth⟩ := exists_fuel h
    simp only [Json.depthMembers] at hdepth
    have hcond := ofJsonWithin_toJson .held cond fuel (by omega)
    have htrue := ofJsonWithin_toJson .held onTrue fuel (by omega)
    have hfalse := ofJsonWithin_toJson .held onFalse fuel (by omega)
    rw [toJson, ofJsonWithin_node (by simp) (by simp)]
    simp [contentsOfJson?, Json.fields?_obj, hcond, htrue, hfalse]
  | initOf info contract args, _, h => by
    obtain ⟨fuel, rfl, hdepth⟩ := exists_fuel h
    simp only [Json.depthMembers, Json.depth] at hdepth
    have hargs := mapM_listToJson args fuel (by omega)
    rw [toJson, ofJsonWithin_node (by simp) (by simp)]
    simp [contentsOfJson?, Json.fields?_obj, hargs]

theorem mapM_listToJson : (es : List Expr) → (fuel : Nat) →
    Json.depthItems (listToJson es) ≤ fuel →
    (listToJson es).mapM (ofJsonWithin fuel .held) = some es
  | [], _, _ => rfl
  | e :: es, fuel, h => by
    rw [listToJson, Json.depthItems] at h
    simp [listToJson, List.mapM_cons, ofJsonWithin_toJson .held e fuel (by omega),
      mapM_listToJson es fuel (by omega)]

theorem mapM_initsToJson : (inits : List (String × Expr)) → (fuel : Nat) →
    Json.depthItems (initsToJson inits) ≤ fuel →
    (initsToJson inits).mapM (initOfJson? (ofJsonWithin fuel .held)) = some inits
  | [], _, _ => rfl
  | (name, e) :: rest, fuel, h => by
    simp only [initsToJson, Json.depthItems, Json.depth, Json.depthMembers] at h
    simp [initsToJson, List.mapM_cons, initOfJson?, Json.fields?_obj,
      ofJsonWithin_toJson .held e fuel (by omega), mapM_initsToJson rest fuel (by omega)]

end

/-- Expressions are read back from their JSON forms in both stages. -/
@[simp] theorem readJson?_toJson (stage : Stage) (e : Expr) : readJson? stage e.toJson = some e :=
  ofJsonWithin_toJson stage e _ le_rfl

end Expr

/-! ### Statements -/

namespace Stmt

theorem plain_node {kind : String} {loc : Location} {members : List (String × Json)} :
    (node kind loc members).Plain ↔ (Json.obj members).Plain := by
  simp only [node, Json.kinded, Json.plain_obj_iff, List.forall_mem_cons, List.forall_mem_append]
  simp

mutual

@[simp] theorem plain_toJson : (s : Stmt) → s.toJson.Plain
  | letVar .. | assign .. | augmentedAssign .. | expression .. => by simp [toJson, plain_node]
  | ret loc value => by simp [toJson, plain_node, Json.plain_ofOption]
  | condition loc cond body otherwise => by
    simp [toJson, plain_node, plain_listToJson body, plain_otherwiseToJson otherwise]
  | whileLoop loc cond body => by simp [toJson, plain_node, plain_listToJson body]
  | untilLoop loc body cond => by simp [toJson, plain_node, plain_listToJson body]
  | repeatLoop loc count body => by simp [toJson, plain_node, plain_listToJson body]
  | tryCatch loc body catchName catchBody => by
    simp [toJson, plain_node, Json.plain_ofOption, plain_listToJson body,
      plain_listToJson catchBody]
  | foreach loc key value map body => by simp [toJson, plain_node, plain_listToJson body]

@[simp] theorem plain_listToJson : (stmts : List Stmt) → (Json.arr (listToJson stmts)).Plain
  | [] => by simp [listToJson]
  | s :: rest => by simp [listToJson, plain_toJson s, plain_listToJson rest]

@[simp] theorem plain_otherwiseToJson : (o : Otherwise) → (otherwiseToJson o).Plain
  | .absent => by simp [otherwiseToJson]
  | .block body => by simp [otherwiseToJson, plain_listToJson body]
  | .chain s => by simp [otherwiseToJson, plain_toJson s]

end

/-- The place of a statement stands beside its own members. -/
theorem ofJsonWithin_node {fuel : Nat} {stage : Stage} {kind : String} {loc : Location}
    {members : List (String × Json)} (hplain : (Json.obj members).Plain)
    (hnames : ∀ name ∈ ["kind", "loc"], name ∉ members.map Prod.fst) :
    ofJsonWithin (fuel + 1) stage (node kind loc members) =
      contentsOfJson? (ofJsonWithin fuel) loc kind (.obj members) := by
  simp only [List.forall_mem_cons, List.not_mem_nil, false_implies, implies_true, and_true] at hnames
  obtain ⟨hkind, hloc⟩ := hnames
  have hplace : Json.member? (("kind", .str kind) :: (members ++ [("loc", loc.toJson)])) "loc" =
      some (some loc.toJson) := by
    simp [Json.member?, Json.filter_name_of_not_mem hloc]
  have hown : Json.without "loc" (("kind", .str kind) :: (members ++ [("loc", loc.toJson)])) =
      ("kind", .str kind) :: members := by
    have hmembers := Json.without_of_not_mem hloc
    simp only [Json.without] at hmembers
    simp [Json.without, hmembers]
  have hheld : (Json.obj (("kind", .str kind) :: members)).Plain := by simp [hplain]
  simp only [node, Json.kinded, ofJsonWithin, Json.obj?_obj, hplace, hown,
    Json.hold?_of_plain hheld, Json.defaulted_some, Location.ofJson?_toJson,
    Json.inside?_obj hkind (Json.plain_obj_iff.1 hplain), Option.bind_eq_bind, Option.bind_some]

theorem exists_fuel {fuel : Nat} {kind : String} {loc : Location} {members : List (String × Json)}
    (h : (node kind loc members).depth ≤ fuel) :
    ∃ n, fuel = n + 1 ∧ Json.depthMembers members ≤ n := by
  have hmembers := Json.depthMembers_le_append members [("loc", loc.toJson)]
  simp only [node, Json.kinded, Json.depth, Json.depthMembers] at h
  exact ⟨fuel - 1, by omega, by omega⟩

theorem option?_otherwiseToJson {read : Stage → Json → Option Stmt} {o : Otherwise}
    (h : otherwiseToJson o ≠ .null → otherwiseOfJson? read .held (otherwiseToJson o) = some o) :
    ∃ alternative, Json.option? (otherwiseOfJson? read .held) (otherwiseToJson o) =
      some alternative ∧ alternative.getD .absent = o := by
  cases o with
  | absent => exact ⟨none, rfl, rfl⟩
  | block body =>
    refine ⟨some (.block body), ?_, rfl⟩
    have hread := h (by simp [otherwiseToJson])
    rw [otherwiseToJson] at hread ⊢
    rw [Json.option?, hread, Option.map_some]
    simp
  | chain s =>
    refine ⟨some (.chain s), ?_, rfl⟩
    have hread := h (by simp [otherwiseToJson])
    rw [otherwiseToJson] at hread ⊢
    rw [Json.option?, hread, Option.map_some]
    simp

mutual

theorem ofJsonWithin_toJson (stage : Stage) : (s : Stmt) → (fuel : Nat) → s.toJson.depth ≤ fuel →
    ofJsonWithin fuel stage s.toJson = some s
  | letVar .., _, h | assign .., _, h | augmentedAssign .., _, h | expression .., _, h => by
    obtain ⟨fuel, rfl, -⟩ := exists_fuel h
    rw [toJson, ofJsonWithin_node (by simp) (by simp)]
    simp [contentsOfJson?, Json.fields?_obj]
  | ret loc value, _, h => by
    obtain ⟨fuel, rfl, -⟩ := exists_fuel h
    have hvalue : Json.option? (Expr.readJson? .held) (Json.ofOption Expr.toJson value) =
        some value :=
      Json.option?_ofOption (fun e _ => Expr.readJson?_toJson .held e) Expr.toJson_ne_null
    rw [toJson, ofJsonWithin_node (by simp [Json.plain_ofOption]) (by simp)]
    simp [contentsOfJson?, Json.fields?_obj, hvalue]
  | condition loc cond body otherwise, _, h => by
    obtain ⟨fuel, rfl, hdepth⟩ := exists_fuel h
    simp only [Json.depthMembers, Json.depth] at hdepth
    have hbody := mapM_listToJson .held body fuel (by omega)
    obtain ⟨alternative, halternative, hotherwise⟩ := option?_otherwiseToJson fun hnull =>
      otherwiseOfJson?_toJson otherwise fuel (by omega) hnull
    rw [toJson, ofJsonWithin_node (by simp) (by simp)]
    simp [contentsOfJson?, Json.fields?_obj, hbody, halternative, hotherwise]
  | whileLoop loc cond body, _, h => by
    obtain ⟨fuel, rfl, hdepth⟩ := exists_fuel h
    simp only [Json.depthMembers, Json.depth] at hdepth
    have hbody := mapM_listToJson .held body fuel (by omega)
    rw [toJson, ofJsonWithin_node (by simp) (by simp)]
    simp [contentsOfJson?, Json.fields?_obj, hbody]
  | untilLoop loc body cond, _, h => by
    obtain ⟨fuel, rfl, hdepth⟩ := exists_fuel h
    simp only [Json.depthMembers, Json.depth] at hdepth
    have hbody := mapM_listToJson .held body fuel (by omega)
    rw [toJson, ofJsonWithin_node (by simp) (by simp)]
    simp [contentsOfJson?, Json.fields?_obj, hbody]
  | repeatLoop loc count body, _, h => by
    obtain ⟨fuel, rfl, hdepth⟩ := exists_fuel h
    simp only [Json.depthMembers, Json.depth] at hdepth
    have hbody := mapM_listToJson .held body fuel (by omega)
    rw [toJson, ofJsonWithin_node (by simp) (by simp)]
    simp [contentsOfJson?, Json.fields?_obj, hbody]
  | tryCatch loc body catchName catchBody, _, h => by
    obtain ⟨fuel, rfl, hdepth⟩ := exists_fuel h
    simp only [Json.depthMembers, Json.depth] at hdepth
    have hbody := mapM_listToJson .held body fuel (by omega)
    have hcatch := mapM_listToJson .held catchBody fuel (by omega)
    rw [toJson, ofJsonWithin_node (by simp [Json.plain_ofOption]) (by simp)]
    simp [contentsOfJson?, Json.fields?_obj, hbody, hcatch]
  | foreach loc key value map body, _, h => by
    obtain ⟨fuel, rfl, hdepth⟩ := exists_fuel h
    simp only [Json.depthMembers, Json.depth] at hdepth
    have hbody := mapM_listToJson .held body fuel (by omega)
    rw [toJson, ofJsonWithin_node (by simp) (by simp)]
    simp [contentsOfJson?, Json.fields?_obj, hbody]

theorem mapM_listToJson (stage : Stage) : (stmts : List Stmt) → (fuel : Nat) →
    Json.depthItems (listToJson stmts) ≤ fuel →
    (listToJson stmts).mapM (ofJsonWithin fuel stage) = some stmts
  | [], _, _ => rfl
  | s :: rest, fuel, h => by
    rw [listToJson, Json.depthItems] at h
    simp [listToJson, List.mapM_cons, ofJsonWithin_toJson stage s fuel (by omega),
      mapM_listToJson stage rest fuel (by omega)]

theorem otherwiseOfJson?_toJson : (o : Otherwise) → (fuel : Nat) →
    (otherwiseToJson o).depth ≤ fuel → otherwiseToJson o ≠ .null →
    otherwiseOfJson? (ofJsonWithin fuel) .held (otherwiseToJson o) = some o
  | .absent, _, _, hnull => absurd rfl hnull
  | .block body, fuel, h, _ => by
    simp only [otherwiseToJson, Json.depth, Json.depthMembers] at h
    have hbody := mapM_listToJson .held body fuel (by omega)
    simp [otherwiseToJson, otherwiseOfJson?, Json.beside?_obj, hbody]
  | .chain s, fuel, h, _ => by
    simp only [otherwiseToJson, Json.depth, Json.depthMembers] at h
    have hs := ofJsonWithin_toJson .held s fuel (by omega)
    simp [otherwiseToJson, otherwiseOfJson?, Json.beside?_obj, hs]

end

/-- Statements are read back from their JSON forms in both stages. -/
@[simp] theorem readJson?_toJson (stage : Stage) (s : Stmt) : readJson? stage s.toJson = some s :=
  ofJsonWithin_toJson stage s _ le_rfl

theorem listToJson_eq_map (stmts : List Stmt) : listToJson stmts = stmts.map toJson := by
  induction stmts with
  | nil => rfl
  | cons s rest ih => rw [listToJson, ih, List.map_cons]

/-- Statements of a body are read back, whichever stage they are read in. -/
@[simp] theorem mapM_readJson?_listToJson (stage : Stage) (stmts : List Stmt) :
    (listToJson stmts).mapM (readJson? stage) = some stmts := by
  rw [listToJson_eq_map]
  exact Json.list?_ofList fun s _ => readJson?_toJson stage s

@[simp] theorem listOfJson?_listToJson (stmts : List Stmt) :
    listOfJson? (.arr (listToJson stmts)) = some stmts :=
  mapM_readJson?_listToJson .direct stmts

end Stmt

end CellCompiler
