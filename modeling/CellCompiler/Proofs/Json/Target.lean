import CellCompiler.Json.Target
import CellCompiler.Proofs.Json.Decode

/-!
# Target code is read back

Types, expressions, statements and items of the target are read back from their JSON forms. A reader
of nested data needs one unit of fuel more than the JSON form is deep, since a name alone has no
depth.
-/

namespace CellCompiler

namespace Target

/-! ### Types -/

mutual

@[simp] theorem Ty.plain_toJson : (t : Ty) → t.toJson.Plain
  | .int | .cell | .slice | .builder | .cont | .hole | .var _ => by simp [Ty.toJson, wrap]
  | .tuple items => by simp [Ty.toJson, wrap, Ty.plain_listToJson items]
  | .tensor items => by simp [Ty.toJson, wrap, Ty.plain_listToJson items]

theorem Ty.plain_listToJson : (ts : List Ty) → (Json.arr (Ty.listToJson ts)).Plain
  | [] => by simp [Ty.listToJson]
  | t :: ts => by simp [Ty.listToJson, Ty.plain_toJson t, Ty.plain_listToJson ts]

end

mutual

theorem Ty.ofJsonWithin_toJson : (t : Ty) → (fuel : Nat) → t.toJson.depth < fuel →
    Ty.ofJsonWithin fuel t.toJson = some t
  | .int, _, h | .cell, _, h | .slice, _, h | .builder, _, h | .cont, _, h | .hole, _, h
  | .var _, _, h => by
    obtain ⟨fuel, rfl⟩ := Nat.exists_eq_add_one_of_ne_zero (Nat.ne_zero_of_lt h)
    simp [Ty.toJson, wrap, Ty.ofJsonWithin, Json.nothing?]
  | .tuple items, _, h | .tensor items, _, h => by
    obtain ⟨fuel, rfl⟩ := Nat.exists_eq_add_one_of_ne_zero (Nat.ne_zero_of_lt h)
    simp only [Ty.toJson, wrap, Json.depth, Json.depthMembers] at h
    have hitems := Ty.mapM_listToJson items fuel (by omega)
    rw [Ty.toJson, wrap, Ty.ofJsonWithin, Json.around?_obj, Option.bind_eq_bind, Option.bind_some]
    simp [hitems]

theorem Ty.mapM_listToJson : (ts : List Ty) → (fuel : Nat) →
    Json.depthItems (Ty.listToJson ts) < fuel →
    (Ty.listToJson ts).mapM (Ty.ofJsonWithin fuel) = some ts
  | [], _, _ => rfl
  | t :: ts, fuel, h => by
    rw [Ty.listToJson, Json.depthItems] at h
    simp [Ty.listToJson, List.mapM_cons, Ty.ofJsonWithin_toJson t fuel (by omega),
      Ty.mapM_listToJson ts fuel (by omega)]

end

@[simp] theorem Ty.ofJson?_toJson (t : Ty) : Ty.ofJson? t.toJson = some t :=
  Ty.ofJsonWithin_toJson t _ (Nat.lt_succ_self _)

theorem Ty.toJson_ne_null (t : Ty) : t.toJson ≠ .null := by
  cases t <;> simp [toJson, wrap]

/-! ### Operators -/

@[simp] theorem BinaryOp.ofJson?_outline (op : BinaryOp) : ofJson? (.str op.outline) = some op := by
  rw [ofJson?, Json.choice?_str]
  cases op <;> rfl

@[simp] theorem AugmentedOp.ofJson?_outline (op : AugmentedOp) :
    ofJson? (.str op.outline) = some op := by
  rw [ofJson?, Json.choice?_str]
  cases op <;> rfl

@[simp] theorem UnaryOp.ofJson?_outline (op : UnaryOp) : ofJson? (.str op.outline) = some op := by
  rw [ofJson?, Json.choice?_str]
  cases op <;> rfl

/-! ### Expressions -/

namespace Expr

mutual

@[simp] theorem plain_toJson : (e : Expr) → e.toJson.Plain
  | int _ | bool _ | ident _ | hole => by simp [toJson, wrap]
  | call _ args => by simp [toJson, wrap, plain_listToJson args]
  | methodCall receiver _ args _ => by
    simp [toJson, wrap, plain_toJson receiver, plain_listToJson args]
  | assign lhs rhs => by simp [toJson, wrap, plain_toJson lhs, plain_toJson rhs]
  | augmentedAssign lhs _ rhs => by simp [toJson, wrap, plain_toJson lhs, plain_toJson rhs]
  | ternary cond onTrue onFalse => by
    simp [toJson, wrap, plain_toJson cond, plain_toJson onTrue, plain_toJson onFalse]
  | binary _ lhs rhs => by simp [toJson, wrap, plain_toJson lhs, plain_toJson rhs]
  | unary _ operand => by simp [toJson, wrap, plain_toJson operand]
  | tensor items => by simp [toJson, wrap, plain_listToJson items]
  | tuple items => by simp [toJson, wrap, plain_listToJson items]

theorem plain_listToJson : (es : List Expr) → (Json.arr (listToJson es)).Plain
  | [] => by simp [listToJson]
  | e :: es => by simp [listToJson, plain_toJson e, plain_listToJson es]

end

/-- An expression with contents is read by its name. -/
theorem ofJsonWithin_wrap {fuel : Nat} {name : String} {content : Json} (hname : name ≠ "Hole") :
    ofJsonWithin (fuel + 1) (wrap name content) =
      contentsOfJson? (ofJsonWithin fuel) name content := by
  simp [wrap, ofJsonWithin, hname]

mutual

theorem ofJsonWithin_toJson : (e : Expr) → (fuel : Nat) → e.toJson.depth < fuel →
    ofJsonWithin fuel e.toJson = some e
  | hole, _, h => by
    obtain ⟨fuel, rfl⟩ := Nat.exists_eq_add_one_of_ne_zero (Nat.ne_zero_of_lt h)
    simp [toJson, ofJsonWithin, Json.nothing?]
  | int _, _, h | bool _, _, h | ident _, _, h => by
    obtain ⟨fuel, rfl⟩ := Nat.exists_eq_add_one_of_ne_zero (Nat.ne_zero_of_lt h)
    rw [toJson, ofJsonWithin_wrap (by decide)]
    simp [contentsOfJson?]
  | call callee args, _, h => by
    obtain ⟨fuel, rfl⟩ := Nat.exists_eq_add_one_of_ne_zero (Nat.ne_zero_of_lt h)
    simp only [toJson, wrap, Json.depth, Json.depthMembers] at h
    have hargs := mapM_listToJson args fuel (by omega)
    rw [toJson, ofJsonWithin_wrap (by decide)]
    simp [contentsOfJson?, Json.namedFields?_obj, hargs]
  | methodCall receiver method args modifying, _, h => by
    obtain ⟨fuel, rfl⟩ := Nat.exists_eq_add_one_of_ne_zero (Nat.ne_zero_of_lt h)
    simp only [toJson, wrap, Json.depth, Json.depthMembers] at h
    have hreceiver := ofJsonWithin_toJson receiver fuel (by omega)
    have hargs := mapM_listToJson args fuel (by omega)
    rw [toJson, ofJsonWithin_wrap (by decide)]
    simp [contentsOfJson?, Json.namedFields?_obj, hreceiver, hargs]
  | assign lhs rhs, _, h => by
    obtain ⟨fuel, rfl⟩ := Nat.exists_eq_add_one_of_ne_zero (Nat.ne_zero_of_lt h)
    simp only [toJson, wrap, Json.depth, Json.depthMembers] at h
    have hlhs := ofJsonWithin_toJson lhs fuel (by omega)
    have hrhs := ofJsonWithin_toJson rhs fuel (by omega)
    rw [toJson, ofJsonWithin_wrap (by decide)]
    simp [contentsOfJson?, Json.namedFields?_obj, hlhs, hrhs]
  | augmentedAssign lhs op rhs, _, h => by
    obtain ⟨fuel, rfl⟩ := Nat.exists_eq_add_one_of_ne_zero (Nat.ne_zero_of_lt h)
    simp only [toJson, wrap, Json.depth, Json.depthMembers] at h
    have hlhs := ofJsonWithin_toJson lhs fuel (by omega)
    have hrhs := ofJsonWithin_toJson rhs fuel (by omega)
    rw [toJson, ofJsonWithin_wrap (by decide)]
    simp [contentsOfJson?, Json.namedFields?_obj, hlhs, hrhs]
  | ternary cond onTrue onFalse, _, h => by
    obtain ⟨fuel, rfl⟩ := Nat.exists_eq_add_one_of_ne_zero (Nat.ne_zero_of_lt h)
    simp only [toJson, wrap, Json.depth, Json.depthMembers] at h
    have hcond := ofJsonWithin_toJson cond fuel (by omega)
    have htrue := ofJsonWithin_toJson onTrue fuel (by omega)
    have hfalse := ofJsonWithin_toJson onFalse fuel (by omega)
    rw [toJson, ofJsonWithin_wrap (by decide)]
    simp [contentsOfJson?, Json.namedFields?_obj, hcond, htrue, hfalse]
  | binary op lhs rhs, _, h => by
    obtain ⟨fuel, rfl⟩ := Nat.exists_eq_add_one_of_ne_zero (Nat.ne_zero_of_lt h)
    simp only [toJson, wrap, Json.depth, Json.depthMembers] at h
    have hlhs := ofJsonWithin_toJson lhs fuel (by omega)
    have hrhs := ofJsonWithin_toJson rhs fuel (by omega)
    rw [toJson, ofJsonWithin_wrap (by decide)]
    simp [contentsOfJson?, Json.namedFields?_obj, hlhs, hrhs]
  | unary op operand, _, h => by
    obtain ⟨fuel, rfl⟩ := Nat.exists_eq_add_one_of_ne_zero (Nat.ne_zero_of_lt h)
    simp only [toJson, wrap, Json.depth, Json.depthMembers] at h
    have hoperand := ofJsonWithin_toJson operand fuel (by omega)
    rw [toJson, ofJsonWithin_wrap (by decide)]
    simp [contentsOfJson?, Json.namedFields?_obj, hoperand]
  | tensor items, _, h | tuple items, _, h => by
    obtain ⟨fuel, rfl⟩ := Nat.exists_eq_add_one_of_ne_zero (Nat.ne_zero_of_lt h)
    simp only [toJson, wrap, Json.depth, Json.depthMembers] at h
    have hitems := mapM_listToJson items fuel (by omega)
    rw [toJson, ofJsonWithin_wrap (by decide)]
    simp [contentsOfJson?, hitems]

theorem mapM_listToJson : (es : List Expr) → (fuel : Nat) →
    Json.depthItems (listToJson es) < fuel → (listToJson es).mapM (ofJsonWithin fuel) = some es
  | [], _, _ => rfl
  | e :: es, fuel, h => by
    rw [listToJson, Json.depthItems] at h
    simp [listToJson, List.mapM_cons, ofJsonWithin_toJson e fuel (by omega),
      mapM_listToJson es fuel (by omega)]

end

@[simp] theorem ofJson?_toJson (e : Expr) : ofJson? e.toJson = some e :=
  ofJsonWithin_toJson e _ (Nat.lt_succ_self _)

theorem toJson_ne_null (e : Expr) : e.toJson ≠ .null := by
  cases e <;> simp [toJson, wrap]

@[simp] theorem option?_toJson (value : Option Expr) :
    Json.option? ofJson? (Json.ofOption toJson value) = some value :=
  Json.option?_ofOption (fun e _ => e.ofJson?_toJson) toJson_ne_null

end Expr

/-! ### Statements -/

mutual

@[simp] theorem Stmt.plain_toJson : (s : Stmt) → s.toJson.Plain
  | .block body => by simp [Stmt.toJson, wrap, plain_stmtsToJson body]
  | .ret _ | .expr _ | .varDef .. => by simp [Stmt.toJson, wrap, Json.plain_ofOption]
  | .ifThen branch => by simp [Stmt.toJson, wrap, Conditional.plain_toJson branch]
  | .repeatLoop _ body => by simp [Stmt.toJson, wrap, plain_stmtsToJson body]
  | .whileLoop _ body => by simp [Stmt.toJson, wrap, plain_stmtsToJson body]
  | .untilLoop body _ => by simp [Stmt.toJson, wrap, plain_stmtsToJson body]
  | .tryCatch body _ handler => by
    simp [Stmt.toJson, wrap, plain_stmtsToJson body, plain_stmtsToJson handler]

theorem Conditional.plain_toJson : (c : Conditional) → c.toJson.Plain
  | .mk _ body otherwise _ => by
    simp [Conditional.toJson, plain_stmtsToJson body, Otherwise.plain_toJson otherwise]

theorem Otherwise.plain_toJson : (o : Otherwise) → o.toJson.Plain
  | .absent => by simp [Otherwise.toJson]
  | .block body => by simp [Otherwise.toJson, wrap, plain_stmtsToJson body]
  | .chain branch => by simp [Otherwise.toJson, wrap, Conditional.plain_toJson branch]

@[simp] theorem plain_stmtsToJson : (stmts : List Stmt) → (Json.arr (stmtsToJson stmts)).Plain
  | [] => by simp [stmtsToJson]
  | s :: rest => by simp [stmtsToJson, Stmt.plain_toJson s, plain_stmtsToJson rest]

end

theorem Otherwise.option?_toJson {read : Json → Option Otherwise} {o : Otherwise}
    (h : o.toJson ≠ .null → read o.toJson = some o) :
    ∃ alternative, Json.option? read o.toJson = some alternative ∧
      alternative.getD .absent = o := by
  cases o with
  | absent => exact ⟨none, rfl, rfl⟩
  | block body =>
    refine ⟨some (.block body), ?_, rfl⟩
    have hread := h (by simp [Otherwise.toJson, wrap])
    rw [Otherwise.toJson, wrap] at hread ⊢
    rw [Json.option?, hread, Option.map_some]
    simp
  | chain branch =>
    refine ⟨some (.chain branch), ?_, rfl⟩
    have hread := h (by simp [Otherwise.toJson, wrap])
    rw [Otherwise.toJson, wrap] at hread ⊢
    rw [Json.option?, hread, Option.map_some]
    simp

mutual

theorem Stmt.ofJsonWithin_toJson : (s : Stmt) → (fuel : Nat) → s.toJson.depth < fuel →
    Stmt.ofJsonWithin fuel s.toJson = some s
  | .block body, _, h => by
    obtain ⟨fuel, rfl⟩ := Nat.exists_eq_add_one_of_ne_zero (Nat.ne_zero_of_lt h)
    simp only [Stmt.toJson, wrap, Json.depth, Json.depthMembers] at h
    have hbody := mapM_stmtsToJson body fuel (by omega)
    rw [Stmt.toJson, wrap, Stmt.ofJsonWithin, Json.around?_obj, Option.bind_eq_bind,
      Option.bind_some]
    simp [hbody]
  | .ret _, _, h | .expr _, _, h => by
    obtain ⟨fuel, rfl⟩ := Nat.exists_eq_add_one_of_ne_zero (Nat.ne_zero_of_lt h)
    rw [Stmt.toJson, wrap, Stmt.ofJsonWithin, Json.around?_obj, Option.bind_eq_bind,
      Option.bind_some]
    simp
  | .varDef ty binding init, _, h => by
    obtain ⟨fuel, rfl⟩ := Nat.exists_eq_add_one_of_ne_zero (Nat.ne_zero_of_lt h)
    have hty : Json.option? Ty.ofJson? (Json.ofOption Ty.toJson ty) = some ty :=
      Json.option?_ofOption (fun t _ => t.ofJson?_toJson) Ty.toJson_ne_null
    rw [Stmt.toJson, wrap, Stmt.ofJsonWithin, Json.around?_obj, Option.bind_eq_bind,
      Option.bind_some]
    simp [Json.namedFields?_obj, hty]
  | .ifThen branch, _, h => by
    obtain ⟨fuel, rfl⟩ := Nat.exists_eq_add_one_of_ne_zero (Nat.ne_zero_of_lt h)
    simp only [Stmt.toJson, wrap, Json.depth, Json.depthMembers] at h
    have hbranch := Conditional.ofJsonWithin_toJson branch fuel (by omega)
    rw [Stmt.toJson, wrap, Stmt.ofJsonWithin, Json.around?_obj, Option.bind_eq_bind,
      Option.bind_some]
    simp [hbranch]
  | .repeatLoop count body, _, h => by
    obtain ⟨fuel, rfl⟩ := Nat.exists_eq_add_one_of_ne_zero (Nat.ne_zero_of_lt h)
    simp only [Stmt.toJson, wrap, Json.depth, Json.depthMembers] at h
    have hbody := mapM_stmtsToJson body fuel (by omega)
    rw [Stmt.toJson, wrap, Stmt.ofJsonWithin, Json.around?_obj, Option.bind_eq_bind,
      Option.bind_some]
    simp [Json.namedFields?_obj, hbody]
  | .whileLoop cond body, _, h => by
    obtain ⟨fuel, rfl⟩ := Nat.exists_eq_add_one_of_ne_zero (Nat.ne_zero_of_lt h)
    simp only [Stmt.toJson, wrap, Json.depth, Json.depthMembers] at h
    have hbody := mapM_stmtsToJson body fuel (by omega)
    rw [Stmt.toJson, wrap, Stmt.ofJsonWithin, Json.around?_obj, Option.bind_eq_bind,
      Option.bind_some]
    simp [Json.namedFields?_obj, hbody]
  | .untilLoop body cond, _, h => by
    obtain ⟨fuel, rfl⟩ := Nat.exists_eq_add_one_of_ne_zero (Nat.ne_zero_of_lt h)
    simp only [Stmt.toJson, wrap, Json.depth, Json.depthMembers] at h
    have hbody := mapM_stmtsToJson body fuel (by omega)
    rw [Stmt.toJson, wrap, Stmt.ofJsonWithin, Json.around?_obj, Option.bind_eq_bind,
      Option.bind_some]
    simp [Json.namedFields?_obj, hbody]
  | .tryCatch body binding handler, _, h => by
    obtain ⟨fuel, rfl⟩ := Nat.exists_eq_add_one_of_ne_zero (Nat.ne_zero_of_lt h)
    simp only [Stmt.toJson, wrap, Json.depth, Json.depthMembers] at h
    have hbody := mapM_stmtsToJson body fuel (by omega)
    have hhandler := mapM_stmtsToJson handler fuel (by omega)
    rw [Stmt.toJson, wrap, Stmt.ofJsonWithin, Json.around?_obj, Option.bind_eq_bind,
      Option.bind_some]
    simp [Json.namedFields?_obj, hbody, hhandler]

theorem Conditional.ofJsonWithin_toJson : (c : Conditional) → (fuel : Nat) →
    c.toJson.depth < fuel → Conditional.ofJsonWithin fuel c.toJson = some c
  | .mk cond body otherwise negated, _, h => by
    obtain ⟨fuel, rfl⟩ := Nat.exists_eq_add_one_of_ne_zero (Nat.ne_zero_of_lt h)
    simp only [Conditional.toJson, Json.depth, Json.depthMembers] at h
    have hbody := mapM_stmtsToJson body fuel (by omega)
    obtain ⟨alternative, halternative, hotherwise⟩ := Otherwise.option?_toJson fun hnull =>
      Otherwise.ofJsonWithin_toJson otherwise fuel (by omega) hnull
    simp [Conditional.toJson, Conditional.ofJsonWithin, Json.fields?_obj, hbody, halternative,
      hotherwise]

theorem Otherwise.ofJsonWithin_toJson : (o : Otherwise) → (fuel : Nat) → o.toJson.depth < fuel →
    o.toJson ≠ .null → Otherwise.ofJsonWithin fuel o.toJson = some o
  | .absent, _, _, hnull => absurd rfl hnull
  | .block body, _, h, _ => by
    obtain ⟨fuel, rfl⟩ := Nat.exists_eq_add_one_of_ne_zero (Nat.ne_zero_of_lt h)
    simp only [Otherwise.toJson, wrap, Json.depth, Json.depthMembers] at h
    have hbody := mapM_stmtsToJson body fuel (by omega)
    simp [Otherwise.toJson, wrap, Otherwise.ofJsonWithin, hbody]
  | .chain branch, _, h, _ => by
    obtain ⟨fuel, rfl⟩ := Nat.exists_eq_add_one_of_ne_zero (Nat.ne_zero_of_lt h)
    simp only [Otherwise.toJson, wrap, Json.depth, Json.depthMembers] at h
    have hbranch := Conditional.ofJsonWithin_toJson branch fuel (by omega)
    simp [Otherwise.toJson, wrap, Otherwise.ofJsonWithin, hbranch]

theorem mapM_stmtsToJson : (stmts : List Stmt) → (fuel : Nat) →
    Json.depthItems (stmtsToJson stmts) < fuel →
    (stmtsToJson stmts).mapM (Stmt.ofJsonWithin fuel) = some stmts
  | [], _, _ => rfl
  | s :: rest, fuel, h => by
    rw [stmtsToJson, Json.depthItems] at h
    simp [stmtsToJson, List.mapM_cons, Stmt.ofJsonWithin_toJson s fuel (by omega),
      mapM_stmtsToJson rest fuel (by omega)]

end

@[simp] theorem Stmt.ofJson?_toJson (s : Stmt) : Stmt.ofJson? s.toJson = some s :=
  Stmt.ofJsonWithin_toJson s _ (Nat.lt_succ_self _)

theorem stmtsToJson_eq_map (stmts : List Stmt) : stmtsToJson stmts = stmts.map Stmt.toJson := by
  induction stmts with
  | nil => rfl
  | cons s rest ih => rw [stmtsToJson, ih, List.map_cons]

@[simp] theorem stmtsOfJson?_stmtsToJson (stmts : List Stmt) :
    stmtsOfJson? (.arr (stmtsToJson stmts)) = some stmts := by
  rw [stmtsToJson_eq_map]
  exact Json.list?_ofList fun s _ => s.ofJson?_toJson

/-! ### Items -/

@[simp] theorem Attribute.plain_toJson (a : Attribute) : a.toJson.Plain := by
  cases a <;> simp [toJson, wrap, Json.plain_ofOption]

@[simp] theorem Attribute.ofJson?_toJson (a : Attribute) : ofJson? a.toJson = some a := by
  have hid (id : Option UInt32) :
      Json.option? Json.uint32? (Json.ofOption (fun n => .ofNat n.toNat) id) = some id :=
    Json.option?_ofOption (fun n _ => Json.uint32?_ofNat n) nofun
  cases a <;> simp [toJson, wrap, ofJson?, Json.nothing?, hid]

@[simp] theorem Param.plain_toJson (p : Param) : p.toJson.Plain := by
  simp [toJson]

@[simp] theorem Param.ofJson?_toJson (p : Param) : ofJson? p.toJson = some p := by
  simp [toJson, ofJson?, Json.fields?_obj]

@[simp] theorem list?_str (texts : List String) :
    Json.list? Json.str? (Json.ofList .str texts) = some texts :=
  Json.list?_ofList fun _ _ => rfl

@[simp] theorem plain_texts (texts : List String) : (Json.ofList .str texts).Plain :=
  Json.plain_ofList fun _ _ => .str _

@[simp] theorem Signature.plain_toJson (s : Signature) : s.toJson.Plain := by
  simp [toJson, Json.plain_ofList]

@[simp] theorem Signature.ofJson?_toJson (s : Signature) : ofJson? s.toJson = some s := by
  have hparams : Json.list? Param.ofJson? (Json.ofList Param.toJson s.params) = some s.params :=
    Json.list?_ofList fun p _ => p.ofJson?_toJson
  have hattributes : Json.list? Attribute.ofJson? (Json.ofList Attribute.toJson s.attributes) =
      some s.attributes :=
    Json.list?_ofList fun a _ => a.ofJson?_toJson
  simp [toJson, ofJson?, Json.fields?_obj, hparams, hattributes]

@[simp] theorem Item.plain_toJson (item : Item) : item.toJson.Plain := by
  cases item <;> simp [toJson, wrap]

/-- Items are read back from their JSON forms. -/
@[simp] theorem Item.ofJson?_toJson (item : Item) : ofJson? item.toJson = some item := by
  cases item <;>
    rw [toJson, wrap, ofJson?, Json.around?_obj, Option.bind_eq_bind, Option.bind_some] <;>
    simp [Json.fields?_obj]

theorem Item.toJson_ne_null (item : Item) : item.toJson ≠ .null := by
  cases item <;> simp [toJson, wrap]

end Target

end CellCompiler
