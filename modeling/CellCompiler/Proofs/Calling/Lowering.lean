import CellCompiler.Proofs.Calling.Program
import CellCompiler.Proofs.Generate.Results

/-!
# Calls in lowered expressions

The code of an expression calls functions as they are emitted if the expression calls functions as
they are declared. The lemmas are about one kind of expression each, and `lower_accepted` puts them
together by induction on the source.
-/

namespace CellCompiler

open Target

/-! ### Patterns -/

variable {P : CallSite → Prop}

mutual

theorem Layout.Shape.everyCall_pattern : (s : Layout.Shape) → s.pattern.EveryCall P
  | .leaf _ _ => by simp [pattern]
  | .product parts => by simpa [pattern] using everyCall_patterns parts

theorem Layout.Shape.everyCall_patterns : (ss : List Layout.Shape) → ∀ e ∈ patterns ss, e.EveryCall P
  | [] => by simp [patterns]
  | s :: ss => by simpa [patterns] using ⟨everyCall_pattern s, everyCall_patterns ss⟩

end

namespace Generate

/-- The call is to a function of the target, or it fits whatever function of a module has the name. -/
def Env.Accepts (env : Env) (site : CallSite) : Prop :=
  site.callee ∈ builtins ∨ env.program.types.Suits site

variable {env : Env} {arity : Nat} {modifying : Bool} {name type : String} {ty : TypeRef}

theorem Env.Accepts.suits {site : CallSite} (h : env.Accepts site) : env.program.types.Suits site :=
  h.elim TypeTable.suits_builtin fun h => h

/-! ### Calls of known functions -/

@[simp] theorem everyCall_null : null.EveryCall env.Accepts := by
  simp [null, Env.Accepts, builtins]

@[simp] theorem everyCall_isNull {e : Target.Expr} :
    (isNull e).EveryCall env.Accepts ↔ e.EveryCall env.Accepts := by
  simp [isNull, Env.Accepts, builtins]

@[simp] theorem everyCall_emptyTuple : emptyTuple.EveryCall env.Accepts := by
  simp [emptyTuple, Env.Accepts, builtins]

@[simp] theorem everyCall_beginCell : beginCell.EveryCall env.Accepts := by
  simp [beginCell, Env.Accepts, builtins]

@[simp] theorem everyCall_endCell {e : Target.Expr} :
    (endCell e).EveryCall env.Accepts ↔ e.EveryCall env.Accepts := by
  simp [endCell, Env.Accepts, builtins]

@[simp] theorem everyCall_beginParse {e : Target.Expr} :
    (beginParse e).EveryCall env.Accepts ↔ e.EveryCall env.Accepts := by
  simp [beginParse, Env.Accepts, builtins]

@[simp] theorem everyCall_throwUnless {code : Nat} {e : Target.Expr} :
    (throwUnless code e).EveryCall env.Accepts ↔ e.EveryCall env.Accepts := by
  simp [throwUnless, Env.Accepts, builtins]

@[simp] theorem everyCall_throwIf {code : Nat} {e : Target.Expr} :
    (throwIf code e).EveryCall env.Accepts ↔ e.EveryCall env.Accepts := by
  simp [throwIf, Env.Accepts, builtins]

mutual

theorem everyCall_nulls : (s : Layout.Shape) → s.nulls.EveryCall env.Accepts
  | .leaf _ l => by cases l <;> simp [Layout.Shape.nulls, Layout.Leaf.nulls]
  | .product parts => by simpa [Layout.Shape.nulls] using everyCall_nullsOf parts

theorem everyCall_nullsOf :
    (ss : List Layout.Shape) → ∀ e ∈ Layout.Shape.nullsOf ss, e.EveryCall env.Accepts
  | [] => by simp [Layout.Shape.nullsOf]
  | s :: ss => by simpa [Layout.Shape.nullsOf] using ⟨everyCall_nulls s, everyCall_nullsOf ss⟩

end

/-- Functions that every type has, or every contract. -/
theorem suits_part (p : Name.Part) (htype : '$' ∉ type.toList)
    (harity : arity = (p.convention (env.program.types.initArity type)).arity)
    (hthreads : modifying = true → (p.convention (env.program.types.initArity type)).threads = true) :
    env.program.types.Suits ⟨p.name type, arity, modifying⟩ :=
  TypeTable.suits_origin (o := .member type (.part p))
    (by simpa [Name.Origin.IsPlain, Name.Origin.identifiers] using htype) rfl rfl harity hthreads

theorem suits_getter {field : String} (htype : '$' ∉ type.toList) (hfield : '$' ∉ field.toList) :
    env.program.types.Suits ⟨Name.getter type field, 1, false⟩ :=
  TypeTable.suits_origin (o := .member type (.getter field))
    (by simp [Name.Origin.IsPlain, Name.Origin.identifiers, htype, hfield]) rfl rfl rfl (by simp)

/-- A helper is called as it is defined. -/
theorem suits_named {h : Helper} {s : Signature} (hof : Helper.ofName? name = some h)
    (hs : (h.item name).signature? = some s) (hfits : CallSite.Fits ⟨name, arity, modifying⟩ s) :
    env.program.types.Suits ⟨name, arity, modifying⟩ := by
  refine TypeTable.suits_helper (Name.isEmitted_eq_false (Helper.prefix_of_ofName? hof)) ?_
  intro helper' s' hof' hs'
  obtain rfl : h = helper' := by simpa [hof] using hof'
  obtain rfl : s = s' := by simpa [hs] using hs'
  exact hfits

theorem suits_equal {mode : Comparison} {absence : Absence} :
    env.program.types.Suits ⟨Helper.equalName mode absence, 2, false⟩ := by
  have hof : Helper.ofName? (Helper.equalName mode absence) = none ∨
      Helper.ofName? (Helper.equalName mode absence) = some (.equal mode absence) := by
    cases mode <;> cases absence <;> decide
  refine TypeTable.suits_helper ?_ fun helper s hhelper hs => ?_
  · cases mode <;> cases absence <;> decide
  · obtain rfl : helper = .equal mode absence := by
      rcases hof with hof | hof <;> simp_all
    obtain rfl : _ = s := by simpa [Helper.item] using hs
    simp [CallSite.Fits]

theorem suits_tupleCreate {n : Nat} : env.program.types.Suits ⟨Helper.tupleCreateName n, 1, false⟩ := by
  refine TypeTable.suits_helper Helper.isEmitted_tupleCreateName fun helper s hof hs => ?_
  obtain ⟨rfl, -⟩ := Helper.ofName?_tupleCreateName hof
  obtain rfl : _ = s := by simpa [Helper.item, Item.signature?] using hs
  simp [CallSite.Fits]

theorem suits_tupleDestroy {n : Nat} : env.program.types.Suits ⟨Helper.tupleDestroyName n, 1, false⟩ := by
  refine TypeTable.suits_helper Helper.isEmitted_tupleDestroyName fun helper s hof hs => ?_
  obtain ⟨rfl, -⟩ := Helper.ofName?_tupleDestroyName hof
  obtain rfl : _ = s := by simpa [Helper.item, Item.signature?] using hs
  simp [CallSite.Fits]

/-! ### Layout -/

theorem unpack_yields : Yields env (unpack ty name) (Target.Expr.EveryCall env.Accepts) := by
  refine (Yields.ofTable (f := fun t => Layout.unpack t ty name)).mono fun e he => ?_
  obtain ⟨shape, -, rfl⟩ := Except.map_eq_ok.1 he
  exact shape.everyCall_pattern

theorem representation_yields :
    Yields env (representation ty) fun t => Layout.representation env.program.types ty = .ok t :=
  Yields.ofTable (f := fun t => Layout.representation t ty)

/-- A record that a type names is declared. -/
theorem structOf_yields :
    Yields env (structOf ty) fun decl? => ∀ decl ∈ decl?, decl ∈ env.program.types.types.values := by
  refine (Yields.ofTable (f := fun t => Layout.structOf t ty)).mono fun decl? h => ?_
  unfold Layout.structOf at h
  split at h
  · obtain rfl := Except.ok.inj h
    simp
  · simp only [Except.bind_eq_ok, Layout.declOf_eq_ok] at h
    obtain ⟨decl, hget, h⟩ := h
    obtain rfl := Except.pure_eq_ok.1 h
    split
    · simpa using Dict.mem_values_of_get? hget
    · simp

/-- A generator of code in which every call is accepted. -/
abbrev Accepted (env : Env) (g : Gen Target.Expr) : Prop :=
  Yields env g (Target.Expr.EveryCall env.Accepts)

/-- The code of an operand calls functions as they are emitted. -/
def Operand.Accepted (env : Env) (o : Operand) : Prop := Generate.Accepted env o.code

variable {os : List Operand} {info : Expr.Info} {loc : Location}

theorem Yields.call {args : List Target.Expr} {g : Gen Target.Expr}
    (hg : Yields env g fun e => e = Target.call name args)
    (hname : env.program.types.Suits ⟨name, args.length, false⟩)
    (hargs : ∀ e ∈ args, e.EveryCall env.Accepts) : Accepted env g :=
  hg.mono fun _ he => he ▸ everyCall_called.2 ⟨.inr hname, hargs⟩

theorem sliceConstant_accepted {kind : String} {cell : Cell} : Accepted env (sliceConstant kind cell) :=
  .andThen fun _ => Yields.callUsed.call (TypeTable.suits_constant (by simp [toString])) (by simp)

theorem cellConstant_accepted {cell : Cell} : Accepted env (cellConstant cell) :=
  .andThen fun _ => Yields.callUsed.call (TypeTable.suits_constant (by simp [toString])) (by simp)

theorem selfBinding_accepted {s : Scope} : Accepted env s.selfBinding := by
  unfold Scope.selfBinding
  split
  · exact unpack_yields
  · exact .defect

theorem returned_accepted {s : Scope} {value : Option Target.Expr}
    (hvalue : ∀ v ∈ value, v.EveryCall env.Accepts) : Accepted env (s.returned value) := by
  have hgetD : (value.getD (.tensor [])).EveryCall env.Accepts := by
    cases value with
    | none => simp
    | some v => exact hvalue v rfl
  unfold Scope.returned
  split
  · exact selfBinding_accepted
  · split
    · exact selfBinding_accepted.bind fun self hself => .pure (by simp [hself, hgetD])
    · exact .pure hgetD

theorem lvalue_accepted {path : Expr} : Accepted env (lvalue path) := by
  unfold lvalue
  split
  · exact unpack_yields
  · exact .defectAt

/-! ### Operations on dictionaries -/

/-- A name of this form is left to the library of dictionaries. -/
theorem isDictionary_of_start {rest : String} (h : rest ≠ "get_code") :
    Helper.isDictionary ("__tact_dict_" ++ rest) = true := by
  have hname : Helper.dictGetCodeName = "__tact_dict_" ++ "get_code" := rfl
  have hne : "__tact_dict_" ++ rest ≠ Helper.dictGetCodeName := fun heq =>
    h ((String.append_right_inj _).1 (heq.trans hname))
  have hstart : (Plan.dropStart? "__tact_dict_" ("__tact_dict_" ++ rest)).isSome = true := by
    simp only [Plan.dropStart?, String.toList_append, List.isPrefixOf_iff_prefix,
      List.prefix_append, if_true, Option.isSome_some]
  rw [Helper.isDictionary, Helper.dictionaryStart, hstart, Bool.true_and, bne_iff_ne]
  exact hne

theorem isDictionary_operation {kind : MapKind}
    (h : name ∈ ["get", "set", "replace", "min", "next"]) :
    Helper.isDictionary (kind.operation name) = true := by
  have hall : ∀ name ∈ ["get", "set", "replace", "min", "next"], ∀ key ∈ ["int", "uint", "slice"],
      ¬ name.toList ++ "_".toList ++ key.toList <+: "get_code".toList := by decide
  have hkey : kind.keyWord ∈ ["int", "uint", "slice"] := by
    unfold MapKind.keyWord
    split <;> simp
  have hform : kind.operation name =
      "__tact_dict_" ++ (name ++ "_" ++ kind.keyWord ++ ("_" ++ kind.valueWord)) := by
    change "__tact_dict_" ++ name ++ "_" ++ kind.keyWord ++ "_" ++ kind.valueWord = _
    simp only [String.append_assoc]
  rw [hform]
  refine isDictionary_of_start fun hrest => hall name h _ hkey ?_
  exact ⟨("_" ++ kind.valueWord).toList, by
    simp only [← hrest, String.toList_append, List.append_assoc]⟩

theorem isDictionary_delete {kind : MapKind} :
    Helper.isDictionary (kind.keyOperation "delete") = true := by
  have hform : kind.keyOperation "delete" = "__tact_dict_" ++ ("delete_" ++ kind.keyWord) := by
    change "__tact_dict_" ++ "delete" ++ "_" ++ kind.keyWord = _
    rw [← String.append_assoc]
    rfl
  rw [hform]
  refine isDictionary_of_start fun hrest => ?_
  have hlists := congrArg String.toList hrest
  rw [String.toList_append] at hlists
  exact absurd ⟨_, hlists⟩ (by decide : ¬ "delete_".toList <+: "get_code".toList)

theorem dictionary_yields : Yields env (dictionary name) fun n => n = name :=
  .used_bind (.andThen fun _ => .pure rfl)

theorem everyCall_withValueBits {kind : MapKind} {args : List Target.Expr}
    (h : ∀ e ∈ args, e.EveryCall P) : ∀ e ∈ kind.withValueBits args, e.EveryCall P := by
  unfold MapKind.withValueBits
  split
  · simpa [or_imp, forall_and] using h
  · exact h

theorem mapVariable_accepted {receiver : Operand} : Accepted env (mapVariable receiver name) := by
  unfold mapVariable
  split
  · exact lvalue_accepted
  · exact .throw_bind

/-! ### Calls that the compiler knows itself -/

theorem requireCall_accepted {cond message : Operand} (hcond : cond.Accepted env) :
    Accepted env (requireCall cond message) := by
  refine .andThen fun text? => ?_
  split
  · exact .misuseAt
  · exact Yields.bind hcond fun c hc => .pure (by simp [Env.Accepts, builtins, hc])

theorem hashCall_accepted {o : Operand} (ho : o.Accepted env) : Accepted env (hashCall o) := by
  refine .andThen fun text? => ?_
  split
  · exact .pure (by simp)
  · refine .andThen fun kind? => ?_
    split
    · exact Yields.bind ho fun c hc => .pure (by simp [Env.Accepts, builtins, hc])
    · exact Yields.bind ho fun c hc => .pure (by simp [Env.Accepts, builtins, hc])
    · exact .misuseAt

theorem call1_accepted {callee : String} (hos : ∀ o ∈ os, o.Accepted env) (hcallee : callee ∈ builtins) :
    Accepted env (call1 name callee os loc) := by
  unfold call1
  split
  · next a =>
    have ha := hos a (by simp)
    exact Yields.bind ha fun c hc => .pure (by simpa using ⟨.inl hcallee, hc⟩)
  · exact .defectAt

theorem call2_accepted {callee : String} (hos : ∀ o ∈ os, o.Accepted env) (hcallee : callee ∈ builtins) :
    Accepted env (call2 name callee os loc) := by
  unfold call2
  split
  · next a b =>
    have ha := hos a (by simp)
    have hb := hos b (by simp)
    exact Yields.bind ha fun c hc => Yields.bind hb fun e he => .pure (by simpa using ⟨.inl hcallee, hc, he⟩)
  · exact .defectAt

/-- Code that is there only if a name is known. -/
abbrev AcceptedIfKnown (env : Env) (g : Gen (Option Target.Expr)) : Prop :=
  Yields env g fun code? => ∀ code ∈ code?, code.EveryCall env.Accepts

theorem Yields.known {g : Gen Target.Expr} (hg : Accepted env g) : AcceptedIfKnown env (some <$> g) :=
  hg.map fun e he => by simpa using he

section

variable (h : env.program.Followed)

include h

theorem unmarked_of_mem {decl : TypeDecl} (hdecl : decl ∈ env.program.types.types.values) :
    '$' ∉ decl.name.toList := h.unmarked.types decl hdecl

theorem unmarked_of_get? {decl : TypeDecl} (hdecl : env.program.types.types.get? name = some decl) :
    '$' ∉ name.toList :=
  h.wellNamed.name_eq hdecl ▸ unmarked_of_mem h (Dict.mem_values_of_get? hdecl)

/-! ### Literals -/

theorem literalWithin_accepted (fuel : Nat) (value : Value) (ty : TypeRef) :
    Accepted env (literalWithin fuel value ty) := by
  fun_induction literalWithin fuel value ty with
  | case1 | case2 | case3 => exact .pure (by simp)
  | case4 | case5 => exact .andThen fun _ => sliceConstant_accepted
  | case6 => exact sliceConstant_accepted
  | case7 => exact cellConstant_accepted
  | case8 => exact .throw
  | case9 fuel typeName fields ty ih =>
    refine declOf_yields.bind fun decl hdecl => ?_
    split
    · exact .pure (by simp)
    · refine (Yields.mapM_all (Q := fun code => code.EveryCall env.Accepts) fun field _ => ?_).bind
        fun items hitems => ?_
      · split
        · exact ih _ _
        · exact .defect
      split
      · exact Yields.callUsed.call (suits_part .asOptional (unmarked_of_get? h hdecl) rfl (by simp))
          (by simpa using hitems.2)
      · exact .pure (by simpa using hitems.2)

theorem literal_accepted {value : Value} : Accepted env (literal value ty) :=
  .andThen fun _ => literalWithin_accepted h _ _ _

/-! ### Operands -/

theorem castTo_accepted {target source : TypeRef} {code : Target.Expr}
    (hcode : code.EveryCall env.Accepts) : Accepted env (castTo target source code) := by
  unfold castTo
  split
  · exact .pure hcode
  · refine structOf_yields.bind fun decl? hdecl => ?_
    split
    · next decl =>
      exact Yields.callUsed.call (suits_part .asOptional (unmarked_of_mem h (hdecl decl rfl)) rfl (by simp))
        (by simpa using hcode)
    · exact .pure hcode

theorem cast_accepted {o : Operand} {target : TypeRef} (ho : o.Accepted env) :
    Accepted env (o.cast target) := by
  unfold Operand.cast
  split
  · exact .pure (by simp)
  · exact Yields.bind ho fun code => castTo_accepted h

/-- There are as many codes as arguments. -/
theorem arguments_yields {tys : List TypeRef} (hos : ∀ o ∈ os, o.Accepted env) :
    Yields env (arguments os tys) fun es =>
      es.length = os.length ∧ ∀ e ∈ es, e.EveryCall env.Accepts := by
  induction os generalizing tys with
  | nil => exact .pure (by simp)
  | cons o os ih =>
    obtain ⟨ho, hos⟩ := List.forall_mem_cons.1 hos
    have hrest : ∀ first tys, first.EveryCall env.Accepts → Yields env (do
        return first :: (← arguments os tys)) fun es =>
        es.length = os.length + 1 ∧ ∀ e ∈ es, e.EveryCall env.Accepts := by
      intro first tys hfirst
      refine (ih hos).bind fun rest hrest => .pure ⟨by simp [hrest.1], ?_⟩
      exact List.forall_mem_cons.2 ⟨hfirst, hrest.2⟩
    cases tys with
    | nil => exact Yields.bind ho fun first => hrest first _
    | cons ty tys => exact (cast_accepted h ho).bind fun first => hrest first _

/-! ### Calls that need names of types -/

theorem addressCall_accepted {o : Operand} : Accepted env (addressCall o ty) := by
  refine .andThen fun text? => ?_
  split
  · exact .misuseAt
  · split
    · exact literal_accepted h
    · exact .misuseAt

theorem globalCall_accepted (hos : ∀ o ∈ os, o.Accepted env) :
    AcceptedIfKnown env (globalCall info name os) := by
  have hsender : env.program.types.Suits ⟨Helper.contextGetSenderName, 0, false⟩ :=
    suits_named (h := .contextGetSender) (by decide) rfl (by decide)
  unfold globalCall
  split
  · split
    · next cond message => exact (requireCall_accepted (hos cond (by simp))).known
    · exact .defectAt
  · exact (call1_accepted hos (by simp [builtins])).known
  · exact (call2_accepted hos (by simp [builtins])).known
  · exact (call2_accepted hos (by simp [builtins])).known
  · exact .pure (by simp)
  · exact .pure (by simp)
  · exact .pure (by simp)
  · exact .pure (by simp)
  · exact (Yields.callHelper.call hsender (by simp)).known
  · exact .pure (by simp [Env.Accepts, builtins])
  · exact .pure (by simp [Env.Accepts, builtins])
  · exact (call2_accepted hos (by simp [builtins])).known
  · exact (call2_accepted hos (by simp [builtins])).known
  · exact (call1_accepted hos (by simp [builtins])).known
  · split
    · next arg => exact (hashCall_accepted (hos arg (by simp))).known
    · exact .defectAt
  · split
    · exact (addressCall_accepted h).known
    · exact .defectAt
  · exact .pure (by simp)

theorem toCell_accepted {decl : TypeDecl} {receiver : Operand}
    (hdecl : decl ∈ env.program.types.types.values) (hreceiver : receiver.Accepted env) :
    Accepted env (toCell decl receiver name os) := by
  unfold toCell
  split
  · refine Yields.bind hreceiver fun value hvalue => Yields.callUsed.call ?_ (by simpa using hvalue)
    exact suits_part (.codec .writerCell) (unmarked_of_mem h hdecl) rfl (by simp)
  · exact .throw_bind

theorem instanceCall_accepted {decl : TypeDecl} {receiver : Operand}
    (hdecl : decl ∈ env.program.types.types.values) (hreceiver : receiver.Accepted env) :
    AcceptedIfKnown env (instanceCall decl receiver name os) := by
  unfold instanceCall
  split
  · exact (toCell_accepted h hdecl hreceiver).known
  · exact (toCell_accepted h hdecl hreceiver).bind fun cell hcell => .pure (by simpa using hcell)
  · exact .pure (by simp)

theorem typeCall_accepted {decl : TypeDecl} (hdecl : decl ∈ env.program.types.types.values)
    (hos : ∀ o ∈ os, o.Accepted env) : AcceptedIfKnown env (typeCall decl name os loc) := by
  have hreader : env.program.types.Suits ⟨Name.readerNotMut decl.name, 1, false⟩ :=
    suits_part (.codec .readerNotMut) (unmarked_of_mem h hdecl) rfl (by simp)
  unfold typeCall
  split
  · next cell =>
    exact Yields.bind (hos cell (by simp)) fun code hcode =>
      (Yields.callUsed.call hreader (by simpa using hcode)).known
  · next slice =>
    exact Yields.bind (hos slice (by simp)) fun code hcode =>
      (Yields.callUsed.call hreader (by simpa using hcode)).known
  · exact .defectAt
  · exact .defectAt
  · exact .pure (by simp)

/-! ### Maps -/

/-- Records in maps are declared. -/
theorem mapKind_yields : Yields env (do ofExcept (MapKind.of (← table) ty loc)) fun kind =>
    ∀ type, kind.value = .struct type → '$' ∉ type.toList := by
  refine (Yields.ofTable (f := fun t => MapKind.of t ty loc)).mono fun kind hkind type htype => ?_
  obtain ⟨name, decl, hdecl, rfl, -⟩ := MapKind.exists_decl_of_struct hkind htype
  exact unmarked_of_mem h (Dict.mem_values_of_get? hdecl)

omit h in
theorem mapValue_accepted {kind : MapKind} {value : Operand}
    (hkind : ∀ type, kind.value = .struct type → '$' ∉ type.toList) (hvalue : value.Accepted env) :
    Accepted env (mapValue kind value) := by
  refine Yields.bind hvalue fun code hcode => ?_
  split
  · next type htype =>
    split
    · exact .pure hcode
    · split
      · exact Yields.callUsed.call (suits_part (.codec .writerCellOpt) (hkind type htype) rfl (by simp))
          (by simpa using hcode)
      · exact Yields.callUsed.call (suits_part (.codec .writerCell) (hkind type htype) rfl (by simp))
          (by simpa using hcode)
  · exact .pure hcode

omit h in
theorem mapGet_accepted {kind : MapKind} {receiver key : Operand} (hreceiver : receiver.Accepted env)
    (hkey : key.Accepted env) : Accepted env (mapGet kind receiver key) := by
  refine Yields.bind hreceiver fun m hm => Yields.bind hkey fun k hk => ?_
  refine dictionary_yields.bind fun op hop => .pure ?_
  subst hop
  refine everyCall_called.2 ⟨.inr (TypeTable.suits_dictionary (isDictionary_operation (by simp))), ?_⟩
  exact everyCall_withValueBits (by simp [hm, hk])

omit h in
theorem mapSet_accepted {kind : MapKind} {receiver key value : Operand}
    (hname : name ∈ ["get", "set", "replace", "min", "next"])
    (hkind : ∀ type, kind.value = .struct type → '$' ∉ type.toList) (hkey : key.Accepted env)
    (hvalue : value.Accepted env) : Accepted env (mapSet kind receiver name key value) := by
  refine mapVariable_accepted.bind fun m hm => Yields.bind hkey fun k hk => ?_
  refine (mapValue_accepted hkind hvalue).bind fun v hv => dictionary_yields.bind fun op hop => .pure ?_
  subst hop
  refine everyCall_modify.2 ⟨.inr (TypeTable.suits_dictionary (isDictionary_operation hname)), hm, ?_⟩
  exact everyCall_withValueBits (by simp [hk, hv])

omit h in
theorem mapDelete_accepted {kind : MapKind} {receiver key : Operand} (hkey : key.Accepted env) :
    Accepted env (mapDelete kind receiver name key) := by
  refine mapVariable_accepted.bind fun m hm => Yields.bind hkey fun k hk => ?_
  refine dictionary_yields.bind fun op hop => .pure ?_
  subst hop
  exact everyCall_modify.2 ⟨.inr (TypeTable.suits_dictionary isDictionary_delete), hm, by simp [hk]⟩

theorem mapCall_accepted {receiver : Operand} (hreceiver : receiver.Accepted env)
    (hos : ∀ o ∈ os, o.Accepted env) : Accepted env (mapCall receiver name os loc) := by
  unfold mapCall
  rw [← bind_assoc]
  refine (mapKind_yields h).bind fun kind hkind => ?_
  split
  · next key =>
    refine (mapGet_accepted hreceiver (hos key (by simp))).bind fun raw hraw => ?_
    split
    · next type htype =>
      exact Yields.callUsed.call (suits_part (.codec .readerCellOpt) (hkind type htype) rfl (by simp))
        (by simpa using hraw)
    · exact .pure hraw
  · next key =>
    exact (mapGet_accepted hreceiver (hos key (by simp))).bind fun raw hraw => .pure (by simpa using hraw)
  · next key value =>
    exact mapSet_accepted (by simp) hkind (hos key (by simp)) (hos value (by simp))
  · next key value =>
    exact mapSet_accepted (by simp) hkind (hos key (by simp)) (hos value (by simp))
  · next key => exact mapDelete_accepted (hos key (by simp))
  · exact Yields.bind hreceiver fun m hm => .pure (by simpa using hm)
  · exact hreceiver
  · split
    · exact .defectAt
    · exact .misuseAt

/-! ### Variables and fields -/

theorem identifier_accepted {s : Scope} : Accepted env (identifier s info name) := by
  unfold identifier
  split
  · exact selfBinding_accepted
  · refine .table_bind ?_
    split
    · exact literal_accepted h
    · exact unpack_yields

theorem fieldAccess_accepted {e : Expr} {target : Operand} (hname : '$' ∉ name.toList)
    (htarget : target.Accepted env) : Accepted env (fieldAccess e target name) := by
  refine .andThen fun segments? => ?_
  split
  · exact unpack_yields
  · refine structOf_yields.bind fun decl? hdecl => ?_
    split
    · exact .defectAt
    · next decl =>
      refine Yields.bind htarget fun value hvalue => Yields.callUsed.call ?_ (by simpa using hvalue)
      exact suits_getter (unmarked_of_mem h (hdecl decl rfl)) hname

/-! ### Calls -/

theorem functionCall_accepted (hos : ∀ o ∈ os, o.Accepted env)
    (hcount : ∀ f ∈ env.program.types.functions.get? name, os.length = f.params.length) :
    Accepted env (functionCall info name os) := by
  refine (globalCall_accepted h hos).bind fun code? hcode => ?_
  split
  · exact .pure (hcode _ rfl)
  · refine .table_bind ?_
    split
    · exact .defectAt
    · next f hf =>
      have hfunction : env.program.types.HasFunction f := .inl (Dict.mem_values_of_get? hf)
      split
      · next native hnative =>
        refine (arguments_yields h hos).bind fun args hargs => .andThen fun _ => ?_
        exact Yields.callUsed.call (TypeTable.suits_native ⟨f, hfunction, hnative⟩) hargs.2
      · refine (arguments_yields h hos).bind fun args hargs => Yields.callUsed.call ?_ hargs.2
        refine TypeTable.suits_origin (o := .globalFunction name) ?_ rfl
          (by rw [Name.Origin.convention, hf, Option.map_some]) (hargs.1.trans (hcount f hf)) (by simp)
        simpa [Name.Origin.IsPlain, Name.Origin.identifiers, h.functions.name_eq hf] using
          h.unmarked_function hfunction
      · exact .defectAt

theorem castLone_yields {codes : List Target.Expr} (hcodes : ∀ e ∈ codes, e.EveryCall env.Accepts) :
    Yields env (castLone os codes) fun es =>
      es.length = codes.length ∧ ∀ e ∈ es, e.EveryCall env.Accepts := by
  unfold castLone
  split
  · next arg code =>
    have hcast : Yields env (shapeCast arg.ty) fun cast? => ∀ cast ∈ cast?, ∃ type : String,
        '$' ∉ type.toList ∧ cast = Name.tensorCast type := by
      unfold shapeCast
      split
      · exact .pure (by simp)
      · refine structOf_yields.bind fun decl? hdecl => ?_
        split
        · next decl =>
          refine .pure ?_
          split
          · simp
          · simpa using ⟨decl.name, unmarked_of_mem h (hdecl decl rfl), rfl⟩
        · exact .pure (by simp)
    refine hcast.bind fun cast? hcast => ?_
    split
    · next cast =>
      obtain ⟨type, htype, rfl⟩ := hcast cast rfl
      refine (Yields.callUsed.call (suits_part .tensorCast htype rfl (by simp)) hcodes).bind
        fun e he => .pure (by simpa using he)
    · exact .pure ⟨rfl, hcodes⟩
  · exact .pure ⟨rfl, hcodes⟩

/-- A method under the name of the native function that it is, or under a name of its own. -/
theorem suits_methodCallee {decl : TypeDecl} {f : Function}
    (hdecl : env.program.types.types.get? decl.name = some decl)
    (hf : decl.functions.get? f.name = some f) :
    Yields env (methodCallee decl f loc) fun callee =>
      (∀ modifying, (modifying = true → f.mutates = true) →
        env.program.types.Suits ⟨callee, f.params.length + 1, modifying⟩) ∧
      (f.nativeName = none → env.program.types.Suits ⟨Name.notMut callee, f.params.length + 1, false⟩) := by
  have hmem := Dict.mem_values_of_get? hdecl
  have hfunction : env.program.types.HasFunction f := .inr ⟨decl, hmem, Dict.mem_values_of_get? hf⟩
  have hmethod : env.program.types.method? decl.name f.name = some f := by
    simp [TypeTable.method?, hdecl, hf]
  unfold methodCallee
  split
  · next native hnative =>
    refine .andThen fun _ => .pure ⟨fun _ _ => TypeTable.suits_native ⟨f, hfunction, hnative⟩, ?_⟩
    simp [Function.nativeName, hnative]
  · have hplain : ∀ x ∈ [decl.name, f.name], '$' ∉ x.toList := by
      simpa using ⟨unmarked_of_mem h hmem, h.unmarked_function hfunction⟩
    refine .pure ⟨fun modifying hmutates => ?_, fun _ => ?_⟩
    · exact TypeTable.suits_origin (o := .member decl.name (.method f.name)) hplain rfl
        (by rw [Name.Origin.convention, hmethod, Option.map_some]) rfl hmutates
    · exact TypeTable.suits_origin (o := .notMut decl.name f.name) hplain rfl
        (by rw [Name.Origin.convention, hmethod, Option.map_some]) rfl (by simp)
  · exact .defectAt

theorem extensionCall_accepted {decl : TypeDecl} {f : Function} {receiver : Operand}
    (hdecl : env.program.types.types.get? decl.name = some decl)
    (hf : decl.functions.get? f.name = some f) (hcount : os.length = f.params.length)
    (hreceiver : receiver.Accepted env) (hos : ∀ o ∈ os, o.Accepted env) :
    Accepted env (extensionCall decl f receiver os loc) := by
  have hvalue : ∀ callee types, env.program.types.Suits ⟨callee, f.params.length + 1, false⟩ →
      Accepted env (do
        let self ← receiver.code
        let args ← arguments os types
        callUsed callee (self :: args)) := by
    intro callee types hcallee
    refine Yields.bind hreceiver fun self hself => (arguments_yields h hos).bind fun args hargs => ?_
    refine Yields.callUsed.call ?_ (List.forall_mem_cons.2 ⟨hself, hargs.2⟩)
    simpa [hargs.1, hcount] using hcallee
  refine (suits_methodCallee h hdecl hf).bind fun callee hcallee => ?_
  split
  · exact hvalue _ _ (hcallee.1 false (by simp))
  · next hmutates =>
    split
    · refine lvalue_accepted.bind fun target htarget => (arguments_yields h hos).bind fun args hargs => ?_
      refine (castLone_yields h hargs.2).bind fun codes hcodes => .used_bind (.pure ?_)
      refine everyCall_modify.2 ⟨.inr ?_, htarget, hcodes.2⟩
      rw [hcodes.1, hargs.1, hcount]
      exact hcallee.1 true fun _ => by simpa using hmutates
    · split
      · exact .misuseAt
      · next hnative => exact hvalue _ _ (hcallee.2 (by simpa using hnative))

theorem declaredCall_accepted {decl : TypeDecl} {receiver : Operand}
    (hdecl : env.program.types.types.get? type = some decl) (hreceiver : receiver.Accepted env)
    (hos : ∀ o ∈ os, o.Accepted env)
    (hcount : ∀ f ∈ env.program.types.method? type name, os.length = f.params.length) :
    Accepted env (declaredCall info type decl receiver name os) := by
  obtain rfl := h.wellNamed.name_eq hdecl
  unfold declaredCall
  split
  · next f hf =>
    have hname := (h.methods decl (Dict.mem_values_of_get? hdecl)).name_eq hf
    refine extensionCall_accepted h hdecl (hname ▸ hf) (hcount f ?_) hreceiver hos
    simp [TypeTable.method?, hdecl, hf]
  · exact .misuseAt

theorem methodCall_accepted {receiver : Operand} (hreceiver : receiver.Accepted env)
    (hos : ∀ o ∈ os, o.Accepted env) (hcount : ∀ type ∈ receiver.ty.name?,
      ∀ f ∈ env.program.types.method? type name, os.length = f.params.length) :
    Accepted env (methodCall info receiver name os) := by
  unfold methodCall
  split
  · exact mapCall_accepted h hreceiver hos
  · split
    · exact .misuseAt
    · split
      · exact .defectAt
      · next type htype =>
        refine declOf_yields.bind fun decl hdecl => ?_
        have hcall : Accepted env (declaredCall info type decl receiver name os) :=
          declaredCall_accepted h hdecl hreceiver hos (hcount type htype)
        split
        · refine (instanceCall_accepted h (Dict.mem_values_of_get? hdecl) hreceiver).bind fun code? hcode => ?_
          split
          · exact .pure (hcode _ rfl)
          · exact hcall
        · exact hcall

theorem staticCall_accepted (hos : ∀ o ∈ os, o.Accepted env) :
    Accepted env (staticCall info type name os) := by
  refine declOf_yields.bind fun decl hdecl => ?_
  split
  · refine (typeCall_accepted h (Dict.mem_values_of_get? hdecl) hos).bind fun code? hcode => ?_
    cases code? with
    | some code => exact .pure (hcode code rfl)
    | none => exact .misuseAt
  · rw [pure_bind]
    exact .misuseAt

theorem deployment_accepted {contract : String} (hos : ∀ o ∈ os, o.Accepted env)
    (hcount : ∀ decl ∈ env.program.types.types.get? contract, os.length = decl.initParams.length) :
    Accepted env (deployment info contract os) := by
  refine declOf_yields.bind fun decl hdecl => ?_
  split
  · refine .andThen fun _ => (arguments_yields h hos).bind fun args hargs => ?_
    refine Yields.callUsed.call (suits_part .initChild (unmarked_of_get? h hdecl) ?_ (by simp)) ?_
    · simp [Name.Part.convention, TypeTable.initArity, hdecl, hargs.1, hcount decl hdecl]
    · exact List.forall_mem_cons.2 ⟨everyCall_id, hargs.2⟩
  · exact .throw_bind

/-! ### Records -/

theorem fieldCode_accepted {inits : List (String × Operand)} {field : Field}
    (hinits : ∀ p ∈ inits, p.2.Accepted env) : Accepted env (fieldCode type inits loc field) := by
  unfold fieldCode
  split
  · next o ho =>
    exact cast_accepted h (hinits (field.name, o) (Dict.mem_entries_of_get? (d := ⟨inits⟩) ho))
  · split
    · exact literal_accepted h
    · exact .defectAt

theorem newRecord_accepted {inits : List (String × Operand)} (hinits : ∀ p ∈ inits, p.2.Accepted env) :
    Accepted env (newRecord info type inits) := by
  refine .andThen fun decl => ?_
  split
  · exact .pure (by simp)
  · refine (Yields.mapM_all fun field _ => fieldCode_accepted h hinits).bind fun items hitems => .pure ?_
    simpa using hitems.2

/-! ### Operators -/

omit h in
theorem everyCall_negateIf {negate : Bool} {code : Target.Expr} :
    (negateIf negate code).EveryCall P ↔ code.EveryCall P := by
  cases negate <;> simp [negateIf]

omit h in
theorem compareCodes_accepted {mode : Comparison} {negate leftAbsent rightAbsent : Bool}
    {l r : Target.Expr} (hl : l.EveryCall env.Accepts) (hr : r.EveryCall env.Accepts) :
    Accepted env (compareCodes mode negate leftAbsent rightAbsent l r) := by
  have hhelper : ∀ absence a b, a.EveryCall env.Accepts → b.EveryCall env.Accepts → Accepted env (do
      return negateIf negate (← callHelper (Helper.equalName mode absence) [a, b])) :=
    fun absence a b ha hb => (Yields.callHelper.call suits_equal (by simp [ha, hb])).bind
      fun e he => .pure (everyCall_negateIf.2 he)
  unfold compareCodes
  split
  · split
    · exact .pure (by simp [hl, hr])
    · exact hhelper _ _ _ hl hr
  · exact hhelper _ _ _ hl hr
  · exact hhelper _ _ _ hr hl
  · exact hhelper _ _ _ hl hr

omit h in
theorem equality_accepted {negate : Bool} {lhs rhs : Operand} (hlhs : lhs.Accepted env)
    (hrhs : rhs.Accepted env) : Accepted env (equality negate lhs rhs loc) := by
  unfold equality
  split
  · exact .pure (by simp)
  · exact Yields.bind hrhs fun r hr => .pure (everyCall_negateIf.2 (by simpa using hr))
  · exact Yields.bind hlhs fun l hl => .pure (everyCall_negateIf.2 (by simpa using hl))
  · refine .andThen fun (mode, absent) => ?_
    exact Yields.bind hlhs fun l hl => Yields.bind hrhs fun r hr => compareCodes_accepted hl hr

omit h in
theorem binaryCode_accepted {op : BinaryOp} {lhs rhs : Operand} (hlhs : lhs.Accepted env)
    (hrhs : rhs.Accepted env) : Accepted env (binaryCode op lhs rhs loc) := by
  unfold binaryCode
  split
  · exact equality_accepted hlhs hrhs
  · exact equality_accepted hlhs hrhs
  · refine Yields.bind hlhs fun l hl => Yields.bind hrhs fun r hr => ?_
    split
    all_goals exact .pure (by simp [hl, hr])

theorem unaryCode_accepted {op : UnaryOp} {operand : Operand} (hoperand : operand.Accepted env) :
    Accepted env (unaryCode op operand) := by
  refine Yields.bind hoperand fun value hvalue => ?_
  split
  · exact .pure (by simpa using hvalue)
  · exact .pure (by simpa using hvalue)
  · exact .pure (by simpa using hvalue)
  · have hhelper : Accepted env (callHelper Helper.notNullName [value]) :=
      Yields.callHelper.call (suits_named (h := .notNull) (by decide) rfl ⟨rfl, by simp⟩)
        (by simpa using hvalue)
    refine structOf_yields.bind fun decl? hdecl => ?_
    split
    · next decl =>
      split
      · exact Yields.callUsed.call (suits_part .notNull (unmarked_of_mem h (hdecl decl rfl)) rfl (by simp))
          (by simpa using hvalue)
      · exact hhelper
    · exact hhelper

theorem conditionalCode_accepted {cond onTrue onFalse : Operand} (hcond : cond.Accepted env)
    (htrue : onTrue.Accepted env) (hfalse : onFalse.Accepted env) :
    Accepted env (conditionalCode ty cond onTrue onFalse) :=
  Yields.bind hcond fun c hc => (cast_accepted h htrue).bind fun t ht =>
    (cast_accepted h hfalse).bind fun f hf => .pure (by simp [hc, ht, hf])

/-! ### Expressions -/

theorem foldedOr_accepted {e : Expr} {code : Gen Target.Expr} (hcode : Accepted env code) :
    Accepted env (foldedOr e code) := by
  refine .andThen fun env => ?_
  split
  · exact literal_accepted h
  · exact hcode

end

theorem length_operands {s : Scope} {es : List Expr} : (operands s es).length = es.length := by
  induction es with
  | nil => rfl
  | cons e es ih => simp [operands, ih]

mutual

/-- **Code calls as the source does.** If every part of an expression calls functions as they are
declared, then its code calls them as they are emitted. -/
theorem lower_accepted (h : env.program.Followed) (s : Scope) : (e : Expr) →
    (∀ part ∈ e.parts, part.FitsTable env.program.types) → Accepted env (lower s e)
  | .number .., _ | .boolean .., _ | .null .., _ => foldedOr_accepted h (.pure (by simp))
  | .string .., _ => foldedOr_accepted h (literal_accepted h)
  | .ident .., _ => foldedOr_accepted h (identifier_accepted h)
  | .field _ target _, hparts => by
    obtain ⟨⟨-, hname⟩, htarget⟩ := List.forall_mem_cons.1 hparts
    exact foldedOr_accepted h (fieldAccess_accepted h hname (lower_accepted h s target htarget))
  | .call _ _ args, hparts => by
    obtain ⟨⟨hcount, -⟩, hargs⟩ := List.forall_mem_cons.1 hparts
    refine foldedOr_accepted h (functionCall_accepted h (operands_accepted h s args hargs) ?_)
    exact fun f hf => length_operands.trans (hcount f hf)
  | .methodCall _ receiver _ args, hparts => by
    obtain ⟨⟨hcount, -⟩, hrest⟩ := List.forall_mem_cons.1 hparts
    obtain ⟨hreceiver, hargs⟩ := List.forall_mem_append.1 hrest
    refine foldedOr_accepted h (methodCall_accepted h (lower_accepted h s receiver hreceiver)
      (operands_accepted h s args hargs) ?_)
    exact fun type htype f hf => length_operands.trans (hcount type htype f hf)
  | .staticCall _ _ _ args, hparts =>
    foldedOr_accepted h (staticCall_accepted h
      (operands_accepted h s args (List.forall_mem_cons.1 hparts).2))
  | .instanceOf _ _ inits, hparts =>
    foldedOr_accepted h (newRecord_accepted h
      (initOperands_accepted h s inits (List.forall_mem_cons.1 hparts).2))
  | .binary _ _ lhs rhs, hparts => by
    obtain ⟨hlhs, hrhs⟩ := List.forall_mem_append.1 (List.forall_mem_cons.1 hparts).2
    exact foldedOr_accepted h (binaryCode_accepted (lower_accepted h s lhs hlhs) (lower_accepted h s rhs hrhs))
  | .unary _ _ operand, hparts =>
    foldedOr_accepted h (unaryCode_accepted h
      (lower_accepted h s operand (List.forall_mem_cons.1 hparts).2))
  | .conditional _ cond onTrue onFalse, hparts => by
    obtain ⟨hboth, hfalse⟩ := List.forall_mem_append.1 (List.forall_mem_cons.1 hparts).2
    obtain ⟨hcond, htrue⟩ := List.forall_mem_append.1 hboth
    exact foldedOr_accepted h (conditionalCode_accepted h (lower_accepted h s cond hcond)
      (lower_accepted h s onTrue htrue) (lower_accepted h s onFalse hfalse))
  | .initOf _ _ args, hparts => by
    obtain ⟨⟨hcount, -⟩, hargs⟩ := List.forall_mem_cons.1 hparts
    refine foldedOr_accepted h (deployment_accepted h (operands_accepted h s args hargs) ?_)
    exact fun decl hdecl => length_operands.trans (hcount decl hdecl)

theorem operands_accepted (h : env.program.Followed) (s : Scope) : (es : List Expr) →
    (∀ part ∈ partsOf es, part.FitsTable env.program.types) → ∀ o ∈ operands s es, o.Accepted env
  | [], _ => by simp [operands]
  | e :: es, hparts => by
    obtain ⟨he, hes⟩ := List.forall_mem_append.1 hparts
    exact List.forall_mem_cons.2 ⟨lower_accepted h s e he, operands_accepted h s es hes⟩

theorem initOperands_accepted (h : env.program.Followed) (s : Scope) :
    (inits : List (String × Expr)) →
    (∀ part ∈ partsOfInits inits, part.FitsTable env.program.types) →
    ∀ p ∈ initOperands s inits, p.2.Accepted env
  | [], _ => by simp [initOperands]
  | (_, e) :: rest, hparts => by
    obtain ⟨he, hrest⟩ := List.forall_mem_append.1 hparts
    exact List.forall_mem_cons.2 ⟨lower_accepted h s e he, initOperands_accepted h s rest hrest⟩

end

theorem lowerCast_accepted (h : env.program.Followed) {s : Scope} {e : Expr}
    (he : ∀ part ∈ e.parts, part.FitsTable env.program.types) : Accepted env (lowerCast s e ty) :=
  cast_accepted h (lower_accepted h s e he)

end Generate

end CellCompiler
