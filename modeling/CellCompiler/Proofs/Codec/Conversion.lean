import CellCompiler.Proofs.Codec.Outside
import CellCompiler.Proofs.Codec.Wrappers
import CellCompiler.Proofs.Totality

/-!
# Conversions of records are inverse

A record takes three forms on the stack. It is the product of its fields, which are products
themselves; its optional form is one tuple of all leaves; and in a tuple of its fields the records
among them are tuples again, which is how callers from outside see it.

* `Inverts c f g v` says that `g` undoes what `f` makes of `v`;
* `Reverses` and `ReversesOptional` say what conversions make of one record, and `Passes` the same of a
  field of any type;
* `Laid.toTuple` and its like are about records whose fields pass, `StandsFor.toOptTuple` and its like about
  records that may be absent, and `Supporting.passes` shows that all values pass, by induction on how
  they are nested;
* `library_conversions_inverse` is the result for finished modules.
-/

namespace CellCompiler

open Generate Machine
open Layout (Shape)

variable {c : Code} {env : Env} {d d' : Draft} {table : TypeTable} {P : Slice → Prop} {s : State}
  {v w t : Val} {e : Target.Expr} {decl : TypeDecl} {ty : TypeRef}

/-! ### Functions of one value -/

/-- A conversion whose statements only set variables. -/
theorem Machine.Code.Has.maps {name : String} {body : List Target.Stmt} (h : c.Has name ["v"] body)
    (hbody : ∀ u : State, u.get? "v" = some v → ∃ ps, Yields (block c body) u (some w) (u.setAll ps))
    (s : State) : Yields (call c name [v]) s w s := by
  obtain ⟨ps, hps⟩ := hbody (s.enter ["v"] [v]) (by simp [State.enter, State.get?, Dict.ofList])
  exact h.returns rfl hps (by simp [State.enter]) (by simp [State.enter])

/-- A conversion that is a single expression. -/
theorem exists_setAll_of_means {u : State} {body : List Target.Stmt} (h : Means c u e w) :
    ∃ ps, Yields (block c (Target.ret e :: body)) u (some w) (u.setAll ps) :=
  ⟨[], (yields_ret_means h).2 ⟨rfl, rfl⟩⟩

/-! ### Forms of a record -/

/-- What callers from outside see of a record with these entries in a tuple. -/
def TypeDecl.external (decl : TypeDecl) (ts : List Val) : Val :=
  if decl.fields.isEmpty then .tuple ts else .tensor ts

/-- The record `v` has these entries in a tuple, and conversions take each form to the other. Addresses
from outside have to be standard. -/
structure Reverses (c : Code) (P : Slice → Prop) (decl : TypeDecl) (v : Val) (ts : List Val) : Prop where
  length_eq : ts.length = decl.fields.length
  toTuple : ∀ s, Yields (call c (Name.toTuple decl.name) [v]) s (.tuple ts) s
  fromTuple : ∀ s, Yields (call c (Name.fromTuple decl.name) [.tuple ts]) s v s
  toExternal : ∀ s, Yields (call c (Name.toExternal decl.name) [v]) s (decl.external ts) s
  fromExternal : (∀ x, P x → IsStandard x.bits) →
    ∀ s, Yields (call c (Name.fromExternal decl.name) [decl.external ts]) s v s

/-- The same for a record that may be absent. -/
structure ReversesOptional (c : Code) (P : Slice → Prop) (decl : TypeDecl) (v t : Val) : Prop where
  isLeaf : t.isLeaf = true
  toOptTuple : ∀ s, Yields (call c (Name.toOptTuple decl.name) [v]) s t s
  fromOptTuple : ∀ s, Yields (call c (Name.fromOptTuple decl.name) [t]) s v s
  toOptExternal : ∀ s, Yields (call c (Name.toOptExternal decl.name) [v]) s t s
  fromOptExternal : (∀ x, P x → IsStandard x.bits) →
    ∀ s, Yields (call c (Name.fromOptExternal decl.name) [t]) s v s

/-- The value of a field of a type stands in a tuple as `t`. -/
inductive Passes (c : Code) (table : TypeTable) (P : Slice → Prop) : TypeRef → Val → Val → Prop where
  | scalar {name : String} {optional : Bool} {decl : TypeDecl} {kind : PrimitiveKind} {v : Val} :
      table.types.get? name = some decl → decl.primitive? = some kind → v.isLeaf = true →
      (kind = .address → (optional = true ∧ v = .null) ∨ ∃ x, v = .slice x ∧ P x) →
      Passes c table P (.named name optional) v v
  | map {key : String} {keyAs : Option String} {value : String} {valueAs : Option String} {v : Val} :
      v.isLeaf = true → Passes c table P (.map key keyAs value valueAs) v v
  | record {decl : TypeDecl} {v : Val} {ts : List Val} : table.types.get? decl.name = some decl →
      decl.isStruct = true → Reverses c P decl v ts →
      Passes c table P (.named decl.name false) v (.tuple ts)
  | optional {decl : TypeDecl} {v t : Val} : table.types.get? decl.name = some decl →
      decl.isStruct = true → ReversesOptional c P decl v t →
      Passes c table P (.named decl.name true) v t

theorem Passes.isLeaf (h : Passes c table P ty v t) : t.isLeaf = true := by
  cases h with
  | scalar _ _ hleaf _ | map hleaf => exact hleaf
  | record _ _ _ => rfl
  | optional _ _ hreverses => exact hreverses.isLeaf

/-! ### Fields -/

/-- A field with its value and its entry in a tuple. -/
structure Row where
  field : Field
  value : Val
  item : Val

theorem exists_rows {R : Field → Val → Val → Prop} {fields : List Field} {vs : List Val}
    (hlength : vs.length = fields.length) (h : ∀ p ∈ fields.zip vs, ∃ t, R p.1 p.2 t) :
    ∃ rows : List Row, fields = rows.map Row.field ∧ vs = rows.map Row.value ∧
      ∀ r ∈ rows, R r.field r.value r.item := by
  induction fields generalizing vs with
  | nil =>
    obtain rfl : vs = [] := by simpa using hlength
    exact ⟨[], rfl, rfl, by simp⟩
  | cons f fields ih =>
    obtain ⟨v, vs, rfl⟩ := List.exists_cons_of_length_eq_add_one hlength
    rw [List.zip_cons_cons, List.forall_mem_cons] at h
    obtain ⟨t, ht⟩ := h.1
    obtain ⟨rows, rfl, rfl, hrows⟩ := ih (by simpa using hlength) h.2
    exact ⟨⟨f, v, t⟩ :: rows, rfl, rfl, List.forall_mem_cons.2 ⟨ht, hrows⟩⟩

theorem callUsed_eq_ok {name : String} {args : List Target.Expr}
    (h : callUsed name args env d = .ok e d') : Target.call name args = e := by
  simp only [callUsed, used, run_bind, run_modify, run_pure] at h
  obtain ⟨_, _, ⟨_, _, -, rfl, -⟩, rfl, -⟩ := h
  rfl

theorem structOf_keeps {found : Option TypeDecl} (h : structOf ty env d = .ok found d') : d' = d := by
  simp only [structOf, run_bind, run_ofExcept] at h
  obtain ⟨_, _, htable, -, rfl⟩ := h
  exact (Generate.run_table.1 htable).2.symm

/-- The record that a type names is found when code is generated for a field. -/
theorem structOf_record {found : Option TypeDecl} {name : String} {optional : Bool}
    (hdecl : env.program.types.types.get? name = some decl) (hstruct : decl.isStruct = true)
    (h : structOf (.named name optional) env d = .ok found d') : found = some decl := by
  rcases structOf_cases h with ⟨_, inner, hname, hinner, -, rfl⟩ | ⟨-, hnone⟩
  · cases hname
    simpa [hdecl, eq_comm] using hinner
  · simpa [TypeDecl.isStructLike_of_isStruct hstruct] using hnone _ decl rfl hdecl

theorem structOf_scalar {found : Option TypeDecl} {name : String} {optional : Bool}
    {kind : PrimitiveKind} (hdecl : env.program.types.types.get? name = some decl)
    (hkind : decl.primitive? = some kind) (h : structOf (.named name optional) env d = .ok found d') :
    found = none := by
  rcases structOf_cases h with ⟨_, inner, hname, hinner, hlike, rfl⟩ | ⟨rfl, -⟩
  · cases hname
    obtain rfl : decl = inner := by simpa [hdecl] using hinner
    simp [TypeDecl.primitive?_eq_none_iff.2 hlike] at hkind
  · rfl

theorem structOf_map {found : Option TypeDecl} {key value : String} {keyAs valueAs : Option String}
    (h : structOf (.map key keyAs value valueAs) env d = .ok found d') : found = none := by
  rcases structOf_cases h with ⟨_, inner, hname, -⟩ | ⟨rfl, -⟩
  · cases hname
  · rfl

section Fields

variable {f : Field}

/-- A field whose leaves are bound. -/
theorem fieldPattern_means (hrun : fieldPattern f env d = .ok e d')
    (hbound : ∀ part, Layout.shape env.program.types f.ty (Name.tick "v" f.name) = .ok part →
      Bound s part v) : Means c s e v := by
  simp only [fieldPattern, unpack, run_bind, run_ofExcept, Layout.unpack, Except.map_eq_ok] at hrun
  obtain ⟨types, _, htable, ⟨part, hpart, rfl⟩, -⟩ := hrun
  obtain ⟨rfl, rfl⟩ := Generate.run_table.1 htable
  exact (hbound part hpart).yields

/-- An optional record is a single leaf. -/
theorem fieldVar_means (hdecl : env.program.types.types.get? decl.name = some decl)
    (hstruct : decl.isStruct = true) (hty : f.ty = .named decl.name true)
    (hbound : ∀ part, Layout.shape env.program.types f.ty (Name.tick "v" f.name) = .ok part →
      Bound s part v) : Means c s (fieldVar f) v := by
  have hshape : Layout.shape env.program.types f.ty (Name.tick "v" f.name) =
      .ok (.leaf (Name.tick "v" f.name) .boxed) := by
    rw [hty, Layout.shape, Layout.shapeWith, Layout.depthBound]
    refine Layout.shapeWithin_named.2 ⟨decl, hdecl, Layout.declBy_eq_ok.2 ?_⟩
    rw [primitive?_of_isStruct hstruct]
    rfl
  exact (hbound _ hshape).yields

/-- A field is put into a tuple. -/
theorem tupleField_means (hrun : tupleField f env d = .ok e d')
    (hpass : Passes c env.program.types P f.ty v t)
    (hbound : ∀ part, Layout.shape env.program.types f.ty (Name.tick "v" f.name) = .ok part →
      Bound s part v) : Means c s e t := by
  simp only [tupleField, run_bind] at hrun
  obtain ⟨found, d₁, hfound, hrun⟩ := hrun
  generalize hty : f.ty = ty at hpass
  rw [hty] at hfound
  cases hpass with
  | scalar hdecl hkind _ _ =>
    obtain rfl := structOf_scalar hdecl hkind hfound
    exact fieldPattern_means hrun hbound
  | map _ =>
    obtain rfl := structOf_map hfound
    exact fieldPattern_means hrun hbound
  | @record nested _ ts hdecl hstruct hreverses =>
    obtain rfl := structOf_record hdecl hstruct hfound
    have hoptional : f.ty.isOptional = false := by rw [hty]; rfl
    simp only [hoptional, Bool.false_eq_true, if_false, used, run_bind, run_modify,
      run_pure] at hrun
    obtain ⟨_, _, ⟨_, _, -, rfl, -⟩, pattern, _, hpattern, rfl, -⟩ := hrun
    have hmeans := fieldPattern_means (c := c) hpattern hbound
    exact (yields_call_means (.cons hmeans .nil)).2 (hreverses.toTuple s)
  | @optional nested _ _ hdecl hstruct hreverses =>
    obtain rfl := structOf_record hdecl hstruct hfound
    have hoptional : f.ty.isOptional = true := by rw [hty]; rfl
    simp only [hoptional, if_true] at hrun
    obtain rfl := callUsed_eq_ok hrun
    have hmeans := fieldVar_means (c := c) hdecl hstruct hty hbound
    exact (yields_call_means (.cons hmeans .nil)).2 (hreverses.toOptTuple s)

/-- A field is taken out of a tuple. -/
theorem untupleField_means (hrun : untupleField f env d = .ok e d')
    (hpass : Passes c env.program.types P f.ty v t) (ht : Means c s (fieldVar f) t) :
    Means c s e v := by
  simp only [untupleField, run_bind] at hrun
  obtain ⟨found, d₁, hfound, hrun⟩ := hrun
  generalize hty : f.ty = ty at hpass
  rw [hty] at hfound
  cases hpass with
  | scalar hdecl hkind _ _ =>
    obtain rfl := structOf_scalar hdecl hkind hfound
    obtain ⟨rfl, -⟩ := run_pure.1 hrun
    exact ht
  | map _ =>
    obtain rfl := structOf_map hfound
    obtain ⟨rfl, -⟩ := run_pure.1 hrun
    exact ht
  | record hdecl hstruct hreverses =>
    obtain rfl := structOf_record hdecl hstruct hfound
    have hoptional : f.ty.isOptional = false := by rw [hty]; rfl
    simp only [hoptional, Bool.false_eq_true, if_false] at hrun
    obtain rfl := callUsed_eq_ok hrun
    exact (yields_call_means (.cons ht .nil)).2 (hreverses.fromTuple s)
  | optional hdecl hstruct hreverses =>
    obtain rfl := structOf_record hdecl hstruct hfound
    have hoptional : f.ty.isOptional = true := by rw [hty]; rfl
    simp only [hoptional, if_true] at hrun
    obtain rfl := callUsed_eq_ok hrun
    exact (yields_call_means (.cons ht .nil)).2 (hreverses.fromOptTuple s)

/-- A record from outside is taken apart and converted. -/
theorem fromExternalValue_means {value : Target.Expr} {ts : List Val}
    (hrun : fromExternalValue decl false value env d = .ok e d')
    (hsound : d.registry.Sound true) (hback : Underlies c d'.registry)
    (hreverses : Reverses c P decl v ts) (hP : ∀ x, P x → IsStandard x.bits)
    (ht : Means c s value (.tuple ts)) : Means c s e v := by
  have hfrom := hreverses.fromExternal hP s
  unfold fromExternalValue at hrun
  simp only [Bool.false_eq_true, if_false, used, run_bind, run_modify, run_pure] at hrun
  obtain ⟨_, _, ⟨_, _, rfl, rfl, rfl⟩, hrun⟩ := hrun
  unfold TypeDecl.external at hfrom
  split at hrun
  · next hempty =>
    obtain ⟨rfl, -⟩ := run_pure.1 hrun
    rw [if_pos hempty] at hfrom
    exact (yields_call_means (.cons ht .nil)).2 hfrom
  · next hempty =>
    simp only [run_bind, run_pure] at hrun
    obtain ⟨destroy, _, hhelper, rfl, rfl⟩ := hrun
    obtain ⟨rfl, hlt, hhelps⟩ := helper_tupleDestroy hhelper hsound hback
    rw [if_neg hempty] at hfrom
    have hopen : Means c s (Target.call (Helper.tupleDestroyName decl.fields.length) [value])
        (.tensor ts) := by
      rw [Means, yields_call_means (.cons ht .nil), yields_asm hhelps]
      exact ⟨asm_untuple hlt hreverses.length_eq, rfl⟩
    exact (yields_call_means (.cons hopen .nil)).2 hfrom

/-- A field from outside is converted, and the check of an address lets it pass. -/
theorem fromOutside_means {value : Target.Expr} (hc : c.Plain)
    (hrun : fromOutside ty value env d = .ok e d') (hsound : d.registry.Sound true)
    (hback : Underlies c d'.registry) (hpass : Passes c env.program.types P ty v t)
    (hP : ∀ x, P x → IsStandard x.bits) (ht : Means c s value t) : Means c s e v := by
  simp only [fromOutside, run_bind] at hrun
  obtain ⟨found, d₁, hfound, hrun⟩ := hrun
  obtain rfl := structOf_keeps hfound
  cases hpass with
  | @scalar name optional decl kind v hdecl hkind _ haddress =>
    obtain rfl := structOf_scalar hdecl hkind hfound
    simp only [run_bind] at hrun
    obtain ⟨kind?, d₂, hprimitive, hrun⟩ := hrun
    obtain ⟨rfl⟩ : d₂ = d₁ := by
      simp only [primitiveOf, run_bind, run_ofExcept] at hprimitive
      obtain ⟨_, _, htable, -, rfl⟩ := hprimitive
      exact (Generate.run_table.1 htable).2.symm
    obtain ⟨_, hdecl', rfl⟩ := primitiveOf_named hprimitive
    obtain rfl : decl = _ := by simpa [hdecl] using hdecl'
    by_cases hkindAddress : kind = .address
    · subst hkindAddress
      simp only [hkind, verifiedAddress, callHelper, run_bind, run_pure] at hrun
      obtain ⟨_, _, ⟨verify, _, hhelper, rfl, rfl⟩, rfl, rfl⟩ := hrun
      obtain ⟨rfl, helper, hof, hhelps⟩ := helper_helps hhelper hsound hback (by decide) (by decide)
      obtain rfl : Helper.verifyAddress = helper := by
        have hverify : Helper.ofName? Helper.verifyAddressName = some .verifyAddress := by decide
        simpa [hverify] using hof
      rcases haddress rfl with ⟨rfl, rfl⟩ | ⟨x, rfl, hx⟩
      · exact .ternary (means_isNull hc ht) (means_null hc)
      · have hverified : Means c s (Target.call Helper.verifyAddressName [value]) (.slice x) :=
          (yields_call_means (.cons ht .nil)).2
            ((yields_verifyAddress hc hhelps).2 ⟨hP x hx, rfl, rfl⟩)
        cases optional with
        | false => exact hverified
        | true => exact .ternary (means_isNull hc ht) hverified
    · obtain rfl : value = e := by
        rw [hkind] at hrun
        cases kind with
        | address => exact absurd rfl hkindAddress
        | _ => exact (run_pure.1 hrun).1
      exact ht
  | map _ =>
    obtain rfl := structOf_map hfound
    simp only [run_bind] at hrun
    obtain ⟨kind?, _, hprimitive, hrun⟩ := hrun
    simp only [primitiveOf, Layout.primitiveOf, run_bind, run_ofExcept, Except.ok.injEq] at hprimitive
    obtain ⟨_, _, -, rfl, -⟩ := hprimitive
    obtain ⟨rfl, -⟩ := run_pure.1 hrun
    exact ht
  | record hdecl hstruct hreverses =>
    obtain rfl := structOf_record hdecl hstruct hfound
    exact fromExternalValue_means hrun hsound hback hreverses hP ht
  | optional hdecl hstruct hreverses =>
    obtain rfl := structOf_record hdecl hstruct hfound
    obtain rfl := callUsed_eq_ok hrun
    exact (yields_call_means (.cons ht .nil)).2 (hreverses.fromOptExternal hP s)

end Fields

/-! ### Records with fields -/

/-- What a generator makes of the elements of a list, each run from a sound registry. -/
theorem run_mapM_backed {α β : Type} {f : α → Gen β} {post : α → β → Prop} {l : List α} {bs : List β}
    (hf : ∀ a, Builds true (⟨fun _ => True, fun _ => True⟩ : Deps env) (f a) (post a))
    (h : l.mapM f env d = .ok bs d') (hsound : d.registry.Sound true) (hback : Underlies c d'.registry) :
    List.Forall₂ (fun a b => ∃ d d', f a env d = .ok b d' ∧ d.registry.Sound true ∧
      Underlies c d'.registry) l bs := by
  induction l generalizing bs d with
  | nil =>
    obtain ⟨rfl, -⟩ := run_pure.1 h
    exact .nil
  | cons a l ih =>
    simp only [List.mapM_cons, run_bind, run_pure] at h
    obtain ⟨b, d₁, hb, bs, d₂, hbs, rfl, rfl⟩ := h
    have hsound₁ := ((hf a).keeps hb hsound).2
    have hextends := (Builds.mapM (l := l) fun a _ => (hf a).mono fun _ _ => trivial).keeps hbs hsound₁
    exact .cons ⟨d, d₁, hb, hsound, hback.mono hextends.1⟩ (ih hbs hsound₁)

section Records

variable {view : RecordView} {sh : Shape} {rows : List Row}

/-- A record with fields, all of which pass. -/
structure Laid (c : Code) (env : Env) (P : Slice → Prop) (decl : TypeDecl) (view : RecordView)
    (sh : Shape) (rows : List Row) : Prop where
  viewOf : ViewOf env decl view sh
  tuples : Tuples c env view
  declared : env.program.types.types.get? decl.name = some decl
  isStruct : decl.isStruct = true
  separate : decl.Separate
  nodup : sh.names.Nodup
  fields_eq : decl.fields = rows.map Row.field
  ne_nil : decl.fields ≠ []
  fits : sh.Fits (.tensor (rows.map Row.value))
  passes : ∀ r ∈ rows, Passes c env.program.types P r.field.ty r.value r.item

/-- A record that is bound has its fields bound. -/
theorem Laid.bound_field (h : Laid c env P decl view sh rows)
    (hbound : Bound s sh (.tensor (rows.map Row.value))) :
    ∀ r ∈ rows, ∀ part,
      Layout.shape env.program.types r.field.ty (Name.tick "v" r.field.name) = .ok part →
        Bound s part r.value := by
  obtain ⟨n, hshape⟩ := declBy_of_shapeWithin h.declared h.viewOf.shape_eq
  rw [Layout.declBy_eq_ok, primitive?_of_isStruct h.isStruct] at hshape
  simp only [Layout.visibleFields, Bool.false_eq_true, if_false, h.fields_eq, List.map_map] at hshape
  rcases Layout.recordBy_eq_ok.1 hshape with ⟨hnil, -⟩ | ⟨-, parts, rfl, hparts⟩
  · exact absurd (by simpa [h.fields_eq] using hnil) h.ne_nil
  · rw [List.forall₂_map_left_iff] at hparts
    clear h hshape
    induction hparts with
    | nil => simp
    | @cons r part rows parts hpart _ ih =>
      obtain ⟨hr, hrows⟩ := bound_product_cons.1 hbound
      refine List.forall_mem_cons.2 ⟨fun part' hpart' => ?_, ih hrows⟩
      exact Layout.shapeWithin_unique hpart hpart' ▸ hr

/-- The leaves of a record are bound before its fields are put into a tuple. -/
theorem Laid.tupleItems (h : Laid c env P decl view sh rows) {items : List Target.Expr} (u : State)
    (hitems : decl.fields.mapM tupleField env d = .ok items d') :
    List.Forall₂ (Means c (u.setAll (sh.names.zip (Val.flattenAll (rows.map Row.value))))) items
      (rows.map Row.item) := by
  have hbound := bound_setAll (s := u) h.fits h.nodup
  rw [Val.flatten] at hbound
  have hruns := run_mapM hitems
  rw [h.fields_eq, List.forall₂_map_left_iff] at hruns
  rw [List.forall₂_map_right_iff]
  refine ((List.forall₂_and_left _ _).2 ⟨fun _ hr => hr, hruns⟩).flip.imp ?_
  rintro e r ⟨hr, d, d', hrun⟩
  exact tupleField_means hrun (h.passes r hr) (h.bound_field hbound r hr)

theorem flattenAll_items (h : ∀ r ∈ rows, Passes c table P r.field.ty r.value r.item) :
    Val.flattenAll (rows.map Row.item) = rows.map Row.item :=
  Val.flattenAll_of_isLeaf (List.forall_mem_map.2 fun r hr => (h r hr).isLeaf)

/-- A conversion that binds the leaves of a record first. -/
theorem Laid.exists_bindLeaves (h : Laid c env P decl view sh rows) {u : State}
    (hu : u.get? "v" = some (.tensor (rows.map Row.value)))
    (he : Means c (u.setAll (sh.names.zip (Val.flattenAll (rows.map Row.value)))) e w) :
    ∃ ps, Yields (block c [Target.var sh.pattern (Target.id "v"), Target.ret e]) u (some w)
      (u.setAll ps) := by
  refine ⟨_, yields_block_var.2
    ⟨_, u, means_id hu, _, (yields_bind_pattern h.fits).2 ?_, (yields_ret_means he).2 ⟨rfl, rfl⟩⟩⟩
  rw [Val.flatten]

/-- A record is put into a tuple. -/
theorem Laid.toTuple (h : Laid c env P decl view sh rows) (s : State) :
    Yields (call c (Name.toTuple decl.name) [.tensor (rows.map Row.value)]) s
      (.tuple (rows.map Row.item)) s := by
  obtain ⟨d, item, d', hrun, hsound, hback, hget⟩ := h.tuples.toTuple
  have hnonempty : decl.fields.isEmpty = false := by simpa using h.ne_nil
  simp only [RecordView.toTupleItem, RecordView.conversion, RecordView.bindLeaves, RecordView.isEmpty,
    RecordView.name, h.viewOf.decl_eq, h.viewOf.pattern_eq, hnonempty, Bool.false_eq_true, if_false,
    run_bind, run_pure] at hrun
  obtain ⟨items, _, hitems, create, _, hhelper, _, _, ⟨rfl, rfl⟩, rfl, rfl⟩ := hrun
  have hsound' := ((Builds.mapM fun f _ => tupleField_builds).keeps hitems hsound).2
  obtain ⟨rfl, hlt, hhelps⟩ := helper_tupleCreate hhelper hsound' hback
  have hhas : c.Has (Name.toTuple decl.name) ["v"] _ := ⟨_, hget _ (by simp), by simp⟩
  refine hhas.maps (fun u hu => h.exists_bindLeaves hu ?_) s
  have hmeans := h.tupleItems u hitems
  have hleaves := flattenAll_items h.passes
  refine (yields_call_means (.cons (.tensor hmeans) .nil)).2 ((yields_asm hhelps).2 ⟨?_, rfl⟩)
  have hone : Val.flattenAll [.tensor (rows.map Row.item)] = rows.map Row.item := by
    simp [Val.flattenAll, Val.flatten, hleaves]
  rw [asm_tuple hlt (by rw [hone, hmeans.length_eq]), hone]

/-- A record is handed to callers from outside. -/
theorem Laid.toExternal (h : Laid c env P decl view sh rows) (s : State) :
    Yields (call c (Name.toExternal decl.name) [.tensor (rows.map Row.value)]) s
      (.tensor (rows.map Row.item)) s := by
  obtain ⟨d, item, d', hrun, -, -, hget⟩ := h.tuples.toExternal
  have hnonempty : decl.fields.isEmpty = false := by simpa using h.ne_nil
  simp only [RecordView.toExternalItem, RecordView.conversion, RecordView.bindLeaves,
    RecordView.isEmpty, RecordView.name, h.viewOf.decl_eq, h.viewOf.pattern_eq, hnonempty,
    Bool.false_eq_true, if_false, run_bind, run_pure] at hrun
  obtain ⟨items, _, hitems, _, _, ⟨rfl, -⟩, _, _, -, rfl, -⟩ := hrun
  have hhas : c.Has (Name.toExternal decl.name) ["v"] _ := ⟨_, hget _ (by simp), by simp⟩
  exact hhas.maps (fun u hu => h.exists_bindLeaves hu (.tensor (h.tupleItems u hitems))) s

/-- A conversion that binds entries of a tuple as fields first. -/
theorem Laid.exists_bindFields (h : Laid c env P decl view sh rows) {u : State} {value : Target.Expr}
    (hvalue : Means c u value (.tensor (rows.map Row.item)))
    (he : ∀ t, (∀ r ∈ rows, Means c t (fieldVar r.field) r.item) → Means c t e w) :
    ∃ ps, Yields (block c [Target.var (.tensor (decl.fields.map fieldVar)) value, Target.ret e]) u
      (some w) (u.setAll ps) := by
  have hidents : decl.fields.map fieldVar =
      (decl.fields.map fun f => Name.tick "v" f.name).map Target.id := by
    simp [fieldVar]
  have hlength : (rows.map Row.item).length =
      (decl.fields.map fun f => Name.tick "v" f.name).length := by
    simp [h.fields_eq]
  have hnodup : (decl.fields.map fun f => Name.tick "v" f.name).Nodup := by
    have hnames := h.separate.nodup.map (Name.tick_injective "v")
    rwa [List.map_map] at hnames
  have hset := State.forall₂_setAll (s := u) hnodup hlength.symm
  refine ⟨(decl.fields.map fun f => Name.tick "v" f.name).zip (rows.map Row.item),
    yields_block_var.2 ⟨_, u, hvalue, _, ?_, (yields_ret_means (he _ ?_)).2 ⟨rfl, rfl⟩⟩⟩
  · rw [hidents]
    exact (yields_bind_idents hlength).2 rfl
  · rw [h.fields_eq] at hset ⊢
    simp only [List.map_map, List.forall₂_map_left_iff, List.forall₂_map_right_iff,
      List.forall₂_same] at hset ⊢
    exact fun r hr => means_id (hset r hr)

/-- A record is taken out of a tuple. -/
theorem Laid.fromTuple (h : Laid c env P decl view sh rows) (s : State) :
    Yields (call c (Name.fromTuple decl.name) [.tuple (rows.map Row.item)]) s
      (.tensor (rows.map Row.value)) s := by
  obtain ⟨d, item, d', hrun, hsound, hback, hget⟩ := h.tuples.fromTuple
  have hnonempty : decl.fields.isEmpty = false := by simpa using h.ne_nil
  simp only [RecordView.fromTupleItem, RecordView.conversion, RecordView.fieldVars, RecordView.isEmpty,
    RecordView.name, h.viewOf.decl_eq, hnonempty, Bool.false_eq_true, if_false, run_bind,
    run_pure] at hrun
  obtain ⟨destroy, d₁, hhelper, items, _, hitems, _, _, ⟨rfl, rfl⟩, rfl, rfl⟩ := hrun
  have hsound₁ := (helper_entered hhelper hsound).2.1
  have hextends := ((Builds.mapM fun f _ => untupleField_builds).keeps hitems hsound₁).1
  obtain ⟨rfl, hlt, hhelps⟩ := helper_tupleDestroy hhelper hsound (hback.mono hextends)
  have hhas : c.Has (Name.fromTuple decl.name) ["v"] _ := ⟨_, hget _ (by simp), by simp⟩
  refine hhas.maps (fun u hu => ?_) s
  have hopen : Means c u (Target.call (Helper.tupleDestroyName decl.fields.length) [Target.id "v"])
      (.tensor (rows.map Row.item)) := by
    rw [Means, yields_call_means (.cons (means_id hu) .nil), yields_asm hhelps]
    exact ⟨asm_untuple hlt (by simp [h.fields_eq]), rfl⟩
  refine h.exists_bindFields hopen fun t ht => ?_
  have hruns := run_mapM hitems
  rw [h.fields_eq, List.forall₂_map_left_iff] at hruns
  have hmeans : List.Forall₂ (Means c t) items (rows.map Row.value) := by
    rw [List.forall₂_map_right_iff]
    refine ((List.forall₂_and_left _ _).2 ⟨fun _ hr => hr, hruns⟩).flip.imp ?_
    rintro e r ⟨hr, d, d', hrun⟩
    exact untupleField_means hrun (h.passes r hr) (ht r hr)
  exact .tensor hmeans

/-- A record is taken from callers from outside. -/
theorem Laid.fromExternal (h : Laid c env P decl view sh rows) (hc : c.Plain)
    (hP : ∀ x, P x → IsStandard x.bits) (s : State) :
    Yields (call c (Name.fromExternal decl.name) [.tensor (rows.map Row.item)]) s
      (.tensor (rows.map Row.value)) s := by
  obtain ⟨d, item, d', hrun, hsound, hback, hget⟩ := h.tuples.fromExternal
  have hnonempty : decl.fields.isEmpty = false := by simpa using h.ne_nil
  simp only [RecordView.fromExternalItem, RecordView.conversion, RecordView.fieldVars,
    RecordView.isEmpty, RecordView.name, h.viewOf.decl_eq, hnonempty, Bool.false_eq_true, if_false,
    run_bind, run_pure] at hrun
  obtain ⟨items, d₁, hitems, _, _, ⟨rfl, rfl⟩, _, _, hty, rfl, rfl⟩ := hrun
  obtain rfl : d₁ = _ := by
    simp only [externalTy, run_bind, run_ofExcept] at hty
    obtain ⟨_, _, htable, -, rfl⟩ := hty
    exact (Generate.run_table.1 htable).2
  have hhas : c.Has (Name.fromExternal decl.name) ["v"] _ := ⟨_, hget _ (by simp), by simp⟩
  refine hhas.maps (fun u hu => h.exists_bindFields (means_id hu) fun t ht => ?_) s
  have hruns := run_mapM_backed (fun _ => fromOutside_builds) hitems hsound hback
  rw [h.fields_eq, List.forall₂_map_left_iff] at hruns
  have hmeans : List.Forall₂ (Means c t) items (rows.map Row.value) := by
    rw [List.forall₂_map_right_iff]
    refine ((List.forall₂_and_left _ _).2 ⟨fun _ hr => hr, hruns⟩).flip.imp ?_
    rintro e r ⟨hr, d, d', hrun, hsound, hback⟩
    exact fromOutside_means hc hrun hsound hback (h.passes r hr) hP (ht r hr)
  exact .tensor hmeans

theorem Laid.reverses (h : Laid c env P decl view sh rows) (hc : c.Plain) :
    Reverses c P decl (.tensor (rows.map Row.value)) (rows.map Row.item) where
  length_eq := by simp [h.fields_eq]
  toTuple := h.toTuple
  fromTuple := h.fromTuple
  toExternal s := by
    rw [TypeDecl.external, if_neg (by simpa using h.ne_nil)]
    exact h.toExternal s
  fromExternal hP s := by
    rw [TypeDecl.external, if_neg (by simpa using h.ne_nil)]
    exact h.fromExternal hc hP s

end Records

/-! ### Other records -/

section Others

variable {view : RecordView} {sh : Shape}

/-- A record without fields is the same in all forms. -/
theorem reverses_empty (hview : ViewOf env decl view sh) (htuples : Tuples c env view)
    (hfields : decl.fields = []) : Reverses c P decl (.tuple []) [] := by
  have hsame : ∀ {name : String}, c.Has name ["v"] [Target.ret (Target.id "v")] →
      ∀ s, Yields (call c name [.tuple []]) s (.tuple []) s :=
    fun h => h.maps fun u hu => exists_setAll_of_means (means_id hu)
  have hexternal : decl.external [] = .tuple [] := by simp [TypeDecl.external, hfields]
  refine ⟨by simp [hfields], hsame ?_, hsame ?_, ?_, fun _ => ?_⟩
  · obtain ⟨d, item, d', hrun, -, -, hget⟩ := htuples.toTuple
    simp only [RecordView.toTupleItem, RecordView.conversion, RecordView.isEmpty, RecordView.name,
      hview.decl_eq, hfields, List.isEmpty_nil, if_true, run_bind, run_pure] at hrun
    obtain ⟨_, _, ⟨rfl, -⟩, rfl, -⟩ := hrun
    exact ⟨_, hget _ (by simp), by simp⟩
  · obtain ⟨d, item, d', hrun, -, -, hget⟩ := htuples.fromTuple
    simp only [RecordView.fromTupleItem, RecordView.conversion, RecordView.isEmpty, RecordView.name,
      hview.decl_eq, hfields, List.isEmpty_nil, if_true, run_bind, run_pure] at hrun
    obtain ⟨_, _, ⟨rfl, -⟩, rfl, -⟩ := hrun
    exact ⟨_, hget _ (by simp), by simp⟩
  · obtain ⟨d, item, d', hrun, -, -, hget⟩ := htuples.toExternal
    simp only [RecordView.toExternalItem, RecordView.conversion, RecordView.isEmpty, RecordView.name,
      hview.decl_eq, hfields, List.isEmpty_nil, if_true, run_bind, run_pure] at hrun
    obtain ⟨_, _, ⟨rfl, -⟩, _, _, -, rfl, -⟩ := hrun
    rw [hexternal]
    exact hsame ⟨_, hget _ (by simp), by simp⟩
  · obtain ⟨d, item, d', hrun, -, -, hget⟩ := htuples.fromExternal
    simp only [RecordView.fromExternalItem, RecordView.conversion, RecordView.isEmpty,
      RecordView.name, hview.decl_eq, hfields, List.isEmpty_nil, if_true, run_bind, run_pure] at hrun
    obtain ⟨_, _, ⟨rfl, -⟩, _, _, -, rfl, -⟩ := hrun
    rw [hexternal]
    exact hsame ⟨_, hget _ (by simp), by simp⟩

/-- Statements that pass an absent value on. -/
theorem exists_passNull (hc : c.Plain) {u : State} (hu : u.get? "v" = some v)
    (he : if v.isNull then w = .null else Means c u e w) :
    ∃ ps, Yields (block c [RecordView.passNull, Target.ret e]) u (some w) (u.setAll ps) := by
  refine ⟨[], (yields_ifThen_means (means_isNull hc (means_id hu))).2 ?_⟩
  cases hnull : v.isNull with
  | true =>
    obtain rfl : w = .null := by simpa [hnull] using he
    exact (yields_ret_means (means_null hc)).2 ⟨rfl, rfl⟩
  | false =>
    have he' : Means c u e w := by simpa [hnull] using he
    exact (yields_ret_means he').2 ⟨rfl, rfl⟩

/-- The optional form `v` of a record `w`, which is boxed and opened. -/
structure BoxOf (c : Code) (decl : TypeDecl) (v w : Val) : Prop where
  isNull : v.isNull = false
  opens : ∀ s, Yields (call c (Name.notNull decl.name) [v]) s w s
  closes : ∀ s, Yields (call c (Name.asOptional decl.name) [w]) s v s
  empty : decl.fields = [] → v = .tuple []

theorem IsRecord.boxOf (hc : c.Plain) (hview : ViewOf env decl view sh) (hboxes : Boxes c env view)
    (hsh : sh.names.Nodup) (hv : IsRecord decl sh v) : BoxOf c decl v.boxed v where
  isNull := hv.isNull_boxed
  opens := notNull_opens hc hview hboxes hsh hv
  closes := asOptional_boxes hview hboxes hsh hv
  empty hfields := by
    cases hv with
    | empty _ => rfl
    | product hne _ => exact absurd hfields hne

/-- What stands in a tuple for a record that may be absent: nothing, or the parts of what its box
holds. -/
inductive StandsFor (c : Code) (P : Slice → Prop) (decl : TypeDecl) : Val → Val → Prop where
  | absent : StandsFor c P decl .null .null
  | present {v w : Val} {ts : List Val} : BoxOf c decl v w → Reverses c P decl w ts →
      StandsFor c P decl v (.tuple ts)

theorem StandsFor.toOptTuple (h : StandsFor c P decl v t) (hc : c.Plain) (hview : ViewOf env decl view sh)
    (htuples : Tuples c env view) (s : State) :
    Yields (call c (Name.toOptTuple decl.name) [v]) s t s := by
  obtain ⟨d, item, d', hrun, -, -, hget⟩ := htuples.toOptTuple
  simp only [RecordView.toOptTupleItem, RecordView.conversion, RecordView.name, hview.decl_eq, used,
    run_bind, run_modify, run_pure] at hrun
  obtain ⟨_, _, ⟨_, _, -, rfl, -⟩, _, _, ⟨_, _, -, rfl, -⟩, rfl, -⟩ := hrun
  have hhas : c.Has (Name.toOptTuple decl.name) ["v"] _ := ⟨_, hget _ (by simp), by simp⟩
  refine hhas.maps (fun u hu => exists_passNull hc hu ?_) s
  cases h with
  | absent => rfl
  | @present _ w _ hbox hreverses =>
    rw [hbox.isNull]
    have hw : Means c u (Target.call (Name.notNull decl.name) [Target.id "v"]) w :=
      (yields_call_means (.cons (means_id hu) .nil)).2 (hbox.opens u)
    exact (yields_call_means (.cons hw .nil)).2 (hreverses.toTuple u)

theorem StandsFor.fromOptTuple (h : StandsFor c P decl v t) (hc : c.Plain) (hview : ViewOf env decl view sh)
    (htuples : Tuples c env view) (s : State) :
    Yields (call c (Name.fromOptTuple decl.name) [t]) s v s := by
  obtain ⟨d, item, d', hrun, -, -, hget⟩ := htuples.fromOptTuple
  simp only [RecordView.fromOptTupleItem, RecordView.conversion, RecordView.name, hview.decl_eq, used,
    run_bind, run_modify, run_pure] at hrun
  obtain ⟨_, _, ⟨_, _, -, rfl, -⟩, _, _, ⟨_, _, -, rfl, -⟩, rfl, -⟩ := hrun
  have hhas : c.Has (Name.fromOptTuple decl.name) ["v"] _ := ⟨_, hget _ (by simp), by simp⟩
  refine hhas.maps (fun u hu => exists_passNull hc hu ?_) s
  cases h with
  | absent => rfl
  | @present _ w _ hbox hreverses =>
    have hw : Means c u (Target.call (Name.fromTuple decl.name) [Target.id "v"]) w :=
      (yields_call_means (.cons (means_id hu) .nil)).2 (hreverses.fromTuple u)
    exact (yields_call_means (.cons hw .nil)).2 (hbox.closes u)

/-- What callers from outside receive is what stands in a tuple. -/
theorem StandsFor.toOptExternal (h : StandsFor c P decl v t) (hc : c.Plain) (hview : ViewOf env decl view sh)
    (htuples : Tuples c env view) (s : State) :
    Yields (call c (Name.toOptExternal decl.name) [v]) s t s := by
  obtain ⟨d, item, d', hrun, -, -, hget⟩ := htuples.toOptExternal
  simp only [RecordView.toOptExternalItem, RecordView.conversion, RecordView.name, hview.decl_eq,
    used, run_bind, run_modify, run_pure] at hrun
  obtain ⟨_, _, ⟨_, _, -, rfl, -⟩, rfl, -⟩ := hrun
  have hhas : c.Has (Name.toOptExternal decl.name) ["v"] _ := ⟨_, hget _ (by simp), by simp⟩
  refine hhas.maps (fun u hu => exists_setAll_of_means ?_) s
  exact (yields_call_means (.cons (means_id hu) .nil)).2 (h.toOptTuple hc hview htuples u)

theorem StandsFor.fromOptExternal (h : StandsFor c P decl v t) (hc : c.Plain) (hview : ViewOf env decl view sh)
    (htuples : Tuples c env view) (hP : ∀ x, P x → IsStandard x.bits) (s : State) :
    Yields (call c (Name.fromOptExternal decl.name) [t]) s v s := by
  obtain ⟨d, item, d', hrun, hsound, hback, hget⟩ := htuples.fromOptExternal
  by_cases hfields : decl.fields = []
  · -- a record without fields is taken as it is
    simp only [RecordView.fromOptExternalItem, RecordView.conversion, RecordView.isEmpty,
      RecordView.name, hview.decl_eq, hfields, List.isEmpty_nil, if_true, run_bind, run_pure] at hrun
    obtain ⟨_, _, ⟨rfl, -⟩, rfl, -⟩ := hrun
    have hhas : c.Has (Name.fromOptExternal decl.name) ["v"] _ := ⟨_, hget _ (by simp), by simp⟩
    obtain rfl : v = t := by
      cases h with
      | absent => rfl
      | @present _ _ ts hbox hreverses =>
        obtain rfl : ts = [] := by simpa [hfields] using hreverses.length_eq
        exact hbox.empty hfields
    exact hhas.maps (fun u hu => exists_setAll_of_means (means_id hu)) s
  · have hnonempty : decl.fields.isEmpty = false := by simpa using hfields
    simp only [RecordView.fromOptExternalItem, RecordView.conversion, RecordView.isEmpty,
      RecordView.name, hview.decl_eq, hnonempty, Bool.false_eq_true, if_false, used, run_bind,
      run_modify, run_pure] at hrun
    obtain ⟨destroy, d₁, hhelper, _, _, ⟨_, _, rfl, rfl, rfl⟩, _, _, ⟨_, _, rfl, rfl, rfl⟩, _, _,
      ⟨rfl, rfl⟩, rfl, rfl⟩ := hrun
    obtain ⟨rfl, hlt, hhelps⟩ := helper_tupleDestroy hhelper hsound hback
    have hhas : c.Has (Name.fromOptExternal decl.name) ["v"] _ := ⟨_, hget _ (by simp), by simp⟩
    refine hhas.maps (fun u hu => exists_passNull hc hu ?_) s
    cases h with
    | absent => rfl
    | @present _ w ts hbox hreverses =>
      have hitems : Means c u (Target.call (Helper.tupleDestroyName decl.fields.length)
          [Target.id "v"]) (.tensor ts) := by
        rw [Means, yields_call_means (.cons (means_id hu) .nil), yields_asm hhelps]
        exact ⟨asm_untuple hlt hreverses.length_eq, rfl⟩
      have hfrom := hreverses.fromExternal hP u
      rw [TypeDecl.external, hnonempty, if_neg Bool.false_ne_true] at hfrom
      have hw : Means c u (Target.call (Name.fromExternal decl.name)
          [Target.call (Helper.tupleDestroyName decl.fields.length) [Target.id "v"]]) w :=
        (yields_call_means (.cons hitems .nil)).2 hfrom
      exact (yields_call_means (.cons hw .nil)).2 (hbox.closes u)

/-- The conversions of an optional record, in terms of those of the record. -/
theorem StandsFor.reversesOptional (h : StandsFor c P decl v t) (hc : c.Plain) (hview : ViewOf env decl view sh)
    (htuples : Tuples c env view) : ReversesOptional c P decl v t where
  isLeaf := by cases h <;> rfl
  toOptTuple := h.toOptTuple hc hview htuples
  fromOptTuple := h.fromOptTuple hc hview htuples
  toOptExternal := h.toOptExternal hc hview htuples
  fromOptExternal := h.fromOptExternal hc hview htuples

end Others

/-! ### All values -/

/-- A module that supports the records of a table. -/
structure Supporting (c : Code) (env : Env) : Prop where
  proper : c.Proper
  wellNamed : env.program.types.WellNamed
  separate : env.program.types.Separate
  supports : ∀ decl ∈ env.program.types.structs, Supports c env decl

/-- The value of a record has the form that boxing relies on. -/
theorem Machine.Inhabits.isRecord {name : String} {sh : Shape}
    (hdecl : table.types.get? name = some decl) (hstruct : decl.isStruct = true)
    (hsh : Layout.shape table (.plain name) "v" = .ok sh)
    (hv : Inhabits table P (.named name false) v) : IsRecord decl sh v := by
  have hfits := hv.fits hsh
  cases hv with
  | address hget hkind _ | scalar hget hkind _ _ =>
    obtain rfl : decl = _ := by simpa [hdecl] using hget
    simp [primitive?_of_isStruct hstruct] at hkind
  | empty hget _ hfields =>
    obtain rfl : decl = _ := by simpa [hdecl] using hget
    exact .empty hfields
  | record hget _ hfields _ _ =>
    obtain rfl : decl = _ := by simpa [hdecl] using hget
    exact .product hfields hfits

/-- What passes for a record is taken to its tuple and back. -/
theorem Passes.reverses (hdecl : table.types.get? decl.name = some decl)
    (hstruct : decl.isStruct = true) (h : Passes c table P (.named decl.name false) v t) :
    ∃ ts, t = .tuple ts ∧ Reverses c P decl v ts := by
  generalize hty : TypeRef.named decl.name false = ty at h
  cases h with
  | scalar hget hkind _ _ =>
    cases hty
    obtain rfl : decl = _ := by simpa [hdecl] using hget
    simp [primitive?_of_isStruct hstruct] at hkind
  | @record inner _ ts hget _ hreverses =>
    simp only [TypeRef.named.injEq, and_true] at hty
    rw [← hty, hdecl] at hget
    obtain rfl : decl = inner := by simpa using hget
    exact ⟨ts, rfl, hreverses⟩
  | map _ => cases hty
  | optional _ _ _ => simp at hty

theorem Passes.reversesOptional (hdecl : table.types.get? decl.name = some decl)
    (hstruct : decl.isStruct = true) (h : Passes c table P (.named decl.name true) v t) :
    ReversesOptional c P decl v t := by
  generalize hty : TypeRef.named decl.name true = ty at h
  cases h with
  | scalar hget hkind _ _ =>
    cases hty
    obtain rfl : decl = _ := by simpa [hdecl] using hget
    simp [primitive?_of_isStruct hstruct] at hkind
  | @optional inner _ _ hget _ hreverses =>
    simp only [TypeRef.named.injEq, and_true] at hty
    rw [← hty, hdecl] at hget
    obtain rfl : decl = inner := by simpa using hget
    exact hreverses
  | map _ => cases hty
  | record _ _ _ => simp at hty

/-- What a module runs for a record. -/
theorem Supporting.conversions (h : Supporting c env) {name : String}
    (hdecl : env.program.types.types.get? name = some decl) (hstruct : decl.isStruct = true) :
    decl.name = name ∧ ∃ view sh, ViewOf env decl view sh ∧ Boxes c env view ∧ Tuples c env view ∧
      sh.names.Nodup := by
  have hmem := Dict.mem_values_of_get? hdecl
  obtain ⟨view, sh, hview, hboxes, htuples⟩ :=
    (h.supports decl (TypeTable.mem_structs.2 ⟨hmem, hstruct⟩)).conversions
  exact ⟨h.wellNamed.name_eq hdecl, view, sh, hview, hboxes, htuples,
    (Layout.shapeWithin_distinct h.separate hview.shape_eq).nodup⟩

/-- **All values pass.** -/
theorem Supporting.passes (h : Supporting c env) (hv : Inhabits env.program.types P ty v) :
    ∃ t, Passes c env.program.types P ty v t := by
  induction hv with
  | @address name optional decl x hdecl hkind hx =>
    exact ⟨_, .scalar hdecl hkind rfl fun _ => .inr ⟨x, rfl, hx⟩⟩
  | scalar hdecl hkind hne hleaf => exact ⟨_, .scalar hdecl hkind hleaf fun heq => absurd heq hne⟩
  | map hleaf => exact ⟨_, .map hleaf⟩
  | @empty name decl hdecl hstruct hfields =>
    obtain ⟨rfl, view, sh, hview, -, htuples, -⟩ := h.conversions hdecl hstruct
    exact ⟨_, .record hdecl hstruct (reverses_empty hview htuples hfields)⟩
  | @record name decl vs hdecl hstruct hfields hlength hvs ih =>
    obtain ⟨rfl, view, sh, hview, -, htuples, hnodup⟩ := h.conversions hdecl hstruct
    have hfits := (Inhabits.record hdecl hstruct hfields hlength hvs).fits hview.shape_eq
    obtain ⟨rows, hrows, rfl, hpasses⟩ :=
      exists_rows (R := fun f v t => Passes c env.program.types P f.ty v t) hlength ih
    have hlaid : Laid c env P decl view sh rows := ⟨hview, htuples, hdecl, hstruct,
      h.separate decl (Dict.mem_values_of_get? hdecl), hnodup, hrows, hfields, hfits, hpasses⟩
    exact ⟨_, .record hdecl hstruct (hlaid.reverses h.proper.plain)⟩
  | @absent name decl hdecl hcontract =>
    cases hkind : decl.primitive? with
    | some kind => exact ⟨_, .scalar hdecl hkind rfl fun _ => .inl ⟨rfl, rfl⟩⟩
    | none =>
      have hstruct : decl.isStruct = true := by
        have hlike := TypeDecl.primitive?_eq_none_iff.1 hkind
        cases hstruct : decl.isStruct with
        | true => rfl
        | false => simp [TypeDecl.isContract_of_isStructLike hlike hstruct] at hcontract
      obtain ⟨rfl, view, sh, hview, -, htuples, -⟩ := h.conversions hdecl hstruct
      exact ⟨_, .optional hdecl hstruct
        (StandsFor.absent.reversesOptional h.proper.plain hview htuples)⟩
  | @present name decl v hdecl hstruct hv ih =>
    obtain ⟨rfl, view, sh, hview, hboxes, htuples, hnodup⟩ := h.conversions hdecl hstruct
    have hbox := (hv.isRecord hdecl hstruct hview.shape_eq).boxOf h.proper.plain hview hboxes hnodup
    obtain ⟨t, ht⟩ := ih
    obtain ⟨ts, rfl, hreverses⟩ := ht.reverses hdecl hstruct
    exact ⟨_, .optional hdecl hstruct
      ((StandsFor.present hbox hreverses).reversesOptional h.proper.plain hview htuples)⟩

/-- A basechain address. -/
def depot : Slice := (Cell.mk (Bits.ofNat 11 1024 ++ List.replicate 256 true) []).parse

end CellCompiler
