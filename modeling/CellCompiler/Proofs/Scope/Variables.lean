import CellCompiler.Proofs.Generate.Composition
import CellCompiler.Proofs.Layout.Views
import CellCompiler.Proofs.Scope.Source
import CellCompiler.Proofs.Target.Scope

/-!
# Variables that are there

A variable of the source is there in the code as the variables of its shape. Code is made up of
patterns of such variables, at the binding of a variable as well as at its uses.

* `Layout.AvailableIn`: all variables of a type under a name are among given ones;
* `AvailableIn.field` goes from a record to its fields;
* `Env.Visible`: the variables in scope are available, and `Env.Visible.path` follows a path;
* `lower_reads` is the result for expressions: their code reads only what is visible.
-/

namespace CellCompiler

open Target

theorem TypeTable.mem_recordFields {table : TypeTable} {name : String} {cut : Bool} {field : Field} :
    field ∈ table.recordFields name cut ↔ ∃ decl, table.types.get? name = some decl ∧
      decl.isStructLike = true ∧ field ∈ Layout.visibleFields decl cut := by
  unfold recordFields
  split
  · next decl hdecl => simp [hdecl]
  · next hdecl => simp [hdecl]

namespace Layout

variable {table : TypeTable} {ty : TypeRef} {name : String} {bound more : List String}

/-! ### Shapes -/

mutual

/-- What a pattern binds is what it reads. -/
theorem Shape.reads_pattern : (sh : Shape) → sh.pattern.reads = sh.names
  | .leaf _ _ => by simp [pattern]
  | .product parts => by simp [pattern, reads_patterns parts]

theorem Shape.reads_patterns : (parts : List Shape) → readsOf (Shape.patterns parts) = Shape.namesOf parts
  | [] => by simp [patterns]
  | sh :: parts => by simp [patterns, reads_pattern sh, reads_patterns parts]

end

mutual

/-- Absent values read nothing. -/
theorem Shape.within_nulls : (sh : Shape) → sh.nulls.Within bound
  | .leaf _ l => by cases l <;> simp [nulls, Leaf.nulls]
  | .product parts => by simpa [nulls] using within_nullsOf parts

theorem Shape.within_nullsOf : (parts : List Shape) → ∀ e ∈ nullsOf parts, e.Within bound
  | [] => by simp [nullsOf]
  | sh :: parts => List.forall_mem_cons.2 ⟨within_nulls sh, within_nullsOf parts⟩

end

theorem Shape.within_pattern {sh : Shape} : sh.pattern.Within bound ↔ sh.names ⊆ bound := by
  rw [Target.Expr.Within, Shape.reads_pattern]
  rfl

theorem declBy_leaf {shapeOf : TypeRef → String → Except CompileError Shape} {decl : TypeDecl}
    {optional bounced : Bool} {x : String} {l : Leaf}
    (h : declBy shapeOf decl optional bounced name = .ok (.leaf x l)) : x = name := by
  rw [declBy_eq_ok] at h
  split at h
  · exact (Shape.leaf.inj h).1
  · split at h
    · exact (Shape.leaf.inj h).1
    · obtain ⟨-, hleaf⟩ | ⟨-, parts, hproduct, -⟩ := recordBy_eq_ok.1 h
      · exact (Shape.leaf.inj hleaf).1
      · cases hproduct

/-- What is not split into fields is in the variable itself. -/
theorem shapeWithin_leaf {fuel : Nat} {mode : Mode} {x : String} {l : Leaf}
    (h : shapeWithin table fuel mode ty name = .ok (.leaf x l)) : x = name := by
  cases ty with
  | named type optional =>
    cases fuel with
    | zero => simp [shapeWithin] at h
    | succ fuel =>
      obtain ⟨decl, -, h⟩ := shapeWithin_named.1 h
      exact declBy_leaf h
  | bounced type =>
    cases fuel with
    | zero => simp [shapeWithin] at h
    | succ fuel =>
      obtain ⟨decl, -, h⟩ := shapeWithin_bounced.1 h
      exact declBy_leaf h
  | _ =>
    obtain ⟨rfl, -⟩ : name = x ∧ _ := by simpa [shapeWithin] using h
    rfl

theorem names_of_not_isProduct {sh : Shape} (h : shape table ty name = .ok sh)
    (hleaf : sh.isProduct = false) : sh.names = [name] := by
  have hproper := shapeWithin_proper h
  cases sh with
  | leaf x l => rw [Shape.names_leaf, shapeWithin_leaf h]
  | product parts =>
    cases parts with
    | nil => exact absurd rfl hproper.1
    | cons => cases hleaf

theorem Shape.isProduct_bare (sh : Shape) : sh.bare.isProduct = sh.isProduct := by
  cases sh with
  | leaf => rfl
  | product parts => cases parts <;> rfl

/-- The variable does not matter for whether there is a shape. -/
theorem exists_shape {sh : Shape} (h : shape table ty name = .ok sh) (other : String) :
    ∃ sh', shape table ty other = .ok sh' ∧ sh'.isProduct = sh.isProduct := by
  have hbare : Shape.bare <$> shape table ty other = .ok sh.bare := by
    have hsame : Shape.bare <$> shape table ty other = Shape.bare <$> shape table ty name :=
      sameBare_shapeWithin
    rw [hsame, h]
    rfl
  obtain ⟨sh', hsh', hbare⟩ := Except.map_eq_ok.1 hbare
  exact ⟨sh', hsh', by rw [← Shape.isProduct_bare, hbare, Shape.isProduct_bare]⟩

/-- The variables of a field are among those of its record. -/
theorem exists_part {shapeOf : TypeRef → String → Except CompileError Shape}
    {fields : List (String × TypeRef)} {sh : Shape} (h : recordBy shapeOf name fields = .ok sh)
    {field : String × TypeRef} (hfield : field ∈ fields) :
    sh.isProduct = true ∧ ∃ part, shapeOf field.2 (Name.tick name field.1) = .ok part ∧
      part.names ⊆ sh.names := by
  obtain ⟨rfl, -⟩ | ⟨-, parts, rfl, hparts⟩ := recordBy_eq_ok.1 h
  · cases hfield
  · clear h
    refine ⟨?_, ?_⟩
    · cases hparts with
      | nil => cases hfield
      | cons => rfl
    · rw [Shape.names_product]
      induction hparts with
      | nil => cases hfield
      | @cons _ part _ parts hpart _ ih =>
        rw [Shape.namesOf_cons]
        obtain rfl | hfield := List.mem_cons.1 hfield
        · exact ⟨part, hpart, List.subset_append_left _ _⟩
        · obtain ⟨part, hpart, hnames⟩ := ih hfield
          exact ⟨part, hpart, List.subset_append_of_subset_right _ hnames⟩

/-! ### Available variables -/

/-- All variables of a type under a name are among the given ones. -/
def AvailableIn (table : TypeTable) (ty : TypeRef) (name : String) (bound : List String) : Prop :=
  ∃ sh, shape table ty name = .ok sh ∧ sh.names ⊆ bound

namespace AvailableIn

theorem mono (h : AvailableIn table ty name bound) (hmore : bound ⊆ more) : AvailableIn table ty name more :=
  h.imp fun _ ⟨hsh, hnames⟩ => ⟨hsh, List.Subset.trans hnames hmore⟩

/-- The pattern of an available variable can be read. -/
theorem within (h : AvailableIn table ty name bound) {pattern : Target.Expr}
    (hpattern : unpack table ty name = .ok pattern) : pattern.Within bound := by
  obtain ⟨sh, hsh, hnames⟩ := h
  obtain ⟨sh', hsh', rfl⟩ := Except.map_eq_ok.1 hpattern
  obtain rfl : sh = sh' := Except.ok.inj (hsh.symm.trans hsh')
  exact Shape.within_pattern.2 hnames

/-- What a pattern binds is available. -/
theorem of_unpack {pattern : Target.Expr} (hpattern : unpack table ty name = .ok pattern)
    (hbound : pattern.boundNames ⊆ bound) : AvailableIn table ty name bound := by
  obtain ⟨sh, hsh, rfl⟩ := Except.map_eq_ok.1 hpattern
  exact ⟨sh, hsh, Shape.boundNames_pattern sh ▸ hbound⟩

/-- A variable that is not split into fields is available as it is. -/
theorem of_not_isUnpacked (h : isUnpacked table ty = .ok false) (hname : name ∈ bound) :
    AvailableIn table ty name bound := by
  obtain ⟨sh, hsh, hleaf⟩ := Except.map_eq_ok.1 h
  obtain ⟨sh', hsh', hproduct⟩ := exists_shape hsh name
  have hnames := names_of_not_isProduct hsh' (hproduct.trans hleaf)
  exact ⟨sh', hsh', by simpa [hnames] using hname⟩

/-- Built-in types are not split into fields. -/
theorem of_primitive {type : String} {decl : TypeDecl} {kind : PrimitiveKind} (hname : name ∈ bound)
    (hdecl : table.types.get? type = some decl) (hkind : decl.primitive? = some kind) :
    AvailableIn table (.plain type) name bound := by
  have hshape : shape table (.plain type) name = .ok (.leaf name (.scalar kind)) :=
    shapeWithin_named.2 ⟨decl, hdecl, by rw [declBy_eq_ok, hkind]⟩
  exact ⟨_, hshape, by simpa using hname⟩

/-- An optional value is in a single variable. -/
theorem mem_of_isOptional (h : AvailableIn table ty name bound) (hoptional : ty.isOptional = true) :
    name ∈ bound := by
  obtain ⟨sh, hsh, hnames⟩ := h
  cases ty with
  | named type optional =>
    obtain rfl : optional = true := hoptional
    obtain ⟨decl, -, hsh⟩ := shapeWithin_named.1 hsh
    rw [declBy_eq_ok] at hsh
    have hleaf : ∃ l, sh = .leaf name l := by
      split at hsh
      · exact ⟨_, hsh⟩
      · exact ⟨_, hsh⟩
    obtain ⟨l, rfl⟩ := hleaf
    simpa using hnames
  | _ => cases hoptional

/-- The fields of an available record are available. -/
theorem of_record {fields : List (String × TypeRef)} {sh : Shape}
    (h : record table fields name = .ok sh) (hnames : sh.names ⊆ bound) {field : String × TypeRef}
    (hfield : field ∈ fields) : AvailableIn table field.2 (Name.tick name field.1) bound := by
  obtain ⟨-, part, hpart, hsub⟩ := exists_part h hfield
  exact ⟨part, hpart, List.Subset.trans hsub hnames⟩

/-- The variables of a record are those of its fields. -/
theorem names_subset {fields : List (String × TypeRef)} {sh : Shape}
    (h : record table fields name = .ok sh) (hproduct : sh.isProduct = true)
    (hfields : ∀ f ∈ fields, AvailableIn table f.2 (Name.tick name f.1) bound) : sh.names ⊆ bound := by
  obtain ⟨-, rfl⟩ | ⟨-, parts, rfl, hparts⟩ := recordBy_eq_ok.1 h
  · cases hproduct
  · rw [Shape.names_product]
    clear h hproduct
    induction hparts with
    | nil => simp
    | @cons f part fields parts hpart _ ih =>
      obtain ⟨⟨sh, hsh, hnames⟩, hrest⟩ := List.forall_mem_cons.1 hfields
      obtain rfl : part = sh := Except.ok.inj (hpart.symm.trans hsh)
      rw [Shape.namesOf_cons]
      exact List.append_subset.2 ⟨hnames, ih hrest⟩

/-- The fields of an available variable are available. -/
theorem field (h : AvailableIn table ty name bound) {field : Field} (hfield : field ∈ table.fieldsOf ty) :
    AvailableIn table field.ty (Name.tick name field.name) bound := by
  obtain ⟨sh, hsh, hnames⟩ := h
  have hrecord : ∀ {type : String} {cut : Bool}, field ∈ table.recordFields type cut →
      (∃ decl, table.types.get? type = some decl ∧
        declBy (shapeWithin table (2 * table.types.size + 1) {}) decl false cut name = .ok sh) →
      AvailableIn table field.ty (Name.tick name field.name) bound := by
    rintro type cut hfield ⟨decl, hdecl, hsh⟩
    obtain ⟨decl', hdecl', hlike, hfield⟩ := TypeTable.mem_recordFields.1 hfield
    obtain rfl : decl = decl' := Option.some.inj (hdecl.symm.trans hdecl')
    rw [declBy_eq_ok, TypeDecl.primitive?_eq_none_iff.2 hlike] at hsh
    obtain ⟨-, part, hpart, hsub⟩ := exists_part hsh (List.mem_map_of_mem hfield)
    exact ⟨part, shapeWithin_mono (Nat.le_succ _) hpart, List.Subset.trans hsub hnames⟩
  cases ty with
  | named type optional =>
    cases optional with
    | true => cases hfield
    | false => exact hrecord hfield (shapeWithin_named.1 hsh)
  | bounced type => exact hrecord hfield (shapeWithin_bounced.1 hsh)
  | _ => cases hfield

end AvailableIn

end Layout

namespace Generate

open Layout (AvailableIn)

variable {env : Env} {n : Nat} {granted : Prop} {vars more : Vars} {bound names : List String} {s : Scope}
  {ty : TypeRef}

/-! ### Variables in scope -/

/-- All variables in scope are available, and the cell of known codes if it is declared. -/
structure Env.Visible (env : Env) (granted : Prop) (vars : Vars) (bound : List String) : Prop where
  available : ∀ v ∈ vars, AvailableIn env.program.types v.2 (Name.var v.1) bound
  context : granted → Helper.contextSys ∈ bound

theorem Env.Visible.mono (h : env.Visible granted vars bound) (hnames : bound ⊆ names) :
    env.Visible granted vars names :=
  ⟨fun v hv => (h.available v hv).mono hnames, fun hgranted => hnames (h.context hgranted)⟩

theorem Env.Visible.append (h : env.Visible granted vars bound)
    (hmore : ∀ v ∈ more, AvailableIn env.program.types v.2 (Name.var v.1) bound) :
    env.Visible granted (vars ++ more) bound :=
  ⟨List.forall_mem_append.2 ⟨h.available, hmore⟩, h.context⟩

/-- A path has segments. -/
theorem exists_of_path {e : Expr} {segments : List String} (h : e.path = some segments) :
    ∃ root fields, segments = root :: fields := by
  cases e with
  | ident info name => exact ⟨name, [], (Option.some.inj h).symm⟩
  | field info target name =>
    obtain ⟨inner, -, rfl⟩ := Option.map_eq_some_iff.1 h
    cases inner with
    | nil => exact ⟨name, [], rfl⟩
    | cons root fields => exact ⟨root, fields ++ [name], rfl⟩
  | _ => cases h

/-- A path leads to available variables if the one that it starts at is available. -/
theorem Env.Visible.path (h : env.Visible granted vars bound) {e : Expr} {segments : List String}
    (hresolved : e.Scoped env.program.types vars) (hroot : e.Rooted vars)
    (hsegments : e.path = some segments) :
    AvailableIn env.program.types e.ty (Name.path segments) bound := by
  induction e using Expr.path.induct generalizing segments with
  | case1 info name =>
    obtain rfl : [name] = segments := Option.some.inj hsegments
    exact h.available (name, info.ty) hroot
  | case2 info target field ih =>
    obtain ⟨⟨f, hf, rfl, hty⟩, htarget⟩ := List.forall_mem_cons.1 hresolved
    obtain ⟨inner, hinner, rfl⟩ := Option.map_eq_some_iff.1 hsegments
    have hpath := (ih htarget hroot hinner).field hf
    obtain ⟨root, fields, rfl⟩ := exists_of_path hinner
    have hname : Name.path (root :: fields ++ [f.name]) = Name.tick (Name.path (root :: fields)) f.name := by
      simp [Name.path]
    rw [hname]
    have hshow : (Expr.field info target f.name).ty = f.ty := hty.symm
    rwa [hshow]
  | case3 e hident hfield =>
    cases e with
    | ident => exact absurd rfl (hident _ _)
    | field => exact absurd rfl (hfield _ _ _)
    | _ => cases hsegments

/-! ### Expressions -/

theorem hereditary_within : Hereditary (Target.Expr.Within bound) where
  operand _ h := h
  int _ := Target.Expr.within_int
  bool _ := Target.Expr.within_bool
  call _ _ h := Target.Expr.within_call.2 h
  method _ _ _ hreceiver hargs := Target.Expr.within_methodCall.2 ⟨hreceiver, hargs⟩
  ternary _ _ _ hc ht hf := Target.Expr.within_ternary.2 ⟨hc, ht, hf⟩
  binary _ _ _ hl hr := Target.Expr.within_binary.2 ⟨hl, hr⟩
  unary _ _ h := Target.Expr.within_unary.2 h
  tensor _ h := Target.Expr.within_tensor.2 h

/-- Wherever what is bound is as required, the code reads only what is bound. -/
def ReadsUnder (required : List String → Prop) (e : Target.Expr) : Prop :=
  ∀ bound, required bound → e.Within bound

theorem hereditary_readsUnder {required : List String → Prop} : Hereditary (ReadsUnder required) where
  operand _ h := h
  int v _ _ := hereditary_within.int v
  bool b _ _ := hereditary_within.bool b
  call name args h bound hb := hereditary_within.call name args fun e he => h e he bound hb
  method receiver name args hreceiver hargs bound hb :=
    hereditary_within.method receiver name args (hreceiver bound hb) fun e he => hargs e he bound hb
  ternary c t f hc ht hf bound hb := hereditary_within.ternary c t f (hc bound hb) (ht bound hb) (hf bound hb)
  binary op l r hl hr bound hb := hereditary_within.binary op l r (hl bound hb) (hr bound hb)
  unary op e h bound hb := hereditary_within.unary op e (h bound hb)
  tensor items h bound hb := hereditary_within.tensor items fun e he => h e he bound hb

/-- The code reads only what is visible. -/
abbrev ReadsVisible (env : Env) (granted : Prop) (vars : Vars) (e : Target.Expr) : Prop :=
  ReadsUnder (env.Visible granted vars) e

/-- `self` is in scope, if there is one. -/
def Scope.Sees (s : Scope) (vars : Vars) : Prop := ∀ ty ∈ s.selfType, ("self", ty) ∈ vars

theorem Scope.Sees.append (h : s.Sees vars) : s.Sees (vars ++ more) :=
  fun ty hty => List.mem_append_left _ (h ty hty)

theorem Scope.Sees.patterned (h : s.Sees vars) :
    ∀ ty ∈ s.selfType, env.Patterned (ReadsVisible env granted vars) ty Name.self :=
  fun ty hty _ hpattern _ hb => (hb.available _ (h ty hty)).within hpattern

/-- The variables at a path can be read, if the path is in scope and starts at a variable. -/
theorem patterned_path {e : Expr} {segments : List String} (hresolved : e.Scoped env.program.types vars)
    (hroot : e.Rooted vars) (hsegments : e.path = some segments) :
    env.Patterned (ReadsVisible env granted vars) e.ty (Name.path segments) :=
  fun _ hpattern _ hb => (hb.path hresolved hroot hsegments).within hpattern

/-- A path in scope starts at a variable or a constant. -/
theorem rooted_of_path {e : Expr} {root : String} {fields : List String}
    (hresolved : e.Scoped env.program.types vars) (hpath : e.path = some (root :: fields))
    (hroot : env.program.types.constants.contains root = false) : e.Rooted vars := by
  induction e using Expr.path.induct generalizing fields with
  | case1 info name =>
    obtain ⟨rfl, -⟩ := List.cons.inj (Option.some.inj hpath)
    have hident : _ ∨ _ := hresolved _ (Expr.mem_parts _)
    exact hident.resolve_right (by simp [hroot])
  | case2 info target field ih =>
    obtain ⟨inner, hinner, heq⟩ := Option.map_eq_some_iff.1 hpath
    obtain ⟨root', fields', rfl⟩ := exists_of_path hinner
    obtain ⟨rfl, -⟩ := List.cons.inj heq
    exact ih (List.forall_mem_cons.1 hresolved).2 hinner
  | case3 e hident hfield =>
    cases e with
    | ident => exact absurd rfl (hident _ _)
    | field => exact absurd rfl (hfield _ _ _)
    | _ => cases hpath

theorem grants_reads (hself : s.Sees vars) {e part : Expr} (hresolved : e.Scoped env.program.types vars)
    (hpart : part ∈ e.parts) : env.Grants granted s (ReadsVisible env granted vars) part := by
  have hscoped : part.Scoped env.program.types vars := hresolved.part hpart
  constructor
  case self => exact fun _ _ _ _ => hself.patterned
  case ident =>
    rintro info name rfl - hconstant
    exact patterned_path hscoped (rooted_of_path hscoped rfl hconstant) rfl
  case field =>
    rintro info target name root fields rfl hpath hconstant
    exact patterned_path hscoped (rooted_of_path hscoped hpath hconstant) hpath
  case receiver =>
    rintro info receiver name args rfl hmutates segments hsegments pattern hpattern callee codes hcodes
    intro bound hb
    have hroot : receiver.Rooted vars := hscoped _ (Expr.mem_parts _) hmutates
    have hreceiver : receiver.Scoped env.program.types vars := fun p hp =>
      hscoped p (by simp [Expr.parts, hp])
    exact within_modify.2 ⟨patterned_path hreceiver hroot hsegments pattern hpattern bound hb,
      fun e he => hcodes e he bound hb⟩
  case deployment =>
    rintro info contract args rfl hgranted bound hb
    exact within_id.2 (hb.context hgranted)

/-- **Lowered expressions read only what is visible.** -/
theorem lower_reads (hself : s.Sees vars) {e : Expr} (he : e.Scoped env.program.types vars) :
    Has env n granted (ReadsVisible env granted vars) (lower s e) :=
  lower_has hereditary_readsUnder s e fun _ => grants_reads hself he

theorem lowerCast_reads (hself : s.Sees vars) {e : Expr} (he : e.Scoped env.program.types vars) :
    Has env n granted (ReadsVisible env granted vars) (lowerCast s e ty) :=
  lowerCast_has hereditary_readsUnder fun _ => grants_reads hself he

theorem returned_reads (hself : s.Sees vars) {value : Option Target.Expr} :
    Has env n granted
      (fun e => (∀ v ∈ value, ReadsVisible env granted vars v) → ReadsVisible env granted vars e)
      (s.returned value) :=
  returned_has hereditary_readsUnder hself.patterned

theorem lvalue_reads {path : Expr} (hpath : path.Assignable env.program.types vars) :
    Has env n granted (ReadsVisible env granted vars) (lvalue path) :=
  lvalue_has fun _ => patterned_path hpath.resolved hpath.rooted

end Generate

end CellCompiler
