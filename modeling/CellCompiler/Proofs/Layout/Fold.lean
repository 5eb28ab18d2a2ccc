import CellCompiler.Proofs.Layout.Existence
import CellCompiler.Proofs.Plan.Acceptance

/-!
# Walks over the layout of a type

The views of a type come from one walk down its fields, which calls a visitor at every leaf and after
the parts of every product. The walk has no check for cycles of its own: where a record holds itself
in place, it does not end.

* `Layout.Visitor` is what is called on the way; it may keep a state of its own.
* `Layout.foldWithin` is the walk with at most so many calls nested in the outermost one. It fails
  with `endless` where it would go deeper;
* `Layout.Below` says that two walks agree unless the first goes too deep; more depth gives the same
  (`Layout.foldWithin_below`), and a visitor without state computes a view of the tree
  (`Layout.foldWithin_views`);
* `TypeTable.exists_ranked` ranks the records of a table that has been planned, by at most their
  number, and a walk is nested no deeper than the rank (`Layout.foldDecl_delivers`);
* `planned_layouts_end` is the main result.
-/

namespace CellCompiler

open Relation (TransGen)

namespace Layout

variable {σ α : Type}

/-! ### The walk -/

/-- What is done at a leaf, and with the results for the parts of a product. -/
structure Visitor (σ α : Type) where
  leaf : (path : String) → Leaf → StateM σ α
  product : (path : String) → List α → StateM σ α

/-- A computation that can fail, and that leaves a state in either case. -/
abbrev Walk (σ α : Type) := ExceptT CompileError (StateM σ) α

/-- A walk over the fields of a record, given how to walk over a field. -/
def foldFields (visitor : Visitor σ α) (recurse : TypeRef → String → Walk σ α) (path : String)
    (fields : List (String × TypeRef)) : Walk σ α :=
  match fields with
  | [] => ExceptT.lift (visitor.leaf path .boxed)
  | fields => do
    let parts ← fields.mapM fun field => recurse field.2 (Name.tick path field.1)
    ExceptT.lift (visitor.product path parts)

/-- A walk over a declared type. -/
def foldDecl (visitor : Visitor σ α) (recurse : TypeRef → String → Walk σ α) (decl : TypeDecl)
    (optional bounced : Bool) (path : String) : Walk σ α :=
  match decl.kind with
  | .primitive kind => ExceptT.lift (visitor.leaf path (.scalar kind))
  | .struct | .contract =>
    if optional then ExceptT.lift (visitor.leaf path .boxed)
    else foldFields visitor recurse path ((visibleFields decl bounced).map fun f => (f.name, f.ty))

/-- A walk over a type, given how to walk over the types of fields. -/
def foldBy (table : TypeTable) (visitor : Visitor σ α) (recurse : TypeRef → String → Walk σ α)
    (mode : Mode) (ty : TypeRef) (path : String) : Walk σ α :=
  match ty with
  | .void => ExceptT.lift (visitor.leaf path .void)
  | .null => ExceptT.lift (visitor.leaf path .null)
  | .map .. => ExceptT.lift (visitor.leaf path .map)
  | .named name optional => do
    let decl ← ExceptT.mk (pure (declOf table name))
    foldDecl visitor recurse decl (mode.optional.getD optional) mode.bounced path
  | .bounced name => do
    let decl ← ExceptT.mk (pure (declOf table name))
    foldDecl visitor recurse decl (mode.optional.getD false) true path

/-- The calls on the way, of which at most `depth` may be nested. -/
def callsWithin (table : TypeTable) (visitor : Visitor σ α) :
    (depth : Nat) → TypeRef → (path : String) → Walk σ α
  | 0, _, _ => throw .endless
  | depth + 1, ty, path => foldBy table visitor (callsWithin table visitor depth) {} ty path

/-- A walk over a type with at most `depth` calls nested in this one. -/
def foldWithin (table : TypeTable) (visitor : Visitor σ α) (depth : Nat) (mode : Mode) (ty : TypeRef)
    (path : String) : Walk σ α :=
  foldBy table visitor (callsWithin table visitor depth) mode ty path

/-- How the walk ends from a state, and the state that it leaves. -/
def outcome (x : Walk σ α) (s : σ) : Except CompileError α × σ := (ExceptT.run x).run s

section Outcome

variable {β : Type}

@[simp] theorem outcome_lift (m : StateM σ α) (s : σ) :
    outcome (ExceptT.lift m) s = (.ok (m.run s).1, (m.run s).2) := rfl

@[simp] theorem outcome_throw (e : CompileError) (s : σ) :
    outcome (throw e : Walk σ α) s = (.error e, s) := rfl

@[simp] theorem outcome_pure (a : α) (s : σ) : outcome (pure a : Walk σ α) s = (.ok a, s) := rfl

@[simp] theorem outcome_mk (result : Except CompileError α) (s : σ) :
    outcome (ExceptT.mk (pure result) : Walk σ α) s = (result, s) := rfl

theorem outcome_bind (x : Walk σ α) (f : α → Walk σ β) (s : σ) :
    outcome (x >>= f) s = match outcome x s with
      | (.ok a, s') => outcome (f a) s'
      | (.error e, s') => (.error e, s') := by
  change (ExceptT.run x >>= ExceptT.bindCont f).run s = _
  rw [StateT.run_bind]
  unfold outcome
  generalize (ExceptT.run x).run s = result
  obtain ⟨_ | _, _⟩ := result <;> rfl

end Outcome

/-! ### Walks that agree -/

/-- The walks end alike, unless the first goes too deep. -/
def Below (x y : Walk σ α) : Prop :=
  ∀ s, (outcome x s).1 = .error .endless ∨ outcome x s = outcome y s

namespace Below

variable {β : Type} {x y : Walk σ α} {recurse more : TypeRef → String → Walk σ α}

theorem refl (x : Walk σ α) : Below x x := fun _ => .inr rfl

theorem endless (y : Walk σ α) : Below (throw .endless) y := fun _ => .inl rfl

theorem bind {f g : α → Walk σ β} (h : Below x y) (hf : ∀ a, Below (f a) (g a)) :
    Below (x >>= f) (y >>= g) := by
  intro s
  rw [outcome_bind, outcome_bind]
  obtain hendless | heq := h s
  · generalize outcome x s = result at hendless
    obtain ⟨result, s'⟩ := result
    obtain rfl : result = .error .endless := hendless
    exact .inl rfl
  · rw [← heq]
    generalize outcome x s = result
    obtain ⟨e | a, s'⟩ := result
    · exact .inr rfl
    · exact hf a s'

theorem mapM {γ : Type} {f g : γ → Walk σ α} (h : ∀ c, Below (f c) (g c)) (cs : List γ) :
    Below (cs.mapM f) (cs.mapM g) := by
  induction cs with
  | nil => exact refl _
  | cons c cs ih =>
    rw [List.mapM_cons, List.mapM_cons]
    exact (h c).bind fun _ => ih.bind fun _ => refl _

variable (h : ∀ ty path, Below (recurse ty path) (more ty path))

include h

theorem foldFields (visitor : Visitor σ α) (path : String) (fields : List (String × TypeRef)) :
    Below (foldFields visitor recurse path fields) (foldFields visitor more path fields) := by
  cases fields with
  | nil => exact refl _
  | cons field fields => exact (mapM (fun _ => h _ _) _).bind fun _ => refl _

theorem foldDecl (visitor : Visitor σ α) (decl : TypeDecl) (optional bounced : Bool) (path : String) :
    Below (foldDecl visitor recurse decl optional bounced path)
      (foldDecl visitor more decl optional bounced path) := by
  unfold Layout.foldDecl
  cases decl.kind with
  | primitive kind => exact refl _
  | struct | contract =>
    cases optional with
    | true => exact refl _
    | false => exact foldFields h visitor path _

theorem foldBy (table : TypeTable) (visitor : Visitor σ α) (mode : Mode) (ty : TypeRef)
    (path : String) :
    Below (foldBy table visitor recurse mode ty path) (foldBy table visitor more mode ty path) := by
  cases ty with
  | named | bounced => exact (refl _).bind fun decl => foldDecl h visitor decl _ _ path
  | _ => exact refl _

end Below

section Depth

variable {table : TypeTable} {visitor : Visitor σ α} {m n : Nat}

theorem callsWithin_below (hmn : m ≤ n) (ty : TypeRef) (path : String) :
    Below (callsWithin table visitor m ty path) (callsWithin table visitor n ty path) := by
  induction m generalizing n ty path with
  | zero => exact .endless _
  | succ m ih =>
    obtain ⟨n, rfl⟩ : ∃ k, n = k + 1 := ⟨n - 1, by omega⟩
    exact .foldBy (ih (by omega)) table visitor {} ty path

/-- More depth gives the same. -/
theorem foldWithin_below (hmn : m ≤ n) (mode : Mode) (ty : TypeRef) (path : String) :
    Below (foldWithin table visitor m mode ty path) (foldWithin table visitor n mode ty path) :=
  .foldBy (callsWithin_below hmn) table visitor mode ty path

end Depth

/-! ### Visitors without state -/

namespace Visitor

/-- The visitor that computes results from results, without a state. -/
def ofView (leaf : (path : String) → Leaf → α) (product : List α → α) : Visitor Unit α where
  leaf path l := pure (leaf path l)
  product _ parts := pure (product parts)

/-- Target types. -/
def representation : Visitor Unit Target.Ty := ofView (fun _ l => l.ty) .tensor

/-- Patterns that bind variables. -/
def unpack : Visitor Unit Target.Expr := ofView (fun path _ => .ident path) .tensor

/-- Variables with their types. -/
def flatten : Visitor Unit (List (String × Target.Ty)) := ofView (fun path l => [(path, l.ty)]) List.flatten

/-- Absent values. -/
def nullPattern : Visitor Unit Target.Expr := ofView (fun _ l => l.nulls) .tensor

end Visitor

/-- What a walk without state ends with. -/
def result (x : Walk Unit α) : Except CompileError α := (outcome x ()).1

theorem result_bind {β : Type} (x : Walk Unit α) (f : α → Walk Unit β) :
    result (x >>= f) = result x >>= fun a => result (f a) := by
  unfold result
  rw [outcome_bind]
  generalize outcome x () = ended
  obtain ⟨_ | _, _⟩ := ended <;> rfl

/-- What the walk ends with is the view of a tree, unless the walk goes too deep. -/
def Views (view : Shape → α) (x : Walk Unit α) (sh : Except CompileError Shape) : Prop :=
  result x = .error .endless ∨ result x = view <$> sh

section Views

variable {leaf : String → Leaf → α} {product : List α → α} {view : Shape → α}
  (hleaf : ∀ path l, view (.leaf path l) = leaf path l)
  (hproduct : ∀ parts, view (.product parts) = product (parts.map view))
  {recurse : TypeRef → String → Walk Unit α} {shapeOf : TypeRef → String → Except CompileError Shape}
  (h : ∀ ty path, Views view (recurse ty path) (shapeOf ty path))

include h in
theorem mapM_views (path : String) (fields : List (String × TypeRef)) :
    result (fields.mapM fun field => recurse field.2 (Name.tick path field.1)) = .error .endless ∨
      result (fields.mapM fun field => recurse field.2 (Name.tick path field.1)) =
        List.map view <$> fields.mapM fun (name, ty) => shapeOf ty (Name.tick path name) := by
  induction fields with
  | nil => exact .inr rfl
  | cons field fields ih =>
    simp only [List.mapM_cons, result_bind]
    obtain hfield | hfield := h field.2 (Name.tick path field.1)
    · exact .inl (by rw [hfield]; rfl)
    rw [hfield]
    cases shapeOf field.2 (Name.tick path field.1) with
    | error e => exact .inr rfl
    | ok sh =>
      obtain hfields | hfields := ih
      · exact .inl (by rw [hfields]; rfl)
      rw [hfields]
      cases fields.mapM fun (name, ty) => shapeOf ty (Name.tick path name) with
      | error e => exact .inr rfl
      | ok shs => exact .inr rfl

include hleaf hproduct h

theorem foldFields_views (path : String) (fields : List (String × TypeRef)) :
    Views view (foldFields (.ofView leaf product) recurse path fields)
      (recordBy shapeOf path fields) := by
  cases fields with
  | nil => exact .inr (congrArg Except.ok (hleaf _ _).symm)
  | cons field fields =>
    unfold Views
    simp only [foldFields, recordBy, result_bind]
    obtain hfields | hfields := mapM_views h path (field :: fields)
    · exact .inl (by rw [hfields]; rfl)
    rw [hfields]
    cases (field :: fields).mapM fun (name, ty) => shapeOf ty (Name.tick path name) with
    | error e => exact .inr rfl
    | ok shs => exact .inr (congrArg Except.ok (hproduct shs).symm)

theorem foldDecl_views (decl : TypeDecl) (optional bounced : Bool) (path : String) :
    Views view (foldDecl (.ofView leaf product) recurse decl optional bounced path)
      (declBy shapeOf decl optional bounced path) := by
  unfold foldDecl declBy
  cases decl.kind with
  | primitive kind => exact .inr (congrArg Except.ok (hleaf _ _).symm)
  | struct | contract =>
    cases optional with
    | true => exact .inr (congrArg Except.ok (hleaf _ _).symm)
    | false => exact foldFields_views hleaf hproduct h path _

omit h in
theorem foldBy_views {table : TypeTable} {n : Nat}
    (h : ∀ ty path, Views view (recurse ty path) (shapeWithin table n {} ty path)) (mode : Mode)
    (ty : TypeRef) (path : String) :
    Views view (foldBy table (.ofView leaf product) recurse mode ty path)
      (shapeWithin table (n + 1) mode ty path) := by
  cases ty with
  | named name | bounced name =>
    unfold Views
    simp only [foldBy, shapeWithin, result_bind]
    cases declOf table name with
    | error e => exact .inr rfl
    | ok decl => exact foldDecl_views hleaf hproduct h decl _ _ path
  | _ => exact .inr (congrArg Except.ok (hleaf _ _).symm)

omit h in
theorem callsWithin_views (table : TypeTable) (n : Nat) (ty : TypeRef) (path : String) :
    Views view (callsWithin table (.ofView leaf product) n ty path) (shapeWithin table n {} ty path) := by
  induction n generalizing ty path with
  | zero => exact .inl rfl
  | succ n ih => exact foldBy_views hleaf hproduct ih {} ty path

omit h in
/-- **A visitor without state computes a view of the tree.** -/
theorem foldWithin_views (table : TypeTable) (n : Nat) (mode : Mode) (ty : TypeRef) (path : String) :
    Views view (foldWithin table (.ofView leaf product) n mode ty path)
      (shapeWithin table (n + 1) mode ty path) :=
  foldBy_views hleaf hproduct (callsWithin_views hleaf hproduct table n) mode ty path

end Views

/-! ### Walks that end -/

/-- The walk ends with a result from every state. -/
def Delivers (x : Walk σ α) : Prop := ∀ s, ∃ a s', outcome x s = (.ok a, s')

namespace Delivers

variable {β : Type} {x : Walk σ α}

theorem lift (m : StateM σ α) : Delivers (ExceptT.lift m) := fun _ => ⟨_, _, rfl⟩

theorem bind {f : α → Walk σ β} (h : Delivers x) (hf : ∀ a, Delivers (f a)) : Delivers (x >>= f) := by
  intro s
  obtain ⟨a, s', ha⟩ := h s
  rw [outcome_bind, ha]
  exact hf a s'

theorem mapM {γ : Type} {f : γ → Walk σ α} {cs : List γ} (h : ∀ c ∈ cs, Delivers (f c)) :
    Delivers (cs.mapM f) := by
  induction cs with
  | nil => exact fun _ => ⟨_, _, rfl⟩
  | cons c cs ih =>
    rw [List.forall_mem_cons] at h
    rw [List.mapM_cons]
    exact h.1.bind fun _ => (ih h.2).bind fun _ _ => ⟨_, _, rfl⟩

theorem foldFields {visitor : Visitor σ α} {recurse : TypeRef → String → Walk σ α}
    {fields : List (String × TypeRef)} (h : ∀ f ∈ fields, ∀ path, Delivers (recurse f.2 path))
    (path : String) : Delivers (foldFields visitor recurse path fields) := by
  cases fields with
  | nil => exact lift _
  | cons field fields => exact (mapM fun f hf => h f hf _).bind fun _ => lift _

end Delivers

end Layout

/-! ### Ranks -/

/-- The number of structs and contracts. -/
def TypeTable.recordCount (table : TypeTable) : Nat :=
  (table.types.values.filter TypeDecl.isStructLike).length

/-- The fields of records are of declared types, and records in records rank lower. -/
structure TypeTable.Ranked (table : TypeTable) (rank : String → Nat) : Prop where
  declares : ∀ name decl, table.types.get? name = some decl → decl.isStructLike = true →
    ∀ f ∈ decl.fields, table.Declares f.ty
  pos : ∀ name decl, table.types.get? name = some decl → decl.isStructLike = true → 0 < rank name
  lt : ∀ outer inner decl, table.types.get? outer = some decl → decl.isStructLike = true →
    table.Embeds inner outer → rank inner < rank outer
  le : ∀ name, rank name ≤ table.recordCount

/-- A record is above the records that it holds, and above what is no record. -/
inductive TypeTable.Above (table : TypeTable) : Option String → Option String → Prop
  | record {outer inner : String} {decl : TypeDecl} : table.types.get? outer = some decl →
      decl.isStructLike = true → table.Embeds inner outer → Above table (some outer) (some inner)
  | scalar {outer : String} {decl : TypeDecl} : table.types.get? outer = some decl →
      decl.isStructLike = true → Above table (some outer) none

theorem TypeTable.Above.embeds {table : TypeTable} {a : Option String} {inner : String}
    (h : TransGen table.Above a (some inner)) :
    ∃ outer, a = some outer ∧ TransGen table.Embeds inner outer := by
  generalize hb : some inner = b at h
  induction h generalizing inner with
  | single hab =>
    subst hb
    cases hab with
    | record _ _ hembeds => exact ⟨_, rfl, .single hembeds⟩
  | tail _ hbc ih =>
    subst hb
    cases hbc with
    | record _ _ hembeds =>
      obtain ⟨outer, ha, houter⟩ := ih rfl
      exact ⟨outer, ha, .head hembeds houter⟩

theorem TypeTable.Storable.declares {table : TypeTable} {format : Option String} {ty : TypeRef}
    (h : table.Storable format ty) : table.Declares ty := by
  cases h with
  | map => exact .map
  | record hdecl _ | primitive hdecl => exact .named hdecl

/-- **The records of a planned table have ranks**, which their number bounds. -/
theorem TypeTable.exists_ranked {table : TypeTable} {plans : Plans} (hw : table.WellNamed)
    (h : planProgram table = .ok plans) : ∃ rank, table.Ranked rank := by
  have hplanned := Plans.planProgram_planned hw h
  let nodes := (table.types.values.filter TypeDecl.isStructLike).map fun decl => some decl.name
  have hnodes : ∀ a b, table.Above a b → a ∈ nodes := by
    have hmem : ∀ {outer : String} {decl : TypeDecl}, table.types.get? outer = some decl →
        decl.isStructLike = true → some outer ∈ nodes := by
      intro outer decl hdecl hs
      exact List.mem_map.2
        ⟨decl, List.mem_filter.2 ⟨Dict.mem_values_of_get? hdecl, hs⟩, by rw [hw.name_eq hdecl]⟩
    intro a b hab
    cases hab with
    | record hdecl hs | scalar hdecl hs => exact hmem hdecl hs
  have hacyclic : ∀ a, ¬ TransGen table.Above a a := by
    intro a ha
    obtain ⟨_, hab, -⟩ := TransGen.head'_iff.1 ha
    have hsome : ∃ name, a = some name := by cases hab <;> exact ⟨_, rfl⟩
    obtain ⟨name, rfl⟩ := hsome
    obtain ⟨name', hname, hcycle⟩ := Above.embeds ha
    obtain rfl := Option.some.inj hname
    exact Plan.planProgram_not_embeds_self hw h _ hcycle
  obtain ⟨height, hle, hlt⟩ := exists_height hnodes hacyclic
  refine ⟨fun name => height (some name), ?_, ?_, ?_, fun name => ?_⟩
  · intro name decl hdecl hs f hf
    obtain ⟨plan, hplan⟩ := hplanned.types decl (Dict.mem_values_of_get? hdecl) hs
    obtain ⟨decl', hdecl', -, hstores⟩ := hplanned.planned.stores _ _ hplan
    obtain rfl : decl = decl' := by simpa [hw.name_eq hdecl, hdecl] using hdecl'
    exact (Plan.storable_of_stores hstores _ (List.mem_map_of_mem hf)).declares
  · intro name decl hdecl hs
    exact Nat.zero_lt_of_lt (hlt _ _ (.scalar hdecl hs))
  · intro outer inner decl hdecl hs hembeds
    exact hlt _ _ (.record hdecl hs hembeds)
  · exact (hle _).trans_eq (List.length_map _)

/-- A declared type; if it is a record, it ranks below the bound. -/
structure TypeTable.RanksBelow (table : TypeTable) (rank : String → Nat) (bound : Nat) (ty : TypeRef) :
    Prop where
  declares : table.Declares ty
  pos : 0 < bound
  lt : ∀ name decl, ty.name? = some name → table.types.get? name = some decl →
    decl.isStructLike = true → rank name < bound

theorem TypeTable.Ranked.field {table : TypeTable} {rank : String → Nat} (h : table.Ranked rank)
    {name : String} {decl : TypeDecl} (hdecl : table.types.get? name = some decl)
    (hs : decl.isStructLike = true) {f : Field} (hf : f ∈ decl.fields) :
    table.RanksBelow rank (rank name) f.ty := by
  have hdeclares := h.declares _ _ hdecl hs f hf
  refine ⟨hdeclares, h.pos _ _ hdecl hs, fun inner innerDecl hname hinner hinner' => ?_⟩
  refine h.lt _ _ _ hdecl hs ⟨⟨decl, hdecl, f, hf, ?_⟩, innerDecl, hinner, hinner'⟩
  generalize f.ty = ty at hdeclares hname
  cases hdeclares with
  | map => exact nomatch hname
  | named => exact ⟨_, by rw [Option.some.inj hname]⟩

theorem TypeTable.RanksBelow.mono {table : TypeTable} {rank : String → Nat} {m n : Nat} {ty : TypeRef}
    (h : table.RanksBelow rank m ty) (hmn : m ≤ n) : table.RanksBelow rank n ty :=
  ⟨h.declares, h.pos.trans_le hmn, fun name decl hname hdecl hs =>
    (h.lt name decl hname hdecl hs).trans_le hmn⟩

namespace Layout

section Nested

variable {σ α : Type} {table : TypeTable} {rank : String → Nat} (h : table.Ranked rank)
  (visitor : Visitor σ α) {name : String} {decl : TypeDecl} {depth : Nat}

include h

/-- The calls for the fields of a record go as deep as the record ranks. -/
theorem foldDecl_delivers (hcalls : ∀ ty path, table.RanksBelow rank depth ty →
      Delivers (callsWithin table visitor depth ty path))
    (hdecl : table.types.get? name = some decl) (hrank : decl.isStructLike = true → rank name ≤ depth)
    (optional bounced : Bool) (path : String) :
    Delivers (foldDecl visitor (callsWithin table visitor depth) decl optional bounced path) := by
  have hrecord (hs : decl.isStructLike = true) : Delivers (foldFields visitor
      (callsWithin table visitor depth) path ((visibleFields decl bounced).map fun f => (f.name, f.ty))) := by
    refine .foldFields (fun f hf path => ?_) path
    obtain ⟨field, hfield, rfl⟩ := List.mem_map.1 hf
    exact hcalls _ _ ((h.field hdecl hs (mem_fields_of_visible hfield)).mono (hrank hs))
  unfold foldDecl
  cases hkind : decl.kind with
  | primitive kind => exact .lift _
  | struct | contract =>
    cases optional with
    | true => exact .lift _
    | false => exact hrecord (by simp [TypeDecl.isStructLike, hkind])

theorem callsWithin_delivers (ty : TypeRef) (path : String) (hty : table.RanksBelow rank depth ty) :
    Delivers (callsWithin table visitor depth ty path) := by
  induction depth generalizing ty path with
  | zero => exact absurd hty.pos (Nat.lt_irrefl 0)
  | succ depth ih =>
    obtain ⟨hdeclares, -, hlt⟩ := hty
    cases hdeclares with
    | map => exact .lift _
    | named hdecl =>
      intro s
      simp only [callsWithin, foldBy, outcome_bind, outcome_mk, declOf_eq_ok.2 hdecl]
      exact foldDecl_delivers h visitor ih hdecl
        (fun hs => Nat.le_of_lt_succ (hlt _ _ rfl hdecl hs)) _ _ path s

/-- **A walk is nested no deeper than the number of records.** It fails only for a name that is not
declared, right at the start. -/
theorem foldWithin_recordCount (mode : Mode) (ty : TypeRef) (path : String) (s : σ) :
    (∃ a s', outcome (foldWithin table visitor table.recordCount mode ty path) s = (.ok a, s')) ∨
      ∃ name, ty.name? = some name ∧ table.types.get? name = none ∧
        outcome (foldWithin table visitor table.recordCount mode ty path) s =
          (.error (.unknownType name), s) := by
  cases ty with
  | named name | bounced name =>
    simp only [foldWithin, foldBy, outcome_bind, outcome_mk, declOf, TypeRef.name?]
    cases hdecl : table.types.get? name with
    | none => exact .inr ⟨name, rfl, hdecl, rfl⟩
    | some decl =>
      exact .inl (foldDecl_delivers h visitor (callsWithin_delivers h visitor) hdecl
        (fun _ => h.le name) _ _ path s)
  | _ => exact .inl ⟨_, _, rfl⟩

end Nested

end Layout

namespace Layout

section Planned

variable {table : TypeTable} {rank : String → Nat} (h : table.Ranked rank) (mode : Mode) (ty : TypeRef)
  (path : String)

include h

theorem foldWithin_ne_endless {σ α : Type} (visitor : Visitor σ α) (s : σ) :
    (outcome (foldWithin table visitor table.recordCount mode ty path) s).1 ≠ .error .endless := by
  obtain ⟨a, s', hok⟩ | ⟨name, -, -, herror⟩ := foldWithin_recordCount h visitor mode ty path s
  · simp [hok]
  · simp [herror]

/-- More depth than there are records gives the same. -/
theorem outcome_foldWithin {σ α : Type} (visitor : Visitor σ α) (s : σ) {depth : Nat}
    (hdepth : table.recordCount ≤ depth) : outcome (foldWithin table visitor depth mode ty path) s =
      outcome (foldWithin table visitor table.recordCount mode ty path) s :=
  ((foldWithin_below hdepth mode ty path s).resolve_left
    (foldWithin_ne_endless h mode ty path visitor s)).symm

/-- The views of a tree are computed by walks that are nested no deeper than there are records. -/
theorem view_shapeWith {α : Type} {leaf : String → Leaf → α} {product : List α → α} {view : Shape → α}
    (hleaf : ∀ path l, view (.leaf path l) = leaf path l)
    (hproduct : ∀ parts, view (.product parts) = product (parts.map view)) :
    view <$> shapeWith table mode ty path =
      result (foldWithin table (.ofView leaf product) table.recordCount mode ty path) := by
  have hcount : table.recordCount ≤ 2 * table.types.size + 1 := by
    have hle : table.recordCount ≤ table.types.values.length := List.length_filter_le _ _
    have hsize : table.types.values.length = table.types.size := List.length_map _
    omega
  have hdeep := outcome_foldWithin h mode ty path (.ofView leaf product) () hcount
  have hview := foldWithin_views hleaf hproduct table (2 * table.types.size + 1) mode ty path
  unfold Views result at hview
  rw [hdeep] at hview
  exact (hview.resolve_left (foldWithin_ne_endless h mode ty path _ ())).symm

end Planned

namespace Shape

theorem tys_eq_map (shs : List Shape) : tys shs = shs.map ty := by
  induction shs with
  | nil => rfl
  | cons sh shs ih => rw [tys, ih, List.map_cons]

theorem patterns_eq_map (shs : List Shape) : patterns shs = shs.map pattern := by
  induction shs with
  | nil => rfl
  | cons sh shs ih => rw [patterns, ih, List.map_cons]

theorem nullsOf_eq_map (shs : List Shape) : nullsOf shs = shs.map nulls := by
  induction shs with
  | nil => rfl
  | cons sh shs ih => rw [nullsOf, ih, List.map_cons]

theorem leavesOf_eq_flatten (shs : List Shape) : leavesOf shs = (shs.map leaves).flatten := by
  induction shs with
  | nil => rfl
  | cons sh shs ih => rw [leavesOf, ih, List.map_cons, List.flatten_cons]

end Shape

end Layout

open Layout

/-- **Planned tables have layouts.** With as many calls nested in it as there are structs and
contracts, a walk over any type ends, whatever the visitor does; it fails only for a name that is not
declared. More depth gives the same. In particular target types, patterns, variables and absent values
are what such walks compute. -/
theorem planned_layouts_end {table : TypeTable} {plans : Plans} (hw : table.WellNamed)
    (h : planProgram table = .ok plans) (mode : Mode) (ty : TypeRef) (path : String) :
    (∀ {σ α : Type} (visitor : Visitor σ α) (s : σ),
      ((∃ a s', outcome (foldWithin table visitor table.recordCount mode ty path) s = (.ok a, s')) ∨
        ∃ name, ty.name? = some name ∧ table.types.get? name = none ∧
          outcome (foldWithin table visitor table.recordCount mode ty path) s =
            (.error (.unknownType name), s)) ∧
      ∀ depth, table.recordCount ≤ depth → outcome (foldWithin table visitor depth mode ty path) s =
        outcome (foldWithin table visitor table.recordCount mode ty path) s) ∧
    representationWith table mode ty =
      result (foldWithin table .representation table.recordCount mode ty "") ∧
    unpackWith table mode ty path = result (foldWithin table .unpack table.recordCount mode ty path) ∧
    flattenWith table mode ty path = result (foldWithin table .flatten table.recordCount mode ty path) ∧
    nullPattern table ty = result (foldWithin table .nullPattern table.recordCount {} ty "") := by
  obtain ⟨rank, hrank⟩ := TypeTable.exists_ranked hw h
  refine ⟨fun visitor s => ⟨foldWithin_recordCount hrank visitor mode ty path s, fun depth hdepth =>
    outcome_foldWithin hrank mode ty path visitor s hdepth⟩, ?_, ?_, ?_, ?_⟩
  · exact view_shapeWith hrank mode ty "" (fun _ _ => rfl)
      fun parts => by rw [Shape.ty, Shape.tys_eq_map]
  · exact view_shapeWith hrank mode ty path (fun _ _ => rfl)
      fun parts => by rw [Shape.pattern, Shape.patterns_eq_map]
  · exact view_shapeWith hrank mode ty path (fun _ _ => rfl)
      fun parts => by rw [Shape.leaves, Shape.leavesOf_eq_flatten]
  · exact view_shapeWith hrank {} ty "" (fun _ _ => rfl)
      fun parts => by rw [Shape.nulls, Shape.nullsOf_eq_map]

/-- A visitor that keeps the paths of the leaves it has met and counts the parts of products. -/
def Layout.Visitor.census : Visitor (List String) Nat where
  leaf path _ := modifyGet fun paths => (1, paths ++ [path])
  product _ parts := pure parts.sum

theorem order_layout_ends :
    ordersTable.WellNamed ∧ (∃ plans, planProgram ordersTable = .ok plans) ∧
      ordersTable.recordCount = 3 ∧ ∀ depth, 3 ≤ depth →
        outcome (foldWithin ordersTable .census depth {} (.plain "Order") "o") ["start"] =
          (.ok 7, ["start", "o'note'kind", "o'note'body", "o'owner", "o'low", "o'high", "o'limit",
            "o'items"]) := by
  have hw : ordersTable.WellNamed := ⟨by decide +kernel, by decide +kernel⟩
  have hok : ∃ plans, planProgram ordersTable = .ok plans := ⟨_, rfl⟩
  have hcount : ordersTable.recordCount = 3 := by decide +kernel
  refine ⟨hw, hok, hcount, fun depth hdepth => ?_⟩
  obtain ⟨plans, hplans⟩ := hok
  have hends := (planned_layouts_end hw hplans {} (.plain "Order") "o").1 .census ["start"]
  rw [hends.2 depth (hcount ▸ hdepth), hcount]
  rfl

end CellCompiler
