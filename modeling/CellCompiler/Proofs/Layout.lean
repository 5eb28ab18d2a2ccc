import CellCompiler.Proofs.Machine.Patterns
import CellCompiler.Proofs.Source.Table

/-!
# Variables of a record

Fields are joined to the variable of their record by a tick. If no field has a tick in its name,
variables of different fields differ (`Name.Under.disjoint`), so that every shape has distinct
variables (`Layout.shapeWithin_distinct`). Values of a type have its shape
(`Machine.Inhabits.fits`), which does not depend on the bound for its depth
(`Layout.shapeWithin_unique`).
-/

namespace CellCompiler

/-- The variable is the base or one of its fields. -/
def Name.Under (base name : String) : Prop :=
  name.toList = base.toList ∨ ∃ rest, name.toList = base.toList ++ '\'' :: rest

/-- Fields of a type have different names, and no name has a tick in it. -/
structure TypeDecl.Separate (decl : TypeDecl) : Prop where
  nodup : (decl.fields.map (·.name)).Nodup
  plain : ∀ f ∈ decl.fields, '\'' ∉ f.name.toList

/-- All types have separate fields. -/
def TypeTable.Separate (table : TypeTable) : Prop := ∀ decl ∈ table.types.values, decl.Separate

namespace Name

variable {base f g name : String}

theorem toList_tick : (tick base f).toList = base.toList ++ '\'' :: f.toList := by
  simp [tick]

theorem var_injective : Function.Injective var := by
  intro a b h
  simpa [var, ← String.toList_inj] using h

theorem tick_injective (base : String) : Function.Injective (tick base) := by
  intro f g h
  have hlists := congrArg String.toList h
  simp only [toList_tick, List.append_cancel_left_eq, List.cons.injEq, true_and] at hlists
  exact String.toList_inj.1 hlists

theorem Under.refl (base : String) : Under base base := .inl rfl

theorem Under.of_tick (h : Under (tick base f) name) : Under base name := by
  rcases h with h | ⟨rest, h⟩
  · exact .inr ⟨f.toList, by rw [h, toList_tick]⟩
  · exact .inr ⟨f.toList ++ '\'' :: rest, by rw [h, toList_tick]; simp⟩

/-- What follows the tick up to the next one is the field. -/
theorem Under.takeWhile (hf : '\'' ∉ f.toList) (h : Under (tick base f) name) :
    (name.toList.drop (base.toList.length + 1)).takeWhile (· != '\'') = f.toList := by
  have hplain : ∀ c ∈ f.toList, (c != '\'') = true := by
    intro c hc
    have hne : c ≠ '\'' := fun heq => hf (heq ▸ hc)
    simpa using hne
  have hdrop : ∀ rest, (base.toList ++ '\'' :: rest).drop (base.toList.length + 1) = rest := by
    intro rest
    simp [List.drop_append]
  rcases h with h | ⟨rest, h⟩
  · rw [h, toList_tick, hdrop, ← List.append_nil f.toList, List.takeWhile_append_of_pos hplain]
    simp
  · rw [h, toList_tick, List.append_assoc, List.cons_append, hdrop]
    rw [List.takeWhile_append_of_pos hplain]
    simp

theorem Under.disjoint (hf : '\'' ∉ f.toList) (hg : '\'' ∉ g.toList)
    (h : Under (tick base f) name) (h' : Under (tick base g) name) : f = g := by
  have hlists : f.toList = g.toList := (h.takeWhile hf).symm.trans (h'.takeWhile hg)
  exact String.toList_inj.1 hlists

end Name

namespace Layout

variable {table : TypeTable}

/-- The variables of a shape are different and belong to the base. -/
structure Shape.Distinct (sh : Shape) (base : String) : Prop where
  nodup : sh.names.Nodup
  under : ∀ x ∈ sh.names, Name.Under base x

theorem Shape.distinct_leaf {name : String} {l : Leaf} : Distinct (.leaf name l) name := by
  constructor <;> simp [Name.Under.refl]

/-- The parts of a record, one for each field, have different variables. -/
theorem parts_distinct {shapeOf : TypeRef → String → Except CompileError Shape}
    {fields : List (String × TypeRef)} {base : String} {parts : List Shape}
    (hshape : ∀ ty name sh, shapeOf ty name = .ok sh → sh.Distinct name)
    (hnodup : (fields.map Prod.fst).Nodup) (hplain : ∀ f ∈ fields, '\'' ∉ f.1.toList)
    (h : List.Forall₂ (fun f sh => shapeOf f.2 (Name.tick base f.1) = .ok sh) fields parts) :
    (Shape.namesOf parts).Nodup ∧
      ∀ x ∈ Shape.namesOf parts, ∃ f ∈ fields, Name.Under (Name.tick base f.1) x := by
  induction h with
  | nil => simp
  | @cons f part fields parts hpart _ ih =>
    rw [List.map_cons, List.nodup_cons] at hnodup
    rw [List.forall_mem_cons] at hplain
    have hdistinct := hshape _ _ _ hpart
    obtain ⟨hrest, hunder⟩ := ih hnodup.2 hplain.2
    rw [Shape.namesOf_cons]
    constructor
    · refine List.nodup_append.2 ⟨hdistinct.nodup, hrest, ?_⟩
      rintro x hx y hy rfl
      obtain ⟨g, hg, hgx⟩ := hunder x hy
      have heq := (hdistinct.under x hx).disjoint hplain.1 (hplain.2 g hg) hgx
      exact hnodup.1 (heq ▸ List.mem_map_of_mem hg)
    · intro x hx
      rcases List.mem_append.1 hx with hx | hx
      · exact ⟨f, List.mem_cons_self, hdistinct.under x hx⟩
      · obtain ⟨g, hg, hgx⟩ := hunder x hx
        exact ⟨g, List.mem_cons_of_mem f hg, hgx⟩

/-- A record without fields is boxed, others are products. -/
theorem recordBy_eq_ok {shapeOf : TypeRef → String → Except CompileError Shape}
    {fields : List (String × TypeRef)} {base : String} {sh : Shape} :
    recordBy shapeOf base fields = .ok sh ↔ (fields = [] ∧ sh = .leaf base .boxed) ∨
      (fields ≠ [] ∧ ∃ parts, sh = .product parts ∧
        List.Forall₂ (fun f sh => shapeOf f.2 (Name.tick base f.1) = .ok sh) fields parts) := by
  cases fields with
  | nil => simp [recordBy, eq_comm]
  | cons f fields =>
    simp only [recordBy, Except.map_eq_ok, List.mapM_eq_ok, reduceCtorEq, false_and, false_or,
      ne_eq, not_false_eq_true, true_and]
    constructor
    · rintro ⟨parts, hparts, h⟩
      exact ⟨parts, h.symm, hparts⟩
    · rintro ⟨parts, h, hparts⟩
      exact ⟨parts, hparts, h.symm⟩

theorem recordBy_distinct {shapeOf : TypeRef → String → Except CompileError Shape}
    {fields : List (String × TypeRef)} {base : String} {sh : Shape}
    (hshape : ∀ ty name sh, shapeOf ty name = .ok sh → sh.Distinct name)
    (hnodup : (fields.map Prod.fst).Nodup) (hplain : ∀ f ∈ fields, '\'' ∉ f.1.toList)
    (h : recordBy shapeOf base fields = .ok sh) : sh.Distinct base := by
  rcases recordBy_eq_ok.1 h with ⟨-, rfl⟩ | ⟨-, parts, rfl, hparts⟩
  · exact Shape.distinct_leaf
  · obtain ⟨hparts, hunder⟩ := parts_distinct hshape hnodup hplain hparts
    refine ⟨by simpa using hparts, fun x hx => ?_⟩
    obtain ⟨f, -, hfx⟩ := hunder x (by simpa using hx)
    exact hfx.of_tick

theorem declOf_eq_ok {name : String} {decl : TypeDecl} :
    declOf table name = .ok decl ↔ table.types.get? name = some decl := by
  unfold declOf
  split
  · next h => simp [h]
  · next h => simp [h]

theorem declBy_eq_ok {shapeOf : TypeRef → String → Except CompileError Shape} {decl : TypeDecl}
    {optional bounced : Bool} {base : String} {sh : Shape} :
    declBy shapeOf decl optional bounced base = .ok sh ↔
      match decl.primitive? with
      | some kind => sh = .leaf base (.scalar kind)
      | none =>
        if optional then sh = .leaf base .boxed
        else recordBy shapeOf base ((visibleFields decl bounced).map fun f => (f.name, f.ty)) =
          .ok sh := by
  unfold declBy TypeDecl.primitive?
  cases decl.kind with
  | primitive kind => simp [eq_comm]
  | struct | contract => cases optional <;> simp [eq_comm]

theorem declBy_distinct {shapeOf : TypeRef → String → Except CompileError Shape} {decl : TypeDecl}
    {optional bounced : Bool} {base : String} {sh : Shape} (hsep : decl.Separate)
    (hshape : ∀ ty name sh, shapeOf ty name = .ok sh → sh.Distinct name)
    (h : declBy shapeOf decl optional bounced base = .ok sh) : sh.Distinct base := by
  have hsub : (visibleFields decl bounced).Sublist decl.fields := by
    unfold visibleFields
    split
    · exact List.take_sublist _ _
    · exact List.Sublist.refl _
  rw [declBy_eq_ok] at h
  split at h
  · exact h ▸ Shape.distinct_leaf
  · split at h
    · exact h ▸ Shape.distinct_leaf
    · refine recordBy_distinct hshape ?_ ?_ h
      · rw [List.map_map]
        exact (hsub.map (·.name)).nodup hsep.nodup
      · intro f hf
        obtain ⟨field, hfield, rfl⟩ := List.mem_map.1 hf
        exact hsep.plain field (hsub.subset hfield)

theorem shapeWithin_named {fuel : Nat} {mode : Mode} {name : String} {optional : Bool}
    {base : String} {sh : Shape} :
    shapeWithin table (fuel + 1) mode (.named name optional) base = .ok sh ↔
      ∃ decl, table.types.get? name = some decl ∧
        declBy (shapeWithin table fuel {}) decl (mode.optional.getD optional) mode.bounced base =
          .ok sh := by
  simp only [shapeWithin, Except.bind_eq_ok, declOf_eq_ok]

theorem shapeWithin_bounced {fuel : Nat} {mode : Mode} {name base : String} {sh : Shape} :
    shapeWithin table (fuel + 1) mode (.bounced name) base = .ok sh ↔
      ∃ decl, table.types.get? name = some decl ∧
        declBy (shapeWithin table fuel {}) decl (mode.optional.getD false) true base = .ok sh := by
  simp only [shapeWithin, Except.bind_eq_ok, declOf_eq_ok]

/-! ### Bounds for the depth of types -/

section Mono

variable {shapeOf more : TypeRef → String → Except CompileError Shape} {base : String} {sh : Shape}

theorem recordBy_mono {fields : List (String × TypeRef)}
    (hmore : ∀ ty name sh, shapeOf ty name = .ok sh → more ty name = .ok sh)
    (h : recordBy shapeOf base fields = .ok sh) : recordBy more base fields = .ok sh := by
  rw [recordBy_eq_ok] at h ⊢
  exact h.imp_right fun ⟨hne, parts, hsh, hparts⟩ =>
    ⟨hne, parts, hsh, hparts.imp fun _ _ => hmore _ _ _⟩

theorem declBy_mono {decl : TypeDecl} {optional bounced : Bool}
    (hmore : ∀ ty name sh, shapeOf ty name = .ok sh → more ty name = .ok sh)
    (h : declBy shapeOf decl optional bounced base = .ok sh) :
    declBy more decl optional bounced base = .ok sh := by
  rw [declBy_eq_ok] at h ⊢
  split at h
  · exact h
  · cases optional with
    | true => exact h
    | false => exact recordBy_mono hmore h

/-- A larger bound gives the same shape. -/
theorem shapeWithin_mono {m n : Nat} {mode : Mode} {ty : TypeRef} (hmn : m ≤ n)
    (h : shapeWithin table m mode ty base = .ok sh) : shapeWithin table n mode ty base = .ok sh := by
  induction m generalizing n mode ty base sh with
  | zero =>
    cases ty with
    | named name optional => simp [shapeWithin] at h
    | bounced name => simp [shapeWithin] at h
    | _ => cases n <;> simpa [shapeWithin] using h
  | succ m ih =>
    obtain ⟨n, rfl⟩ : ∃ k, n = k + 1 := ⟨n - 1, by omega⟩
    cases ty with
    | named name optional =>
      obtain ⟨decl, hdecl, h⟩ := shapeWithin_named.1 h
      exact shapeWithin_named.2 ⟨decl, hdecl, declBy_mono (fun _ _ _ => ih (by omega)) h⟩
    | bounced name =>
      obtain ⟨decl, hdecl, h⟩ := shapeWithin_bounced.1 h
      exact shapeWithin_bounced.2 ⟨decl, hdecl, declBy_mono (fun _ _ _ => ih (by omega)) h⟩
    | _ => simpa [shapeWithin] using h

theorem shapeWithin_unique {m n : Nat} {mode : Mode} {ty : TypeRef} {sh' : Shape}
    (h : shapeWithin table m mode ty base = .ok sh) (h' : shapeWithin table n mode ty base = .ok sh') :
    sh = sh' := by
  have hm := shapeWithin_mono (le_max_left m n) h
  rw [shapeWithin_mono (le_max_right m n) h'] at hm
  simpa [eq_comm] using hm

end Mono

/-- **Shapes have distinct variables.** -/
theorem shapeWithin_distinct (hsep : table.Separate) {fuel : Nat} {mode : Mode} {ty : TypeRef}
    {base : String} {sh : Shape} (h : shapeWithin table fuel mode ty base = .ok sh) :
    sh.Distinct base := by
  induction fuel generalizing mode ty base sh with
  | zero =>
    cases ty with
    | named name optional => simp [shapeWithin] at h
    | bounced name => simp [shapeWithin] at h
    | _ =>
      obtain rfl : Shape.leaf base _ = sh := by simpa [shapeWithin] using h
      exact Shape.distinct_leaf
  | succ fuel ih =>
    cases ty with
    | named name optional =>
      obtain ⟨decl, hdecl, h⟩ := shapeWithin_named.1 h
      exact declBy_distinct (hsep decl (Dict.mem_values_of_get? hdecl)) (fun _ _ _ => ih) h
    | bounced name =>
      obtain ⟨decl, hdecl, h⟩ := shapeWithin_bounced.1 h
      exact declBy_distinct (hsep decl (Dict.mem_values_of_get? hdecl)) (fun _ _ _ => ih) h
    | _ =>
      obtain rfl : Shape.leaf base _ = sh := by simpa [shapeWithin] using h
      exact Shape.distinct_leaf

end Layout

namespace Machine

open Layout (Shape)

variable {table : TypeTable}

theorem declBy_of_shapeWithin {fuel : Nat} {name base : String} {optional : Bool} {decl : TypeDecl}
    {sh : Shape} (hdecl : table.types.get? name = some decl)
    (h : Layout.shapeWithin table fuel {} (.named name optional) base = .ok sh) :
    ∃ n, Layout.declBy (Layout.shapeWithin table n {}) decl optional false base = .ok sh := by
  cases fuel with
  | zero => simp [Layout.shapeWithin] at h
  | succ n =>
    obtain ⟨decl', hdecl', h⟩ := Layout.shapeWithin_named.1 h
    obtain rfl : decl = decl' := by simpa [hdecl] using hdecl'
    exact ⟨n, h⟩

theorem primitive?_of_isStruct {decl : TypeDecl} (h : decl.isStruct = true) :
    decl.primitive? = none :=
  TypeDecl.primitive?_eq_none_iff.2 (TypeDecl.isStructLike_of_isStruct h)

/-- **Values of a type have its shape.** -/
theorem Inhabits.fits {P : Slice → Prop} {ty : TypeRef} {v : Val} (hv : Inhabits table P ty v)
    {fuel : Nat} {base : String} {sh : Shape}
    (h : Layout.shapeWithin table fuel {} ty base = .ok sh) : sh.Fits v := by
  induction hv generalizing fuel base sh with
  | address hdecl hkind _ =>
    obtain ⟨n, h⟩ := declBy_of_shapeWithin hdecl h
    rw [Layout.declBy_eq_ok, hkind] at h
    subst h
    rfl
  | scalar hdecl hkind _ hv =>
    obtain ⟨n, h⟩ := declBy_of_shapeWithin hdecl h
    rw [Layout.declBy_eq_ok, hkind] at h
    subst h
    exact hv
  | empty hdecl hstruct hfields =>
    obtain ⟨n, h⟩ := declBy_of_shapeWithin hdecl h
    rw [Layout.declBy_eq_ok, primitive?_of_isStruct hstruct] at h
    obtain rfl : Shape.leaf base .boxed = sh := by
      simpa [Layout.visibleFields, hfields, Layout.recordBy] using h
    rfl
  | @record name decl vs hdecl hstruct hfields hlength _ ih =>
    obtain ⟨n, h⟩ := declBy_of_shapeWithin hdecl h
    rw [Layout.declBy_eq_ok, primitive?_of_isStruct hstruct] at h
    simp only [Layout.visibleFields, Bool.false_eq_true, if_false] at h
    rcases Layout.recordBy_eq_ok.1 h with ⟨hnil, -⟩ | ⟨-, parts, rfl, hparts⟩
    · exact absurd (List.map_eq_nil_iff.1 hnil) hfields
    · have hvs : List.Forall₂ (fun (f : Field) v => ∀ {fuel : Nat} {base : String} {sh : Shape},
          Layout.shapeWithin table fuel {} f.ty base = .ok sh → sh.Fits v) decl.fields vs :=
        List.forall₂_iff_zip.2 ⟨hlength.symm, fun hmem => ih _ hmem⟩
      rw [List.forall₂_map_left_iff] at hparts
      rw [Shape.Fits, Shape.fitsAll_iff_forall₂]
      exact List.forall₂_merge hparts hvs fun f part v hpart hv => hv hpart
  | absent hdecl hcontract =>
    obtain ⟨n, h⟩ := declBy_of_shapeWithin hdecl h
    rw [Layout.declBy_eq_ok] at h
    split at h
    · exact h ▸ rfl
    · rw [if_pos rfl] at h
      exact h ▸ rfl
  | present hdecl hstruct hv ih =>
    obtain ⟨n, h⟩ := declBy_of_shapeWithin hdecl h
    rw [Layout.declBy_eq_ok, primitive?_of_isStruct hstruct] at h
    obtain rfl : sh = Shape.leaf base .boxed := by simpa using h
    exact Val.isLeaf_boxed
  | map hv =>
    obtain rfl : Shape.leaf base .map = sh := by
      cases fuel <;> simpa [Layout.shapeWithin] using h
    exact hv

theorem Represents.fits {ty : TypeRef} {format : Option String} {v : Val}
    (hv : Represents table ty format v) {fuel : Nat} {base : String} {sh : Shape}
    (h : Layout.shapeWithin table fuel {} ty base = .ok sh) : sh.Fits v :=
  hv.inhabits.fits h

end Machine

end CellCompiler
