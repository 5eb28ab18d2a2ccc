import CellCompiler.Proofs.Descent
import CellCompiler.Proofs.Layout

/-!
# Views of a layout

The target type of a value, the pattern that binds it, the list of its variables and its absent
value are read off one tree. Here they are compared with each other, not with the tree: they are
split at the same places, and what stands at the ends fits together.

* `Layout.Form` says where a type or a pattern is split into a product, and `Target.Ty.ends` lists
  the types at the ends;
* `TypeTable.Unfolds` is what the recursion on types follows: fields that are not optional, of the
  whole type or of the part that survives a bounce. `Layout.shapeWith_ne_endless` says that it ends
  if there are no cycles;
* `Layout.sameBare_shapeWithin` says that the variable does not matter for the tree;
* `Layout.views_agree` is the main result.
-/

namespace CellCompiler

open Relation (TransGen)

/-- Where a value is split into the parts of a product. -/
inductive Layout.Form where
  | whole
  | split (parts : List Layout.Form)

open Layout (Form)

/-! ### Forms of types and patterns -/

namespace Target

mutual

/-- A type is split where it is a product of at least one part. -/
def Ty.form : Ty → Form
  | .tensor (t :: ts) => .split (t.form :: Ty.forms ts)
  | _ => .whole

/-- The forms of several types. -/
def Ty.forms : List Ty → List Form
  | [] => []
  | t :: ts => t.form :: Ty.forms ts

end

mutual

/-- The types at the ends of a type, from left to right. -/
def Ty.ends : Ty → List Ty
  | .tensor (t :: ts) => t.ends ++ Ty.endsOf ts
  | t => [t]

/-- The types at the ends of several types. -/
def Ty.endsOf : List Ty → List Ty
  | [] => []
  | t :: ts => t.ends ++ Ty.endsOf ts

end

mutual

/-- A pattern is split where it is a product of at least one part. -/
def Expr.form : Expr → Form
  | .tensor (e :: es) => .split (e.form :: Expr.forms es)
  | _ => .whole

/-- The forms of several patterns. -/
def Expr.forms : List Expr → List Form
  | [] => []
  | e :: es => e.form :: Expr.forms es

end

end Target

namespace Layout

/-! ### Trees -/

namespace Shape

mutual

/-- No product is empty. -/
def Proper : Shape → Prop
  | leaf .. => True
  | product parts => parts ≠ [] ∧ AllProper parts

/-- No product in several trees is empty. -/
def AllProper : List Shape → Prop
  | [] => True
  | sh :: shs => sh.Proper ∧ AllProper shs

end

mutual

/-- Where the tree is split. -/
def form : Shape → Form
  | leaf .. => .whole
  | product parts => .split (forms parts)

/-- Where several trees are split. -/
def forms : List Shape → List Form
  | [] => []
  | sh :: shs => sh.form :: forms shs

end

theorem allProper_iff {shs : List Shape} : AllProper shs ↔ ∀ sh ∈ shs, sh.Proper := by
  induction shs with
  | nil => simp [AllProper]
  | cons sh shs ih => simp [AllProper, ih]

theorem form_leaf (l : Leaf) : l.ty.form = .whole ∧ l.nulls.form = .whole ∧ l.ty.ends = [l.ty] := by
  cases l with
  | scalar kind => cases kind <;> exact ⟨rfl, rfl, rfl⟩
  | _ => exact ⟨rfl, rfl, rfl⟩

mutual

theorem form_ty : (sh : Shape) → sh.Proper → sh.ty.form = sh.form
  | leaf _ l, _ => (form_leaf l).1
  | product (sh :: shs), h => by
    simp only [ty, tys, Target.Ty.form, form, forms, form_ty sh h.2.1, forms_tys shs h.2.2]
  | product [], h => absurd rfl h.1

theorem forms_tys : (shs : List Shape) → AllProper shs → Target.Ty.forms (tys shs) = forms shs
  | [], _ => rfl
  | sh :: shs, h => by
    rw [tys, Target.Ty.forms, forms, form_ty sh h.1, forms_tys shs h.2]

end

mutual

theorem form_pattern : (sh : Shape) → sh.Proper → sh.pattern.form = sh.form
  | leaf _ _, _ => rfl
  | product (sh :: shs), h => by
    simp only [pattern, patterns, Target.Expr.form, form, forms, form_pattern sh h.2.1,
      forms_patterns shs h.2.2]
  | product [], h => absurd rfl h.1

theorem forms_patterns : (shs : List Shape) → AllProper shs →
    Target.Expr.forms (patterns shs) = forms shs
  | [], _ => rfl
  | sh :: shs, h => by
    rw [patterns, Target.Expr.forms, forms, form_pattern sh h.1, forms_patterns shs h.2]

end

mutual

theorem form_nulls : (sh : Shape) → sh.Proper → sh.nulls.form = sh.form
  | leaf _ l, _ => (form_leaf l).2.1
  | product (sh :: shs), h => by
    simp only [nulls, nullsOf, Target.Expr.form, form, forms, form_nulls sh h.2.1,
      forms_nulls shs h.2.2]
  | product [], h => absurd rfl h.1

theorem forms_nulls : (shs : List Shape) → AllProper shs →
    Target.Expr.forms (nullsOf shs) = forms shs
  | [], _ => rfl
  | sh :: shs, h => by
    rw [nullsOf, Target.Expr.forms, forms, form_nulls sh h.1, forms_nulls shs h.2]

end

mutual

/-- The pattern binds the variables of the leaves. -/
theorem boundNames_pattern : (sh : Shape) → sh.pattern.boundNames = sh.names
  | leaf _ _ => rfl
  | product shs => by
    rw [pattern, Target.Expr.boundNames, boundNames_patterns shs, names_product]

theorem boundNames_patterns : (shs : List Shape) →
    Target.Expr.boundNamesOf (patterns shs) = namesOf shs
  | [] => rfl
  | sh :: shs => by
    rw [patterns, Target.Expr.boundNamesOf, boundNames_pattern sh, boundNames_patterns shs,
      namesOf_cons]

end

mutual

/-- The leaves have the types at the ends of the target type. -/
theorem ends_ty : (sh : Shape) → sh.Proper → sh.ty.ends = sh.leaves.map Prod.snd
  | leaf _ l, _ => (form_leaf l).2.2
  | product (sh :: shs), h => by
    simp only [ty, tys, Target.Ty.ends, leaves, leavesOf, List.map_append, ends_ty sh h.2.1,
      endsOf_tys shs h.2.2]
  | product [], h => absurd rfl h.1

theorem endsOf_tys : (shs : List Shape) → AllProper shs →
    Target.Ty.endsOf (tys shs) = (leavesOf shs).map Prod.snd
  | [], _ => rfl
  | sh :: shs, h => by
    rw [tys, Target.Ty.endsOf, leavesOf, List.map_append, ends_ty sh h.1, endsOf_tys shs h.2]

end

mutual

/-- The tree without its variables. -/
def bare : Shape → Shape
  | leaf _ l => leaf "" l
  | product parts => product (bareAll parts)

/-- Several trees without their variables. -/
def bareAll : List Shape → List Shape
  | [] => []
  | sh :: shs => sh.bare :: bareAll shs

end

mutual

@[simp] theorem ty_bare : (sh : Shape) → sh.bare.ty = sh.ty
  | leaf _ _ => rfl
  | product shs => by rw [bare, ty, ty, tys_bareAll shs]

theorem tys_bareAll : (shs : List Shape) → tys (bareAll shs) = tys shs
  | [] => rfl
  | sh :: shs => by rw [bareAll, tys, tys, ty_bare sh, tys_bareAll shs]

end

mutual

@[simp] theorem nulls_bare : (sh : Shape) → sh.bare.nulls = sh.nulls
  | leaf _ _ => rfl
  | product shs => by rw [bare, nulls, nulls, nullsOf_bareAll shs]

theorem nullsOf_bareAll : (shs : List Shape) → nullsOf (bareAll shs) = nullsOf shs
  | [] => rfl
  | sh :: shs => by rw [bareAll, nullsOf, nullsOf, nulls_bare sh, nullsOf_bareAll shs]

end

end Shape

end Layout

namespace Target.Ty

mutual

/-- A value takes as many stack entries as its ends together. -/
theorem stackWidth_ends : (t : Ty) → (t.ends.map stackWidth).sum = t.stackWidth
  | .tensor (t :: ts) => by
    rw [ends, List.map_append, List.sum_append, stackWidth_ends t, stackWidths_endsOf ts, stackWidth,
      stackWidths]
  | .tensor [] => rfl
  | .int | .cell | .slice | .builder | .cont | .tuple _ | .hole | .var _ => rfl

theorem stackWidths_endsOf : (ts : List Ty) → ((endsOf ts).map stackWidth).sum = stackWidths ts
  | [] => rfl
  | t :: ts => by
    rw [endsOf, List.map_append, List.sum_append, stackWidth_ends t, stackWidths_endsOf ts,
      stackWidths]

end

end Target.Ty

/-! ### Types that unfold without end -/

/-- The fields of the one type, the whole of it or the part that survives a bounce, hold the other
in place: the whole of it, or again only a part. -/
def TypeTable.Unfolds (table : TypeTable) (outer inner : String × Bool) : Prop :=
  ∃ decl, table.types.get? outer.1 = some decl ∧ decl.isStructLike = true ∧
    ∃ f ∈ Layout.visibleFields decl outer.2,
      (f.ty = .named inner.1 false ∧ inner.2 = false) ∨ (f.ty = .bounced inner.1 ∧ inner.2 = true)

/-- No type holds itself in place. -/
def TypeTable.Unfoldable (table : TypeTable) : Prop :=
  ∀ node, ¬ TransGen table.Unfolds node node

namespace Layout

variable {table : TypeTable} {fuel : Nat} {mode : Mode} {ty : TypeRef} {base : String}

/-- A record fails at one of its fields. -/
theorem exists_of_recordBy_eq_error {shapeOf : TypeRef → String → Except CompileError Shape}
    {fields : List (String × TypeRef)} {e : CompileError} (h : recordBy shapeOf base fields = .error e) :
    ∃ f ∈ fields, shapeOf f.2 (Name.tick base f.1) = .error e := by
  cases fields with
  | nil => exact nomatch h
  | cons f fields => exact List.exists_of_mapM_eq_error (Except.map_eq_error.1 h)

theorem exists_of_declBy_eq_error {shapeOf : TypeRef → String → Except CompileError Shape}
    {decl : TypeDecl} {optional bounced : Bool} {e : CompileError}
    (h : declBy shapeOf decl optional bounced base = .error e) :
    decl.isStructLike = true ∧ optional = false ∧ ∃ f ∈ visibleFields decl bounced,
      shapeOf f.ty (Name.tick base f.name) = .error e := by
  unfold declBy at h
  have hfields : ∀ {fields : List Field},
      (if optional = true then Except.ok (Shape.leaf base .boxed)
        else recordBy shapeOf base (fields.map fun f => (f.name, f.ty))) = .error e →
      optional = false ∧ ∃ f ∈ fields, shapeOf f.ty (Name.tick base f.name) = .error e := by
    intro fields h
    cases optional with
    | true => exact nomatch h
    | false =>
      obtain ⟨f, hf, h⟩ := exists_of_recordBy_eq_error h
      obtain ⟨field, hfield, rfl⟩ := List.mem_map.1 hf
      exact ⟨rfl, field, hfield, h⟩
  cases hkind : decl.kind with
  | primitive kind => simp [hkind] at h
  | struct | contract =>
    rw [hkind] at h
    exact ⟨by simp [TypeDecl.isStructLike, hkind], hfields h⟩

/-- What fails is a name without declaration, or the bound for the depth is reached. -/
theorem error_of_shapeWithin {e : CompileError} (h : shapeWithin table fuel mode ty base = .error e) :
    (∃ name, e = .unknownType name) ∨ e = .endless := by
  induction fuel generalizing mode ty base with
  | zero =>
    cases ty with
    | named | bounced => exact .inr (Except.error.inj h).symm
    | _ => exact nomatch h
  | succ fuel ih =>
    have hdecl : ∀ {name : String} {optional bounced : Bool},
        (declOf table name >>= fun decl =>
          declBy (shapeWithin table fuel {}) decl optional bounced base) = .error e →
        (∃ name, e = .unknownType name) ∨ e = .endless := by
      intro name optional bounced h
      obtain h | ⟨decl, -, h⟩ := Except.bind_eq_error.1 h
      · unfold declOf at h
        split at h
        · exact nomatch h
        · exact .inl ⟨name, (Except.error.inj h).symm⟩
      · obtain ⟨-, -, f, -, h⟩ := exists_of_declBy_eq_error h
        exact ih h
    cases ty with
    | named | bounced => exact hdecl h
    | _ => exact nomatch h

/-- The whole of a type, or the part that survives a bounce, that a reference unfolds to. -/
def nodeOf (bounced : Bool) : TypeRef → Option (String × Bool)
  | .named name _ => some (name, bounced)
  | .bounced name => some (name, true)
  | _ => none

/-- A recursion that reaches its bound has taken as many steps. -/
theorem descends_of_endless (h : shapeWithin table (fuel + 1) mode ty base = .error .endless) :
    ∃ node, nodeOf mode.bounced ty = some node ∧ Descends table.Unfolds fuel node := by
  induction fuel generalizing mode ty base with
  | zero =>
    cases ty with
    | named | bounced => exact ⟨_, rfl, .zero⟩
    | _ => exact nomatch h
  | succ fuel ih =>
    have hdecl : ∀ {name : String} {optional bounced : Bool},
        (declOf table name >>= fun decl =>
          declBy (shapeWithin table (fuel + 1) {}) decl optional bounced base) = .error .endless →
        Descends table.Unfolds (fuel + 1) (name, bounced) := by
      intro name optional bounced h
      obtain h | ⟨decl, hdecl, h⟩ := Except.bind_eq_error.1 h
      · unfold declOf at h
        split at h <;> exact nomatch h
      · obtain ⟨hs, -, f, hf, h⟩ := exists_of_declBy_eq_error h
        obtain ⟨node, hnode, hdescends⟩ := ih h
        refine .succ ⟨decl, declOf_eq_ok.1 hdecl, hs, f, hf, ?_⟩ hdescends
        cases hty : f.ty with
        | named inner optional =>
          rw [hty] at hnode h
          obtain rfl := Option.some.inj hnode
          cases optional with
          | false => exact .inl ⟨rfl, rfl⟩
          | true =>
            -- an optional record is boxed, so that nothing is unfolded
            obtain h | ⟨inner, -, h⟩ := Except.bind_eq_error.1 h
            · unfold declOf at h
              split at h <;> exact nomatch h
            · exact nomatch (exists_of_declBy_eq_error h).2.1
        | bounced inner =>
          rw [hty] at hnode
          obtain rfl := Option.some.inj hnode
          exact .inr ⟨rfl, rfl⟩
        | _ =>
          rw [hty] at hnode
          exact nomatch hnode
    cases ty with
    | named | bounced => exact ⟨_, rfl, hdecl h⟩
    | _ => exact nomatch h

/-- **The recursion on types ends** if no type holds itself in place. -/
theorem shapeWith_ne_endless (hunfoldable : table.Unfoldable) :
    shapeWith table mode ty base ≠ .error .endless := by
  intro h
  obtain ⟨node, -, hdescends⟩ := descends_of_endless h
  have hnodes : ∀ outer inner, table.Unfolds outer inner → outer ∈ table.types.keys ×ˢ [false, true] := by
    rintro ⟨name, bounced⟩ inner ⟨decl, hdecl, -⟩
    exact List.mem_product.2 ⟨Dict.mem_keys_iff.2 ⟨decl, hdecl⟩, by cases bounced <;> simp⟩
  have hle := hdescends.le_length hnodes hunfoldable
  rw [List.length_product, Dict.keys, List.length_map] at hle
  simp only [List.length_cons, List.length_nil] at hle
  have hsize : table.types.entries.length = table.types.size := rfl
  omega

/-! ### Trees of types -/

theorem recordBy_proper {shapeOf : TypeRef → String → Except CompileError Shape}
    {fields : List (String × TypeRef)} {sh : Shape}
    (hshape : ∀ ty name sh, shapeOf ty name = .ok sh → sh.Proper)
    (h : recordBy shapeOf base fields = .ok sh) : sh.Proper := by
  rcases recordBy_eq_ok.1 h with ⟨-, rfl⟩ | ⟨hne, parts, rfl, hparts⟩
  · trivial
  · refine ⟨fun hnil => hne ?_, Shape.allProper_iff.2 ?_⟩
    · subst hnil
      exact List.forall₂_nil_right_iff.1 hparts
    · exact List.forall_mem_of_forall₂ (P := fun _ => True) hparts
        (fun _ _ hpart _ => hshape _ _ _ hpart) (by simp)

theorem declBy_proper {shapeOf : TypeRef → String → Except CompileError Shape} {decl : TypeDecl}
    {optional bounced : Bool} {sh : Shape}
    (hshape : ∀ ty name sh, shapeOf ty name = .ok sh → sh.Proper)
    (h : declBy shapeOf decl optional bounced base = .ok sh) : sh.Proper := by
  rw [declBy_eq_ok] at h
  split at h
  · subst h
    trivial
  · split at h
    · subst h
      trivial
    · exact recordBy_proper hshape h

/-- A record without fields is boxed, so that no product is empty. -/
theorem shapeWithin_proper {sh : Shape} (h : shapeWithin table fuel mode ty base = .ok sh) :
    sh.Proper := by
  induction fuel generalizing mode ty base sh with
  | zero =>
    cases ty with
    | named | bounced => exact nomatch h
    | _ =>
      obtain rfl := Except.ok.inj h
      trivial
  | succ fuel ih =>
    cases ty with
    | named | bounced =>
      obtain ⟨decl, -, h⟩ := Except.bind_eq_ok.1 h
      exact declBy_proper (fun _ _ _ => ih) h
    | _ =>
      obtain rfl := Except.ok.inj h
      trivial

/-- Two computations of trees end alike, up to the variables in the trees. -/
def SameBare (x y : Except CompileError Shape) : Prop := Shape.bare <$> x = Shape.bare <$> y

theorem SameBare.map {α : Type} {x y : Except CompileError Shape} (h : SameBare x y) (f : Shape → α)
    (hf : ∀ sh : Shape, f sh.bare = f sh) : f <$> x = f <$> y := by
  have hx : ∀ z : Except CompileError Shape, f <$> z = f <$> Shape.bare <$> z := by
    intro z
    cases z with
    | error e => rfl
    | ok sh => exact congrArg Except.ok (hf sh).symm
  rw [hx x, hx y, h]

theorem SameBare.cons {x y : Except CompileError Shape} {xs ys : Except CompileError (List Shape)}
    (h : SameBare x y) (hs : Shape.bareAll <$> xs = Shape.bareAll <$> ys) :
    Shape.bareAll <$> (x >>= fun sh => xs >>= fun shs => pure (sh :: shs)) =
      Shape.bareAll <$> (y >>= fun sh => ys >>= fun shs => pure (sh :: shs)) := by
  unfold SameBare at h
  cases x <;> cases y <;> cases xs <;> cases ys <;>
    simp_all [Functor.map, Except.map, bind, Except.bind, pure, Except.pure, Shape.bareAll]

theorem SameBare.product {xs ys : Except CompileError (List Shape)}
    (hs : Shape.bareAll <$> xs = Shape.bareAll <$> ys) :
    SameBare (Shape.product <$> xs) (Shape.product <$> ys) := by
  cases xs <;> cases ys <;> simp_all [SameBare, Functor.map, Except.map, Shape.bare]

section Bare

variable {shapeOf : TypeRef → String → Except CompileError Shape} {other : String}
  (hshape : ∀ ty name name', SameBare (shapeOf ty name) (shapeOf ty name'))

include hshape

theorem bareAll_mapM (fields : List (String × TypeRef)) :
    Shape.bareAll <$> fields.mapM (fun (f, ty) => shapeOf ty (Name.tick base f)) =
      Shape.bareAll <$> fields.mapM (fun (f, ty) => shapeOf ty (Name.tick other f)) := by
  induction fields with
  | nil => rfl
  | cons field fields ih =>
    rw [List.mapM_cons, List.mapM_cons]
    exact (hshape field.2 _ _).cons ih

theorem sameBare_recordBy (fields : List (String × TypeRef)) :
    SameBare (recordBy shapeOf base fields) (recordBy shapeOf other fields) := by
  cases fields with
  | nil => rfl
  | cons field fields => exact .product (bareAll_mapM hshape _)

theorem sameBare_declBy (decl : TypeDecl) (optional bounced : Bool) :
    SameBare (declBy shapeOf decl optional bounced base) (declBy shapeOf decl optional bounced other) := by
  unfold declBy
  cases decl.kind with
  | primitive kind => rfl
  | struct | contract =>
    cases optional with
    | true => rfl
    | false => exact sameBare_recordBy hshape _

end Bare

/-- **The variable does not matter** for the tree, nor for whether there is one. -/
theorem sameBare_shapeWithin {other : String} :
    SameBare (shapeWithin table fuel mode ty base) (shapeWithin table fuel mode ty other) := by
  induction fuel generalizing mode ty base other with
  | zero => cases ty <;> rfl
  | succ fuel ih =>
    cases ty with
    | named name optional | bounced name =>
      rw [shapeWithin, shapeWithin]
      cases declOf table name with
      | error e => rfl
      | ok decl =>
        have hshape (ty : TypeRef) (name name' : String) :
            SameBare (shapeWithin table fuel {} ty name) (shapeWithin table fuel {} ty name') := ih
        exact sameBare_declBy hshape decl _ _
    | _ => rfl

/-! ### Views -/

/-- The target type of a type under overrides. -/
def representationWith (table : TypeTable) (mode : Mode) (ty : TypeRef) : Except CompileError Target.Ty :=
  Shape.ty <$> shapeWith table mode ty ""

/-- The pattern that binds a variable of a type under overrides. -/
def unpackWith (table : TypeTable) (mode : Mode) (ty : TypeRef) (name : String) :
    Except CompileError Target.Expr :=
  Shape.pattern <$> shapeWith table mode ty name

/-- The variables of a type under overrides with their types. -/
def flattenWith (table : TypeTable) (mode : Mode) (ty : TypeRef) (name : String) :
    Except CompileError (List (String × Target.Ty)) :=
  Shape.leaves <$> shapeWith table mode ty name

/-- The views of a type fit together. -/
structure Agree (repr : Target.Ty) (pattern : Target.Expr) (slots : List (String × Target.Ty)) :
    Prop where
  /-- The pattern binds the listed variables, from left to right. -/
  names : pattern.boundNames = slots.map Prod.fst
  /-- Pattern and type are split at the same places into as many parts. -/
  form : pattern.form = repr.form
  /-- The listed types are those at the ends, where the pattern has its variables. -/
  ends : slots.map Prod.snd = repr.ends
  /-- They take as many stack entries as the whole. -/
  width : ((slots.map Prod.snd).map Target.Ty.stackWidth).sum = repr.stackWidth

theorem Shape.agree {sh : Shape} (h : sh.Proper) : Agree sh.ty sh.pattern sh.leaves := by
  have hends := Shape.ends_ty sh h
  refine ⟨Shape.boundNames_pattern sh, ?_, hends.symm, ?_⟩
  · rw [Shape.form_pattern sh h, Shape.form_ty sh h]
  · rw [← hends, Target.Ty.stackWidth_ends]

/-- **The views of a layout agree.** If no type holds itself in place, the target type, the pattern
and the variables of a type either cannot be told, all three because of the same name without
declaration, or fit together; without overrides, the absent value is split at the same places. If
fields have different names without ticks, the variables are different. -/
theorem views_agree {table : TypeTable} (hunfoldable : table.Unfoldable) (mode : Mode) (ty : TypeRef)
    (base : String) :
    (∃ name, representationWith table mode ty = .error (.unknownType name) ∧
      unpackWith table mode ty base = .error (.unknownType name) ∧
      flattenWith table mode ty base = .error (.unknownType name)) ∨
    ∃ repr pattern slots, representationWith table mode ty = .ok repr ∧
      unpackWith table mode ty base = .ok pattern ∧ flattenWith table mode ty base = .ok slots ∧
      Agree repr pattern slots ∧
      (mode = {} → ∃ absent, nullPattern table ty = .ok absent ∧ absent.form = pattern.form) ∧
      (table.Separate → (slots.map Prod.fst).Nodup) := by
  have hrepr : representationWith table mode ty = Shape.ty <$> shapeWith table mode ty base :=
    SameBare.map sameBare_shapeWithin _ Shape.ty_bare
  rw [hrepr, unpackWith, flattenWith]
  cases hshape : shapeWith table mode ty base with
  | error e =>
    obtain ⟨name, rfl⟩ | rfl := error_of_shapeWithin hshape
    · exact .inl ⟨name, rfl, rfl, rfl⟩
    · exact absurd hshape (shapeWith_ne_endless hunfoldable)
  | ok sh =>
    have hproper := shapeWithin_proper hshape
    refine .inr ⟨_, _, _, rfl, rfl, rfl, Shape.agree hproper, ?_, fun hseparate => ?_⟩
    · rintro rfl
      have hnulls : nullPattern table ty = Shape.nulls <$> shapeWith table {} ty base :=
        SameBare.map sameBare_shapeWithin _ Shape.nulls_bare
      rw [hnulls, hshape]
      exact ⟨_, rfl, by rw [Shape.form_nulls sh hproper, Shape.form_pattern sh hproper]⟩
    · exact (shapeWithin_distinct hseparate hshape).nodup

/-- The type that a field holds in place, the whole of it or a part. -/
def held? : TypeRef → Option String
  | .named name false => some name
  | .bounced name => some name
  | _ => none

/-- Types can be ranked so that what is held in place ranks lower. -/
theorem unfoldable_of_rank (rank : String → Nat)
    (h : ∀ entry ∈ table.types.entries, ∀ f ∈ entry.2.fields, ∀ inner ∈ (held? f.ty).toList,
      rank inner < rank entry.1) : table.Unfoldable := by
  have hstep : ∀ a b, table.Unfolds a b → rank b.1 < rank a.1 := by
    rintro ⟨outer, bounced⟩ ⟨inner, bounced'⟩ ⟨decl, hdecl, -, f, hf, hty⟩
    have hfield : f ∈ decl.fields := by
      unfold visibleFields at hf
      split at hf
      · exact List.mem_of_mem_take hf
      · exact hf
    refine h _ (Dict.mem_entries_of_get? hdecl) f hfield inner ?_
    obtain ⟨hty, -⟩ | ⟨hty, -⟩ := hty <;> simp [hty, held?]
  have hlt : ∀ a b, TransGen table.Unfolds a b → rank b.1 < rank a.1 := by
    intro a b hab
    induction hab with
    | single hab => exact hstep _ _ hab
    | tail _ hbc ih => exact (hstep _ _ hbc).trans ih
  exact fun node hnode => Nat.lt_irrefl _ (hlt node node hnode)

/-- A list of which every link holds a mark without fields and what has survived of a message. -/
def chainTable : TypeTable :=
  let mark := TypeDecl.ofFields .struct "Mark" []
  let note := { TypeDecl.ofFields .struct "Note"
      [⟨"id", 0, .plain "Int", none, none⟩, ⟨"text", 1, .plain "String", none, none⟩] with
    bounceFields := 1 }
  let link := TypeDecl.ofFields .struct "Link"
    [⟨"value", 0, .plain "Int", none, none⟩, ⟨"next", 1, .named "Link" true, none, none⟩,
      ⟨"last", 2, .bounced "Note", none, none⟩, ⟨"mark", 3, .plain "Mark", none, none⟩]
  ((TypeTable.primitives.addType mark).addType note).addType link

theorem chain_views_agree :
    chainTable.Unfoldable ∧ chainTable.Separate ∧ ∃ repr pattern slots,
      unpackWith chainTable { optional := some false } (.named "Link" true) "l" = .ok pattern ∧
      slots.map Prod.fst = ["l'value", "l'next", "l'last'id", "l'mark"] ∧
      Agree repr pattern slots ∧ (slots.map Prod.fst).Nodup := by
  have hunfoldable : chainTable.Unfoldable :=
    unfoldable_of_rank (fun name => if name = "Link" then 2 else if name = "Note" then 1 else
      if name = "Mark" then 1 else 0) (by decide +kernel)
  have hseparate : chainTable.Separate := by
    have hall : ∀ decl ∈ chainTable.types.values, (decl.fields.map (·.name)).Nodup ∧
        ∀ f ∈ decl.fields, '\'' ∉ f.name.toList := by decide +kernel
    exact fun decl hdecl => ⟨(hall decl hdecl).1, (hall decl hdecl).2⟩
  have hnames : (flattenWith chainTable { optional := some false } (.named "Link" true) "l").map
      (·.map Prod.fst) = .ok ["l'value", "l'next", "l'last'id", "l'mark"] := by rfl
  refine ⟨hunfoldable, hseparate, ?_⟩
  rcases views_agree hunfoldable { optional := some false } (.named "Link" true) "l" with
    ⟨name, -, -, hslots⟩ | ⟨repr, pattern, slots, -, hpattern, hslots, hagree, -, hnodup⟩
  · rw [hslots] at hnames
    exact nomatch hnames
  · rw [hslots] at hnames
    exact ⟨repr, pattern, slots, hpattern, Except.ok.inj hnames, hagree, hnodup hseparate⟩

end Layout

end CellCompiler
