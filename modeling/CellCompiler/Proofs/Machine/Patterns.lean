import CellCompiler.Layout
import CellCompiler.Proofs.Machine.Representation
import CellCompiler.Proofs.Machine.Rules

/-!
# Records in variables

The shape of a type gives one variable to every leaf. Binding its pattern to a value of that shape
sets these variables to the leaves of the value, and evaluating the pattern gives the value back.

* `Shape.Fits` says that a value has the products of a shape;
* `State.setAll` sets several variables, and `Bound` says that the variables of a shape hold
  a value;
* `yields_bind_pattern` and `Bound.yields` are about binding and evaluating a pattern.
-/

namespace CellCompiler

open Machine

namespace Layout.Shape

/-! ### Values of a shape -/

/-- The variables of all leaves. -/
def names (sh : Shape) : List String := sh.leaves.map Prod.fst

/-- The variables of the leaves of several parts. -/
def namesOf (parts : List Shape) : List String := (leavesOf parts).map Prod.fst

@[simp] theorem names_leaf (name : String) (l : Leaf) : names (.leaf name l) = [name] := by
  simp [names, leaves]

@[simp] theorem names_product (parts : List Shape) : names (.product parts) = namesOf parts := by
  simp [names, namesOf, leaves]

@[simp] theorem namesOf_nil : namesOf [] = [] := by simp [namesOf, leavesOf]

@[simp] theorem namesOf_cons (sh : Shape) (parts : List Shape) :
    namesOf (sh :: parts) = sh.names ++ namesOf parts := by
  simp [names, namesOf, leavesOf]

mutual

/-- The value has the products of the shape. -/
def Fits : Shape → Val → Prop
  | leaf _ _, v => v.isLeaf = true
  | product parts, .tensor vs => FitsAll parts vs
  | product _, _ => False

/-- The values have the shapes of the parts, one each. -/
def FitsAll : List Shape → List Val → Prop
  | [], [] => True
  | sh :: parts, v :: vs => sh.Fits v ∧ FitsAll parts vs
  | _, _ => False

end

theorem fitsAll_iff_forall₂ {parts : List Shape} {vs : List Val} :
    FitsAll parts vs ↔ List.Forall₂ Fits parts vs := by
  induction parts generalizing vs with
  | nil => cases vs <;> simp [FitsAll]
  | cons sh parts ih => cases vs <;> simp [FitsAll, ih]

mutual

theorem fits_norm : (sh : Shape) → (v : Val) → (sh.Fits v.norm ↔ sh.Fits v)
  | leaf _ _, v => by simp [Fits]
  | product parts, .tensor vs => by simpa [Val.norm, Fits] using fitsAll_norm parts vs
  | product _, .null | product _, .int _ | product _, .cell _ | product _, .slice _
  | product _, .builder _ | product _, .tuple _ => by simp [Val.norm, Fits]

theorem fitsAll_norm : (parts : List Shape) → (vs : List Val) →
    (FitsAll parts (Val.normAll vs) ↔ FitsAll parts vs)
  | [], [] | [], _ :: _ | _ :: _, [] => by simp [Val.normAll, FitsAll]
  | sh :: parts, v :: vs => by
    simp [Val.normAll, FitsAll, fits_norm sh v, fitsAll_norm parts vs]

end

theorem Fits.same {sh : Shape} {v w : Val} (h : sh.Fits v) (hsame : w.Same v) : sh.Fits w := by
  rw [← fits_norm, hsame, fits_norm]
  exact h

mutual

theorem Fits.length : {sh : Shape} → {v : Val} → sh.Fits v → v.flatten.length = sh.names.length
  | leaf _ _, v, h => by simp [Val.flatten_of_isLeaf h]
  | product parts, .tensor vs, h => by
    simpa [Val.flatten] using FitsAll.length h

theorem FitsAll.length : {parts : List Shape} → {vs : List Val} → FitsAll parts vs →
    (Val.flattenAll vs).length = (namesOf parts).length
  | [], [], _ => by simp [Val.flattenAll]
  | sh :: parts, v :: vs, h => by
    simp [Val.flattenAll, Fits.length h.1, FitsAll.length h.2]

end

end Layout.Shape

namespace Machine

open Layout (Shape)

variable {c : Code} {s s' : State} {names : List String} {vs : List Val}

/-! ### Setting several variables -/

/-- The state with several variables of the current function set, from left to right. -/
def State.setAll (s : State) : List (String × Val) → State
  | [] => s
  | (name, v) :: rest => (s.set name v).setAll rest

theorem State.setAll_append {ps qs : List (String × Val)} :
    s.setAll (ps ++ qs) = (s.setAll ps).setAll qs := by
  induction ps generalizing s with
  | nil => rfl
  | cons p ps ih => exact ih

@[simp] theorem State.globals_setAll {ps : List (String × Val)} :
    (s.setAll ps).globals = s.globals := by
  induction ps generalizing s with
  | nil => rfl
  | cons p ps ih => exact ih

@[simp] theorem State.data_setAll {ps : List (String × Val)} : (s.setAll ps).data = s.data := by
  induction ps generalizing s with
  | nil => rfl
  | cons p ps ih => exact ih

theorem State.get?_setAll_of_not_mem {x : String} (h : x ∉ names) :
    (s.setAll (names.zip vs)).get? x = s.get? x := by
  induction names generalizing s vs with
  | nil => rfl
  | cons name names ih =>
    cases vs with
    | nil => rfl
    | cons v vs =>
      rw [List.mem_cons, not_or] at h
      rw [List.zip_cons_cons, State.setAll, ih h.2, State.get?_set, if_neg h.1]

/-- Distinct variables hold what they are set to. -/
theorem State.forall₂_setAll (hnodup : names.Nodup) (hlength : names.length = vs.length) :
    List.Forall₂ (fun name v => (s.setAll (names.zip vs)).get? name = some v) names vs := by
  induction names generalizing s vs with
  | nil =>
    obtain rfl : vs = [] := by simpa [eq_comm] using hlength
    exact .nil
  | cons name names ih =>
    obtain ⟨v, vs, rfl⟩ := List.exists_cons_of_length_eq_add_one hlength.symm
    rw [List.nodup_cons] at hnodup
    rw [List.zip_cons_cons, State.setAll]
    refine .cons ?_ (ih hnodup.2 (by simpa using hlength))
    rw [State.get?_setAll_of_not_mem hnodup.1, State.get?_set, if_pos rfl]

/-- Only variables among `changed` differ. -/
structure State.Frames (changed : String → Prop) (s s' : State) : Prop where
  globals : s'.globals = s.globals
  data : s'.data = s.data
  kept : ∀ x, ¬ changed x → s'.get? x = s.get? x

theorem State.Frames.refl {changed : String → Prop} (s : State) : s.Frames changed s :=
  ⟨rfl, rfl, fun _ _ => rfl⟩

theorem State.Frames.trans {changed : String → Prop} {s'' : State} (h : s.Frames changed s')
    (h' : s'.Frames changed s'') : s.Frames changed s'' :=
  ⟨h'.globals.trans h.globals, h'.data.trans h.data,
    fun x hx => (h'.kept x hx).trans (h.kept x hx)⟩

theorem State.Frames.mono {changed more : String → Prop} (h : s.Frames changed s')
    (hmore : ∀ x, changed x → more x) : s.Frames more s' :=
  ⟨h.globals, h.data, fun x hx => h.kept x fun hc => hx (hmore x hc)⟩

theorem State.frames_set {name : String} {v : Val} : s.Frames (· = name) (s.set name v) :=
  ⟨rfl, rfl, fun x hx => by rw [State.get?_set, if_neg hx]⟩

theorem State.frames_setAll : s.Frames (· ∈ names) (s.setAll (names.zip vs)) :=
  ⟨State.globals_setAll, State.data_setAll, fun _ hx => State.get?_setAll_of_not_mem hx⟩

/-- Variables that are back after a call leave the state as it was. -/
theorem State.Frames.restored {changed : String → Prop} (h : s.Frames changed s') (frame : Dict Val) :
    { s' with frame } = { s with frame } := by
  obtain ⟨f, g, d⟩ := s'
  obtain ⟨f', g', d'⟩ := s
  obtain ⟨rfl, rfl⟩ : g = g' ∧ d = d' := ⟨h.globals, h.data⟩
  rfl

/-! ### Patterns -/

/-- The variables of the shape hold the leaves of a value of this shape. -/
structure Bound (s : State) (sh : Shape) (v : Val) : Prop where
  fits : sh.Fits v
  leaves : List.Forall₂ (fun name x => s.get? name = some x) sh.names v.flatten

theorem Bound.frames {changed : String → Prop} {sh : Shape} {v : Val} (h : Bound s sh v)
    (hframes : s.Frames changed s') (hnames : ∀ x ∈ sh.names, ¬ changed x) : Bound s' sh v := by
  refine ⟨h.fits, ?_⟩
  have hkept : ∀ x ∈ sh.names, s'.get? x = s.get? x := fun x hx => hframes.kept x (hnames x hx)
  have hleaves := h.leaves
  generalize sh.names = names, v.flatten = vs at hleaves hkept ⊢
  induction hleaves with
  | nil => exact .nil
  | cons hx _ ih =>
    rw [List.forall_mem_cons] at hkept
    exact .cons (hkept.1.trans hx) (ih hkept.2)

theorem bound_setAll {sh : Shape} {v : Val} (hfits : sh.Fits v) (hnodup : sh.names.Nodup) :
    Bound (s.setAll (sh.names.zip v.flatten)) sh v :=
  ⟨hfits, State.forall₂_setAll hnodup hfits.length.symm⟩

mutual

theorem yields_bind_pattern : {sh : Shape} → {v : Val} → {s s' : State} → {u : Unit} → sh.Fits v →
    (Yields (bind true v sh.pattern) s u s' ↔ s' = s.setAll (sh.names.zip v.flatten))
  | .leaf name l, v, s, s', u, h => by
    rw [Shape.pattern, yields_bind_ident, State.assign_of_declare]
    simp [Val.flatten_of_isLeaf h, State.setAll]
  | .product parts, .tensor vs, s, s', u, h => by
    have hlength : vs.length = (Shape.patterns parts).length := by
      rw [← (Shape.fitsAll_iff_forall₂.1 h).length_eq]
      clear h
      induction parts with
      | nil => rfl
      | cons sh parts ih => simp [Shape.patterns, ih]
    rw [Shape.pattern, bind]
    simp only [hlength, if_true]
    rw [yields_bindAll_patterns h, Shape.names_product, Val.flatten]

theorem yields_bindAll_patterns : {parts : List Shape} → {vs : List Val} → {s s' : State} →
    {u : Unit} → Shape.FitsAll parts vs →
    (Yields (bindAll true vs (Shape.patterns parts)) s u s' ↔
      s' = s.setAll ((Shape.namesOf parts).zip (Val.flattenAll vs)))
  | [], [], s, s', u, _ => by
    rw [Shape.patterns, bindAll]
    · simp [State.setAll]
    · simp
  | sh :: parts, v :: vs, s, s', u, h => by
    rw [Shape.patterns, bindAll]
    simp only [yields_bind, yields_bind_pattern h.1, Shape.namesOf_cons, Val.flattenAll,
      List.zip_append h.1.length.symm, State.setAll_append]
    constructor
    · rintro ⟨_, t, rfl, ht⟩
      exact (yields_bindAll_patterns h.2).1 ht
    · intro ht
      exact ⟨(), _, rfl, (yields_bindAll_patterns h.2).2 ht⟩

end

/-- A product is bound part by part. -/
theorem bound_product_cons {sh : Shape} {parts : List Shape} {v : Val} :
    Bound s (.product (sh :: parts)) (.tensor (v :: vs)) ↔
      Bound s sh v ∧ Bound s (.product parts) (.tensor vs) := by
  constructor
  · rintro ⟨hfits, hleaves⟩
    rw [Shape.names_product, Shape.namesOf_cons, Val.flatten, Val.flattenAll] at hleaves
    have hhead := List.forall₂_take sh.names.length hleaves
    have htail := List.forall₂_drop sh.names.length hleaves
    rw [List.take_left, List.take_left' hfits.1.length] at hhead
    rw [List.drop_left, List.drop_left' hfits.1.length] at htail
    exact ⟨⟨hfits.1, hhead⟩, hfits.2, by simpa [Val.flatten] using htail⟩
  · rintro ⟨hv, hvs⟩
    refine ⟨⟨hv.fits, hvs.fits⟩, ?_⟩
    rw [Shape.names_product, Shape.namesOf_cons, Val.flatten, Val.flattenAll]
    exact List.rel_append hv.leaves (by simpa [Val.flatten] using hvs.leaves)

/-- Binding variables to values, one each. -/
theorem yields_bindAll_idents {u : Unit} (hlength : vs.length = names.length) :
    Yields (bindAll true vs (names.map Target.id)) s u s' ↔ s' = s.setAll (names.zip vs) := by
  induction names generalizing s vs with
  | nil =>
    obtain rfl : vs = [] := by simpa using hlength
    rw [List.map_nil, bindAll]
    · simp [State.setAll]
    · simp
  | cons name names ih =>
    obtain ⟨v, vs, rfl⟩ := List.exists_cons_of_length_eq_add_one hlength
    rw [List.map_cons, bindAll]
    simp only [yields_bind, Target.id, yields_bind_ident, State.assign_of_declare]
    constructor
    · rintro ⟨_, t, rfl, ht⟩
      exact (ih (by simpa using hlength)).1 ht
    · intro ht
      exact ⟨(), _, rfl, (ih (by simpa using hlength)).2 ht⟩

theorem yields_bind_idents {u : Unit} (hlength : vs.length = names.length) :
    Yields (bind true (.tensor vs) (.tensor (names.map Target.id))) s u s' ↔
      s' = s.setAll (names.zip vs) := by
  rw [bind]
  simp only [List.length_map, hlength, if_true]
  exact yields_bindAll_idents hlength

theorem yields_assignAll_idents {u : Unit} (hnames : ∀ x ∈ names, (s.get? x).isSome)
    (hlength : vs.length = names.length) :
    Yields (bindAll false vs (names.map Target.id)) s u s' ↔ s' = s.setAll (names.zip vs) := by
  induction names generalizing s vs with
  | nil =>
    obtain rfl : vs = [] := by simpa using hlength
    rw [List.map_nil, bindAll]
    · simp [State.setAll]
    · simp
  | cons name names ih =>
    obtain ⟨v, vs, rfl⟩ := List.exists_cons_of_length_eq_add_one hlength
    obtain ⟨hname, hnames⟩ := List.forall_mem_cons.1 hnames
    obtain ⟨w, hw⟩ := Option.isSome_iff_exists.1 hname
    have hnames' : ∀ x ∈ names, ((s.set name v).get? x).isSome := fun x hx => by
      rw [State.get?_set]
      split
      · rfl
      · exact hnames x hx
    have hrest := @ih (s.set name v) vs hnames' (by simpa using hlength)
    rw [List.map_cons, bindAll]
    simp only [yields_bind, Target.id, yields_bind_set hw]
    constructor
    · rintro ⟨_, t, rfl, ht⟩
      exact hrest.1 ht
    · intro ht
      exact ⟨(), _, rfl, hrest.2 ht⟩

/-- Assigning to variables that are there, one value each. -/
theorem yields_assign_idents {u : Unit} (hnames : ∀ x ∈ names, (s.get? x).isSome)
    (hlength : vs.length = names.length) :
    Yields (bind false (.tensor vs) (.tensor (names.map Target.id))) s u s' ↔
      s' = s.setAll (names.zip vs) := by
  rw [bind]
  simp only [List.length_map, hlength, if_true]
  exact yields_assignAll_idents hnames hlength

theorem yields_evalAll_idents
    (h : List.Forall₂ (fun name x => s.get? name = some x) names vs) :
    Yields (evalAll c (names.map Target.id)) s vs s := by
  induction h with
  | nil => simp
  | cons hx _ ih =>
    rw [List.map_cons, yields_evalAll_cons]
    exact ⟨_, s, (yields_ident hx).2 ⟨rfl, rfl⟩, _, ih, rfl⟩

mutual

/-- **Patterns give back what they are bound to.** -/
theorem Bound.yields : {sh : Shape} → {v : Val} → Bound s sh v → Yields (eval c sh.pattern) s v s
  | .leaf name l, v, ⟨hfits, hleaves⟩ => by
    rw [Val.flatten_of_isLeaf hfits, Shape.names_leaf] at hleaves
    rw [Shape.pattern]
    cases hleaves with
    | cons hx _ => exact (yields_ident hx).2 ⟨rfl, rfl⟩
  | .product parts, .tensor vs, h => by
    rw [Shape.pattern, yields_tensor]
    exact ⟨vs, boundAll_yields h, rfl⟩

theorem boundAll_yields : {parts : List Shape} → {vs : List Val} →
    Bound s (.product parts) (.tensor vs) → Yields (evalAll c (Shape.patterns parts)) s vs s
  | [], [], _ => by simp [Shape.patterns]
  | sh :: parts, v :: vs, h => by
    obtain ⟨hv, hvs⟩ := bound_product_cons.1 h
    rw [Shape.patterns, yields_evalAll_cons]
    exact ⟨v, s, hv.yields, vs, boundAll_yields hvs, rfl⟩
  | [], _ :: _, h | _ :: _, [], h => h.fits.elim

end

end Machine

end CellCompiler
