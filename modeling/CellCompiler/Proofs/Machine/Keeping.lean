import CellCompiler.Proofs.Machine.Outcomes
import CellCompiler.Proofs.Machine.Patterns

/-!
# What finished runs keep

Runs that are only known to have ended: what they called was there, and variables that they do not
assign to are as before. Functions that nothing is known of may change global variables and the data
of the contract, so `State.Keeps` is about the variables of the current function alone.

* `Yields.called` says that a call that has ended was to a function of the module or of the target;
* `Carries` says that the variables of a shape hold the parts of a value, whatever these are, and
  `Carries.means` that the pattern of the shape then has this value;
* `exists_carries_of_bind` is about binding a pattern to a value that nothing is known of;
* `Val.OnStack` tells the values that take up one place on the stack.
-/

namespace CellCompiler

namespace Machine

open Layout (Shape)

variable {c : Code} {s s' s'' : State} {v w : Val} {name : String} {args : List Val}

/-! ### Variables -/

/-- Only variables among `changed` differ. -/
def State.Keeps (changed : String → Prop) (s s' : State) : Prop :=
  ∀ x, ¬ changed x → s'.get? x = s.get? x

section Keeps

variable {changed more : String → Prop}

theorem State.Keeps.refl (s : State) : s.Keeps changed s := fun _ _ => rfl

theorem State.Keeps.trans (h : s.Keeps changed s') (h' : s'.Keeps changed s'') :
    s.Keeps changed s'' :=
  fun x hx => (h' x hx).trans (h x hx)

theorem State.Keeps.mono (h : s.Keeps changed s') (hmore : ∀ x, changed x → more x) :
    s.Keeps more s' :=
  fun x hx => h x fun hc => hx (hmore x hc)

theorem State.Frames.keeps (h : s.Frames changed s') : s.Keeps changed s' := h.kept

theorem State.keeps_of_frame_eq (h : s'.frame = s.frame) : s.Keeps changed s' := by
  intro x _
  rw [State.get?, State.get?, h]

end Keeps

/-- Calls have variables of their own. -/
theorem Yields.frame_eq (h : Yields (call c name args) s v s') : s'.frame = s.frame :=
  frameless_call.frame_eq h

/-! ### Callees -/

/-- The functions that need no definition to be run. -/
def primitives : List String := "slice_refs" :: Target.builtins

theorem mem_primitives_of_call {host : Host} (h : Primitive.call host name args = .ok v) :
    name ∈ primitives := by
  revert h
  fun_cases Primitive.call host name args
  on_goal -1 => exact nofun
  all_goals exact fun _ => by simp [primitives, Target.builtins]

theorem mem_primitives_of_modify {p : Val × Val} (h : Primitive.modify name args = .ok p) :
    name ∈ primitives := by
  cases args with
  | nil => simp [Primitive.modify] at h
  | cons receiver rest =>
    simp only [Primitive.modify, Except.bind_eq_ok] at h
    obtain ⟨x, -, q, hread, -⟩ := h
    unfold Primitive.read at hread
    split at hread
    on_goal -1 => simp at hread
    all_goals simp [primitives, Target.builtins]

/-- A call of anything else that has ended was to a function of the module. -/
theorem Yields.called (h : Yields (call c name args) s v s') (hname : name ∉ primitives) :
    ∃ item, c.functions.get? name = some item := by
  cases hget : c.functions.get? name with
  | some item => exact ⟨item, rfl⟩
  | none =>
    rw [call, hget] at h
    dsimp only at h
    unfold builtin at h
    split at h
    · exact absurd (by decide) hname
    · exact absurd (by decide) hname
    · exact absurd (mem_primitives_of_call (yields_ofExcept.1 h).1) hname

/-- A modifying call without arguments other than constants changes its receiver only. -/
theorem yields_modify_keeps {es : List Target.Expr} {vs : List Val} {slice : String} {x : Val}
    (hs : s.get? slice = some x) (hargs : List.Forall₂ (Means c s) es vs)
    (h : Yields (eval c (Target.modify (Target.id slice) name es)) s v s') :
    ∃ updated, s.Keeps (· = slice) s' ∧ s'.get? slice = some updated ∧
      ((∃ item, c.functions.get? name = some item) ∧
          (∃ t, Yields (call c name (x :: vs)) s (.tensor [updated, v]) t) ∨
        Primitive.modify name (x :: vs) = .ok (updated, v)) := by
  have hall : List.Forall₂ (Means c s) (Target.id slice :: es) (x :: vs) := .cons (means_id hs) hargs
  cases hget : c.functions.get? name with
  | none =>
    rw [Target.modify, yields_modify_primitive hget] at h
    obtain ⟨ws, s₁, hws, updated, hmodify, hbind⟩ := h
    obtain ⟨rfl, rfl⟩ := (means_evalAll hall).eq hws
    rw [Target.id, yields_bind_set hs] at hbind
    subst hbind
    exact ⟨updated, State.frames_set.keeps, by simp, .inr hmodify⟩
  | some item =>
    rw [Target.modify, yields_modify_function hget] at h
    obtain ⟨ws, s₁, hws, result, s₂, hcall, updated, hpair, hbind⟩ := h
    obtain ⟨rfl, rfl⟩ := (means_evalAll hall).eq hws
    obtain rfl : result = .tensor [updated, v] := by
      unfold pair at hpair
      split at hpair
      · simpa using hpair
      · simp at hpair
    have hframe := hcall.frame_eq
    have hs₂ : s₂.get? slice = some x := by rw [State.get?, hframe, ← State.get?, hs]
    rw [Target.id, yields_bind_set hs₂] at hbind
    subst hbind
    exact ⟨updated, (State.keeps_of_frame_eq hframe).trans State.frames_set.keeps, by simp,
      .inl ⟨⟨item, rfl⟩, s₂, hcall⟩⟩

/-! ### Patterns -/

mutual

/-- The variables of the shape hold the parts of the value. -/
def Carries (s : State) : Shape → Val → Prop
  | .leaf name _, v => s.get? name = some v
  | .product parts, .tensor vs => CarriesAll s parts vs
  | .product _, _ => False

/-- The variables of the parts hold the values, one each. -/
def CarriesAll (s : State) : List Shape → List Val → Prop
  | [], [] => True
  | sh :: parts, v :: vs => Carries s sh v ∧ CarriesAll s parts vs
  | _, _ => False

end

mutual

theorem Carries.keeps {changed : String → Prop} (hkeeps : s.Keeps changed s') : {sh : Shape} →
    {v : Val} → Carries s sh v → (∀ x ∈ sh.names, ¬ changed x) → Carries s' sh v
  | .leaf name _, v, h, hnames => by
    rw [Carries, hkeeps name (hnames name (by simp))]
    exact h
  | .product parts, .tensor vs, h, hnames =>
    CarriesAll.keeps hkeeps h (by simpa using hnames)

theorem CarriesAll.keeps {changed : String → Prop} (hkeeps : s.Keeps changed s') :
    {parts : List Shape} → {vs : List Val} → CarriesAll s parts vs →
    (∀ x ∈ Shape.namesOf parts, ¬ changed x) → CarriesAll s' parts vs
  | [], [], _, _ => trivial
  | sh :: parts, v :: vs, h, hnames => by
    rw [Shape.namesOf_cons, List.forall_mem_append] at hnames
    exact ⟨h.1.keeps hkeeps hnames.1, h.2.keeps hkeeps hnames.2⟩

end

mutual

/-- A pattern has the value that its variables hold. -/
theorem Carries.means : {sh : Shape} → {v : Val} → Carries s sh v → Means c s sh.pattern v
  | .leaf name l, v, h => by
    rw [Shape.pattern]
    exact means_id h
  | .product parts, .tensor vs, h => by
    rw [Shape.pattern]
    exact .tensor (CarriesAll.means h)

theorem CarriesAll.means : {parts : List Shape} → {vs : List Val} → CarriesAll s parts vs →
    List.Forall₂ (Means c s) (Shape.patterns parts) vs
  | [], [], _ => by
    rw [Shape.patterns]
    exact .nil
  | sh :: parts, v :: vs, h => by
    rw [Shape.patterns]
    exact .cons h.1.means h.2.means

end

mutual

theorem exists_carries : {sh : Shape} → {vs : List Val} →
    List.Forall₂ (fun name x => s.get? name = some x) sh.names vs → ∃ v, Carries s sh v
  | .leaf name l, vs, h => by
    rw [Shape.names_leaf] at h
    cases h with
    | cons hx _ => exact ⟨_, hx⟩
  | .product parts, vs, h => by
    obtain ⟨ws, hws⟩ := exists_carriesAll (by simpa using h)
    exact ⟨.tensor ws, hws⟩

theorem exists_carriesAll : {parts : List Shape} → {vs : List Val} →
    List.Forall₂ (fun name x => s.get? name = some x) (Shape.namesOf parts) vs →
    ∃ ws, CarriesAll s parts ws
  | [], vs, _ => ⟨[], trivial⟩
  | sh :: parts, vs, h => by
    rw [Shape.namesOf_cons] at h
    have hhead := List.forall₂_take sh.names.length h
    have htail := List.forall₂_drop sh.names.length h
    rw [List.take_left] at hhead
    rw [List.drop_left] at htail
    obtain ⟨w, hw⟩ := exists_carries hhead
    obtain ⟨ws, hws⟩ := exists_carriesAll htail
    exact ⟨w :: ws, hw, hws⟩

end

mutual

/-- The variables of a shape hold the leaves of the value, each perhaps several at once. -/
theorem Carries.leaves : {sh : Shape} → {v : Val} → Carries s sh v →
    ∃ vs, List.Forall₂ (fun name x => s.get? name = some x) sh.names vs ∧
      Val.flattenAll vs = v.flatten
  | .leaf name l, v, h => ⟨[v], by simpa [Carries] using h, by simp [Val.flattenAll]⟩
  | .product parts, .tensor vs, h => by simpa [Val.flatten] using CarriesAll.leaves h

theorem CarriesAll.leaves : {parts : List Shape} → {vs : List Val} → CarriesAll s parts vs →
    ∃ ws, List.Forall₂ (fun name x => s.get? name = some x) (Shape.namesOf parts) ws ∧
      Val.flattenAll ws = Val.flattenAll vs
  | [], [], _ => ⟨[], by simp, rfl⟩
  | sh :: parts, v :: vs, h => by
    obtain ⟨xs, hxs, hhead⟩ := h.1.leaves
    obtain ⟨ys, hys, htail⟩ := h.2.leaves
    rw [Shape.namesOf_cons]
    exact ⟨xs ++ ys, List.rel_append hxs hys, by
      rw [Val.flattenAll_append, hhead, htail, Val.flattenAll]⟩

end

@[simp] theorem length_patterns {parts : List Shape} :
    (Shape.patterns parts).length = parts.length := by
  induction parts with
  | nil => rw [Shape.patterns]; rfl
  | cons sh parts ih => rw [Shape.patterns, List.length_cons, ih, List.length_cons]

/-- The leaves of a pattern are its variables. -/
theorem leafPatternsOf_patterns : (parts : List Shape) →
    leafPatternsOf (Shape.patterns parts) = (Shape.namesOf parts).map Target.id
  | [] => by simp [Shape.patterns, leafPatternsOf]
  | .leaf name l :: parts => by
    simp [Shape.patterns, Shape.pattern, leafPatternsOf, leafPatterns, leafPatternsOf_patterns parts,
      Target.id]
  | .product inner :: parts => by
    simp [Shape.patterns, Shape.pattern, leafPatternsOf, leafPatterns, leafPatternsOf_patterns parts,
      leafPatternsOf_patterns inner]

theorem yields_bindLeaves {names : List String} {vs : List Val} {u : Unit}
    (hlength : vs.length = names.length) :
    Yields (bindLeaves true (names.map Target.id) vs) s u s' ↔ s' = s.setAll (names.zip vs) := by
  induction names generalizing s vs with
  | nil =>
    obtain rfl : vs = [] := by simpa using hlength
    rw [List.map_nil, bindLeaves]
    · simp [State.setAll]
    · simp
  | cons name names ih =>
    obtain ⟨v, vs, rfl⟩ := List.exists_cons_of_length_eq_add_one hlength
    rw [List.map_cons, bindLeaves]
    simp only [yields_bind]
    have hleaf : ∀ {t : State} {u : Unit}, Yields (bindLeaf true v (Target.id name)) s u t ↔
        t = s.set name v := by
      intro t u
      rw [← State.assign_of_declare]
      exact yields_modify
    simp only [hleaf]
    constructor
    · rintro ⟨_, t, rfl, ht⟩
      exact (ih (by simpa using hlength)).1 ht
    · intro ht
      exact ⟨(), _, rfl, (ih (by simpa using hlength)).2 ht⟩

/-- A tensor of patterns is bound part by part, takes the whole value if it is a single pattern, or
takes the leaves of the value. -/
theorem cases_bind_tensor {patterns : List Target.Expr} {u : Unit}
    (h : Yields (bind true v (.tensor patterns)) s u s') :
    (∃ vs, v = .tensor vs ∧ vs.length = patterns.length ∧
        Yields (bindAll true vs patterns) s u s') ∨
      (patterns.length = 1 ∧ (∀ vs, v = .tensor vs → vs.length ≠ 1) ∧
        Yields (bindAll true [v] patterns) s u s') ∨
      v.flatten.length = (leafPatternsOf patterns).length ∧
        Yields (bindLeaves true (leafPatternsOf patterns) v.flatten) s u s' := by
  have hspread : ∀ {leaves : List Val} {targets : List Target.Expr} {fault : Fault},
      Yields (if leaves.length = targets.length then bindLeaves true targets leaves
        else throw fault) s u s' →
      leaves.length = targets.length ∧ Yields (bindLeaves true targets leaves) s u s' := by
    intro leaves targets fault h
    split at h
    · next hlength => exact ⟨hlength, h⟩
    · exact absurd h yields_throw
  cases v with
  | tensor vs =>
    rw [bind] at h
    split_ifs at h with hvs hone
    · exact .inl ⟨vs, rfl, hvs, h⟩
    · exact .inr (.inl ⟨hone, by simpa [hone] using hvs, h⟩)
    · exact .inr (.inr (hspread h))
  | _ =>
    rw [bind] at h
    · split_ifs at h with hone
      · exact .inr (.inl ⟨hone, by simp, h⟩)
      · exact .inr (.inr (hspread h))
    · simp

mutual

/-- Binding a pattern sets each of its variables. -/
theorem exists_setAll_of_bind : {sh : Shape} → {v : Val} → {s s' : State} →
    Yields (bind true v sh.pattern) s () s' →
    ∃ vs, vs.length = sh.names.length ∧ s' = s.setAll (sh.names.zip vs)
  | .leaf name l, v, s, s', h => by
    rw [Shape.pattern, yields_bind_ident, State.assign_of_declare] at h
    exact ⟨[v], by simp, by simpa [State.setAll] using h⟩
  | .product parts, v, s, s', h => by
    rw [Shape.names_product]
    rw [Shape.pattern] at h
    rcases cases_bind_tensor h with ⟨vs, -, hlength, h⟩ | ⟨hlength, -, h⟩ | ⟨hlength, h⟩
    · exact exists_setAll_of_bindAll hlength h
    · have hone : [v].length = (Shape.patterns parts).length := hlength.symm
      exact exists_setAll_of_bindAll hone h
    · rw [leafPatternsOf_patterns] at hlength h
      rw [List.length_map] at hlength
      exact ⟨_, hlength, (yields_bindLeaves hlength).1 h⟩

theorem exists_setAll_of_bindAll : {parts : List Shape} → {vs : List Val} → {s s' : State} →
    vs.length = (Shape.patterns parts).length →
    Yields (bindAll true vs (Shape.patterns parts)) s () s' →
    ∃ ws, ws.length = (Shape.namesOf parts).length ∧
      s' = s.setAll ((Shape.namesOf parts).zip ws)
  | [], vs, s, s', hlength, h => by
    obtain rfl : vs = [] := by simpa [Shape.patterns] using hlength
    rw [Shape.patterns, bindAll, yields_pure] at h
    · exact ⟨[], rfl, by simpa [State.setAll] using h.2⟩
    · simp
  | sh :: parts, vs, s, s', hlength, h => by
    rw [Shape.patterns, List.length_cons] at hlength
    obtain ⟨v, vs, rfl⟩ := List.exists_cons_of_length_eq_add_one hlength
    rw [Shape.patterns, bindAll, yields_bind] at h
    obtain ⟨_, t, hv, hvs⟩ := h
    obtain ⟨xs, hxs, rfl⟩ := exists_setAll_of_bind hv
    obtain ⟨ys, hys, rfl⟩ := exists_setAll_of_bindAll (by simpa using hlength) hvs
    refine ⟨xs ++ ys, by simp [hxs, hys], ?_⟩
    rw [Shape.namesOf_cons, List.zip_append hxs.symm, State.setAll_append]

end

/-- Whatever a pattern with distinct variables is bound to, it has a value afterwards. -/
theorem exists_carries_of_bind {sh : Shape} (hnodup : sh.names.Nodup)
    (h : Yields (bind true v sh.pattern) s () s') :
    s.Keeps (· ∈ sh.names) s' ∧ ∃ w, Carries s' sh w := by
  obtain ⟨vs, hlength, rfl⟩ := exists_setAll_of_bind h
  exact ⟨State.frames_setAll.keeps, exists_carries (State.forall₂_setAll hnodup hlength.symm)⟩

/-! ### Places on the stack -/

mutual

/-- The value takes up one place on the stack, and so does every entry of a tuple. -/
def Val.OnStack : Val → Prop
  | .tensor _ => False
  | .tuple items => Val.AllOnStack items
  | _ => True

/-- Each of the values takes up one place on the stack. -/
def Val.AllOnStack : List Val → Prop
  | [] => True
  | v :: vs => v.OnStack ∧ Val.AllOnStack vs

end

theorem Val.allOnStack_iff {vs : List Val} : Val.AllOnStack vs ↔ ∀ v ∈ vs, v.OnStack := by
  induction vs with
  | nil => simp [Val.AllOnStack]
  | cons v vs ih => simp [Val.AllOnStack, ih]

theorem Val.OnStack.isLeaf (h : v.OnStack) : v.isLeaf = true := by
  cases v with
  | tensor items => exact h.elim
  | _ => rfl

theorem Val.flattenAll_of_allOnStack {vs : List Val} (h : Val.AllOnStack vs) :
    Val.flattenAll vs = vs :=
  Val.flattenAll_of_isLeaf fun v hv => (Val.allOnStack_iff.1 h v hv).isLeaf

/-- The value has one place on the stack for each of `n` parts, or for all of them. -/
def Val.Passed (n : Nat) (v : Val) : Prop :=
  v.OnStack ∨ n ≠ 0 ∧ ∃ vs, v = .tensor vs ∧ vs.length = n ∧ Val.AllOnStack vs

theorem leafPatternsOf_idents {names : List String} :
    leafPatternsOf (names.map Target.id) = names.map Target.id := by
  induction names with
  | nil => simp [leafPatternsOf]
  | cons name names ih => simp [leafPatternsOf, leafPatterns, ih, Target.id]

/-- Binding variables to the parts of a value sets each of them, to a value with a place of its own
if the parts have one. -/
theorem exists_setAll_of_bind_idents {names : List String} {regular : Prop}
    (h : Yields (bind true v (.tensor (names.map Target.id))) s () s')
    (hv : regular → v.Passed names.length) :
    ∃ vs, vs.length = names.length ∧ s' = s.setAll (names.zip vs) ∧
      (regular → Val.AllOnStack vs) := by
  rcases cases_bind_tensor h with ⟨vs, rfl, hlength, h⟩ | ⟨hlength, hnot, h⟩ | ⟨hlength, h⟩
  · rw [List.length_map] at hlength
    refine ⟨vs, hlength, (yields_bindAll_idents hlength).1 h, fun hr => ?_⟩
    rcases hv hr with hstack | ⟨-, ws, heq, -, hws⟩
    · exact hstack.elim
    · obtain rfl : vs = ws := by simpa using heq
      exact hws
  · rw [List.length_map] at hlength
    have hone : [v].length = names.length := hlength.symm
    refine ⟨[v], hone, (yields_bindAll_idents hone).1 h, fun hr => ?_⟩
    rcases hv hr with hstack | ⟨-, ws, rfl, hws, -⟩
    · exact ⟨hstack, trivial⟩
    · exact absurd (hws.trans hlength) (hnot ws rfl)
  · rw [leafPatternsOf_idents] at hlength h
    rw [List.length_map] at hlength
    refine ⟨v.flatten, hlength, (yields_bindLeaves hlength).1 h, fun hr => ?_⟩
    rcases hv hr with hstack | ⟨-, ws, rfl, -, hws⟩
    · rw [Val.flatten_of_isLeaf hstack.isLeaf]
      exact ⟨hstack, trivial⟩
    · rw [Val.flatten, Val.flattenAll_of_allOnStack hws]
      exact hws

end Machine

end CellCompiler
