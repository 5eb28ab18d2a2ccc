import CellCompiler.Emission.Output
import CellCompiler.Proofs.Dict
import CellCompiler.Proofs.Failure

/-!
# Callees come before callers

The walk that orders the functions of a module keeps to dependencies: when it is done, every name
comes after the names that it depends on.

* `Registry.Ordered` says this of a list of names, and `Registry.visit_ordered` that a visit keeps
  it;
* `Output.CalleesFirst` says that every function of a module depends on itself, on earlier functions
  and on supplied names only, and `Registry.Ordered.calleesFirst` that a module in such an order is
  so;
* `Registry.mem_functions_of_finalize` says that no function is lost.
-/

namespace CellCompiler

namespace Emission

/-- Every function depends on itself, on functions before it and on supplied names only. -/
def Output.CalleesFirst (out : Output) (supplied : String → Prop) : Prop :=
  ∀ i f, out.functions[i]? = some f → ∀ dep ∈ f.depends.names,
    dep = f.name ∨ supplied dep ∨ ∃ g ∈ out.functions.take i, g.name = dep

namespace Registry

variable {r : Registry}

/-- Every entry of a registry is filed under its own name. -/
def Filed (r : Registry) : Prop :=
  ∀ name entry, r.functions.get? name = some entry → entry.name = name

/-- The name is supplied by the target's own library. -/
def Supplies (r : Registry) (name : String) : Prop :=
  ∃ entry, r.functions.get? name = some entry ∧ entry.kind = .skip

/-- Every name is registered and comes after everything that it depends on. -/
inductive Ordered (r : Registry) : List String → Prop where
  | nil : r.Ordered []
  | snoc {names : List String} {name : String} {entry : Entry} : r.Ordered names →
      r.functions.get? name = some entry → (∀ dep ∈ r.dependencies entry, dep ∈ names) →
      r.Ordered (names ++ [name])

/-! ### The walk -/

/-- What a visit achieves: nothing is lost, the order is right and the name is there. -/
structure Visited (r : Registry) (done : List String) (name : String) (done' : List String) :
    Prop where
  kept : ∀ x ∈ done, x ∈ done'
  ordered : r.Ordered done'
  mem : name ∈ done'

theorem foldlM_visited {f : List String → String → Except CompileError (List String)}
    (hf : ∀ done name done', r.Ordered done → f done name = .ok done' → r.Visited done name done')
    {names done done' : List String} (hdone : r.Ordered done)
    (h : names.foldlM f done = .ok done') :
    (∀ x ∈ done, x ∈ done') ∧ r.Ordered done' ∧ ∀ name ∈ names, name ∈ done' := by
  have hkept := List.foldlM_invariant (fun b => (∀ x ∈ done, x ∈ b) ∧ r.Ordered b)
    (fun name _ b b' hb hstep => by
      have hvisit := hf b name b' hb.2 hstep
      exact ⟨fun x hx => hvisit.kept x (hb.1 x hx), hvisit.ordered⟩) ⟨fun x hx => hx, hdone⟩ h
  have hmem := List.foldlM_reaches r.Ordered (fun name b => name ∈ b)
    (fun name _ b b' hb hstep => ⟨(hf b name b' hb hstep).ordered, (hf b name b' hb hstep).mem⟩)
    (fun name _ x b b' hb hx hstep => (hf b name b' hb hstep).kept x hx) hdone h
  exact ⟨hkept.1, hkept.2, hmem⟩

theorem visit_ordered {fuel : Nat} {stack done done' : List String} {name : String}
    (hdone : r.Ordered done) (h : r.visit fuel stack done name = .ok done') :
    r.Visited done name done' := by
  induction fuel generalizing stack done done' name with
  | zero => simp [visit] at h
  | succ fuel ih =>
    rw [visit] at h
    by_cases hmem : name ∈ done
    · obtain rfl : done = done' := by simpa [hmem] using h
      exact ⟨fun x hx => hx, hdone, hmem⟩
    · by_cases hstack : name ∈ stack
      · simp [hmem, hstack] at h
      · cases hentry : r.functions.get? name with
        | none => simp [hmem, hstack, hentry] at h
        | some entry =>
          simp only [hmem, hstack, hentry, List.contains_eq_mem, decide_false, Bool.false_eq_true,
            if_false, Except.bind_eq_ok, Except.pure_eq_ok] at h
          obtain ⟨below, hbelow, rfl⟩ := h
          obtain ⟨hkept, hordered, hdeps⟩ :=
            foldlM_visited (fun _ _ _ hd hv => ih hd hv) hdone hbelow
          exact ⟨fun x hx => List.mem_append_left _ (hkept x hx),
            .snoc hordered hentry hdeps, by simp⟩

theorem sort_ordered {starts order : List String} (h : r.sort starts = .ok order) :
    r.Ordered order ∧ ∀ name ∈ starts, name ∈ order := by
  obtain ⟨-, hordered, hmem⟩ := foldlM_visited (fun _ _ _ hd hv => visit_ordered hd hv) .nil h
  exact ⟨hordered, hmem⟩

/-! ### Finished modules -/

theorem mem_foldl_once {name : String} {names found : List String}
    (h : name ∈ found ∨ name ∈ names) :
    name ∈ names.foldl (fun found x => if found.contains x then found else found ++ [x]) found := by
  induction names generalizing found with
  | nil => simpa using h
  | cons x names ih =>
    rw [List.foldl_cons]
    apply ih
    by_cases hx : x ∈ found
    · rcases h with h | h
      · simp [hx, h]
      · rcases List.mem_cons.1 h with rfl | h
        · simp [hx]
        · simp [h]
    · simpa [hx, or_assoc] using h

theorem has_of_checkDependencies (h : r.checkDependencies = .ok ()) {name dep : String}
    {entry : Entry} (hentry : r.functions.get? name = some entry)
    (hdep : dep ∈ entry.depends.names) : r.has dep = true := by
  have hmissing : r.missing = [] := by
    rw [checkDependencies] at h
    split at h
    · assumption
    · simp at h
  by_contra hhas
  have hmentioned : dep ∈ r.mentioned :=
    List.mem_flatMap.2 ⟨entry, Dict.mem_values_of_get? hentry, hdep⟩
  have hmem : dep ∈ r.missing :=
    mem_foldl_once (.inr (List.mem_filter.2 ⟨hmentioned, by simpa using hhas⟩))
  simp [hmissing] at hmem

theorem mem_dependencies (h : r.checkDependencies = .ok ()) {name dep : String} {entry : Entry}
    (hentry : r.functions.get? name = some entry) (hdep : dep ∈ entry.depends.names)
    (hne : dep ≠ entry.name) : dep ∈ r.dependencies entry := by
  have hkey : dep ∈ r.functions.keys :=
    Dict.mem_keys_iff.2 (Dict.contains_eq_true_iff.1 (has_of_checkDependencies h hentry hdep))
  simp [dependencies, NameSet.contains, hkey, hdep, hne]

/-- The functions of a module with one more name at the end of its order. -/
theorem functions_output_snoc {names : List String} {name : String} {entry : Entry}
    (hentry : r.functions.get? name = some entry) :
    (r.output (names ++ [name])).functions =
      (r.output names).functions ++ if entry.kind = .skip then [] else [entry] := by
  by_cases hskip : entry.kind = .skip <;> simp [output, hentry, hskip]

/-- A name in an order is supplied or the name of a function of the module. -/
theorem Ordered.supplies_or_mem (hfiled : r.Filed) {order : List String} (h : r.Ordered order)
    {name : String} (hname : name ∈ order) :
    r.Supplies name ∨ ∃ f ∈ (r.output order).functions, f.name = name := by
  induction h with
  | nil => simp at hname
  | @snoc names last entry _ hentry _ ih =>
    rw [functions_output_snoc hentry]
    rcases List.mem_append.1 hname with hname | hname
    · rcases ih hname with hskip | ⟨f, hf, hfname⟩
      · exact .inl hskip
      · exact .inr ⟨f, List.mem_append_left _ hf, hfname⟩
    · obtain rfl := List.mem_singleton.1 hname
      by_cases hskip : entry.kind = .skip
      · exact .inl ⟨entry, hentry, hskip⟩
      · exact .inr ⟨entry, by simp [hskip], hfiled _ _ hentry⟩

theorem Ordered.calleesFirst (hfiled : r.Filed) (hcheck : r.checkDependencies = .ok ())
    {order : List String} (h : r.Ordered order) : (r.output order).CalleesFirst r.Supplies := by
  induction h with
  | nil => simp [Output.CalleesFirst, output]
  | @snoc names name entry hnames hentry hdeps ih =>
    intro i f hf dep hdep
    rw [functions_output_snoc hentry] at hf ⊢
    by_cases hi : i < (r.output names).functions.length
    · rw [List.getElem?_append_left hi] at hf
      rw [List.take_append_of_le_length (by omega)]
      exact ih i f hf dep hdep
    · -- The function is the last one: all of its dependencies are among the names before it.
      rw [List.getElem?_append_right (by omega)] at hf
      by_cases hskip : entry.kind = .skip
      · simp [hskip] at hf
      · rw [if_neg hskip] at hf
        obtain ⟨hlast, rfl⟩ : i = (r.output names).functions.length ∧ entry = f := by
          obtain ⟨hlt, hget⟩ := List.getElem?_eq_some_iff.1 hf
          simp only [List.length_singleton, Nat.lt_one_iff] at hlt
          exact ⟨by omega, by simpa using hget⟩
        by_cases hself : dep = entry.name
        · exact .inl hself
        · have hdep' := hdeps dep (mem_dependencies hcheck hentry hdep hself)
          refine .inr ((hnames.supplies_or_mem hfiled hdep').imp_right ?_)
          rintro ⟨g, hg, hname⟩
          exact ⟨g, by simpa [hlast] using hg, hname⟩

theorem finalize_eq_ok {out : Output} (h : r.finalize = .ok out) :
    ∃ order, r.checkDependencies = .ok () ∧ r.sort r.functions.keys = .ok order ∧
      out = r.output order := by
  simp only [finalize, Except.bind_eq_ok, Except.pure_eq_ok] at h
  obtain ⟨⟨⟩, hcheck, order, hsort, rfl⟩ := h
  exact ⟨order, hcheck, hsort, rfl⟩

theorem finalizeReachable_eq_ok {roots : List String} {out : Output}
    (h : r.finalizeReachable roots = .ok out) :
    ∃ order, r.checkDependencies = .ok () ∧
      r.sort (r.functions.keys.filter roots.contains) = .ok order ∧ out = r.output order := by
  simp only [finalizeReachable, Except.bind_eq_ok] at h
  obtain ⟨⟨⟩, hcheck, h⟩ := h
  split at h
  · simp at h
  · simp only [Except.bind_eq_ok, Except.pure_eq_ok] at h
    obtain ⟨order, hsort, rfl⟩ := h
    exact ⟨order, hcheck, hsort, rfl⟩

/-- The functions of a module come from the registry. -/
theorem get?_of_mem_output (hfiled : r.Filed) {order : List String} {f : Entry}
    (hf : f ∈ (r.output order).functions) :
    r.functions.get? f.name = some f ∧ f.kind ≠ .skip := by
  simp only [output, List.mem_filter, List.mem_filterMap, bne_iff_ne, ne_eq] at hf
  obtain ⟨⟨name, -, hget⟩, hkind⟩ := hf
  exact ⟨hfiled _ _ hget ▸ hget, hkind⟩

/-- **Nothing is lost.** Every registered function is in the finished module. -/
theorem mem_functions_of_finalize {out : Output} (h : r.finalize = .ok out) {name : String}
    {entry : Entry} (hentry : r.functions.get? name = some entry) (hkind : entry.kind ≠ .skip) :
    entry ∈ out.functions := by
  obtain ⟨order, -, hsort, rfl⟩ := finalize_eq_ok h
  have hmem := (sort_ordered hsort).2 name (Dict.mem_keys_iff.2 ⟨entry, hentry⟩)
  simp only [output, List.mem_filter, List.mem_filterMap, bne_iff_ne, ne_eq, hkind,
    not_false_eq_true, and_true]
  exact ⟨name, hmem, hentry⟩

end Registry

end Emission

end CellCompiler
