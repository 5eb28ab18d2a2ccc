import CellCompiler.Proofs.Emission.Sorting

/-!
# Pruning keeps what the roots reach

Finishing a registry with roots gives the module of all functions that the roots reach along
dependencies, and of no others. Cycles elsewhere in the registry do no harm.

* `Registry.Reaches` says that some root leads to a name;
* `Registry.visit_within` is about one step of the walk: it never leaves what the roots reach;
* `finalizeReachable_correct` is the main result.
-/

namespace CellCompiler

namespace Emission

namespace Registry

variable {r : Registry} {roots : List String}

/-- All roots have been registered or skipped. -/
def Knows (r : Registry) (roots : List String) : Prop := ∀ root ∈ roots, r.has root = true

/-- Some root leads to the name along dependencies, perhaps along none. -/
def Reaches (r : Registry) (roots : List String) (name : String) : Prop :=
  ∃ root ∈ roots, Relation.ReflTransGen r.DependsOn root name

theorem Reaches.step {a b : String} (h : r.Reaches roots a) (hab : r.DependsOn a b) :
    r.Reaches roots b := by
  obtain ⟨root, hroot, hwalk⟩ := h
  exact ⟨root, hroot, hwalk.tail hab⟩

/-- Some function that the roots reach depends on itself through others. -/
def CyclicFrom (r : Registry) (roots : List String) : Prop :=
  ∃ name, r.Reaches roots name ∧ Relation.TransGen r.DependsOn name name

theorem CyclicFrom.cyclic (h : r.CyclicFrom roots) : r.Cyclic := by
  obtain ⟨name, -, hwalk⟩ := h
  exact ⟨name, hwalk⟩

/-! ### The walk stays within reach -/

/-- All that is finished is in a set of names, or a cycle is reported that starts in it. -/
def Within (P : String → Prop) : Except CompileError (List String) → Prop
  | .ok done => ∀ name ∈ done, P name
  | .error (.dependencyCycle path) => ∃ start rest, path = start :: rest ∧ P start
  | .error _ => True

/-- A visit that starts in a set which dependencies do not leave stays in it. -/
theorem visit_within {P : String → Prop} (hclosed : ∀ a b, P a → r.DependsOn a b → P b)
    (hfiled : r.Filed) {fuel : Nat} {stack done : List String} {name : String}
    (hdone : ∀ x ∈ done, P x) (hname : P name) : Within P (r.visit fuel stack done name) := by
  induction fuel generalizing stack done name with
  | zero => exact trivial
  | succ fuel ih =>
    rw [visit]
    by_cases hmem : name ∈ done
    · rw [if_pos (by simpa using hmem)]
      exact hdone
    by_cases hstack : name ∈ stack
    · simp only [hmem, hstack, List.contains_eq_mem, decide_false, Bool.false_eq_true, if_false,
        decide_true, if_true]
      exact ⟨name, _, rfl, hname⟩
    simp only [hmem, hstack, List.contains_eq_mem, decide_false, Bool.false_eq_true, if_false]
    cases hentry : r.functions.get? name with
    | none => exact trivial
    | some entry =>
      have hbelow : Within P ((r.dependencies entry).foldlM (r.visit fuel (name :: stack)) done) := by
        refine List.foldlM_result (Within P) hdone fun dep hdep done' hdone' => ?_
        exact ih hdone' (hclosed name dep hname (dependencies_dependsOn hfiled hentry hdep).2)
      cases hrun : (r.dependencies entry).foldlM (r.visit fuel (name :: stack)) done with
      | error e =>
        rw [hrun] at hbelow
        dsimp only
        rw [hrun]
        exact hbelow
      | ok done' =>
        rw [hrun] at hbelow
        dsimp only
        rw [hrun]
        intro x hx
        rcases List.mem_append.1 hx with hx | hx
        · exact hbelow x hx
        · exact List.mem_singleton.1 hx ▸ hname

theorem sort_within {P : String → Prop} (hclosed : ∀ a b, P a → r.DependsOn a b → P b)
    (hfiled : r.Filed) {starts : List String} (hstarts : ∀ name ∈ starts, P name) :
    Within P (r.sort starts) := by
  have hempty : Within P (.ok []) := by simp [Within]
  exact List.foldlM_result (Within P) hempty fun name hname done hdone =>
    visit_within hclosed hfiled hdone (hstarts name hname)

/-- An order has, with a name, everything that the name leads to. -/
theorem Ordered.mem_of_reaches (hfiled : r.Filed) (hcomplete : r.Complete) {order : List String}
    (h : r.Ordered order) (hnodup : order.Nodup) (hroots : ∀ root ∈ roots, root ∈ order)
    {name : String} (hname : r.Reaches roots name) : name ∈ order := by
  obtain ⟨root, hroot, hwalk⟩ := hname
  induction hwalk with
  | refl => exact hroots root hroot
  | tail _ hstep ih => exact (h.idxOf_lt hfiled hcomplete hnodup ih hstep).1

/-! ### Finished modules -/

/-- How finishing a registry with roots can end. -/
inductive FinishesFrom (r : Registry) (roots : List String) : Except CompileError Output → Prop where
  | missing {names : List String} : ¬ (r.Complete ∧ r.Knows roots) →
      r.FinishesFrom roots (.error (.missingDependencies names))
  | cycle {path : List String} : r.Complete → r.Knows roots →
      r.CyclicFrom roots → r.FinishesFrom roots (.error (.dependencyCycle path))
  | sorted {order : List String} : r.Complete → r.Knows roots →
      r.Ordered order → order.Nodup → (∀ name, name ∈ order ↔ r.Reaches roots name) →
      r.FinishesFrom roots (.ok (r.output order))

/-- The walk from registered roots, taken in the order of registration. -/
theorem WellFormed.sort_roots (h : r.WellFormed) (hcomplete : r.Complete)
    (hroots : r.Knows roots) :
    r.FinishesFrom roots (r.output <$> r.sort (r.functions.keys.filter roots.contains)) := by
  have hstarts : ∀ name, name ∈ r.functions.keys.filter roots.contains ↔ name ∈ roots := by
    intro name
    rw [List.mem_filter, List.contains_eq_mem, decide_eq_true_eq]
    exact and_iff_right_of_imp fun hname =>
      Dict.mem_keys_iff.2 (Dict.contains_eq_true_iff.1 (hroots name hname))
  have hsort := sort_outcome h.filed fun name
    (hname : name ∈ r.functions.keys.filter roots.contains) => (List.mem_filter.1 hname).1
  have hwithin := sort_within (fun _ _ ha hab => Reaches.step ha hab) h.filed fun name
    (hname : name ∈ r.functions.keys.filter roots.contains) =>
      (⟨name, (hstarts name).1 hname, .refl⟩ : r.Reaches roots name)
  cases hrun : r.sort (r.functions.keys.filter roots.contains) with
  | error e =>
    rw [hrun] at hsort hwithin
    obtain ⟨path, rfl, hpath⟩ := hsort
    obtain ⟨start, rest, rfl, hstart⟩ := hwithin
    exact .cycle hcomplete hroots ⟨start, hstart, hpath.transGen⟩
  | ok order =>
    rw [hrun] at hsort hwithin
    obtain ⟨hordered, hall⟩ := sort_ordered hrun
    refine .sorted hcomplete hroots hordered hsort.done_nodup fun name => ⟨hwithin name, ?_⟩
    exact hordered.mem_of_reaches h.filed hcomplete hsort.done_nodup
      fun root hroot => hall root ((hstarts root).2 hroot)

theorem WellFormed.finishesFrom (h : r.WellFormed) (roots : List String) :
    r.FinishesFrom roots (r.finalizeReachable roots) := by
  rw [finalizeReachable]
  by_cases hcomplete : r.Complete
  · rw [checkDependencies_of_complete hcomplete]
    cases hfind : roots.find? fun root => !r.has root with
    | some root =>
      have hroot : r.has root = false := by simpa using List.find?_some hfind
      refine .missing fun hall => ?_
      rw [hall.2 root (List.mem_of_find?_eq_some hfind)] at hroot
      simp at hroot
    | none =>
      have hroots : r.Knows roots := by
        simpa [Knows] using List.find?_eq_none.1 hfind
      exact h.sort_roots hcomplete hroots
  · rw [checkDependencies_of_not_complete hcomplete]
    exact .missing fun hall => hcomplete hall.1

/-- The functions of a module are those that its order names and that are not supplied. -/
theorem mem_functions_output (hfiled : r.Filed) {order : List String} {f : Entry} :
    f ∈ (r.output order).functions ↔
      f.name ∈ order ∧ r.functions.get? f.name = some f ∧ f.kind ≠ .skip := by
  simp only [output, List.mem_filter, List.mem_filterMap, bne_iff_ne, ne_eq]
  constructor
  · rintro ⟨⟨name, hname, hget⟩, hkind⟩
    obtain rfl := hfiled name f hget
    exact ⟨hname, hget, hkind⟩
  · rintro ⟨hname, hget, hkind⟩
    exact ⟨⟨f.name, hname, hget⟩, hkind⟩

end Registry

/-- **Pruning keeps what the roots reach.** Whatever has been registered and skipped, and whatever
else is in the registry:

* a module that is finished with roots has every function that the roots reach along dependencies
  and that is not supplied, once and unchanged, after everything registered that it depends on;
* it has no other functions;
* such a module exists if and only if no dependency is missing, every root has been registered and
  the roots reach no cycle, hence for all registered roots if the whole registry can be finished;
* a cycle is reported if and only if no dependency is missing, every root has been registered and
  the roots reach a cycle. -/
theorem finalizeReachable_correct (requests : List Request) (constants : Dict Constant)
    (globals : Dict Global) (header : List Target.Item) (roots : List String) :
    let r : Registry := { Registry.requested requests with constants, globals, header }
    (∀ out, r.finalizeReachable roots = .ok out → out.names.Nodup ∧
      (∀ f, f ∈ out.functions ↔
        r.Reaches roots f.name ∧ r.functions.get? f.name = some f ∧ f.kind ≠ .skip) ∧
      out.CalleesFirst r.Supplies) ∧
    ((∃ out, r.finalizeReachable roots = .ok out) ↔
      r.Complete ∧ r.Knows roots ∧ ¬ r.CyclicFrom roots) ∧
    ((∃ out, r.finalize = .ok out) → r.Knows roots →
      ∃ out, r.finalizeReachable roots = .ok out) ∧
    ((∃ path, r.finalizeReachable roots = .error (.dependencyCycle path)) ↔
      r.Complete ∧ r.Knows roots ∧ r.CyclicFrom roots) := by
  intro r
  have hrequested := Registry.requested_wellFormed requests
  have hwf : r.WellFormed := ⟨hrequested.nodup, hrequested.filed⟩
  clear_value r
  have hwhole : ∀ out, r.finalize = .ok out → r.Complete ∧ ¬ r.CyclicFrom roots := by
    intro out hout
    obtain ⟨hcomplete, hacyclic⟩ := hwf.acyclic_of_finalize hout
    exact ⟨hcomplete, fun hcyclic => hacyclic hcyclic.cyclic⟩
  have hfinishes := hwf.finishesFrom roots
  generalize r.finalizeReachable roots = result at hfinishes ⊢
  cases hfinishes with
  | missing hmissing =>
    have hnone : ∀ P : Prop, ¬ (r.Complete ∧ r.Knows roots ∧ P) :=
      fun P h => hmissing ⟨h.1, h.2.1⟩
    have hnot : ∀ out, r.finalize = .ok out → ¬ r.Knows roots :=
      fun out hout hroots => hmissing ⟨(hwhole out hout).1, hroots⟩
    simpa [hnone] using hnot
  | cycle hcomplete hroots hcyclic =>
    have hnot : ∀ out, r.finalize ≠ .ok out := fun out hout => (hwhole out hout).2 hcyclic
    simp [hcomplete, hroots, hcyclic, hnot]
  | @sorted order hcomplete hroots hordered hnodup hmem =>
    have hacyclic : ¬ r.CyclicFrom roots := by
      rintro ⟨name, hname, hwalk⟩
      have hpos := hordered.idxOf_lt_of_transGen hwf.filed hcomplete hnodup ((hmem name).2 hname) hwalk
      exact Nat.lt_irrefl _ hpos.2
    have hnames := Registry.nodup_names_of_nodup hwf.filed hnodup
    have hfirst := hordered.calleesFirst hwf.filed (Registry.checkDependencies_of_complete hcomplete)
    have hfunctions : ∀ f, f ∈ (r.output order).functions ↔
        r.Reaches roots f.name ∧ r.functions.get? f.name = some f ∧ f.kind ≠ .skip :=
      fun f => (Registry.mem_functions_output hwf.filed).trans (and_congr_left' (hmem f.name))
    simp [hcomplete, hroots, hacyclic, hnames, hfirst, hfunctions]

end Emission

end CellCompiler
