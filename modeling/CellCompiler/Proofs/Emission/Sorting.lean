import CellCompiler.Proofs.Emission.Order
import Mathlib.Data.List.Chain
import Mathlib.Data.List.Induction
import Mathlib.Data.List.Perm.Subperm
import Mathlib.Data.List.TakeWhile
import Mathlib.Logic.Relation

/-!
# Finishing a registry sorts it

However a registry has been filled, finishing it names exactly the dependencies that are not there,
or shows a cycle of dependencies, or gives all functions in an order in which callees come first.

* `Registry.requested` is the registry that a series of requests leaves, and `Registry.WellFormed`
  what every request keeps;
* `Registry.DependsOn` is the graph of dependencies and `Registry.ClosedWalk` a cycle in it;
* `Registry.visit_outcome` is about one step of the walk: the functions that are waiting form a walk
  along dependencies, so that a name met again closes it;
* `finalize_correct` is the main result.
-/

namespace CellCompiler

namespace Emission

/-- What can be asked of a registry. -/
inductive Request where
  | register (item : Target.Item) (place : Section) (depends : NameSet)
  | skip (name : String)

namespace Registry

variable {r r' : Registry}

/-! ### Filling a registry -/

/-- Carry out a request. One that fails changes nothing. -/
def request (r : Registry) : Request → Registry
  | .register item place depends =>
    match r.register item place depends with
    | .ok r' => r'
    | .error _ => r
  | .skip name => r.skip name

/-- The registry after a series of requests. -/
def requested (requests : List Request) : Registry := requests.foldl request .empty

/-- Every name is entered once, for an entry of this name. -/
structure WellFormed (r : Registry) : Prop where
  nodup : r.functions.keys.Nodup
  filed : r.Filed

theorem WellFormed.enter (h : r.WellFormed) {name : String} {entry : Entry}
    (hname : entry.name = name) :
    WellFormed { r with functions := r.functions.insertNew name entry } := by
  refine ⟨Dict.nodup_keys_insertNew h.nodup, fun other found hfound => ?_⟩
  rw [Dict.get?_insertNew, Option.or_eq_some_iff] at hfound
  rcases hfound with hfound | ⟨-, hfound⟩
  · exact h.filed other found hfound
  · split at hfound
    · next heq =>
      obtain rfl : entry = found := by simpa using hfound
      exact hname.trans heq.symm
    · simp at hfound

theorem WellFormed.request (h : r.WellFormed) (request : Request) : (r.request request).WellFormed := by
  cases request with
  | skip name => exact h.enter rfl
  | register item place depends =>
    rw [Registry.request]
    split
    · next r' hr =>
      simp only [register, Except.bind_eq_ok] at hr
      obtain ⟨entry, -, hr⟩ := hr
      split at hr
      · simp at hr
      · obtain rfl := Except.pure_eq_ok.1 hr
        exact h.enter rfl
    · exact h

theorem requested_wellFormed (requests : List Request) : (requested requests).WellFormed := by
  have hfold : ∀ r : Registry, r.WellFormed → (requests.foldl request r).WellFormed := by
    induction requests with
    | nil => exact fun r h => h
    | cons request requests ih => exact fun r h => ih _ (h.request request)
  exact hfold .empty ⟨List.nodup_nil, fun _ _ h => by simp [empty] at h⟩

/-! ### Missing dependencies -/

/-- Everything that a function depends on is registered or skipped. -/
def Complete (r : Registry) : Prop :=
  ∀ f ∈ r.functions.values, ∀ dep ∈ f.depends.names, r.has dep = true

/-- The members of a list with a property, each once, come in the order of first occurrence. -/
theorem foldl_once (p : String → Bool) (l : List String) :
    let found := (l.filter p).foldl
      (fun found name => if found.contains name then found else found ++ [name]) []
    (∀ x, x ∈ found ↔ x ∈ l ∧ p x = true) ∧ found.Pairwise fun x y => l.idxOf x < l.idxOf y := by
  -- by induction from the end, so that first occurrences keep their place
  induction l using List.reverseRecOn with
  | nil => simp
  | append_singleton l y ih =>
    rw [List.filter_append, List.foldl_append]
    generalize (l.filter p).foldl _ [] = found at ih
    obtain ⟨hmem, hpairwise⟩ := ih
    have hkept : found.Pairwise fun x y' => (l ++ [y]).idxOf x < (l ++ [y]).idxOf y' := by
      refine hpairwise.imp_of_mem fun {a b} ha hb hlt => ?_
      rwa [List.idxOf_append_of_mem ((hmem a).1 ha).1, List.idxOf_append_of_mem ((hmem b).1 hb).1]
    by_cases hy : p y = true ∧ y ∉ found
    · have hstep : ([y].filter p).foldl
          (fun found name => if found.contains name then found else found ++ [name]) found =
          found ++ [y] := by simp [hy]
      have hnew : y ∉ l := fun h => hy.2 ((hmem y).2 ⟨h, hy.1⟩)
      rw [hstep]
      refine ⟨fun x => ?_, List.pairwise_append.2 ⟨hkept, List.pairwise_singleton _ _, ?_⟩⟩
      · rw [List.mem_append, List.mem_append, hmem, List.mem_singleton, or_and_right]
        refine or_congr_right (iff_self_and.2 ?_)
        rintro rfl
        exact hy.1
      · intro x hx z hz
        obtain rfl := List.mem_singleton.1 hz
        have hx' := ((hmem x).1 hx).1
        rw [List.idxOf_append_of_mem hx', List.idxOf_append_of_notMem hnew]
        exact Nat.lt_add_right _ (List.idxOf_lt_length_of_mem hx')
    · have hstep : ([y].filter p).foldl
          (fun found name => if found.contains name then found else found ++ [name]) found =
          found := by
        by_cases hp : p y = true
        · simp [hp, not_not.1 fun h => hy ⟨hp, h⟩]
        · simp [hp]
      rw [hstep]
      refine ⟨fun x => ?_, hkept⟩
      rw [hmem, List.mem_append, List.mem_singleton, or_and_right]
      refine ⟨.inl, fun h => h.elim id ?_⟩
      rintro ⟨rfl, hp⟩
      exact (hmem x).1 (not_not.1 fun h => hy ⟨hp, h⟩)

theorem missing_spec : (∀ dep, dep ∈ r.missing ↔ dep ∈ r.mentioned ∧ r.has dep = false) ∧
    r.missing.Pairwise fun x y => r.mentioned.idxOf x < r.mentioned.idxOf y := by
  simpa [missing] using foldl_once (fun name => !r.has name) r.mentioned

theorem missing_eq_nil_iff : r.missing = [] ↔ r.Complete := by
  rw [List.eq_nil_iff_forall_not_mem]
  simp only [missing_spec.1, mentioned, List.mem_flatMap, not_and, Bool.not_eq_false]
  exact ⟨fun h f hf dep hdep => h dep ⟨f, hf, hdep⟩, fun h dep ⟨f, hf, hdep⟩ => h f hf dep hdep⟩

theorem checkDependencies_of_complete (h : r.Complete) : r.checkDependencies = .ok () := by
  rw [checkDependencies, missing_eq_nil_iff.2 h]

theorem checkDependencies_of_not_complete (h : ¬ r.Complete) :
    r.checkDependencies = .error (.missingDependencies r.missing) := by
  rw [checkDependencies]
  split
  · next hnil => exact absurd (missing_eq_nil_iff.1 hnil) h
  · rfl

/-! ### Walks along dependencies -/

/-- The first function depends on the second one, which is another. -/
def DependsOn (r : Registry) (a b : String) : Prop :=
  ∃ entry, r.functions.get? a = some entry ∧ b ∈ entry.depends.names ∧ b ≠ a

/-- A walk along dependencies that leads through other functions back to where it starts. -/
structure ClosedWalk (r : Registry) (path : List String) : Prop where
  closed : path.head? = path.getLast?
  leaves : ∃ a ∈ path, ∃ b ∈ path, a ≠ b
  chain : path.IsChain r.DependsOn

/-- Some function depends on itself through others. -/
def Cyclic (r : Registry) : Prop := ∃ name, Relation.TransGen r.DependsOn name name

/-- The function that a closed walk starts from depends on itself through others. -/
theorem ClosedWalk.transGen {start : String} {rest : List String} (h : r.ClosedWalk (start :: rest)) :
    Relation.TransGen r.DependsOn start start := by
  obtain ⟨hclosed, ⟨a, ha, b, hb, hne⟩, hchain⟩ := h
  have hpairwise : (start :: rest).Pairwise (Relation.TransGen r.DependsOn) :=
    List.isChain_iff_pairwise.1 (hchain.imp fun _ _ => .single)
  cases hrest : rest.getLast? with
  | none =>
    obtain rfl := List.getLast?_eq_none_iff.1 hrest
    simp_all
  | some last =>
    obtain rfl : start = last := by simpa [List.getLast?_cons, hrest] using hclosed
    exact (List.pairwise_cons.1 hpairwise).1 start (List.mem_of_getLast? hrest)

theorem ClosedWalk.cyclic {path : List String} (h : r.ClosedWalk path) : r.Cyclic := by
  obtain ⟨a, ha, -⟩ := h.leaves
  obtain ⟨start, rest, rfl⟩ := List.exists_cons_of_ne_nil (List.ne_nil_of_mem ha)
  exact ⟨start, h.transGen⟩

/-- A function that is met again closes the walk that leads to it. -/
theorem closedWalk_cycle {stack : List String} {name : String}
    (hchain : (name :: stack).IsChain fun a b => r.DependsOn b a) (hname : name ∈ stack) :
    r.ClosedWalk (cycle stack name) := by
  obtain ⟨after, hstack⟩ : ∃ after, stack = stack.takeWhile (· != name) ++ name :: after := by
    cases hdrop : stack.dropWhile (· != name) with
    | nil => simpa using List.dropWhile_eq_nil_iff.1 hdrop name hname
    | cons x after =>
      have hhead := List.head?_dropWhile_not (· != name) stack
      obtain rfl : x = name := by simpa [hdrop] using hhead
      exact ⟨after, by rw [← hdrop, List.takeWhile_append_dropWhile]⟩
  have hne : ∀ x ∈ stack.takeWhile (· != name), x ≠ name := fun x hx => by
    simpa using List.mem_takeWhile_imp hx
  rw [cycle]
  generalize stack.takeWhile (· != name) = before at hstack hne
  subst hstack
  -- the stack lists the way back, so the walk is read from its other end
  have hwalk : (name :: before ++ [name]).IsChain fun a b => r.DependsOn b a :=
    hchain.prefix ⟨after, by simp⟩
  refine ⟨by simp [List.getLast?_cons], ?_, ?_⟩
  · cases before with
    | nil =>
      obtain ⟨_, -, -, hself⟩ := List.isChain_pair.1 hwalk
      exact absurd rfl hself
    | cons x before => exact ⟨x, by simp, name, by simp, hne x (by simp)⟩
  · rw [← List.isChain_reverse]
    simpa using hwalk

/-! ### Visits -/

/-- What is known while `stack` lists the functions that are waiting and `done` the finished ones. -/
structure Walking (r : Registry) (stack done : List String) : Prop where
  nodup : stack.Nodup
  known : ∀ name ∈ stack, name ∈ r.functions.keys
  done_nodup : done.Nodup
  separate : ∀ name ∈ done, name ∉ stack

/-- What a visit comes to: more is finished, or a walk is closed. -/
def Outcome (r : Registry) (stack : List String) : Except CompileError (List String) → Prop
  | .ok done => r.Walking stack done
  | .error e => ∃ path, e = .dependencyCycle path ∧ r.ClosedWalk path

theorem dependencies_dependsOn {name dep : String} {entry : Entry} (hfiled : r.Filed)
    (hentry : r.functions.get? name = some entry) (hdep : dep ∈ r.dependencies entry) :
    dep ∈ r.functions.keys ∧ r.DependsOn name dep := by
  simp only [dependencies, List.mem_filter, Bool.and_eq_true, bne_iff_ne, ne_eq, NameSet.contains,
    List.contains_eq_mem, decide_eq_true_eq, hfiled name entry hentry] at hdep
  exact ⟨hdep.1, entry, hentry, hdep.2.2, hdep.2.1⟩

/-- Each visit puts one more function on the stack, so that there is fuel for all of them. -/
theorem visit_outcome (hfiled : r.Filed) {fuel : Nat} {stack done : List String} {name : String}
    (hfuel : fuel + stack.length = r.functions.size + 1) (h : r.Walking stack done)
    (hname : name ∈ r.functions.keys)
    (hchain : (name :: stack).IsChain fun a b => r.DependsOn b a) :
    r.Outcome stack (r.visit fuel stack done name) := by
  induction fuel generalizing stack done name with
  | zero =>
    -- without fuel the stack would hold more functions than there are
    have hle : stack.length ≤ r.functions.size := by
      simpa [Dict.keys, Dict.size] using (h.nodup.subperm h.known).length_le
    omega
  | succ fuel ih =>
    rw [visit]
    by_cases hdone : name ∈ done
    · rw [if_pos (by simpa using hdone)]
      exact h
    by_cases hstack : name ∈ stack
    · simp only [hdone, hstack, List.contains_eq_mem, decide_false, Bool.false_eq_true, if_false,
        decide_true, if_true]
      exact ⟨_, rfl, closedWalk_cycle hchain hstack⟩
    · obtain ⟨entry, hentry⟩ := Dict.mem_keys_iff.1 hname
      simp only [hdone, hstack, List.contains_eq_mem, decide_false, Bool.false_eq_true, if_false,
        hentry]
      -- the function waits on the stack until its dependencies are finished
      have hpushed : r.Walking (name :: stack) done := by
        refine ⟨List.nodup_cons.2 ⟨hstack, h.nodup⟩, List.forall_mem_cons.2 ⟨hname, h.known⟩,
          h.done_nodup, fun x hx => ?_⟩
        rw [List.mem_cons, not_or]
        exact ⟨fun heq => hdone (heq ▸ hx), h.separate x hx⟩
      have hbelow : r.Outcome (name :: stack)
          ((r.dependencies entry).foldlM (r.visit fuel (name :: stack)) done) := by
        refine List.foldlM_result (r.Outcome (name :: stack)) hpushed fun dep hdep done' hdone' => ?_
        obtain ⟨hkey, hdepends⟩ := dependencies_dependsOn hfiled hentry hdep
        exact ih (by simp; omega) hdone' hkey (.cons_cons hdepends hchain)
      cases hrun : (r.dependencies entry).foldlM (r.visit fuel (name :: stack)) done with
      | error e =>
        rw [hrun] at hbelow
        exact hbelow
      | ok done' =>
        rw [hrun] at hbelow
        have hnew : name ∉ done' := fun hmem => hbelow.separate name hmem List.mem_cons_self
        refine ⟨h.nodup, h.known, ?_, fun x hx => ?_⟩
        · exact hbelow.done_nodup.append (List.nodup_singleton name) (by simpa using hnew)
        · rcases List.mem_append.1 hx with hx | hx
          · exact fun hmem => hbelow.separate x hx (List.mem_cons_of_mem name hmem)
          · exact List.mem_singleton.1 hx ▸ hstack

theorem sort_outcome (hfiled : r.Filed) {starts : List String}
    (hstarts : ∀ name ∈ starts, name ∈ r.functions.keys) : r.Outcome [] (r.sort starts) := by
  have hempty : r.Walking [] [] := ⟨.nil, by simp, .nil, by simp⟩
  exact List.foldlM_result (r.Outcome []) hempty fun name hname done hdone =>
    visit_outcome hfiled rfl hdone (hstarts name hname) (.singleton name)

/-! ### Orders -/

theorem Ordered.mem_keys {order : List String} (h : r.Ordered order) :
    ∀ name ∈ order, name ∈ r.functions.keys := by
  induction h with
  | nil => simp
  | snoc _ hentry _ ih =>
    intro x hx
    rcases List.mem_append.1 hx with hx | hx
    · exact ih x hx
    · exact Dict.mem_keys_iff.2 ⟨_, List.mem_singleton.1 hx ▸ hentry⟩

/-- In an order without repetitions dependencies have smaller positions. -/
theorem Ordered.idxOf_lt (hfiled : r.Filed) (hcomplete : r.Complete) {order : List String}
    (h : r.Ordered order) (hnodup : order.Nodup) {a b : String} (ha : a ∈ order)
    (hab : r.DependsOn a b) : b ∈ order ∧ order.idxOf b < order.idxOf a := by
  induction h with
  | nil => simp at ha
  | @snoc names name entry hnames hentry hdeps ih =>
    obtain ⟨hnodup', -, hnew⟩ := List.nodup_append.1 hnodup
    by_cases hmem : a ∈ names
    · obtain ⟨hb, hlt⟩ := ih hnodup' hmem
      refine ⟨List.mem_append_left _ hb, ?_⟩
      rwa [List.idxOf_append_of_mem hb, List.idxOf_append_of_mem hmem]
    · -- the last function: all that it depends on is in front of it
      obtain rfl : a = name := by simpa [hmem] using ha
      obtain ⟨found, hfound, hdep, hne⟩ := hab
      obtain rfl : entry = found := by simpa [hentry] using hfound
      have hb : b ∈ names := hdeps b (mem_dependencies (checkDependencies_of_complete hcomplete)
        hentry hdep (hfiled a entry hentry ▸ hne))
      refine ⟨List.mem_append_left _ hb, ?_⟩
      rw [List.idxOf_append_of_mem hb, List.idxOf_append_of_notMem hmem]
      exact Nat.lt_add_right _ (List.idxOf_lt_length_of_mem hb)

/-- Positions fall along every walk that starts in an order. -/
theorem Ordered.idxOf_lt_of_transGen (hfiled : r.Filed) (hcomplete : r.Complete)
    {order : List String} (h : r.Ordered order) (hnodup : order.Nodup) {a b : String}
    (ha : a ∈ order) (hab : Relation.TransGen r.DependsOn a b) :
    b ∈ order ∧ order.idxOf b < order.idxOf a := by
  induction hab with
  | single hab => exact h.idxOf_lt hfiled hcomplete hnodup ha hab
  | tail _ hbc ih =>
    obtain ⟨hb, hlt⟩ := ih
    obtain ⟨hc, hlt'⟩ := h.idxOf_lt hfiled hcomplete hnodup hb hbc
    exact ⟨hc, Nat.lt_trans hlt' hlt⟩

theorem Ordered.acyclic (hfiled : r.Filed) (hcomplete : r.Complete) {order : List String}
    (h : r.Ordered order) (hnodup : order.Nodup) (hall : ∀ name ∈ r.functions.keys, name ∈ order) :
    ¬ r.Cyclic := by
  rintro ⟨name, hwalk⟩
  have hname : name ∈ order := by
    obtain ⟨next, ⟨entry, hentry, -⟩, -⟩ := Relation.TransGen.head'_iff.1 hwalk
    exact hall name (Dict.mem_keys_iff.2 ⟨entry, hentry⟩)
  exact Nat.lt_irrefl _ (h.idxOf_lt_of_transGen hfiled hcomplete hnodup hname hwalk).2

/-! ### Finished modules -/

/-- How finishing a registry can end. -/
inductive Finishes (r : Registry) : Except CompileError Output → Prop where
  | missing : ¬ r.Complete → r.Finishes (.error (.missingDependencies r.missing))
  | cycle {path : List String} : r.Complete → r.ClosedWalk path →
      r.Finishes (.error (.dependencyCycle path))
  | sorted {order : List String} : r.Complete → r.Ordered order → order.Perm r.functions.keys →
      r.Finishes (.ok (r.output order))

theorem WellFormed.finishes (h : r.WellFormed) : r.Finishes r.finalize := by
  rw [finalize]
  by_cases hcomplete : r.Complete
  · rw [checkDependencies_of_complete hcomplete]
    have hsort := sort_outcome h.filed fun name (hname : name ∈ r.functions.keys) => hname
    cases hrun : r.sort r.functions.keys with
    | error e =>
      rw [hrun] at hsort
      obtain ⟨path, rfl, hpath⟩ := hsort
      exact .cycle hcomplete hpath
    | ok order =>
      rw [hrun] at hsort
      obtain ⟨hordered, hall⟩ := sort_ordered hrun
      refine .sorted hcomplete hordered ((List.perm_ext_iff_of_nodup hsort.done_nodup h.nodup).2 ?_)
      exact fun name => ⟨hordered.mem_keys name, hall name⟩
  · rw [checkDependencies_of_not_complete hcomplete]
    exact .missing hcomplete

/-- A registry that can be finished has no cycle. -/
theorem WellFormed.acyclic_of_finalize (h : r.WellFormed) {out : Output}
    (hout : r.finalize = .ok out) : r.Complete ∧ ¬ r.Cyclic := by
  have hfinishes := h.finishes
  rw [hout] at hfinishes
  cases hfinishes with
  | sorted hcomplete hordered hperm =>
    refine ⟨hcomplete, hordered.acyclic h.filed hcomplete (hperm.nodup_iff.2 h.nodup) ?_⟩
    exact fun name hname => hperm.mem_iff.2 hname

/-- The functions of a module are those of the registry, in another order. -/
theorem functions_output_perm (h : r.WellFormed) {order : List String}
    (hperm : order.Perm r.functions.keys) :
    (r.output order).functions.Perm (r.functions.values.filter (·.kind != .skip)) := by
  have hvalues : r.functions.keys.filterMap r.functions.get? = r.functions.values := by
    rw [Dict.keys, List.filterMap_map, Dict.values, ← List.filterMap_eq_map]
    refine List.filterMap_congr fun p hp => ?_
    exact Dict.get?_of_mem_entries h.nodup hp
  rw [output, ← hvalues]
  exact (hperm.filterMap _).filter _

/-- The names of the functions of a module are those of its order that are not supplied. -/
theorem nodup_names_of_nodup (hfiled : r.Filed) {order : List String} (hnodup : order.Nodup) :
    (r.output order).names.Nodup := by
  have hnames : (order.filterMap r.functions.get?).map (·.name) =
      order.filter fun name => (r.functions.get? name).isSome := by
    clear hnodup
    induction order with
    | nil => rfl
    | cons name order ih =>
      cases hget : r.functions.get? name with
      | none => simp [hget, ih]
      | some entry => simp [hget, ih, hfiled name entry hget]
  refine List.Nodup.sublist (List.filter_sublist.map _) ?_
  rw [hnames]
  exact hnodup.filter _

theorem nodup_names_output (h : r.WellFormed) {order : List String}
    (hperm : order.Perm r.functions.keys) : (r.output order).names.Nodup :=
  nodup_names_of_nodup h.filed (hperm.nodup_iff.2 h.nodup)

end Registry

/-- **Finishing sorts the functions, or says why it cannot.** Whatever has been registered and skipped:

* missing dependencies are reported if and only if a function depends on a name that is neither
  registered nor skipped, and then they are all such names, each once, in the order in which they are
  first mentioned;
* otherwise a cycle is reported if and only if some function depends on itself through others, and
  then it is a closed walk along dependencies;
* otherwise the module has every function that has been registered, once and unchanged, after
  everything registered that it depends on. -/
theorem finalize_correct (requests : List Request) :
    let r := Registry.requested requests
    ((∃ names, r.finalize = .error (.missingDependencies names)) ↔ ¬ r.Complete) ∧
    (∀ names, r.finalize = .error (.missingDependencies names) →
      (∀ dep, dep ∈ names ↔ dep ∈ r.mentioned ∧ r.has dep = false) ∧
      names.Pairwise fun x y => r.mentioned.idxOf x < r.mentioned.idxOf y) ∧
    ((∃ path, r.finalize = .error (.dependencyCycle path)) ↔ r.Complete ∧ r.Cyclic) ∧
    (∀ path, r.finalize = .error (.dependencyCycle path) → r.ClosedWalk path) ∧
    ((∃ out, r.finalize = .ok out) ↔ r.Complete ∧ ¬ r.Cyclic) ∧
    (∀ out, r.finalize = .ok out → out.names.Nodup ∧
      out.functions.Perm (r.functions.values.filter (·.kind != .skip)) ∧
      out.CalleesFirst r.Supplies) := by
  intro r
  have hwf : r.WellFormed := Registry.requested_wellFormed requests
  have hfinishes := hwf.finishes
  generalize r.finalize = result at hfinishes ⊢
  cases hfinishes with
  | missing hincomplete =>
    have hspec := r.missing_spec
    simp [hincomplete, hspec]
  | @cycle path hcomplete hpath =>
    have hcyclic := hpath.cyclic
    simp [hcomplete, hpath, hcyclic]
  | @sorted order hcomplete hordered hperm =>
    have hnodup : order.Nodup := hperm.nodup_iff.2 hwf.nodup
    have hacyclic : ¬ r.Cyclic :=
      hordered.acyclic hwf.filed hcomplete hnodup fun name hname => hperm.mem_iff.2 hname
    have hfirst := hordered.calleesFirst hwf.filed (Registry.checkDependencies_of_complete hcomplete)
    have hfunctions := Registry.functions_output_perm hwf hperm
    have hnames := Registry.nodup_names_output hwf hperm
    simp [hcomplete, hacyclic, hfirst, hfunctions, hnames]

end Emission

end CellCompiler
