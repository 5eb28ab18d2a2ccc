import CellCompiler.Proofs.Generate.Records
import CellCompiler.Proofs.Layout
import CellCompiler.Proofs.Numeral

/-!
# Variables of codecs

Codecs keep the leaves of each field in variables below `v`, the builders of the cells that they
fill in `build_0`, `build_1` and so on, and the slices that they read in `sc_0`, `sc_1` and so
on. None of these are the same.

* `Lies` says that a field lies in its variables, which is kept by changes to other
  variables (`Lies.frames`);
* `fieldPattern_eq_ok` finds the pattern of a field;
* `Apart` says that operations are on different fields, whose variables then differ
  (`Apart.not_fieldVar`);
* `ReadVar` are the variables that change while a chain of cells is read.
-/

namespace CellCompiler

open Generate Machine
open Plan (Op)

variable {c : Code} {env : Env} {d d' : Draft} {r : Record} {s s' : State} {op : Op} {v : Val}

/-! ### Names -/

theorem builderName_inj {m n : Nat} (h : builderName m = builderName n) : m = n := by
  have hlists := congrArg String.toList h
  simp only [builderName, String.toList_append, toString] at hlists
  exact Numeral.repr_injective (String.toList_inj.1 (by simpa using hlists))

theorem sliceName_inj {m n : Nat} (h : sliceName m = sliceName n) : m = n := by
  have hlists := congrArg String.toList h
  simp only [sliceName, String.toList_append, toString] at hlists
  exact Numeral.repr_injective (String.toList_inj.1 (by simpa using hlists))

theorem Name.Under.head {f x : String} (h : Under (tick "v" f) x) : x.toList.head? = some 'v' := by
  rcases h.of_tick with h | ⟨rest, h⟩ <;> simp [h]

theorem Name.Under.ne_builderName {f x : String} (h : Under (tick "v" f) x) (n : Nat) :
    x ≠ builderName n := by
  rintro rfl
  simpa [builderName, toString] using h.head

theorem Name.Under.ne_sliceName {f x : String} (h : Under (tick "v" f) x) (n : Nat) :
    x ≠ sliceName n := by
  rintro rfl
  simpa [sliceName, toString] using h.head

/-! ### Fields -/

/-- The field that an operation is about lies in its variables. -/
def Lies (env : Env) (r : Record) (s : State) (op : Op) (v : Val) : Prop :=
  ∀ ty sh, r.fields.lookup op.name = some ty →
    Layout.shape env.program.types ty (Name.tick "v" op.name) = .ok sh → Bound s sh v

theorem Lies.frames (hsep : env.program.types.Separate) (h : Lies env r s op v)
    {changed : String → Prop} (hframes : s.Frames changed s')
    (hchanged : ∀ x, Name.Under (Name.tick "v" op.name) x → ¬ changed x) : Lies env r s' op v := by
  intro ty sh hty hsh
  have hdistinct := Layout.shapeWithin_distinct hsep hsh
  exact (h ty sh hty hsh).frames hframes fun x hx => hchanged x (hdistinct.under x hx)

theorem fieldPattern_eq_ok {pattern : Target.Expr} (h : r.fieldPattern op env d = .ok pattern d') :
    d' = d ∧ ∃ ty sh, r.fields.lookup op.name = some ty ∧
      Layout.shape env.program.types ty (Name.tick "v" op.name) = .ok sh ∧ pattern = sh.pattern := by
  unfold Record.fieldPattern at h
  cases hty : r.fields.lookup op.name with
  | none =>
    rw [hty] at h
    exact absurd h run_throw
  | some ty =>
    simp only [hty, unpack, table, run_bind, run_read, run_pure, run_ofExcept, Layout.unpack,
      Except.map_eq_ok] at h
    obtain ⟨_, _, ⟨_, _, ⟨rfl, rfl⟩, rfl, rfl⟩, ⟨sh, hsh, rfl⟩, rfl⟩ := h
    exact ⟨rfl, ty, sh, rfl, hsh, rfl⟩

/-! ### Fields that are apart -/

/-- The variables of the fields that operations are about. -/
def FieldVar (ops : List Op) (y : String) : Prop :=
  ∃ op ∈ ops, Name.Under (Name.tick "v" op.name) y

/-- Operations on different fields. -/
structure Apart (ops : List Op) : Prop where
  nodup : (ops.map (·.name)).Nodup
  plain : ∀ op ∈ ops, '\'' ∉ op.name.toList

section Apart

variable {ops more : List Op}

theorem Apart.left (h : Apart (ops ++ more)) : Apart ops := by
  refine ⟨?_, fun op hop => h.plain op (List.mem_append_left _ hop)⟩
  have hnodup := h.nodup
  rw [List.map_append] at hnodup
  exact hnodup.of_append_left

theorem Apart.right (h : Apart (ops ++ more)) : Apart more := by
  refine ⟨?_, fun op hop => h.plain op (List.mem_append_right _ hop)⟩
  have hnodup := h.nodup
  rw [List.map_append] at hnodup
  exact hnodup.of_append_right

/-- Variables of different fields differ. -/
theorem Apart.not_fieldVar (h : Apart (ops ++ more)) (hop : op ∈ ops) {y : String}
    (hy : Name.Under (Name.tick "v" op.name) y) : ¬ FieldVar more y := by
  rintro ⟨o, ho, hunder⟩
  have heq := hy.disjoint (h.plain op (List.mem_append_left _ hop))
    (h.plain o (List.mem_append_right _ ho)) hunder
  have hnodup := h.nodup
  rw [List.map_append, List.nodup_append] at hnodup
  exact hnodup.2.2 op.name (List.mem_map_of_mem hop) o.name (List.mem_map_of_mem ho) heq

end Apart

/-- The variables that change while fields are read from the cells from number `n` on. -/
def ReadVar (n : Nat) (ops : List Op) (y : String) : Prop :=
  (∃ k ≥ n, y = sliceName k) ∨ FieldVar ops y

section ReadVar

variable {ops more : List Op} {n k : Nat} {y : String}

theorem readVar_sliceName (h : n ≤ k) : ReadVar n ops (sliceName k) := .inl ⟨k, h, rfl⟩

theorem ReadVar.left (h : ReadVar n ops y) : ReadVar n (ops ++ more) y := by
  rcases h with h | ⟨o, ho, hunder⟩
  · exact .inl h
  · exact .inr ⟨o, List.mem_append_left _ ho, hunder⟩

/-- What changes in the cells further on changes in all of them. -/
theorem ReadVar.right (h : ReadVar (n + 1) more y) : ReadVar n (ops ++ more) y := by
  rcases h with ⟨k, hk, hy⟩ | ⟨o, ho, hunder⟩
  · exact .inl ⟨k, by omega, hy⟩
  · exact .inr ⟨o, List.mem_append_right _ ho, hunder⟩

/-- The slice of a cell does not change while those behind it are read. -/
theorem not_readVar_sliceName (h : k < n) : ¬ ReadVar n ops (sliceName k) := by
  rintro (⟨i, hi, heq⟩ | ⟨o, -, hunder⟩)
  · have := sliceName_inj heq
    omega
  · exact hunder.ne_sliceName k rfl

theorem Apart.not_readVar (h : Apart (ops ++ more)) (hop : op ∈ ops)
    (hy : Name.Under (Name.tick "v" op.name) y) : ¬ ReadVar n more y := by
  rintro (⟨k, -, heq⟩ | hfield)
  · exact hy.ne_sliceName k heq
  · exact h.not_fieldVar hop hy hfield

end ReadVar

/-- A generator keeps what is registered. -/
theorem Generate.Builds.keeps {α : Type} {g : Gen α} {post : α → Prop} {a : α}
    (h : Builds true (⟨fun _ => True, fun _ => True⟩ : Deps env) g post)
    (hrun : g env d = .ok a d') (hd : d.registry.Sound true) :
    d.registry.Extends d'.registry ∧ d'.registry.Sound true :=
  ⟨(h d a d' hrun hd).1.registry.kept, (h d a d' hrun hd).2.1⟩

end CellCompiler
