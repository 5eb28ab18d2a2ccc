import Mathlib.Logic.Relation
import Mathlib.Data.List.Perm.Subperm
import Mathlib.Data.Nat.Find

/-!
# Descents

A recursion that follows a relation between finitely many nodes is bounded by their number, unless
it comes back to where it has been.

* `Descends r k a` says that `k` steps can be taken from `a`; without cycles there are no more than
  there are nodes (`Descends.le_length`);
* `exists_height` ranks the nodes, so that every step leads to a lower one;
* `answered_of_length` is about a recursion with a bound for its depth, whether there are cycles or
  not: what has an answer under any bound has one under the number of nodes and one.
-/

namespace CellCompiler

open Relation (TransGen)

variable {α : Type} {r : α → α → Prop}

/-- So many steps can be taken from a node. -/
inductive Descends (r : α → α → Prop) : Nat → α → Prop where
  | zero {a : α} : Descends r 0 a
  | succ {a b : α} {k : Nat} : r a b → Descends r k b → Descends r (k + 1) a

/-- The nodes on the way: each leads to those after it. -/
theorem Descends.exists_path {k : Nat} {a : α} (h : Descends r k a) :
    ∃ path : List α, path.length = k ∧ path.Pairwise (TransGen r) ∧
      (∀ x ∈ path, ∃ y, r x y) ∧ ∀ b, r b a → ∀ x ∈ path, TransGen r b x := by
  induction h with
  | zero => exact ⟨[], rfl, .nil, by simp, by simp⟩
  | @succ a b k hab _ ih =>
    obtain ⟨path, hlength, hpath, hnodes, hfrom⟩ := ih
    have ha := hfrom a hab
    refine ⟨a :: path, by rw [List.length_cons, hlength], .cons ha hpath, ?_, fun c hca => ?_⟩
    · exact List.forall_mem_cons.2 ⟨⟨b, hab⟩, hnodes⟩
    · exact List.forall_mem_cons.2 ⟨.single hca, fun x hx => .head hca (ha x hx)⟩

/-- **Without cycles, no more steps can be taken than there are nodes.** -/
theorem Descends.le_length {nodes : List α} (hnodes : ∀ a b, r a b → a ∈ nodes)
    (hacyclic : ∀ a, ¬ TransGen r a a) {k : Nat} {a : α} (h : Descends r k a) :
    k ≤ nodes.length := by
  obtain ⟨path, hlength, hpath, hsteps, -⟩ := h.exists_path
  have hnodup : path.Nodup := by
    refine hpath.imp fun hxy heq => ?_
    subst heq
    exact hacyclic _ hxy
  have hsub : path ⊆ nodes := fun x hx => (hsteps x hx).elim fun y hy => hnodes x y hy
  exact hlength ▸ (List.subperm_of_subset hnodup hsub).length_le

/-- **Without cycles, nodes have a height.** -/
theorem exists_height {nodes : List α} (hnodes : ∀ a b, r a b → a ∈ nodes)
    (hacyclic : ∀ a, ¬ TransGen r a a) : ∃ height : α → Nat, (∀ a, height a ≤ nodes.length) ∧
      ∀ a b, r a b → height b < height a := by
  classical
  refine ⟨fun a => Nat.findGreatest (Descends r · a) nodes.length, fun a => Nat.findGreatest_le _,
    fun a b hab => ?_⟩
  have hb : Descends r (Nat.findGreatest (Descends r · b) nodes.length) b :=
    Nat.findGreatest_spec (P := (Descends r · b)) (Nat.zero_le _) .zero
  have ha := Descends.succ hab hb
  exact Nat.le_findGreatest (ha.le_length hnodes hacyclic) ha

/-- What can be descended from only finitely often is not below itself. -/
theorem not_rel_self_of_acc {a : α} (h : Acc r a) : ¬ r a a := by
  induction h with
  | intro a _ ih => exact fun ha => ih a ha ha

/-! ### Bounds for the depth -/

/-- The first bound under which there is an answer is the one after this. -/
def Late (answered : Nat → α → Prop) (k : Nat) (a : α) : Prop := answered (k + 1) a ∧ ¬ answered k a

section Bounds

variable {answered : Nat → α → Prop} (hmono : ∀ k a, answered k a → answered (k + 1) a)

include hmono

theorem answered_mono {m n : Nat} (hmn : m ≤ n) {a : α} (h : answered m a) : answered n a := by
  induction n, hmn using Nat.le_induction with
  | base => exact h
  | succ n _ ih => exact hmono n a ih

theorem Late.unique {m n : Nat} {a : α} (h : Late answered m a) (h' : Late answered n a) : m = n := by
  rcases Nat.lt_trichotomy m n with hlt | heq | hlt
  · exact absurd (answered_mono hmono hlt h.1) h'.2
  · exact heq
  · exact absurd (answered_mono hmono hlt h'.1) h.2

/-- **The number of nodes bounds the depth.** If an answer that comes late waits for one that comes
one step earlier, what has an answer at all has one under the number of nodes and one. -/
theorem answered_of_length {nodes : List α} (hnodes : ∀ a b, r a b → a ∈ nodes)
    (hstep : ∀ k a, Late answered (k + 1) a → ∃ b, r a b ∧ Late answered k b) {k : Nat} {a : α}
    (h : answered k a) : answered (nodes.length + 1) a := by
  -- a step from an answer to the one that it waits for; there are no cycles as it comes earlier
  let waits (a b : α) : Prop := r a b ∧ ∃ j, Late answered (j + 1) a ∧ Late answered j b
  have hearlier : ∀ a b, TransGen waits a b → ∃ i j, j < i ∧ Late answered i a ∧ Late answered j b := by
    intro a b hab
    induction hab with
    | single hab =>
      obtain ⟨-, j, ha, hb⟩ := hab
      exact ⟨j + 1, j, Nat.lt_succ_self j, ha, hb⟩
    | tail _ hbc ih =>
      obtain ⟨i, j, hlt, ha, hb⟩ := ih
      obtain ⟨-, k, hb', hc⟩ := hbc
      obtain rfl := Late.unique hmono hb hb'
      exact ⟨i, k, by omega, ha, hc⟩
  have hacyclic : ∀ a, ¬ TransGen waits a a := by
    intro a ha
    obtain ⟨i, j, hlt, hi, hj⟩ := hearlier a a ha
    exact absurd (Late.unique hmono hi hj) (by omega)
  have hdescends : ∀ k a, Late answered k a → Descends waits k a := by
    intro k
    induction k with
    | zero => exact fun _ _ => .zero
    | succ k ih =>
      intro a ha
      obtain ⟨b, hab, hb⟩ := hstep k a ha
      exact .succ ⟨hab, k, ha, hb⟩ (ih b hb)
  -- under the least bound the answer is late
  classical
  have hexists : ∃ k, answered k a := ⟨k, h⟩
  have hleast := Nat.find_spec hexists
  cases hfind : Nat.find hexists with
  | zero =>
    rw [hfind] at hleast
    exact answered_mono hmono (Nat.zero_le _) hleast
  | succ j =>
    rw [hfind] at hleast
    have hlate : Late answered j a := ⟨hleast, Nat.find_min hexists (hfind ▸ Nat.lt_succ_self j)⟩
    have hle := (hdescends j a hlate).le_length (fun a b hab => hnodes a b hab.1) hacyclic
    exact answered_mono hmono (Nat.succ_le_succ hle) hleast

end Bounds

end CellCompiler
