import CellCompiler.Cell.Bag

/-!
# The cells of a bag

A bag lists every subcell of its root once, each before the cells it refers to. Subcells are told
apart by their hashes, so this takes for granted that different subcells have different ones.

* `Cell.subcells` lists the subcells of a cell, with repetitions;
* `Bag.Listed` is what holds while cells are listed: those that have been met are finished, or
  still waiting for their children. `Bag.list_lists` and `Bag.listAll_lists` are one step and
  several;
* `Bag.order_parentsFirst` is the main result.
-/

namespace CellCompiler

namespace Cell

mutual

/-- The cell and everything below it. -/
def subcells : Cell → List Cell
  | .mk bits refs => .mk bits refs :: subcellsAll refs

/-- Several cells and everything below them. -/
def subcellsAll : List Cell → List Cell
  | [] => []
  | c :: cs => c.subcells ++ subcellsAll cs

end

theorem mem_subcells_self (c : Cell) : c ∈ c.subcells := by
  cases c
  simp [subcells]

/-- Different subcells have different hashes. -/
def Distinguished (c : Cell) : Prop :=
  ∀ a ∈ c.subcells, ∀ b ∈ c.subcells, a.hash = b.hash → a = b

end Cell

namespace Bag

/-- Every cell is there once, before the cells it refers to. -/
inductive ParentsFirst : List Cell → Prop where
  | nil : ParentsFirst []
  | cons {c : Cell} {cells : List Cell} : c ∉ cells → (∀ r ∈ c.refs, r ∈ cells) →
      ParentsFirst cells → ParentsFirst (c :: cells)

theorem ParentsFirst.nodup {cells : List Cell} (h : ParentsFirst cells) : cells.Nodup := by
  induction h with
  | nil => exact .nil
  | cons hnew _ _ ih => exact List.nodup_cons.2 ⟨hnew, ih⟩

/-- What a cell refers to is there with it. -/
theorem ParentsFirst.mem_of_mem_refs {cells : List Cell} (h : ParentsFirst cells) :
    ∀ c ∈ cells, ∀ r ∈ c.refs, r ∈ cells := by
  induction h with
  | nil => simp
  | cons _ hrefs _ ih =>
    refine List.forall_mem_cons.2 ⟨fun r hr => List.mem_cons_of_mem _ (hrefs r hr), ?_⟩
    exact fun d hd r hr => List.mem_cons_of_mem _ (ih d hd r hr)

/-- What holds of a listing while `pending` wait for their children; all of this is about the cells
of `all`. -/
structure Listed (all pending : List Cell) (l : Listing) : Prop where
  within : ∀ d ∈ l.cells, d ∈ all
  seen : ∀ d ∈ all, d.hash ∈ l.seen ↔ d ∈ pending ∨ d ∈ l.cells
  apart : ∀ d ∈ l.cells, d ∉ pending
  parentsFirst : ParentsFirst l.cells

/-- What listing a cell achieves: nothing is lost and the cell is there. -/
structure Lists (all pending : List Cell) (l : Listing) (cs : List Cell) (l' : Listing) : Prop where
  listed : Listed all pending l'
  kept : ∀ d ∈ l.cells, d ∈ l'.cells
  mem : ∀ c ∈ cs, c ∈ l'.cells

variable {all : List Cell}

mutual

/-- Cells that wait are larger, so that none of them is met again below. -/
theorem list_lists (hall : ∀ a ∈ all, ∀ b ∈ all, a.hash = b.hash → a = b) :
    (c : Cell) → (l : Listing) → (pending : List Cell) → c.subcells ⊆ all →
    (∀ p ∈ pending, sizeOf c < sizeOf p) → Listed all pending l → Lists all pending l [c] (list c l)
  | .mk bits refs, l, pending, hsub, hsize, hl => by
    have hself : Cell.mk bits refs ∈ all := hsub (Cell.mem_subcells_self _)
    have hpending : Cell.mk bits refs ∉ pending := fun hmem => Nat.lt_irrefl _ (hsize _ hmem)
    have hseen := hl.seen _ hself
    rw [list]
    by_cases hmet : (Cell.mk bits refs).hash ∈ l.seen
    · simp only [List.contains_eq_mem, hmet, decide_true, if_true]
      exact ⟨hl, fun d hd => hd, by simpa [hmet, hpending] using hseen⟩
    · simp only [List.contains_eq_mem, hmet, decide_false, Bool.false_eq_true, if_false]
      have hnew : Cell.mk bits refs ∉ l.cells := fun hmem => hmet (hseen.2 (.inr hmem))
      have hwaiting : Listed all (.mk bits refs :: pending)
          { l with seen := (Cell.mk bits refs).hash :: l.seen } := by
        refine ⟨hl.within, fun d hd => ?_, fun d hd => ?_, hl.parentsFirst⟩
        · have heq : d.hash = (Cell.mk bits refs).hash ↔ d = .mk bits refs :=
            ⟨hall d hd _ hself, fun h => h ▸ rfl⟩
          rw [List.mem_cons, List.mem_cons, heq, hl.seen d hd, or_assoc]
        · rw [List.mem_cons, not_or]
          exact ⟨fun heq => hnew (heq ▸ hd), hl.apart d hd⟩
      have hbelow := listAll_lists hall refs _ (.mk bits refs :: pending)
        (fun d hd => hsub (by simp [Cell.subcells, hd]))
        (fun r hr p hp => by
          have hlt : sizeOf r < sizeOf (Cell.mk bits refs) := by
            have := List.sizeOf_lt_of_mem hr
            simp only [Cell.mk.sizeOf_spec]
            omega
          rcases List.mem_cons.1 hp with rfl | hp
          · exact hlt
          · exact Nat.lt_trans hlt (hsize p hp)) hwaiting
      obtain ⟨⟨hwithin, hseen', hapart, hfirst⟩, hkept, hmem⟩ := hbelow
      refine ⟨⟨List.forall_mem_cons.2 ⟨hself, hwithin⟩, fun d hd => ?_, ?_, ?_⟩, ?_, ?_⟩
      · rw [hseen' d hd, List.mem_cons, List.mem_cons, or_assoc, or_left_comm]
      · refine List.forall_mem_cons.2 ⟨hpending, fun d hd hmem => ?_⟩
        exact hapart d hd (List.mem_cons_of_mem _ hmem)
      · exact .cons (fun hd => hapart _ hd List.mem_cons_self) hmem hfirst
      · exact fun d hd => List.mem_cons_of_mem _ (hkept d hd)
      · simp

theorem listAll_lists (hall : ∀ a ∈ all, ∀ b ∈ all, a.hash = b.hash → a = b) :
    (cs : List Cell) → (l : Listing) → (pending : List Cell) → Cell.subcellsAll cs ⊆ all →
    (∀ c ∈ cs, ∀ p ∈ pending, sizeOf c < sizeOf p) → Listed all pending l →
    Lists all pending l cs (listAll cs l)
  | [], l, pending, _, _, hl => ⟨hl, fun d hd => hd, by simp⟩
  | c :: cs, l, pending, hsub, hsize, hl => by
    rw [Cell.subcellsAll, List.append_subset] at hsub
    rw [List.forall_mem_cons] at hsize
    obtain ⟨hfirst, hkept, hmem⟩ := list_lists hall c l pending hsub.1 hsize.1 hl
    obtain ⟨hrest, hkept', hmem'⟩ := listAll_lists hall cs _ pending hsub.2 hsize.2 hfirst
    exact ⟨hrest, fun d hd => hkept' d (hkept d hd),
      List.forall_mem_cons.2 ⟨hkept' c (hmem c (by simp)), hmem'⟩⟩

end

/-- **Parents come first.** A bag starts with its root, lists subcells only, each once, and those
that a cell refers to after it. -/
theorem order_parentsFirst {c : Cell} (h : c.Distinguished) :
    (∃ rest, order c = c :: rest) ∧ (∀ d ∈ order c, d ∈ c.subcells) ∧ ParentsFirst (order c) := by
  have hempty : Listed c.subcells [] {} := ⟨by simp, by simp, by simp, .nil⟩
  obtain ⟨hlisted, -, -⟩ := list_lists h c {} [] (List.Subset.refl _) (by simp) hempty
  refine ⟨?_, hlisted.within, hlisted.parentsFirst⟩
  obtain ⟨bits, refs⟩ := c
  refine ⟨(listAll refs { seen := [(Cell.mk bits refs).hash] }).cells, ?_⟩
  simp [order, list]

end Bag

end CellCompiler
