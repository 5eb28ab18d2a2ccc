/-!
# Sets of names

`NameSet` is a finite set of names, held as the strictly increasing list of its members, so that
equal sets are equal values and the members come out in a fixed order.
-/

namespace CellCompiler

/-- A finite set of names. -/
structure NameSet where
  /-- The members in increasing order. -/
  names : List String := []
  /-- No member occurs twice and the order is right. -/
  increasing : names.Pairwise (· < ·) := by exact List.Pairwise.nil
  deriving DecidableEq

namespace NameSet

/-- The set without members. -/
def empty : NameSet := ⟨[], List.Pairwise.nil⟩

instance : Inhabited NameSet := ⟨empty⟩

/-- Put a name at its place in an increasing list. -/
def place (name : String) : List String → List String
  | [] => [name]
  | x :: xs =>
    if name < x then name :: x :: xs else if name = x then x :: xs else x :: place name xs

theorem mem_place {name y : String} {xs : List String} :
    y ∈ place name xs ↔ y = name ∨ y ∈ xs := by
  induction xs with
  | nil => simp [place]
  | cons x xs ih =>
    simp only [place]
    split
    · simp
    · split
      · next h => subst h; simp
      · simp only [List.mem_cons, ih]
        constructor
        · rintro (h | h | h) <;> simp [h]
        · rintro (h | h | h) <;> simp [h]

theorem pairwise_place (name : String) {xs : List String} (h : xs.Pairwise (· < ·)) :
    (place name xs).Pairwise (· < ·) := by
  induction xs with
  | nil => simp [place]
  | cons x xs ih =>
    obtain ⟨hx, hxs⟩ := List.pairwise_cons.1 h
    simp only [place]
    split
    · next hlt =>
      refine List.pairwise_cons.2 ⟨fun y hy => ?_, h⟩
      rcases List.mem_cons.1 hy with rfl | hy
      · exact hlt
      · exact String.lt_trans hlt (hx y hy)
    · next hnlt =>
      split
      · exact h
      · next hne =>
        refine List.pairwise_cons.2 ⟨fun y hy => ?_, ih hxs⟩
        rcases mem_place.1 hy with rfl | hy
        · rcases Std.lt_trichotomy y x with hlt | heq | hgt
          · exact absurd hlt hnlt
          · exact absurd heq hne
          · exact hgt
        · exact hx y hy

/-- Add a member. -/
def insert (s : NameSet) (name : String) : NameSet :=
  ⟨place name s.names, pairwise_place name s.increasing⟩

/-- Add all members of a list. -/
def insertAll (s : NameSet) (names : List String) : NameSet := names.foldl insert s

/-- The set of the names in a list. -/
def ofList (names : List String) : NameSet := empty.insertAll names

/-- All members of both. -/
def union (s t : NameSet) : NameSet := s.insertAll t.names

/-- Membership test. -/
def contains (s : NameSet) (name : String) : Bool := s.names.contains name

@[simp] theorem mem_insert {s : NameSet} {name y : String} :
    y ∈ (s.insert name).names ↔ y = name ∨ y ∈ s.names := mem_place

end NameSet

end CellCompiler
