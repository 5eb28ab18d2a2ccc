/-!
# Ordered tables

`Dict α` is a table from names to values that remembers the order in which names were first
entered. Entering a name again keeps its place and replaces its value.
-/

namespace CellCompiler

/-- A table from names to values in the order of first entry. -/
structure Dict (α : Type) where
  /-- The entries, each name at most once when the table is built with `insert`. -/
  entries : List (String × α) := []
  deriving DecidableEq, Repr

namespace Dict

variable {α : Type}

/-- The table without entries. -/
def empty : Dict α := ⟨[]⟩

instance : Inhabited (Dict α) := ⟨empty⟩

/-- Names in order. -/
def keys (d : Dict α) : List String := d.entries.map Prod.fst

/-- Values in order. -/
def values (d : Dict α) : List α := d.entries.map Prod.snd

/-- Number of entries. -/
def size (d : Dict α) : Nat := d.entries.length

/-- The value under a name. -/
def get? (d : Dict α) (name : String) : Option α := d.entries.lookup name

/-- Whether a name has a value. -/
def contains (d : Dict α) (name : String) : Bool := (d.get? name).isSome

/-- Replace the value of a name in its place, or add the name at the end. -/
def put (name : String) (value : α) : List (String × α) → List (String × α)
  | [] => [(name, value)]
  | (k, v) :: rest => if k = name then (name, value) :: rest else (k, v) :: put name value rest

/-- Enter a value under a name. -/
def insert (d : Dict α) (name : String) (value : α) : Dict α := ⟨put name value d.entries⟩

/-- Enter a value under a name that has none yet. -/
def insertNew (d : Dict α) (name : String) (value : α) : Dict α :=
  if d.contains name then d else ⟨d.entries ++ [(name, value)]⟩

/-- The table that results from entering each pair in turn. -/
def ofList (pairs : List (String × α)) : Dict α :=
  pairs.foldl (fun d p => d.insert p.1 p.2) empty

/-- Position of a name. -/
def index? (d : Dict α) (name : String) : Option Nat := d.keys.findIdx? (· == name)

end Dict

end CellCompiler
