/-!
# JSON values

Objects keep their members in order, and a name may occur more than once in them. Numbers without
a fraction and an exponent are integers; of all others the text is kept. A text may also hold parts
that are well formed and still cannot be read; such a part does no harm where nobody looks at it.
-/

namespace CellCompiler

/-- A JSON value. -/
inductive Json where
  | null
  | bool (value : Bool)
  | int (value : Int)
  /-- A number with a fraction or an exponent. -/
  | decimal (text : String)
  | str (text : String)
  | arr (items : List Json)
  | obj (members : List (String × Json))
  /-- A part that cannot be read: it is nested too deep, it is too large for a number, or it has
  half of a pair in place of a character. -/
  | unreadable

namespace Json

instance : Inhabited Json := ⟨null⟩

mutual

/-- Number of nested arrays and objects. -/
def depth : Json → Nat
  | arr items => depthItems items + 1
  | obj members => depthMembers members + 1
  | _ => 0

/-- Depth of the deepest item. -/
def depthItems : List Json → Nat
  | [] => 0
  | j :: js => max j.depth (depthItems js)

/-- Depth of the deepest member. -/
def depthMembers : List (String × Json) → Nat
  | [] => 0
  | (_, j) :: rest => max j.depth (depthMembers rest)

end

mutual

/-- The value can be read to its last part. -/
def isReadable : Json → Bool
  | arr items => areReadable items
  | obj members => haveReadable members
  | unreadable => false
  | _ => true

/-- All items can be read. -/
def areReadable : List Json → Bool
  | [] => true
  | j :: js => j.isReadable && areReadable js

/-- The values of all members can be read. -/
def haveReadable : List (String × Json) → Bool
  | [] => true
  | (_, j) :: rest => j.isReadable && haveReadable rest

end

/-- Replace the value of the first member of a name, or add the member at the end. -/
def putMember (name : String) (value : Json) : List (String × Json) → List (String × Json)
  | [] => [(name, value)]
  | (k, v) :: rest => if k = name then (k, value) :: rest else (k, v) :: putMember name value rest

/-- Keep each name once, at its first place and with its last value. -/
def dropRepeated (members : List (String × Json)) : List (String × Json) :=
  members.foldl (fun done m => putMember m.1 m.2 done) []

mutual

/-- The value in which no object repeats a name: the last value of a name stands at its first
place. -/
def unique : Json → Json
  | arr items => arr (uniqueItems items)
  | obj members => obj (dropRepeated (uniqueMembers members))
  | j => j

/-- `unique` for items. -/
def uniqueItems : List Json → List Json
  | [] => []
  | j :: js => j.unique :: uniqueItems js

/-- `unique` for the values of members. -/
def uniqueMembers : List (String × Json) → List (String × Json)
  | [] => []
  | (name, j) :: rest => (name, j.unique) :: uniqueMembers rest

end

/-- A natural number. -/
def ofNat (n : Nat) : Json := int n

/-- A list of values. -/
def ofList {α : Type} (f : α → Json) (items : List α) : Json := arr (items.map f)

/-- A value or null. -/
def ofOption {α : Type} (f : α → Json) : Option α → Json
  | some a => f a
  | none => null

end Json

end CellCompiler
