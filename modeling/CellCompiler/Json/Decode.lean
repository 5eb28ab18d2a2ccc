import CellCompiler.Dict
import CellCompiler.Json.Basic

/-!
# Reading data from JSON values

A decoder takes a JSON value to a datum, or to nothing if the value does not have the right form.

* A record is an object with named members or an array with its fields in order; names that it
  does not know are ignored, but a field that it knows may not occur twice (`Json.fields?`).
* An alternative is told by a member inside its object (`Json.inside?`), by a member beside its
  contents (`Json.beside?`), or by the only name of an object around its contents
  (`Json.around?`).
* What stands in front of the name of an alternative has to be held until the name is known
  (`Json.Stage`). Only what is readable as a whole can be held, whereas parts that are ignored
  where they stand need not be readable.
-/

namespace CellCompiler

namespace Json

/-! ### Scalars -/

/-- A truth value. -/
def bool? : Json → Option Bool
  | bool b => some b
  | _ => none

/-- A text. -/
def str? : Json → Option String
  | str text => some text
  | _ => none

/-- An integer. -/
def int? : Json → Option Int
  | int v => some v
  | _ => none

/-- A natural number below `bound`. -/
def nat? (bound : Nat) : Json → Option Nat
  | int (.ofNat n) => if n < bound then some n else none
  | _ => none

/-- A number of sixteen bits. -/
def uint16? (j : Json) : Option UInt16 := (j.nat? UInt16.size).map UInt16.ofNat

/-- A number of thirty-two bits. -/
def uint32? (j : Json) : Option UInt32 := (j.nat? UInt32.size).map UInt32.ofNat

/-- A number of sixty-four bits. -/
def uint64? (j : Json) : Option UInt64 := (j.nat? UInt64.size).map UInt64.ofNat

/-- The items of an array. -/
def arr? : Json → Option (List Json)
  | arr items => some items
  | _ => none

/-- The members of an object. -/
def obj? : Json → Option (List (String × Json))
  | obj members => some members
  | _ => none

/-- A list. -/
def list? {α : Type} (f : Json → Option α) (j : Json) : Option (List α) := do
  (← j.arr?).mapM f

/-- A value or null. -/
def option? {α : Type} (f : Json → Option α) : Json → Option (Option α)
  | null => some none
  | j => (f j).map some

/-- A table: an object whose members are entered in turn. -/
def dict? {α : Type} (f : Json → Option α) (j : Json) : Option (Dict α) := do
  let entries ← (← j.obj?).mapM fun (name, value) => do
    return (name, ← f value)
  return .ofList entries

/-! ### Integers of any size -/

/-- The radix in which integers are written: a digit has thirty-two bits. -/
def limbRadix : Nat := UInt32.size

/-- The number with these digits in radix `limbRadix`, the lowest first. -/
def ofLimbs (limbs : List Nat) : Nat := limbs.foldr (fun limb n => limb + limbRadix * n) 0

/-- The digits of a number in radix `limbRadix`, the lowest first; `fuel` bounds their count. -/
def limbs : (fuel : Nat) → Nat → List Nat
  | 0, _ => []
  | fuel + 1, n => if n = 0 then [] else n % limbRadix :: limbs fuel (n / limbRadix)

/-- An integer as its sign and the digits of its magnitude. -/
def ofInt (v : Int) : Json := arr [int v.sign, ofList ofNat (limbs (v.natAbs.log2 + 1) v.natAbs)]

/-- An integer from its sign and the digits of its magnitude. -/
def bigInt? : Json → Option Int
  | arr [int sign, limbs] => do
    let limbs ← limbs.list? (nat? limbRadix)
    if -1 ≤ sign ∧ sign ≤ 1 then return sign * ofLimbs limbs else none
  | _ => none

/-! ### Records -/

/-- The only member of a name. No member is an answer too, but several members are not. -/
def member? (members : List (String × Json)) (name : String) : Option (Option Json) :=
  match members.filter (·.1 == name) with
  | [] => some none
  | [(_, j)] => some (some j)
  | _ => none

/-- The fields of a record, where they are present. In an array at least `least` must be. -/
def fields? (names : List String) (least : Nat) : Json → Option (List (Option Json))
  | obj members => names.mapM (member? members)
  | arr items =>
    if least ≤ items.length ∧ items.length ≤ names.length then
      some (items.map some ++ List.replicate (names.length - items.length) none)
    else none
  | _ => none

/-- A field that must be present. -/
def required {α : Type} (f : Json → Option α) : Option Json → Option α
  | some j => f j
  | none => none

/-- A field with a value of its own when it is absent. -/
def defaulted {α : Type} (value : α) (f : Json → Option α) : Option Json → Option α
  | some j => f j
  | none => some value

/-- A field that may be absent or null. -/
def nullable {α : Type} (f : Json → Option α) : Option Json → Option (Option α)
  | some j => j.option? f
  | none => some none

/-- The fields of a record that must be an object. -/
def namedFields? (names : List String) (j : Json) : Option (List (Option Json)) := do
  names.mapM (member? (← j.obj?))

/-! ### Stages -/

/-- How a value comes to its decoder. -/
inductive Stage where
  /-- It is read where it stands. -/
  | direct
  /-- It was held until the alternative around it was known. -/
  | held
  deriving DecidableEq, Repr

/-- Hold a value. What is held already has been found readable before. -/
def hold? : Stage → Json → Option Json
  | .direct, j => if j.isReadable then some j else none
  | .held, j => some j

/-! ### Alternatives -/

/-- The members of an object without those of a name. -/
def without (name : String) (members : List (String × Json)) : List (String × Json) :=
  members.filter (·.1 != name)

/-- The name of one of several alternatives. In a held value its place among them will do too. -/
def nameAmong? (stage : Stage) (names : List String) : Json → Option String
  | str name => some name
  | int (.ofNat place) =>
    match stage with
    | .direct => none
    | .held => names[place]?
  | _ => none

/-- An alternative told by a member inside its object, or by the first item of its array: the name
of the alternative and what is left, which is held from then on. -/
def inside? (stage : Stage) (tag : String) (names : List String) : Json → Option (String × Json)
  | obj members => do
    let name ← required (nameAmong? stage names) (← member? members tag)
    return (name, ← hold? stage (obj (without tag members)))
  | arr (first :: items) => do
    return (← nameAmong? stage names first, ← hold? stage (arr items))
  | _ => none

/-- An alternative told by the only name of an object around its contents, or by a text if it has
no contents. -/
def around? : Json → Option (String × Option Json)
  | str name => some (name, none)
  | obj [(name, j)] => some (name, some j)
  | _ => none

/-- An alternative inside whose object nothing more is needed. -/
def nothingInside? : Json → Option Unit
  | obj _ => some ()
  | arr [] => some ()
  | _ => none

/-- The contents of an alternative that has none. -/
def nothing? : Option Json → Option Unit
  | none => some ()
  | some null => some ()
  | some _ => none

/-- A name without contents. In a held value an empty object counts as no contents. -/
def name? (stage : Stage) (j : Json) : Option String := do
  let (name, content) ← j.around?
  match stage, content with
  | .held, some (obj []) => return name
  | _, content =>
    nothing? content
    return name

/-- One of several names. -/
def choice? {α : Type} (stage : Stage) (cases : List (String × α)) (j : Json) : Option α := do
  cases.lookup (← j.name? stage)

/-- The member of the first name comes before that of the second. -/
def comesFirst (first second : String) (members : List (String × Json)) : Bool :=
  (members.find? fun m => m.1 == first || m.1 == second).any (·.1 == first)

/-- An alternative told by a member beside its contents, or by the first of two items: its name, the
stage of its contents and the contents. They are held if they come before the name. -/
def beside? (stage : Stage) (tag content : String) (names : List String) :
    Json → Option (String × Stage × Option Json)
  | obj members => do
    let name ← required (name? stage) (← member? members tag)
    let found ← member? members content
    if comesFirst content tag members then
      return (name, .held, ← found.mapM (hold? stage))
    else return (name, stage, found)
  | arr [first, j] => do return (← nameAmong? stage names first, stage, some j)
  | _ => none

end Json

end CellCompiler
