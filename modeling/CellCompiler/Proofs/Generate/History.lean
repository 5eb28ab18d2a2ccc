import CellCompiler.Generate.Helper
import CellCompiler.Generate.Literal
import CellCompiler.Proofs.Dict
import CellCompiler.Proofs.Target.Callees

/-!
# The history of a registry

Code that is generated from a program refers to functions of its types, to its own functions, to
functions that the target supplies for it, and to helpers and constants. Only the entry points of a
contract also refer to the function that stores its state. What generators do to a registry is a
sequence of steps of four kinds: a constant is embedded, a name is left to the target's own library, a
function is entered, or only what is no function changes. All that is ever known of a constant is its
name, so the history of a registry decides what the name stands for.

* `TypeTable.Mentions` says which names any code may refer to;
* `Emission.Entry.Auxiliary` describes what is entered while another function is constructed;
* `Emission.Registry.Develops` says that a registry keeps what it has and what its new functions are;
* `Emission.Embedded` is a constant that pushes an embedded cell;
* `Emission.Registry.History` is a sequence of steps, with the constants that are embedded on the way
  in their order, those that are there already included.
-/

namespace CellCompiler

/-! ### Names that code refers to -/

/-- The function is declared in the program, by itself or for a type. -/
def TypeTable.HasFunction (table : TypeTable) (f : Function) : Prop :=
  f ∈ table.functions.values ∨ ∃ decl ∈ table.types.values, f ∈ decl.functions.values

/-- The names that any code of a program may refer to. -/
inductive TypeTable.Mentions (table : TypeTable) : String → Prop where
  | ofType {type suffix : String} : suffix ≠ "contract_store" →
      table.Mentions (Name.ofType type suffix)
  | global {name : String} {f : Function} : table.functions.get? name = some f →
      table.Mentions (Name.globalFunction name)
  | function {f : Function} : table.HasFunction f → table.Mentions (Name.globalFunction f.name)
  | native {f : Function} {name : String} : table.HasFunction f → f.body = .native name →
      table.Mentions name
  /-- Helpers, operations on dictionaries and constants. -/
  | internal {name : String} : "__".toList <+: name.toList → table.Mentions name

namespace TypeTable

variable {table : TypeTable}

theorem mentions_method {type name : String} : table.Mentions (Name.method type name) :=
  .ofType fun h => by simpa using congrArg String.toList h

theorem mentions_getter {type field : String} : table.Mentions (Name.getter type field) :=
  .ofType fun h => by simpa using congrArg String.toList h

theorem mentions_notMut {type suffix : String} :
    table.Mentions (Name.notMut (Name.ofType type suffix)) := by
  have heq : Name.notMut (Name.ofType type suffix) = Name.ofType type (suffix ++ "$not_mut") := by
    simp [Name.notMut, Name.ofType, String.append_assoc]
  rw [heq]
  refine .ofType fun h => ?_
  have hlast := congrArg (fun s : String => s.toList.getLast?) h
  simp at hlast

/-- The target's own library is to supply a function under this name: an operation on dictionaries, or
the function behind one of the program. -/
def Supplies (table : TypeTable) (name : String) : Prop :=
  Helper.dictionaryStart.toList <+: name.toList ∨
    ∃ f, table.HasFunction f ∧ f.body = .native name

theorem Supplies.of_isDictionary {name : String} (h : Helper.isDictionary name = true) :
    table.Supplies name := by
  simp only [Helper.isDictionary, Bool.and_eq_true, Plan.dropStart?] at h
  by_cases hpre : Helper.dictionaryStart.toList.isPrefixOf name.toList = true
  · exact .inl (List.isPrefixOf_iff_prefix.1 hpre)
  · simp [hpre] at h

end TypeTable

namespace Emission

/-- All calls in an entry are to names that any code may refer to. An entry without code belongs to
the target's own library. -/
structure Entry.Quiet (table : TypeTable) (entry : Entry) : Prop where
  declared : ∀ item ∈ entry.definition, item.Declared table.Mentions
  supplied : entry.definition = none → table.Supplies entry.name

/-- What is entered while a function is constructed: a helper under its name, or a constant, which
pushes what it is given by instructions. -/
def Auxiliary (item : Target.Item) : Prop :=
  (∃ name h, Helper.ofName? name = some h ∧ item = h.item name) ∨
    ∃ name ty code, "__gen".toList <+: name.toList ∧ item = .asm { name, returns := ty } code

/-- The entry is none of the functions that are constructed, and refers to names that any code may
refer to. -/
structure Entry.Auxiliary (table : TypeTable) (entry : Entry) : Prop where
  quiet : entry.Quiet table
  auxiliary : ∀ item ∈ entry.definition, Emission.Auxiliary item

/-- The entry is special, or all calls in it are to names that any code may refer to. -/
def Entry.QuietUnless (special : Target.Item → Prop) (table : TypeTable) (entry : Entry) : Prop :=
  (∃ item ∈ entry.definition, special item) ∨ entry.Quiet table

theorem Entry.Quiet.of_definition {table : TypeTable} {entry : Entry} {item : Target.Item}
    (hentry : entry.definition = some item) (h : item.Declared table.Mentions) : entry.Quiet table := by
  refine ⟨fun other hother => ?_, by simp [hentry]⟩
  obtain rfl : item = other := by simpa [hentry] using hother
  exact h

theorem Entry.Auxiliary.of_definition {table : TypeTable} {entry : Entry} {item : Target.Item}
    (hentry : entry.definition = some item) (h : item.Declared table.Mentions)
    (hitem : Emission.Auxiliary item) : entry.Auxiliary table := by
  refine ⟨.of_definition hentry h, fun other hother => ?_⟩
  obtain rfl : item = other := by simpa [hentry] using hother
  exact hitem

theorem Entry.auxiliary_skipped {table : TypeTable} {name : String} (h : table.Supplies name) :
    (skipped name).Auxiliary table :=
  ⟨⟨by simp [skipped], fun _ => h⟩, by simp [skipped]⟩

namespace Registry

/-- Every entry of a registry is kept. -/
def Extends (r r' : Registry) : Prop :=
  ∀ name entry, r.functions.get? name = some entry → r'.functions.get? name = some entry

/-- The global variable is declared. -/
def Declares (r : Registry) (name : String) : Prop := r.globals.contains name = true

/-- The registry keeps every entry and every global variable, it enters only functions, and all new
ones have a property. -/
structure Develops (new : Entry → Prop) (r r' : Registry) : Prop where
  kept : r.Extends r'
  constants : r'.constants = r.constants
  declares : ∀ name, r.Declares name → r'.Declares name
  new : ∀ name entry, r'.functions.get? name = some entry →
    r.functions.get? name = some entry ∨ new entry

variable {new : Entry → Prop} {r r' r'' : Registry}

theorem Extends.refl (r : Registry) : r.Extends r := fun _ _ h => h

theorem Extends.trans (h : r.Extends r') (h' : r'.Extends r'') : r.Extends r'' :=
  fun name entry hget => h' name entry (h name entry hget)

theorem Develops.refl (r : Registry) : r.Develops new r :=
  ⟨.refl r, rfl, fun _ h => h, fun _ _ h => .inl h⟩

theorem Develops.trans (h : r.Develops new r') (h' : r'.Develops new r'') : r.Develops new r'' := by
  refine ⟨h.kept.trans h'.kept, h'.constants.trans h.constants,
    fun name hname => h'.declares name (h.declares name hname), fun name entry hget => ?_⟩
  rcases h'.new name entry hget with hold | hnew
  · exact h.new name entry hold
  · exact .inr hnew

theorem Develops.mono {more : Entry → Prop} (h : r.Develops new r')
    (hmore : ∀ entry, new entry → more entry) : r.Develops more r' :=
  ⟨h.kept, h.constants, h.declares, fun name entry hget => (h.new name entry hget).imp_right (hmore entry)⟩

/-- Nothing but the header has changed, or there are more global variables. -/
theorem develops_of_eq (hfunctions : r'.functions = r.functions) (hconstants : r'.constants = r.constants)
    (hdeclares : ∀ name, r.Declares name → r'.Declares name) : r.Develops new r' :=
  ⟨fun _ _ h => hfunctions ▸ h, hconstants, hdeclares, fun _ _ h => .inl (hfunctions ▸ h)⟩

/-- Declaring a global variable declares it, and all that were declared before still are. -/
theorem declares_addGlobal {ty : Target.Ty} {declared name : String} :
    (r.addGlobal ty declared).Declares name ↔ name = declared ∨ r.Declares name := by
  simp only [Declares, addGlobal, Dict.contains, Dict.get?_insertNew, Option.isSome_or, Bool.or_eq_true]
  by_cases h : name = declared <;> simp [h]

/-- Entering a function. -/
theorem develops_insertNew {entry : Entry} (h : new entry) :
    r.Develops new { r with functions := r.functions.insertNew entry.name entry } := by
  refine ⟨fun name e hget => ?_, rfl, fun _ h => h, fun name e hget => ?_⟩
  · rw [Dict.get?_insertNew, hget, Option.some_or]
  · rw [Dict.get?_insertNew, Option.or_eq_some_iff] at hget
    rcases hget with hold | ⟨-, hnew⟩
    · exact .inl hold
    · obtain rfl : entry = e := by
        by_cases hname : name = entry.name
        · simpa [hname] using hnew
        · simp [hname] at hnew
      exact .inr h

end Registry

/-! ### Embedded constants -/

/-- What an embedded constant is a literal of. -/
inductive Embedded.Kind where
  | string
  | address
  | slice
  | cell
  deriving DecidableEq

/-- A constant of the module that pushes an embedded cell. -/
structure Embedded where
  kind : Embedded.Kind
  cell : Cell

namespace Embedded

/-- What the names of constants of a kind have in common. -/
def Kind.stem : Kind → String
  | string => "__gen_slice_string_"
  | address => "__gen_slice_address_"
  | slice => "__gen_slice_slice_"
  | cell => "__gen_cell_cell_"

/-- What a constant of a kind returns. -/
def Kind.ty : Kind → Target.Ty
  | string | address | slice => .slice
  | cell => .cell

/-- The instructions that follow the embedded bag. -/
def Kind.push : Kind → String
  | string | address | slice => "<s PUSHSLICE"
  | cell => "PUSHREF"

/-- The name of a constant: its kind and the hash of its cell. -/
def name (e : Embedded) : String := e.kind.stem ++ e.cell.hashHex

/-- The instructions of a constant. -/
def code (e : Embedded) : String := "B\x7b" ++ Bag.encodeHex e.cell ++ "\x7d B>boc " ++ e.kind.push

/-- The function that pushes a constant. -/
def item (e : Embedded) : Target.Item := .asm { name := e.name, returns := e.kind.ty } [e.code]

/-- The entry of a constant. -/
def entry (e : Embedded) : Entry := ⟨e.name, some e.item, .asm, .constants, .empty⟩

theorem prefix_name (e : Embedded) : "__gen".toList <+: e.name.toList := by
  rw [name, String.toList_append]
  refine List.IsPrefix.trans ?_ (List.prefix_append _ _)
  cases e.kind <;> decide

end Embedded

namespace Registry

/-- Enter a constant, unless it is there already. -/
def embed (r : Registry) (e : Embedded) : Registry :=
  { r with functions := r.functions.insertNew e.name e.entry }

/-- The second registry comes from the first by steps in which these constants are embedded. -/
inductive History (table : TypeTable) : List Embedded → Registry → Registry → Prop where
  | refl (r : Registry) : History table [] r r
  | embed {es : List Embedded} {r r' : Registry} (e : Embedded) : History table es r r' →
      History table (es ++ [e]) r (r'.embed e)
  /-- The target's own library supplies the function. -/
  | skip {es : List Embedded} {r r' : Registry} {name : String} : History table es r r' →
      table.Supplies name → History table es r (r'.skip name)
  /-- A function that is not named like a constant. -/
  | enter {es : List Embedded} {r r' r'' : Registry} {item : Target.Item} {place : Section}
      {depends : NameSet} : History table es r r' →
      (∀ name, item.name? = some name → ¬ "__gen".toList <+: name.toList) →
      r'.register item place depends = .ok r'' → History table es r r''
  /-- Constants of the target, global variables and the header do not matter. -/
  | keep {es : List Embedded} {r r' r'' : Registry} : History table es r r' →
      r''.functions = r'.functions → History table es r r''

variable {table : TypeTable} {es es' : List Embedded} {r r' r'' : Registry}

theorem History.trans (h : r.History table es r') (h' : r'.History table es' r'') :
    r.History table (es ++ es') r'' := by
  induction h' with
  | refl => simpa using h
  | embed e _ ih => exact List.append_assoc .. ▸ (ih h).embed e
  | skip _ hsupplies ih => exact (ih h).skip hsupplies
  | enter _ hname hr ih => exact (ih h).enter hname hr
  | keep _ hfunctions ih => exact (ih h).keep hfunctions

end Registry

end Emission

end CellCompiler
