import CellCompiler.CommandLine.Run
import CellCompiler.Json.Target
import CellCompiler.Proofs.Json.Program
import CellCompiler.Proofs.Json.Target

/-!
# JSON forms lose nothing

Finished modules are read back from their JSON forms, as programs are, and both from the text that
is printed, on one line or on several (`json_forms_lossless`).
-/

namespace CellCompiler

theorem NameSet.ofList_names (s : NameSet) : NameSet.ofList s.names = s := by
  have hplace : ∀ {xs : List String} {name : String}, (∀ x ∈ xs, x < name) →
      place name xs = xs ++ [name] := by
    intro xs name hxs
    induction xs with
    | nil => rfl
    | cons x xs ih =>
      rw [List.forall_mem_cons] at hxs
      have hnot : ¬ name < x := String.lt_asymm hxs.1
      have hne : name ≠ x := fun h => String.lt_irrefl x (h ▸ hxs.1)
      rw [place, if_neg hnot, if_neg hne, ih hxs.2, List.cons_append]
  have hfold : ∀ (names : List String) (t : NameSet), (t.names ++ names).Pairwise (· < ·) →
      (t.insertAll names).names = t.names ++ names := by
    intro names
    induction names with
    | nil => simp [insertAll]
    | cons name names ih =>
      intro t hpairwise
      have hlast : ∀ x ∈ t.names, x < name := fun x hx =>
        (List.pairwise_append.1 hpairwise).2.2 x hx name (by simp)
      have hinsert : (t.insert name).names = t.names ++ [name] := hplace hlast
      have hrest := ih (t.insert name) (by rw [hinsert]; simpa using hpairwise)
      rw [hinsert] at hrest
      simpa [insertAll] using hrest
  have hnames := hfold s.names empty s.increasing
  obtain ⟨names, hincreasing⟩ := s
  simp only [ofList]
  generalize hset : empty.insertAll names = t at hnames ⊢
  obtain ⟨names', hincreasing'⟩ := t
  obtain rfl : names' = names := hnames
  rfl

namespace Emission

@[simp] theorem Section.plain_toJson (s : Section) : s.toJson.Plain := by
  cases s <;> simp [toJson]

@[simp] theorem Section.ofJson?_toJson (s : Section) : ofJson? s.toJson = some s := by
  cases s <;> simp [toJson, ofJson?, Json.beside?_obj, Json.beside?_obj_alone, Json.nothing?]

@[simp] theorem Kind.ofJson?_jsonName (kind : Kind) : ofJson? (.str kind.jsonName) = some kind := by
  rw [ofJson?, Json.choice?_str]
  cases kind <;> rfl

@[simp] theorem Entry.plain_toJson (e : Entry) : e.toJson.Plain := by
  simp [toJson, Json.plain_ofOption]

@[simp] theorem Entry.ofJson?_toJson (e : Entry) : ofJson? e.toJson = some e := by
  have hdefinition :
      Json.option? Target.Item.ofJson? (Json.ofOption Target.Item.toJson e.definition) =
        some e.definition :=
    Json.option?_ofOption (fun item _ => item.ofJson?_toJson) Target.Item.toJson_ne_null
  simp [toJson, ofJson?, Json.fields?_obj, hdefinition, NameSet.ofList_names]

namespace Output

@[simp] theorem plain_toJson (o : Output) : o.toJson.Plain := by
  simp [toJson, Json.plain_ofList]

/-- **Finished modules are read back from their JSON forms.** -/
theorem ofJson?_toJson (o : Output) : ofJson? o.toJson = some o := by
  have hitems (items : List Target.Item) :
      Json.list? Target.Item.ofJson? (Json.ofList Target.Item.toJson items) = some items :=
    Json.list?_ofList fun item _ => item.ofJson?_toJson
  have hfunctions : Json.list? Entry.ofJson? (Json.ofList Entry.toJson o.functions) =
      some o.functions :=
    Json.list?_ofList fun e _ => e.ofJson?_toJson
  simp [toJson, ofJson?, Json.fields?_obj, hitems, hfunctions]

end Output

end Emission

namespace CommandLine

variable {depth : Nat}

/-- What is printed of a plain value is read back, as deep as there is room. -/
theorem parse?_render {j : Json} (h : j.Plain) (pretty : Bool) :
    Json.parse? depth (render pretty j) = some (j.cut depth) := by
  cases pretty with
  | false => exact Json.parse?_compact h
  | true => exact Json.parse?_pretty h

/-- Exactly the values for which there is room are read back. -/
theorem parse?_render_eq_self_iff {j : Json} (h : j.Plain) (pretty : Bool) :
    Json.parse? depth (render pretty j) = some j ↔ j.depth ≤ depth := by
  rw [parse?_render h, Option.some.injEq, Json.cut_eq_self_iff]

theorem program_of_render {p : Program} (hp : p.Unrepeated) (pretty : Bool)
    (hdepth : p.toJson.depth ≤ depth) :
    (Json.parse? depth (render pretty p.toJson)).bind Program.ofJson? = some p := by
  rw [(parse?_render_eq_self_iff p.plain_toJson pretty).2 hdepth, Option.bind_some,
    Program.ofJson?_toJson hp]

theorem output_of_render (o : Emission.Output) (pretty : Bool) (hdepth : o.toJson.depth ≤ depth) :
    (Json.parse? depth (render pretty o.toJson)).bind Emission.Output.ofJson? = some o := by
  rw [(parse?_render_eq_self_iff o.plain_toJson pretty).2 hdepth, Option.bind_some,
    Emission.Output.ofJson?_toJson]

end CommandLine

/-- **JSON forms lose nothing.** A program in which no table and no record repeats a name is read
back from its text with every table in its order, and so is every finished module, if no more than
`CommandLine.fileDepth` arrays and objects stand inside each other. Texts that are deeper are not
read back as the forms that have been printed. -/
theorem json_forms_lossless :
    (∀ p : Program, p.Unrepeated → p.toJson.depth ≤ CommandLine.fileDepth → ∀ pretty,
      (Json.parse? CommandLine.fileDepth (CommandLine.render pretty p.toJson)).bind
        Program.ofJson? = some p) ∧
    (∀ o : Emission.Output, o.toJson.depth ≤ CommandLine.fileDepth → ∀ pretty,
      (Json.parse? CommandLine.fileDepth (CommandLine.render pretty o.toJson)).bind
        Emission.Output.ofJson? = some o) ∧
    (∀ (p : Program) pretty, CommandLine.fileDepth < p.toJson.depth →
      Json.parse? CommandLine.fileDepth (CommandLine.render pretty p.toJson) ≠ some p.toJson) ∧
    ∀ (o : Emission.Output) pretty, CommandLine.fileDepth < o.toJson.depth →
      Json.parse? CommandLine.fileDepth (CommandLine.render pretty o.toJson) ≠ some o.toJson := by
  refine ⟨fun p hp hdepth pretty => CommandLine.program_of_render hp pretty hdepth,
    fun o hdepth pretty => CommandLine.output_of_render o pretty hdepth,
    fun p pretty hdepth hread => ?_, fun o pretty hdepth hread => ?_⟩
  · exact absurd ((CommandLine.parse?_render_eq_self_iff p.plain_toJson pretty).1 hread)
      (Nat.not_le.2 hdepth)
  · exact absurd ((CommandLine.parse?_render_eq_self_iff o.plain_toJson pretty).1 hread)
      (Nat.not_le.2 hdepth)

/-- A program with a record, a default for one of its fields and a function. -/
def corner : Program where
  types := {
    types := ⟨[("Corner", {
      name := "Corner", kind := .struct, fields := [{
        name := "at", index := 0, ty := .named "Point" true,
        default := some (.struct "Point" [("x", .int (-1)), ("y", .int 0)]) }] })]⟩
    functions := ⟨[("zero", {
      name := "zero", selfType := none, params := [], returns := .plain "Int",
      body := .statements [.ret {} (some (.ofInt 0))] })]⟩ }

theorem corner_unrepeated : corner.Unrepeated where
  types := {
    types := by decide
    functions := by decide
    constants := by decide
    decls := by
      simp only [corner, Dict.values, List.map_cons, List.map_nil, List.forall_mem_singleton]
      exact ⟨by decide, by simp [Value.Unrepeated, Value.UnrepeatedFields]⟩
    values := by simp [corner, Dict.values, Dict.empty] }
  plans := ⟨by decide, by decide⟩

theorem corner_lossless : corner.Unrepeated ∧ corner.toJson.depth ≤ CommandLine.fileDepth ∧
    (Json.parse? CommandLine.fileDepth (CommandLine.render true corner.toJson)).bind
      Program.ofJson? = some corner :=
  have hdepth : corner.toJson.depth ≤ CommandLine.fileDepth := by decide +kernel
  ⟨corner_unrepeated, hdepth, json_forms_lossless.1 corner corner_unrepeated hdepth true⟩

/-- Cells of which each refers to the next. -/
def ladder : Nat → Cell
  | 0 => .mk [] []
  | n + 1 => .mk [] [ladder n]

/-- A program with a constant cell that is 61 deep. -/
def steep : Program where
  types := { constants := ⟨[("STEEP", ⟨"STEEP", .plain "Cell", .cell (ladder 61)⟩)]⟩ }

theorem steep_unrepeated : steep.Unrepeated where
  types := {
    types := by decide
    functions := by decide
    constants := by decide
    decls := by simp [steep, Dict.values, Dict.empty]
    values := by simp [steep, Dict.values, Value.Unrepeated] }
  plans := ⟨by decide, by decide⟩

/-- A cell that is a constant need not be deep for the text of its program to be too deep: the program
is not read back. -/
theorem steep_not_read : steep.Unrepeated ∧ ∀ pretty,
    (Json.parse? CommandLine.fileDepth (CommandLine.render pretty steep.toJson)).bind
      Program.ofJson? = none := by
  refine ⟨steep_unrepeated, fun pretty => ?_⟩
  have hlost : (Program.ofJson? (steep.toJson.cut CommandLine.fileDepth)).isNone = true := by
    decide +kernel
  rw [CommandLine.parse?_render steep.plain_toJson, Option.bind_some, Option.isNone_iff_eq_none.1 hlost]

end CellCompiler
