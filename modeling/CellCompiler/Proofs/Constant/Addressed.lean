import CellCompiler.Compile
import CellCompiler.Proofs.Bag.Accepted
import CellCompiler.Proofs.Cell.Tail
import CellCompiler.Proofs.Generate.Construction

/-!
# Constants under their hashes

A literal of a text, an address, a slice or a cell is a call of a constant that is named after the
hash of its cell. A constant that is there already is not looked at: its name alone decides.

* `Embedded.Writes` is the constant that a value is written as;
* `Registry.History.entry_of_isPrefix` says what the history of a registry has put under the name of a
  constant, an induction over its steps;
* `literals_addressed` is the main result: runs of the backend and literals are such histories, and as
  long as different cells have different hashes every literal calls a constant that reads back as its
  cell. Functions that the target's own library is to supply come first, and may take such a name
  (`shadowed_literal`).
-/

namespace CellCompiler

open Emission (Embedded Entry Registry)
open Generate

/-! ### Constants of values -/

/-- The value is not written in place. -/
def Value.isEmbedded : Value → Bool
  | .string _ | .address _ | .slice _ | .cell _ => true
  | _ => false

namespace Emission.Embedded

variable {e e' : Embedded}

/-- The constant that a literal is written as. -/
inductive Writes : Value → Embedded → Prop where
  | string {text : String} {cell : Cell} : stringCell text = .ok cell →
      Writes (.string text) ⟨.string, cell⟩
  | address {a : Address} {cell : Cell} : a.toCell = .ok cell → Writes (.address a) ⟨.address, cell⟩
  | slice (cell : Cell) : Writes (.slice cell) ⟨.slice, cell⟩
  | cell (cell : Cell) : Writes (.cell cell) ⟨.cell, cell⟩

theorem exists_writes_iff {v : Value} : (∃ e, Writes v e) ↔ v.isEmbedded = true := by
  constructor
  · rintro ⟨e, h⟩
    cases h <;> rfl
  · intro h
    cases v with
    | string text => exact (exists_stringCell text).imp' _ fun _ => .string
    | address a => exact a.exists_toCell.imp' _ fun _ => .address
    | slice cell => exact ⟨_, .slice cell⟩
    | cell cell => exact ⟨_, .cell cell⟩
    | _ => simp [Value.isEmbedded] at h

/-! ### Names of constants -/

theorem kind_eq_of_name_eq (h : e.name = e'.name) : e.kind = e'.kind := by
  have hlists := congrArg String.toList h
  simp only [name, String.toList_append] at hlists
  cases hk : e.kind <;> cases hk' : e'.kind <;> simp [hk, hk', Kind.stem] at hlists <;> rfl

theorem hash_eq_of_name_eq (h : e.name = e'.name) : e.cell.hash = e'.cell.hash := by
  rw [name, name, kind_eq_of_name_eq h] at h
  exact Hex.encode_injective ((String.append_right_inj _).1 h)

/-- Constants of ordinary cells, whose names tell them apart. -/
structure Told (es : List Embedded) : Prop where
  budget : ∀ e ∈ es, ∀ d ∈ e.cell.subcells,
    d.bits.length ≤ Cell.maxBits ∧ d.refs.length ≤ Cell.maxRefs
  /-- The depths that are hashed are the depths of the cells. -/
  depth : ∀ e ∈ es, e.cell.depth ≤ Cell.maxDepth
  /-- Different cells have different hashes. -/
  hashes : ∀ e ∈ es, ∀ e' ∈ es, ∀ a ∈ e.cell.subcells, ∀ b ∈ e'.cell.subcells,
    a.hash = b.hash → a = b

variable {es : List Embedded}

theorem Told.eq_of_name_eq (h : Told es) (he : e ∈ es) (he' : e' ∈ es) (hname : e.name = e'.name) :
    e = e' := by
  have hcell := h.hashes e he e' he' _ (Cell.mem_subcells_self _) _ (Cell.mem_subcells_self _)
    (hash_eq_of_name_eq hname)
  have hkind := kind_eq_of_name_eq hname
  cases e
  cases e'
  simp_all

theorem Told.decodeHex_eq_ok_iff (h : Told es) (he : e ∈ es) :
    Bag.decodeHex (Bag.encodeHex e.cell) = .ok e.cell ↔ e.cell.subcells.dedup.length < 2 ^ 56 :=
  Bag.decodeHex_encodeHex_eq_ok_iff
    (fun d hd => (h.budget e he d hd).imp_right fun hrefs => hrefs.trans (by decide))
    (h.hashes e he e he)

end Emission.Embedded

/-! ### What names stand for -/

namespace Emission.Registry.History

variable {table : TypeTable} {es : List Embedded} {r r' : Registry} {name : String} {entry : Entry}

/-- Constants that have been embedded have an entry. -/
theorem exists_entry (h : r.History table es r') {e : Embedded} (he : e ∈ es) :
    ∃ entry, r'.functions.get? e.name = some entry := by
  induction h with
  | refl => simp at he
  | @embed es r r' added _ ih =>
    rw [Registry.embed, Dict.get?_insertNew]
    rcases List.mem_append.1 he with hold | hnew
    · obtain ⟨entry, hentry⟩ := ih hold
      exact ⟨entry, by rw [hentry, Option.some_or]⟩
    · obtain rfl : e = added := by simpa using hnew
      cases r'.functions.get? e.name with
      | none => exact ⟨e.entry, by simp⟩
      | some entry => exact ⟨entry, Option.some_or⟩
  | skip _ _ ih =>
    obtain ⟨entry, hentry⟩ := ih he
    exact ⟨entry, by rw [Registry.skip, Dict.get?_insertNew, hentry, Option.some_or]⟩
  | enter _ _ hr ih =>
    obtain ⟨entry, hentry⟩ := ih he
    exact ⟨entry, register_extends hr _ _ hentry⟩
  | keep _ hfunctions ih =>
    rw [hfunctions]
    exact ih he

/-- Under the name of a constant there is a constant of that name that has been embedded, unless the
name has been left to the target's own library for a function of the program. -/
theorem entry_of_isPrefix (h : ({} : Registry).History table es r) (hgen : "__gen".toList <+: name.toList)
    (hget : r.functions.get? name = some entry) :
    (∃ e ∈ es, e.name = name ∧ entry = e.entry) ∨
      ∃ f, table.HasFunction f ∧ f.body = .native name := by
  generalize hstart : ({} : Registry) = start at h
  induction h with
  | refl =>
    subst hstart
    simp at hget
  | @embed es r r' added _ ih =>
    rw [Registry.embed, Dict.get?_insertNew, Option.or_eq_some_iff] at hget
    rcases hget with hold | ⟨-, hnew⟩
    · refine (ih hold hstart).imp_left ?_
      rintro ⟨e, he, hname⟩
      exact ⟨e, List.mem_append_left _ he, hname⟩
    · by_cases hname : name = added.name
      · obtain rfl : added.entry = entry := by simpa [hname] using hnew
        exact .inl ⟨added, by simp, hname.symm, rfl⟩
      · simp [hname] at hnew
  | @skip es r r' skipped _ hsupplies ih =>
    rw [Registry.skip, Dict.get?_insertNew, Option.or_eq_some_iff] at hget
    rcases hget with hold | ⟨-, hnew⟩
    · exact ih hold hstart
    · obtain rfl : name = skipped := by
        by_contra hname
        simp [hname] at hnew
      -- names of operations on dictionaries begin differently
      refine .inr (hsupplies.resolve_left fun hdict => ?_)
      exact absurd (List.prefix_or_prefix_of_prefix hgen hdict) (by decide)
  | @enter es r r' r'' item place depends _ hnamed hr ih =>
    simp only [register, Except.bind_eq_ok] at hr
    obtain ⟨added, hadded, hr⟩ := hr
    split at hr
    · simp at hr
    · obtain rfl := Except.pure_eq_ok.1 hr
      rw [Dict.get?_insertNew, Option.or_eq_some_iff] at hget
      rcases hget with hold | ⟨-, hnew⟩
      · exact ih hold hstart
      · have hname : name = added.name := by
          by_contra hname
          simp [hname] at hnew
        exact absurd (hname ▸ hgen) (hnamed _ (name?_of_entryOf hadded))
  | keep _ hfunctions ih => exact ih (hfunctions ▸ hget) hstart

/-- As long as different cells have different hashes, a constant has its own entry. -/
theorem get?_name (h : ({} : Registry).History table es r) (htold : Embedded.Told es) {e : Embedded}
    (he : e ∈ es) (hfree : ∀ f, table.HasFunction f → f.body ≠ .native e.name) :
    r.functions.get? e.name = some e.entry := by
  obtain ⟨entry, hentry⟩ := h.exists_entry he
  rcases h.entry_of_isPrefix e.prefix_name hentry with ⟨e', he', hname, rfl⟩ | ⟨f, hf, hbody⟩
  · rw [hentry, htold.eq_of_name_eq he' he hname]
  · exact absurd hbody (hfree f hf)

end Emission.Registry.History

/-! ### Literals -/

namespace Generate

variable {env : Env} {d : Draft} {e : Embedded}

theorem run_pushEmbedded : pushEmbedded e env d = .ok (Target.call e.name [])
    { d with registry := d.registry.embed e, deps := d.deps.insert e.name } := by
  have hembed := @run_embed env e d
  simp only [pushEmbedded, run_bind, callUsed, used, run_modify, run_pure]
  exact ⟨(), _, hembed, _, _, ⟨(), _, rfl, rfl, rfl⟩, rfl, rfl⟩

/-- A literal of a constant always succeeds: it is one step of the registry and a call. -/
theorem run_literal {v : Value} {ty : TypeRef} (h : e.Writes v) : literal v ty env d =
    .ok (Target.call e.name [])
      { d with registry := d.registry.embed e, deps := d.deps.insert e.name } := by
  have hwithin : ∀ fuel, literalWithin fuel v ty env d = pushEmbedded e env d := by
    intro fuel
    cases h with
    | string hcell | address hcell =>
      rw [literalWithin, hcell]
      rfl
    | slice | cell =>
      rw [literalWithin]
      rfl
  rw [← run_pushEmbedded, ← hwithin]
  rfl

/-- A sequence of literals. -/
theorem run_literals {calls : List (Value × TypeRef)} {es : List Embedded}
    (h : List.Forall₂ (fun call e => e.Writes call.1) calls es) {table : TypeTable}
    {before : List Embedded} {r : Registry} (hd : r.History table before d.registry) :
    ∃ d', calls.mapM (fun call => literal call.1 call.2) env d =
        .ok (es.map fun e => Target.call e.name []) d' ∧
      r.History table (before ++ es) d'.registry := by
  induction h generalizing before d with
  | nil => exact ⟨d, run_pure.2 ⟨rfl, rfl⟩, by simpa using hd⟩
  | @cons call e calls es hcall _ ih =>
    have hstep := @run_literal env d _ _ call.2 hcall
    obtain ⟨d', hrun, hhistory⟩ := ih (d := { d with
      registry := d.registry.embed e, deps := d.deps.insert e.name }) (hd.embed e)
    refine ⟨d', ?_, by simpa using hhistory⟩
    simp only [List.mapM_cons, run_bind, run_pure, List.map_cons]
    exact ⟨_, _, hstep, _, _, hrun, rfl, rfl⟩

end Generate

/-- **Literals are called under the hashes of their cells.** What a run of the backend does to its
registry is a history. From there on, any sequence of literals of texts, addresses, slices and cells
succeeds, prolongs the history by the constants that they are written as, and gives their calls. In
every history in which cells keep to the budget and the depth of ordinary cells, different cells have
different hashes and no function that is left to the target's own library has the name of one of the
constants, the registry has each constant, those that had been there before included: instructions
with the bag of its cell, which reads back as the cell exactly if a bag can tell how many different
subcells there are. Nothing else is there under such names, and constants of one kind share a name
exactly if they share the cell. -/
theorem literals_addressed (env : Env) :
    (∀ r, Generate.run env emitShared = .ok ((), r) →
      ∃ es, ({} : Registry).History env.program.types es r) ∧
    (∀ contract ∈ env.program.types.types.values, ∀ roots r,
      Generate.run env (do emitShared; emitContract contract) = .ok (roots, r) →
        ∃ es, ({} : Registry).History env.program.types es r) ∧
    (∀ v, (∃ e, Embedded.Writes v e) ↔ v.isEmbedded = true) ∧
    (∀ (d : Draft) before (calls : List (Value × TypeRef)) es,
      ({} : Registry).History env.program.types before d.registry →
      List.Forall₂ (fun call e => Embedded.Writes call.1 e) calls es →
      ∃ d', calls.mapM (fun call => literal call.1 call.2) env d =
          .ok (es.map fun e => Target.call e.name []) d' ∧
        ({} : Registry).History env.program.types (before ++ es) d'.registry) ∧
    ∀ es r, ({} : Registry).History env.program.types es r → Embedded.Told es →
      (∀ e ∈ es, ∀ f, env.program.types.HasFunction f → f.body ≠ .native e.name) →
      (∀ e ∈ es, ∃ entry, r.functions.get? e.name = some entry ∧
        entry.definition = some (.asm { name := e.name, returns := e.kind.ty }
          ["B\x7b" ++ Bag.encodeHex e.cell ++ "\x7d B>boc " ++ e.kind.push]) ∧
        (Bag.decodeHex (Bag.encodeHex e.cell) = .ok e.cell ↔
          e.cell.subcells.dedup.length < 2 ^ 56)) ∧
      (∀ name entry, "__gen".toList <+: name.toList → r.functions.get? name = some entry →
        (∃ e ∈ es, e.name = name) ∨ ∃ f, env.program.types.HasFunction f ∧ f.body = .native name) ∧
      ∀ e ∈ es, ∀ e' ∈ es, e.kind = e'.kind → (e.name = e'.name ↔ e.cell = e'.cell) := by
  refine ⟨fun r h => (emitShared_assembles.assembled h).2.history,
    fun contract hcontract roots r h => ?_, fun v => Embedded.exists_writes_iff,
    fun d before calls es hd hcalls => run_literals hcalls hd, fun es r h htold hfree => ⟨?_, ?_, ?_⟩⟩
  · have hcompiles : Assembles env False (do emitShared; emitContract contract) fun _ => True :=
      emitShared_assembles.andThen fun _ => emitContract_assembles hcontract
    exact (hcompiles.assembled h).2.history
  · intro e he
    exact ⟨e.entry, h.get?_name htold he (hfree e he), rfl, htold.decodeHex_eq_ok_iff he⟩
  · intro name entry hgen hget
    exact (h.entry_of_isPrefix hgen hget).imp_left fun ⟨e, he, hname, _⟩ => ⟨e, he, hname⟩
  · intro e he e' he' hkind
    refine ⟨fun hname => congrArg Embedded.cell (htold.eq_of_name_eq he he' hname), fun hcell => ?_⟩
    rw [Embedded.name, Embedded.name, hkind, hcell]

/-- The constant of a short text. -/
def greetingConstant : Embedded := ⟨.string, .mk (Bits.ofBytes (utf8 "hi")) []⟩

theorem told_greeting {es : List Embedded} (h : ∀ e ∈ es, e.cell = greetingConstant.cell) :
    Embedded.Told es := by
  have hsubcells : ∀ e ∈ es, e.cell.subcells = [greetingConstant.cell] := fun e he => by
    rw [h e he]
    rfl
  refine ⟨fun e he d hd => ?_, fun e he => ?_, fun e he e' he' a ha b hb _ => ?_⟩
  · rw [hsubcells e he, List.mem_singleton] at hd
    subst hd
    decide
  · rw [h e he]
    decide
  · rw [hsubcells e he, List.mem_singleton] at ha
    rw [hsubcells e' he', List.mem_singleton] at hb
    rw [ha, hb]

theorem writes_greeting : Embedded.Writes (.string "hi") greetingConstant := .string (by decide)

/-- A program whose only function is supplied by the target under a given name. -/
def suppliedEnv (name : String) : Env where
  program :=
    { types := { TypeTable.primitives with
        functions := .ofList [("shadow", { name := "shadow", returns := .plain "String", body := .native name })] }
      plans := {} }
  evaluate := noConstants

/-- A text that is written twice, and its cell as a slice in between. -/
theorem greeting_addressed :
    ∃ d', [(.string "hi", .plain "String"), (.slice greetingConstant.cell, .plain "Slice"),
          (.string "hi", .plain "String")].mapM
        (fun call : Value × TypeRef => literal call.1 call.2) (suppliedEnv "random") {} =
        .ok [Target.call greetingConstant.name [], Target.call (Embedded.name ⟨.slice, greetingConstant.cell⟩) [],
          Target.call greetingConstant.name []] d' ∧
      ∃ entry, d'.registry.functions.get? greetingConstant.name = some entry ∧
        entry.definition = some greetingConstant.item ∧
        Bag.decodeHex (Bag.encodeHex greetingConstant.cell) = .ok greetingConstant.cell := by
  obtain ⟨-, -, -, hliterals, haddressed⟩ := literals_addressed (suppliedEnv "random")
  obtain ⟨d', hrun, hhistory⟩ := hliterals {} []
    [(.string "hi", .plain "String"), (.slice greetingConstant.cell, .plain "Slice"),
      (.string "hi", .plain "String")] [greetingConstant, ⟨.slice, greetingConstant.cell⟩, greetingConstant] (.refl _)
    (.cons writes_greeting (.cons (.slice _) (.cons writes_greeting .nil)))
  have hcells : ∀ e : Embedded, e ∈ [] ++ [greetingConstant, ⟨.slice, greetingConstant.cell⟩, greetingConstant] →
      e.cell = greetingConstant.cell := by
    simp
  have hfree : ∀ e : Embedded, e ∈ [] ++ [greetingConstant, ⟨.slice, greetingConstant.cell⟩, greetingConstant] → ∀ f,
      (suppliedEnv "random").program.types.HasFunction f → f.body ≠ .native e.name := by
    intro e _ f hf hbody
    have hall : ∀ f, (suppliedEnv "random").program.types.HasFunction f → f.body = .native "random" := by
      rintro f (hf | ⟨decl, hdecl, hf⟩)
      · obtain rfl : f = _ := List.mem_singleton.1 hf
        rfl
      · have hnone : ∀ decl ∈ TypeTable.primitives.types.values, decl.functions.values = [] := by
          decide
        rw [hnone decl hdecl] at hf
        simp at hf
    have hname : "random" = e.name := by simpa [hall f hf] using hbody
    exact absurd (hname ▸ e.prefix_name) (by decide)
  obtain ⟨entry, hentry, hdefinition, hread⟩ :=
    (haddressed _ _ hhistory (told_greeting hcells) hfree).1 greetingConstant (by simp)
  exact ⟨d', hrun, entry, hentry, hdefinition, hread.2 (by decide)⟩

/-- The target's own library is to supply a function under the name of the constant: the literal calls
that function, and the constant is not entered. And there are ordinary cells that no constant holds, as
their bags are not read back. -/
theorem shadowed_literal :
    (∃ d d' entry, emitShared (suppliedEnv greetingConstant.name) {} = .ok () d ∧
      Embedded.Writes (.string "hi") greetingConstant ∧ Embedded.Told [greetingConstant] ∧
      literal (.string "hi") (.plain "String") (suppliedEnv greetingConstant.name) d =
        .ok (Target.call greetingConstant.name []) d' ∧
      d'.registry.functions.get? greetingConstant.name = some entry ∧ entry.definition = none) ∧
    ∃ cell : Cell, (∀ d ∈ cell.subcells, d.bits.length ≤ Cell.maxBits ∧ d.refs.length ≤ Cell.maxRefs) ∧
      cell.depth ≤ Cell.maxDepth ∧ Bag.decodeHex (Bag.encodeHex cell) ≠ .ok cell := by
  have hrun : ∀ name, emitShared (suppliedEnv name) {} =
      .ok () { registry := Registry.skip {} name } := fun _ => rfl
  refine ⟨⟨_, _, .skipped greetingConstant.name, hrun _, writes_greeting, told_greeting (by simp),
    run_literal writes_greeting, ?_, rfl⟩, Bag.exists_unreadable⟩
  simp [Registry.embed, Registry.skip, Dict.get?_insertNew]

end CellCompiler
